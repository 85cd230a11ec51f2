import LiveMarkup.Proofs.Document.Branch
import Mathlib.Data.Option.Basic
import Mathlib.Data.List.Perm.Subperm

/-!
# Scenes

A scene is everything that can be seen under a node, without the numbers of
the nodes: kinds, attributes, properties and children. Scenes are alike if
they differ at most in the order of attributes and in how one and the same
number is written in a property, that is in the sign of zero and in the
pattern of what is not a number.
-/

namespace LiveMarkup

/-! ## Property values -/

/-- Whether two numbers are equal, or both are not numbers. -/
def Number.alike (x y : Number) : Bool :=
  x.equals y || (x.isNaN && y.isNaN)

namespace Number

theorem alike_refl (x : Number) : x.alike x = true := by
  cases h : x.isNaN <;> simp [alike, equals_self, h]

theorem alike_symm {x y : Number} (h : x.alike y = true) : y.alike x = true := by
  simpa [alike, equals_comm x y, Bool.and_comm] using h

theorem alike_trans {x y z : Number} (h : x.alike y = true) (h' : y.alike z = true) :
    x.alike z = true := by
  have hbits : ∀ {a b : Number}, a.bits = b.bits → a = b := fun {a b} hab => by
    cases a; cases b; exact congrArg mk hab
  simp only [alike, equals, Bool.or_eq_true, Bool.and_eq_true, Bool.not_eq_true',
    beq_iff_eq] at h h' ⊢
  rcases h with ⟨⟨hx, hy⟩, hxy⟩ | ⟨hx, hy⟩
  · rcases h' with ⟨⟨-, hz⟩, hyz⟩ | ⟨hy', -⟩
    · refine Or.inl ⟨⟨hx, hz⟩, ?_⟩
      rcases hxy with hxy | hxy
      · rcases hyz with hyz | hyz
        · exact Or.inl (hxy.trans hyz)
        · exact Or.inr ⟨hbits hxy ▸ hyz.1, hyz.2⟩
      · rcases hyz with hyz | hyz
        · exact Or.inr ⟨hxy.1, hbits hyz ▸ hxy.2⟩
        · exact Or.inr ⟨hxy.1, hyz.2⟩
    · simp [hy] at hy'
  · rcases h' with ⟨⟨hy', -⟩, -⟩ | ⟨-, hz⟩
    · simp [hy] at hy'
    · exact Or.inr ⟨hx, hz⟩

end Number

namespace PropertyValue

mutual

/-- Whether two values are the same, with numbers compared as numbers. -/
def alike : PropertyValue → PropertyValue → Bool
  | undefined, undefined => true
  | null, null => true
  | bool a, bool b => a == b
  | number a, number b => a.alike b
  | str a, str b => a == b
  | node a, node b => a == b
  | list as, list bs => alikeAll as bs
  | _, _ => false

def alikeAll : List PropertyValue → List PropertyValue → Bool
  | [], [] => true
  | a :: as, b :: bs => alike a b && alikeAll as bs
  | _, _ => false

end

mutual

theorem alike_refl : ∀ v : PropertyValue, v.alike v = true
  | undefined | null => rfl
  | bool _ | str _ | node _ => by simp [alike]
  | number x => by rw [alike]; exact x.alike_refl
  | list items => by rw [alike]; exact alikeAll_refl items

theorem alikeAll_refl : ∀ vs : List PropertyValue, alikeAll vs vs = true
  | [] => rfl
  | v :: vs => by rw [alikeAll, alike_refl v, alikeAll_refl vs]; rfl

end

mutual

theorem alike_symm : ∀ {v w : PropertyValue}, v.alike w = true → w.alike v = true
  | undefined, w, h => by cases w <;> simp_all [alike]
  | null, w, h => by cases w <;> simp_all [alike]
  | bool a, w, h => by cases w <;> simp_all [alike]
  | str a, w, h => by cases w <;> simp_all [alike]
  | node a, w, h => by cases w <;> simp_all [alike]
  | number a, w, h => by
      cases w with
      | number b =>
          rw [alike] at h ⊢
          exact Number.alike_symm h
      | _ => simp [alike] at h
  | list as, w, h => by
      cases w with
      | list bs =>
          rw [alike] at h ⊢
          exact alikeAll_symm h
      | _ => simp [alike] at h

theorem alikeAll_symm : ∀ {vs ws : List PropertyValue},
    alikeAll vs ws = true → alikeAll ws vs = true
  | [], [], _ => rfl
  | [], _ :: _, h => by simp [alikeAll] at h
  | _ :: _, [], h => by simp [alikeAll] at h
  | v :: vs, w :: ws, h => by
      rw [alikeAll, Bool.and_eq_true] at h ⊢
      exact ⟨alike_symm h.1, alikeAll_symm h.2⟩

end

mutual

theorem alike_trans : ∀ {u v w : PropertyValue},
    u.alike v = true → v.alike w = true → u.alike w = true
  | undefined, v, w, h, h' => by cases v <;> cases w <;> simp_all [alike]
  | null, v, w, h, h' => by cases v <;> cases w <;> simp_all [alike]
  | bool a, v, w, h, h' => by cases v <;> cases w <;> simp_all [alike]
  | str a, v, w, h, h' => by cases v <;> cases w <;> simp_all [alike]
  | node a, v, w, h, h' => by cases v <;> cases w <;> simp_all [alike]
  | number a, v, w, h, h' => by
      cases v with
      | number b =>
          cases w with
          | number c =>
              rw [alike] at h h' ⊢
              exact Number.alike_trans h h'
          | _ => simp [alike] at h'
      | _ => simp [alike] at h
  | list as, v, w, h, h' => by
      cases v with
      | list bs =>
          cases w with
          | list cs =>
              rw [alike] at h h' ⊢
              exact alikeAll_trans h h'
          | _ => simp [alike] at h'
      | _ => simp [alike] at h

theorem alikeAll_trans : ∀ {us vs ws : List PropertyValue},
    alikeAll us vs = true → alikeAll vs ws = true → alikeAll us ws = true
  | [], [], ws, _, h' => h'
  | [], _ :: _, _, h, _ => by simp [alikeAll] at h
  | _ :: _, [], _, h, _ => by simp [alikeAll] at h
  | _ :: _, _ :: _, [], _, h' => by simp [alikeAll] at h'
  | u :: us, v :: vs, w :: ws, h, h' => by
      rw [alikeAll, Bool.and_eq_true] at h h' ⊢
      exact ⟨alike_trans h.1 h'.1, alikeAll_trans h.2 h'.2⟩

end

mutual

theorem alike_of_equals : ∀ {v w : PropertyValue}, v.equals w = true → v.alike w = true
  | undefined, w, h => by cases w <;> simp_all [equals, alike]
  | null, w, h => by cases w <;> simp_all [equals, alike]
  | bool a, w, h => by cases w <;> simp_all [equals, alike]
  | str a, w, h => by cases w <;> simp_all [equals, alike]
  | node a, w, h => by cases w <;> simp_all [equals, alike]
  | number a, w, h => by
      cases w with
      | number b =>
          rw [equals] at h
          rw [alike, Number.alike, h, Bool.true_or]
      | _ => simp [equals] at h
  | list as, w, h => by
      cases w with
      | list bs =>
          rw [equals] at h
          rw [alike]
          exact alikeAll_of_equalsAll h
      | _ => simp [equals] at h

theorem alikeAll_of_equalsAll : ∀ {vs ws : List PropertyValue},
    equalsAll vs ws = true → alikeAll vs ws = true
  | [], [], _ => rfl
  | [], _ :: _, h => by simp [equalsAll] at h
  | _ :: _, [], h => by simp [equalsAll] at h
  | v :: vs, w :: ws, h => by
      rw [equalsAll, Bool.and_eq_true] at h
      rw [alikeAll, alike_of_equals h.1, alikeAll_of_equalsAll h.2]
      rfl

end

/-- Whether two nodes agree on a property that either may lack. -/
abbrev Agree : Option PropertyValue → Option PropertyValue → Prop :=
  Option.Rel fun v w => alike v w = true

theorem Agree.refl : ∀ v : Option PropertyValue, Agree v v
  | some v => .some (alike_refl v)
  | none => .none

theorem Agree.symm {v w : Option PropertyValue} : Agree v w → Agree w v
  | .some h => .some (alike_symm h)
  | .none => .none

theorem Agree.trans {u v w : Option PropertyValue} : Agree u v → Agree v w → Agree u w
  | .some h, .some h' => .some (alike_trans h h')
  | .none, .none => .none

end PropertyValue

open PropertyValue (Agree)

/-! ## Scenes -/

/-- What can be seen of a node and under it. -/
inductive Scene where
  | node (kind : NodeKind) (attributes : Attributes)
      (property : String → Option PropertyValue) (under : List Scene)

namespace Scene

/-- A text node. -/
def text (data : String) : Scene := node (.text data) [] (fun _ => none) []

/-- A comment. -/
def comment (data : String) : Scene := node (.comment data) [] (fun _ => none) []

mutual

/-- The same kind, the same attributes in any order, the same properties, and
children that are alike. -/
def Alike : Scene → Scene → Prop
  | node kind attributes property under, node kind' attributes' property' under' =>
      kind = kind' ∧ attributes.Perm attributes' ∧
        (∀ name, Agree (property name) (property' name)) ∧ AlikeAll under under'

def AlikeAll : List Scene → List Scene → Prop
  | [], [] => True
  | s :: ss, t :: ts => Alike s t ∧ AlikeAll ss ts
  | _, _ => False

end

mutual

theorem Alike.refl : ∀ s : Scene, Alike s s
  | node _ _ property under =>
      ⟨rfl, .refl _, fun name => .refl (property name), AlikeAll.refl under⟩

theorem AlikeAll.refl : ∀ ss : List Scene, AlikeAll ss ss
  | [] => trivial
  | s :: ss => ⟨Alike.refl s, AlikeAll.refl ss⟩

end

mutual

theorem Alike.symm : ∀ {s t : Scene}, Alike s t → Alike t s
  | node _ _ _ _, node _ _ _ _, ⟨hkind, hattributes, hproperties, hunder⟩ =>
      ⟨hkind.symm, hattributes.symm, fun name => (hproperties name).symm,
        AlikeAll.symm hunder⟩

theorem AlikeAll.symm : ∀ {ss ts : List Scene}, AlikeAll ss ts → AlikeAll ts ss
  | [], [], _ => trivial
  | [], _ :: _, h => h.elim
  | _ :: _, [], h => h.elim
  | _ :: _, _ :: _, ⟨h, hrest⟩ => ⟨Alike.symm h, AlikeAll.symm hrest⟩

end

mutual

theorem Alike.trans : ∀ {s t u : Scene}, Alike s t → Alike t u → Alike s u
  | node _ _ _ _, node _ _ _ _, node _ _ _ _, ⟨hk, ha, hp, hu⟩, ⟨hk', ha', hp', hu'⟩ =>
      ⟨hk.trans hk', ha.trans ha', fun name => (hp name).trans (hp' name),
        AlikeAll.trans hu hu'⟩

theorem AlikeAll.trans : ∀ {ss ts us : List Scene},
    AlikeAll ss ts → AlikeAll ts us → AlikeAll ss us
  | [], [], [], _, _ => trivial
  | [], [], _ :: _, _, h' => h'.elim
  | [], _ :: _, _, h, _ => h.elim
  | _ :: _, [], _, h, _ => h.elim
  | _ :: _, _ :: _, [], _, h' => h'.elim
  | _ :: _, _ :: _, _ :: _, ⟨h, hrest⟩, ⟨h', hrest'⟩ =>
      ⟨Alike.trans h h', AlikeAll.trans hrest hrest'⟩

end

theorem AlikeAll.append : ∀ {ss ts ss' ts' : List Scene}, AlikeAll ss ts →
    AlikeAll ss' ts' → AlikeAll (ss ++ ss') (ts ++ ts')
  | [], [], _, _, _, h' => h'
  | [], _ :: _, _, _, h, _ => h.elim
  | _ :: _, [], _, _, h, _ => h.elim
  | _ :: _, _ :: _, _, _, ⟨h, hrest⟩, h' => ⟨h, hrest.append h'⟩

end Scene

/-! ## What a document shows -/

namespace Document

/-- The scene at a node, down to a depth. -/
def sceneWithin (d : Document) : Nat → NodeId → Scene
  | 0, n => .node ((d.kind? n).getD .fragment) (d.attributes n) (d.property? n) []
  | depth + 1, n =>
      .node ((d.kind? n).getD .fragment) (d.attributes n) (d.property? n)
        ((d.children n).map (d.sceneWithin depth))

/-- The scenes at the children of a node. No path down a tree is longer than
the number of nodes. -/
def scenes (d : Document) (n : NodeId) : List Scene :=
  (d.children n).map (d.sceneWithin d.size)

end Document

namespace Branch

mutual

/-- What can be seen of a branch. -/
def scene : Branch → Scene
  | node _ kind attributes properties under =>
      .node kind attributes properties.get? (sceneAll under)

def sceneAll : List Branch → List Scene
  | [] => []
  | b :: bs => scene b :: sceneAll bs

end

@[simp] theorem sceneAll_append (as bs : List Branch) :
    sceneAll (as ++ bs) = sceneAll as ++ sceneAll bs := by
  induction as with
  | nil => rfl
  | cons a as ih => simp [sceneAll, ih]

theorem length_idsAll_le {d : Document} {parent : Option NodeId} {bs : List Branch}
    (h : d.Grows parent bs) (hdistinct : (idsAll bs).Nodup) :
    (idsAll bs).length ≤ d.size := by
  have hsub : idsAll bs ⊆ List.range d.size := fun n hn =>
    List.mem_range.mpr (h.lt_size n hn)
  simpa using (List.subperm_of_subset hdistinct hsub).length_le

/-- Branches are seen whole from any depth that is not less than the number of
their nodes. -/
theorem map_sceneWithin {d : Document} {parent : Option NodeId} {bs : List Branch}
    (h : d.Grows parent bs) {depth : Nat} (hdepth : (idsAll bs).length ≤ depth) :
    (tops bs).map (d.sceneWithin depth) = sceneAll bs := by
  induction bs using Branch.forestInduction generalizing parent depth with
  | nil => rfl
  | cons n kind attributes properties under rest ihUnder ihRest =>
      obtain ⟨⟨hnode, hunder⟩, hrest⟩ := h
      simp only [idsAll_cons, ids_node, List.cons_append, List.length_cons,
        List.length_append] at hdepth
      -- the branch has at least one node, so that one level can be unfolded
      obtain ⟨depth, rfl⟩ : ∃ k, depth = k + 1 := ⟨depth - 1, by omega⟩
      have hproperty : d.property? n = properties.get? :=
        funext fun name => Document.property?_of_node name hnode
      have hattributes : d.attributes n = attributes := by
        simp only [Document.attributes, hnode]
      have hchildren : d.children n = tops under := Document.children_of_node hnode
      rw [tops_cons, List.map_cons, id_node, sceneAll, scene, Document.sceneWithin,
        Document.kind?_of_node hnode, hproperty, hattributes, hchildren,
        ihUnder hunder (by omega), ihRest hrest (by omega)]
      rfl

end Branch

namespace Scene

mutual

/-- A scene as a tree, without properties. -/
def tree : Scene → Tree
  | node kind attributes _ under => .node kind attributes (treeAll under)

def treeAll : List Scene → List Tree
  | [] => []
  | s :: ss => tree s :: treeAll ss

end

theorem treeAll_eq_map (ss : List Scene) : treeAll ss = ss.map tree := by
  induction ss with
  | nil => rfl
  | cons s ss ih => rw [treeAll, ih, List.map_cons]

end Scene

namespace Document

theorem tree_sceneWithin (d : Document) (depth : Nat) (n : NodeId) :
    (d.sceneWithin depth n).tree = d.treeWithin depth n := by
  induction depth generalizing n with
  | zero => rfl
  | succ depth ih =>
      rw [sceneWithin, Scene.tree, Scene.treeAll_eq_map, List.map_map, treeWithin]
      exact congrArg _ (List.map_congr_left fun c _ => ih c)

theorem forest_eq_treeAll (d : Document) (n : NodeId) :
    d.forest n = Scene.treeAll (d.scenes n) := by
  rw [Scene.treeAll_eq_map, scenes, List.map_map]
  exact List.map_congr_left fun c _ => (d.tree_sceneWithin d.size c).symm

end Document

theorem Document.scenes_of_grows {d : Document} {n : NodeId} {bs : List Branch}
    (h : d.Grows (some n) bs) (hdistinct : (Branch.idsAll bs).Nodup)
    (hchildren : d.children n = Branch.tops bs) : d.scenes n = Branch.sceneAll bs := by
  rw [scenes, hchildren, Branch.map_sceneWithin h (Branch.length_idsAll_le h hdistinct)]

end LiveMarkup
