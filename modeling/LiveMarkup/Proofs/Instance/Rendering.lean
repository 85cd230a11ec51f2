import LiveMarkup.Proofs.Instance.Creation
import LiveMarkup.Proofs.Instance.Regions

/-!
# Rendering

Every plain value shows what substitution says, by induction on the value: a
list shows its items one after the other, and a template makes an instance and
supplies it, which is also how an instance that is there already is changed.
-/

namespace LiveMarkup

open Branch (idsAll tops sceneAll)
open Document (Edit Extends)
open Scene (AlikeAll)

variable {markup : CompiledTemplate → List Node}

/-! ## Texts -/

theorem Rendering.text_makes (data : String) :
    (Rendering.text data).Makes markup [.text data] := by
  intro d
  have hnode : (d.create (.text data)).2.nodes[d.size]? = some (.new (.text data)) :=
    d.node_create_self (.text data)
  refine ⟨d.size, .text d.size data, _, [.text d.size data], rfl, ?_, rfl, .refl _⟩
  exact
    { grown := Document.extends_create d (.text data)
      loose := .single (by simp) ⟨⟨hnode, trivial⟩, trivial⟩
      distinct := by simp [Branch.text]
      node_fresh := Nat.le_refl _
      fresh := by simp [Branch.text] }

theorem Supply.shows_text {v : Value} (spans : InstanceId → List NodeId)
    (hlike : v.isTextLike = true) :
    Supply.Shows markup (v, v.rendering spans) (v.scenes markup) where
  fresh := by
    have hrendering : v.rendering spans = .text v.text := by
      cases v with
      | undefined | null | bool | number | str => rfl
      | _ => cases hlike
    rw [hrendering, v.scenes_of_isTextLike markup hlike]
    exact Rendering.text_makes v.text
  again := by
    rintro source values rfl
    simp [Value.isTextLike] at hlike
  text := fun _ => v.scenes_of_isTextLike markup hlike

/-! ## Lists -/

theorem renderItems_makes {supplies : List Supply} {each : List (List Scene)}
    (h : List.Forall₂ (Supply.Shows markup) supplies each) {d : Document} {n : NodeId}
    {before : List NodeId} (hplaced : d.Placed n before [] []) :
    ∃ d' bs, renderItems n supplies d = (none, d') ∧ d'.Placed n before bs [] ∧
      Edit d d' n [] (idsAll bs) ∧ AlikeAll (sceneAll bs) each.flatten := by
  induction h generalizing d before with
  | nil => exact ⟨d, [], rfl, hplaced, .refl d n [], trivial⟩
  | cons hitem _ ih =>
      obtain ⟨k, content, d₁, bs, hfresh, hrendered, -, halike⟩ := hitem.fresh d
      obtain ⟨hplaced₁, hedit₁⟩ := hplaced.insert hrendered
      -- the first item stands before the place where the others will be put
      have hfirst : (d₁.append n k).Placed n before (bs ++ []) [] := by
        rw [List.append_nil]
        exact hplaced₁
      obtain ⟨d₂, bs', hitems, hplaced₂, hedit₂, halike₂⟩ := ih hfirst.focusTail
      obtain ⟨hwhole, hedit₂'⟩ := hfirst.unfocusTail hplaced₂ hedit₂
      rw [List.append_nil] at hedit₂'
      refine ⟨d₂, bs ++ bs', ?_, hwhole, hedit₁.trans hedit₂', ?_⟩
      · simp only [renderItems, hfresh, hrendered.loose.contains, if_true]
        exact hitems
      · rw [Branch.sceneAll_append, List.flatten_cons]
        exact halike.append halike₂

theorem Value.forall₂_supplies {spans : InstanceId → List NodeId}
    {P : Supply → List Scene → Prop} {values : List Value}
    (h : ∀ v ∈ values, P (v, v.rendering spans) (v.scenes markup)) :
    List.Forall₂ P (Value.supplies spans values) (Value.scenesAll markup values) := by
  induction values with
  | nil => exact .nil
  | cons v values ih =>
      exact .cons (h v List.mem_cons_self) (ih fun w hw => h w (List.mem_cons_of_mem v hw))

theorem Supply.shows_list {items : List Value} (spans : InstanceId → List NodeId)
    (h : ∀ v ∈ items, Supply.Shows markup (v, v.rendering spans) (v.scenes markup)) :
    Supply.Shows markup (.list items, (Value.list items).rendering spans)
      ((Value.list items).scenes markup) where
  fresh := by
    intro d
    have hnode := d.node_create_self .fragment
    have hempty : (d.create .fragment).2.Placed d.size [] [] [] :=
      { node := ⟨_, hnode, rfl⟩
        grows := trivial
        distinct := by simp
        around := by simp
        apart := by simp }
    obtain ⟨d', bs, hitems, hplaced, hedit, halike⟩ :=
      renderItems_makes (Value.forall₂_supplies h) hempty
    refine ⟨d.size, .nodes [], d', bs, ?_, ?_, rfl, halike⟩
    · simp only [Value.rendering, Document.create_fst, hitems]
    · exact hedit.rendered (Document.extends_create d .fragment) (Nat.le_refl _) (by simp)
        hnode rfl hplaced
  again := by simp
  text := by simp [Value.isTextLike]

/-! ## Instances -/

/-- Supplying an instance makes it look like its nodes with the supplied values. What is
supplied to attributes only need not show anything. -/
theorem Instance.becomes_supply (spans : InstanceId → List NodeId)
    {supplies : List Supply} {content : Nat → List Scene} {i : Instance} {ns : List Node}
    {bs : List Branch} (hfit : i.FitsAs markup ns bs)
    (hshows : ∀ k, i.source.template.Feeds k →
      (supplyAt supplies k).Shows markup (content k)) :
    i.Becomes markup ns (fun i d => i.supply spans supplies d) bs
      (Substitution.nodes (fun k => (supplyAt supplies k).1) content 0 ns) := by
  have hfeeds := hfit.feeds
  obtain ⟨hsource, marks, hlayout, hnodes, hregions⟩ := hfit
  intro d p before behind hplaced
  obtain ⟨d₁, bs₁, happly, hlayout₁, hroots₁, hplaced₁, hedit₁⟩ :=
    hlayout.applyBindings (fun k => (supplyAt supplies k).1) [] 0 hplaced
  obtain ⟨regions', d₂, marks', bs₂, hupdate, hlayout₂, hroots₂, hregions₂, hplaced₂, hedit₂,
    hheld⟩ := hlayout₁.updateAll hregions spans (fun r hr => hshows _ (hfeeds r hr)) hplaced₁
  refine ⟨{ i with regions := regions' }, d₂, bs₂, ?_, rfl, rfl, ?_, hplaced₂,
    hedit₁.trans hedit₂, hlayout₂.alike hheld⟩
  · simp only [Instance.supply, hsource, Template.ofNodes, happly, hupdate]
  · exact ⟨hsource, marks', hlayout₂.mono Settled.fixed,
      hnodes.trans (hroots₂.trans hroots₁).symm, hregions₂⟩

/-- What is supplied for a placeholder; a missing value is shown as undefined. -/
theorem Value.supplyAt_supplies (spans : InstanceId → List NodeId) (values : List Value)
    (k : Nat) : supplyAt (Value.supplies spans values) k =
      (Value.supplied values k, (Value.supplied values k).rendering spans) := by
  induction values generalizing k with
  | nil => rfl
  | cons v vs ih =>
      cases k with
      | zero => rfl
      | succ k => exact ih k

theorem Instance.becomes_patch (spans : InstanceId → List NodeId) {values : List Value}
    {i : Instance} {ns : List Node} {bs : List Branch} (hfit : i.FitsAs markup ns bs)
    (hshows : ∀ k, i.source.template.Feeds k →
      Supply.Shows markup (Value.supplied values k, (Value.supplied values k).rendering spans)
        (Value.suppliedScenes markup values k)) :
    i.Becomes markup ns (fun i d => i.patch spans values d) bs
      (Substitution.nodes (Value.supplied values) (Value.suppliedScenes markup values) 0
        ns) := by
  simp only [← Value.supplyAt_supplies] at hshows
  have hbecomes := Instance.becomes_supply spans hfit hshows
  simp only [Value.supplyAt_supplies] at hbecomes
  exact hbecomes

theorem Supply.shows_template {source : CompiledTemplate} {values : List Value}
    (hsource : source.template = Template.ofNodes (markup source))
    (spans : InstanceId → List NodeId)
    (h : ∀ k, source.template.Feeds k →
      Supply.Shows markup (Value.supplied values k, (Value.supplied values k).rendering spans)
        (Value.suppliedScenes markup values k)) :
    Supply.Shows markup (.template source values, (Value.template source values).rendering spans)
      ((Value.template source values).scenes markup) where
  fresh := by
    intro d
    obtain ⟨i, d₁, bs, hcreate, hfresh⟩ := Instance.create_fresh markup hsource d
    have hfeeds := h
    rw [← hfresh.source] at hfeeds
    obtain ⟨i', d₂, bs', hpatch, hsource', hfragment, hfit, hplaced, hedit, halike⟩ :=
      Instance.becomes_patch spans hfresh.fits hfeeds d₁ i.fragment [] [] hfresh.placed
    rw [← hfresh.source, ← hsource'] at hfit
    refine ⟨i.fragment, .own i', d₂, bs', ?_, ?_, Instance.fits_iff.mpr hfit, ?_⟩
    · simp only [Instance.patch] at hpatch
      simp only [Value.rendering, Instance.createWith, hcreate, hpatch, hfragment]
    · exact hedit.rendered hfresh.grown hfresh.node_fresh hfresh.fresh hfresh.fragment rfl
        hplaced
    · rwa [Value.scenes_template]
  again := by
    rintro source' values' heq i bs rfl hfit
    obtain ⟨rfl, rfl⟩ := Value.template.inj heq
    rw [Value.scenes_template]
    exact Instance.becomes_patch spans (Instance.fits_iff.mp hfit) h
  text := by simp [Value.isTextLike]

/-! ## Values -/

namespace Value

/-- Whether a template was compiled from its markup. -/
def Compiled (markup : CompiledTemplate → List Node) (source : CompiledTemplate) : Prop :=
  source.template = Template.ofNodes (markup source)

/-- The values that content regions can show without nodes or instances from elsewhere. What a
template supplies to attributes and properties only may be anything. -/
inductive Showable (compiled : CompiledTemplate → Prop) : Value → Prop
  | text {v : Value} (h : v.isTextLike = true) : Showable compiled v
  | list {items : List Value} (h : ∀ v ∈ items, Showable compiled v) :
      Showable compiled (.list items)
  | template {source : CompiledTemplate} {values : List Value} (hsource : compiled source)
      (h : ∀ k, source.template.Feeds k → Showable compiled (supplied values k)) :
      Showable compiled (.template source values)

theorem Showable.mono {compiled compiled' : CompiledTemplate → Prop}
    (hsub : ∀ source, compiled source → compiled' source) {v : Value}
    (h : v.Showable compiled) : v.Showable compiled' := by
  induction h with
  | text h => exact .text h
  | list _ ih => exact .list ih
  | template hsource _ ih => exact .template (hsub _ hsource) ih

theorem Showable.shows {v : Value} (h : v.Showable (Compiled markup))
    (spans : InstanceId → List NodeId) :
    Supply.Shows markup (v, v.rendering spans) (v.scenes markup) := by
  induction h with
  | text h => exact Supply.shows_text spans h
  | list _ ih => exact Supply.shows_list spans ih
  | template hsource _ ih => exact Supply.shows_template hsource spans ih

variable {compiled : CompiledTemplate → Prop}

theorem ArePlain.supplied {values : List Value} (h : ArePlain compiled values) (k : Nat) :
    (supplied values k).IsPlain compiled := by
  induction values generalizing k with
  | nil => trivial
  | cons v values ih =>
      cases k with
      | zero => exact h.1
      | succ k => exact ih h.2 k

mutual

theorem IsPlain.showable : ∀ {v : Value}, v.IsPlain compiled → v.Showable compiled
  | .undefined, _ | .null, _ | .bool _, _ | .number _, _ | .str _, _ => .text rfl
  | .list _, h => .list (ArePlain.showable h)
  | .template _ values, h => .template h.1 fun k _ => by
      unfold supplied
      cases hk : values[k]? with
      | none => exact .text rfl
      | some v => exact ArePlain.showable h.2 v (List.mem_of_getElem? hk)
  | .node _, h | .shared _, h => h.elim

theorem ArePlain.showable : ∀ {values : List Value}, ArePlain compiled values →
    ∀ v ∈ values, v.Showable compiled
  | [], _ => nofun
  | _ :: _, h => List.forall_mem_cons.mpr ⟨IsPlain.showable h.1, ArePlain.showable h.2⟩

end

theorem shows (spans : InstanceId → List NodeId) (v : Value) (h : v.IsPlain (Compiled markup)) :
    Supply.Shows markup (v, v.rendering spans) (v.scenes markup) :=
  h.showable.shows spans

theorem ArePlain.shows {values : List Value} (h : ArePlain (Compiled markup) values)
    (spans : InstanceId → List NodeId) (k : Nat) :
    Supply.Shows markup (Value.supplied values k, (Value.supplied values k).rendering spans)
      (suppliedScenes markup values k) :=
  Value.shows spans _ (h.supplied k)

end Value

end LiveMarkup
