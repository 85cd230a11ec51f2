import LiveMarkup.Proofs.Document.Strewn
import LiveMarkup.Proofs.Instance.Opening
import LiveMarkup.Proofs.Instance.Tying

/-!
# Changing an instance wherever its nodes are

The topmost nodes of an instance need not stand together: they may be anywhere,
or nowhere. Plain values change such an instance as well, up to the first region
among its topmost nodes that cannot be cleared. What the instance remembers stays
true, and if nothing fails it looks as the values say. If its topmost nodes stand
nowhere, a region among them can be given a value exactly if it keeps what it
holds.
-/

namespace LiveMarkup

open Branch (idsAll tops sceneAll)
open Document (Edit)
open Scene (AlikeAll)
open Substitution (bound)

variable {markup : CompiledTemplate → List Node} {d d' : Document} {xs ys : List Branch}

/-! ## Keeping what is there -/

mutual

/-- Whether every region among the topmost nodes of an instance keeps what it holds when the
instance is given values. -/
def Instance.keeps (value : Nat → Value) : Instance → Bool
  | ⟨_, _, nodes, _, regions⟩ => Region.keepAll nodes value regions

/-- Whether every region that begins at one of some nodes keeps what it holds. -/
def Region.keepAll (nodes : List NodeId) (value : Nat → Value) : List Region → Bool
  | [] => true
  | ⟨_, placeholder, first, _, content⟩ :: rest =>
      (!nodes.contains first || content.keeps (value placeholder)) &&
        Region.keepAll nodes value rest

/-- Whether what a region holds can show a value: a text another text, and an instance that
belongs to the region the values of its own template. -/
def Content.keeps : Content → Value → Bool
  | .text _ _, v => v.isTextLike
  | .own inner, .template source values =>
      decide (inner.source = source) && inner.keeps (Value.supplied values)
  | _, _ => false

end

theorem Instance.keeps_eq (value : Nat → Value) (i : Instance) :
    i.keeps value = Region.keepAll i.nodes value i.regions := by
  cases i
  rfl

namespace Region

theorem keepAll_cons (nodes : List NodeId) (value : Nat → Value) (r : Region)
    (rest : List Region) :
    keepAll nodes value (r :: rest) =
      ((!nodes.contains r.first || r.content.keeps (value r.placeholder)) &&
        keepAll nodes value rest) := by
  cases r
  rfl

theorem keepAll_append_of_notMem {nodes : List NodeId} (value : Nat → Value)
    {below : List Region} (h : ∀ r ∈ below, r.first ∉ nodes) (beside : List Region) :
    keepAll nodes value (below ++ beside) = keepAll nodes value beside := by
  induction below with
  | nil => rfl
  | cons r below ih =>
      have hr := h r List.mem_cons_self
      rw [List.cons_append, keepAll_cons, ih fun q hq => h q (List.mem_cons_of_mem r hq)]
      simp [hr]

end Region

/-! ## Drifting -/

/-- What giving values to branches comes to that are strewn among others. Whether it fails
is known only if the topmost nodes stand nowhere. -/
structure Document.Drift (d d' : Document) (xs bs bs' ys : List Branch) (e : Option PatchError)
    (keeps : Bool) (ss : List Scene) : Prop where
  strewn : d'.Strewn (xs ++ bs' ++ ys)
  shown : e = none → AlikeAll (sceneAll bs') ss
  nowhere : (∀ t ∈ tops (xs ++ bs ++ ys), d.parent? t = none) →
    (∀ t ∈ tops (xs ++ bs' ++ ys), d'.parent? t = none) ∧
      if keeps = true then e = none else ∃ path, e = some (.detachedMarker path)

/-- A change of an instance of nodes that stands at branches, wherever these are. -/
def Instance.Drifts (markup : CompiledTemplate → List Node) (ns : List Node)
    (change : Instance → Document → Instance × Option PatchError × Document)
    (i : Instance) (bs : List Branch) (keeps : Bool) (ss : List Scene) : Prop :=
  ∀ (d : Document) (xs ys : List Branch), d.Strewn (xs ++ bs ++ ys) →
    ∃ i' e d' bs', change i d = (i', e, d') ∧ i'.source = i.source ∧
      i'.FitsAs markup ns bs' ∧ d.Drift d' xs bs bs' ys e keeps ss

/-- A supply that changes instances of its own template wherever they are. -/
def Supply.Drifts (markup : CompiledTemplate → List Node) (s : Supply) (ss : List Scene) :
    Prop :=
  ∀ source values, s.1 = .template source values →
    ∀ (i : Instance) (bs : List Branch), i.source = source → i.Fits markup bs →
      i.Drifts markup (markup source) s.2.again bs (i.keeps (Value.supplied values)) ss

/-- A supply that does all that a region of an instance may ask of it, wherever it is. -/
structure Supply.Serves (markup : CompiledTemplate → List Node) (s : Supply)
    (ss : List Scene) : Prop where
  shows : s.Shows markup ss
  ties : s.Ties markup
  drifts : s.Drifts markup ss

/-! ## One region -/

namespace Document

variable {bs ws ws' bs' : List Branch} {e : Option PatchError} {keeps keeps' : Bool}
  {ss ss' : List Scene}

theorem Drift.refl (h : d.Strewn (xs ++ bs ++ ys)) :
    d.Drift d xs bs bs ys none true (sceneAll bs) :=
  ⟨h, fun _ => .refl _, fun h => ⟨h, rfl⟩⟩

theorem Drift.append {d₁ : Document} (h : d.Drift d₁ xs ws ws' (bs ++ ys) none keeps ss)
    (h' : d₁.Drift d' (xs ++ ws') bs bs' ys e keeps' ss') :
    d.Drift d' xs (ws ++ bs) (ws' ++ bs') ys e (keeps && keeps') (ss ++ ss') where
  strewn := by simpa using h'.strewn
  shown he := by
    rw [Branch.sceneAll_append]
    exact (h.shown rfl).append (h'.shown he)
  nowhere hnowhere := by
    obtain ⟨hnowhere₁, hkeeps⟩ := h.nowhere (by simpa using hnowhere)
    have htrue : keeps = true := by
      by_contra hfalse
      rw [if_neg hfalse] at hkeeps
      obtain ⟨path, hpath⟩ := hkeeps
      cases hpath
    obtain ⟨hnowhere₂, hkeeps'⟩ := h'.nowhere (by simpa using hnowhere₁)
    rw [htrue, Bool.true_and]
    exact ⟨by simpa using hnowhere₂, hkeeps'⟩

theorem Drift.stop {err : PatchError}
    (h : d.Drift d' xs ws ws' (bs ++ ys) (some err) keeps ss) :
    d.Drift d' xs (ws ++ bs) (ws' ++ bs) ys (some err) (keeps && keeps') ss' where
  strewn := by simpa using h.strewn
  shown := nofun
  nowhere hnowhere := by
    obtain ⟨hnowhere', hkeeps⟩ := h.nowhere (by simpa using hnowhere)
    have hfalse : keeps = false := by
      cases keeps with
      | false => rfl
      | true => cases hkeeps
    rw [hfalse] at hkeeps ⊢
    exact ⟨by simpa using hnowhere', hkeeps⟩

theorem Strewn.drift_under {n : NodeId} {kind : NodeKind} {attributes attributes' : Attributes}
    {properties : Properties} {property : String → Option PropertyValue}
    {under under' : List Branch}
    (h : d.Strewn (xs ++ .node n kind attributes properties under :: ys)) (hd : d'.Tied)
    (hplaced : d'.Placed n [] under' []) (hedit : Edit d d' n (idsAll under) (idsAll under'))
    (hattributes : attributes.Perm attributes')
    (hproperties : ∀ name, PropertyValue.Agree (properties.get? name) (property name))
    (halike : AlikeAll (sceneAll under') ss) :
    d.Drift d' xs [.node n kind attributes properties under]
      [.node n kind attributes properties under'] ys none true
      [.node kind attributes' property ss] := by
  have hself : d'.nodes[n]? = some ⟨kind, d.parent? n, tops under', attributes, properties⟩ := by
    have hparent := hedit.parent
    rw [h.node, hplaced.children] at hparent
    simpa using hparent
  have hsolid : kind ≠ .fragment :=
    h.solid (.node n kind attributes properties under) (by simp)
  have hstrewn := h.ascend hd hself hplaced hedit.same hedit.fresh hsolid
  refine ⟨by simpa using hstrewn,
    fun _ => ⟨⟨rfl, hattributes, hproperties, halike⟩, trivial⟩, fun hnowhere => ⟨?_, rfl⟩⟩
  intro t ht
  have hall : t ∈ tops (xs ++ .node n kind attributes properties under :: ys) := by
    simpa using ht
  have hold : t < d.size := h.intact.lt_size t (Branch.tops_subset_idsAll _ hall)
  rw [hedit.parent?_eq hold (h.top_notMem_under hall)]
  exact hnowhere t (by simpa using ht)

theorem Drift.wrap {held' : List Branch} {e : Option PatchError} {keeps : Bool}
    {ss : List Scene} (m : Mark)
    (h : d.Drift d' (xs ++ [.comment m.first ""]) m.held held' (.comment m.last "" :: ys) e keeps
      ss) :
    d.Drift d' xs m.branches { m with held := held' }.branches ys e keeps
      (.comment "" :: ss ++ [.comment ""]) where
  strewn := by simpa [Mark.branches] using h.strewn
  shown he := by
    rw [m.branches_eq, Branch.sceneAll_append, Branch.sceneAll_append]
    exact ((AlikeAll.refl [.comment ""]).append (h.shown he)).append (AlikeAll.refl [.comment ""])
  nowhere := by simpa [Mark.branches] using h.nowhere

theorem Strewn.drift_setText {n : NodeId} {data : String}
    (h : d.Strewn (xs ++ [.text n data] ++ ys)) (s : String) :
    d.Drift (d.setText n s) xs [.text n data] [.text n s] ys none true [.text s] := by
  have hhere : d.Strewn (xs ++ .text n data :: ys) := by simpa using h
  have hnode := hhere.node
  have hshape := sameShape_setText d n s
  have hset : d.setText n s = (d.modify n fun node => { node with kind := .text s }).count
      fun c => { c with textWrites := c.textWrites + 1 } := by
    simp only [Document.setText, kind?_of_node hnode, Option.bind_some, NodeKind.withData?]
  have hchanges := changes_modify (fun node => { node with kind := .text s })
    (fun c => { c with textWrites := c.textWrites + 1 }) hnode
  rw [← hset] at hchanges
  have hunder := hhere.descendChanged hchanges.node hchanges.others
  refine ⟨?_, fun _ => .refl _, fun hnowhere => ⟨?_, rfl⟩⟩
  · have hstrewn := hhere.ascend (hshape.tied h.tied) hchanges.node hunder
      (fun k _ hk _ => hchanges.others k hk) (by simp) (by simp)
    simpa [Branch.text] using hstrewn
  · rw [hshape.parents]
    simpa [Branch.text] using hnowhere

end Document

namespace Region

variable {r : Region} {m : Mark} {ss : List Scene}

/-- Replacing what a region holds, if its last marker stands behind its first one: what stood
between them is taken out, and what was rendered meanwhile is inserted. -/
theorem replace_of_mem {rendering : Rendering} (hmakes : rendering.Makes markup ss)
    (hties : rendering.Ties) (hd : d.Tied) (hmem : r.last ∈ d.siblingsAfter r.first) :
    ∃ p n content d₂ held, d.parent? r.first = some p ∧
      Document.Rendered (d.removeChildren p (d.between r.first r.last)) d₂ n held ∧ d₂.Tied ∧
      content.Fits markup held ∧ AlikeAll (sceneAll held) ss ∧
      r.replace rendering d = ({ r with content := content }, none,
        d₂.insertBefore p n (some r.last)) := by
  obtain ⟨p, hparent, hclear, hbeside⟩ :=
    clear_of_mem (r := { r with content := .empty }) hd hmem
  dsimp only at hparent hclear hbeside
  have hcleared := hd.removeChildren p (d.between r.first r.last)
  generalize hd₁ : d.removeChildren p (d.between r.first r.last) = d₁ at hclear hbeside hcleared
  obtain ⟨n, content, d₂, held, hfresh, hrendered, htakes, halike⟩ := hmakes d₁
  have hd₂ : d₂.Tied := by
    have htied := hties d₁ hcleared
    rwa [hfresh] at htied
  have hcontains : d₁.contains p = true := Document.contains_of_mem_children hbeside.left_mem
  have hchildren : d₂.children p = d₁.children p :=
    Document.children_congr (hrendered.grown.same p (of_decide_eq_true hcontains))
  have hapart : ∀ z ∈ tops held, z ∉ d₂.children p := by
    intro z hz hmem
    rw [hchildren] at hmem
    have hlt := Document.contains_of_parent? ((hcleared.agree p z).mpr hmem)
    exact Nat.not_lt.mpr (hrendered.fresh z (Branch.tops_subset_idsAll held hz))
      (of_decide_eq_true hlt)
  rw [← hchildren] at hbeside
  obtain ⟨hfill, -⟩ := fill_beside (r := { r with content := .empty }) hd₂ hbeside
    hrendered.loose.contains hrendered.loose.movedBy hapart content
  subst hd₁
  refine ⟨p, n, content.taking (tops held), d₂, held, hparent, hrendered, hd₂, htakes, halike, ?_⟩
  rw [replace, hclear]
  simp only [hfresh]
  exact hfill

/-- Replacing what a region holds, wherever its markers are. If they stand nowhere, it
fails. -/
theorem drift_replace {rendering : Rendering} (hmakes : rendering.Makes markup ss)
    (hties : rendering.Ties) (hfit : r.Fits markup m)
    (hs : d.Strewn (xs ++ m.branches ++ ys)) :
    ∃ r' e d' held, r.replace rendering d = (r', e, d') ∧
      r'.Fits markup { m with held := held } ∧
      d.Drift d' xs m.branches { m with held := held }.branches ys e false
        (.comment "" :: ss ++ [.comment ""]) := by
  have hsub : (xs ++ { m with held := [] }.branches ++ ys).Sublist (xs ++ m.branches ++ ys) := by
    refine List.Sublist.append_right (List.Sublist.append_left ?_ xs) ys
    exact List.Sublist.cons_cons _ (List.sublist_append_right m.held _)
  have hempty := hs.sublist hsub
  have hforgets : { r with content := .empty }.Fits markup { m with held := [] } :=
    ⟨hfit.placeholder, hfit.first, hfit.last, rfl⟩
  have hfirst : r.first ∈ tops (xs ++ { m with held := [] }.branches ++ ys) := by
    simp [hfit.first, Mark.branches, Branch.comment]
  have hstands : ∀ {p}, d.parent? r.first = some p →
      ¬ ∀ t ∈ tops (xs ++ m.branches ++ ys), d.parent? t = none := by
    intro p hparent hnowhere
    rw [hnowhere r.first (hsub.map Branch.id |>.subset hfirst)] at hparent
    cases hparent
  by_cases hmem : r.last ∈ d.siblingsAfter r.first
  · obtain ⟨p, n, content, d₂, held, hparent, hrendered, hd₂, hcontent, halike, hreplace⟩ :=
      replace_of_mem hmakes hties hs.tied hmem
    have hp := hempty.parent_notMem hfirst hparent
    have hcleared := hempty.removeChildren hp (d.between r.first r.last)
    refine ⟨_, _, _, held, hreplace, ⟨hfit.placeholder, hfit.first, hfit.last, hcontent⟩, ?_,
      fun _ => ?_, fun h => absurd h (hstands hparent)⟩
    · have hsplit : (d.removeChildren p (d.between r.first r.last)).Strewn
          ((xs ++ [.comment m.first ""]) ++ (.comment m.last "" :: ys)) := by
        simpa [Mark.branches] using hcleared
      have hnot : p ∉ idsAll ((xs ++ [.comment m.first ""]) ++ (.comment m.last "" :: ys)) := by
        simpa [Mark.branches] using hp
      have hcontains : (d.removeChildren p (d.between r.first r.last)).contains p = true := by
        have hp := Document.contains_of_mem_children ((hs.tied.agree p r.first).mp hparent)
        rwa [Document.contains, Document.size_removeChildren]
      have hinserted := hsplit.insert hrendered hd₂ hcontains hnot (some r.last)
      simpa [Mark.branches] using hinserted
    · rw [m.branches_eq, Branch.sceneAll_append, Branch.sceneAll_append]
      exact ((AlikeAll.refl [.comment ""]).append halike).append (AlikeAll.refl [.comment ""])
  · rcases clear_of_notMem (r := { r with content := .empty }) hmem with
      ⟨hparent, hclear⟩ | ⟨p, hparent, hclear⟩
    · refine ⟨{ r with content := .empty }, some (.detachedMarker r.path), d, [], ?_, hforgets,
        hempty, by simp, fun h => ?_⟩
      · rw [replace, hclear]
      · exact ⟨fun t ht => h t (hsub.map Branch.id |>.subset ht), r.path, rfl⟩
    · refine ⟨{ r with content := .empty }, some (.missingEndMarker r.path),
        d.removeChildren p (d.between r.first r.last), [], ?_, hforgets,
        hempty.removeChildren (hempty.parent_notMem hfirst hparent) _, by simp,
        fun h => absurd h (hstands hparent)⟩
      rw [replace, hclear]

/-- Giving a region a value, wherever its markers are. If they stand nowhere, it fails unless
the region keeps what it holds. -/
theorem drift_update (spans : InstanceId → List NodeId) {s : Supply}
    (hshows : s.Shows markup ss) (hties : s.2.Ties) (hdrifts : s.Drifts markup ss)
    (hfit : r.Fits markup m) (hs : d.Strewn (xs ++ m.branches ++ ys)) :
    ∃ r' e d' held, r.update spans s d = (r', e, d') ∧
      r'.Fits markup { m with held := held } ∧
      d.Drift d' xs m.branches { m with held := held }.branches ys e (r.content.keeps s.1)
        (.comment "" :: ss ++ [.comment ""]) := by
  have hreplace := drift_replace hshows.fresh hties hfit hs
  have hcontent := hfit.content
  have hinside : d.Strewn ((xs ++ [.comment m.first ""]) ++ m.held ++
      (.comment m.last "" :: ys)) := by
    simpa [Mark.branches] using hs
  rw [update]
  split
  -- nothing that fits is shared
  case h_1 current next hshared _ =>
      rw [hshared] at hcontent
      exact hcontent.elim
  -- an instance stays if the value is of its template
  case h_2 inner source values hown hvalue =>
      rw [hown] at hcontent
      split
      case isTrue hsource =>
          obtain ⟨inner', e, d', held, hagain, hsource', hfit', hdrift⟩ :=
            hdrifts source values hvalue inner m.held hsource hcontent d _ _ hinside
          rw [← hsource, ← hsource'] at hfit'
          have hkeeps : r.content.keeps s.1 = inner.keeps (Value.supplied values) := by
            rw [hown, hvalue, Content.keeps, decide_eq_true hsource, Bool.true_and]
          rw [hkeeps]
          simp only [hagain]
          exact ⟨_, e, d', held, rfl,
            ⟨hfit.placeholder, hfit.first, hfit.last, Instance.fits_iff.mpr hfit'⟩, hdrift.wrap m⟩
      case isFalse hother =>
          have hkeeps : r.content.keeps s.1 = false := by
            rw [hown, hvalue, Content.keeps, decide_eq_false hother, Bool.false_and]
          rwa [hkeeps]
  -- a text stays if the value is shown by a text
  case h_3 n data hown =>
      rw [hown] at hcontent
      have hheld : m.held = [.text n data] := hcontent
      have hkeeps : r.content.keeps s.1 = s.1.isTextLike := by rw [hown, Content.keeps]
      rw [hkeeps]
      split
      case isTrue hlike =>
          have hss := hshows.text hlike
          rw [hlike]
          split
          case isTrue hsame =>
              refine ⟨r, none, d, m.held, rfl, hfit, hs, fun _ => ?_, fun h => ⟨h, rfl⟩⟩
              rw [m.branches_eq, hheld, hss, ← hsame]
              exact .refl _
          case isFalse =>
              rw [hheld] at hinside
              refine ⟨_, none, _, [.text n s.1.text], rfl,
                ⟨hfit.placeholder, hfit.first, hfit.last, rfl⟩, ?_⟩
              rw [hss]
              have hdrift := hinside.drift_setText s.1.text
              rw [← hheld] at hdrift
              exact hdrift.wrap m
      case isFalse hlike =>
          rwa [Bool.eq_false_iff.mpr hlike]
  case h_4 htext _ hown =>
      have hkeeps : r.content.keeps s.1 = false := by
        cases hcase : r.content with
        | text n data => exact (htext n data hcase).elim
        | own inner =>
            cases hvalue : s.1 with
            | template source values => exact (hown inner source values hcase hvalue).elim
            | _ => rfl
        | _ => rfl
      rwa [hkeeps]

end Region

/-! ## All regions of a layout -/

namespace Layout

variable {say : Nat → List Attribute → Attributes → Properties → Prop} {value : Nat → Value}
  {next : Nat} {ns : List Node} {elements : List NodeId} {marks : List Mark} {bs : List Branch}

theorem roots_subset (h : Layout say next ns elements marks bs) : roots ns marks bs ⊆ tops bs := by
  induction h with
  | nil => exact List.Subset.refl _
  | text _ ih | comment _ ih => exact List.cons_subset_cons _ ih
  | @placeholder m rest elements marks bs _ ih =>
      rw [roots_placeholder]
      intro k hk
      simp only [Mark.branches, Branch.tops_append, Branch.tops_cons, List.mem_cons,
        List.mem_append, Branch.comment, Branch.id_node] at hk ⊢
      rcases hk with rfl | rfl | hk
      · simp
      · simp
      · exact .inr (ih hk)
  | element _ hunder _ _ ihRest =>
      rw [roots_element hunder]
      exact List.cons_subset_cons _ ihRest

theorem strewn_applyBindings (h : Layout Fixed next ns elements marks bs) (value : Nat → Value)
    (path : NodePath) (index : Nat) (hs : d.Strewn (xs ++ bs ++ ys)) :
    ∃ bs', Layout (Settled value) next ns elements marks bs' ∧
      roots ns marks bs' = roots ns marks bs ∧
      tops bs' = tops bs ∧
      (LiveMarkup.applyBindings value
        ((Compile.nodes path index next ns).attributes.zip elements) d).Strewn
          (xs ++ bs' ++ ys) := by
  induction h generalizing path index d xs with
  | nil => exact ⟨[], .nil, rfl, rfl, hs⟩
  | @text next data n rest elements marks bs _ ih =>
      have hs' : d.Strewn ((xs ++ [.text n (Entity.decode data)]) ++ bs ++ ys) := by simpa using hs
      obtain ⟨bs', hlayout, hroots, htops, hstrewn⟩ := ih path (index + 1) hs'
      refine ⟨_, .text hlayout, congrArg (n :: ·) hroots, congrArg (n :: ·) htops, ?_⟩
      simpa [Compile.nodes, Compile.node] using hstrewn
  | @comment next data n rest elements marks bs _ ih =>
      have hs' : d.Strewn ((xs ++ [.comment n (Entity.decode data)]) ++ bs ++ ys) := by
        simpa using hs
      obtain ⟨bs', hlayout, hroots, htops, hstrewn⟩ := ih path (index + 1) hs'
      refine ⟨_, .comment hlayout, congrArg (n :: ·) hroots, congrArg (n :: ·) htops, ?_⟩
      simpa [Compile.nodes, Compile.node] using hstrewn
  | @placeholder m rest elements marks bs _ ih =>
      have hs' : d.Strewn ((xs ++ m.branches) ++ bs ++ ys) := by simpa using hs
      obtain ⟨bs', hlayout, hroots, htops, hstrewn⟩ := ih path (index + 2) hs'
      refine ⟨_, .placeholder hlayout, ?_, ?_, ?_⟩
      · rw [roots_placeholder, roots_placeholder, hroots]
      · rw [Branch.tops_append, Branch.tops_append, htops]
      · simpa [Compile.nodes, Compile.node] using hstrewn
  | @element next name as children rest n attributes properties inner elements held marks
      under bs hfixed hunder _ _ ihRest =>
      have hhere : d.Strewn (xs ++ .node n (.element name) attributes properties under ::
          (bs ++ ys)) := by simpa using hs
      obtain ⟨attributes', properties', hchanges, hfollows⟩ := follows_applyBindings value
        (path ++ [index]) (bound next as) hhere.node hfixed.keys
      have hshape₁ := sameShape_applyBindings value
        ((bound next as).map fun o => (Compile.bindingOf (path ++ [index]) o, n)) d
      have hplaced := hhere.descendChanged hchanges.node hchanges.others
      obtain ⟨d₂, under', happly₂, hlayout₂, -, hplaced₂, hedit₂⟩ :=
        hunder.applyBindings value (path ++ [index]) 0 hplaced
      have hshape₂ := sameShape_applyBindings value
        ((Compile.nodes (path ++ [index]) 0 (next + Attribute.placeholdersAll as)
          children).attributes.zip inner)
        (LiveMarkup.applyBindings value
          ((bound next as).map fun o => (Compile.bindingOf (path ++ [index]) o, n)) d)
      rw [happly₂] at hshape₂
      have hself : d₂.nodes[n]? = some ⟨.element name, d.parent? n, tops under', attributes',
          properties'⟩ := by
        have hparent := hedit₂.parent
        rw [hchanges.node, hplaced₂.children] at hparent
        simpa using hparent
      have hstrewn₂ := hhere.ascend (hshape₂.tied (hshape₁.tied hhere.tied)) hself hplaced₂
        (fun k hk hkn hnot =>
          (hedit₂.same k (hchanges.size ▸ hk) hkn hnot).trans (hchanges.others k hkn))
        (fun k hk => hchanges.size ▸ hedit₂.fresh k hk) (by simp)
      have hs' : d₂.Strewn ((xs ++ [.node n (.element name) attributes' properties' under']) ++
          bs ++ ys) := by simpa using hstrewn₂
      obtain ⟨bs', hlayout, hroots, htops, hstrewn⟩ := ihRest path (index + 1) hs'
      refine ⟨_, .element (hfollows.settled hfixed) hlayout₂ hlayout, ?_,
        congrArg (n :: ·) htops, ?_⟩
      · rw [roots_element hlayout₂, roots_element hunder, hroots]
        rfl
      · rw [applyBindings_element value path index next name as rest hunder, happly₂]
        simpa using hstrewn

theorem firsts_mem (h : Layout say next ns elements marks bs) {regions : List Region}
    (hfit : Region.FitAll markup regions marks) : ∀ r ∈ regions, r.first ∈ idsAll bs := by
  intro r hr
  have hmem : r.markers ∈ marks.map fun m => (m.first, m.last) :=
    hfit.markers_eq ▸ List.mem_map_of_mem hr
  obtain ⟨m, hm, heq⟩ := List.mem_map.mp hmem
  refine h.markers_sublist.subset (List.mem_flatMap.mpr ⟨m, hm, ?_⟩)
  rw [show r.first = m.first from (Prod.mk.inj heq).1.symm]
  exact List.mem_cons_self

/-- Giving the regions of a layout their values, wherever its nodes are, up to the first
failure. -/
theorem drift_updateAll (h : Layout (Settled value) next ns elements marks bs)
    {regions : List Region} (hfit : Region.FitAll markup regions marks)
    (spans : InstanceId → List NodeId) {supplies : List Supply} {content : Nat → List Scene}
    (hserves : ∀ r ∈ regions, (supplyAt supplies r.placeholder).Serves markup
      (content r.placeholder)) {nodes : List NodeId}
    (hnodes : ∀ k ∈ idsAll bs, k ∈ nodes ↔ k ∈ roots ns marks bs)
    (hs : d.Strewn (xs ++ bs ++ ys)) :
    ∃ regions' e d' marks' bs',
      Region.updateAll spans supplies regions d = (regions', e, d') ∧
      Layout (Settled value) next ns elements marks' bs' ∧
      roots ns marks' bs' = roots ns marks bs ∧
      Region.FitAll markup regions' marks' ∧
      d.Drift d' xs bs bs' ys e
        (Region.keepAll nodes (fun k => (supplyAt supplies k).1) regions)
        (Substitution.nodes value content next ns) := by
  induction h generalizing regions d xs with
  | nil =>
      obtain rfl := Region.fitAll_nil.mp hfit
      exact ⟨[], none, d, [], [], rfl, .nil, rfl, trivial, .refl hs⟩
  | @text next data n rest elements marks bs _ ih =>
      have hall : d.Strewn (xs ++ ([.text n (Entity.decode data)] ++ bs) ++ ys) := hs
      have hn : n ∉ idsAll bs := (List.nodup_cons.mp hall.distinct_inner).1
      have hrest : ∀ k ∈ idsAll bs, k ∈ nodes ↔ k ∈ roots rest marks bs := fun k hk => by
        rw [hnodes k (List.mem_cons_of_mem n hk), roots_text, List.mem_cons]
        exact or_iff_right fun heq : k = n => hn (heq ▸ hk)
      obtain ⟨regions', e, d', marks', bs', hupdate, hlayout, hroots, hfit', hdrift⟩ :=
        ih hfit hserves hrest hall.focusTail
      exact ⟨regions', e, d', marks', _, hupdate, .text hlayout, congrArg (n :: ·) hroots, hfit',
        (Document.Drift.refl hall.focusHead).append hdrift⟩
  | @comment next data n rest elements marks bs _ ih =>
      have hall : d.Strewn (xs ++ ([.comment n (Entity.decode data)] ++ bs) ++ ys) := hs
      have hn : n ∉ idsAll bs := (List.nodup_cons.mp hall.distinct_inner).1
      have hrest : ∀ k ∈ idsAll bs, k ∈ nodes ↔ k ∈ roots rest marks bs := fun k hk => by
        rw [hnodes k (List.mem_cons_of_mem n hk), roots_comment, List.mem_cons]
        exact or_iff_right fun heq : k = n => hn (heq ▸ hk)
      obtain ⟨regions', e, d', marks', bs', hupdate, hlayout, hroots, hfit', hdrift⟩ :=
        ih hfit hserves hrest hall.focusTail
      exact ⟨regions', e, d', marks', _, hupdate, .comment hlayout, congrArg (n :: ·) hroots,
        hfit', (Document.Drift.refl hall.focusHead).append hdrift⟩
  | @placeholder m rest elements marks bs hlayout ih =>
      cases regions with
      | nil => exact hfit.elim
      | cons r regions =>
          obtain ⟨hr, hrest⟩ := Region.fitAll_cons.mp hfit
          have hapart : ∀ k ∈ idsAll bs, k ∉ idsAll m.branches := by
            have hdistinct := hs.distinct_inner
            rw [Branch.idsAll_append] at hdistinct
            exact fun k hk hmem => (List.nodup_append.mp hdistinct).2.2 k hmem k hk rfl
          have hmarkers : m.first ∈ idsAll m.branches ∧ m.last ∈ idsAll m.branches := by
            simp [Mark.branches, Branch.comment]
          have hnodes' : ∀ k ∈ idsAll bs, k ∈ nodes ↔ k ∈ roots rest marks bs := fun k hk => by
            rw [hnodes k (by simp [hk]), roots_placeholder]
            have hfirst : k ≠ m.first := fun heq => hapart k hk (heq ▸ hmarkers.1)
            have hlast : k ≠ m.last := fun heq => hapart k hk (heq ▸ hmarkers.2)
            simp [hfirst, hlast]
          have hfirst : r.first ∈ nodes := by
            rw [hr.first, hnodes m.first (by simp [hmarkers.1]), roots_placeholder]
            exact List.mem_cons_self
          rw [Region.keepAll_cons, List.contains_iff_mem.mpr hfirst, Bool.not_true,
            Bool.false_or]
          obtain ⟨hfirstServes, hrestServes⟩ := List.forall_mem_cons.mp hserves
          obtain ⟨r', e, d₁, held, hupdate₁, hr', hdrift₁⟩ :=
            Region.drift_update spans hfirstServes.shows hfirstServes.ties.fresh
              hfirstServes.drifts hr hs.focusHead
          have hcontent : content r.placeholder = content m.placeholder := by rw [hr.placeholder]
          rw [hcontent] at hdrift₁
          cases e with
          | some err =>
              refine ⟨r' :: regions, some err, d₁, { m with held := held } :: marks, _, ?_,
                .placeholder (m := { m with held := held }) hlayout, ?_,
                Region.fitAll_cons.mpr ⟨hr', hrest⟩, hdrift₁.stop⟩
              · rw [Region.updateAll, hupdate₁]
              · rw [roots_placeholder, roots_placeholder]
          | none =>
              have hs₁ : d₁.Strewn ((xs ++ { m with held := held }.branches) ++ bs ++ ys) := by
                have hstrewn := hdrift₁.strewn
                rwa [← List.append_assoc] at hstrewn
              obtain ⟨regions', e, d₂, marks', bs', hupdate₂, hlayout', hroots, hrest',
                hdrift₂⟩ := ih hrest hrestServes hnodes' hs₁
              refine ⟨r' :: regions', e, d₂, { m with held := held } :: marks', _, ?_,
                .placeholder (m := { m with held := held }) hlayout', ?_,
                Region.fitAll_cons.mpr ⟨hr', hrest'⟩, hdrift₁.append hdrift₂⟩
              · rw [Region.updateAll, hupdate₁]
                simp only [hupdate₂]
              · rw [roots_placeholder, roots_placeholder, hroots]
  | @element next name as children rest n attributes properties inner elements held marks
      under bs hsettled hunder hlayout ihUnder ihRest =>
      obtain ⟨below, beside, rfl, hbelow, hbeside⟩ := Region.fitAll_append hfit
      obtain ⟨hbelowServes, hbesideServes⟩ := List.forall_mem_append.mp hserves
      have hhere : d.Strewn (xs ++ .node n (.element name) attributes properties under ::
          (bs ++ ys)) := by simpa using hs
      have hall : d.Strewn (xs ++
          ([.node n (.element name) attributes properties under] ++ bs) ++ ys) := hs
      have hdistinct : (n :: (idsAll under ++ idsAll bs)).Nodup := by
        simpa using hall.distinct_inner
      obtain ⟨hn, hinner⟩ := List.nodup_cons.mp hdistinct
      obtain ⟨-, -, hapart⟩ := List.nodup_append.mp hinner
      have hrest : ∀ k ∈ idsAll bs, k ∈ nodes ↔ k ∈ roots rest marks bs := fun k hk => by
        rw [hnodes k (by simp [hk]), roots_element hunder, List.mem_cons]
        exact or_iff_right fun heq : k = n => hn (heq ▸ List.mem_append_right _ hk)
      have hbelowNot : ∀ r ∈ below, r.first ∉ nodes := by
        intro r hr hmem
        have hids := hunder.firsts_mem hbelow r hr
        rw [hnodes r.first (by simp [hids]), roots_element hunder] at hmem
        rcases List.mem_cons.mp hmem with heq | hmem
        · have heq : r.first = n := heq
          exact hn (heq ▸ List.mem_append_left _ hids)
        · exact hapart _ hids _ (Branch.tops_subset_idsAll bs (hlayout.roots_subset hmem)) rfl
      rw [Region.keepAll_append_of_notMem _ hbelowNot]
      obtain ⟨below', d₁, held', under', hupdate₁, hlayout₁, -, hbelow', hplaced₁, hedit₁,
        hheld₁⟩ := hunder.updateAll hbelow spans (fun r hr => (hbelowServes r hr).shows)
          hhere.descend
      have htied₁ : d₁.Tied := by
        have htied := Region.tied_updateAll spans hbelow (fun r hr => (hbelowServes r hr).ties)
          hhere.tied
        rwa [hupdate₁] at htied
      have hdrift₁ := hhere.drift_under htied₁ hplaced₁ hedit₁ hsettled.perm
        hsettled.property (hlayout₁.alike hheld₁)
      have hs₁ : d₁.Strewn ((xs ++ [.node n (.element name) attributes properties under']) ++
          bs ++ ys) := by simpa using hdrift₁.strewn
      obtain ⟨beside', e, d₂, marks', bs', hupdate₂, hlayout₂, hroots, hbeside', hdrift₂⟩ :=
        ihRest hbeside hbesideServes hrest hs₁
      refine ⟨below' ++ beside', e, d₂, held' ++ marks', _, ?_,
        .element hsettled hlayout₁ hlayout₂, ?_, hbelow'.append hbeside',
        hdrift₁.append hdrift₂⟩
      · rw [Region.updateAll_append hupdate₁, hupdate₂]
      · rw [roots_element hlayout₁, roots_element hunder, hroots]
        rfl

end Layout

/-! ## Instances -/

theorem Instance.drifts_supply (spans : InstanceId → List NodeId) {supplies : List Supply}
    {content : Nat → List Scene} {i : Instance} {ns : List Node} {bs : List Branch}
    (hfit : i.FitsAs markup ns bs)
    (hserves : ∀ k, i.source.template.Feeds k →
      (supplyAt supplies k).Serves markup (content k)) :
    i.Drifts markup ns (fun i d => i.supply spans supplies d) bs
      (i.keeps fun k => (supplyAt supplies k).1)
      (Substitution.nodes (fun k => (supplyAt supplies k).1) content 0 ns) := by
  have hfeeds := hfit.feeds
  obtain ⟨hsource, marks, hlayout, hnodes, hregions⟩ := hfit
  intro d xs ys hs
  obtain ⟨bs₁, hlayout₁, hroots₁, htops₁, hs₁⟩ :=
    hlayout.strewn_applyBindings (fun k => (supplyAt supplies k).1) [] 0 hs
  have hshape := sameShape_applyBindings (fun k => (supplyAt supplies k).1)
    ((Compile.nodes [] 0 0 ns).attributes.zip i.elements) d
  have hnodes' : ∀ k ∈ idsAll bs₁, k ∈ i.nodes ↔ k ∈ Layout.roots ns marks bs₁ := fun k _ => by
    rw [hnodes, hroots₁]
  obtain ⟨regions', e, d₂, marks', bs₂, hupdate, hlayout₂, hroots₂, hregions₂, hdrift⟩ :=
    hlayout₁.drift_updateAll hregions spans (fun r hr => hserves _ (hfeeds r hr)) hnodes' hs₁
  refine ⟨{ i with regions := regions' }, e, d₂, bs₂, ?_, rfl, ?_, hdrift.strewn, hdrift.shown,
    fun hnowhere => ?_⟩
  · simp only [Instance.supply, hsource, Template.ofNodes, hupdate]
  · exact ⟨hsource, marks', hlayout₂.mono Settled.fixed,
      hnodes.trans (hroots₂.trans hroots₁).symm, hregions₂⟩
  · rw [i.keeps_eq]
    refine hdrift.nowhere fun t ht => ?_
    rw [hshape.parents]
    refine hnowhere t ?_
    simpa [htops₁] using ht

/-! ## Values -/

namespace Value

theorem drifts_of_serves (spans : InstanceId → List NodeId) {values : List Value} {i : Instance}
    {ns : List Node} {bs : List Branch} (hfit : i.FitsAs CompiledTemplate.someNodes ns bs)
    (hserves : ∀ k, i.source.template.Feeds k → Supply.Serves CompiledTemplate.someNodes
      (supplied values k, (supplied values k).rendering spans)
      (suppliedScenes CompiledTemplate.someNodes values k)) :
    i.Drifts CompiledTemplate.someNodes ns (fun i d => i.patch spans values d) bs
      (i.keeps (supplied values))
      (Substitution.nodes (supplied values) (suppliedScenes CompiledTemplate.someNodes values) 0
        ns) := by
  simp only [← supplyAt_supplies] at hserves
  have hdrifts := Instance.drifts_supply spans hfit hserves
  simp only [supplyAt_supplies] at hdrifts
  exact hdrifts

theorem Showable.serves {v : Value} (h : v.Showable CompiledTemplate.HasNodes)
    (spans : InstanceId → List NodeId) :
    Supply.Serves CompiledTemplate.someNodes (v, v.rendering spans)
      (v.scenes CompiledTemplate.someNodes) := by
  have hshows := (h.mono fun _ => CompiledTemplate.HasNodes.compiled).shows spans
  refine ⟨hshows, h.ties spans, ?_⟩
  clear hshows
  induction h with
  | @text v hlike =>
      rintro source values rfl
      cases hlike
  | list => exact fun _ _ heq => nomatch heq
  | @template source values hsource h ih =>
      rintro source' values' heq i bs rfl hfit
      obtain ⟨rfl, rfl⟩ := Value.template.inj heq
      rw [scenes_template]
      refine drifts_of_serves spans (Instance.fits_iff.mp hfit) fun k hk => ⟨?_, ?_, ih k hk⟩
      · exact ((h k hk).mono fun _ => CompiledTemplate.HasNodes.compiled).shows spans
      · exact (h k hk).ties spans

/-- Plain values change instances wherever these are. -/
theorem drifts_patch (spans : InstanceId → List NodeId) {values : List Value}
    (hplain : ArePlain CompiledTemplate.HasNodes values) {i : Instance} {ns : List Node}
    {bs : List Branch} (hfit : i.FitsAs CompiledTemplate.someNodes ns bs) :
    i.Drifts CompiledTemplate.someNodes ns (fun i d => i.patch spans values d) bs
      (i.keeps (supplied values))
      (Substitution.nodes (supplied values) (suppliedScenes CompiledTemplate.someNodes values) 0
        ns) :=
  drifts_of_serves spans hfit fun k _ => (hplain.supplied k).showable.serves spans

end Value

end LiveMarkup
