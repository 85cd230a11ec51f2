import LiveMarkup.Proofs.Document.Runs
import LiveMarkup.Proofs.Instance.Bindings

/-!
# Giving regions their values

A supply shows scenes if it renders them where nothing is yet, and also turns
an instance of its own template into them. A region shows whatever its supply
shows, whether it keeps what it holds or clears and fills itself anew; regions
of a whole layout are updated one after the other.
-/

namespace LiveMarkup

open Branch (idsAll tops sceneAll)
open Document (Edit Rendered)
open Scene (AlikeAll)

/-! ## What a supply shows -/

/-- What a region remembers of content once nodes stand between its markers. -/
def Content.taking (held : List NodeId) : Content → Content
  | .nodes _ => .nodes held
  | content => content

/-- A rendering makes scenes, loose in new nodes. -/
def Rendering.Makes (markup : CompiledTemplate → List Node) (rendering : Rendering)
    (ss : List Scene) : Prop :=
  ∀ d : Document, ∃ n content d' bs,
    rendering.fresh d = (.ok (n, content), d') ∧ Rendered d d' n bs ∧
      (content.taking (tops bs)).Fits markup bs ∧ AlikeAll (sceneAll bs) ss

/-- A change of an instance of nodes, without failure, to one that stands in the
same place and shows scenes. -/
def Instance.Becomes (markup : CompiledTemplate → List Node) (ns : List Node)
    (change : Instance → Document → Instance × Option PatchError × Document)
    (i : Instance) (bs : List Branch) (ss : List Scene) : Prop :=
  ∀ (d : Document) (p : NodeId) (before behind : List NodeId),
    d.Placed p before bs behind →
    ∃ i' d' bs', change i d = (i', none, d') ∧ i'.source = i.source ∧
      i'.fragment = i.fragment ∧ i'.FitsAs markup ns bs' ∧ d'.Placed p before bs' behind ∧
      Edit d d' p (idsAll bs) (idsAll bs') ∧ AlikeAll (sceneAll bs') ss

/-- A supply shows scenes, from nothing and from an instance of its own
template. -/
structure Supply.Shows (markup : CompiledTemplate → List Node) (s : Supply)
    (ss : List Scene) : Prop where
  fresh : s.2.Makes markup ss
  again : ∀ source values, s.1 = .template source values → ∀ i bs, i.source = source →
    i.Fits markup bs → Instance.Becomes markup (markup source) s.2.again i bs ss
  text : s.1.isTextLike = true → ss = [.text s.1.text]

variable {markup : CompiledTemplate → List Node}

/-! ## Texts -/

namespace Document

theorem Placed.setText {d : Document} {p n : NodeId} {data : String}
    {before behind : List NodeId} (h : d.Placed p before [.text n data] behind)
    (s : String) :
    (d.setText n s).Placed p before [.text n s] behind ∧
      Edit d (d.setText n s) p (idsAll [.text n data]) (idsAll [.text n s]) := by
  have hnode := h.grows.1.1
  have hset : d.setText n s = (d.modify n fun node => { node with kind := .text s }).count
      fun c => { c with textWrites := c.textWrites + 1 } := by
    simp only [Document.setText, kind?_of_node hnode, Option.bind_some, NodeKind.withData?]
  have hchanges := changes_modify (fun node => { node with kind := .text s })
    (fun c => { c with textWrites := c.textWrites + 1 }) hnode
  rw [hset]
  exact Placed.editFirst h hchanges.node hchanges.others hchanges.size
    (h.descendChanged hchanges.node hchanges.others) (.refl _ n [])

end Document

/-! ## One region -/

namespace Region

variable {r : Region} {d d' : Document} {p : NodeId} {before behind : List NodeId}
  {held held' : List Branch} {ss : List Scene}

/-- Branches stand between the markers of a region, side by side with them. -/
structure Encloses (r : Region) (d : Document) (p : NodeId) (before : List NodeId)
    (held : List Branch) (behind : List NodeId) : Prop where
  first : d.parent? r.first = some p
  last : d.parent? r.last = some p
  placed : d.Placed p (before ++ [r.first]) held (r.last :: behind)

namespace Encloses

theorem edit (h : r.Encloses d p before held behind)
    (hplaced : d'.Placed p (before ++ [r.first]) held' (r.last :: behind))
    (hedit : Edit d d' p (idsAll held) (idsAll held')) : r.Encloses d' p before held' behind := by
  have hmarker : ∀ k ∈ (before ++ [r.first]) ++ r.last :: behind, d'.parent? k = d.parent? k :=
    fun k hk => hedit.parent?_eq (h.placed.apart k hk).1 (h.placed.apart k hk).2
  exact ⟨(hmarker r.first (by simp)).trans h.first, (hmarker r.last (by simp)).trans h.last,
    hplaced⟩

theorem remembering (h : r.Encloses d p before held behind) (content : Content) :
    { r with content := content }.Encloses d p before held behind :=
  ⟨h.first, h.last, h.placed⟩

theorem siblingsAfter (h : r.Encloses d p before held behind) :
    d.siblingsAfter r.first = tops held ++ r.last :: behind := by
  have hdistinct : (before ++ r.first :: (tops held ++ r.last :: behind)).Nodup := by
    simpa using h.placed.children_nodup
  have hbefore : r.first ∉ before := fun hmem =>
    (List.nodup_append.mp hdistinct).2.2 _ hmem _ List.mem_cons_self rfl
  have hchildren : d.children p = before ++ r.first :: (tops held ++ r.last :: behind) := by
    simpa using h.placed.children
  simp only [Document.siblingsAfter, h.first, hchildren, Document.dropWhile_ne_append hbefore,
    List.drop_succ_cons, List.drop_zero]

theorem between (h : r.Encloses d p before held behind) :
    d.between r.first r.last = tops held := by
  have hlast : r.last ∉ tops held := fun hmem =>
    (h.placed.apart r.last (by simp)).2 (Branch.tops_subset_idsAll held hmem)
  rw [Document.between, h.siblingsAfter, Document.takeWhile_ne_append hlast]

theorem clear (h : r.Encloses d p before held behind) :
    r.clear d = (none, d.removeChildren p (tops held)) := by
  have hlast : r.last ∈ tops held ++ r.last :: behind := by simp
  simp only [Region.clear, h.first, h.between, h.siblingsAfter, hlast, if_true]

theorem fill {n : NodeId} {d₁ : Document} (h : r.Encloses d₁ p before held behind)
    (hlast : d.parent? r.last = some p) (hn : d.contains n = true)
    (hinsert : d.insertBefore p n (some r.last) = d₁) (content : Content) :
    r.fill n content d = ({ r with content := content.taking (tops held) }, none, d₁) := by
  simp only [Region.fill, hlast, hn, if_true, hinsert, h.between]
  cases content <;> rfl

/-- Replacing what a region holds by what is rendered: what was there stands
nowhere, and what is there was made meanwhile. -/
theorem replace (h : r.Encloses d p before held behind) {rendering : Rendering}
    (hmakes : rendering.Makes markup ss) :
    ∃ content d' held', r.replace rendering d = ({ r with content := content }, none, d') ∧
      content.Fits markup held' ∧ r.Encloses d' p before held' behind ∧
      Edit d d' p (idsAll held) (idsAll held') ∧ AlikeAll (sceneAll held') ss ∧
      (∀ k ∈ idsAll held', d.size ≤ k) ∧ d'.Grows none held := by
  obtain ⟨hempty, hclear⟩ := h.placed.remove
  have hcleared := h.edit hempty hclear
  have hnowhere := h.placed.grows_removed
  have hclear_eq : { r with content := .empty }.clear d =
      (none, d.removeChildren p (tops held)) := h.clear
  generalize d.removeChildren p (tops held) = d₁ at hempty hclear hcleared hnowhere hclear_eq
  obtain ⟨n, content, d₂, bs, hfresh, hrendered, htakes, halike⟩ := hmakes d₁
  obtain ⟨hfull, hfill⟩ := hempty.insert hrendered
  have hfilled : r.Encloses (d₂.insertBefore p n (some r.last)) p before bs behind :=
    hcleared.edit hfull hfill
  have hlast : d₂.parent? r.last = some p := by
    have hsame := hrendered.grown.same r.last (hempty.apart r.last (by simp)).1
    rw [← hcleared.last, Document.parent?, Document.parent?, hsame]
  refine ⟨content.taking (tops bs), _, bs, ?_, htakes, hfilled, hclear.trans hfill, halike, ?_,
    ?_⟩
  · rw [Region.replace, hclear_eq]
    simp only [hfresh]
    exact (hfilled.remembering .empty).fill hlast hrendered.loose.contains rfl content
  · exact fun k hk => Nat.le_trans hclear.size_le (hrendered.fresh k hk)
  · refine hnowhere.frame fun k hk => hfill.same k (hnowhere.lt_size k hk) ?_ (by simp)
    exact fun heq => h.placed.parent_notMem (heq ▸ hk)

theorem update (h : r.Encloses d p before held behind) (hcontent : r.content.Fits markup held)
    (spans : InstanceId → List NodeId) {s : Supply} (hshows : s.Shows markup ss) :
    ∃ content d' held', r.update spans s d = ({ r with content := content }, none, d') ∧
      content.Fits markup held' ∧ r.Encloses d' p before held' behind ∧
      Edit d d' p (idsAll held) (idsAll held') ∧ AlikeAll (sceneAll held') ss := by
  have hreplace : ∃ content d' held',
      r.replace s.2 d = ({ r with content := content }, none, d') ∧
        content.Fits markup held' ∧ r.Encloses d' p before held' behind ∧
        Edit d d' p (idsAll held) (idsAll held') ∧ AlikeAll (sceneAll held') ss := by
    obtain ⟨content, d', held', hreplace, hfits, hencloses, hedit, halike, -⟩ :=
      h.replace hshows.fresh
    exact ⟨content, d', held', hreplace, hfits, hencloses, hedit, halike⟩
  rw [Region.update]
  split
  -- nothing that fits is shared
  case h_1 current next hshared _ =>
      rw [hshared] at hcontent
      exact hcontent.elim
  -- an instance stays if the value is of its template
  case h_2 inner source values hown hvalue =>
      rw [hown] at hcontent
      split
      case isTrue hsource =>
          obtain ⟨inner', d', held', hagain, hsource', _, hfit', hplaced, hedit, halike⟩ :=
            hshows.again source values hvalue inner held hsource hcontent d p _ _ h.placed
          rw [← hsource, ← hsource'] at hfit'
          simp only [hagain]
          exact ⟨.own inner', d', held', rfl, Instance.fits_iff.mpr hfit', h.edit hplaced hedit,
            hedit, halike⟩
      case isFalse => exact hreplace
  -- a text stays if the value is shown by a text
  case h_3 n data hown =>
      rw [hown] at hcontent
      obtain rfl : held = [.text n data] := hcontent
      split
      case isTrue hlike =>
          have hss := hshows.text hlike
          split
          case isTrue hsame =>
              refine ⟨r.content, d, _, ?_, ?_, h, .refl d p _, ?_⟩
              · cases r
                rfl
              · rw [hown]
                rfl
              · rw [hss, ← hsame]
                exact .refl _
          case isFalse =>
              obtain ⟨hset, hedit⟩ := h.placed.setText s.1.text
              refine ⟨.text n s.1.text, _, _, rfl, rfl, h.edit hset hedit, hedit, ?_⟩
              rw [hss]
              exact .refl _
      case isFalse => exact hreplace
  case h_4 => exact hreplace

end Encloses

end Region

/-! ## One region of a layout -/

namespace Mark

theorem branches_eq (m : Mark) (held : List Branch) :
    { m with held := held }.branches =
      [.comment m.first ""] ++ held ++ [.comment m.last ""] := by
  simp [branches]

end Mark

namespace Region

variable {r : Region} {m : Mark} {d : Document} {p : NodeId} {before behind : List NodeId}
  {ss : List Scene}

theorem Fits.encloses (hfit : r.Fits markup m) (hplaced : d.Placed p before m.branches behind) :
    r.Encloses d p before m.held behind := by
  have hall : d.Placed p before ([.comment m.first ""] ++ m.held ++ [.comment m.last ""]) behind :=
    hplaced
  refine ⟨?_, ?_, ?_⟩
  · rw [hfit.first]
    exact Document.parent?_of_node hplaced.grows.1.1
  · rw [hfit.last]
    exact Document.parent?_of_node hall.focusTail.grows.1.1
  · rw [hfit.first, hfit.last]
    exact hall.focus

theorem updates_update (spans : InstanceId → List NodeId) {s : Supply}
    (hshows : s.Shows markup ss) (hfit : r.Fits markup m)
    (hplaced : d.Placed p before m.branches behind) :
    ∃ r' d' held, r.update spans s d = (r', none, d') ∧
      r'.Fits markup { m with held := held } ∧
      d'.Placed p before { m with held := held }.branches behind ∧
      Edit d d' p (idsAll m.branches) (idsAll { m with held := held }.branches) ∧
      AlikeAll (sceneAll held) ss := by
  obtain ⟨content, d', held, hupdate, hcontent, hencloses, hedit, halike⟩ :=
    (hfit.encloses hplaced).update hfit.content spans hshows
  have hall : d.Placed p before ([.comment m.first ""] ++ m.held ++ [.comment m.last ""]) behind :=
    hplaced
  have hplaced' := hencloses.placed
  rw [hfit.first, hfit.last] at hplaced'
  obtain ⟨hwhole, hedit'⟩ := hall.unfocus hplaced' hedit
  rw [← m.branches_eq] at hwhole hedit'
  exact ⟨_, d', held, hupdate, ⟨hfit.placeholder, hfit.first, hfit.last, hcontent⟩, hwhole, hedit',
    halike⟩

end Region

/-! ## All regions of a layout -/

namespace Region

theorem updateAll_append {spans : InstanceId → List NodeId} {supplies : List Supply}
    {inner inner' : List Region} {d d' : Document}
    (h : updateAll spans supplies inner d = (inner', none, d')) (rest : List Region) :
    updateAll spans supplies (inner ++ rest) d =
      (inner' ++ (updateAll spans supplies rest d').1,
        (updateAll spans supplies rest d').2) := by
  induction inner generalizing inner' d with
  | nil =>
      cases h
      rfl
  | cons r inner ih =>
      rw [updateAll] at h
      rw [List.cons_append, updateAll]
      split at h
      · cases h
      · rename_i r' d₁ _
        generalize hall : updateAll spans supplies inner d₁ = result at h
        obtain ⟨inner'', e, d₂⟩ := result
        cases h
        rw [ih hall]
        rfl

end Region

/-- What becomes of a region of a layout that is given its value: it remembers something that
fits what is then between its markers, and the document has changed in one way. -/
def Region.Steps (spans : InstanceId → List NodeId) (supplies : List Supply)
    (R : Document → Document → Prop) (Q : Region → Mark → Prop) (r : Region) (m : Mark) : Prop :=
  ∀ (d : Document) (p : NodeId) (before behind : List NodeId),
    d.Placed p before m.branches behind →
    ∃ r' d' held, r.update spans (supplyAt supplies r.placeholder) d = (r', none, d') ∧
      Q r' { m with held := held } ∧ d'.Placed p before { m with held := held }.branches behind ∧
      Edit d d' p (idsAll m.branches) (idsAll { m with held := held }.branches) ∧ R d d'

theorem Layout.updateAll_of_steps {say : Nat → List Attribute → Attributes → Properties → Prop}
    {next : Nat} {ns : List Node} {elements : List NodeId} {marks : List Mark}
    {bs : List Branch} (h : Layout say next ns elements marks bs)
    {spans : InstanceId → List NodeId} {supplies : List Supply}
    {R : Document → Document → Prop} {Q : Region → Mark → Prop} {regions : List Region}
    (hsteps : List.Forall₂ (Region.Steps spans supplies R Q) regions marks) {d : Document}
    {p : NodeId} {before behind : List NodeId} (hplaced : d.Placed p before bs behind) :
    ∃ regions' d' marks' bs',
      Region.updateAll spans supplies regions d = (regions', none, d') ∧
      Layout say next ns elements marks' bs' ∧
      Layout.roots ns marks' bs' = Layout.roots ns marks bs ∧
      List.Forall₂ Q regions' marks' ∧ d'.Placed p before bs' behind ∧
      Edit d d' p (idsAll bs) (idsAll bs') ∧ Relation.ReflTransGen R d d' := by
  induction h generalizing regions d p before behind with
  | nil =>
      cases hsteps
      exact ⟨[], d, [], [], rfl, .nil, rfl, .nil, hplaced, .refl d p [], .refl⟩
  | @text next data n rest elements marks bs _ ih =>
      obtain ⟨regions', d', marks', bs', hupdate, hlayout, hroots, hQ, hplaced', hedit, hR⟩ :=
        ih hsteps hplaced.focusRest
      obtain ⟨hwhole, hedit'⟩ := hplaced.unfocusRest hplaced' hedit
      exact ⟨regions', d', marks', _, hupdate, .text hlayout, congrArg (n :: ·) hroots, hQ, hwhole,
        hedit', hR⟩
  | @comment next data n rest elements marks bs _ ih =>
      obtain ⟨regions', d', marks', bs', hupdate, hlayout, hroots, hQ, hplaced', hedit, hR⟩ :=
        ih hsteps hplaced.focusRest
      obtain ⟨hwhole, hedit'⟩ := hplaced.unfocusRest hplaced' hedit
      exact ⟨regions', d', marks', _, hupdate, .comment hlayout, congrArg (n :: ·) hroots, hQ,
        hwhole, hedit', hR⟩
  | @placeholder m rest elements marks bs _ ih =>
      cases hsteps with
      | @cons r _ regions _ hstep hsteps =>
          obtain ⟨r', d₁, held, hupdate₁, hQ₁, hplaced₁, hedit₁, hR₁⟩ :=
            hstep d p before (tops bs ++ behind) hplaced.focusHead
          obtain ⟨hwhole₁, hedit₁'⟩ := hplaced.unfocusHead hplaced₁ hedit₁
          obtain ⟨regions', d₂, marks', bs', hupdate₂, hlayout, hroots, hQ₂, hplaced₂, hedit₂,
            hR₂⟩ := ih hsteps hwhole₁.focusTail
          obtain ⟨hwhole₂, hedit₂'⟩ := hwhole₁.unfocusTail hplaced₂ hedit₂
          refine ⟨r' :: regions', d₂, { m with held := held } :: marks', _, ?_,
            Layout.placeholder (m := { m with held := held }) hlayout, ?_, .cons hQ₁ hQ₂, hwhole₂,
            hedit₁'.trans hedit₂', hR₂.head hR₁⟩
          · rw [Region.updateAll, hupdate₁]
            simp only [hupdate₂]
          · rw [Layout.roots_placeholder, Layout.roots_placeholder, hroots]
  | @element next name as children rest n attributes properties inner elements held marks
      under bs hsay hunder _ ihUnder ihRest =>
      obtain ⟨below, beside, rfl, hbelow, hbeside⟩ : ∃ below beside, regions = below ++ beside ∧
          List.Forall₂ (Region.Steps spans supplies R Q) below held ∧
          List.Forall₂ (Region.Steps spans supplies R Q) beside marks :=
        ⟨_, _, (List.take_append_drop held.length regions).symm,
          List.forall₂_take_append _ _ _ hsteps, List.forall₂_drop_append _ _ _ hsteps⟩
      have hfirst := hplaced.focusFirst
      obtain ⟨below', d₁, held', under', hupdate₁, hlayout₁, -, hQ₁, hplaced₁, hedit₁, hR₁⟩ :=
        ihUnder hbelow hfirst.descend
      obtain ⟨hwhole₁, hedit₁'⟩ := hplaced.editFirst hplaced.grows.1.1 (fun _ _ => rfl) rfl
        hplaced₁ hedit₁
      obtain ⟨beside', d₂, marks', bs', hupdate₂, hlayout₂, hroots, hQ₂, hplaced₂, hedit₂,
        hR₂⟩ := ihRest hbeside hwhole₁.focusRest
      obtain ⟨hwhole₂, hedit₂'⟩ := hwhole₁.unfocusRest hplaced₂ hedit₂
      refine ⟨below' ++ beside', d₂, held' ++ marks', _, ?_, .element hsay hlayout₁ hlayout₂, ?_,
        List.rel_append hQ₁ hQ₂, hwhole₂, hedit₁'.trans hedit₂', hR₁.trans hR₂⟩
      · rw [Region.updateAll_append hupdate₁, hupdate₂]
      · rw [Layout.roots_element hlayout₁, Layout.roots_element hunder, hroots]
        rfl

/-- An element that says what values make it say has the attributes of its
substitution, in some order. -/
theorem Settled.perm {value : Nat → Value} {next : Nat} {as : List Attribute}
    {attributes : Attributes} {properties : Properties}
    (h : Settled value next as attributes properties) :
    attributes.Perm (Substitution.attributes value next as) :=
  Attributes.perm_of_value? h.keys (Substitution.nodup_attributes value next as)
    fun name => (h.text name).trans (Substitution.value?_attributes value next as name).symm

theorem Layout.alike {value : Nat → Value} {content : Nat → List Scene} {next : Nat}
    {ns : List Node} {elements : List NodeId} {marks : List Mark} {bs : List Branch}
    (h : Layout (Settled value) next ns elements marks bs)
    (hheld : ∀ m ∈ marks, AlikeAll (sceneAll m.held) (content m.placeholder)) :
    AlikeAll (sceneAll bs) (Substitution.nodes value content next ns) := by
  induction h with
  | nil => trivial
  | @text next data n rest elements marks bs _ ih =>
      exact (AlikeAll.refl [.text (Entity.decode data)]).append (ih hheld)
  | @comment next data n rest elements marks bs _ ih =>
      exact (AlikeAll.refl [.comment (Entity.decode data)]).append (ih hheld)
  | @placeholder m rest elements marks bs _ ih =>
      rw [Branch.sceneAll_append, m.branches_eq m.held, Branch.sceneAll_append,
        Branch.sceneAll_append]
      obtain ⟨hown, hothers⟩ := List.forall_mem_cons.mp hheld
      exact (((AlikeAll.refl [.comment ""]).append hown).append
        (AlikeAll.refl [.comment ""])).append (ih hothers)
  | element hsettled _ _ ihUnder ihRest =>
      exact ⟨⟨rfl, hsettled.perm, hsettled.property,
        ihUnder fun m hm => hheld m (List.mem_append_left _ hm)⟩,
        ihRest fun m hm => hheld m (List.mem_append_right _ hm)⟩

theorem Layout.updateAll {say : Nat → List Attribute → Attributes → Properties → Prop}
    {next : Nat} {ns : List Node} {elements : List NodeId} {marks : List Mark} {bs : List Branch}
    (h : Layout say next ns elements marks bs) {regions : List Region}
    (hfit : Region.FitAll markup regions marks) (spans : InstanceId → List NodeId)
    {supplies : List Supply} {content : Nat → List Scene}
    (hshows : ∀ r ∈ regions, (supplyAt supplies r.placeholder).Shows markup
      (content r.placeholder))
    {d : Document} {p : NodeId} {before behind : List NodeId}
    (hplaced : d.Placed p before bs behind) :
    ∃ regions' d' marks' bs',
      Region.updateAll spans supplies regions d = (regions', none, d') ∧
      Layout say next ns elements marks' bs' ∧
      Layout.roots ns marks' bs' = Layout.roots ns marks bs ∧
      Region.FitAll markup regions' marks' ∧ d'.Placed p before bs' behind ∧
      Edit d d' p (idsAll bs) (idsAll bs') ∧
      ∀ m ∈ marks', AlikeAll (sceneAll m.held) (content m.placeholder) := by
  have hsteps : List.Forall₂ (Region.Steps spans supplies (fun _ _ => True) fun r m =>
      r.Fits markup m ∧ AlikeAll (sceneAll m.held) (content m.placeholder)) regions marks := by
    refine ((List.forall₂_and_left _ _).mpr ⟨hshows, Region.fitAll_iff.mp hfit⟩).imp ?_
    rintro r m ⟨hs, hr⟩ d p before behind hplaced
    obtain ⟨r', d', held, hupdate, hr', hplaced', hedit, halike⟩ :=
      Region.updates_update spans hs hr hplaced
    rw [hr.placeholder] at halike
    exact ⟨r', d', held, hupdate, ⟨hr', halike⟩, hplaced', hedit, trivial⟩
  obtain ⟨regions', d', marks', bs', hupdate, hlayout, hroots, hQ, hplaced', hedit, -⟩ :=
    h.updateAll_of_steps hsteps hplaced
  have hheld := ((List.forall₂_and_left _ _).mp (hQ.flip.imp fun _ _ hr => hr.symm)).1
  exact ⟨regions', d', marks', bs', hupdate, hlayout, hroots,
    Region.fitAll_iff.mpr (hQ.imp fun _ _ hr => hr.1), hplaced', hedit, hheld⟩

end LiveMarkup
