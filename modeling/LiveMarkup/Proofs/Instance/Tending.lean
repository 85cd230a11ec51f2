import LiveMarkup.Proofs.Instance.Lives

/-!
# What an instance was given last

A region that was given a value remembers the text or the instance that shows
it, and an instance that belongs to a region remembers the values in the value
in the same way. So what an instance remembers after a patch that did not fail
mirrors the values of that patch, at every depth and whatever was there before.

An instance is tended if nobody else changes what is in or under its topmost
nodes, and if nodes and instances from elsewhere are supplied to its attributes
and properties at most.
-/

namespace LiveMarkup

open Branch (idsAll tops sceneAll)
open Scene (AlikeAll)

/-! ## Records of values -/

mutual

/-- Whether every region of an instance remembers what shows the value that it is given. -/
def Instance.Records (value : Nat → Value) : Instance → Prop
  | ⟨_, _, _, _, regions⟩ => Region.RecordAll value regions

/-- Whether regions remember what shows the values that they are given. -/
def Region.RecordAll (value : Nat → Value) : List Region → Prop
  | [] => True
  | ⟨_, placeholder, _, _, content⟩ :: rest =>
      content.Records (value placeholder) ∧ Region.RecordAll value rest

/-- Whether what a region remembers shows a value: a text by its data, and a template by an
instance of it. -/
def Content.Records : Content → Value → Prop
  | .text _ data, v => v.isTextLike = true ∧ data = v.text
  | .own inner, .template source values =>
      inner.source = source ∧ inner.Records (Value.supplied values)
  | .shared current, .shared id => current = id
  | .nodes _, .list _ | .nodes _, .node _ => True
  | _, _ => False

end

theorem Instance.records_iff {value : Nat → Value} {i : Instance} :
    i.Records value ↔ Region.RecordAll value i.regions := by
  cases i
  exact Iff.rfl

theorem Region.recordAll_cons {value : Nat → Value} {r : Region} {rest : List Region} :
    Region.RecordAll value (r :: rest) ↔
      r.content.Records (value r.placeholder) ∧ Region.RecordAll value rest := by
  cases r
  exact Iff.rfl

namespace Content

variable {content : Content}

theorem Records.of_isTextLike {v : Value} (h : content.Records v) (hlike : v.isTextLike = true) :
    ∃ n, content = .text n v.text := by
  cases content with
  | text n data => exact ⟨n, congrArg (Content.text n) h.2⟩
  | _ => cases v <;> first | exact h.elim | cases hlike

theorem Records.of_template {source : CompiledTemplate} {values : List Value}
    (h : content.Records (.template source values)) :
    ∃ inner, content = .own inner ∧ inner.source = source ∧
      inner.Records (Value.supplied values) := by
  cases content with
  | own inner => exact ⟨inner, rfl, h⟩
  | text n data => cases h.1
  | _ => exact h.elim

end Content

/-- A supply that is remembered, where nothing is yet and where an instance of its own template
is. -/
structure Supply.Recorded (s : Supply) : Prop where
  fresh : ∀ {d d' : Document} {n : NodeId} {content : Content},
    s.2.fresh d = (.ok (n, content), d') → ∀ held, (content.taking held).Records s.1
  again : ∀ source values, s.1 = .template source values →
    ∀ {i i' : Instance} {d d' : Document}, s.2.again i d = (i', none, d') →
      i'.source = i.source ∧ i'.Records (Value.supplied values)

namespace Region

variable {r r' : Region} {d d' : Document}

theorem fill_records {n : NodeId} {content : Content} {v : Value}
    (hcontent : ∀ held, (content.taking held).Records v)
    (h : r.fill n content d = (r', none, d')) :
    r'.placeholder = r.placeholder ∧ r'.content.Records v := by
  unfold fill at h
  split at h
  · cases h
  · split at h
    · cases h
      refine ⟨rfl, ?_⟩
      rename_i parent _ _
      have htaking := hcontent ((d.insertBefore parent n (some r.last)).between r.first r.last)
      cases content <;> exact htaking
    · cases h

theorem replace_records {s : Supply} (hs : s.Recorded)
    (h : r.replace s.2 d = (r', none, d')) :
    r'.placeholder = r.placeholder ∧ r'.content.Records s.1 := by
  unfold replace at h
  dsimp only at h
  generalize { r with content := .empty }.clear d = cleared at h
  obtain ⟨e, d₁⟩ := cleared
  cases e with
  | some e => cases h
  | none =>
      dsimp only at h
      generalize hfresh : s.2.fresh d₁ = made at h
      obtain ⟨result, d₂⟩ := made
      cases result with
      | error e => cases h
      | ok node =>
          have hfilled := fill_records (hs.fresh hfresh) h
          exact hfilled

theorem update_records {spans : InstanceId → List NodeId} {s : Supply} (hs : s.Recorded)
    (h : r.update spans s d = (r', none, d')) :
    r'.placeholder = r.placeholder ∧ r'.content.Records s.1 := by
  unfold update at h
  split at h
  · rename_i current next hcontent hvalue
    split at h
    · rename_i hsame
      cases h
      refine ⟨rfl, ?_⟩
      rw [hcontent, hvalue]
      exact hsame.1
    · exact replace_records hs h
  · rename_i inner source values hcontent hvalue
    split at h
    · rename_i hsource
      generalize hagain : s.2.again inner d = result at h
      obtain ⟨inner', e, d₁⟩ := result
      cases h
      obtain ⟨hkept, hrecords⟩ := hs.again source values hvalue hagain
      refine ⟨rfl, ?_⟩
      rw [hvalue]
      exact ⟨hkept.trans hsource, hrecords⟩
    · exact replace_records hs h
  · rename_i n data hcontent
    split at h
    · rename_i hlike
      split at h
      · rename_i hsame
        cases h
        refine ⟨rfl, ?_⟩
        rw [hcontent]
        exact ⟨hlike, hsame⟩
      · cases h
        exact ⟨rfl, hlike, rfl⟩
    · exact replace_records hs h
  · exact replace_records hs h

theorem updateAll_records {spans : InstanceId → List NodeId} {supplies : List Supply}
    (hs : ∀ k, (supplyAt supplies k).Recorded) {regions regions' : List Region}
    (h : updateAll spans supplies regions d = (regions', none, d')) :
    RecordAll (fun k => (supplyAt supplies k).1) regions' := by
  induction regions generalizing regions' d with
  | nil =>
      cases h
      trivial
  | cons r rest ih =>
      rw [updateAll] at h
      generalize hupdate : r.update spans (supplyAt supplies r.placeholder) d = updated at h
      obtain ⟨r₁, e, d₁⟩ := updated
      cases e with
      | some e => cases h
      | none =>
          dsimp only at h
          generalize hrest : updateAll spans supplies rest d₁ = others at h
          obtain ⟨rest', e, d₂⟩ := others
          cases h
          obtain ⟨hplaceholder, hrecords⟩ := update_records (hs r.placeholder) hupdate
          rw [← hplaceholder] at hrecords
          exact recordAll_cons.mpr ⟨hrecords, ih hrest⟩

end Region

namespace Instance

variable {d d' : Document} {i i' : Instance}

theorem supply_records {spans : InstanceId → List NodeId} {supplies : List Supply}
    (hs : ∀ k, (supplyAt supplies k).Recorded)
    (h : i.supply spans supplies d = (i', none, d')) :
    i'.source = i.source ∧ i'.Records fun k => (supplyAt supplies k).1 := by
  unfold supply at h
  dsimp only at h
  generalize hupdate : Region.updateAll spans supplies i.regions _ = updated at h
  obtain ⟨regions, e, d₁⟩ := updated
  cases h
  exact ⟨rfl, Region.updateAll_records hs hupdate⟩

end Instance

namespace Value

variable {spans : InstanceId → List NodeId}

theorem recorded_text (spans : InstanceId → List NodeId) {v : Value}
    (hlike : v.isTextLike = true) :
    Supply.Recorded (v, v.rendering spans) where
  fresh := by
    intro d d' n content h held
    have hrendering : v.rendering spans = .text v.text := by
      cases v with
      | undefined | null | bool | number | str => rfl
      | _ => cases hlike
    simp only [hrendering, Rendering.text] at h
    cases h
    exact ⟨hlike, rfl⟩
  again := by
    rintro source values rfl
    cases hlike

theorem recorded_template {source : CompiledTemplate} {values : List Value}
    (h : ∀ k, (supplyAt (supplies spans values) k).Recorded) :
    Supply.Recorded (.template source values, (template source values).rendering spans) where
  fresh := by
    intro d d' n content hfresh held
    simp only [rendering, Instance.createWith] at hfresh
    generalize hcreate : Instance.create source d = created at hfresh
    obtain ⟨result, d₁⟩ := created
    cases result with
    | error e => cases hfresh
    | ok i =>
        dsimp only at hfresh
        generalize hsupply : i.supply spans (supplies spans values) d₁ = supplied at hfresh
        obtain ⟨i', e, d₂⟩ := supplied
        cases e with
        | some e => cases hfresh
        | none =>
            cases hfresh
            obtain ⟨hsource, hrecords⟩ := Instance.supply_records h hsupply
            simp only [supplyAt_supplies] at hrecords
            exact ⟨hsource.trans (Instance.source_create hcreate), hrecords⟩
  again := by
    rintro source' values' heq i i' d d' hagain
    obtain ⟨rfl, rfl⟩ := Value.template.inj heq
    have hrecords := Instance.supply_records h hagain
    simpa only [supplyAt_supplies] using hrecords

mutual

theorem recorded (spans : InstanceId → List NodeId) : ∀ v : Value,
    Supply.Recorded (v, v.rendering spans)
  | .undefined | .null | .bool _ | .number _ | .str _ => recorded_text spans rfl
  | .template _ values => recorded_template (recorded_all spans values)
  | .list items =>
      { fresh := by
          intro d d' n content h held
          simp only [rendering] at h
          split at h
          · cases h
          · cases h
            trivial
        again := by simp }
  | .node _ =>
      { fresh := by
          intro d d' n content h held
          cases h
          trivial
        again := by simp }
  | .shared _ =>
      { fresh := by
          intro d d' n content h held
          cases h
          rfl
        again := by simp }

theorem recorded_all (spans : InstanceId → List NodeId) : ∀ (values : List Value) (k : Nat),
    (supplyAt (supplies spans values) k).Recorded
  | [], _ => recorded_text spans (v := .undefined) rfl
  | v :: _, 0 => recorded spans v
  | _ :: values, k + 1 => recorded_all spans values k

end

end Value

/-- An instance that was given values remembers them. -/
theorem Instance.patch_records {spans : InstanceId → List NodeId} {values : List Value}
    {i i' : Instance} {d d' : Document} (h : i.patch spans values d = (i', none, d')) :
    i'.source = i.source ∧ i'.Records (Value.supplied values) := by
  have hrecords := Instance.supply_records (Value.recorded_all spans values) h
  simpa only [Value.supplyAt_supplies] using hrecords

/-! ## Tended instances -/

namespace Instance

variable {i i' : Instance} {d d' : Document} {bs : List Branch}

/-- What becomes of an instance of a compiled template that is given values its regions can
show, while the document may change as long as nobody else changes what is in or under its
topmost nodes. With it stand the values that it was given last, unless that failed. -/
inductive Tended : Option (List Value) → Instance → Document → Prop
  | create {source : CompiledTemplate} {d d' : Document} {i : Instance}
      (hsource : source.HasNodes) (hd : d.Tied) (hcreate : create source d = (.ok i, d')) :
      Tended none i d'
  | patch {last : Option (List Value)} {i i' : Instance} {d d' : Document}
      (h : Tended last i d) {spans : InstanceId → List NodeId} {values : List Value}
      (hshow : (Value.template i.source values).Showable CompiledTemplate.HasNodes)
      (hpatch : i.patch spans values d = (i', none, d')) : Tended (some values) i' d'
  | failed {last : Option (List Value)} {i i' : Instance} {e : PatchError} {d d' : Document}
      (h : Tended last i d) {spans : InstanceId → List NodeId} {values : List Value}
      (hshow : (Value.template i.source values).Showable CompiledTemplate.HasNodes)
      (hpatch : i.patch spans values d = (i', some e, d')) : Tended none i' d'
  | meanwhile {last : Option (List Value)} {i : Instance} {d d' : Document}
      (h : Tended last i d) (hd : d'.Tied) (hsame : Document.SameUnder i.span d d') :
      Tended last i d'

/-- Values that an instance shows at branches: it remembers them and looks like them. -/
structure Displays (i : Instance) (bs : List Branch) (values : List Value) : Prop where
  showable : (Value.template i.source values).Showable CompiledTemplate.HasNodes
  records : i.Records (Value.supplied values)
  alike : AlikeAll (sceneAll bs)
    ((Value.template i.source values).scenes CompiledTemplate.someNodes)

/-- Giving an instance values that its regions can show, wherever its nodes are. -/
theorem drifts_showable (spans : InstanceId → List NodeId) {values : List Value}
    (hshow : (Value.template i.source values).Showable CompiledTemplate.HasNodes)
    (hfit : i.Fits CompiledTemplate.someNodes bs) (hs : d.Strewn bs) :
    ∃ i' e d' bs', i.patch spans values d = (i', e, d') ∧ i'.source = i.source ∧
      i'.Fits CompiledTemplate.someNodes bs' ∧ d'.Strewn bs' ∧
      (e = none → i'.Displays bs' values) := by
  obtain ⟨i', e, d', bs', hpatch, hsource, hfit', hdrift⟩ :=
    (hshow.serves spans).drifts i.source values rfl i bs rfl hfit d [] [] (by simpa using hs)
  refine ⟨i', e, d', bs', hpatch, hsource, ?_, by simpa using hdrift.strewn, ?_⟩
  · rw [fits_iff, hsource]
    exact hfit'
  · rintro rfl
    rw [← hsource] at hshow
    refine ⟨hshow, (patch_records hpatch).2, ?_⟩
    rw [hsource]
    exact hdrift.shown rfl

/-- A tended instance fits the branches at which its nodes are, wherever they stand, and shows
there what it was given last. -/
theorem Tended.stands {last : Option (List Value)} (h : Tended last i d) :
    ∃ bs, i.Fits CompiledTemplate.someNodes bs ∧ d.Strewn bs ∧
      ∀ values ∈ last, i.Displays bs values := by
  induction h with
  | @create source d d' i hsource hd hcreate =>
      obtain ⟨i', d₁, bs, hcreate', hfresh⟩ :=
        create_fresh CompiledTemplate.someNodes hsource.compiled d
      cases hcreate.symm.trans hcreate'
      refine ⟨bs, fits_iff.mpr ?_, .of_grows (create_parts hsource hd hcreate).1
        hfresh.placed.grows hfresh.placed.ids_nodup, by simp⟩
      rw [hfresh.source]
      exact hfresh.fits
  | @patch last i i' d d' _ spans values hshow hpatch ih =>
      obtain ⟨bs, hfit, hs, -⟩ := ih
      obtain ⟨i₁, e, d₁, bs', hpatch', -, hfit', hs', hdisplays⟩ :=
        drifts_showable spans hshow hfit hs
      cases hpatch.symm.trans hpatch'
      refine ⟨bs', hfit', hs', fun given hgiven => ?_⟩
      cases hgiven
      exact hdisplays rfl
  | failed _ hshow hpatch ih =>
      obtain ⟨bs, hfit, hs, -⟩ := ih
      obtain ⟨i₁, e, d₁, bs', hpatch', -, hfit', hs', -⟩ := drifts_showable _ hshow hfit hs
      cases hpatch.symm.trans hpatch'
      exact ⟨bs', hfit', hs', by simp⟩
  | meanwhile _ hd hsame ih =>
      obtain ⟨bs, hfit, hs, hdisplays⟩ := ih
      rw [span_of_fits hfit hs.distinct] at hsame
      exact ⟨bs, hfit, hs.same hd hsame, hdisplays⟩

/-- A new instance that is given values stands in its fragment and looks like them. -/
theorem create_shows {source : CompiledTemplate} (hsource : source.HasNodes)
    (hshow : (Value.template source values).Showable CompiledTemplate.HasNodes)
    (spans : InstanceId → List NodeId) (e : Document) :
    ∃ j e₁ j' e₂, create source e = (.ok j, e₁) ∧ j.patch spans values e₁ = (j', none, e₂) ∧
      e₂.contains j'.fragment = true ∧ e₂.children j'.fragment = j'.span ∧
      AlikeAll (e₂.scenes j'.fragment)
        ((Value.template source values).scenes CompiledTemplate.someNodes) := by
  obtain ⟨j, e₁, bs, hcreate, hfresh⟩ :=
    create_fresh CompiledTemplate.someNodes hsource.compiled e
  have hfit := fits_iff.mpr (hfresh.source.symm ▸ hfresh.fits)
  obtain ⟨j', e₂, bs', hpatch, hsource', hfragment, hfit', hplaced, -, halike⟩ :=
    (hshow.serves spans).shows.again source values rfl j bs hfresh.source hfit e₁ j.fragment [] []
      hfresh.placed
  have hchildren : e₂.children j.fragment = tops bs' := by simpa using hplaced.children
  rw [← hfresh.source, ← hsource', ← fits_iff] at hfit'
  refine ⟨j, e₁, j', e₂, hcreate, hpatch, ?_, ?_, ?_⟩
  · rw [hfragment]
    exact decide_eq_true hplaced.lt_size
  · rw [hfragment, hchildren, span_of_fits hfit' hplaced.ids_nodup]
  · rw [hfragment, Document.scenes_of_grows hplaced.grows hplaced.ids_nodup hchildren]
    exact halike

theorem create_tended {source : CompiledTemplate} (hsource : source.HasNodes)
    (hshow : (Value.template source values).Showable CompiledTemplate.HasNodes)
    (spans : InstanceId → List NodeId) {e : Document} (he : e.Tied) :
    ∃ j e₁ i d, create source e = (.ok j, e₁) ∧ j.patch spans values e₁ = (i, none, d) ∧
      i.source = source ∧ i.Tended (some values) d ∧ d.contains i.fragment = true ∧
      d.children i.fragment = i.span := by
  obtain ⟨j, e₁, i, d, hcreate, hpatch, hcontains, hchildren, -⟩ :=
    create_shows hsource hshow spans e
  have hmade := source_create hcreate
  exact ⟨j, e₁, i, d, hcreate, hpatch, (patch_records hpatch).1.trans hmade,
    .patch (.create hsource he hcreate) (hmade ▸ hshow) hpatch, hcontains, hchildren⟩

end Instance

end LiveMarkup
