import LiveMarkup.Proofs.Instance.Rendering

/-!
# Patching refines substitution

An instance that was given values looks like the substitution of the values
given last, wherever it stands and whatever it was given before. So patching
an old instance and making a new one come to the same, and the whole way from
segments to a patched instance is substitution.
-/

namespace LiveMarkup

open Branch (idsAll tops sceneAll)
open Scene (AlikeAll)

/-! ## Compiled templates -/

/-- Whether a template was compiled from any nodes. -/
def CompiledTemplate.HasNodes (source : CompiledTemplate) : Prop :=
  ∃ ns, source.template = Template.ofNodes ns

/-- Nodes that a template was compiled from, if there are any. -/
noncomputable def CompiledTemplate.someNodes (source : CompiledTemplate) : List Node :=
  open Classical in if h : source.HasNodes then h.choose else []

theorem CompiledTemplate.HasNodes.compiled {source : CompiledTemplate}
    (h : source.HasNodes) : Value.Compiled CompiledTemplate.someNodes source := by
  rw [Value.Compiled, someNodes, dif_pos h]
  exact h.choose_spec

namespace Value

variable {compiled compiled' : CompiledTemplate → Prop}

mutual

theorem IsPlain.mono (h : ∀ source, compiled source → compiled' source) :
    ∀ {v : Value}, v.IsPlain compiled → v.IsPlain compiled'
  | .undefined, _ | .null, _ | .bool _, _ | .number _, _ | .str _, _ => trivial
  | .list _, hv => ArePlain.mono h hv
  | .template source _, hv => ⟨h source hv.1, ArePlain.mono h hv.2⟩
  | .node _, hv | .shared _, hv => hv.elim

theorem ArePlain.mono (h : ∀ source, compiled source → compiled' source) :
    ∀ {vs : List Value}, ArePlain compiled vs → ArePlain compiled' vs
  | [], _ => trivial
  | _ :: _, hvs => ⟨IsPlain.mono h hvs.1, ArePlain.mono h hvs.2⟩

end

end Value

/-! ## A history of values -/

namespace Instance

/-- Gives an instance values again and again, up to the first failure. -/
def patchEach (spans : InstanceId → List NodeId) :
    List (List Value) → Instance → Document → Instance × Option PatchError × Document
  | [], i, d => (i, none, d)
  | values :: rest, i, d =>
      match i.patch spans values d with
      | (i, some e, d) => (i, some e, d)
      | (i, none, d) => patchEach spans rest i d

theorem patchEach_singleton (spans : InstanceId → List NodeId) (values : List Value)
    (i : Instance) (d : Document) :
    i.patchEach spans [values] d = i.patch spans values d := by
  rw [patchEach]
  generalize i.patch spans values d = result
  obtain ⟨i', e, d'⟩ := result
  cases e <;> rfl

variable {markup : CompiledTemplate → List Node} {ns : List Node}

theorem becomes_patchEach (spans : InstanceId → List NodeId) {history : List (List Value)}
    {last : List Value} {i : Instance} {bs : List Branch}
    (hplain : ∀ values ∈ history ++ [last], Value.ArePlain (Value.Compiled markup) values)
    (hfit : i.FitsAs markup ns bs) :
    i.Becomes markup ns (patchEach spans (history ++ [last])) bs
      (Substitution.nodes (Value.supplied last) (Value.suppliedScenes markup last) 0 ns) := by
  induction history generalizing i bs with
  | nil =>
      have hlast := (hplain last (by simp)).shows spans
      intro d p before behind hplaced
      rw [List.nil_append, patchEach_singleton]
      exact becomes_patch spans hfit (fun k _ => hlast k) d p before behind hplaced
  | cons values history ih =>
      have hvalues := (hplain values (by simp)).shows spans
      intro d p before behind hplaced
      obtain ⟨i₁, d₁, bs₁, hpatch, hsource, hfragment, hfit₁, hplaced₁, hedit₁, -⟩ :=
        becomes_patch spans hfit (fun k _ => hvalues k) d p before behind hplaced
      obtain ⟨i₂, d₂, bs₂, hpatches, hsource₂, hfragment₂, hfit₂, hplaced₂, hedit₂, halike⟩ :=
        ih (fun vs hvs => hplain vs (List.mem_cons_of_mem _ hvs)) hfit₁ d₁ p before behind
          hplaced₁
      refine ⟨i₂, d₂, bs₂, ?_, hsource₂.trans hsource, hfragment₂.trans hfragment, hfit₂,
        hplaced₂, hedit₁.trans hedit₂, halike⟩
      rw [List.cons_append, patchEach]
      simp only [hpatch]
      exact hpatches

/-- A new instance that is given values looks like the substitution of the
values given last. -/
theorem create_patchEach (markup : CompiledTemplate → List Node) {source : CompiledTemplate}
    (hsource : source.template = Template.ofNodes ns) (spans : InstanceId → List NodeId)
    {history : List (List Value)} {last : List Value}
    (hplain : ∀ values ∈ history ++ [last], Value.ArePlain (Value.Compiled markup) values)
    (d : Document) :
    ∃ i d₁ i' d₂, create source d = (.ok i, d₁) ∧
      i.patchEach spans (history ++ [last]) d₁ = (i', none, d₂) ∧
      AlikeAll (d₂.scenes i'.fragment)
        (Substitution.nodes (Value.supplied last) (Value.suppliedScenes markup last) 0 ns) := by
  obtain ⟨i, d₁, bs, hcreate, hfresh⟩ := create_fresh markup hsource d
  obtain ⟨i', d₂, bs', hpatch, -, hfragment, -, hplaced, -, halike⟩ :=
    becomes_patchEach spans hplain hfresh.fits d₁ i.fragment [] [] hfresh.placed
  refine ⟨i, d₁, i', d₂, hcreate, hpatch, ?_⟩
  have hchildren : d₂.children i.fragment = tops bs' := by simpa using hplaced.children
  rw [hfragment, Document.scenes_of_grows hplaced.grows hplaced.ids_nodup hchildren]
  exact halike

/-- Whatever an instance was given before, giving it values never fails and
makes it look like a new instance that was given those values only. -/
theorem patchEach_like_new {source : CompiledTemplate} (hsource : source.HasNodes)
    {history : List (List Value)} {last : List Value}
    (hplain : ∀ values ∈ history ++ [last],
      Value.ArePlain CompiledTemplate.HasNodes values)
    (spans : InstanceId → List NodeId) (d e : Document) :
    ∃ i d₁ i' d₂ j e₁ j' e₂,
      create source d = (.ok i, d₁) ∧
      i.patchEach spans (history ++ [last]) d₁ = (i', none, d₂) ∧
      create source e = (.ok j, e₁) ∧
      j.patch spans last e₁ = (j', none, e₂) ∧
      AlikeAll (d₂.scenes i'.fragment) (e₂.scenes j'.fragment) := by
  obtain ⟨ns, hns⟩ := hsource
  have hplain' : ∀ values ∈ history ++ [last],
      Value.ArePlain (Value.Compiled CompiledTemplate.someNodes) values :=
    fun values hvalues =>
      (hplain values hvalues).mono fun _ => CompiledTemplate.HasNodes.compiled
  obtain ⟨i, d₁, i', d₂, hcreate, hpatch, halike⟩ :=
    create_patchEach CompiledTemplate.someNodes hns spans hplain' d
  have hlast : ∀ values ∈ [] ++ [last],
      Value.ArePlain (Value.Compiled CompiledTemplate.someNodes) values :=
    fun values hvalues => hplain' values (List.mem_append_right history hvalues)
  obtain ⟨j, e₁, j', e₂, hcreate', hpatch', halike'⟩ :=
    create_patchEach CompiledTemplate.someNodes hns spans hlast e
  rw [List.nil_append, patchEach_singleton] at hpatch'
  exact ⟨i, d₁, i', d₂, j, e₁, j', e₂, hcreate, hpatch, hcreate', hpatch',
    halike.trans halike'.symm⟩

theorem patchEach_like_new_paragraph :
    ∃ i d₁ i' d₂ j e₁ j' e₂,
      create ⟨0, Template.ofNodes [.element "p" [] [.placeholder]]⟩ .empty = (.ok i, d₁) ∧
      i.patchEach (fun _ => []) [[.str "a"], [.list [.null, .bool true]]] d₁ =
        (i', none, d₂) ∧
      create ⟨0, Template.ofNodes [.element "p" [] [.placeholder]]⟩ .empty = (.ok j, e₁) ∧
      j.patch (fun _ => []) [.list [.null, .bool true]] e₁ = (j', none, e₂) ∧
      AlikeAll (d₂.scenes i'.fragment) (e₂.scenes j'.fragment) := by
  have hsource : CompiledTemplate.HasNodes
      ⟨0, Template.ofNodes [.element "p" [] [.placeholder]]⟩ := ⟨_, rfl⟩
  have hplain : ∀ values ∈ [[Value.str "a"]] ++ [[.list [.null, .bool true]]],
      Value.ArePlain CompiledTemplate.HasNodes values := by
    simp [Value.ArePlain, Value.IsPlain]
  exact patchEach_like_new hsource hplain (fun _ => []) .empty .empty

end Instance

/-! ## From segments to a document -/

/-- Segments that can be compiled, planted into any document and given any
plain values, look like the substitution of the values into their nodes. -/
theorem Template.patch_substitutes {segments : List String} {tokens : List Token}
    {ns : List Node} (htokens : Token.ofSegments segments = .ok tokens)
    (hns : Node.ofTokens tokens = .ok ns) {markup : CompiledTemplate → List Node}
    {values : List Value} (hplain : Value.ArePlain (Value.Compiled markup) values) (id : Nat)
    (spans : InstanceId → List NodeId) (d : Document) :
    ∃ t i d₁ i' d₂, Template.ofSegments segments = .ok t ∧
      Instance.create ⟨id, t⟩ d = (.ok i, d₁) ∧
      i.patch spans values d₁ = (i', none, d₂) ∧
      AlikeAll (d₂.scenes i'.fragment)
        (Substitution.nodes (Value.supplied values) (Value.suppliedScenes markup values) 0
          ns) := by
  have hsegments : Template.ofSegments segments = .ok (Template.ofNodes ns) := by
    simp only [Template.ofSegments, htokens, bind, Except.bind, hns]
    rfl
  have hvalues : ∀ vs ∈ [] ++ [values], Value.ArePlain (Value.Compiled markup) vs := by
    simpa using hplain
  have hsource : (CompiledTemplate.mk id (Template.ofNodes ns)).template =
      Template.ofNodes ns := rfl
  obtain ⟨i, d₁, i', d₂, hcreate, hpatch, halike⟩ :=
    Instance.create_patchEach markup hsource spans hvalues d
  rw [List.nil_append, Instance.patchEach_singleton] at hpatch
  exact ⟨_, i, d₁, i', d₂, hsegments, hcreate, hpatch, halike⟩

theorem Template.patch_substitutes_paragraph :
    ∃ t i d₁ i' d₂, Template.ofSegments ["<p>", "</p>"] = .ok t ∧
      Instance.create ⟨0, t⟩ .empty = (.ok i, d₁) ∧
      i.patch (fun _ => []) [.list [.null, .bool true]] d₁ = (i', none, d₂) ∧
      AlikeAll (d₂.scenes i'.fragment)
        [.node (.element "p") [] (fun _ => none)
          [.comment "", .text "", .text "true", .comment ""]] := by
  have htokens : Token.ofSegments ["<p>", "</p>"] =
      .ok [.startOpen "p", .startClose "p", .placeholder, .elementEnd "p"] := by cbv
  have hns : Node.ofTokens [.startOpen "p", .startClose "p", .placeholder, .elementEnd "p"] =
      .ok [.element "p" [] [.placeholder]] := by rfl
  have hplain : Value.ArePlain (Value.Compiled fun _ => []) [.list [.null, .bool true]] := by
    simp [Value.ArePlain, Value.IsPlain]
  exact Template.patch_substitutes htokens hns hplain 0 (fun _ => []) .empty

end LiveMarkup
