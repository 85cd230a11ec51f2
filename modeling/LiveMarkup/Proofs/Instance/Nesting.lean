import LiveMarkup.Proofs.Instance.Spans
import Mathlib.Data.Finset.Card
import Mathlib.Data.Finset.Range
import Mathlib.Order.WellFounded

/-!
# Instances inside instances

Which shared instances sit inside which. None sits inside itself, so that the
span of each is what its own pieces say, however deep the spans of the others
were followed. Whatever a document looks like that stands as the links inside a
shared instance say: what is needed to gather that instance is known.
-/

namespace LiveMarkup

open Relation (ReflTransGen TransGen)

variable {f g : InstanceId → List NodeId} {x y z m n : NodeId} {t u v k : InstanceId}

/-! ## Spans of what is held -/

mutual

theorem Instance.spanWith_congr : (i : Instance) →
    (∀ m t n, .gap m t n ∈ i.links → f t = g t) → i.spanWith f = i.spanWith g
  | ⟨_, _, nodes, _, regions⟩, h => by
      rw [Instance.links] at h
      rw [Instance.spanWith, Instance.spanWith, Region.spansWith_congr regions fun m t n hk =>
        h m t n (List.mem_append_right _ hk)]

theorem Region.spansWith_congr : (regions : List Region) →
    (∀ m t n, .gap m t n ∈ Region.linksAll regions → f t = g t) →
    Region.spansWith f regions = Region.spansWith g regions
  | [], _ => rfl
  | ⟨_, _, first, last, content⟩ :: rest, h => by
      rw [Region.linksAll] at h
      rw [Region.spansWith, Region.spansWith,
        Content.spanWith_congr content fun m t n hk => h m t n (List.mem_append_left _ hk),
        Region.spansWith_congr rest fun m t n hk => h m t n (List.mem_append_right _ hk)]

theorem Content.spanWith_congr : (content : Content) → {first last : NodeId} →
    (∀ m t n, .gap m t n ∈ content.links first last → f t = g t) →
    content.spanWith f = content.spanWith g
  | .empty, _, _, _ => rfl
  | .text _ _, _, _, _ => rfl
  | .own inner, _, _, h => by
      rw [Content.links] at h
      rw [Content.spanWith, Content.spanWith]
      exact Instance.spanWith_congr inner fun m t n hk => h m t n (List.mem_append_right _ hk)
  | .shared t, first, last, h => by
      rw [Content.spanWith, Content.spanWith, h first t last List.mem_cons_self]
  | .nodes _, _, _, _ => rfl

end

namespace SharedInstances

variable {pool : SharedInstances}

/-- The top-level nodes of a shared instance. -/
def tops (pool : SharedInstances) (t : InstanceId) : List NodeId :=
  match pool[t]? with
  | none => []
  | some i => i.nodes

/-- The links of a shared instance and the run that it makes up. -/
def linksAt (pool : SharedInstances) (t : InstanceId) : List Link :=
  match pool[t]? with
  | none => []
  | some i => Link.ends (some t) i.nodes ++ i.links

theorem tops_of_some {i : Instance} (h : pool[t]? = some i) : pool.tops t = i.nodes := by
  simp only [tops, h]

theorem linksAt_of_some {i : Instance} (h : pool[t]? = some i) :
    pool.linksAt t = Link.ends (some t) i.nodes ++ i.links := by
  simp only [linksAt, h]

/-- A shared instance has a place for another one. -/
def Holds (pool : SharedInstances) (v t : InstanceId) : Prop :=
  ∃ m n, .gap m t n ∈ pool.linksAt v

theorem holds_iff : pool.Holds v t ↔ t ∈ (pool.linksAt v).filterMap Link.place? := by
  rw [List.mem_filterMap]
  constructor
  · rintro ⟨m, n, hk⟩
    exact ⟨_, hk, rfl⟩
  · rintro ⟨link, hk, hplace⟩
    cases link with
    | gap m u n =>
        obtain rfl := Option.some.inj hplace
        exact ⟨m, n, hk⟩
    | _ => cases hplace

/-- A shared instance is another one or sits somewhere inside it. -/
def Inside (pool : SharedInstances) (u v : InstanceId) : Prop :=
  ReflTransGen pool.Holds u v

theorem not_inside {u v : InstanceId} (hplaces : (pool.linksAt u).filterMap Link.place? = [])
    (hne : u ≠ v) : ¬ pool.Inside u v := by
  intro hinside
  rcases hinside.cases_head with heq | ⟨t, hheld, -⟩
  · exact hne heq
  · rw [holds_iff, hplaces] at hheld
    cases hheld

/-- The links of a shared instance and of all that sits inside it. -/
def LinkedIn (pool : SharedInstances) (u : InstanceId) (k : Link) : Prop :=
  ∃ v, pool.Inside u v ∧ k ∈ pool.linksAt v

/-- Shared instances whose markers enclose what they hold, and none of which
sits inside itself. -/
structure Sound (pool : SharedInstances) : Prop where
  framed : ∀ i ∈ pool, i.Framed
  grounded : WellFounded fun t v => pool.Holds v t

theorem LinkedIn.of_holds {link : Link} (hheld : pool.Holds v t) (h : pool.LinkedIn t link) :
    pool.LinkedIn v link := by
  obtain ⟨u, hinside, hk⟩ := h
  exact ⟨u, .head hheld hinside, hk⟩

theorem LinkedIn.of_inside {link : Link} (hinside : pool.Inside v t) (h : pool.LinkedIn t link) :
    pool.LinkedIn v link := by
  obtain ⟨u, hinside', hk⟩ := h
  exact ⟨u, hinside.trans hinside', hk⟩

theorem LinkedIn.self {link : Link} (h : link ∈ pool.linksAt v) : pool.LinkedIn v link :=
  ⟨v, .refl, h⟩

namespace Sound

variable (h : pool.Sound)
include h

theorem not_inside (hheld : pool.Holds v t) : ¬ pool.Inside t v := by
  intro hinside
  have hcycle : TransGen pool.Holds v v := .head' hheld hinside
  exact h.grounded.transGen.irrefl.irrefl v (Relation.transGen_swap.mpr hcycle)

theorem linksAt_cases {link : Link} (hk : link ∈ pool.linksAt v) :
    (∃ x y, link = .next x y) ∨ (∃ m t n, link = .gap m t n ∧ m ≠ n) ∨
      ∃ x y, link = .run (some v) x y := by
  unfold linksAt at hk
  split at hk
  · cases hk
  · rename_i i hi
    rcases List.mem_append.mp hk with hk | hk
    · unfold Link.ends at hk
      split at hk
      · exact .inr (.inr ⟨_, _, List.mem_singleton.mp hk⟩)
      · cases hk
    · rcases Instance.links_cases i (h.framed i (List.mem_of_getElem? hi)) hk with hk | hk
      · exact .inl hk
      · exact .inr (.inl hk)

theorem gap_ne (hk : .gap m t n ∈ pool.linksAt v) : m ≠ n := by
  rcases h.linksAt_cases hk with ⟨x, y, heq⟩ | ⟨m', t', n', heq, hne⟩ | ⟨x, y, heq⟩
  · cases heq
  · cases heq
    exact hne
  · cases heq

theorem eq_of_run (hk : .run (some t) x y ∈ pool.linksAt v) : v = t := by
  rcases h.linksAt_cases hk with ⟨x', y', heq⟩ | ⟨m', t', n', heq, hne⟩ | ⟨x', y', heq⟩
  · cases heq
  · cases heq
  · cases heq
    rfl

/-! ## Depth -/

open Classical in
/-- The shared instances inside another one. -/
noncomputable def below (pool : SharedInstances) (k : InstanceId) : Finset InstanceId :=
  (Finset.range pool.length).filter (TransGen pool.Holds k)

omit h in
theorem mem_below : t ∈ below pool k ↔ t < pool.length ∧ TransGen pool.Holds k t := by
  simp [below]

theorem notMem_below : k ∉ below pool k := by
  intro hk
  exact h.grounded.transGen.irrefl.irrefl k (Relation.transGen_swap.mpr (mem_below.mp hk).2)

theorem card_below_lt (hheld : pool.Holds k t) (ht : t < pool.length) :
    (below pool t).card < (below pool k).card := by
  refine Finset.card_lt_card (Finset.ssubset_iff_of_subset ?_ |>.mpr ⟨t, ?_, h.notMem_below⟩)
  · intro u hu
    rw [mem_below] at hu ⊢
    exact ⟨hu.1, .head hheld hu.2⟩
  · exact mem_below.mpr ⟨ht, .single hheld⟩

theorem card_below_lt_length (hk : k < pool.length) : (below pool k).card < pool.length := by
  have hsub : below pool k ⊆ Finset.range pool.length := fun u hu =>
    Finset.mem_range.mpr (mem_below.mp hu).1
  have hproper := Finset.ssubset_iff_of_subset hsub |>.mpr
    ⟨k, Finset.mem_range.mpr hk, h.notMem_below⟩
  simpa using Finset.card_lt_card hproper

omit h in
theorem spanWithin_of_none (hnone : pool[t]? = none) (depth : Nat) :
    pool.spanWithin depth t = [] := by
  cases depth with
  | zero => rfl
  | succ depth => simp only [spanWithin, hnone]

theorem spanWithin_congr {depth depth' : Nat} (hdepth : (below pool k).card < depth)
    (hdepth' : (below pool k).card < depth') :
    pool.spanWithin depth k = pool.spanWithin depth' k := by
  induction depth generalizing k depth' with
  | zero => exact absurd hdepth (Nat.not_lt_zero _)
  | succ depth ih =>
      obtain ⟨depth', rfl⟩ : ∃ deep, depth' = deep + 1 :=
        Nat.exists_eq_succ_of_ne_zero (Nat.ne_zero_of_lt hdepth')
      cases hi : pool[k]? with
      | none => rw [spanWithin_of_none hi, spanWithin_of_none hi]
      | some i =>
          simp only [spanWithin, hi]
          refine i.spanWith_congr fun m t n hk => ?_
          have hheld : pool.Holds k t :=
            ⟨m, n, by simpa only [linksAt_of_some hi] using List.mem_append_right _ hk⟩
          rcases Nat.lt_or_ge t pool.length with ht | ht
          · have hlt := h.card_below_lt hheld ht
            exact ih (Nat.lt_of_lt_of_le hlt (Nat.lt_succ_iff.mp hdepth))
              (Nat.lt_of_lt_of_le hlt (Nat.lt_succ_iff.mp hdepth'))
          · have hnone := List.getElem?_eq_none ht
            rw [spanWithin_of_none hnone, spanWithin_of_none hnone]

/-- The span of a shared instance is what its pieces say. -/
theorem span_eq {i : Instance} (hi : pool[k]? = some i) :
    pool.span k = i.spanWith pool.span := by
  obtain ⟨hk, -⟩ := List.getElem?_eq_some_iff.mp hi
  obtain ⟨depth, hdepth⟩ : ∃ depth, pool.length = depth + 1 :=
    Nat.exists_eq_succ_of_ne_zero (Nat.ne_zero_of_lt hk)
  have hspan : pool.span k = i.spanWith (pool.spanWithin depth) := by
    simp only [span, hdepth, spanWithin, hi]
  rw [hspan]
  refine i.spanWith_congr fun m t n hgap => ?_
  have hheld : pool.Holds k t :=
    ⟨m, n, by simpa only [linksAt_of_some hi] using List.mem_append_right _ hgap⟩
  rcases Nat.lt_or_ge t pool.length with ht | ht
  · have hlt := h.card_below_lt hheld ht
    have hlength := h.card_below_lt_length hk
    exact h.spanWithin_congr (Nat.lt_of_lt_of_le hlt (by omega)) (hlt.trans hlength)
  · have hnone := List.getElem?_eq_none ht
    rw [span, spanWithin_of_none hnone, spanWithin_of_none hnone]

/-! ## Ways through shared instances -/

theorem span_walk (hhead : (pool.tops k).head? = some x) :
    ∃ l e, pool.span k = x :: l ∧ Walk pool.span (· ∈ pool.linksAt k) x l e ∧
      (pool.tops k).getLast? = some e ∧ .run (some k) x e ∈ pool.linksAt k := by
  cases hi : pool[k]? with
  | none =>
      simp only [tops, hi, List.head?_nil] at hhead
      cases hhead
  | some i =>
      rw [tops_of_some hi] at hhead ⊢
      rw [h.span_eq hi, linksAt_of_some hi]
      obtain ⟨l, e, hspan, hwalk, hlast⟩ := Instance.walk i
        (h.framed i (List.mem_of_getElem? hi)) (fun link hk => hk) hhead
      refine ⟨l, e, hspan, hwalk.mono fun link hk => List.mem_append_right _ hk, hlast, ?_⟩
      simp [Link.ends, hhead, hlast]

theorem span_nil (hnone : pool.tops k = []) : pool.span k = [] := by
  cases hi : pool[k]? with
  | none => rw [span, spanWithin_of_none hi]
  | some i =>
      rw [tops_of_some hi] at hnone
      rw [h.span_eq hi]
      obtain ⟨_, _, nodes, _, _⟩ := i
      obtain rfl : nodes = [] := hnone
      rfl

theorem head?_span (t : InstanceId) : (pool.span t).head? = (pool.tops t).head? := by
  cases hhead : (pool.tops t).head? with
  | none => rw [h.span_nil (List.head?_eq_none_iff.mp hhead), List.head?_nil]
  | some x =>
      obtain ⟨l, e, hspan, -⟩ := h.span_walk hhead
      rw [hspan, List.head?_cons]

theorem getLast?_span (t : InstanceId) : (pool.span t).getLast? = (pool.tops t).getLast? := by
  cases hhead : (pool.tops t).head? with
  | none =>
      have hnone := List.head?_eq_none_iff.mp hhead
      rw [h.span_nil hnone, hnone]
  | some x =>
      obtain ⟨l, e, hspan, hwalk, hlast, -⟩ := h.span_walk hhead
      rw [hspan, hlast, hwalk.getLast?]

omit h in
theorem head?_of_mem_span (h : pool.Sound) (hz : z ∈ pool.span k) :
    ∃ x, (pool.tops k).head? = some x := by
  cases hhead : (pool.tops k).head? with
  | none =>
      rw [h.span_nil (List.head?_eq_none_iff.mp hhead)] at hz
      cases hz
  | some x => exact ⟨x, rfl⟩

theorem mem_span_target (hz : z ∈ pool.span k) :
    ∃ link, pool.LinkedIn k link ∧ link.target = z := by
  induction k using h.grounded.induction generalizing z with
  | _ k ih =>
      obtain ⟨x, hhead⟩ := head?_of_mem_span h hz
      obtain ⟨l, e, hspan, hwalk, -, hrun⟩ := h.span_walk hhead
      rw [hspan] at hz
      rcases List.mem_cons.mp hz with rfl | hz
      · exact ⟨_, .self hrun, rfl⟩
      rcases hwalk.target hz with ⟨u, hk⟩ | ⟨m, t, hk⟩ | ⟨m, t, n, hk, hz⟩
      · exact ⟨_, .self hk, rfl⟩
      · exact ⟨_, .self hk, rfl⟩
      · obtain ⟨link, hlink, htarget⟩ := ih t ⟨m, n, hk⟩ hz
        exact ⟨link, hlink.of_holds ⟨m, n, hk⟩, htarget⟩

theorem mem_span_source (hz : z ∈ pool.span k) :
    ∃ link, pool.LinkedIn k link ∧ link.source = z := by
  induction k using h.grounded.induction generalizing z with
  | _ k ih =>
      obtain ⟨x, hhead⟩ := head?_of_mem_span h hz
      obtain ⟨l, e, hspan, hwalk, -, hrun⟩ := h.span_walk hhead
      rw [hspan] at hz
      have hsplit := List.dropLast_append_getLast? e hwalk.getLast?
      rw [← hsplit] at hz
      rcases List.mem_append.mp hz with hz | hz
      swap
      · obtain rfl := List.mem_singleton.mp hz
        exact ⟨_, .self hrun, rfl⟩
      rcases hwalk.source hz with ⟨u, hk⟩ | ⟨t, n, hk⟩ | ⟨m, t, n, hk, hz⟩
      · exact ⟨_, .self hk, rfl⟩
      · exact ⟨_, .self hk, rfl⟩
      · obtain ⟨link, hlink, hsource⟩ := ih t ⟨m, n, hk⟩ hz
        exact ⟨link, hlink.of_holds ⟨m, n, hk⟩, hsource⟩

/-- Of a span, a way that takes what is there between the markers of each place
is left. -/
theorem route (joint : NodeId → NodeId → Prop) (whole : NodeId → InstanceId → Prop)
    (hnext : ∀ {x y}, pool.LinkedIn k (.next x y) → joint x y)
    (hgap : ∀ {m t n}, pool.LinkedIn k (.gap m t n) →
      (∀ w, w.IsChain joint → w.head? = (pool.tops t).head? →
        w.getLast? = (pool.tops t).getLast? → (m :: (w ++ [n])).IsChain joint) ∨
      (joint m n ∧ (whole m t → pool.tops t = []))) :
    ∃ w, w.IsChain joint ∧ w.head? = (pool.tops k).head? ∧
      w.getLast? = (pool.tops k).getLast? ∧ w.Sublist (pool.span k) ∧
      ((∀ {m t n}, pool.LinkedIn k (.gap m t n) → m ∈ pool.span k → whole m t) →
        w = pool.span k) := by
  induction k using h.grounded.induction with
  | _ k ih =>
      cases hhead : (pool.tops k).head? with
      | none =>
          have hnone := List.head?_eq_none_iff.mp hhead
          rw [h.span_nil hnone, hnone]
          exact ⟨[], List.isChain_nil, rfl, rfl, .slnil, fun _ => rfl⟩
      | some x =>
          obtain ⟨l, e, hspan, hwalk, hlast, -⟩ := h.span_walk hhead
          -- a place is whole if what sits there is whole too
          obtain ⟨w, hchain, hwlast, hsub, hwhole⟩ := hwalk.route
            (fun m t => whole m t ∧
              ∀ {m' t' n'}, pool.LinkedIn t (.gap m' t' n') → m' ∈ pool.span t → whole m' t')
            (fun hk => hnext (.self hk)) fun {m t n} hk => by
              obtain ⟨w, hchain, hwhead, hwlast, hsub, hwhole⟩ := ih t ⟨m, n, hk⟩
                (fun hk' => hnext (hk'.of_holds ⟨m, n, hk⟩))
                (fun hk' => hgap (hk'.of_holds ⟨m, n, hk⟩))
              rcases hgap (.self hk) with hthrough | ⟨hpast, hnone⟩
              · exact ⟨w, hthrough w hchain hwhead hwlast, hsub, fun hall => hwhole hall.2⟩
              · refine ⟨[], by simpa using hpast, List.nil_sublist _, fun hall => ?_⟩
                rw [h.span_nil (hnone hall.1)]
          rw [hspan]
          refine ⟨x :: w, hchain, rfl, hwlast.trans hlast.symm, hsub.cons_cons x,
            fun hall => ?_⟩
          rw [hwhole fun hk hm hsub' => ⟨hall (.self hk) hm, fun hk' hm' => ?_⟩]
          exact hall (hk'.of_holds ⟨_, _, hk⟩) (List.mem_cons_of_mem x (hsub' hm'))

end Sound

end SharedInstances

/-! ## Documents that stand as links say -/

variable {pool : SharedInstances} {d : Document} {seat : Seating} {links : List Link}

theorem isChain_between {joint : NodeId → NodeId → Prop} {w : List NodeId}
    (hw : w.IsChain joint) (hhead : ∀ x, w.head? = some x → joint m x)
    (hlast : ∀ x, w.getLast? = some x → joint x n) (hnone : w = [] → joint m n) :
    (m :: (w ++ [n])).IsChain joint := by
  rcases w with _ | ⟨x, w⟩
  · simpa using hnone rfl
  · refine List.isChain_cons_cons.mpr ⟨hhead x rfl, ?_⟩
    refine List.isChain_append.mpr ⟨hw, List.isChain_singleton n, fun a ha c hc => ?_⟩
    obtain rfl : n = c := by simpa using hc
    exact hlast a ha

namespace Standing

theorem through (hs : Standing pool.tops d seat links) (hgap : .gap m t n ∈ links)
    (hseat : seat t = some m) {w : List NodeId} (hw : w.IsChain (Joint seat links))
    (hhead : w.head? = (pool.tops t).head?) (hlast : w.getLast? = (pool.tops t).getLast?) :
    (m :: (w ++ [n])).IsChain (Joint seat links) := by
  refine isChain_between hw ?_ ?_ ?_
  · intro x hx
    obtain ⟨e, -, hrun⟩ := hs.run_of_head? (hhead.symm.trans hx)
    exact .into hgap hseat hrun
  · intro x hx
    obtain ⟨x', -, hrun⟩ := hs.run_of_getLast? (hlast.symm.trans hx)
    exact .out hgap hseat hrun
  · rintro rfl
    exact absurd (List.head?_eq_none_iff.mp hhead.symm) (hs.seated t (by simp [hseat]))

section Inside

variable (hs : Standing pool.tops d seat links) (hpool : pool.Sound)
  (hin : ∀ link, pool.LinkedIn k link → link ∈ links)
include hs hpool hin

/-- Of the span of a shared instance, neighbours one behind the other are left:
all of it, if all that is inside sits there. -/
theorem route :
    ∃ w, w.IsChain (Joint seat links) ∧ w.head? = (pool.tops k).head? ∧
      w.getLast? = (pool.tops k).getLast? ∧ w.Sublist (pool.span k) ∧
      ((∀ {m t n}, pool.LinkedIn k (.gap m t n) → m ∈ pool.span k →
        seat t = some m ∨ pool.tops t = []) → w = pool.span k) := by
  refine hpool.route (Joint seat links) (fun m t => seat t = some m ∨ pool.tops t = [])
    (fun hk => .next (hin _ hk)) fun {m t n} hk => ?_
  by_cases hseat : seat t = some m
  · exact .inl fun w hw hhead hlast => hs.through (hin _ hk) hseat hw hhead hlast
  · exact .inr ⟨.apart (hin _ hk) hseat, fun hwhole => hwhole.resolve_left hseat⟩

omit hs in
theorem follows : (pool.span k).IsChain (Succeeds pool.tops (· ∈ links)) := by
  obtain ⟨w, hchain, -, -, -, hwhole⟩ := hpool.route (Succeeds pool.tops (· ∈ links))
    (fun _ _ => True) (fun hk => .next (hin _ hk)) fun {m t n} hk => by
      refine .inl fun w hw hhead hlast => isChain_between hw ?_ ?_ ?_
      · exact fun x hx => .into (hin _ hk) (hhead.symm.trans hx)
      · exact fun x hx => .out (hin _ hk) (hlast.symm.trans hx)
      · rintro rfl
        exact .past (hin _ hk) (List.head?_eq_none_iff.mp hhead.symm)
  rwa [← hwhole fun _ _ => trivial]

theorem head_once {h : NodeId} (hhead : (pool.span k).head? = some h) :
    h ∉ (pool.span k).tail := by
  rw [hpool.head?_span] at hhead
  obtain ⟨l, e, hspan, hwalk, -, hrun⟩ := hpool.span_walk hhead
  rw [hspan, List.tail_cons]
  intro hmem
  rcases hwalk.target hmem with ⟨u, hk⟩ | ⟨m, t, hk⟩ | ⟨m, t, n, hk, hmem⟩
  · cases hs.eq_of_target (hin _ (.self hk)) (hin _ (.self hrun)) rfl
  · cases hs.eq_of_target (hin _ (.self hk)) (hin _ (.self hrun)) rfl
  · -- only inside itself an instance would meet its own first node
    have hheld : pool.Holds k t := ⟨m, n, hk⟩
    obtain ⟨link, hlink, htarget⟩ := hpool.mem_span_target hmem
    obtain rfl := hs.eq_of_target (hin _ (hlink.of_holds hheld)) (hin _ (.self hrun)) htarget
    obtain ⟨v, hinside, hv⟩ := hlink
    obtain rfl := hpool.eq_of_run hv
    exact hpool.not_inside hheld hinside

theorem inside_of_meets (hgap : .gap m t n ∈ links) (hz : z ∈ pool.span k)
    (hmeets : z = m ∨ z = n ∨ (pool.tops t).head? = some z ∨ (pool.tops t).getLast? = some z) :
    pool.Inside k t := by
  have hplace : ∀ {link}, pool.LinkedIn k link → link = .gap m t n → pool.Inside k t := by
    rintro _ ⟨v, hinside, hv⟩ rfl
    exact hinside.tail ⟨m, n, hv⟩
  have hrun : ∀ {link h e}, pool.LinkedIn k link → link = .run (some t) h e →
      pool.Inside k t := by
    rintro _ h e ⟨v, hinside, hv⟩ rfl
    rwa [← hpool.eq_of_run hv]
  obtain ⟨into, hinto, htarget⟩ := hpool.mem_span_target hz
  obtain ⟨out, hout, hsource⟩ := hpool.mem_span_source hz
  rcases hmeets with rfl | rfl | hhead | hlast
  · exact hplace hout (hs.eq_of_source (hin _ hout) hgap hsource)
  · exact hplace hinto (hs.eq_of_target (hin _ hinto) hgap htarget)
  · obtain ⟨e, -, hk⟩ := hs.run_of_head? hhead
    exact hrun hinto (hs.eq_of_target (hin _ hinto) hk htarget)
  · obtain ⟨h, -, hk⟩ := hs.run_of_getLast? hlast
    exact hrun hout (hs.eq_of_source (hin _ hout) hk hsource)

theorem markers_notMem (hgap : .gap m k n ∈ links) :
    m ∉ pool.span k ∧ n ∉ pool.span k := by
  have hcycle : ¬ pool.LinkedIn k (.gap m k n) := by
    rintro ⟨v, hinside, hv⟩
    exact hpool.not_inside ⟨m, n, hv⟩ hinside
  constructor
  · intro hmem
    obtain ⟨link, hlink, hsource⟩ := hpool.mem_span_source hmem
    obtain rfl := hs.eq_of_source (hin _ hlink) hgap hsource
    exact hcycle hlink
  · intro hmem
    obtain ⟨link, hlink, htarget⟩ := hpool.mem_span_target hmem
    obtain rfl := hs.eq_of_target (hin _ hlink) hgap htarget
    exact hcycle hlink

/-- A span goes through a place for a shared instance as a whole, and through
that instance as a whole. -/
theorem phrase (hgap : .gap m t n ∈ links) :
    Phrase m (pool.span t) n (pool.span k) := by
  induction k using hpool.grounded.induction with
  | _ k ih =>
      by_cases hkt : k = t
      · subst hkt
        have hself : Phrase m (pool.span k) n (pool.span k ++ []) := .block .nil
        rwa [List.append_nil] at hself
      cases hhead : (pool.tops k).head? with
      | none =>
          rw [hpool.span_nil (List.head?_eq_none_iff.mp hhead)]
          exact .nil
      | some x =>
          obtain ⟨l, e, hspan, hwalk, -, hrun⟩ := hpool.span_walk hhead
          rw [hspan]
          let source : NodeId → Prop := fun z => z ≠ m ∧ (pool.span t).getLast? ≠ some z
          let target : NodeId → Prop := fun z => z ≠ n ∧ (pool.span t).head? ≠ some z
          have hother : ∀ {link}, link ∈ links → link ≠ .gap m t n →
              (∀ h e, link ≠ .run (some t) h e) → source link.source ∧ target link.target := by
            intro link hlink hne hnorun
            refine ⟨⟨?_, ?_⟩, ⟨?_, ?_⟩⟩
            · exact fun heq => hne (hs.eq_of_source hlink hgap heq)
            · rw [hpool.getLast?_span]
              intro hlast
              obtain ⟨h, -, hk⟩ := hs.run_of_getLast? hlast
              exact hnorun _ _ (hs.eq_of_source hlink hk rfl)
            · exact fun heq => hne (hs.eq_of_target hlink hgap heq)
            · rw [hpool.head?_span]
              intro hfirst
              obtain ⟨e, -, hk⟩ := hs.run_of_head? hfirst
              exact hnorun _ _ (hs.eq_of_target hlink hk rfl)
          have hends := hother (hin _ (.self hrun)) nofun (by simpa using fun heq => absurd heq hkt)
          refine (hwalk.phrase source target (fun _ => id) (fun _ => id) ?_ ?_ hends.1).2.2 hends.2
          · intro x y hk
            exact hother (hin _ (.self hk)) nofun nofun
          · intro m' t' n' hk
            by_cases heq : Link.gap m' t' n' = .gap m t n
            · obtain ⟨rfl, rfl, rfl⟩ := Link.gap.inj heq
              exact .inl ⟨rfl, rfl, rfl, hpool.gap_ne hk⟩
            · obtain ⟨hsource, htarget⟩ := hother (hin _ (.self hk)) heq nofun
              exact .inr ⟨hsource, htarget, ih t' ⟨m', n', hk⟩ fun link hlink =>
                hin _ (hlink.of_holds ⟨m', n', hk⟩)⟩

/-- Whatever the document looks like, what is needed to gather a shared instance
is known. -/
theorem gatherable : Gatherable pool.tops pool.span d seat links k where
  exist z hz := by
    obtain ⟨link, hlink, htarget⟩ := hpool.mem_span_target hz
    exact htarget ▸ (hs.exist link (hin link hlink)).2
  chain := follows hpool hin
  once h hhead := hs.head_once hpool hin hhead
  head := hpool.head?_span
  last := hpool.getLast?_span
  enclosed := by
    rintro m t n hgap ⟨z, hz, hmeets⟩
    have hinside := hs.inside_of_meets hpool hin hgap hz hmeets
    have hin' : ∀ link, pool.LinkedIn t link → link ∈ links := fun link hlink =>
      hin link (hlink.of_inside hinside)
    obtain ⟨hm, hn⟩ := hs.markers_notMem hpool hin' hgap
    obtain ⟨w, hchain, hwhead, hwlast, hsub, -⟩ := hs.route hpool hin'
    refine ⟨hs.phrase hpool hin hgap, hm, hn, fun hm => ?_,
      fun h hhead => hs.head_once hpool hin' hhead, w, hchain, hwhead, hwlast, hsub.subset⟩
    obtain ⟨link, hlink, hsource⟩ := hpool.mem_span_source hm
    obtain rfl := hs.eq_of_source (hin _ hlink) hgap hsource
    obtain ⟨v, -, hv⟩ := hlink
    exact hpool.gap_ne hv

end Inside

end Standing

end LiveMarkup
