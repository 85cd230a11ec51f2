import LiveMarkup.Proofs.Instance.Gathering

/-!
# Spans

The span of an instance, piece by piece: its top-level nodes, and between the
markers of a region among them what the region remembers. Along its span run
the links of an instance and of what it holds; where a shared instance sits
elsewhere, they run past it. No instance holds itself, so that this can be said
of the shared instances one after the other.
-/

namespace LiveMarkup

variable {x y z m n h e : NodeId} {t u k : InstanceId}

/-! ## Frames -/

mutual

/-- No top-level node and no marker is there twice, and the markers of a
region at the top level are neighbours there, for instances inside regions
too. -/
def Instance.Framed : Instance → Prop
  | ⟨_, _, nodes, _, regions⟩ =>
      nodes.Nodup ∧ (regions.map Region.first).Nodup ∧
        (∀ r ∈ regions, r.first ∈ nodes → Beside nodes r.first r.last) ∧
        (∀ r ∈ regions, ∀ q ∈ regions, q.first ≠ r.last) ∧ Region.FramedAll regions

def Region.FramedAll : List Region → Prop
  | [] => True
  | ⟨_, _, _, _, content⟩ :: rest => content.Framed ∧ Region.FramedAll rest

def Content.Framed : Content → Prop
  | .own inner => inner.Framed
  | _ => True

end

theorem Region.framedAll_iff {regions : List Region} :
    Region.FramedAll regions ↔ ∀ r ∈ regions, r.content.Framed := by
  induction regions with
  | nil => simp [Region.FramedAll]
  | cons r rest ih =>
      obtain ⟨_, _, _, _, _⟩ := r
      rw [Region.FramedAll, ih, List.forall_mem_cons]

theorem Instance.framed_iff {i : Instance} : i.Framed ↔
    i.nodes.Nodup ∧ (i.regions.map Region.first).Nodup ∧
      (∀ r ∈ i.regions, r.first ∈ i.nodes → Beside i.nodes r.first r.last) ∧
      (∀ r ∈ i.regions, ∀ q ∈ i.regions, q.first ≠ r.last) ∧ Region.FramedAll i.regions := by
  obtain ⟨_, _, _, _, _⟩ := i
  exact Iff.rfl

theorem mem_zip_tail {l : List NodeId} : (x, y) ∈ l.zip l.tail ↔ Beside l x y := by
  induction l with
  | nil => simp [Beside]
  | cons a l ih =>
      cases l with
      | nil =>
          constructor
          · intro hmem
            simp at hmem
          · intro hbeside
            exact absurd hbeside.length_le (by simp)
      | cons c l =>
          have hsplit : a :: c :: l = [a] ++ (c :: l) := rfl
          rw [List.tail_cons, List.zip_cons_cons, List.mem_cons, Prod.mk.injEq]
          rw [List.tail_cons] at ih
          rw [ih, hsplit, beside_append]
          constructor
          · rintro (⟨rfl, rfl⟩ | hbeside)
            · exact .inr (.inr ⟨rfl, rfl⟩)
            · exact .inr (.inl hbeside)
          · rintro (hbeside | hbeside | ⟨hlast, hhead⟩)
            · exact absurd hbeside.length_le (by simp)
            · exact .inr hbeside
            · exact .inl ⟨(Option.some.inj hlast).symm, (Option.some.inj hhead).symm⟩

theorem Link.mem_frame {firsts nodes : List NodeId} :
    .next x y ∈ Link.frame firsts nodes ↔ Beside nodes x y ∧ x ∉ firsts := by
  rw [← mem_zip_tail]
  simp [Link.frame]

/-! ## Pieces -/

/-- Top-level nodes with the span that they make up: each by itself, or the
markers of a region with what is remembered between them. -/
inductive Pieces (held : Region → List NodeId) (regions : List Region) :
    List NodeId → List NodeId → Prop
  | nil : Pieces held regions [] []
  | single {z : NodeId} {rest l : List NodeId} (hz : ∀ r ∈ regions, r.first ≠ z)
      (h : Pieces held regions rest l) : Pieces held regions (z :: rest) (z :: l)
  | region {r : Region} {rest l : List NodeId} (hr : r ∈ regions)
      (h : Pieces held regions rest l) :
      Pieces held regions (r.first :: r.last :: rest) (r.first :: (held r ++ r.last :: l))

theorem Region.lookup_spansWith {shared : InstanceId → List NodeId} {regions : List Region}
    (hdistinct : (regions.map Region.first).Nodup) {r : Region} (hr : r ∈ regions) :
    (Region.spansWith shared regions).lookup r.first = some (r.content.spanWith shared) := by
  induction regions with
  | nil => cases hr
  | cons q regions ih =>
      obtain ⟨hq, hrest⟩ := List.nodup_cons.mp hdistinct
      obtain ⟨path, placeholder, first, last, content⟩ := q
      rw [Region.spansWith, List.lookup_cons]
      rcases List.mem_cons.mp hr with rfl | hr
      · simp
      · have hne : r.first ≠ first := fun heq => hq (List.mem_map.mpr ⟨r, hr, heq⟩)
        rw [beq_eq_false_iff_ne.mpr hne]
        exact ih hrest hr

theorem Region.lookup_spansWith_none {shared : InstanceId → List NodeId} {regions : List Region}
    (hz : ∀ r ∈ regions, r.first ≠ z) : (Region.spansWith shared regions).lookup z = none := by
  induction regions with
  | nil => rfl
  | cons q regions ih =>
      have hq := hz q List.mem_cons_self
      obtain ⟨path, placeholder, first, last, content⟩ := q
      rw [Region.spansWith, List.lookup_cons, beq_eq_false_iff_ne.mpr (Ne.symm hq)]
      exact ih fun r hr => hz r (List.mem_cons_of_mem _ hr)

theorem Instance.pieces (shared : InstanceId → List NodeId) {i : Instance} (hi : i.Framed) :
    Pieces (fun r => r.content.spanWith shared) i.regions i.nodes (i.spanWith shared) := by
  obtain ⟨source, fragment, nodes, elements, regions⟩ := i
  obtain ⟨hnodes, hdistinct, hbeside, hapart, -⟩ := hi
  rw [Instance.spanWith, assembleSpan]
  have hfrom : ∀ len (before rest : List NodeId), rest.length = len → nodes = before ++ rest →
      Pieces (fun r => r.content.spanWith shared) regions rest
        (rest.flatMap fun z => z :: ((Region.spansWith shared regions).lookup z).getD []) := by
    intro len
    induction len using Nat.strong_induction_on with
    | _ len ih =>
        intro before rest hlen hsplit
        rcases rest with _ | ⟨z, rest⟩
        · exact .nil
        · by_cases hz : ∃ r ∈ regions, r.first = z
          · obtain ⟨r, hr, rfl⟩ := hz
            have hlast := hbeside r hr (by simp [hsplit])
            rw [hsplit] at hlast hnodes
            obtain ⟨rest, rfl⟩ : ∃ behind, rest = r.last :: behind := by
              have hmiddle : before ++ r.first :: rest = (before ++ [r.first]) ++ rest := by simp
              rw [hmiddle] at hlast hnodes
              obtain ⟨-, -, happart⟩ := List.nodup_append.mp hnodes
              rcases beside_append.mp hlast with hb | hb | ⟨-, hb⟩
              · refine absurd ?_ (hb.getLast?_ne (List.nodup_append.mp hnodes).1)
                simp
              · exact absurd rfl (happart r.first (by simp) r.first hb.left_mem)
              · exact List.head?_eq_some_iff.mp hb
            have hnone : (Region.spansWith shared regions).lookup r.last = none :=
              Region.lookup_spansWith_none fun q hq => hapart r hr q hq
            rw [List.flatMap_cons, List.flatMap_cons, Region.lookup_spansWith hdistinct hr, hnone]
            refine .region hr (ih rest.length ?_ (before ++ [r.first, r.last]) rest rfl ?_)
            · rw [← hlen]
              exact Nat.lt_add_of_pos_right Nat.two_pos
            · simp [hsplit]
          · have hz : ∀ r ∈ regions, r.first ≠ z := fun r hr heq => hz ⟨r, hr, heq⟩
            rw [List.flatMap_cons, Region.lookup_spansWith_none hz]
            refine .single hz (ih rest.length ?_ (before ++ [z]) rest rfl ?_)
            · rw [← hlen]
              exact Nat.lt_succ_self _
            · simp [hsplit]
  exact hfrom nodes.length [] nodes rfl rfl

mutual

/-- Links inside an instance are between two nodes or between the two markers
of a place. -/
theorem Instance.links_cases : (i : Instance) → i.Framed → ∀ {k : Link}, k ∈ i.links →
    (∃ x y, k = .next x y) ∨ ∃ m t n, k = .gap m t n ∧ m ≠ n
  | ⟨_, _, _, _, regions⟩, hframed, _, hk => by
      rw [Instance.links] at hk
      rcases List.mem_append.mp hk with hk | hk
      · obtain ⟨pair, -, rfl⟩ := List.mem_map.mp hk
        exact .inl ⟨pair.1, pair.2, rfl⟩
      · exact Region.linksAll_cases regions hframed.2.2.2.2
          (fun r hr => hframed.2.2.2.1 r hr r hr) hk

theorem Region.linksAll_cases : (regions : List Region) → Region.FramedAll regions →
    (∀ r ∈ regions, r.first ≠ r.last) → ∀ {k : Link}, k ∈ Region.linksAll regions →
    (∃ x y, k = .next x y) ∨ ∃ m t n, k = .gap m t n ∧ m ≠ n
  | [], _, _, _, hk => nomatch hk
  | ⟨_, _, first, last, content⟩ :: rest, hframed, hapart, _, hk => by
      rw [Region.linksAll] at hk
      rcases List.mem_append.mp hk with hk | hk
      · exact Content.links_cases content hframed.1 (hapart _ List.mem_cons_self) hk
      · exact Region.linksAll_cases rest hframed.2
          (fun r hr => hapart r (List.mem_cons_of_mem _ hr)) hk

theorem Content.links_cases : (content : Content) → content.Framed → {first last : NodeId} →
    first ≠ last → ∀ {k : Link}, k ∈ content.links first last →
    (∃ x y, k = .next x y) ∨ ∃ m t n, k = .gap m t n ∧ m ≠ n
  | .empty, _, _, _, _, _, hk => .inl (Link.next_of_mem_around (w := []) hk)
  | .text n _, _, _, _, _, _, hk => .inl (Link.next_of_mem_around (w := [n]) hk)
  | .own inner, hframed, _, _, _, _, hk => by
      rw [Content.links] at hk
      rcases List.mem_append.mp hk with hk | hk
      · exact .inl (Link.next_of_mem_around hk)
      · exact Instance.links_cases inner hframed hk
  | .shared t, _, first, last, hne, _, hk => .inr ⟨first, t, last, List.mem_singleton.mp hk, hne⟩
  | .nodes held, _, _, _, _, _, hk => by
      rw [Content.links] at hk
      rcases List.mem_append.mp hk with hk | hk
      · exact .inl (Link.next_of_mem_around hk)
      · obtain ⟨pair, -, rfl⟩ := List.mem_map.mp hk
        exact .inl ⟨pair.1, pair.2, rfl⟩

end

/-! ## Walks -/

variable {shared : InstanceId → List NodeId} {among among' : Link → Prop} {l l' : List NodeId}

/-- A way along links, through the spans of the shared instances that stand
between markers. The node that it begins with is not on it. -/
inductive Walk (shared : InstanceId → List NodeId) (among : Link → Prop) :
    NodeId → List NodeId → NodeId → Prop
  | refl (x : NodeId) : Walk shared among x [] x
  | next {x y z : NodeId} {l : List NodeId} (h : among (.next x y))
      (hl : Walk shared among y l z) : Walk shared among x (y :: l) z
  | gap {m n z : NodeId} {t : InstanceId} {l : List NodeId} (h : among (.gap m t n))
      (hl : Walk shared among n l z) : Walk shared among m (shared t ++ n :: l) z

theorem Walk.trans (h : Walk shared among x l y) (h' : Walk shared among y l' z) :
    Walk shared among x (l ++ l') z := by
  induction h with
  | refl x => exact h'
  | next h _ ih => exact .next h (ih h')
  | gap h _ ih =>
      rw [List.append_assoc, List.cons_append]
      exact .gap h (ih h')

theorem Walk.getLast? (h : Walk shared among x l y) : (x :: l).getLast? = some y := by
  induction h with
  | refl x => rfl
  | next _ _ ih => rwa [List.getLast?_cons_cons]
  | @gap m n z t l _ _ ih =>
      rw [← List.cons_append, List.getLast?_append, ih]
      rfl

theorem Walk.mono (h : Walk shared among x l y) (hsub : ∀ k, among k → among' k) :
    Walk shared among' x l y := by
  induction h with
  | refl x => exact .refl x
  | next h _ ih => exact .next (hsub _ h) ih
  | gap h _ ih => exact .gap (hsub _ h) ih

theorem Walk.target (h : Walk shared among x l y) (hz : z ∈ l) :
    (∃ u, among (.next u z)) ∨ (∃ m t, among (.gap m t z)) ∨
      ∃ m t n, among (.gap m t n) ∧ z ∈ shared t := by
  induction h with
  | refl x => cases hz
  | @next x y e l hxy _ ih =>
      rcases List.mem_cons.mp hz with rfl | hz
      · exact .inl ⟨x, hxy⟩
      · exact ih hz
  | @gap m n e t l hgap _ ih =>
      rcases List.mem_append.mp hz with hz | hz
      · exact .inr (.inr ⟨m, t, n, hgap, hz⟩)
      rcases List.mem_cons.mp hz with rfl | hz
      · exact .inr (.inl ⟨m, t, hgap⟩)
      · exact ih hz

theorem Walk.source (h : Walk shared among x l y) (hz : z ∈ (x :: l).dropLast) :
    (∃ u, among (.next z u)) ∨ (∃ t n, among (.gap z t n)) ∨
      ∃ m t n, among (.gap m t n) ∧ z ∈ shared t := by
  induction h with
  | refl x => cases hz
  | @next x y e l hxy _ ih =>
      rw [List.dropLast_cons_of_ne_nil (List.cons_ne_nil y l)] at hz
      rcases List.mem_cons.mp hz with rfl | hz
      · exact .inl ⟨y, hxy⟩
      · exact ih hz
  | @gap m n e t l hgap _ ih =>
      rw [← List.cons_append, List.dropLast_append_of_ne_nil (List.cons_ne_nil n l)] at hz
      rcases List.mem_append.mp hz with hz | hz
      · rcases List.mem_cons.mp hz with rfl | hz
        · exact .inr (.inl ⟨t, n, hgap⟩)
        · exact .inr (.inr ⟨m, t, n, hgap, hz⟩)
      · exact ih hz

/-- Of a way, one that takes what is there between the markers of each place is
left. -/
theorem Walk.route {joint : NodeId → NodeId → Prop} (whole : NodeId → InstanceId → Prop)
    (hnext : ∀ {x y}, among (.next x y) → joint x y)
    (hgap : ∀ {m t n}, among (.gap m t n) → ∃ w, (m :: (w ++ [n])).IsChain joint ∧
      w.Sublist (shared t) ∧ (whole m t → w = shared t))
    (h : Walk shared among x l y) :
    ∃ w, (x :: w).IsChain joint ∧ (x :: w).getLast? = some y ∧ w.Sublist l ∧
      ((∀ {m t n}, among (.gap m t n) → m ∈ x :: l → shared t ⊆ l → whole m t) → w = l) := by
  induction h with
  | refl x => exact ⟨[], List.isChain_singleton x, rfl, .slnil, fun _ => rfl⟩
  | @next x y e l hxy _ ih =>
      obtain ⟨w, hchain, hlast, hsub, hwhole⟩ := ih
      refine ⟨y :: w, List.isChain_cons_cons.mpr ⟨hnext hxy, hchain⟩, ?_,
        hsub.cons_cons y, fun hall => ?_⟩
      · rwa [List.getLast?_cons_cons]
      · rw [hwhole fun h hm hsub => hall h (List.mem_cons_of_mem x hm)
          (List.subset_cons_of_subset y hsub)]
  | @gap m n e t l hplace _ ih =>
      obtain ⟨w, hchain, hlast, hsub, hwhole⟩ := ih
      obtain ⟨held, hheld, hsub', hwhole'⟩ := hgap hplace
      refine ⟨held ++ n :: w, ?_, ?_, hsub'.append (hsub.cons_cons n), fun hall => ?_⟩
      · have hsplit : m :: (held ++ n :: w) = (m :: (held ++ [n])) ++ w := by simp
        rw [hsplit]
        refine List.isChain_append.mpr ⟨hheld, (List.isChain_cons.mp hchain).2, ?_⟩
        intro a ha c hc
        obtain rfl : n = a := by simpa [List.getLast?_cons] using ha
        exact (List.isChain_cons.mp hchain).1 c hc
      · rw [← List.cons_append, List.getLast?_append, hlast]
        rfl
      · rw [hwhole' (hall hplace List.mem_cons_self (List.subset_append_left _ _)),
          hwhole fun h hm hsub => hall h (List.mem_cons_of_mem m (List.mem_append_right _ hm))
            (List.subset_append_of_subset_right _ (List.subset_cons_of_subset n hsub))]

/-- A way that goes through a place for a block as a whole, or through the
block at other places. -/
theorem Walk.phrase {b : List NodeId} (source target : NodeId → Prop)
    (hsource : ∀ z, source z → z ≠ m ∧ b.getLast? ≠ some z)
    (htarget : ∀ z, target z → z ≠ n ∧ b.head? ≠ some z)
    (hnext : ∀ {x y}, among (.next x y) → source x ∧ target y)
    (hgap : ∀ {m' t n'}, among (.gap m' t n') → (m' = m ∧ shared t = b ∧ n' = n ∧ m ≠ n) ∨
      (source m' ∧ target n' ∧ Phrase m b n (shared t)))
    (h : Walk shared among x l y) (hy : source y) :
    (source x ∨ x = m) ∧ (source x → Phrase m b n l) ∧ (target x → Phrase m b n (x :: l)) := by
  have hsingle : ∀ {z l}, source z → target z → Phrase m b n l → Phrase m b n (z :: l) :=
    fun hs ht hl => .single (hsource _ hs).1 (htarget _ ht).1 (htarget _ ht).2 (hsource _ hs).2 hl
  induction h with
  | refl x => exact ⟨.inl hy, fun _ => .nil, fun ht => hsingle hy ht .nil⟩
  | @next x y e l hxy _ ih =>
      obtain ⟨hs, ht⟩ := hnext hxy
      have hrest := (ih hy).2.2 ht
      exact ⟨.inl hs, fun _ => hrest, fun ht => hsingle hs ht hrest⟩
  | @gap m' n' e t l hplace _ ih =>
      obtain ⟨hends, hbehind, hrest⟩ := ih hy
      rcases hgap hplace with ⟨rfl, rfl, rfl, hmn⟩ | ⟨hs, ht, hblock⟩
      · -- behind the place its last marker is no first one
        have hs := hends.resolve_right hmn.symm
        exact ⟨.inr rfl, fun hs' => absurd rfl (hsource _ hs').1, fun _ => .enclosed (hbehind hs)⟩
      · have hwhole := hblock.append (hrest ht)
        exact ⟨.inl hs, fun _ => hwhole, fun ht' => hsingle hs ht' hwhole⟩

theorem walk_nodes {nodes : List NodeId} (hnodes : ∀ x y, Beside nodes x y → among (.next x y))
    (hhead : nodes.head? = some h) :
    ∃ l e, nodes = h :: l ∧ Walk shared among h l e ∧ nodes.getLast? = some e := by
  induction nodes generalizing h with
  | nil => cases hhead
  | cons z rest ih =>
      obtain rfl := Option.some.inj hhead
      have hrest : ∀ x y, Beside rest x y → among (.next x y) := fun x y hb =>
        hnodes x y (hb.trans (List.suffix_cons z rest).isInfix)
      cases hnext : rest.head? with
      | none =>
          obtain rfl := List.head?_eq_none_iff.mp hnext
          exact ⟨[], z, rfl, .refl z, rfl⟩
      | some y =>
          obtain ⟨l, e, rfl, hwalk, hlast⟩ := ih hrest hnext
          refine ⟨y :: l, e, rfl, .next (hnodes z y (beside_middle [] l z y)) hwalk, ?_⟩
          rwa [List.getLast?_cons_cons]

theorem Pieces.walk {held : Region → List NodeId} {regions : List Region}
    {nodes : List NodeId} (hp : Pieces held regions nodes l)
    (hframe : ∀ x y, Beside nodes x y → (∀ r ∈ regions, r.first ≠ x) → among (.next x y))
    (hregions : ∀ r ∈ regions, Walk shared among r.first (held r ++ [r.last]) r.last)
    (hapart : ∀ r ∈ regions, ∀ q ∈ regions, q.first ≠ r.last) (hhead : nodes.head? = some h) :
    ∃ l' e, l = h :: l' ∧ Walk shared among h l' e ∧ nodes.getLast? = some e := by
  induction hp generalizing h with
  | nil => cases hhead
  | @single z rest l hz _ ih =>
      obtain rfl := Option.some.inj hhead
      cases hnext : rest.head? with
      | none =>
          obtain rfl := List.head?_eq_none_iff.mp hnext
          cases ‹Pieces held regions [] l›
          exact ⟨[], z, rfl, .refl z, rfl⟩
      | some y =>
          have hrest : ∀ x y, Beside rest x y → (∀ r ∈ regions, r.first ≠ x) →
              among (.next x y) := fun x y hb =>
            hframe x y (hb.trans (List.suffix_cons z rest).isInfix)
          obtain ⟨l', e, rfl, hwalk, hlast⟩ := ih hrest hnext
          obtain ⟨rest, rfl⟩ := List.head?_eq_some_iff.mp hnext
          have hstep := hframe z y (beside_middle [] rest z y) hz
          exact ⟨y :: l', e, rfl, .next hstep hwalk, by rwa [List.getLast?_cons_cons]⟩
  | @region r rest l hr _ ih =>
      obtain rfl := Option.some.inj hhead
      have hthrough := hregions r hr
      cases hnext : rest.head? with
      | none =>
          obtain rfl := List.head?_eq_none_iff.mp hnext
          cases ‹Pieces held regions [] l›
          exact ⟨held r ++ [r.last], r.last, rfl, hthrough, rfl⟩
      | some y =>
          have hrest : ∀ x y, Beside rest x y → (∀ r ∈ regions, r.first ≠ x) →
              among (.next x y) := fun x y hb =>
            hframe x y (hb.trans (List.suffix_append [r.first, r.last] rest).isInfix)
          obtain ⟨l', e, rfl, hwalk, hlast⟩ := ih hrest hnext
          obtain ⟨rest, rfl⟩ := List.head?_eq_some_iff.mp hnext
          have hstep := hframe r.last y (beside_middle [r.first] rest r.last y) (hapart r hr)
          refine ⟨held r ++ r.last :: y :: l', e, rfl, ?_, ?_⟩
          · have hwhole := hthrough.trans (.next hstep hwalk)
            rwa [List.append_assoc] at hwhole
          · rwa [List.getLast?_cons_cons, List.getLast?_cons_cons]

theorem walk_around {w span : List NodeId} (haround : ∀ k ∈ Link.around m w n, among k)
    (hnone : w = [] → span = [])
    (hsome : ∀ h, w.head? = some h →
      ∃ l e, span = h :: l ∧ Walk shared among h l e ∧ w.getLast? = some e) :
    Walk shared among m (span ++ [n]) n := by
  cases hhead : w.head? with
  | none =>
      obtain rfl := List.head?_eq_none_iff.mp hhead
      rw [hnone rfl]
      exact .next (haround _ List.mem_cons_self) (.refl n)
  | some h =>
      obtain ⟨l, e, rfl, hwalk, hlast⟩ := hsome h hhead
      simp only [Link.around, hhead, hlast, List.forall_mem_cons] at haround
      exact .next haround.1 (hwalk.trans (.next haround.2.1 (.refl n)))

mutual

theorem Instance.walk : (i : Instance) → i.Framed → (∀ k ∈ i.links, among k) →
    ∀ {h : NodeId}, i.nodes.head? = some h →
      ∃ l e, i.spanWith shared = h :: l ∧ Walk shared among h l e ∧ i.nodes.getLast? = some e
  | ⟨source, fragment, nodes, elements, regions⟩, hframed, hamong, h, hhead => by
      rw [Instance.links] at hamong
      have hregions := Region.walkAll regions hframed.2.2.2.2 fun k hk =>
        hamong k (List.mem_append_right _ hk)
      refine (Instance.pieces shared hframed).walk ?_ hregions hframed.2.2.2.1 hhead
      intro x y hb hx
      refine hamong _ (List.mem_append_left _ (Link.mem_frame.mpr ⟨hb, fun hmem => ?_⟩))
      obtain ⟨r, hr, rfl⟩ := List.mem_map.mp hmem
      exact hx r hr rfl

theorem Region.walkAll : (regions : List Region) → Region.FramedAll regions →
    (∀ k ∈ Region.linksAll regions, among k) →
    ∀ r ∈ regions, Walk shared among r.first (r.content.spanWith shared ++ [r.last]) r.last
  | [], _, _, _, hr => nomatch hr
  | ⟨path, placeholder, first, last, content⟩ :: rest, hframed, hamong, r, hr => by
      rw [Region.linksAll] at hamong
      rcases List.mem_cons.mp hr with rfl | hr
      · exact Content.walk content hframed.1 fun k hk => hamong k (List.mem_append_left _ hk)
      · exact Region.walkAll rest hframed.2 (fun k hk => hamong k (List.mem_append_right _ hk)) r hr

theorem Content.walk : (content : Content) → content.Framed → {first last : NodeId} →
    (∀ k ∈ content.links first last, among k) →
    Walk shared among first (content.spanWith shared ++ [last]) last
  | .empty, _, _, _, hamong => walk_around (w := []) hamong (fun _ => rfl) nofun
  | .text n _, _, _, _, hamong => by
      refine walk_around (w := [n]) hamong (fun h => nomatch h) ?_
      rintro h ⟨⟩
      exact ⟨[], n, rfl, .refl n, rfl⟩
  | .own inner, hframed, _, _, hamong => by
      rw [Content.links] at hamong
      refine walk_around (w := inner.nodes) (fun k hk => hamong k (List.mem_append_left _ hk)) ?_
        fun h hhead => Instance.walk inner hframed
          (fun k hk => hamong k (List.mem_append_right _ hk)) hhead
      intro hnone
      obtain ⟨_, _, nodes, _, _⟩ := inner
      obtain rfl : nodes = [] := hnone
      rfl
  | .shared t, _, first, last, hamong => .gap (hamong _ List.mem_cons_self) (.refl last)
  | .nodes held, _, _, _, hamong => by
      rw [Content.links] at hamong
      refine walk_around (w := held) (fun k hk => hamong k (List.mem_append_left _ hk)) id
        fun h hhead => walk_nodes (fun x y hb => ?_) hhead
      exact hamong _ (List.mem_append_right _ (Link.mem_frame.mpr ⟨hb, by simp⟩))

end

end LiveMarkup
