import LiveMarkup.Proofs.Instance.Links

/-!
# Gathering

Gathering appends nodes one after the other, so that each ends up where it
occurs last. A node that is always followed by another one, and that one always
preceded by it, are side by side in the end. A shared instance that is
remembered at several places ends up whole at the last of them, and the markers
of the others close up. So a document still stands as its instances say.
-/

namespace LiveMarkup

open Document (Insertable)

variable {l b : List NodeId} {x y m n h e : NodeId}

/-! ## Last occurrences -/

theorem joined_dedup (hchain : l.IsChain fun a c => a = x ↔ c = y) (hhead : l.head? ≠ some y)
    (hlast : l.getLast? ≠ some x) : Joined l.dedup x y := by
  induction hlen : l.length using Nat.strong_induction_on generalizing l with
  | _ len ih =>
      rcases l with _ | ⟨a, _ | ⟨c, l⟩⟩
      · exact Joined.of_notMem (by simp) (by simp)
      · refine Joined.of_notMem ?_ ?_
        · simpa using fun heq : x = a => hlast (by simp [heq])
        · simpa using fun heq : y = a => hhead (by simp [heq])
      · obtain ⟨hac, hrest⟩ := List.isChain_cons_cons.mp hchain
        have hay : a ≠ y := fun heq => hhead (by simp [heq])
        by_cases hax : a = x
        · subst hax
          obtain rfl := hac.mp rfl
          have hbehind : Joined l.dedup a c := by
            refine ih l.length (by rw [← hlen]; exact Nat.lt_add_of_pos_right Nat.two_pos) ?_ ?_ ?_ rfl
            · exact (List.isChain_cons.mp hrest).2
            · intro hl
              exact hay ((List.isChain_cons.mp hrest).1 c hl |>.mpr rfl).symm
            · intro hl
              refine hlast ?_
              rw [List.getLast?_cons_cons, List.getLast?_cons, hl]
              rfl
          by_cases hmem : a ∈ l
          · have hmem' : c ∈ l := by
              simpa using hbehind.mem_iff.mp (by simpa using hmem)
            rwa [List.dedup_cons_of_mem (List.mem_cons_of_mem c hmem), List.dedup_cons_of_mem hmem']
          · have hmem' : c ∉ l := fun hc =>
              hmem (by simpa using hbehind.mem_iff.mpr (by simpa using hc))
            rw [List.dedup_cons_of_notMem (by simp [hay, hmem]), List.dedup_cons_of_notMem hmem']
            exact .of_beside (beside_middle [] l.dedup a c)
        · have hbehind : Joined (c :: l).dedup x y := by
            refine ih (c :: l).length (by rw [← hlen]; exact Nat.lt_succ_self _) hrest ?_ ?_ rfl
            · intro hl
              exact hax (hac.mpr (Option.some.inj hl))
            · rwa [List.getLast?_cons_cons] at hlast
          by_cases hmem : a ∈ c :: l
          · rwa [List.dedup_cons_of_mem hmem]
          · rw [List.dedup_cons_of_notMem hmem]
            exact (Joined.of_notMem (l := [a]) (by simpa using Ne.symm hax)
              (by simpa using hay.symm)).append hbehind

theorem dedup_append (p q : List NodeId) :
    (p ++ q).dedup = (p.filter (· ∉ q)).dedup ++ q.dedup := by
  induction p with
  | nil => simp
  | cons a p ih =>
      by_cases hq : a ∈ q
      · rw [List.cons_append, List.dedup_cons_of_mem (List.mem_append_right p hq), ih]
        simp [hq]
      · by_cases hp : a ∈ p
        · rw [List.cons_append, List.dedup_cons_of_mem (List.mem_append_left q hp), ih,
            List.filter_cons_of_pos (by simpa using hq), List.dedup_cons_of_mem (by simp [hp, hq])]
        · rw [List.cons_append, List.dedup_cons_of_notMem (by simp [hp, hq]), ih,
            List.filter_cons_of_pos (by simpa using hq),
            List.dedup_cons_of_notMem (by simp [hp]), List.cons_append]

theorem getLast?_dedup (hlast : l.getLast? = some e) : l.dedup.getLast? = some e := by
  obtain ⟨p, rfl⟩ := List.getLast?_eq_some_iff.mp hlast
  simp [dedup_append]

theorem head?_dedup (hhead : l.head? = some h) (honce : h ∉ l.tail) :
    l.dedup.head? = some h := by
  obtain ⟨p, rfl⟩ := List.head?_eq_some_iff.mp hhead
  rw [List.tail_cons] at honce
  rw [List.dedup_cons_of_notMem honce, List.head?_cons]

/-- Lists in which two markers enclose a block wherever they occur, and in which
the first and the last node of the block occur in the block alone. -/
inductive Phrase (m : NodeId) (b : List NodeId) (n : NodeId) : List NodeId → Prop
  | nil : Phrase m b n []
  | single {z : NodeId} {l : List NodeId} (hm : z ≠ m) (hn : z ≠ n)
      (hhead : b.head? ≠ some z) (hlast : b.getLast? ≠ some z) (h : Phrase m b n l) :
      Phrase m b n (z :: l)
  | block {l : List NodeId} (h : Phrase m b n l) : Phrase m b n (b ++ l)
  | enclosed {l : List NodeId} (h : Phrase m b n l) : Phrase m b n (m :: (b ++ n :: l))

namespace Phrase

theorem append {q : List NodeId} (hl : Phrase m b n l) (hq : Phrase m b n q) :
    Phrase m b n (l ++ q) := by
  induction hl with
  | nil => exact hq
  | single hm hn hhead hlast _ ih => exact .single hm hn hhead hlast ih
  | block _ ih =>
      rw [List.append_assoc]
      exact .block ih
  | enclosed _ ih =>
      rw [List.cons_append, List.append_assoc, List.cons_append]
      exact .enclosed ih

theorem mem (hl : Phrase m b n l) (hm : m ∉ b) (hn : n ∉ b) (hhead : b.head? = some h)
    (hlast : b.getLast? = some e) :
    (m ∈ l ↔ n ∈ l) ∧ (m ∈ l → h ∈ l) ∧ (e ∈ l → h ∈ l) ∧ (h ∈ l → b ⊆ l) := by
  have hh : h ∈ b := List.mem_of_head? hhead
  induction hl with
  | nil => simp
  | @single z l hzm hzn hzh hze _ ih =>
      have hzh' : h ≠ z := fun heq => hzh (heq ▸ hhead)
      have hze' : e ≠ z := fun heq => hze (heq ▸ hlast)
      simp only [List.mem_cons, hzm.symm, hzn.symm, hzh', hze', false_or]
      exact ⟨ih.1, ih.2.1, ih.2.2.1, fun hmem k hk => List.mem_cons_of_mem z (ih.2.2.2 hmem hk)⟩
  | @block l _ ih =>
      simp only [List.mem_append, hm, hn, hh, true_or, implies_true, false_or, true_and,
        forall_const]
      exact ⟨ih.1, List.subset_append_left b l⟩
  | @enclosed l _ ih =>
      have hsub : b ⊆ m :: (b ++ n :: l) := fun k hk => by simp [hk]
      simp [hh, hsub]

/-- At its last occurrence a block is whole, and between other markers nothing
is left. -/
theorem beside_dedup (hl : Phrase m b n l) (hm : m ∉ b) (hn : n ∉ b) (hmn : m ≠ n)
    (hhead : b.head? = some h) (honce : h ∉ b.tail) (hlast : b.getLast? = some e) (hmem : m ∈ l) :
    Beside l.dedup m n ∨ (Beside l.dedup m h ∧ Beside l.dedup e n) := by
  induction hl with
  | nil => simp at hmem
  | @single z l hzm hzn hzh hze hl ih =>
      have hold := ih (by simpa [hzm.symm] using hmem)
      by_cases hz : z ∈ l
      · rwa [List.dedup_cons_of_mem hz]
      · rw [List.dedup_cons_of_notMem hz]
        have hbehind : ∀ {a c}, Beside l.dedup a c → Beside (z :: l.dedup) a c :=
          fun hb => hb.trans (List.suffix_cons z _).isInfix
        exact hold.imp hbehind (And.imp hbehind hbehind)
  | @block l hl ih =>
      have hold := ih (by simpa [hm] using hmem)
      rw [dedup_append]
      have hbehind : ∀ {a c}, Beside l.dedup a c →
          Beside ((b.filter (· ∉ l)).dedup ++ l.dedup) a c :=
        fun hb => hb.trans (List.suffix_append _ _).isInfix
      exact hold.imp hbehind (And.imp hbehind hbehind)
  | @enclosed l hl ih =>
      by_cases hml : m ∈ l
      · -- the markers occur again
        have hnl : n ∈ l := (hl.mem hm hn hhead hlast).1.mp hml
        rw [List.dedup_cons_of_mem (by simp [hml]), dedup_append, List.dedup_cons_of_mem hnl]
        have hbehind : ∀ {a c}, Beside l.dedup a c →
            Beside ((b.filter (· ∉ n :: l)).dedup ++ l.dedup) a c :=
          fun hb => hb.trans (List.suffix_append _ _).isInfix
        exact (ih hml).imp hbehind (And.imp hbehind hbehind)
      · have hnl : n ∉ l := fun hnl => hml ((hl.mem hm hn hhead hlast).1.mpr hnl)
        rw [List.dedup_cons_of_notMem (by simp [hml, hm, hmn]), dedup_append,
          List.dedup_cons_of_notMem hnl]
        by_cases hhl : h ∈ l
        · -- the block occurs again
          have hnone : b.filter (· ∉ n :: l) = [] := by
            refine List.filter_eq_nil_iff.mpr fun k hk => ?_
            simp [(hl.mem hm hn hhead hlast).2.2.2 hhl hk]
          rw [hnone]
          exact .inl (beside_middle [] l.dedup m n)
        · have hel : e ∉ l := fun hel => hhl ((hl.mem hm hn hhead hlast).2.2.1 hel)
          have hhn : h ≠ n := fun heq => hn (heq ▸ List.mem_of_head? hhead)
          have hen : e ≠ n := fun heq => hn (heq ▸ List.mem_of_getLast? hlast)
          have hfirst : (b.filter (· ∉ n :: l)).dedup.head? = some h := by
            obtain ⟨b', rfl⟩ := List.head?_eq_some_iff.mp hhead
            refine head?_dedup ?_ ?_
            · rw [List.filter_cons_of_pos (by simp [hhn, hhl]), List.head?_cons]
            · rw [List.filter_cons_of_pos (by simp [hhn, hhl]), List.tail_cons]
              exact fun hmem => honce (List.mem_of_mem_filter hmem)
          have hfinal : (b.filter (· ∉ n :: l)).dedup.getLast? = some e := by
            obtain ⟨b', rfl⟩ := List.getLast?_eq_some_iff.mp hlast
            refine getLast?_dedup ?_
            rw [List.filter_append, List.filter_cons_of_pos (by simp [hen, hel])]
            simp
          refine .inr ⟨?_, ?_⟩
          · obtain ⟨p, hp⟩ := List.head?_eq_some_iff.mp hfirst
            rw [hp]
            exact beside_middle [] _ m h
          · obtain ⟨p, hp⟩ := List.getLast?_eq_some_iff.mp hfinal
            rw [hp]
            simpa using beside_middle (m :: p) l.dedup e n

end Phrase

/-- The node before another one. -/
def previous (l : List NodeId) (h : NodeId) : Option NodeId :=
  (l.takeWhile (· != h)).getLast?

theorem previous_eq_some_iff (hl : l.Nodup) (hmem : h ∈ l) :
    previous l h = some m ↔ Beside l m h := by
  obtain ⟨p, q, rfl⟩ := List.append_of_mem hmem
  have hp : h ∉ p := fun hp => (List.nodup_append.mp hl).2.2 h hp h List.mem_cons_self rfl
  rw [previous, Document.takeWhile_ne_append hp, beside_append]
  constructor
  · exact fun hlast => .inr (.inr ⟨hlast, rfl⟩)
  · rintro (hb | hb | hb)
    · exact absurd hb.right_mem hp
    · exact absurd rfl (hb.head?_ne (List.nodup_append.mp hl).2.1)
    · exact hb.1

/-! ## Following -/

variable {tops spans : InstanceId → List NodeId} {d : Document} {seat : Seating}
  {links : List Link} {k t : InstanceId}

/-- Who may stand right behind whom by some links, wherever shared instances
sit. One without nodes keeps no markers apart. -/
inductive Succeeds (tops : InstanceId → List NodeId) (among : Link → Prop) :
    NodeId → NodeId → Prop
  | next {x y : NodeId} (h : among (.next x y)) : Succeeds tops among x y
  | past {m n : NodeId} {t : InstanceId} (h : among (.gap m t n)) (hnone : tops t = []) :
      Succeeds tops among m n
  | into {m n head : NodeId} {t : InstanceId} (h : among (.gap m t n))
      (hhead : (tops t).head? = some head) : Succeeds tops among m head
  | out {m n last : NodeId} {t : InstanceId} (h : among (.gap m t n))
      (hlast : (tops t).getLast? = some last) : Succeeds tops among last n

/-- Links that leave no choice of who follows. -/
inductive Tight (tops : InstanceId → List NodeId) (links : List Link) : NodeId → NodeId → Prop
  | next {x y : NodeId} (h : .next x y ∈ links) : Tight tops links x y
  | past {m n : NodeId} {t : InstanceId} (h : .gap m t n ∈ links) (hnone : tops t = []) :
      Tight tops links m n

namespace Standing

theorem run_of_head? (hs : Standing tops d seat links) (hhead : (tops t).head? = some h) :
    ∃ e, (tops t).getLast? = some e ∧ .run (some t) h e ∈ links := by
  have hne : tops t ≠ [] := by
    intro hnil
    rw [hnil] at hhead
    cases hhead
  have hlast := List.getLast?_eq_some_getLast hne
  exact ⟨_, hlast, (hs.runs t h _).mpr ⟨hhead, hlast⟩⟩

theorem run_of_getLast? (hs : Standing tops d seat links) (hlast : (tops t).getLast? = some e) :
    ∃ h, (tops t).head? = some h ∧ .run (some t) h e ∈ links := by
  have hne : tops t ≠ [] := by
    intro hnil
    rw [hnil] at hlast
    cases hlast
  have hhead := List.head?_eq_some_head hne
  exact ⟨_, hhead, (hs.runs t _ e).mpr ⟨hhead, hlast⟩⟩

theorem tight_iff (hs : Standing tops d seat links) (htight : Tight tops links x y)
    {a c : NodeId} (hfollows : Succeeds tops (· ∈ links) a c) : a = x ↔ c = y := by
  constructor
  · rintro rfl
    cases htight with
    | next hk =>
        cases hfollows with
        | next hk' => cases hs.eq_of_source hk hk' rfl; rfl
        | past hk' _ => cases hs.eq_of_source hk hk' rfl
        | into hk' _ => cases hs.eq_of_source hk hk' rfl
        | out _ hlast =>
            obtain ⟨_, -, hrun⟩ := hs.run_of_getLast? hlast
            cases hs.eq_of_source hk hrun rfl
    | past hk hnone =>
        cases hfollows with
        | next hk' => cases hs.eq_of_source hk hk' rfl
        | past hk' _ => cases hs.eq_of_source hk hk' rfl; rfl
        | into hk' hhead =>
            cases hs.eq_of_source hk hk' rfl
            rw [hnone] at hhead
            cases hhead
        | out _ hlast =>
            obtain ⟨_, -, hrun⟩ := hs.run_of_getLast? hlast
            cases hs.eq_of_source hk hrun rfl
  · rintro rfl
    cases htight with
    | next hk =>
        cases hfollows with
        | next hk' => cases hs.eq_of_target hk hk' rfl; rfl
        | past hk' _ => cases hs.eq_of_target hk hk' rfl
        | into _ hhead =>
            obtain ⟨_, -, hrun⟩ := hs.run_of_head? hhead
            cases hs.eq_of_target hk hrun rfl
        | out hk' _ => cases hs.eq_of_target hk hk' rfl
    | past hk hnone =>
        cases hfollows with
        | next hk' => cases hs.eq_of_target hk hk' rfl
        | past hk' _ => cases hs.eq_of_target hk hk' rfl; rfl
        | into _ hhead =>
            obtain ⟨_, -, hrun⟩ := hs.run_of_head? hhead
            cases hs.eq_of_target hk hrun rfl
        | out hk' hlast =>
            cases hs.eq_of_target hk hk' rfl
            rw [hnone] at hlast
            cases hlast

end Standing

/-! ## A gathered instance -/

/-- A place for a shared instance as a span goes through it. -/
structure Enclosed (tops spans : InstanceId → List NodeId) (seat : Seating) (links : List Link)
    (k : InstanceId) (m : NodeId) (t : InstanceId) (n : NodeId) : Prop where
  phrase : Phrase m (spans t) n (spans k)
  first : m ∉ spans t
  last : n ∉ spans t
  ne : m ∈ spans k → m ≠ n
  once : ∀ h, (spans t).head? = some h → h ∉ (spans t).tail
  path : ∃ w, w.IsChain (Joint seat links) ∧ w.head? = (tops t).head? ∧
    w.getLast? = (tops t).getLast? ∧ w ⊆ spans t

/-- What must be known of the span of a shared instance to gather it. -/
structure Gatherable (tops spans : InstanceId → List NodeId) (d : Document) (seat : Seating)
    (links : List Link) (k : InstanceId) : Prop where
  exist : ∀ z ∈ spans k, d.Insertable z
  chain : (spans k).IsChain (Succeeds tops (· ∈ links))
  once : ∀ h, (spans k).head? = some h → h ∉ (spans k).tail
  head : ∀ t, (spans t).head? = (tops t).head?
  last : ∀ t, (spans t).getLast? = (tops t).getLast?
  enclosed : ∀ {m t n}, .gap m t n ∈ links →
    (∃ z ∈ spans k, z = m ∨ z = n ∨ (tops t).head? = some z ∨ (tops t).getLast? = some z) →
      Enclosed tops spans seat links k m t n

/-- Who sits where after nodes were gathered. -/
def Seating.gathered (seat : Seating) (tops : InstanceId → List NodeId) (span : List NodeId) :
    Seating := fun t =>
  match (tops t).head? with
  | none => none
  | some h => if h ∈ span then previous span.dedup h else seat t

namespace Gatherable

theorem joined_tight (hg : Gatherable tops spans d seat links k)
    (hs : Standing tops d seat links) (htight : Tight tops links x y) :
    Joined (spans k).dedup x y := by
  refine joined_dedup (hg.chain.imp fun a c hac => hs.tight_iff htight hac) ?_ ?_
  · intro hhead
    rw [hg.head] at hhead
    obtain ⟨_, -, hrun⟩ := hs.run_of_head? hhead
    cases htight with
    | next hk => cases hs.eq_of_target hk hrun rfl
    | past hk _ => cases hs.eq_of_target hk hrun rfl
  · intro hlast
    rw [hg.last] at hlast
    obtain ⟨_, -, hrun⟩ := hs.run_of_getLast? hlast
    cases htight with
    | next hk => cases hs.eq_of_source hk hrun rfl
    | past hk _ => cases hs.eq_of_source hk hrun rfl

theorem places (hg : Gatherable tops spans d seat links k) (hgap : .gap m t n ∈ links)
    (hhead : (tops t).head? = some h) (hlast : (tops t).getLast? = some e) :
    (m ∈ spans k ↔ n ∈ spans k) ∧ (m ∈ spans k → h ∈ spans k) ∧
      (e ∈ spans k → h ∈ spans k) ∧ (h ∈ spans k → spans t ⊆ spans k) := by
  by_cases hmeets : ∃ z ∈ spans k, z = m ∨ z = n ∨ (tops t).head? = some z ∨
      (tops t).getLast? = some z
  · have henclosed := hg.enclosed hgap hmeets
    exact henclosed.phrase.mem henclosed.first henclosed.last ((hg.head t).trans hhead)
      ((hg.last t).trans hlast)
  · have hnone : ∀ z, z = m ∨ z = n ∨ (tops t).head? = some z ∨ (tops t).getLast? = some z →
        z ∉ spans k := fun z hz hmem => hmeets ⟨z, hmem, hz⟩
    simp [hnone m (by simp), hnone n (by simp), hnone h (by simp [hhead]),
      hnone e (by simp [hlast])]

theorem joined_markers (hg : Gatherable tops spans d seat links k)
    (hs : Standing tops d seat links) (hgap : .gap m t n ∈ links)
    (hhead : (tops t).head? = some h) (hm : m ∉ spans k) (hn : n ∉ spans k) (hh : h ∈ spans k)
    (p : NodeId) : Joined ((d.children p).filter (· ∉ spans k)) m n := by
  by_cases hseat : seat t = some m
  · obtain ⟨e, hlast, hrun⟩ := hs.run_of_head? hhead
    obtain ⟨w, hchain, hwhead, hwlast, hwsub⟩ :=
      (hg.enclosed hgap ⟨h, hh, .inr (.inr (.inl hhead))⟩).path
    rw [hhead] at hwhead
    rw [hlast] at hwlast
    have hsub : w ⊆ spans k := fun z hz => (hg.places hgap hhead hlast).2.2.2 hh (hwsub hz)
    have hall : (m :: (w ++ [n])).IsChain (Joint seat links) := by
      refine List.isChain_cons.mpr ⟨fun z hz => ?_, List.isChain_append.mpr ⟨hchain, by simp, ?_⟩⟩
      · obtain ⟨w, rfl⟩ := List.head?_eq_some_iff.mp hwhead
        obtain rfl : h = z := by simpa using hz
        exact .into hgap hseat hrun
      · intro a ha c hc
        obtain rfl : n = c := by simpa using hc
        obtain rfl : e = a := by simpa [hwlast] using ha
        exact .out hgap hseat hrun
    intro hmem
    have hmem' : ∃ z ∈ m :: (w ++ [n]), z ∈ d.children p := by
      rcases hmem with hmem | hmem
      · exact ⟨m, by simp, List.mem_of_mem_filter hmem⟩
      · exact ⟨n, by simp, List.mem_of_mem_filter hmem⟩
    obtain ⟨z, hz, hzmem⟩ := hmem'
    have hjoined := hall.imp fun _ _ hjoint => hs.joined hjoint p
    exact beside_filter (infix_of_isChain (hs.tied.nodup p) hjoined hz hzmem) hsub hm hn
  · exact (hs.joined (.apart hgap hseat) p).filter (by simp [hm, hn])

theorem gathered_of_mem (hhead : (tops t).head? = some h) (hh : h ∈ spans k) :
    seat.gathered tops (spans k) t = some m ↔ Beside (spans k).dedup m h := by
  rw [← previous_eq_some_iff (List.nodup_dedup _) (List.mem_dedup.mpr hh)]
  simp only [Seating.gathered, hhead, hh, if_true]

theorem gathered_of_notMem (hhead : (tops t).head? = some h) (hh : h ∉ spans k) :
    seat.gathered tops (spans k) t = seat t := by
  simp only [Seating.gathered, hhead, hh, if_false]

theorem joined_left (hg : Gatherable tops spans d seat links k)
    (hs : Standing tops d seat links) (hjoint : Joint (seat.gathered tops (spans k)) links x y)
    (p : NodeId) : Joined ((d.children p).filter (· ∉ spans k)) x y := by
  have htight : ∀ {x y}, Tight tops links x y → Joint seat links x y →
      Joined ((d.children p).filter (· ∉ spans k)) x y := by
    intro x y htight hold
    have hboth := (hg.joined_tight hs htight).mem_iff
    exact (hs.joined hold p).filter (by simpa using hboth)
  have hout : ∀ {x y}, x ∈ spans k → y ∈ spans k →
      Joined ((d.children p).filter (· ∉ spans k)) x y := by
    intro x y hx hy
    exact Joined.of_notMem (by simp [hx]) (by simp [hy])
  have hleft : ∀ {x y}, x ∉ spans k → y ∉ spans k → Joint seat links x y →
      Joined ((d.children p).filter (· ∉ spans k)) x y := by
    intro x y hx hy hold
    exact (hs.joined hold p).filter (by simp [hx, hy])
  cases hjoint with
  | next hk => exact htight (.next hk) (.next hk)
  | @apart m n t hgap hseat =>
      cases hhead : (tops t).head? with
      | none =>
          have hnone : tops t = [] := List.head?_eq_none_iff.mp hhead
          refine htight (.past hgap hnone) (.apart hgap fun hold => ?_)
          exact hs.seated t (by simp [hold]) hnone
      | some h =>
          obtain ⟨e, hlast, -⟩ := hs.run_of_head? hhead
          obtain ⟨hmn, hmh, -, -⟩ := hg.places hgap hhead hlast
          by_cases hm : x ∈ spans k
          · exact hout hm (hmn.mp hm)
          have hn : y ∉ spans k := hmn.not.mp hm
          by_cases hh : h ∈ spans k
          · exact hg.joined_markers hs hgap hhead hm hn hh p
          · rw [gathered_of_notMem hhead hh] at hseat
            exact hleft hm hn (.apart hgap hseat)
  | @into m n t head last hgap hseat hrun =>
      obtain ⟨hhead, hlast⟩ := (hs.runs t _ _).mp hrun
      obtain ⟨-, hmh, -, -⟩ := hg.places hgap hhead hlast
      by_cases hh : y ∈ spans k
      · have hbeside := (gathered_of_mem hhead hh).mp hseat
        exact hout (List.mem_dedup.mp hbeside.left_mem) hh
      · rw [gathered_of_notMem hhead hh] at hseat
        exact hleft (fun hm => hh (hmh hm)) hh (.into hgap hseat hrun)
  | @out m n t head last hgap hseat hrun =>
      obtain ⟨hhead, hlast⟩ := (hs.runs t _ _).mp hrun
      obtain ⟨hmn, hmh, heh, hsub⟩ := hg.places hgap hhead hlast
      by_cases hh : head ∈ spans k
      · have hbeside := (gathered_of_mem hhead hh).mp hseat
        have hlast' : x ∈ spans t := List.mem_of_getLast? ((hg.last t).trans hlast)
        exact hout (hsub hh hlast') (hmn.mp (List.mem_dedup.mp hbeside.left_mem))
      · rw [gathered_of_notMem hhead hh] at hseat
        exact hleft (fun he => hh (heh he)) (fun hn => hh (hmh (hmn.mpr hn)))
          (.out hgap hseat hrun)

theorem joined_gathered (hg : Gatherable tops spans d seat links k)
    (hs : Standing tops d seat links) (hjoint : Joint (seat.gathered tops (spans k)) links x y) :
    Joined (spans k).dedup x y := by
  have hout : ∀ {x y}, x ∉ spans k → y ∉ spans k → Joined (spans k).dedup x y := by
    intro x y hx hy
    exact Joined.of_notMem (by simpa using hx) (by simpa using hy)
  -- a place that the span goes through is filled or closed at its last occurrence
  have hplace : ∀ {m t n h e}, .gap m t n ∈ links → (tops t).head? = some h →
      (tops t).getLast? = some e → m ∈ spans k → n ∉ spans t ∧
        (Beside (spans k).dedup m n ∨
          (Beside (spans k).dedup m h ∧ Beside (spans k).dedup e n)) := by
    intro m t n h e hgap hhead hlast hm
    have henclosed := hg.enclosed hgap ⟨m, hm, .inl rfl⟩
    rw [← hg.head t] at hhead
    rw [← hg.last t] at hlast
    exact ⟨henclosed.last, henclosed.phrase.beside_dedup henclosed.first henclosed.last
      (henclosed.ne hm) hhead (henclosed.once h hhead) hlast hm⟩
  cases hjoint with
  | next hk => exact hg.joined_tight hs (.next hk)
  | @apart m n t hgap hseat =>
      cases hhead : (tops t).head? with
      | none => exact hg.joined_tight hs (.past hgap (List.head?_eq_none_iff.mp hhead))
      | some h =>
          obtain ⟨e, hlast, -⟩ := hs.run_of_head? hhead
          obtain ⟨hmn, hmh, -, -⟩ := hg.places hgap hhead hlast
          by_cases hm : x ∈ spans k
          · rcases (hplace hgap hhead hlast hm).2 with hbeside | ⟨hbeside, -⟩
            · exact .of_beside hbeside
            · exact absurd ((gathered_of_mem hhead (hmh hm)).mpr hbeside) hseat
          · exact hout hm (hmn.not.mp hm)
  | @into m n t head last hgap hseat hrun =>
      obtain ⟨hhead, hlast⟩ := (hs.runs t _ _).mp hrun
      obtain ⟨-, hmh, -, -⟩ := hg.places hgap hhead hlast
      by_cases hh : y ∈ spans k
      · exact .of_beside ((gathered_of_mem hhead hh).mp hseat)
      · exact hout (fun hm => hh (hmh hm)) hh
  | @out m n t head last hgap hseat hrun =>
      obtain ⟨hhead, hlast⟩ := (hs.runs t _ _).mp hrun
      obtain ⟨hmn, hmh, heh, hsub⟩ := hg.places hgap hhead hlast
      by_cases hh : head ∈ spans k
      · have hbeside := (gathered_of_mem hhead hh).mp hseat
        have hm : m ∈ spans k := List.mem_dedup.mp hbeside.left_mem
        obtain ⟨hn, hclosed | ⟨-, hfilled⟩⟩ := hplace hgap hhead hlast hm
        · obtain rfl := hbeside.next_unique hclosed (List.nodup_dedup _)
          exact absurd (List.mem_of_head? ((hg.head t).trans hhead)) hn
        · exact .of_beside hfilled
      · exact hout (fun he => hh (heh he)) fun hn => hh (hmh (hmn.mpr hn))

end Gatherable

/-- A document still stands as its instances say when one of them was gathered;
that one sits nowhere then. -/
theorem Standing.gather (hs : Standing tops d seat links)
    (hg : Gatherable tops spans d seat links k) :
    ∃ seat', Standing tops (d.gather (spans k)).2 seat' links ∧ seat' k = none := by
  obtain ⟨-, happended⟩ := hs.tied.gathered hg.exist
  refine ⟨seat.gathered tops (spans k), ⟨happended.tied, hs.sources, hs.targets, ?_, hs.runs,
    ?_, ?_⟩, ?_⟩
  · have hkeep : ∀ {n}, d.Insertable n → (d.gather (spans k)).2.Insertable n := by
      rintro n ⟨data, hdata, hkind⟩
      rw [Document.insertable_iff, happended.kinds]
      refine ⟨data.kind, ?_, hkind⟩
      exact Document.kind?_of_node ((Document.extends_create d .fragment).node hdata)
    exact fun link hk => ⟨hkeep (hs.exist link hk).1, hkeep (hs.exist link hk).2⟩
  · intro t hseat hnone
    refine hseat ?_
    simp [Seating.gathered, hnone]
  · intro x y hjoint p
    rw [happended.children, Document.children_create]
    refine (hg.joined_left hs hjoint p).append ?_
    split
    · exact hg.joined_gathered hs hjoint
    · exact Joined.of_notMem (by simp) (by simp)
  · cases hhead : (tops k).head? with
    | none => simp [Seating.gathered, hhead]
    | some h =>
        have hspan := (hg.head k).trans hhead
        have hfirst := head?_dedup hspan (hg.once h hspan)
        cases hseat : seat.gathered tops (spans k) k with
        | none => rfl
        | some m =>
            have hbeside := (Gatherable.gathered_of_mem hhead (List.mem_of_head? hspan)).mp hseat
            exact absurd hfirst (hbeside.head?_ne (List.nodup_dedup _))

end LiveMarkup
