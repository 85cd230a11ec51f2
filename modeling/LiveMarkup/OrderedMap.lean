/-!
# Maps with ordered keys

A map is the list of its entries in ascending order of keys, so two maps with
the same look-ups are the same map (`ext_get?`). Later writes replace earlier
ones (`get?_insert`), and the right-hand side of a merge wins (`get?_merge`).
-/

namespace LiveMarkup

/-- Entries in strictly ascending order of their keys. -/
def Ascending {κ α : Type} [Ord κ] (entries : List (κ × α)) : Prop :=
  entries.Pairwise fun a b => compare a.1 b.1 = .lt

/-- A finite map. -/
structure OrderedMap (κ α : Type) [Ord κ] where
  entries : List (κ × α)
  ascending : Ascending entries

namespace OrderedMap

variable {κ α : Type} [Ord κ]

/-! ## Entries -/

/-- Puts a key in its place, or replaces what stands there. -/
def insertEntry (k : κ) (a : α) : List (κ × α) → List (κ × α)
  | [] => [(k, a)]
  | (k', a') :: rest =>
      match compare k k' with
      | .lt => (k, a) :: (k', a') :: rest
      | .eq => (k, a) :: rest
      | .gt => (k', a') :: insertEntry k a rest

/-- The value at a key. -/
def lookupEntry (k : κ) : List (κ × α) → Option α
  | [] => none
  | (k', a) :: rest =>
      match compare k k' with
      | .eq => some a
      | _ => lookupEntry k rest

theorem mem_insertEntry {k : κ} {a : α} {e : κ × α} {l : List (κ × α)}
    (h : e ∈ insertEntry k a l) : e = (k, a) ∨ e ∈ l := by
  induction l with
  | nil => simpa [insertEntry] using h
  | cons head rest ih =>
      obtain ⟨k', a'⟩ := head
      simp only [insertEntry] at h
      cases hc : compare k k' <;> rw [hc] at h <;>
        simp only [List.mem_cons] at h ⊢
      · exact h
      · rcases h with h | h
        · exact Or.inl h
        · exact Or.inr (Or.inr h)
      · rcases h with h | h
        · exact Or.inr (Or.inl h)
        · rcases ih h with h | h
          · exact Or.inl h
          · exact Or.inr (Or.inr h)

theorem ascending_filter (p : κ × α → Bool) {l : List (κ × α)}
    (h : Ascending l) : Ascending (l.filter p) :=
  List.Pairwise.filter p h

theorem lookupEntry_eq_none {k : κ} {l : List (κ × α)}
    (h : ∀ e ∈ l, compare k e.1 = .lt) : lookupEntry k l = none := by
  induction l with
  | nil => rfl
  | cons head rest ih =>
      simp only [lookupEntry, h head (by simp)]
      exact ih fun e he => h e (by simp [he])

/-! ## Looking up -/

/-- The map without entries. -/
def empty : OrderedMap κ α := ⟨[], List.Pairwise.nil⟩

instance : EmptyCollection (OrderedMap κ α) := ⟨empty⟩

instance : Inhabited (OrderedMap κ α) := ⟨empty⟩

/-- The value at a key. -/
def get? (m : OrderedMap κ α) (k : κ) : Option α :=
  lookupEntry k m.entries

/-- Whether a key has a value. -/
def contains (m : OrderedMap κ α) (k : κ) : Bool :=
  (m.get? k).isSome

/-- How many keys have a value. -/
def size (m : OrderedMap κ α) : Nat :=
  m.entries.length

/-! ## Writing -/

variable [Std.LawfulEqOrd κ]

theorem lookupEntry_insertEntry (k : κ) (a : α) (k' : κ) (l : List (κ × α)) :
    lookupEntry k' (insertEntry k a l) =
      if compare k' k = .eq then some a else lookupEntry k' l := by
  induction l with
  | nil => cases hc : compare k' k <;> simp [insertEntry, lookupEntry, hc]
  | cons head rest ih =>
      obtain ⟨k₀, a₀⟩ := head
      simp only [insertEntry]
      cases hc : compare k k₀ with
      | lt => cases hk : compare k' k <;> simp [lookupEntry, hk]
      | eq =>
          obtain rfl := Std.LawfulEqCmp.eq_of_compare hc
          cases hk : compare k' k <;> simp [lookupEntry, hk]
      | gt =>
          simp only [lookupEntry, ih]
          by_cases hk : compare k' k = .eq
          · obtain rfl := Std.LawfulEqCmp.eq_of_compare hk
            simp [hc]
          · simp [hk]

theorem lookupEntry_erase (k k' : κ) (l : List (κ × α)) :
    lookupEntry k' (l.filter fun e => compare k e.1 != .eq) =
      if compare k' k = .eq then none else lookupEntry k' l := by
  induction l with
  | nil => simp [lookupEntry]
  | cons head rest ih =>
      obtain ⟨k₀, a₀⟩ := head
      by_cases hk₀ : compare k k₀ = .eq
      · obtain rfl := Std.LawfulEqCmp.eq_of_compare hk₀
        rw [List.filter_cons_of_neg (by simp), ih]
        by_cases hk : compare k' k = .eq <;> simp [lookupEntry, hk]
      · rw [List.filter_cons_of_pos (by simpa using hk₀), lookupEntry, lookupEntry, ih]
        by_cases hk : compare k' k = .eq
        · obtain rfl := Std.LawfulEqCmp.eq_of_compare hk
          simp
        · simp [hk]

variable [Std.TransOrd κ]

theorem ascending_insertEntry (k : κ) (a : α) {l : List (κ × α)}
    (h : Ascending l) : Ascending (insertEntry k a l) := by
  induction l with
  | nil => exact List.pairwise_singleton _ _
  | cons head rest ih =>
      obtain ⟨k', a'⟩ := head
      have hparts := List.pairwise_cons.mp h
      simp only [insertEntry]
      cases hc : compare k k' with
      | lt =>
          refine List.pairwise_cons.mpr ⟨fun e he => ?_, h⟩
          rcases List.mem_cons.mp he with rfl | he
          · exact hc
          · exact Std.TransCmp.lt_trans hc (hparts.1 e he)
      | eq =>
          obtain rfl := Std.LawfulEqCmp.eq_of_compare hc
          exact List.pairwise_cons.mpr hparts
      | gt =>
          refine List.pairwise_cons.mpr ⟨fun e he => ?_, ih hparts.2⟩
          rcases mem_insertEntry he with rfl | he
          · exact Std.OrientedCmp.lt_of_gt hc
          · exact hparts.1 e he

/-- Writes a value at a key. -/
def insert (m : OrderedMap κ α) (k : κ) (a : α) : OrderedMap κ α :=
  ⟨insertEntry k a m.entries, ascending_insertEntry k a m.ascending⟩

/-- Takes a key and its value away. -/
def erase (m : OrderedMap κ α) (k : κ) : OrderedMap κ α :=
  ⟨m.entries.filter fun e => compare k e.1 != .eq, ascending_filter _ m.ascending⟩

/-- Writes all entries of the second map over the first. -/
def merge (m n : OrderedMap κ α) : OrderedMap κ α :=
  n.entries.foldl (fun acc e => acc.insert e.1 e.2) m

theorem get?_insert (m : OrderedMap κ α) (k : κ) (a : α) (k' : κ) :
    (m.insert k a).get? k' = if compare k' k = .eq then some a else m.get? k' :=
  lookupEntry_insertEntry k a k' m.entries

omit [Std.TransOrd κ] in
theorem get?_erase (m : OrderedMap κ α) (k k' : κ) :
    (m.erase k).get? k' = if compare k' k = .eq then none else m.get? k' :=
  lookupEntry_erase k k' m.entries

theorem get?_foldl_insert (k : κ) (l : List (κ × α)) (h : Ascending l)
    (m : OrderedMap κ α) :
    (l.foldl (fun acc e => acc.insert e.1 e.2) m).get? k =
      (lookupEntry k l).or (m.get? k) := by
  induction l generalizing m with
  | nil => rfl
  | cons head rest ih =>
      obtain ⟨k', a⟩ := head
      have hparts := List.pairwise_cons.mp h
      rw [List.foldl_cons, ih hparts.2, get?_insert]
      cases hc : compare k k' with
      | eq =>
          obtain rfl := Std.LawfulEqCmp.eq_of_compare hc
          have hrest : lookupEntry k rest = none := lookupEntry_eq_none hparts.1
          simp [lookupEntry, hrest]
      | lt => simp [lookupEntry, hc]
      | gt => simp [lookupEntry, hc]

theorem get?_merge (m n : OrderedMap κ α) (k : κ) :
    (m.merge n).get? k = (n.get? k).or (m.get? k) :=
  get?_foldl_insert k n.entries n.ascending m

/-- Ascending entries with the same look-ups are the same entries. -/
theorem eq_of_lookupEntry {l l' : List (κ × α)} (h : Ascending l)
    (h' : Ascending l') (heq : ∀ k, lookupEntry k l = lookupEntry k l') :
    l = l' := by
  induction l generalizing l' with
  | nil =>
      cases l' with
      | nil => rfl
      | cons head rest =>
          have := heq head.1
          simp [lookupEntry] at this
  | cons head rest ih =>
      obtain ⟨k, a⟩ := head
      have hparts := List.pairwise_cons.mp h
      cases l' with
      | nil =>
          have := heq k
          simp [lookupEntry] at this
      | cons head' rest' =>
          obtain ⟨k', a'⟩ := head'
          have hparts' := List.pairwise_cons.mp h'
          have hk : compare k k' = .eq := by
            cases hc : compare k k' with
            | eq => rfl
            | lt =>
                have hnone : lookupEntry k ((k', a') :: rest') = none :=
                  lookupEntry_eq_none fun e he => by
                    rcases List.mem_cons.mp he with rfl | he
                    · exact hc
                    · exact Std.TransCmp.lt_trans hc (hparts'.1 e he)
                have := heq k
                rw [hnone] at this
                simp [lookupEntry] at this
            | gt =>
                have hlt : compare k' k = .lt := Std.OrientedCmp.lt_of_gt hc
                have hnone : lookupEntry k' ((k, a) :: rest) = none :=
                  lookupEntry_eq_none fun e he => by
                    rcases List.mem_cons.mp he with rfl | he
                    · exact hlt
                    · exact Std.TransCmp.lt_trans hlt (hparts.1 e he)
                have := heq k'
                rw [hnone] at this
                simp [lookupEntry] at this
          obtain rfl := Std.LawfulEqCmp.eq_of_compare hk
          have ha := heq k
          simp only [lookupEntry, Std.ReflCmp.compare_self, Option.some.injEq] at ha
          subst ha
          have hrest : rest = rest' := by
            apply ih hparts.2 hparts'.2
            intro k'
            have hkey := heq k'
            cases hc : compare k' k with
            | eq =>
                obtain rfl := Std.LawfulEqCmp.eq_of_compare hc
                rw [lookupEntry_eq_none hparts.1, lookupEntry_eq_none hparts'.1]
            | lt => simpa [lookupEntry, hc] using hkey
            | gt => simpa [lookupEntry, hc] using hkey
          rw [hrest]

/-- Maps with the same look-ups are equal. -/
theorem ext_get? {m n : OrderedMap κ α} (h : ∀ k, m.get? k = n.get? k) :
    m = n := by
  have := eq_of_lookupEntry m.ascending n.ascending h
  cases m
  cases n
  subst this
  rfl

/-! ## Keys -/

omit [Std.TransOrd κ] in
theorem lookupEntry_isSome {k : κ} {l : List (κ × α)} :
    (lookupEntry k l).isSome = true ↔ k ∈ l.map Prod.fst := by
  induction l with
  | nil => simp [lookupEntry]
  | cons head rest ih =>
      obtain ⟨k', a⟩ := head
      rw [List.map_cons, List.mem_cons, ← ih, lookupEntry]
      split
      · rename_i heq
        simp [Std.LawfulEqCmp.eq_of_compare heq]
      · rename_i hne
        simp [show k ≠ k' from fun heq => hne (heq ▸ Std.ReflCmp.compare_self)]

omit [Std.TransOrd κ] in
theorem nodup_keys {l : List (κ × α)} (h : Ascending l) :
    (l.map Prod.fst).Nodup := by
  refine List.pairwise_map.mpr (h.imp fun {a b} hlt heq => ?_)
  simp only [heq, Std.ReflCmp.compare_self] at hlt
  cases hlt

omit [Std.TransOrd κ] in
/-- A map has as many entries as there are keys among any that include its own. -/
theorem size_eq_countP {m : OrderedMap κ α} {keys : List κ} (hkeys : keys.Nodup)
    (h : ∀ k, m.contains k = true → k ∈ keys) : m.size = keys.countP m.contains := by
  have hperm : (m.entries.map Prod.fst).Perm (keys.filter m.contains) := by
    refine (List.perm_ext_iff_of_nodup (nodup_keys m.ascending)
      (hkeys.filter m.contains)).mpr fun k => ?_
    rw [List.mem_filter, ← lookupEntry_isSome]
    exact ⟨fun hk => ⟨h k hk, hk⟩, And.right⟩
  rw [List.countP_eq_length_filter, ← hperm.length_eq, List.length_map]
  rfl

end OrderedMap

end LiveMarkup
