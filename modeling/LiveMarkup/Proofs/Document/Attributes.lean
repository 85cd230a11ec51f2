import LiveMarkup.Document.Tree
import Mathlib.Data.List.Nodup
import Mathlib.Data.List.Perm.Subperm

/-!
# Attributes as maps

Attributes are kept in a list, but all that writing and removing do is said by
the values that names have afterwards. No name is ever there twice, and then
the values determine the list up to its order.
-/

namespace LiveMarkup

namespace Attributes

def keys (as : Attributes) : List String :=
  as.map Prod.fst

theorem value?_cons (a : String × String) (as : Attributes) (name : String) :
    value? (a :: as) name = if name = a.1 then some a.2 else value? as name := by
  obtain ⟨k, v⟩ := a
  by_cases h : name = k
  · simp [value?, h]
  · have hbeq : (name == k) = false := by simpa using h
    simp only [value?, List.lookup_cons, hbeq, if_neg h]

theorem value?_write (name value : String) (as : Attributes) (k : String) :
    value? (write name value as) k = if k = name then some value else value? as k := by
  induction as with
  | nil => rw [write, value?_cons]
  | cons a as ih =>
      rw [write]
      by_cases ha : a.1 = name
      · rw [if_pos ha, value?_cons, value?_cons, ha]
        by_cases hk : k = name <;> simp [hk]
      · rw [if_neg ha, value?_cons, value?_cons, ih]
        by_cases hk : k = a.1
        · have hkn : k ≠ name := fun heq => ha (hk ▸ heq)
          rw [if_pos hk, if_neg hkn, if_pos hk]
        · rw [if_neg hk, if_neg hk]

/-- Names with one that was written: behind the others, unless it is one of them. -/
def named (ks : List String) (name : String) : List String :=
  if name ∈ ks then ks else ks ++ [name]

theorem mem_named {ks : List String} {name k : String} :
    k ∈ named ks name ↔ k ∈ ks ∨ k = name := by
  by_cases h : name ∈ ks
  · rw [named, if_pos h, or_iff_left_of_imp]
    rintro rfl
    exact h
  · rw [named, if_neg h, List.mem_append, List.mem_singleton]

theorem mem_foldl_named {ks names : List String} {k : String} :
    k ∈ names.foldl named ks ↔ k ∈ ks ∨ k ∈ names := by
  induction names generalizing ks with
  | nil => simp
  | cons name names ih => rw [List.foldl_cons, ih, mem_named, List.mem_cons, or_assoc]

theorem keys_write (name value : String) (as : Attributes) :
    keys (write name value as) = named (keys as) name := by
  unfold named
  induction as with
  | nil => rfl
  | cons a as ih =>
      rw [write]
      by_cases ha : a.1 = name
      · simp [keys, ha]
      · -- the name is not the first one, so it is there if it is among the others
        have hmem : name ∈ keys (a :: as) ↔ name ∈ keys as := by
          simp [keys, Ne.symm ha]
        rw [if_neg ha]
        simp only [hmem]
        by_cases h : name ∈ keys as
        · rw [if_pos h] at ih ⊢
          simpa [keys] using ih
        · rw [if_neg h] at ih ⊢
          simpa [keys] using ih

theorem nodup_write (name value : String) {as : Attributes} (h : (keys as).Nodup) :
    (keys (write name value as)).Nodup := by
  rw [keys_write, named]
  by_cases hmem : name ∈ keys as
  · rwa [if_pos hmem]
  · rw [if_neg hmem]
    refine List.nodup_append.mpr ⟨h, by simp, ?_⟩
    rintro a ha b hb rfl
    exact hmem (List.mem_singleton.mp hb ▸ ha)

theorem write_of_notMem {name : String} (value : String) {as : Attributes}
    (h : name ∉ keys as) : write name value as = as ++ [(name, value)] := by
  induction as with
  | nil => rfl
  | cons a as ih =>
      simp only [keys, List.map_cons, List.mem_cons, not_or] at h
      rw [write, if_neg (Ne.symm h.1), ih h.2]
      rfl

theorem foldl_write {as written : Attributes} (h : (keys (written ++ as)).Nodup) :
    as.foldl (fun acc a => write a.1 a.2 acc) written = written ++ as := by
  induction as generalizing written with
  | nil => simp
  | cons a as ih =>
      have hnot : a.1 ∉ keys written := by
        intro hmem
        rw [keys, List.map_append, List.nodup_append] at h
        exact h.2.2 a.1 hmem a.1 (by simp) rfl
      rw [List.foldl_cons, write_of_notMem _ hnot, ih (by simpa using h)]
      simp

theorem value?_remove (name : String) (as : Attributes) (k : String) :
    value? (remove name as) k = if k = name then none else value? as k := by
  induction as with
  | nil => simp [remove, value?]
  | cons a as ih =>
      simp only [remove] at ih
      by_cases ha : a.1 = name
      · rw [remove, List.filter_cons_of_neg (by simp [ha]), ih, value?_cons]
        by_cases hk : k = name
        · simp [hk]
        · simp [hk, ha]
      · rw [remove, List.filter_cons_of_pos (by simp [ha]), value?_cons, value?_cons, ih]
        by_cases hk : k = a.1
        · simp [hk, ha]
        · simp [hk]

theorem nodup_remove (name : String) {as : Attributes} (h : (keys as).Nodup) :
    (keys (remove name as)).Nodup :=
  h.sublist (List.filter_sublist.map Prod.fst)

theorem mem_iff_value? {as : Attributes} (h : (keys as).Nodup) (name value : String) :
    (name, value) ∈ as ↔ value? as name = some value := by
  induction as with
  | nil => simp [value?]
  | cons a as ih =>
      obtain ⟨hnot, hrest⟩ := List.nodup_cons.mp h
      rw [value?_cons, List.mem_cons, ih hrest]
      by_cases hk : name = a.1
      · subst hk
        have hnone : value? as a.1 ≠ some value := fun hv =>
          hnot (List.mem_map.mpr ⟨(a.1, value), (ih hrest).mpr hv, rfl⟩)
        simp [hnone, Prod.ext_iff, eq_comm]
      · have hne : (name, value) ≠ a := fun heq => hk (congrArg Prod.fst heq)
        simp [hk, hne]

theorem value?_of_perm {as bs : Attributes} (h : as.Perm bs) (ha : (keys as).Nodup)
    (name : String) : value? as name = value? bs name := by
  have hb : (keys bs).Nodup := (h.map Prod.fst).nodup_iff.mp ha
  refine Option.ext fun value => ?_
  rw [← mem_iff_value? ha, ← mem_iff_value? hb, h.mem_iff]

/-- Attributes of distinct names with the same values are the same up to their
order. -/
theorem perm_of_value? {as bs : Attributes} (ha : (keys as).Nodup) (hb : (keys bs).Nodup)
    (h : ∀ name, value? as name = value? bs name) : as.Perm bs := by
  refine (List.perm_ext_iff_of_nodup (List.Nodup.of_map Prod.fst ha)
    (List.Nodup.of_map Prod.fst hb)).mpr ?_
  rintro ⟨name, value⟩
  rw [mem_iff_value? ha, mem_iff_value? hb, h]

end Attributes

end LiveMarkup
