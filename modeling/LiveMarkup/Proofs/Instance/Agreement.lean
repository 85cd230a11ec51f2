import LiveMarkup.Proofs.Document.Scene
import LiveMarkup.Proofs.Template.Spots

/-!
# Values that agree

Two values agree if they are equal or the same; they need not be the same where
the sign of zero is concerned, and not equal where there is something that is
not a number. Values that agree have the same text, take away the same
attributes and make properties that are alike, so that a binding says the same
whichever of them feed it.
-/

namespace LiveMarkup

theorem Number.text_of_equals {x y : Number} (h : x.equals y = true) : x.text = y.text := by
  simp only [equals, Bool.and_eq_true, Bool.or_eq_true, Bool.not_eq_true', beq_iff_eq] at h
  obtain ⟨⟨hx, hy⟩, hbits | ⟨hzero, hzero'⟩⟩ := h
  · cases x
    cases y
    cases hbits
    rfl
  · -- a zero is no infinity and has no sign
    have htext : ∀ {z : Number}, z.isNaN = false → z.isZero = true → z.text = "0" := by
      intro z hz hmagnitude
      have hfinite : z.isInfinite = false := by
        rw [isZero, beq_iff_eq] at hmagnitude
        rw [isInfinite, hmagnitude]
        rfl
      simp [text, hz, hmagnitude, hfinite]
    rw [htext hx hzero, htext hy hzero']

/-! ## Property values -/

namespace PropertyValue

mutual

/-- Whether nothing in a property value is not a number. -/
def nanFree : PropertyValue → Bool
  | .number x => !x.isNaN
  | .list items => nanFreeAll items
  | .undefined | .null | .bool _ | .str _ | .node _ => true

def nanFreeAll : List PropertyValue → Bool
  | [] => true
  | v :: vs => nanFree v && nanFreeAll vs

end

mutual

theorem equals_of_alike : ∀ {v w : PropertyValue}, v.alike w = true → w.nanFree = true →
    v.equals w = true
  | undefined, w, h, _ => by cases w <;> simp_all [alike, equals]
  | null, w, h, _ => by cases w <;> simp_all [alike, equals]
  | bool a, w, h, _ => by cases w <;> simp_all [alike, equals]
  | str a, w, h, _ => by cases w <;> simp_all [alike, equals]
  | node a, w, h, _ => by cases w <;> simp_all [alike, equals]
  | number a, w, h, hfree => by
      cases w with
      | number b =>
          rw [nanFree, Bool.not_eq_true'] at hfree
          simpa [alike, Number.alike, equals, hfree] using h
      | _ => simp [alike] at h
  | list as, w, h, hfree => by
      cases w with
      | list bs =>
          rw [alike] at h
          rw [equals]
          exact equalsAll_of_alikeAll h hfree
      | _ => simp [alike] at h

theorem equalsAll_of_alikeAll : ∀ {vs ws : List PropertyValue}, alikeAll vs ws = true →
    nanFreeAll ws = true → equalsAll vs ws = true
  | [], [], _, _ => rfl
  | [], _ :: _, h, _ => by simp [alikeAll] at h
  | _ :: _, [], h, _ => by simp [alikeAll] at h
  | v :: vs, w :: ws, h, hfree => by
      rw [alikeAll, Bool.and_eq_true] at h
      rw [nanFreeAll, Bool.and_eq_true] at hfree
      rw [equalsAll, equals_of_alike h.1 hfree.1, equalsAll_of_alikeAll h.2 hfree.2]
      rfl

end

mutual

theorem nanFree_of_alike : ∀ {v w : PropertyValue}, v.alike w = true → v.nanFree = true →
    w.nanFree = true
  | undefined, w, h, _ => by cases w <;> simp_all [alike, nanFree]
  | null, w, h, _ => by cases w <;> simp_all [alike, nanFree]
  | bool a, w, h, _ => by cases w <;> simp_all [alike, nanFree]
  | str a, w, h, _ => by cases w <;> simp_all [alike, nanFree]
  | node a, w, h, _ => by cases w <;> simp_all [alike, nanFree]
  | number a, w, h, hfree => by
      cases w with
      | number b =>
          rw [nanFree, Bool.not_eq_true'] at hfree ⊢
          rw [alike, Number.alike, hfree, Bool.false_and, Bool.or_false] at h
          simp only [Number.equals, Bool.and_eq_true, Bool.not_eq_true'] at h
          exact h.1.2
      | _ => simp [alike] at h
  | list as, w, h, hfree => by
      cases w with
      | list bs =>
          rw [alike] at h
          rw [nanFree] at hfree ⊢
          exact nanFreeAll_of_alikeAll h hfree
      | _ => simp [alike] at h

theorem nanFreeAll_of_alikeAll : ∀ {vs ws : List PropertyValue}, alikeAll vs ws = true →
    nanFreeAll vs = true → nanFreeAll ws = true
  | [], [], _, _ => rfl
  | [], _ :: _, h, _ => by simp [alikeAll] at h
  | _ :: _, [], h, _ => by simp [alikeAll] at h
  | v :: vs, w :: ws, h, hfree => by
      rw [alikeAll, Bool.and_eq_true] at h
      rw [nanFreeAll, Bool.and_eq_true] at hfree ⊢
      exact ⟨nanFree_of_alike h.1 hfree.1, nanFreeAll_of_alikeAll h.2 hfree.2⟩

end

end PropertyValue

/-! ## Values -/

namespace Value

mutual

theorem text_of_equals : ∀ {v w : Value}, v.equals w = true → v.text = w.text
  | .undefined, w, h => by cases w <;> simp_all [equals]
  | .null, w, h => by cases w <;> simp_all [equals]
  | .bool a, w, h => by cases w <;> simp_all [equals]
  | .str a, w, h => by cases w <;> simp_all [equals]
  | .node a, w, h => by cases w <;> simp_all [equals]
  | .shared a, w, h => by cases w <;> simp_all [equals]
  | .template s vs, w, h => by cases w <;> simp_all [equals, text]
  | .number a, w, h => by
      cases w with
      | number b =>
          rw [equals] at h
          rw [text, text, Number.text_of_equals h]
      | _ => simp [equals] at h
  | .list as, w, h => by
      cases w with
      | list bs =>
          rw [equals] at h
          rw [text, text, textAll_of_equalsAll h]
      | _ => simp [equals] at h

theorem textAll_of_equalsAll : ∀ {vs ws : List Value}, equalsAll vs ws = true →
    textAll vs = textAll ws
  | [], [], _ => rfl
  | [], _ :: _, h => by simp [equalsAll] at h
  | _ :: _, [], h => by simp [equalsAll] at h
  | v :: vs, w :: ws, h => by
      rw [equalsAll, Bool.and_eq_true] at h
      rw [textAll, textAll, text_of_equals h.1, textAll_of_equalsAll h.2]

end

mutual

theorem toProperty_equals : ∀ {v w : Value}, v.equals w = true →
    v.toProperty.equals w.toProperty = true
  | .undefined, w, h => by cases w <;> simp_all [equals, toProperty, PropertyValue.equals]
  | .null, w, h => by cases w <;> simp_all [equals, toProperty, PropertyValue.equals]
  | .bool a, w, h => by cases w <;> simp_all [equals, toProperty, PropertyValue.equals]
  | .number a, w, h => by cases w <;> simp_all [equals, toProperty, PropertyValue.equals]
  | .str a, w, h => by cases w <;> simp_all [equals, toProperty, PropertyValue.equals]
  | .node a, w, h => by cases w <;> simp_all [equals, toProperty, PropertyValue.equals]
  | .shared a, w, h => by cases w <;> simp_all [equals, toProperty, PropertyValue.equals]
  | .template s vs, w, h => by cases w <;> simp_all [equals, toProperty, PropertyValue.equals]
  | .list as, w, h => by
      cases w with
      | list bs =>
          rw [equals] at h
          rw [toProperty, toProperty, PropertyValue.equals]
          exact toPropertyAll_equalsAll h
      | _ => simp [equals] at h

theorem toPropertyAll_equalsAll : ∀ {vs ws : List Value}, equalsAll vs ws = true →
    PropertyValue.equalsAll (toPropertyAll vs) (toPropertyAll ws) = true
  | [], [], _ => rfl
  | [], _ :: _, h => by simp [equalsAll] at h
  | _ :: _, [], h => by simp [equalsAll] at h
  | v :: vs, w :: ws, h => by
      rw [equalsAll, Bool.and_eq_true] at h
      rw [toPropertyAll, toPropertyAll, PropertyValue.equalsAll, toProperty_equals h.1,
        toPropertyAll_equalsAll h.2]
      rfl

end

/-- Whether two values are equal or the same. -/
def Agrees (v w : Value) : Prop :=
  v.equals w = true ∨ v = w

namespace Agrees

variable {v w : Value}

theorem refl (v : Value) : v.Agrees v := .inr rfl

theorem text (h : v.Agrees w) : v.text = w.text := by
  rcases h with h | rfl
  · exact text_of_equals h
  · rfl

theorem isTextLike (h : v.Agrees w) : v.isTextLike = w.isTextLike := by
  rcases h with h | rfl
  · cases v <;> cases w <;> first | rfl | simp [equals] at h
  · rfl

theorem isRemoval (h : v.Agrees w) : v.isRemoval = w.isRemoval := by
  rcases h with h | rfl
  · cases v <;> cases w <;> first | rfl | simp_all [equals]
  · rfl

theorem toProperty (h : v.Agrees w) : v.toProperty.alike w.toProperty = true := by
  rcases h with h | rfl
  · exact PropertyValue.alike_of_equals (toProperty_equals h)
  · exact PropertyValue.alike_refl _

theorem of_template {source : CompiledTemplate} {values : List Value}
    (h : (template source values).Agrees w) :
    ∃ next, w = .template source next ∧ ∀ k, (supplied values k).Agrees (supplied next k) := by
  rcases h with h | rfl
  · cases w with
    | template source' next =>
        rw [equals, Bool.and_eq_true, decide_eq_true_eq] at h
        obtain ⟨rfl, hall⟩ := h
        refine ⟨next, rfl, fun k => ?_⟩
        induction values generalizing next k with
        | nil =>
            cases next with
            | nil => exact .refl _
            | cons => simp [equalsAll] at hall
        | cons v values ih =>
            cases next with
            | nil => simp [equalsAll] at hall
            | cons w next =>
                rw [equalsAll, Bool.and_eq_true] at hall
                cases k with
                | zero => exact .inl hall.1
                | succ k => exact ih next hall.2 k
    | _ => simp [equals] at h
  · exact ⟨values, rfl, fun _ => .refl _⟩

end Agrees

end Value

/-! ## Bindings -/

namespace AttributeBinding

variable {b : AttributeBinding} {value value' : Nat → Value}

theorem mem_numbers_of_single? {k : Nat} (h : b.single? = some k) : k ∈ b.numbers := by
  unfold single? at h
  split at h
  · rename_i index hparts
    cases h
    rw [numbers, hparts]
    exact List.mem_singleton_self _
  · cases h

theorem joined_congr (h : ∀ k ∈ b.numbers, (value k).text = (value' k).text) :
    b.joined value = b.joined value' := by
  refine congrArg String.join (List.map_congr_left fun part hpart => ?_)
  cases part with
  | literal text => rfl
  | placeholder k => exact h k (List.mem_filterMap.mpr ⟨.placeholder k, hpart, rfl⟩)

theorem attribute?_congr (h : ∀ k ∈ b.numbers, (value k).Agrees (value' k)) :
    b.attribute? value = b.attribute? value' := by
  have hjoined := b.joined_congr fun k hk => (h k hk).text
  unfold attribute?
  split
  · rename_i k hsingle
    rw [(h k (mem_numbers_of_single? hsingle)).isRemoval, hjoined]
  · rw [hjoined]

theorem property_alike (h : ∀ k ∈ b.numbers, (value k).Agrees (value' k)) :
    (b.property value).alike (b.property value') = true := by
  unfold property
  split
  · rename_i k hsingle
    exact (h k (mem_numbers_of_single? hsingle)).toProperty
  · rw [b.joined_congr fun k hk => (h k hk).text]
    exact PropertyValue.alike_refl _

end AttributeBinding

end LiveMarkup
