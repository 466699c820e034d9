import Stencil.Proofs.FloatingPoint
import Stencil.Value.Operation

/-!
# Equality and order of values agree

Equality across kinds and the order of values are two functions that choose between truth, numbers
and texts each in their own way. Next to no list and no map they choose alike: two values are equal
just if they are in the order of equals. So at most one of being less, equal and greater holds, and
exactly one where the order is defined. Both functions are symmetric, and values of one kind with
the same content are equal. For this a text must not spell what is no number, since that is not
equal to itself.

## Main results

* `Value.same_comm`, `Value.looseEq_comm`: both equalities are symmetric.
* `Value.compare?_swap`: the order of two values read from the other side.
* `Value.looseEq_eq_compare?`: equality is the order of equals.
* `Value.compare?_of_same`: equal content puts two values in the order of equals.
* `Value.comparisons_agree`: the comparisons of conditions taken together.
-/

namespace Stencil

/-! ### The orders of numbers and of texts -/

theorem compareFloats?_swap (x y : Float) :
    compareFloats? y x = (compareFloats? x y).map Ordering.swap := by
  rw [compareFloats?, compareFloats?]
  cases decide (x ≤ y) <;> cases decide (y ≤ x) <;> rfl

theorem compareFloats?_of_beq {x y : Float} (h : x == y) : compareFloats? x y = some .eq := by
  rw [compareFloats?, decide_eq_true (FloatingPoint.le_of_beq h),
    decide_eq_true (FloatingPoint.le_of_beq (BEq.symm h))]

/-- The order of texts is the one of the library. -/
theorem compareTexts_eq (s t : String) : compareTexts s t = compare s t :=
  (LinearOrder.compare_eq_compareOfLessAndEq s t).symm

theorem compareTexts_swap (s t : String) : compareTexts t s = (compareTexts s t).swap := by
  rw [compareTexts_eq, compareTexts_eq]
  exact Std.OrientedOrd.eq_swap

theorem compareTexts_eq_iff {s t : String} : compareTexts s t = .eq ↔ s = t := by
  rw [compareTexts_eq, compare_eq_iff_eq]

namespace Number

theorem compare?_swap (x y : Number) : y.compare? x = (x.compare? y).map Ordering.swap := by
  cases x with
  | int m =>
    cases y with
    | int n => exact congrArg some Std.OrientedOrd.eq_swap
    | float y => exact compareFloats?_swap _ _
  | float x => cases y <;> exact compareFloats?_swap _ _

theorem toLower_of_isDigit {c : Char} (h : c.isDigit) : c.toLower = c := by
  rw [Char.isDigit, Bool.and_eq_true, decide_eq_true_iff, decide_eq_true_iff] at h
  exact dif_neg fun hupper ↦ absurd (UInt32.le_trans hupper.1 h.2) (by decide)

/-- A text spells no number that differs from itself. -/
theorem compare?_self_of_ofText? {s : String} {x : Number} (h : ofText? s = some x) :
    x.compare? x = some .eq := by
  rw [ofText?] at h
  split at h
  · obtain rfl := Option.some.inj h
    exact congrArg some (Std.ReflOrd.compare_self)
  split at h
  · rename_i hchars
    obtain ⟨y, hy, rfl⟩ := Option.map_eq_some_iff.mp h
    have hletter : ∀ c ∈ Text.trim s.toList, c.toLower ≠ 'n' := by
      intro c hc
      rcases Bool.or_eq_true_iff.mp (List.all_eq_true.mp hchars.2 c hc) with hdigit | hmark
      · rw [toLower_of_isDigit hdigit]
        rintro rfl
        nomatch hdigit
      · rw [List.contains_iff_mem] at hmark
        fin_cases hmark <;> decide
    have hnan := Decimal.ne_nan_of_read? hletter hy
    exact compareFloats?_of_beq (Float.beq_self_iff.mpr hnan)
  · nomatch h

end Number

/-! ### Equal content -/

namespace Value

mutual

theorem same_comm : ∀ a b : Value, a.same b = b.same a
  | null, b => by cases b <;> rfl
  | bool _, b => by
    cases b with
    | bool => exact BEq.comm
    | _ => rfl
  | int _, b => by
    cases b with
    | int => exact BEq.comm
    | _ => rfl
  | float _, b => by
    cases b with
    | float => exact BEq.comm
    | _ => rfl
  | text _, b => by
    cases b with
    | text => exact BEq.comm
    | _ => rfl
  | list as, b => by
    cases b with
    | list bs => exact sameItems_comm as bs
    | _ => rfl
  | map as, b => by
    cases b with
    | map bs => exact sameEntries_comm as bs
    | _ => rfl

theorem sameItems_comm : ∀ as bs : List Value, sameItems as bs = sameItems bs as
  | [], bs => by cases bs <;> rfl
  | a :: as, [] => rfl
  | a :: as, b :: bs => by rw [sameItems, sameItems, same_comm a b, sameItems_comm as bs]

theorem sameEntries_comm : ∀ as bs : List (String × Value), sameEntries as bs = sameEntries bs as
  | [], bs => by cases bs <;> rfl
  | a :: as, [] => rfl
  | (j, a) :: as, (k, b) :: bs => by
    rw [sameEntries, sameEntries, BEq.comm, same_comm a b, sameEntries_comm as bs]

end

variable {a b : Value}

/-! ### The order of values -/

theorem compare?_swap (a b : Value) : b.compare? a = (a.compare? b).map Ordering.swap := by
  rw [compare?, compare?, Bool.and_comm, Bool.or_comm]
  split
  · cases a.number? with
    | none => cases b.number? <;> rfl
    | some x =>
      cases b.number? with
      | none => rfl
      | some y => exact Number.compare?_swap x y
  split
  · exact congrArg some Std.OrientedOrd.eq_swap
  · exact congrArg some (compareTexts_swap _ _)

theorem isNumeric_of_isTruth (h : a.isTruth) : a.isNumeric = false := by
  cases a with
  | null | bool => rfl
  | _ => nomatch h

/-- Equal content puts two values in the order of equals. -/
theorem compare?_of_same (ha : a.isCollection = false) (h : a.same b) :
    a.compare? b = some .eq := by
  cases a with
  | null =>
    cases b with
    | null => rfl
    | _ => nomatch h
  | bool p =>
    cases b with
    | bool q =>
      obtain rfl := eq_of_beq h
      exact congrArg some Std.ReflOrd.compare_self
    | _ => nomatch h
  | int m =>
    cases b with
    | int n =>
      obtain rfl := eq_of_beq h
      exact congrArg some Std.ReflOrd.compare_self
    | _ => nomatch h
  | float x =>
    cases b with
    | float y => exact compareFloats?_of_beq h
    | _ => nomatch h
  | text s =>
    cases b with
    | text t =>
      obtain rfl := eq_of_beq h
      -- a text that spells a number is compared by the number, which must be equal to itself
      rw [compare?, Bool.and_self]
      split
      · rename_i hnumeric
        obtain ⟨x, hx⟩ := Option.isSome_iff_exists.mp hnumeric
        rw [number?, hx]
        exact Number.compare?_self_of_ofText? hx
      · exact congrArg some (compareTexts_eq_iff.mpr rfl)
    | _ => nomatch h
  | list | map => nomatch ha

/-! ### The equality of values -/

theorem looseEq_comm (a b : Value) : a.looseEq b = b.looseEq a := by
  rw [looseEq, looseEq, Bool.or_comm a.isTruth, Bool.or_comm a.isCollection,
    Bool.and_comm a.isNumeric]
  split
  · exact BEq.comm
  split
  · exact same_comm a b
  split
  · rw [compare?_swap a b]
    cases a.compare? b with
    | none => rfl
    | some o => cases o <;> rfl
  · exact BEq.comm

/-- Next to no list and no map, equality is the order of equals. -/
theorem looseEq_eq_compare? (ha : a.isCollection = false) (hb : b.isCollection = false) :
    a.looseEq b = (a.compare? b == some .eq) := by
  rw [looseEq, ha, hb, Bool.or_self, if_neg Bool.false_ne_true]
  split
  · rename_i htruth
    have hnumeric : (a.isNumeric && b.isNumeric) = false := by
      rcases Bool.or_eq_true_iff.mp htruth with h | h
      · rw [isNumeric_of_isTruth h, Bool.false_and]
      · rw [isNumeric_of_isTruth h, Bool.and_false]
    rw [compare?, hnumeric, if_neg Bool.false_ne_true, if_pos htruth]
    cases a.truthy <;> cases b.truthy <;> rfl
  rename_i htruth
  split
  · rfl
  · rename_i hnumeric
    rw [compare?, if_neg hnumeric, if_neg htruth, Bool.eq_iff_iff, beq_iff_eq, beq_iff_eq,
      Option.some_inj, compareTexts_eq_iff]

theorem isCollection_of_same (h : a.same b) : b.isCollection = a.isCollection := by
  cases a <;> cases b <;> first | rfl | nomatch h

/-- Values of one kind with the same content are equal. -/
theorem looseEq_of_same (h : a.same b) : a.looseEq b := by
  cases ha : a.isCollection with
  | false =>
    rw [looseEq_eq_compare? ha ((isCollection_of_same h).trans ha), compare?_of_same ha h]
    rfl
  | true =>
    cases a with
    | list as =>
      cases b with
      | list bs => exact h
      | _ => nomatch h
    | map as =>
      cases b with
      | map bs => exact h
      | _ => nomatch h
    | _ => nomatch ha

/-! ### The operators of conditions -/

/-- The three comparisons that exclude each other. -/
def comparisons : List BinaryOp :=
  [.lt, .eq, .gt]

section

variable (ha : a.isCollection = false) (hb : b.isCollection = false)
include ha hb

theorem binary_le_eq : binary .le a b = binary .or (binary .lt a b) (binary .eq a b) := by
  simp only [binary, looseEq_eq_compare? ha hb]
  cases a.compare? b with
  | none => rfl
  | some o => cases o <;> rfl

theorem binary_ge_eq : binary .ge a b = binary .or (binary .gt a b) (binary .eq a b) := by
  simp only [binary, looseEq_eq_compare? ha hb]
  cases a.compare? b with
  | none => rfl
  | some o => cases o <;> rfl

/-- One of the three comparisons holds where the order is defined, and else none. -/
theorem countP_comparisons :
    comparisons.countP (fun op ↦ (binary op a b).truthy) =
      if (a.compare? b).isSome then 1 else 0 := by
  simp only [comparisons, List.countP_cons, List.countP_nil, binary, looseEq_eq_compare? ha hb]
  cases a.compare? b with
  | none => rfl
  | some o => cases o <;> rfl

end

/-- Equality is symmetric and follows from equal content, and the order reads the same from both
sides. Next to no list and no map equality is the order of equals, so that the comparisons fit
together as those of a linear order do, where the order is defined. -/
theorem comparisons_agree (a b : Value) :
    a.looseEq b = b.looseEq a ∧ (a.same b → a.looseEq b) ∧
    b.compare? a = (a.compare? b).map Ordering.swap ∧
    (a.isCollection = false → b.isCollection = false →
      (a.looseEq b ↔ a.compare? b = some .eq) ∧
      binary .le a b = binary .or (binary .lt a b) (binary .eq a b) ∧
      binary .ge a b = binary .or (binary .gt a b) (binary .eq a b) ∧
      comparisons.countP (fun op ↦ (binary op a b).truthy) =
        if (a.compare? b).isSome then 1 else 0) := by
  refine ⟨looseEq_comm a b, looseEq_of_same, compare?_swap a b, fun ha hb ↦ ?_⟩
  have hequal : a.looseEq b ↔ a.compare? b = some .eq := by
    rw [looseEq_eq_compare? ha hb, beq_iff_eq]
  exact ⟨hequal, binary_le_eq ha hb, binary_ge_eq ha hb, countP_comparisons ha hb⟩

/-- The two zeros of floating point, which have the same content, and neither of which holds other
values. -/
theorem comparisons_agree_zeros :
    (float 0).same (float (-0)) ∧ (float 0).looseEq (float (-0)) ∧
      (float 0).isCollection = false ∧ (float (-0)).isCollection = false ∧
      ((float 0).looseEq (float (-0)) ↔ (float 0).compare? (float (-0)) = some .eq) ∧
      binary .le (float 0) (float (-0)) =
        binary .or (binary .lt (float 0) (float (-0))) (binary .eq (float 0) (float (-0))) ∧
      binary .ge (float 0) (float (-0)) =
        binary .or (binary .gt (float 0) (float (-0))) (binary .eq (float 0) (float (-0))) ∧
      comparisons.countP (fun op ↦ (binary op (float 0) (float (-0))).truthy) =
        (if ((float 0).compare? (float (-0))).isSome then 1 else 0) := by
  have hsame : (float 0).same (float (-0)) := by decide +kernel
  obtain ⟨-, hloose, -, hcompare⟩ := comparisons_agree (float 0) (float (-0))
  exact ⟨hsame, hloose hsame, rfl, rfl, hcompare rfl rfl⟩

/-- A number that is none has no place in the order. -/
example : (float Float.nan).compare? (int 0) = none ∧
    (float Float.nan).looseEq (float Float.nan) = false := by
  decide +kernel

/-- Lists are compared by their texts and equal by their items. -/
example : (list [int 1]).compare? (text "1") = some .eq ∧
    (list [int 1]).looseEq (text "1") = false := by
  decide +kernel

end Value

end Stencil
