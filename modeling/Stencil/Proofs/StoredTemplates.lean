import Mathlib
import Stencil.Proofs.StoredPrograms

/-!
# Stored templates

A template that compiles can be stored and loaded as far as its floating-point literals can. The
text of a number that is not finite is null, and the reader of numbers scales their digits in
floating point, so that the last bit may be lost: such literals are loaded as something else, and
the loaded program may render differently.

## Main definitions

* `Value.readsBack`: whether a floating-point number is read from its text as itself.

## Main results

* `Program.offset_le_of_compile`: warnings are about places in the template.
* `Program.load_store_of_compile`: a compiled program is loaded as an equal one that renders the
  same exactly when each of its floating-point literals reads back.
-/

namespace Stencil

/-! ### Numbers that read back -/

namespace Value

/-- The floating-point number that a value is. -/
def float? : Value → Option Float
  | float x => some x
  | _ => none

/-- Whether a floating-point number is read from its text as itself. -/
def readsBack (x : Float) : Bool :=
  decide ((float x).reread?.bind float? = some x)

theorem readsBack_iff {x : Float} : readsBack x = true ↔ (float x).reread? = some (float x) := by
  rw [readsBack, decide_eq_true_iff, Option.bind_eq_some_iff]
  constructor
  · rintro ⟨w, hw, hx⟩
    cases w with
    | float y => exact Option.some.inj hx ▸ hw
    | _ => cases hx
  · exact fun h ↦ ⟨_, h, rfl⟩

/-- Literals of too many digits are infinite, and are loaded as null. -/
example : readsBack Decimal.infinity = false := by
  decide +kernel

/-- A number that is read as an equal one is read as itself: zeros keep their sign. -/
theorem readsBack_of_same {x : Float} {w : Value} (hw : (float x).reread? = some w)
    (hsame : w.same (float x) = true) : readsBack x = true := by
  cases w with
  | float y =>
    -- equal numbers differ at most in the sign of zero, and both zeros read back
    obtain ⟨-, -, rfl | ⟨-, rfl⟩ | ⟨-, rfl⟩⟩ := Float.beq_iff_ne_nan_and_eq.mp hsame
    · exact readsBack_iff.mpr hw
    · decide +kernel
    · decide +kernel
  | _ => cases hsame

theorem ne_nan_of_readsBack {x : Float} (h : readsBack x = true) : x ≠ Float.nan := by
  rintro rfl
  exact absurd h (by decide +kernel)

/-- What is no collection is read as itself and equals itself, if it is no floating-point number
that fails to. -/
theorem reread?_of_readsBack {v : Value} (hscalar : v.isCollection = false)
    (hfloat : ∀ x, v = float x → readsBack x = true) : v.reread? = some v ∧ v.same v = true := by
  cases v with
  | float x =>
    have hback := hfloat x rfl
    exact ⟨readsBack_iff.mp hback, Float.beq_self_iff.mpr (ne_nan_of_readsBack hback)⟩
  | list => cases hscalar
  | map => cases hscalar
  | int n => exact ⟨reread?_int n, beq_self_eq_true n⟩
  | _ => exact ⟨rfl, by simp [same]⟩

end Value

/-! ### Warnings lie in the template -/

namespace Token

variable {right : List Char} {c next : Text.Cursor} {body : List Token}

/-- The tokens of a condition lie in its source. -/
theorem Closes.offset_le (h : Closes right c body next) : ∀ t ∈ body, t.offset ≤ c.total := by
  induction h with
  | close => exact List.forall_mem_nil _
  | @token c l body next hclose hl hr ih =>
    have htotal : c.skipBlanks.total = c.total := by
      rw [Text.Cursor.skipBlanks, Text.Cursor.total_advance]
    rw [Text.Cursor.total_advance, htotal] at ih
    exact List.forall_mem_cons.mpr ⟨htotal ▸ Nat.le_add_right _ _, ih⟩

end Token

namespace Template

variable {d : Delimiters} {right : List Char} {c next : Text.Cursor} {t : Tag} {spans : List Span}
  {notes : Log}

theorem offset_le_of_mem_warnings {body : List Token} {k : Nat} (h : ∀ t ∈ body, t.offset ≤ k) :
    ∀ w ∈ Condition.warnings body, w.offset ≤ k := by
  intro w hw
  obtain ⟨t, ht, rfl⟩ := List.mem_map.mp hw
  exact h t (List.mem_of_mem_filter ht)

theorem Tag.At.offset_le (h : Tag.At right c t notes next) : ∀ w ∈ notes, w.offset ≤ c.total := by
  cases h with
  | ifTrue _ h | elseIf _ h =>
    rw [← Text.Cursor.total_advance]
    exact offset_le_of_mem_warnings h.closes.offset_le
  | _ => exact List.forall_mem_nil _

/-- What there is to say about a template is about places in it. -/
theorem Splits.offset_le (h : Splits d c spans notes) : ∀ w ∈ notes, w.offset ≤ c.total := by
  induction h with
  | done | dangling => exact List.forall_mem_nil _
  | char h hleft hr ih => rwa [Text.Cursor.total_advance] at ih
  | untagged hleft hne h hr ih => rwa [Text.Cursor.total_advance] at ih
  | tag hleft h hsource hr ih =>
    have hwarned := h.offset_le
    rw [h.total_eq] at ih
    rw [Text.Cursor.total_advance] at ih hwarned
    exact List.forall_mem_append.mpr ⟨hwarned, ih⟩

end Template

/-! ### Templates that compile -/

namespace Program

open Template

variable {d : Delimiters} {template : String} {p : Program}

/-- Warnings are about places in the template. -/
theorem offset_le_of_compile (h : compile d template = .ok p) :
    ∀ w ∈ p.warnings, w.offset ≤ Text.byteLength template.toList := by
  obtain ⟨spans, notes, hsplits, -, rfl⟩ := compile_eq_ok_iff.mp h
  have hle := hsplits.offset_le
  rwa [Text.Cursor.total, Text.Cursor.ofText, Nat.zero_add] at hle

/-- What is loaded from the text of a program that was compiled. -/
theorem load_store_eq (h : compile d template = .ok p)
    (hsize : Text.byteLength template.toList < 2 ^ 64) :
    load p.store = match p.mapLiterals? Value.reread? with
      | some q => .ok q
      | none => .error .malformed :=
  load_store fun w hw ↦ Nat.lt_of_le_of_lt (offset_le_of_compile h w hw) hsize

/-- A program that was compiled is loaded from its text as an equal one that renders the same in
every context, exactly when each of its floating-point literals reads back. All other literals
do. -/
theorem load_store_of_compile (h : compile d template = .ok p)
    (hsize : Text.byteLength template.toList < 2 ^ 64) :
    (∃ q, load p.store = .ok q ∧ q.same p = true ∧
        ∀ context, q.render context = p.render context) ↔
      ∀ x, .float x ∈ p.literals → Value.readsBack x = true := by
  have hload := load_store_eq h hsize
  constructor
  · rintro ⟨q, hq, hsame, -⟩ x hx
    have hmap : p.mapLiterals? Value.reread? = some q := by
      rw [hload] at hq
      split at hq
      · rwa [← Except.ok.inj hq]
      · cases hq
    obtain ⟨w, hw, hsame⟩ := literals_of_same hmap hsame _ hx
    exact Value.readsBack_of_same hw hsame
  · intro hfloat
    have hback (v : Value) (hv : v ∈ p.literals) : v.reread? = some v ∧ v.same v = true :=
      Value.reread?_of_readsBack (isCollection_of_compile h v hv) fun x hx ↦ hfloat x (hx ▸ hv)
    rw [mapLiterals?_eq_some fun v hv ↦ (hback v hv).1] at hload
    exact ⟨p, hload, same_self fun v hv ↦ (hback v hv).2, fun _ ↦ rfl⟩

/-- A decimal literal, and a hexadecimal one past the range of integers, that read back. -/
theorem load_store_of_compile_wide :
    ∃ p q, compile .standard
        "\x7bif %x > 2.5 && %y != 0xffffffffffffffffff\x7dy\x7b/if\x7d" = .ok p ∧
      load p.store = .ok q ∧ q.same p = true ∧
        ∀ context, q.render context = p.render context := by
  have hchecked : (match compile .standard
        "\x7bif %x > 2.5 && %y != 0xffffffffffffffffff\x7dy\x7b/if\x7d" with
      | .ok p => p.literals.all (·.float?.all Value.readsBack)
      | .error _ => false) = true := by
    decide +kernel
  cases hp : compile .standard "\x7bif %x > 2.5 && %y != 0xffffffffffffffffff\x7dy\x7b/if\x7d" with
  | error log =>
    rw [hp] at hchecked
    cases hchecked
  | ok p =>
    rw [hp] at hchecked
    obtain ⟨q, hq⟩ := (load_store_of_compile hp (by decide +kernel)).mpr fun x hx ↦
      List.all_eq_true.mp hchecked _ hx
    exact ⟨p, q, rfl, hq⟩

/-- A literal that is loaded as its neighbour: the condition is true before the program is stored
and false afterwards. -/
theorem load_store_differs :
    ∃ p q, compile .standard
        "\x7bif 91.52275337081997 == '91.52275337081997'\x7dy\x7b/if\x7d" = .ok p ∧
      load p.store = .ok q ∧ q.same p = false ∧ p.render .empty = "y" ∧ q.render .empty = "" := by
  have hchecked : (match compile .standard
        "\x7bif 91.52275337081997 == '91.52275337081997'\x7dy\x7b/if\x7d" with
      | .ok p => (p.mapLiterals? Value.reread?).map fun q ↦
          (q.same p, p.render .empty, q.render .empty)
      | .error _ => none) = some (false, "y", "") := by
    decide +kernel
  cases hp : compile .standard
      "\x7bif 91.52275337081997 == '91.52275337081997'\x7dy\x7b/if\x7d" with
  | error log =>
    rw [hp] at hchecked
    cases hchecked
  | ok p =>
    rw [hp] at hchecked
    obtain ⟨q, hq, heq⟩ := Option.map_eq_some_iff.mp hchecked
    simp only [Prod.mk.injEq] at heq
    refine ⟨p, q, rfl, ?_, heq⟩
    rw [load_store_eq hp (by decide +kernel), hq]

end Program

end Stencil
