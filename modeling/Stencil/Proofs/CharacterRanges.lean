import Stencil.Proofs.Pointers

/-!
# The characters that a report is about

A diagnostic counts bytes and its report counts characters. The place of a diagnostic is one
between two characters of its template, but the end of its bytes need not be: a diagnostic without
a token takes one byte, and there may stand a longer character. The report is about every character
that begins in the bytes of its diagnostic.

## Main definitions

* `Text.firstByte`: the byte offset at which a character of a text begins.
* `Diagnostic.InTemplate`: the place and the bytes of a diagnostic lie in the template.
* `Diagnostic.CoversCharacters`: the characters of a report are those of the bytes.

## Main results

* `Text.lt_charsBefore_iff`: which characters begin before a byte offset.
* `Diagnostic.coversCharacters`: this holds of the bytes of a diagnostic, wherever they end.
* `Program.diagnostics_cover_characters`: the diagnostics of a template and its characters.
-/

namespace Stencil

open Text (Cursor)
open Template (recorded)

namespace Text

/-- The byte offset at which the character with a number begins, characters counted from zero. -/
def firstByte (source : List Char) (i : Nat) : Nat :=
  byteLength (source.take i)

variable {cs before : List Char} {offset i : Nat}

/-- Counting the characters before a byte offset counts those that begin there. -/
theorem lt_charsBefore_iff :
    i < charsBefore offset cs ↔ i < cs.length ∧ firstByte cs i < offset := by
  induction cs generalizing offset i with
  | nil => simp [charsBefore]
  | cons c cs ih =>
    rw [charsBefore]
    split
    · simp [*]
    · cases i with
      | zero => simp [firstByte, Nat.pos_iff_ne_zero, *]
      | succ i =>
        rw [Nat.add_lt_add_iff_right, ih, List.length_cons, Nat.add_lt_add_iff_right]
        simp only [firstByte, List.take_succ_cons, byteLength_cons]
        omega

theorem charsBefore_byteLength (before after : List Char) :
    charsBefore (byteLength before) (before ++ after) = before.length := by
  induction before with
  | nil => cases after <;> simp [charsBefore]
  | cons c before ih =>
    have hpos := Char.utf8Size_pos c
    rw [List.cons_append, charsBefore, if_neg (by rw [byteLength_cons]; omega), byteLength_cons,
      Nat.add_sub_cancel_left, ih, List.length_cons]

end Text

namespace Diagnostic

variable {template : String} {n : Diagnostic} {right : List Char}

/-- The place and the bytes of a diagnostic lie in the template: it stands between two characters,
the bytes begin there, and they are none only at the end. -/
structure InTemplate (template : String) (n : Diagnostic) : Prop where
  offset_le : n.offset ≤ template.utf8ByteSize
  between : (String.Pos.Raw.mk n.offset).IsValid template
  start_eq : (n.span template).start = n.offset
  stop_le : (n.span template).stop ≤ template.utf8ByteSize
  start_lt_stop : n.offset ≠ template.utf8ByteSize → n.offset < (n.span template).stop

/-- The characters of a report are those that begin in the bytes of the diagnostic, from the
character at its place on. -/
structure CoversCharacters (template : String) (n : Diagnostic) : Prop where
  begins : ∃ before after, template.toList = before ++ after ∧
    Text.byteLength before = n.offset ∧ (n.charSpan template).start = before.length
  covers : ∀ i, ((n.charSpan template).start ≤ i ∧ i < (n.charSpan template).stop) ↔
    i < template.toList.length ∧ (n.span template).start ≤ Text.firstByte template.toList i ∧
      Text.firstByte template.toList i < (n.span template).stop

/-- What points into a template stands between two of its characters. -/
theorem Points.exists_before (h : Points right (.ofText template.toList) n) :
    ∃ before after, template.toList = before ++ after ∧ Text.byteLength before = n.offset := by
  obtain ⟨place, hleads, hoffset⟩ : ∃ place, (Cursor.ofText template.toList).Leads place ∧
      n.offset = place.offset := by
    cases h with
    | token h hoffset => exact ⟨_, h, hoffset⟩
    | equality h hoffset => exact ⟨_, h, hoffset⟩
  obtain ⟨before, hsource, hplace⟩ := Cursor.leads_ofText_iff.mp hleads
  exact ⟨before, _, hsource, (hoffset.trans hplace).symm⟩

section Stands

variable {before after : List Char} (hsource : template.toList = before ++ after)
  (hoffset : Text.byteLength before = n.offset)
include hsource hoffset

theorem span_start_eq : (n.span template).start = n.offset := by
  rw [span, Text.utf8ByteSize_eq, hsource, Text.byteLength_append]
  exact Nat.min_eq_left (by omega)

theorem inTemplate : n.InTemplate template where
  offset_le := by
    rw [Text.utf8ByteSize_eq, hsource, Text.byteLength_append]
    omega
  between := by
    rw [← String.ofList_toList (s := template)]
    exact Text.isValid_iff_cut.mpr ⟨(before, after), Text.cut_eq_ok_iff.mpr ⟨hsource, hoffset⟩⟩
  start_eq := span_start_eq hsource hoffset
  stop_le := Nat.min_le_right _ _
  start_lt_stop := fun hne ↦ by
    have hle : n.offset ≤ template.utf8ByteSize := by
      rw [Text.utf8ByteSize_eq, hsource, Text.byteLength_append]
      omega
    simp only [span]
    omega

theorem coversCharacters : n.CoversCharacters template where
  begins := by
    refine ⟨before, after, hsource, hoffset, ?_⟩
    rw [charSpan, span_start_eq hsource hoffset, ← hoffset, hsource]
    exact Text.charsBefore_byteLength before after
  covers := fun i ↦ by
    rw [charSpan, Text.lt_charsBefore_iff, ← Nat.not_lt, Text.lt_charsBefore_iff]
    omega

end Stands

end Diagnostic

namespace Program

/-- Every diagnostic of a template stands between two of its characters, and its bytes lie in the
template; they are none only at its end. The characters of its report begin with the one at this
place, and they are those that begin in its bytes, even where the last of them ends behind these
bytes. -/
theorem diagnostics_cover_characters (d : Delimiters) (template : String) :
    ∀ n ∈ diagnostics d template, n.InTemplate template ∧ n.CoversCharacters template := by
  intro n hn
  obtain ⟨before, after, hsource, hoffset⟩ := (points_diagnostics n hn).exists_before
  exact ⟨Diagnostic.inTemplate hsource hoffset, Diagnostic.coversCharacters hsource hoffset⟩

/-- An else that is not closed, with a blank of two bytes at the place of its diagnostic: the byte
that the diagnostic takes is the first of the two, and the report is about the blank. -/
theorem diagnostics_cover_characters_wide :
    ∃ n ∈ diagnostics .standard "é\x7belse\u00a0x\x7d",
      n.span "é\x7belse\u00a0x\x7d" = ⟨7, 8⟩ ∧ n.charSpan "é\x7belse\u00a0x\x7d" = ⟨6, 7⟩ ∧
      n.InTemplate "é\x7belse\u00a0x\x7d" ∧ n.CoversCharacters "é\x7belse\u00a0x\x7d" ∧
      ¬ (String.Pos.Raw.mk 8).IsValid "é\x7belse\u00a0x\x7d" := by
  have hmap : (recorded .standard "é\x7belse\u00a0x\x7d".toList).map
      (fun n ↦ (n.offset, n.token)) = [(7, "")] := by
    decide +kernel
  have hmem : (7, "") ∈ (diagnostics .standard "é\x7belse\u00a0x\x7d").map
      (fun n ↦ (n.offset, n.token)) := by
    rw [diagnostics_eq, hmap]
    exact List.mem_singleton.mpr rfl
  obtain ⟨n, hn, hfields⟩ := List.mem_map.mp hmem
  obtain ⟨hoffset, htoken⟩ := Prod.mk.inj hfields
  have hspan : n.span "é\x7belse\u00a0x\x7d" = ⟨7, 8⟩ := by
    rw [Diagnostic.span, hoffset, htoken]
    decide
  have hparts : Text.parts? "é\x7belse\u00a0x\x7d".toList 8 = none := by
    decide
  obtain ⟨hin, hcovers⟩ := diagnostics_cover_characters _ _ n hn
  refine ⟨n, hn, hspan, ?_, hin, hcovers, fun hvalid ↦ ?_⟩
  · rw [Diagnostic.charSpan, hspan]
    decide
  · rw [← String.ofList_toList (s := "é\x7belse\u00a0x\x7d")] at hvalid
    obtain ⟨r, hr⟩ := Text.isValid_iff_cut.mp hvalid
    rw [Text.cut, hparts] at hr
    cases hr

end Program

end Stencil
