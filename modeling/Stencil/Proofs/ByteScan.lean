import Stencil.Proofs.ByteTags
import Stencil.Proofs.Descent
import Stencil.Proofs.OpenBlocks
import Stencil.Proofs.Unclosed

/-!
# Scanning between byte offsets

The scan of a template by a reader that knows its place as a byte offset and cuts the template there
whenever it looks at it. Every cut is between two characters, every round moves ahead, and what is
read is what the scan by characters reads.

## Main definitions

* `Bytes.step`, `Bytes.scan`: a round, and the whole scan.
* `Bytes.Measured`, `Bytes.Measures`: lengths at which a text can be cut.

## Main results

* `Bytes.step_eq`, `Bytes.run_eq`: no cut of a round fails, and none of a run.
* `Bytes.measures`: every text can be cut at all lengths that are measured in it.
* `Bytes.ends_without_miscut`: a compile comes to an end and never cuts a text at a wrong place.
-/

namespace Stencil

namespace Template

open Text (Cursor)

variable {d : Delimiters} {s s' : Scan} {n : Nat}

/-- A round that goes on ends behind the left delimiter that it found. -/
theorem lt_of_step_next (hfind : find? d.left.toList s.cursor.rest = some n)
    (hstep : step d s = .next s') : (s.cursor.advance n).offset < s'.cursor.offset := by
  cases htried : s.tried? d with
  | none =>
    rw [step_of_tried?_eq_none htried] at hstep
    simp at hstep
  | some v =>
    have hplace : v.place = s.cursor.advance n := by
      simp only [Scan.tried?, hfind] at htried
      split at htried
      · simp at htried
      · exact congrArg Tried.place (Option.some.inj htried).symm
    obtain ⟨m, hmeets⟩ := exists_meets htried
    rcases hmeets.goes with ⟨s'', hstep', hgoes⟩ | ⟨hstep', -⟩
    · obtain rfl := Round.next.inj (hstep.symm.trans hstep')
      exact hplace ▸ (hmeets.ahead hgoes).2
    · rw [hstep] at hstep'
      simp at hstep'

end Template

namespace Bytes

open Text (Cursor Miscut behind slice inBytes byteLength)
open Template (Scan Round Trial Reached find?)

variable {d : Delimiters} {source : List Char} {c : Cursor} {s s' : Scan}

/-! ### Rounds -/

/-- The scan after taking the source up to a byte offset as text. -/
def takeTo (source : List Char) (s : Scan) (stop : Nat) : Except Miscut Scan := do
  let text ← slice source s.cursor.offset stop
  let next ← place source stop
  return { s with cursor := next, tree := s.tree.addText text }

/-- The scan after a trial at a byte offset. -/
def settle (source : List Char) (s : Scan) (test : Nat) (trial : Trial) : Except Miscut Round :=
  let s := { s with blocks := trial.blocks, log := s.log ++ trial.notes }
  match trial.attempt with
  | .tag t next => .ok (.next { s with cursor := next, tree := s.tree.apply t })
  | .unmatched => do
    let rest ← behind source test
    let s ← takeTo source s (test + inBytes rest 1)
    return .next s
  | .halted => .ok (.halted s.log)

/-- A round that would not go on behind its left delimiter stops the compile. -/
def guardStall (pos : Nat) : Round → Round
  | .next s =>
    if s.cursor.offset ≤ pos then .halted (s.log.halt (Fault.stalled.locate pos)) else .next s
  | r => r

/-- One round. Of the place reached only the byte offset is used. -/
def step (d : Delimiters) (source : List Char) (s : Scan) : Except Miscut Round := do
  let rest ← behind source s.cursor.offset
  match find? d.left.toList rest with
  | none =>
    let s ← takeTo source s (byteLength source)
    return .finished s
  | some n =>
    let s ← takeTo source s (s.cursor.offset + inBytes rest n)
    let test := s.cursor.offset + byteLength d.left.toList
    if byteLength source ≤ test then
      let s ← takeTo source s (byteLength source)
      return .finished s
    else
      let trial ← readTag d.right.toList source s.blocks s.cursor.offset test
      let round ← settle source s test trial
      return guardStall s.cursor.offset round

theorem takeTo_eq (h : (Cursor.ofText source).Leads s.cursor) (n : Nat) :
    takeTo source s (s.cursor.advance n).offset = .ok (s.takeText n) := by
  rw [takeTo, Text.slice_of_leads h, Text.ok_bind,
    place_of_leads (h.trans (s.cursor.leads_advance n))]
  rfl

/-- All that is left is taken as text. -/
theorem takeTo_end (h : (Cursor.ofText source).Leads s.cursor) :
    takeTo source s (byteLength source) = .ok (s.takeText s.cursor.rest.length) := by
  rw [← Text.offset_advance_length h]
  exact takeTo_eq h _

theorem settle_eq (h : (Cursor.ofText source).Leads s.cursor) (left : List Char) (trial : Trial) :
    settle source s (s.cursor.advance left.length).offset trial =
      .ok (Template.settle left s trial) := by
  obtain ⟨attempt, blocks, notes⟩ := trial
  cases attempt with
  | unmatched =>
    have hinside := h.trans (s.cursor.leads_advance left.length)
    have hstop : (s.cursor.advance left.length).offset +
        inBytes (s.cursor.advance left.length).rest 1 =
          (s.cursor.advance (left.length + 1)).offset := by
      rw [← Template.advance_advance]
      rfl
    rw [settle]
    dsimp only
    rw [Text.behind_of_leads hinside, Text.ok_bind, hstop]
    exact congrArg (· >>= _)
      (takeTo_eq (s := { s with blocks := blocks, log := s.log ++ notes }) h (left.length + 1))
  | _ => rfl

/-- A source is left where its end is not ahead. -/
theorem byteLength_le_offset_iff (h : (Cursor.ofText source).Leads c) :
    byteLength source ≤ c.offset ↔ c.rest = [] := by
  have htotal : c.offset + byteLength c.rest = 0 + byteLength source := h.total_eq
  constructor
  · intro hle
    by_contra hne
    have hpos := Text.byteLength_pos hne
    omega
  · intro hnil
    rw [hnil, Text.byteLength_nil] at htotal
    omega

/-- The guard against standing still has nothing to do. -/
theorem guardStall_step {n : Nat} (hfind : find? d.left.toList s.cursor.rest = some n) :
    guardStall (s.cursor.advance n).offset (Template.step d s) = Template.step d s := by
  cases hstep : Template.step d s with
  | next s' => exact if_neg (Nat.not_le.mpr (Template.lt_of_step_next hfind hstep))
  | finished s' => rfl
  | halted log => rfl

/-- No cut of a round fails. -/
theorem step_eq (h : (Cursor.ofText source).Leads s.cursor) :
    step d source s = .ok (Template.step d s) := by
  rw [step, Text.behind_of_leads h, Text.ok_bind]
  cases hfind : find? d.left.toList s.cursor.rest with
  | none =>
    dsimp only
    rw [takeTo_end h, Text.ok_bind, Template.step]
    simp only [hfind]
    rfl
  | some n =>
    have hplace : (Cursor.ofText source).Leads (s.takeText n).cursor :=
      h.trans (s.cursor.leads_advance n)
    have hinside := hplace.trans ((s.takeText n).cursor.leads_advance d.left.toList.length)
    have hstop : s.cursor.offset + inBytes s.cursor.rest n = (s.cursor.advance n).offset := rfl
    have htest := (Cursor.advance_of_prefix (c := (s.takeText n).cursor)
      (Template.prefix_of_find? hfind)).2.symm
    have hround := Template.step_of_find? hfind
    dsimp only
    rw [hstop, takeTo_eq h, Text.ok_bind, htest]
    by_cases hnil : ((s.takeText n).cursor.advance d.left.toList.length).rest = []
    · rw [if_pos hnil] at hround
      rw [if_pos ((byteLength_le_offset_iff hinside).mpr hnil), takeTo_end hplace, Text.ok_bind,
        hround]
      rfl
    · rw [if_neg hnil] at hround
      rw [if_neg ((byteLength_le_offset_iff hinside).not.mpr hnil),
        readTag_eq (Template.right_ne_nil d) hinside, Text.ok_bind, settle_eq hplace, Text.ok_bind,
        ← hround]
      exact congrArg Except.ok (guardStall_step hfind)

/-! ### Runs -/

/-- A round looks at the byte offset of a place only. -/
theorem step_congr (h : c.offset = s.cursor.offset) :
    step d source s = step d source { s with cursor := c } := by
  obtain ⟨⟨offset, rest⟩, log, blocks, tree⟩ := s
  obtain rfl : c.offset = offset := h
  rfl

theorem lt_of_step (h : step d source s = .ok (.next s')) :
    s.cursor.offset < s'.cursor.offset ∧ s'.cursor.offset ≤ byteLength source := by
  cases hrest : behind source s.cursor.offset with
  | error e =>
    rw [step, hrest] at h
    cases h
  | ok rest =>
    obtain ⟨as, rfl, hoffset⟩ := Text.eq_of_behind hrest
    have hleads : (Cursor.ofText (as ++ rest)).Leads ⟨s.cursor.offset, rest⟩ :=
      Cursor.leads_ofText_iff.mpr ⟨as, rfl, hoffset.symm⟩
    rw [step_congr (c := ⟨s.cursor.offset, rest⟩) rfl, step_eq hleads] at h
    obtain ⟨hahead, hlt⟩ := Template.ahead_of_step_next (Except.ok.inj h)
    have htotal : s'.cursor.offset + byteLength s'.cursor.rest = 0 + byteLength (as ++ rest) :=
      (hleads.trans hahead).total_eq
    exact ⟨hlt, by omega⟩

/-- All rounds of a scan. -/
def run (d : Delimiters) (source : List Char) (s : Scan) : Except Miscut (Except Log Scan) :=
  match _h : step d source s with
  | .error e => .error e
  | .ok (.finished s') => .ok (.ok s')
  | .ok (.halted log) => .ok (.error log)
  | .ok (.next s') => run d source s'
termination_by byteLength source - s.cursor.offset
decreasing_by
  obtain ⟨hlt, hle⟩ := lt_of_step _h
  omega

/-- The scan of a whole template. -/
def scan (d : Delimiters) (template : List Char) : Except Miscut (Except Log Scan) :=
  run d template (.start template)

/-- No cut of a run fails. -/
theorem run_eq (h : (Cursor.ofText source).Leads s.cursor) :
    run d source s = .ok (Template.run d (byteLength source) s) := by
  induction hleft : byteLength source - s.cursor.offset using Nat.strong_induction_on
    generalizing s with
  | _ left ih =>
    have hround := step_eq (d := d) h
    rw [Template.run]
    rcases Template.step_cases d s with ⟨-, hstep⟩ | ⟨v, -, -, hstep⟩ |
      ⟨v, s', -, -, hstep, hahead, hlt⟩
    · rw [hstep] at hround ⊢
      rw [run]
      split <;> rename_i hround' <;> rw [hround] at hround' <;> cases hround'
      rfl
    · rw [hstep] at hround ⊢
      rw [run]
      split <;> rename_i hround' <;> rw [hround] at hround' <;> cases hround'
      rfl
    · rw [hstep] at hround ⊢
      obtain ⟨-, hle⟩ := lt_of_step hround
      simp only [hlt, hle, and_self, if_true]
      rw [run]
      split <;> rename_i hround' <;> rw [hround] at hround' <;> cases hround'
      exact ih _ (by omega) (h.trans hahead) rfl

theorem scan_eq (d : Delimiters) (template : List Char) :
    scan d template = .ok (Template.scan d template) :=
  run_eq (.refl _)

theorem leads_of_reached {template : List Char} (h : Reached d template s) :
    (Cursor.ofText template).Leads s.cursor := by
  induction h with
  | start => exact .refl _
  | next h hstep ih => exact ih.trans (Template.ahead_of_step_next hstep).1
  | finished h hstep ih => exact ih.trans (Template.leads_of_step_finished hstep)

/-! ### Measures -/

/-- A length at which a text can be cut, or none. -/
def Measured (cs : List Char) (n? : Except Miscut (Option Nat)) : Prop :=
  ∃ r, n? = .ok r ∧ ∀ n ∈ r, (String.Pos.Raw.mk n).IsValid (String.ofList cs)

/-- A text can be cut at all the lengths that are measured in it, and paths are cut out of it and
taken apart. -/
structure Measures (right cs : List Char) : Prop where
  word : Measured cs (.ok (some (wordLength cs)))
  digits : Measured cs (.ok (some (digitsLength cs)))
  quoted : Measured cs (.ok (quotedLength? cs))
  selector : Measured cs (.ok (selectorLength? cs))
  bracket : Measured cs (bracketLength? cs)
  steps : Measured cs ((stepsFrom cs 0).map some)
  path : Measured cs (pathLength? cs)
  hexTail : Measured cs (.ok (hexTailLength? cs))
  fraction : Measured cs (.ok (fractionLength? cs))
  number : Measured cs (numberLength? cs)
  other : Measured cs ((otherFrom right cs 0 cs).map some)
  compile : compile? cs = .ok (Path.compile? cs)
  atStart : atStart? cs = .ok ((Path.atStart? cs).map fun r ↦ (r.1, inBytes cs r.2))

theorem measured_of_eq {cs : List Char} {n? : Except Miscut (Option Nat)} {k : Option Nat}
    (h : n? = .ok (k.map (inBytes cs))) : Measured cs n? := by
  refine ⟨_, h, fun n hn ↦ ?_⟩
  obtain ⟨m, -, rfl⟩ := Option.map_eq_some_iff.mp hn
  have hparts : cs = cs.take m ++ cs.drop m := (List.take_append_drop m cs).symm
  exact Text.isValid_iff_cut.mpr ⟨_, Text.cut_eq_ok_iff.mpr ⟨hparts, rfl⟩⟩

theorem measured_word (cs : List Char) : Measured cs (.ok (some (wordLength cs))) := by
  obtain ⟨hword, hbytes⟩ := wordLength_eq cs
  exact measured_of_eq (k := some (Text.wordLength cs)) (by rw [Option.map_some, hbytes, hword])

theorem measured_digits (cs : List Char) : Measured cs (.ok (some (digitsLength cs))) := by
  obtain ⟨hdigits, hbytes⟩ := digitsLength_eq cs
  exact measured_of_eq (k := some (Text.digitsLength cs)) (by rw [Option.map_some, hbytes, hdigits])

theorem measured_steps (cs : List Char) : Measured cs ((stepsFrom cs 0).map some) := by
  have hsteps := stepsFrom_eq [] cs
  rw [List.nil_append, Text.byteLength_nil, Nat.zero_add] at hsteps
  exact measured_of_eq (k := some (Text.stepsLength cs)) (by rw [hsteps]; rfl)

theorem measured_other (right cs : List Char) :
    Measured cs ((otherFrom right cs 0 cs).map some) := by
  cases cs with
  | nil => exact measured_of_eq (k := some 0) rfl
  | cons a rest =>
    cases hblank : Text.isBlank a with
    | true =>
      refine measured_of_eq (k := some 0) ?_
      rw [otherFrom, if_pos hblank, Option.map_some, Text.inBytes_zero]
      rfl
    | false =>
      refine measured_of_eq (k := some (Token.plainLength right rest + 1)) ?_
      rw [otherFrom_zero hblank]
      rfl

/-- Every text can be cut at all lengths that are measured in it. -/
theorem measures (right cs : List Char) : Measures right cs where
  word := measured_word cs
  digits := measured_digits cs
  quoted := measured_of_eq (congrArg Except.ok (quotedLength?_eq cs))
  selector := measured_of_eq (congrArg Except.ok (selectorLength?_eq cs))
  bracket := measured_of_eq (bracketLength?_eq cs)
  steps := measured_steps cs
  path := measured_of_eq (pathLength?_eq cs)
  hexTail := measured_of_eq (congrArg Except.ok (hexTailLength?_eq cs))
  fraction := measured_of_eq (congrArg Except.ok (fractionLength?_eq cs))
  number := measured_of_eq (numberLength?_eq cs)
  other := measured_other right cs
  compile := compile?_eq cs
  atStart := atStart?_eq cs

/-- The tokens behind a byte offset of a template are not empty, and each is the text between its
own offsets. -/
theorem tokens_of_isValid {right : List Char} (hright : right ≠ []) {pos : String.Pos.Raw}
    {template : String} (h : pos.IsValid template) :
    ∃ ts stop, tokensFrom right template.toList pos.byteIdx = .ok (ts, stop) ∧
      ∀ t ∈ ts, t.text ≠ [] ∧ slice template.toList t.offset t.stop = .ok t.text := by
  rw [← String.ofList_toList (s := template)] at h
  obtain ⟨⟨as, bs⟩, hcut⟩ := Text.isValid_iff_cut.mp h
  obtain ⟨hsource, hpos⟩ := Text.cut_eq_ok_iff.mp hcut
  have hleads : (Cursor.ofText template.toList).Leads ⟨pos.byteIdx, bs⟩ :=
    Cursor.leads_ofText_iff.mpr ⟨as, hsource, hpos.symm⟩
  refine ⟨_, _, tokensFrom_eq hleads, fun t ht ↦ ?_⟩
  obtain ⟨hne, place, hahead, hoffset, htext⟩ := (Token.row_scan hright _).stands t ht
  obtain ⟨rest, hrest⟩ := htext
  have hslice := Text.slice_of_leads (hleads.trans hahead) t.text.length
  have hstop := (Cursor.advance_of_prefix (c := place) ⟨rest, hrest⟩).2
  rw [hstop, ← hoffset, ← hrest, List.take_left] at hslice
  exact ⟨hne, hslice⟩

/-- A compile comes to an end and never cuts a text at a wrong place. The scan of a template whose
reader cuts it at byte offsets meets no offset that is outside of the template or inside one of its
characters. Each of its rounds ends behind the left delimiter that it found, and inside the
template, so that no round is reported to stand still. The tokens behind every place are found, and
none is empty. Building an expression does not run out of steps. The lengths of all the pieces that
a text may start with are places of that text. -/
theorem ends_without_miscut (d : Delimiters) (template : String) :
    scan d template.toList = .ok (Template.scan d template.toList) ∧
      (∀ s, Reached d template.toList s →
        step d template.toList s = .ok (Template.step d s) ∧
          ∀ s', Template.step d s = .next s' →
            ∃ n, find? d.left.toList s.cursor.rest = some n ∧
              (s.cursor.advance n).offset < s'.cursor.offset ∧
              s'.cursor.offset ≤ byteLength template.toList) ∧
      (∀ n ∈ Program.diagnostics d template, n.fault ≠ .stalled) ∧
      (∀ pos : String.Pos.Raw, pos.IsValid template →
        ∃ ts stop, tokensFrom d.right.toList template.toList pos.byteIdx = .ok (ts, stop) ∧
          ∀ t ∈ ts, t.text ≠ [] ∧ slice template.toList t.offset t.stop = .ok t.text) ∧
      (∀ ts n, 2 * ts.length + 2 ≤ n →
        Condition.sequence? n ts = Condition.sequence? (2 * ts.length + 2) ts) ∧
      ∀ cs, Measures d.right.toList cs := by
  refine ⟨scan_eq d _, fun s hs ↦ ⟨step_eq (leads_of_reached hs), fun s' hstep ↦ ?_⟩,
    fun n hn ↦ ?_, fun pos hpos ↦ tokens_of_isValid (Template.right_ne_nil d) hpos,
    fun ts n ↦ Condition.sequence?_of_le, measures _⟩
  · have hround := step_eq (d := d) (leads_of_reached hs)
    rw [hstep] at hround
    cases hfind : find? d.left.toList s.cursor.rest with
    | none => simp [Template.step, hfind] at hstep
    | some n => exact ⟨n, rfl, Template.lt_of_step_next hfind hstep, (lt_of_step hround).2⟩
  · intro hstalled
    rcases Program.fault_of_mem_diagnostics hn with hfault | hfault
    · simp [hstalled, Fault.inTag] at hfault
    · simp [hstalled] at hfault

/-- A quoted text with a backslash before a character of two bytes, in a condition. -/
theorem ends_without_miscut_quoted :
    (∃ ts stop,
      tokensFrom ['\x7d'] "\x7bif %a == '\\é'\x7dy\x7b/if\x7d".toList 3 = .ok (ts, stop) ∧
        ∀ t ∈ ts, t.text ≠ [] ∧
          slice "\x7bif %a == '\\é'\x7dy\x7b/if\x7d".toList t.offset t.stop = .ok t.text) ∧
      quotedLength? "'\\é'\x7dy".toList = some 5 ∧
        Measured "'\\é'\x7dy".toList (.ok (quotedLength? "'\\é'\x7dy".toList)) := by
  obtain ⟨-, -, -, htokens, -, hmeasures⟩ :=
    ends_without_miscut .standard "\x7bif %a == '\\é'\x7dy\x7b/if\x7d"
  have hlength : quotedLength? "'\\é'\x7dy".toList = some 5 := by
    rw [quotedLength?_eq]
    decide
  exact ⟨htokens ⟨3⟩ (by decide), hlength, (hmeasures _).quoted⟩

end Bytes

end Stencil
