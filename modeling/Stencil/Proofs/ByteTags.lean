import Stencil.Proofs.ByteTokens
import Stencil.Proofs.Trials

/-!
# Tags between byte offsets

A tag is tried at a byte offset of a template, and the template is cut wherever the reader looks at
it: behind the left delimiter, behind a name or a path, behind the blanks before a right delimiter.
No cut fails, and what comes of a trial is what comes of it when the template is read by
characters.

## Main definitions

* `Bytes.place`: the place of a source at a byte offset.
* `Bytes.readVariable`, `Bytes.readNamed`, `Bytes.readTag`: trying a tag.

## Main results

* `Bytes.readTag_eq`: no cut of a trial fails.
-/

namespace Stencil

namespace Condition

/-- What becomes of a condition that was taken apart into tokens. -/
def judge (start : Nat) (tokens : List Token) (next : Text.Cursor) : Outcome × Log :=
  let body := tokens.takeWhile (·.kind ≠ .close)
  if tokens.all (·.kind ≠ .close) then
    (.halted, Log.halt [] (Fault.ifUnclosed.locate start))
  else if body = [] then
    (.halted, Log.halt [] (Fault.ifEmpty.locate start))
  else if count .openParen body ≠ count .closeParen body then
    (.halted, Log.halt [] (Fault.unbalancedParens.locate (bodyEnd start body)))
  else compileBody start body next

theorem compile_eq_judge (right : List Char) (c : Text.Cursor) :
    compile right c = judge c.offset (Token.scan right c).1 (Token.scan right c).2 :=
  rfl

end Condition

namespace Bytes

open Text (Cursor Miscut behind slice inBytes byteLength)
open Template (Blocks Trial ifKind halt refuse)

variable {right source : List Char} {c : Cursor}

/-- The place of a source at a byte offset. -/
def place (source : List Char) (offset : Nat) : Except Miscut Cursor :=
  (behind source offset).map (⟨offset, ·⟩)

/-- The place after the right delimiter that follows, blanks before it aside. -/
def close? (right source : List Char) (pos : Nat) : Except Miscut (Option Cursor) := do
  let rest ← behind source pos
  let start := pos + (byteLength rest - byteLength (Text.trimStart rest))
  let rest ← behind source start
  if right.isPrefixOf rest then
    let next ← place source (start + byteLength right)
    return some next
  else return none

/-- The condition at a place. -/
def compileCondition (right source : List Char) (pos : Nat) :
    Except Miscut (Condition.Outcome × Log) := do
  let (tokens, stop) ← tokensFrom right source pos
  let next ← place source stop
  return Condition.judge pos tokens next

/-- Tries a variable. -/
def readVariable (right source : List Char) (b : Blocks) (pos : Nat) : Except Miscut Trial := do
  let rest ← behind source pos
  match ← atStart? rest with
  | none => return ⟨.unmatched, b, []⟩
  | some (p, n) =>
    let after ← behind source (pos + n)
    if right.isPrefixOf after then
      let next ← place source (pos + n + byteLength right)
      return ⟨.tag (.show p) next, b, []⟩
    else
      let path ← slice source pos (pos + n)
      return halt b (Fault.pathSyntax.about pos (String.ofList path))

/-- Tries the rest of an opening tag. -/
def readIf (right source : List Char) (b : Blocks) (tagStart pos : Nat) : Except Miscut Trial := do
  match ← compileCondition right source pos with
  | (.accepted e next, notes) => return ⟨.tag (.ifTrue e) next, b.push ifKind tagStart, notes⟩
  | (.rejected, notes) => return ⟨.unmatched, b, notes⟩
  | (.halted, notes) => return ⟨.halted, b, notes⟩

/-- Tries the rest of an elseif tag. -/
def readElseIf (right source : List Char) (b : Blocks) (pos : Nat) : Except Miscut Trial :=
  match b.current? ifKind with
  | none => .ok (halt b (Fault.elseIfWithoutIf.locate pos))
  | some frame => do
    let late := if frame.hasElse then [Fault.secondElse.locate pos] else []
    match ← compileCondition right source pos with
    | (.accepted e next, notes) => return ⟨.tag (.elseIf e) next, b, late ++ notes⟩
    | (.rejected, notes) => return ⟨.unmatched, b, late ++ notes⟩
    | (.halted, notes) => return ⟨.halted, b, late ++ notes⟩

/-- Tries the rest of an else tag. -/
def readElse (right source : List Char) (b : Blocks) (pos : Nat) : Except Miscut Trial := do
  match ← close? right source pos with
  | none => return halt b (Fault.elseUnclosed.locate pos)
  | some next =>
    match b.current? ifKind with
    | none => return refuse b (Fault.elseWithoutIf.locate pos)
    | some frame =>
      if frame.hasElse then return refuse b (Fault.secondElse.locate pos)
      else return ⟨.tag .otherwise next, b.markElse ifKind, []⟩

/-- Tries the rest of an end tag. -/
def readEndIf (right source : List Char) (b : Blocks) (pos : Nat) : Except Miscut Trial := do
  match ← close? right source pos with
  | none => return halt b (Fault.endIfUnclosed.locate pos)
  | some next =>
    if (b.current? ifKind).isNone then return refuse b (Fault.endIfWithoutIf.locate pos)
    else return ⟨.tag .endIf next, b.pop ifKind, []⟩

/-- The bytes of a tag's name. The source is cut behind the slash and behind the word. -/
def nameLength? (right source : List Char) (pos : Nat) : Except Miscut (Option Nat) := do
  let rest ← behind source pos
  let slash := if rest.head? = some '/' then 1 else 0
  let word ← behind rest slash
  if wordLength word = 0 then return none
  else
    let after ← behind source (pos + (slash + wordLength word))
    if after = [] ∨ after.head?.any Text.isBlank ∨ right.isPrefixOf after then
      return some (slash + wordLength word)
    else return none

/-- Tries a tag with a name. -/
def readNamed (right source : List Char) (b : Blocks) (tagStart pos : Nat) :
    Except Miscut Trial := do
  match ← nameLength? right source pos with
  | none => return ⟨.unmatched, b, []⟩
  | some n =>
    let text ← slice source pos (pos + n)
    let name := String.ofList (text.map Char.toLower)
    if name = "if" then readIf right source b tagStart (pos + n)
    else if name = "elseif" then readElseIf right source b (pos + n)
    else if name = "else" then readElse right source b (pos + n)
    else if name = "/if" then readEndIf right source b (pos + n)
    else return ⟨.unmatched, b, []⟩

/-- Tries a tag behind its left delimiter. -/
def readTag (right source : List Char) (b : Blocks) (tagStart pos : Nat) :
    Except Miscut Trial := do
  let rest ← behind source pos
  if rest.head? = some '%' then readVariable right source b pos
  else readNamed right source b tagStart pos

theorem place_of_leads (h : (Cursor.ofText source).Leads c) : place source c.offset = .ok c := by
  rw [place, Text.behind_of_leads h]
  rfl

/-- The place behind a text that was met. -/
theorem place_behind (h : (Cursor.ofText source).Leads c) (hright : right <+: c.rest) :
    place source (c.offset + byteLength right) = .ok (c.advance right.length) := by
  rw [← (Cursor.advance_of_prefix hright).2]
  exact place_of_leads (h.trans (c.leads_advance _))

theorem close?_eq (h : (Cursor.ofText source).Leads c) :
    close? right source c.offset = .ok (Template.close? right c) := by
  have hskip := h.trans c.leads_skipBlanks
  rw [close?, Text.behind_of_leads h, Text.ok_bind, ← Text.offset_skipBlanks]
  dsimp only
  rw [Text.behind_of_leads hskip, Text.ok_bind, Template.close?]
  split
  · rename_i hright
    rw [place_behind hskip (List.isPrefixOf_iff_prefix.mp hright)]
    rfl
  · rfl

theorem compileCondition_eq (hright : right ≠ []) (h : (Cursor.ofText source).Leads c) :
    compileCondition right source c.offset = .ok (Condition.compile right c) := by
  have hscan := h.trans (Token.row_scan hright c).leads
  rw [compileCondition, tokensFrom_eq h, Text.ok_bind]
  dsimp only
  rw [place_of_leads hscan, Text.ok_bind, Condition.compile_eq_judge]
  rfl

theorem readVariable_eq (h : (Cursor.ofText source).Leads c) (b : Blocks) :
    readVariable right source b c.offset = .ok (Template.readVariable right b c) := by
  rw [readVariable, Text.behind_of_leads h, Text.ok_bind, atStart?_eq, Text.ok_bind,
    Template.readVariable]
  cases Path.atStart? c.rest with
  | none => rfl
  | some r =>
    obtain ⟨p, n⟩ := r
    have hahead := h.trans (c.leads_advance n)
    have hstop : c.offset + inBytes c.rest n = (c.advance n).offset := rfl
    dsimp only [Option.map_some]
    rw [hstop, Text.behind_of_leads hahead, Text.ok_bind]
    split
    · rename_i hright
      rw [place_behind hahead (List.isPrefixOf_iff_prefix.mp hright)]
      rfl
    · rw [Text.slice_of_leads h n]
      rfl

theorem readIf_eq (hright : right ≠ []) (h : (Cursor.ofText source).Leads c) (b : Blocks)
    (tagStart : Nat) :
    readIf right source b tagStart c.offset = .ok (Template.readIf right b tagStart c) := by
  rw [readIf, compileCondition_eq hright h, Text.ok_bind, Template.readIf]
  rcases Condition.compile right c with ⟨_ | _ | _, notes⟩ <;> rfl

theorem readElseIf_eq (hright : right ≠ []) (h : (Cursor.ofText source).Leads c) (b : Blocks) :
    readElseIf right source b c.offset = .ok (Template.readElseIf right b c) := by
  rw [readElseIf, Template.readElseIf]
  cases b.current? ifKind with
  | none => rfl
  | some frame =>
    dsimp only
    rw [compileCondition_eq hright h, Text.ok_bind]
    rcases Condition.compile right c with ⟨_ | _ | _, notes⟩ <;> rfl

theorem readElse_eq (h : (Cursor.ofText source).Leads c) (b : Blocks) :
    readElse right source b c.offset = .ok (Template.readElse right b c) := by
  rw [readElse, close?_eq h, Text.ok_bind, Template.readElse]
  cases Template.close? right c with
  | none => rfl
  | some next =>
    cases b.current? ifKind with
    | none => rfl
    | some frame => exact (apply_ite Except.ok _ _ _).symm

theorem readEndIf_eq (h : (Cursor.ofText source).Leads c) (b : Blocks) :
    readEndIf right source b c.offset = .ok (Template.readEndIf right b c) := by
  rw [readEndIf, close?_eq h, Text.ok_bind, Template.readEndIf]
  cases Template.close? right c with
  | none => rfl
  | some next => exact (apply_ite Except.ok _ _ _).symm

theorem nameLength?_eq (h : (Cursor.ofText source).Leads c) :
    nameLength? right source c.offset =
      .ok ((Template.nameLength? right c.rest).map (inBytes c.rest)) := by
  rw [nameLength?, Text.behind_of_leads h, Text.ok_bind, Template.nameLength?]
  dsimp only
  generalize hslash : (if c.rest.head? = some '/' then 1 else 0) = slash
  have hbytes : inBytes c.rest slash = slash := by
    rw [← hslash]
    split
    · rename_i hhead
      obtain ⟨cs, hcs⟩ := List.head?_eq_some_iff.mp hhead
      rw [hcs, Text.inBytes_cons, Text.inBytes_zero]
      rfl
    · exact Text.inBytes_zero _
  have hword := Text.behind_inBytes c.rest slash
  rw [hbytes] at hword
  obtain ⟨hlength, hchars⟩ := wordLength_eq (c.rest.drop slash)
  have hname : inBytes c.rest (slash + Text.wordLength (c.rest.drop slash)) =
      slash + Text.wordLength (c.rest.drop slash) := by
    rw [Text.inBytes_add, hbytes, hchars]
  have hafter := Text.behind_of_leads (h.trans (c.leads_advance
    (slash + Text.wordLength (c.rest.drop slash))))
  rw [Cursor.offset_advance, Cursor.rest_advance, ← inBytes, hname] at hafter
  rw [hword, Text.ok_bind, hlength, hafter, Text.ok_bind]
  split
  · rfl
  split
  · rw [Option.map_some, hname]
    rfl
  · rfl

theorem readNamed_eq (hright : right ≠ []) (h : (Cursor.ofText source).Leads c) (b : Blocks)
    (tagStart : Nat) :
    readNamed right source b tagStart c.offset = .ok (Template.readNamed right b tagStart c) := by
  rw [readNamed, nameLength?_eq h, Text.ok_bind, Template.readNamed]
  cases Template.nameLength? right c.rest with
  | none => rfl
  | some n =>
    have hahead := h.trans (c.leads_advance n)
    have hstop : c.offset + inBytes c.rest n = (c.advance n).offset := rfl
    dsimp only [Option.map_some]
    rw [hstop, Text.slice_of_leads h n, Text.ok_bind, readIf_eq hright hahead,
      readElseIf_eq hright hahead, readElse_eq hahead, readEndIf_eq hahead]
    simp only [apply_ite Except.ok]
    rfl

theorem readTag_eq (hright : right ≠ []) (h : (Cursor.ofText source).Leads c) (b : Blocks)
    (tagStart : Nat) :
    readTag right source b tagStart c.offset = .ok (Template.readTag right b tagStart c) := by
  rw [readTag, Text.behind_of_leads h, Text.ok_bind, readVariable_eq h,
    readNamed_eq hright h, Template.readTag, apply_ite Except.ok]

end Bytes

end Stencil
