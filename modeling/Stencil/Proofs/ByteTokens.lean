import Stencil.Proofs.ByteLengths

/-!
# Tokens between byte offsets

The tokens of a tag, read by a reader that knows its place as a byte offset. It cuts the source at
this offset, takes the blanks off, measures the token that follows in bytes, and cuts it out. The
cuts do not fail, and the tokens are those that are read character by character.

## Main definitions

* `Bytes.otherFrom`, `Bytes.lexeme`: the bytes of the token at the start of a text.
* `Bytes.nextToken?`, `Bytes.tokensFrom`: the next token of a source, and all of them.

## Main results

* `Text.behind_of_leads`, `Text.slice_of_leads`: cuts at the places of a source.
* `Bytes.lexeme_eq`, `Bytes.tokensFrom_eq`: no cut on the way fails.
-/

namespace Stencil

namespace Text

variable {source : List Char} {c : Cursor} {n : Nat}

theorem behind_of_leads (h : (Cursor.ofText source).Leads c) :
    behind source c.offset = .ok c.rest := by
  obtain ⟨before, hbefore, hoffset⟩ := Cursor.leads_ofText_iff.mp h
  rw [hbefore, hoffset]
  exact behind_append before c.rest

theorem slice_of_leads (h : (Cursor.ofText source).Leads c) (n : Nat) :
    slice source c.offset (c.advance n).offset = .ok (c.rest.take n) := by
  obtain ⟨before, hbefore, hoffset⟩ := Cursor.leads_ofText_iff.mp h
  have hcut := slice_append before (c.rest.take n) (c.rest.drop n)
  rw [List.take_append_drop, ← hoffset, ← hbefore] at hcut
  exact hcut

/-- The blanks that are taken off a text, in bytes. -/
theorem offset_skipBlanks (c : Cursor) :
    c.skipBlanks.offset = c.offset + (byteLength c.rest - byteLength (trimStart c.rest)) := by
  have hsplit : byteLength c.rest =
      byteLength (c.rest.takeWhile isBlank) + byteLength (trimStart c.rest) := by
    rw [trimStart, ← byteLength_append, List.takeWhile_append_dropWhile]
  rw [Cursor.skipBlanks, Cursor.offset_advance, take_length_takeWhile]
  omega

/-- The place behind all that is left is the end of the source. -/
theorem offset_advance_length (h : (Cursor.ofText source).Leads c) :
    (c.advance c.rest.length).offset = byteLength source := by
  have htotal := h.total_eq
  rw [Cursor.total, Cursor.total, Cursor.ofText, Nat.zero_add] at htotal
  rw [Cursor.offset_advance, List.take_length, htotal]

end Text

namespace Bytes

open Text (Cursor Miscut behind slice inBytes byteLength)
open Token (Lexeme)

/-! ### One token -/

/-- The bytes of what may follow the digits of a number. -/
def tailLength (digits rest : List Char) : Nat :=
  let hex := if digits = ['0'] then hexTailLength? rest else none
  (hex.or (fractionLength? rest)).getD 0

/-- The bytes of digits and their tail. The text is cut behind the digits, and what is left behind
the tail. -/
def unsignedLength? (cs : List Char) : Except Miscut (Option Nat) :=
  if digitsLength cs = 0 then .ok none
  else do
    let digits ← slice cs 0 (digitsLength cs)
    let rest ← behind cs (digitsLength cs)
    let _ ← behind rest (tailLength digits rest)
    return some (digitsLength cs + tailLength digits rest)

/-- The bytes of a number. -/
def numberLength? : List Char → Except Miscut (Option Nat)
  | '-' :: cs => (unsignedLength? cs).map (Option.map (· + 1))
  | cs => (unsignedLength? cs).map (Option.or · (fractionLength? cs))

/-- A token that is matched character by character, in bytes. -/
def span (cs : List Char) (l : Lexeme) : Lexeme :=
  ⟨l.kind, inBytes cs l.length⟩

/-- The token at the start of a text, if the text starts one. -/
def known? (cs : List Char) : Except Miscut (Option Lexeme) := do
  match ← pathLength? cs with
  | some n => return some ⟨.path, n⟩
  | none =>
    match Token.quotedLength? cs with
    | some n => return some (span cs ⟨.quoted, n⟩)
    | none =>
      match ← numberLength? cs with
      | some n => return some ⟨.number, n⟩
      | none => return ((Token.word? cs).or (Token.symbol? cs)).map (span cs)

/-- The bytes up to the next blank or, behind the first character, the right delimiter. The text is
cut before each of these characters. -/
def otherFrom (right cs : List Char) (length : Nat) : List Char → Except Miscut Nat
  | [] => .ok length
  | c :: rest =>
    if Text.isBlank c then .ok length
    else do
      let after ← behind cs length
      if 0 < length ∧ right.isPrefixOf after then return length
      else otherFrom right cs (length + c.utf8Size) rest

/-- The token at the start of a text that starts neither with a blank nor with the right
delimiter. -/
def lexeme (right cs : List Char) : Except Miscut Lexeme := do
  match ← known? cs with
  | some l => return l
  | none =>
    let n ← otherFrom right cs 0 cs
    return ⟨.other, n⟩

variable {right cs source : List Char} {c : Cursor} {n : Nat}

theorem tailLength_eq (digits rest : List Char) :
    tailLength digits rest = inBytes rest (Token.tailLength digits rest) := by
  rw [tailLength, Token.tailLength, hexTailLength?_eq, fractionLength?_eq]
  by_cases hzero : digits = ['0']
  · rw [if_pos hzero, if_pos hzero]
    cases Text.hexTailLength? rest with
    | some n => rfl
    | none => cases Text.fractionLength? rest <;> rfl
  · rw [if_neg hzero, if_neg hzero]
    cases Text.fractionLength? rest <;> rfl

theorem unsignedLength?_eq (cs : List Char) :
    unsignedLength? cs = .ok ((Token.unsignedLength? cs).map (inBytes cs)) := by
  obtain ⟨hdigits, hbytes⟩ := digitsLength_eq cs
  rw [unsignedLength?, hdigits, Token.unsignedLength?]
  split
  · rfl
  · have hbase := Text.slice_inBytes cs (Nat.zero_le (Text.digitsLength cs))
    have hrest := Text.behind_inBytes cs (Text.digitsLength cs)
    rw [Text.inBytes_zero, hbytes, List.drop_zero] at hbase
    rw [hbytes] at hrest
    rw [hbase, Text.ok_bind, hrest, Text.ok_bind, tailLength_eq, Text.behind_inBytes, Text.ok_bind,
      Option.map_some, Text.inBytes_add, hbytes]
    rfl

theorem numberLength?_eq (cs : List Char) :
    numberLength? cs = .ok ((Token.numberLength? cs).map (inBytes cs)) := by
  unfold numberLength?
  split
  · rename_i cs
    have hminus : '-'.utf8Size = 1 := by decide
    rw [unsignedLength?_eq, Token.numberLength?]
    cases Token.unsignedLength? cs with
    | none => rfl
    | some n =>
      rw [Option.map_some, Option.map_some, Option.map_some, Text.inBytes_cons, hminus,
        Nat.add_comm]
      rfl
  · rename_i hother
    rw [unsignedLength?_eq, fractionLength?_eq, Token.numberLength?.eq_def]
    split
    · exact absurd rfl (hother _)
    · cases Token.unsignedLength? cs <;> rfl

theorem known?_eq (cs : List Char) :
    known? cs = .ok ((Token.known? cs).map (span cs)) := by
  rw [known?, pathLength?_eq, Text.ok_bind, Token.known?]
  cases Text.pathLength? cs with
  | some n => rfl
  | none =>
    cases Token.quotedLength? cs with
    | some n => rfl
    | none =>
      dsimp only [Option.map_none]
      rw [numberLength?_eq, Text.ok_bind]
      cases Token.numberLength? cs <;> rfl

/-- The text is cut only before characters that were met. -/
theorem otherFrom_eq {as : List Char} (has : as ≠ []) (rest : List Char) :
    otherFrom right (as ++ rest) (byteLength as) rest =
      .ok (byteLength as + inBytes rest (Token.plainLength right rest)) := by
  induction rest generalizing as with
  | nil => rfl
  | cons c rest ih =>
    have hpos := Text.byteLength_pos has
    have hmet : as ++ [c] ≠ [] := by simp
    have hnext := ih hmet
    rw [List.append_assoc, List.singleton_append, Text.byteLength_append, Text.byteLength_cons,
      Text.byteLength_nil, Nat.add_zero] at hnext
    rw [otherFrom, Token.plainLength]
    by_cases hblank : Text.isBlank c = true
    · rw [if_pos hblank, hblank, Bool.true_or, if_pos rfl, Text.inBytes_zero, Nat.add_zero]
    rw [if_neg hblank, Text.behind_append, Text.ok_bind]
    by_cases hclose : right.isPrefixOf (c :: rest) = true
    · rw [if_pos ⟨hpos, hclose⟩, hclose, Bool.or_true, if_pos rfl, Text.inBytes_zero, Nat.add_zero]
      rfl
    · rw [if_neg fun h ↦ hclose h.2, hnext, if_neg (by simp [hblank, hclose]), Text.inBytes_cons,
        Nat.add_assoc]

/-- A text that does not start with a blank is measured from its start on. -/
theorem otherFrom_zero {a : Char} (hblank : Text.isBlank a = false) (rest : List Char) :
    otherFrom right (a :: rest) 0 (a :: rest) =
      .ok (inBytes (a :: rest) (Token.plainLength right rest + 1)) := by
  have hother : otherFrom right (a :: rest) a.utf8Size rest =
      .ok (a.utf8Size + inBytes rest (Token.plainLength right rest)) :=
    otherFrom_eq (List.cons_ne_nil a []) rest
  rw [otherFrom, if_neg (by simp [hblank]), Text.behind_zero, Text.ok_bind,
    if_neg fun h ↦ absurd h.1 (Nat.lt_irrefl 0), Nat.zero_add, hother, Text.inBytes_cons]

/-- The token at the start of a text is measured without a failing cut. -/
theorem lexeme_eq (hne : cs ≠ []) (hblank : ∀ c, cs.head? = some c → Text.isBlank c = false) :
    lexeme right cs = .ok (span cs (Token.lexeme right cs)) := by
  rw [lexeme, known?_eq, Text.ok_bind, Token.lexeme]
  cases Token.known? cs with
  | some l => rfl
  | none =>
    obtain ⟨c, rest, rfl⟩ := List.exists_cons_of_ne_nil hne
    dsimp only [Option.map_none]
    rw [otherFrom_zero (hblank c rfl), Text.ok_bind, Option.getD_none, span, List.tail_cons]
    rfl

/-! ### All tokens -/

/-- The token at the start of a text that does not start with a blank. The right delimiter comes
first. -/
def firstLexeme (right cs : List Char) : Except Miscut Lexeme :=
  if right.isPrefixOf cs then .ok ⟨.close, byteLength right⟩ else lexeme right cs

/-- The next token of a source, and the place behind it; without a token, the place where the blanks
end. -/
def nextToken? (right source : List Char) (pos : Nat) : Except Miscut (Option Token × Nat) := do
  let rest ← behind source pos
  let start := pos + (byteLength rest - byteLength (Text.trimStart rest))
  let rest ← behind source start
  if rest = [] then return (none, start)
  else
    let l ← firstLexeme right rest
    let text ← slice source start (start + l.length)
    return (some ⟨l.kind, text, start⟩, start + l.length)

/-- The next token behind a place. -/
def tokenAt? (right : List Char) (c : Cursor) : Option Token × Cursor :=
  let start := c.skipBlanks
  if start.rest = [] then (none, start)
  else if right.isPrefixOf start.rest then
    (some ⟨.close, right, start.offset⟩, start.advance right.length)
  else
    let l := Token.lexeme right start.rest
    (some ⟨l.kind, start.rest.take l.length, start.offset⟩, start.advance l.length)

theorem nextToken?_eq (h : (Cursor.ofText source).Leads c) :
    nextToken? right source c.offset =
      .ok ((tokenAt? right c).1, (tokenAt? right c).2.offset) := by
  have hskip := h.trans c.leads_skipBlanks
  rw [nextToken?, Text.behind_of_leads h, Text.ok_bind, ← Text.offset_skipBlanks, tokenAt?]
  dsimp only
  rw [Text.behind_of_leads hskip, Text.ok_bind]
  split
  · rfl
  rename_i hne
  split
  · rename_i hclose
    obtain ⟨ds, hds⟩ := List.isPrefixOf_iff_prefix.mp hclose
    have htext := Text.slice_of_leads hskip right.length
    have hstop := (Cursor.advance_of_prefix (List.isPrefixOf_iff_prefix.mp hclose)).2
    rw [← hds, List.take_left, hstop] at htext
    rw [firstLexeme, if_pos hclose, Text.ok_bind]
    dsimp only
    rw [htext, Text.ok_bind, hstop]
    rfl
  · rename_i hclose
    have htext := Text.slice_of_leads hskip (Token.lexeme right c.skipBlanks.rest).length
    have hblank (a : Char) (ha : c.skipBlanks.rest.head? = some a) : Text.isBlank a = false :=
      Cursor.isBlank_of_head?_skipBlanks ha
    rw [firstLexeme, if_neg hclose, lexeme_eq hne hblank, Text.ok_bind]
    exact congrArg (· >>= _) htext

/-- A token that is not the right delimiter ends behind the place where it was looked for. -/
theorem tokenAt?_ahead {t : Token} {next : Cursor} (h : tokenAt? right c = (some t, next))
    (hkind : t.kind ≠ .close) : c.Leads next ∧ next.rest.length < c.rest.length := by
  unfold tokenAt? at h
  dsimp only at h
  split at h
  · simp at h
  rename_i hne
  split at h
  · obtain ⟨ht, -⟩ := Prod.mk.inj h
    exact absurd (congrArg Token.kind (Option.some.inj ht)).symm hkind
  · obtain ⟨-, rfl⟩ := Prod.mk.inj h
    have hpos := Token.lexeme_length_pos right c.skipBlanks.rest
    have hlen := List.length_pos_iff.mpr hne
    have hle := c.length_rest_skipBlanks_le
    refine ⟨c.leads_skipBlanks.trans (Cursor.leads_advance _ _), ?_⟩
    rw [Cursor.length_rest_advance]
    omega

theorem lt_of_nextToken? {t : Token} {pos stop : Nat}
    (h : nextToken? right source pos = .ok (some t, stop)) (hkind : t.kind ≠ .close) :
    pos < stop ∧ stop ≤ byteLength source := by
  cases hrest : behind source pos with
  | error e =>
    rw [nextToken?, hrest] at h
    cases h
  | ok rest =>
    obtain ⟨as, rfl, rfl⟩ := Text.eq_of_behind hrest
    have hleads : (Cursor.ofText (as ++ rest)).Leads ⟨byteLength as, rest⟩ :=
      Cursor.leads_ofText_iff.mpr ⟨as, rfl, rfl⟩
    have heq := Except.ok.inj ((nextToken?_eq hleads).symm.trans h)
    generalize htoken : tokenAt? right ⟨byteLength as, rest⟩ = r at heq
    obtain ⟨t?, next⟩ := r
    obtain ⟨rfl, rfl⟩ := Prod.mk.inj heq
    obtain ⟨hahead, hlen⟩ := tokenAt?_ahead htoken hkind
    have htotal : next.offset + byteLength next.rest = 0 + byteLength (as ++ rest) :=
      (hleads.trans hahead).total_eq
    have hle : next.offset ≤ byteLength (as ++ rest) := by omega
    exact ⟨hahead.offset_lt hlen, hle⟩

/-- The tokens of a source from a place on, and the place where they end. -/
def tokensFrom (right source : List Char) (pos : Nat) : Except Miscut (List Token × Nat) :=
  match _h : nextToken? right source pos with
  | .error e => .error e
  | .ok (none, stop) => .ok ([], stop)
  | .ok (some t, stop) =>
    if _hkind : t.kind = .close then .ok ([t], stop)
    else (tokensFrom right source stop).map fun r ↦ (t :: r.1, r.2)
termination_by byteLength source - pos
decreasing_by
  obtain ⟨hlt, hle⟩ := lt_of_nextToken? _h _hkind
  omega

section

variable {pos stop : Nat} {t : Token}

theorem tokensFrom_of_none (h : nextToken? right source pos = .ok (none, stop)) :
    tokensFrom right source pos = .ok ([], stop) := by
  rw [tokensFrom]
  split <;> rename_i h' <;> rw [h] at h' <;> cases h'
  rfl

theorem tokensFrom_of_close (h : nextToken? right source pos = .ok (some t, stop))
    (hkind : t.kind = .close) : tokensFrom right source pos = .ok ([t], stop) := by
  rw [tokensFrom]
  split <;> rename_i h' <;> rw [h] at h' <;> cases h'
  rw [dif_pos hkind]

theorem tokensFrom_of_some (h : nextToken? right source pos = .ok (some t, stop))
    (hkind : t.kind ≠ .close) : tokensFrom right source pos =
      (tokensFrom right source stop).map fun r ↦ (t :: r.1, r.2) := by
  rw [tokensFrom]
  split <;> rename_i h' <;> rw [h] at h' <;> cases h'
  rw [dif_neg hkind]

end

/-- The tokens of a source are read without a failing cut, from every place of it. -/
theorem tokensFrom_eq (h : (Cursor.ofText source).Leads c) :
    tokensFrom right source c.offset =
      .ok ((Token.scan right c).1, (Token.scan right c).2.offset) := by
  induction hn : c.rest.length using Nat.strong_induction_on generalizing c with
  | _ n ih =>
    have hnext : nextToken? right source c.offset =
        .ok ((tokenAt? right c).1, (tokenAt? right c).2.offset) := nextToken?_eq h
    by_cases hnil : c.skipBlanks.rest = []
    · have htoken : tokenAt? right c = (none, c.skipBlanks) := if_pos hnil
      rw [htoken] at hnext
      rw [tokensFrom_of_none hnext, Token.scan]
      simp only [hnil, if_true]
    by_cases hclose : right <+: c.skipBlanks.rest
    · have htoken : tokenAt? right c = (some ⟨.close, right, c.skipBlanks.offset⟩,
          c.skipBlanks.advance right.length) :=
        (if_neg hnil).trans (if_pos (List.isPrefixOf_iff_prefix.mpr hclose))
      rw [htoken] at hnext
      rw [tokensFrom_of_close hnext rfl, Token.scan_eq_close hnil hclose]
    · have hother := Token.lexeme_kind_ne_close right c.skipBlanks.rest
      have htoken : tokenAt? right c =
          (some ⟨(Token.lexeme right c.skipBlanks.rest).kind,
              c.skipBlanks.rest.take (Token.lexeme right c.skipBlanks.rest).length,
              c.skipBlanks.offset⟩,
            c.skipBlanks.advance (Token.lexeme right c.skipBlanks.rest).length) :=
        (if_neg hnil).trans (if_neg (List.isPrefixOf_iff_prefix.not.mpr hclose))
      obtain ⟨hahead, hlen⟩ := tokenAt?_ahead htoken hother
      rw [htoken] at hnext
      rw [tokensFrom_of_some hnext hother, ih _ (hn ▸ hlen) (h.trans hahead) rfl,
        Token.scan_eq_token hnil hclose]
      rfl

end Bytes

end Stencil
