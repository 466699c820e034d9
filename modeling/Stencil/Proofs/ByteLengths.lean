import Stencil.Path
import Stencil.Proofs.Cuts
import Stencil.Proofs.Lookahead

/-!
# Lengths in bytes

The pieces that paths and literals are made of, measured in bytes: runs of bytes are counted, the
byte behind a backslash is skipped whatever it is, and texts are cut at the offsets that were found.
A cut that is not between two characters fails. None does, and the lengths are those of the
characters that the pieces consist of.

## Main definitions

* `Bytes.quotedLength?`, `Bytes.bracketLength?`, `Bytes.stepsFrom`, `Bytes.pathLength?`: lengths in
  bytes.
* `Bytes.compile?`, `Bytes.atStart?`: reading a path between byte offsets.

## Main results

* `Bytes.quotedLength?_eq`: skipping a byte behind a backslash skips a character in the end.
* `Bytes.stepsFrom_eq`, `Bytes.pathLength?_eq`, `Bytes.atStart?_eq`: no cut on the way fails.
-/

namespace Stencil

namespace Text

variable {cs : List Char} {c : Char}

theorem utf8Size_of_lt (h : c.toNat < 128) : c.utf8Size = 1 := by
  rw [← String.length_utf8EncodeChar, utf8EncodeChar_of_lt h, List.length_singleton]

theorem byteLength_of_ascii (h : ∀ c ∈ cs, c.toNat < 128) : byteLength cs = cs.length := by
  induction cs with
  | nil => rfl
  | cons c cs ih =>
    obtain ⟨hc, hcs⟩ := List.forall_mem_cons.mp h
    rw [byteLength_cons, utf8Size_of_lt hc, ih hcs, List.length_cons, Nat.add_comm]

/-- The length of a run of ASCII characters is the same in bytes and in characters. -/
theorem length_takeWhile_utf8 {p : Char → Bool} (hp : ∀ c, p c = true → c.toNat < 128)
    (cs : List Char) :
    ((utf8 cs).takeWhile (asciiByte p)).length = (cs.takeWhile p).length ∧
      inBytes cs (cs.takeWhile p).length = (cs.takeWhile p).length := by
  have hascii : byteLength (cs.takeWhile p) = (cs.takeWhile p).length :=
    byteLength_of_ascii fun c hc ↦ hp c (List.mem_takeWhile_imp hc)
  rw [takeWhile_utf8 hp, length_utf8, inBytes, take_length_takeWhile, hascii]
  exact ⟨rfl, rfl⟩

end Text

namespace Bytes

open Text (Miscut behind slice utf8 asciiByte inBytes byteLength)

/-- The bytes of the word characters at the start of a text. -/
def wordLength (cs : List Char) : Nat :=
  ((utf8 cs).takeWhile (asciiByte Text.isWordChar)).length

/-- The bytes of the decimal digits at the start of a text. -/
def digitsLength (cs : List Char) : Nat :=
  ((utf8 cs).takeWhile (asciiByte Char.isDigit)).length

/-- The bytes up to and including the closing quote. The byte behind a backslash is skipped,
whatever it is and even if there is none. -/
def closingLength? (quote : UInt8) : List UInt8 → Option Nat
  | [] => none
  | b :: bs =>
    if b = 0x5c then (closingLength? quote bs.tail).map (· + 2)
    else if b = quote then some 1
    else (closingLength? quote bs).map (· + 1)
termination_by bs => bs.length
decreasing_by all_goals simp; try omega

/-- The bytes of the quoted text at the start of a text. -/
def quotedLength? (cs : List Char) : Option Nat :=
  match utf8 cs with
  | quote :: bs =>
    if quote = 0x22 ∨ quote = 0x27 then (closingLength? quote bs).map (· + 1) else none
  | [] => none

/-- The bytes of `.name`. -/
def selectorLength? : List Char → Option Nat
  | '.' :: cs =>
    if (utf8 cs).head?.any (asciiByte Text.isNameStart) then some (1 + wordLength cs) else none
  | _ => none

/-- The bytes of what stands between brackets. -/
def indexLength? (cs : List Char) : Option Nat :=
  if digitsLength cs = 0 then quotedLength? cs else some (digitsLength cs)

/-- The bytes of `[12]`, `["key"]` or `['key']`. The text is cut behind what stands between the
brackets. -/
def bracketLength? : List Char → Except Miscut (Option Nat)
  | '[' :: cs =>
    match indexLength? cs with
    | none => .ok none
    | some inner => do
      let after ← behind cs inner
      return if after.head? = some ']' then some (inner + 2) else none
  | _ => .ok none

/-- The bytes of the step at the start of a text. -/
def stepLength? (cs : List Char) : Except Miscut (Option Nat) :=
  match selectorLength? cs with
  | some n => .ok (some n)
  | none => bracketLength? cs

theorem ne_nil_of_selectorLength? {cs : List Char} {n : Nat} (h : selectorLength? cs = some n) :
    0 < n ∧ cs ≠ [] := by
  unfold selectorLength? at h
  split at h
  · split at h
    · simp only [Option.some.injEq] at h
      exact ⟨by omega, List.cons_ne_nil _ _⟩
    · simp at h
  · simp at h

theorem ne_nil_of_bracketLength? {cs : List Char} {n : Nat} (h : bracketLength? cs = .ok (some n)) :
    0 < n ∧ cs ≠ [] := by
  unfold bracketLength? at h
  split at h
  · split at h
    · simp at h
    · rename_i cs _ inner _
      cases hafter : behind cs inner with
      | error e => rw [hafter] at h; cases h
      | ok after =>
        rw [hafter, Text.ok_bind] at h
        split at h
        · have hlen := Option.some.inj (Except.ok.inj h)
          exact ⟨by omega, List.cons_ne_nil _ _⟩
        · cases h
  · cases h

/-- A step takes at least one byte. -/
theorem ne_nil_of_stepLength? {cs : List Char} {n : Nat} (h : stepLength? cs = .ok (some n)) :
    0 < n ∧ cs ≠ [] := by
  unfold stepLength? at h
  split at h
  · rename_i hn
    obtain rfl := Option.some.inj (Except.ok.inj h)
    exact ne_nil_of_selectorLength? hn
  · exact ne_nil_of_bracketLength? h

/-- The bytes of all the steps of a text, some of its bytes being steps already. The text is cut
before each step. -/
def stepsFrom (cs : List Char) (length : Nat) : Except Miscut Nat :=
  match _hrest : behind cs length with
  | .error e => .error e
  | .ok rest =>
    match _hstep : stepLength? rest with
    | .error e => .error e
    | .ok none => .ok length
    | .ok (some n) => stepsFrom cs (length + n)
termination_by byteLength cs - length
decreasing_by
  obtain ⟨as, rfl, rfl⟩ := Text.eq_of_behind _hrest
  obtain ⟨hpos, hne⟩ := ne_nil_of_stepLength? _hstep
  have := Text.byteLength_pos hne
  rw [Text.byteLength_append]
  omega

/-- The bytes of `%name` and the steps after it. -/
def pathLength? : List Char → Except Miscut (Option Nat)
  | '%' :: cs =>
    if wordLength cs = 0 then .ok none
    else do
      let rest ← behind cs (wordLength cs)
      let steps ← stepsFrom rest 0
      return some (1 + wordLength cs + steps)
  | _ => .ok none

/-- The bytes of `x` and hexadecimal digits. -/
def hexTailLength? : List Char → Option Nat
  | c :: cs =>
    let n := ((utf8 cs).takeWhile (asciiByte Numeral.isHexDigit)).length
    if (c = 'x' ∨ c = 'X') ∧ 0 < n then some (1 + n) else none
  | [] => none

/-- The bytes of a point and decimal digits. -/
def fractionLength? : List Char → Option Nat
  | '.' :: cs => if digitsLength cs = 0 then none else some (1 + digitsLength cs)
  | _ => none

theorem closingLength?_nil (quote : UInt8) : closingLength? quote [] = none := by
  rw [closingLength?]

theorem closingLength?_cons (quote b : UInt8) (bs : List UInt8) :
    closingLength? quote (b :: bs) = if b = 0x5c then (closingLength? quote bs.tail).map (· + 2)
      else if b = quote then some 1 else (closingLength? quote bs).map (· + 1) := by
  rw [closingLength?]

variable {quote : UInt8} {c q : Char} {cs : List Char}

theorem ofNat_eq_ofNat_iff (hc : c.toNat < 128) (hq : q.toNat < 128) :
    UInt8.ofNat c.toNat = UInt8.ofNat q.toNat ↔ c = q := by
  constructor
  · intro h
    have htoNat := congrArg UInt8.toNat h
    rw [UInt8.toNat_ofNat', UInt8.toNat_ofNat', Nat.mod_eq_of_lt (by omega),
      Nat.mod_eq_of_lt (by omega)] at htoNat
    exact Char.toNat_inj.mp htoNat
  · rintro rfl
    rfl

/-- Bytes of characters beyond ASCII are passed one by one. -/
theorem closingLength?_append_of_le (hquote : quote.toNat < 128) {wide : List UInt8}
    (hwide : ∀ b ∈ wide, 128 ≤ b.toNat) (bs : List UInt8) :
    closingLength? quote (wide ++ bs) = (closingLength? quote bs).map (· + wide.length) := by
  induction wide with
  | nil => simp
  | cons b wide ih =>
    obtain ⟨hb, hwide⟩ := List.forall_mem_cons.mp hwide
    have hslash : b ≠ 0x5c := fun h ↦ absurd hb (by rw [h]; decide)
    have hne : b ≠ quote := fun h ↦ absurd hb (by rw [h]; omega)
    rw [List.cons_append, closingLength?_cons, if_neg hslash, if_neg hne, ih hwide, Option.map_map]
    rfl

/-- A character that is no quote and no backslash is passed. -/
theorem closingLength?_char (hquote : q.toNat < 128) (hslash : c ≠ '\\') (hne : c ≠ q)
    (bs : List UInt8) :
    closingLength? (UInt8.ofNat q.toNat) (String.utf8EncodeChar c ++ bs) =
      (closingLength? (UInt8.ofNat q.toNat) bs).map (· + c.utf8Size) := by
  rcases Nat.lt_or_ge c.toNat 128 with hlt | hle
  · have hbyte : UInt8.ofNat c.toNat ≠ 0x5c := fun h ↦
      hslash ((ofNat_eq_ofNat_iff (q := '\\') hlt (by decide)).mp h)
    have hother := (ofNat_eq_ofNat_iff hlt hquote).not.mpr hne
    rw [Text.utf8EncodeChar_of_lt hlt, List.singleton_append, closingLength?_cons, if_neg hbyte,
      if_neg hother, Text.utf8Size_of_lt hlt]
  · obtain ⟨b, wide, henc, hwide⟩ := Text.exists_utf8EncodeChar_of_le hle
    rw [← String.length_utf8EncodeChar, henc]
    refine closingLength?_append_of_le ?_ hwide bs
    rw [UInt8.toNat_ofNat', Nat.mod_eq_of_lt (by omega)]
    exact hquote

/-- Behind a backslash the first byte of a character is skipped, and the others are passed. -/
theorem closingLength?_tail (hquote : q.toNat < 128) (c : Char) (bs : List UInt8) :
    closingLength? (UInt8.ofNat q.toNat) (String.utf8EncodeChar c ++ bs).tail =
      (closingLength? (UInt8.ofNat q.toNat) bs).map (· + (c.utf8Size - 1)) := by
  rcases Nat.lt_or_ge c.toNat 128 with hlt | hle
  · rw [Text.utf8EncodeChar_of_lt hlt, Text.utf8Size_of_lt hlt]
    simp
  · obtain ⟨b, wide, henc, hwide⟩ := Text.exists_utf8EncodeChar_of_le hle
    rw [← String.length_utf8EncodeChar, henc, List.cons_append, List.tail_cons, List.length_cons,
      Nat.add_sub_cancel]
    refine closingLength?_append_of_le ?_ (List.forall_mem_cons.mp hwide).2 bs
    rw [UInt8.toNat_ofNat', Nat.mod_eq_of_lt (by omega)]
    exact hquote

/-- Skipping a byte behind a backslash comes to the same as skipping a character: the other bytes of
the character are passed, being neither quotes nor backslashes. -/
theorem closingLength?_eq (hquote : q.toNat < 128) (hslash : q ≠ '\\') (cs : List Char) :
    closingLength? (UInt8.ofNat q.toNat) (utf8 cs) =
      (Text.closingLength? (fun _ ↦ true) q cs).map (inBytes cs) := by
  have henc {c : Char} (hc : c.toNat < 128) (cs : List Char) :
      utf8 (c :: cs) = UInt8.ofNat c.toNat :: utf8 cs := by
    rw [Text.utf8_cons, Text.utf8EncodeChar_of_lt hc, List.singleton_append]
  fun_induction Text.closingLength? (fun _ ↦ true) q cs with
  | case1 => exact closingLength?_nil _
  | case2 c cs hc ih =>
    rw [henc (by decide), Text.utf8_cons, closingLength?_cons, if_pos (by decide),
      closingLength?_tail hquote, ih, Option.map_map, Option.map_map, Option.map_map]
    congr 1
    funext n
    have hpos := c.utf8Size_pos
    have hone : '\\'.utf8Size = 1 := by decide
    simp only [Function.comp_apply, Text.inBytes_cons, hone]
    omega
  | case3 c cs hc => simp at hc
  | case4 cs hcs =>
    have hbyte : UInt8.ofNat q.toNat ≠ 0x5c := fun h ↦
      hslash ((ofNat_eq_ofNat_iff (c := q) (q := '\\') hquote (by decide)).mp h)
    rw [henc hquote, closingLength?_cons, if_neg hbyte, if_pos rfl, Option.map_some,
      Text.inBytes_cons, Text.inBytes_zero, Text.utf8Size_of_lt hquote]
  | case5 c cs hcs hne ih =>
    by_cases hback : c = '\\'
    · -- a backslash that ends the text
      subst hback
      obtain rfl : cs = [] := by
        cases cs with
        | nil => rfl
        | cons a cs => exact (hcs a cs rfl rfl).elim
      have hnone : closingLength? (UInt8.ofNat q.toNat) (utf8 []).tail = none :=
        closingLength?_nil _
      rw [henc (by decide), closingLength?_cons, if_pos (by decide), hnone]
      rfl
    · rw [Text.utf8_cons, closingLength?_char hquote hback hne, ih, Option.map_map, Option.map_map]
      congr 1
      funext n
      simp only [Function.comp_apply, Text.inBytes_cons]
      omega

theorem wordLength_eq (cs : List Char) :
    wordLength cs = Text.wordLength cs ∧ inBytes cs (Text.wordLength cs) = Text.wordLength cs :=
  Text.length_takeWhile_utf8 (fun _ ↦ Text.toNat_lt_of_isWordChar) cs

theorem digitsLength_eq (cs : List Char) :
    digitsLength cs = Text.digitsLength cs ∧
      inBytes cs (Text.digitsLength cs) = Text.digitsLength cs :=
  Text.length_takeWhile_utf8 (fun _ ↦ Text.toNat_lt_of_isDigit) cs

/-- The first byte of a text tells as much about ASCII as its first character does. -/
theorem exists_utf8_cons (c : Char) (cs : List Char) :
    ∃ b bs, utf8 (c :: cs) = b :: bs ∧ (∀ q, q.toNat < 128 → (b = UInt8.ofNat q.toNat ↔ c = q)) ∧
      ∀ p : Char → Bool, (∀ a, p a = true → a.toNat < 128) → asciiByte p b = p c := by
  rcases Nat.lt_or_ge c.toNat 128 with hlt | hle
  · refine ⟨UInt8.ofNat c.toNat, utf8 cs, ?_, fun q hq ↦ ofNat_eq_ofNat_iff hlt hq, fun p _ ↦ ?_⟩
    · rw [Text.utf8_cons, Text.utf8EncodeChar_of_lt hlt, List.singleton_append]
    · exact Text.asciiByte_ofNat hlt
  · obtain ⟨b, wide, henc, hwide⟩ := Text.exists_utf8EncodeChar_of_le hle
    have hb := hwide b List.mem_cons_self
    refine ⟨b, wide ++ utf8 cs, by rw [Text.utf8_cons, henc, List.cons_append], fun q hq ↦ ?_,
      fun p hp ↦ ?_⟩
    · refine iff_of_false (fun h ↦ ?_) fun h ↦ ?_
      · rw [h, UInt8.toNat_ofNat', Nat.mod_eq_of_lt (by omega)] at hb
        omega
      · rw [h] at hle
        omega
    · rw [Text.asciiByte_of_le hb, eq_comm, ← Bool.not_eq_true]
      exact fun h ↦ absurd (hp c h) (by omega)

theorem quotedLength?_eq (cs : List Char) :
    quotedLength? cs = (Text.quotedLength? cs).map (inBytes cs) := by
  cases cs with
  | nil => rfl
  | cons c cs =>
    by_cases hc : c = '"' ∨ c = '\''
    · have hlt : c.toNat < 128 := by rcases hc with rfl | rfl <;> decide
      have hslash : c ≠ '\\' := by rcases hc with rfl | rfl <;> decide
      have henc : utf8 (c :: cs) = UInt8.ofNat c.toNat :: utf8 cs := by
        rw [Text.utf8_cons, Text.utf8EncodeChar_of_lt hlt, List.singleton_append]
      have hquote : UInt8.ofNat c.toNat = 0x22 ∨ UInt8.ofNat c.toNat = 0x27 := by
        rcases hc with rfl | rfl
        · exact Or.inl (by decide)
        · exact Or.inr (by decide)
      rw [quotedLength?, henc]
      dsimp only
      rw [if_pos hquote, closingLength?_eq hlt hslash, Text.quotedLength?, Text.quotedLengthWith?,
        if_pos hc, Option.map_map, Option.map_map]
      congr 1
      funext n
      rw [Function.comp_apply, Function.comp_apply, Text.inBytes_cons, Text.utf8Size_of_lt hlt,
        Nat.add_comm]
    · obtain ⟨b, bs, henc, hbyte, -⟩ := exists_utf8_cons c cs
      have hquote : ¬ (b = 0x22 ∨ b = 0x27) := fun h ↦ hc <|
        h.imp (hbyte '"' (by decide)).mp (hbyte '\'' (by decide)).mp
      rw [quotedLength?, henc]
      dsimp only
      rw [if_neg hquote, Text.quotedLength?, Text.quotedLengthWith?, if_neg hc, Option.map_none]

theorem selectorLength?_eq (cs : List Char) :
    selectorLength? cs = (Text.selectorLength? cs).map (inBytes cs) := by
  unfold selectorLength?
  split
  · rename_i cs
    have hdot : '.'.utf8Size = 1 := by decide
    cases cs with
    | nil => rfl
    | cons c cs =>
      obtain ⟨b, bs, henc, -, hclass⟩ := exists_utf8_cons c cs
      obtain ⟨hword, hbytes⟩ := wordLength_eq (c :: cs)
      rw [henc, Text.selectorLength?, List.head?_cons, Option.any_some,
        hclass _ fun _ ↦ Text.toNat_lt_of_isNameStart]
      split
      · rw [Option.map_some, Nat.add_comm 1, Nat.add_comm 1, Text.inBytes_cons, hdot, hbytes, hword,
          Nat.add_comm]
      · rfl
  · rename_i hother
    rw [Text.selectorLength?.eq_def]
    split
    · exact absurd rfl (hother _)
    · rfl

theorem indexLength?_eq (cs : List Char) :
    indexLength? cs = (Text.indexLength? cs).map (inBytes cs) := by
  obtain ⟨hdigits, hbytes⟩ := digitsLength_eq cs
  rw [indexLength?, hdigits, quotedLength?_eq, Text.indexLength?]
  split
  · rfl
  · rw [Option.map_some, hbytes]

/-- A character of ASCII that follows takes one byte. -/
theorem inBytes_succ {n : Nat} (h : (cs.drop n).head? = some c) (hc : c.toNat < 128) :
    inBytes cs (n + 1) = inBytes cs n + 1 := by
  obtain ⟨ds, hds⟩ := List.head?_eq_some_iff.mp h
  rw [Text.inBytes_add, hds, Text.inBytes_cons, Text.inBytes_zero, Text.utf8Size_of_lt hc]

theorem bracketLength?_eq (cs : List Char) :
    bracketLength? cs = .ok ((Text.bracketLength? cs).map (inBytes cs)) := by
  unfold bracketLength?
  split
  · rename_i cs
    rw [indexLength?_eq, Text.bracketLength?]
    cases Text.indexLength? cs with
    | none => rfl
    | some n =>
      dsimp only [Option.map_some, Option.bind_eq_bind, Option.bind_some]
      rw [Text.behind_inBytes, Text.ok_bind]
      split
      · rename_i hclose
        have hbracket : '['.utf8Size = 1 := by decide
        rw [Option.map_some, Text.inBytes_cons, inBytes_succ hclose (by decide), hbracket,
          Nat.add_comm 1]
        rfl
      · rfl
  · rename_i hother
    rw [Text.bracketLength?.eq_def]
    split
    · exact absurd rfl (hother _)
    · rfl

theorem stepLength?_eq (cs : List Char) :
    stepLength? cs = .ok ((Text.stepLength? cs).map (inBytes cs)) := by
  rw [stepLength?, selectorLength?_eq, Text.stepLength?]
  cases Text.selectorLength? cs with
  | none => exact bracketLength?_eq cs
  | some n => rfl

theorem stepsFrom_of_behind {rest : List Char} {length : Nat}
    (hrest : behind cs length = .ok rest) :
    stepsFrom cs length =
      (stepLength? rest).bind fun n? ↦
        match n? with
        | none => .ok length
        | some n => stepsFrom cs (length + n) := by
  rw [stepsFrom]
  split
  · rename_i hrest'
    rw [hrest] at hrest'
    cases hrest'
  · rename_i rest' hrest'
    obtain rfl := Except.ok.inj (hrest.symm.trans hrest')
    split <;> rename_i hstep <;> rw [hstep] <;> rfl

/-- The steps of a text are found, wherever the search has got to. -/
theorem stepsFrom_eq (as cs : List Char) :
    stepsFrom (as ++ cs) (byteLength as) =
      .ok (byteLength as + inBytes cs (Text.stepsLength cs)) := by
  fun_induction Text.stepsLength cs generalizing as with
  | case1 cs n hn ih =>
    have hstep : stepLength? cs = .ok (some (inBytes cs n)) := by
      rw [stepLength?_eq, hn, Option.map_some]
    have hnext := ih (as ++ cs.take n)
    rw [List.append_assoc, List.take_append_drop, Text.byteLength_append] at hnext
    rw [stepsFrom_of_behind (Text.behind_append as cs), hstep]
    refine hnext.trans ?_
    rw [Text.inBytes_add, ← Nat.add_assoc]
    rfl
  | case2 cs hnone =>
    have hstep : stepLength? cs = .ok none := by
      rw [stepLength?_eq, hnone, Option.map_none]
    rw [stepsFrom_of_behind (Text.behind_append as cs), hstep, Text.inBytes_zero, Nat.add_zero]
    rfl

theorem pathLength?_eq (cs : List Char) :
    pathLength? cs = .ok ((Text.pathLength? cs).map (inBytes cs)) := by
  unfold pathLength?
  split
  · rename_i cs
    obtain ⟨hword, hbytes⟩ := wordLength_eq cs
    rw [hword, Text.pathLength?]
    split
    · rfl
    · have hsteps := stepsFrom_eq [] (cs.drop (Text.wordLength cs))
      have hrest := Text.behind_inBytes cs (Text.wordLength cs)
      have hpercent : '%'.utf8Size = 1 := by decide
      have hlen (n : Nat) : inBytes ('%' :: cs) (1 + Text.wordLength cs + n) =
          1 + Text.wordLength cs + inBytes (cs.drop (Text.wordLength cs)) n := by
        rw [Nat.add_assoc, Nat.add_comm 1, Text.inBytes_cons, Text.inBytes_add, hbytes, hpercent,
          Nat.add_assoc]
      rw [Text.byteLength_nil, Nat.zero_add, List.nil_append] at hsteps
      rw [hbytes] at hrest
      rw [hrest, Text.ok_bind, hsteps, Text.ok_bind, Option.map_some, hlen]
      rfl
  · rename_i hother
    rw [Text.pathLength?.eq_def]
    split
    · exact absurd rfl (hother _)
    · rfl

theorem hexTailLength?_eq (cs : List Char) :
    hexTailLength? cs = (Text.hexTailLength? cs).map (inBytes cs) := by
  cases cs with
  | nil => rfl
  | cons c cs =>
    obtain ⟨hdigits, hbytes⟩ :=
      Text.length_takeWhile_utf8 (fun _ ↦ Text.toNat_lt_of_isHexDigit) cs
    rw [hexTailLength?, Text.hexTailLength?, hdigits]
    split
    · rename_i hx
      have hlt : c.toNat < 128 := by rcases hx.1 with rfl | rfl <;> decide
      rw [Option.map_some, Nat.add_comm 1, Text.inBytes_cons, Text.utf8Size_of_lt hlt, hbytes,
        Nat.add_comm]
    · rfl

theorem fractionLength?_eq (cs : List Char) :
    fractionLength? cs = (Text.fractionLength? cs).map (inBytes cs) := by
  unfold fractionLength?
  split
  · rename_i cs
    obtain ⟨hdigits, hbytes⟩ := digitsLength_eq cs
    have hpoint : '.'.utf8Size = 1 := by decide
    rw [hdigits, Text.fractionLength?]
    split
    · rfl
    · rw [Option.map_some, Nat.add_comm 1, Text.inBytes_cons, hpoint, hbytes, Nat.add_comm]
  · rename_i hother
    rw [Text.fractionLength?.eq_def]
    split
    · exact absurd rfl (hother _)
    · rfl

/-! ### Paths -/

/-- The step at the start of a text, cut out of it, and the text behind it. -/
def step? (cs : List Char) : Except Miscut (Option (Path.Step × List Char)) :=
  match selectorLength? cs with
  | some n => do
    let name ← slice cs 1 n
    let rest ← behind cs n
    return some (.field (String.ofList name), rest)
  | none => do
    match ← bracketLength? cs with
    | none => return none
    | some n =>
      let inner ← slice cs 1 (n - 1)
      let rest ← behind cs n
      return some (Path.indexStep inner, rest)

/-- Cutting out what stands in a text between a character of ASCII and some others. -/
theorem slice_one (hc : c.toNat < 128) {n : Nat} (hn : 1 ≤ n) :
    slice (c :: cs) 1 (inBytes (c :: cs) n) = .ok (((c :: cs).take n).drop 1) := by
  have hone : inBytes (c :: cs) 1 = 1 := by
    rw [Text.inBytes_cons, Text.inBytes_zero, Text.utf8Size_of_lt hc]
  have hslice := Text.slice_inBytes (c :: cs) hn
  rwa [hone] at hslice

theorem step?_eq (cs : List Char) :
    step? cs = .ok ((Path.step? cs).map fun r ↦ (r.1, cs.drop r.2)) := by
  rw [step?, selectorLength?_eq, Path.step?]
  cases hselector : Text.selectorLength? cs with
  | some n =>
    obtain ⟨c, ds, rfl, -, rfl⟩ := Text.selectorLength?_eq_some hselector
    rw [Option.map_some]
    dsimp only
    rw [slice_one (by decide) (Nat.le_add_right _ _), Text.ok_bind, Text.behind_inBytes,
      Text.ok_bind]
    rfl
  | none =>
    rw [Option.map_none]
    dsimp only
    rw [bracketLength?_eq, Text.ok_bind]
    cases hbracket : Text.bracketLength? cs with
    | none => rfl
    | some n =>
      obtain ⟨ds, m, rfl, -, hclose, rfl⟩ := Text.bracketLength?_eq_some hbracket
      -- the closing bracket is left out
      have hlen : inBytes ('[' :: ds) (m + 2) - 1 = inBytes ('[' :: ds) (m + 1) := by
        rw [Text.inBytes_cons, inBytes_succ hclose (by decide), Text.inBytes_cons]
        rfl
      rw [Option.map_some]
      dsimp only
      rw [hlen, slice_one (by decide) (Nat.le_add_left _ _), Text.ok_bind, Text.behind_inBytes,
        Text.ok_bind]
      rfl

theorem length_lt_of_step? {s : Path.Step} {rest : List Char}
    (h : step? cs = .ok (some (s, rest))) : rest.length < cs.length := by
  rw [step?_eq] at h
  obtain ⟨r, hr, heq⟩ := Option.map_eq_some_iff.mp (Except.ok.inj h)
  obtain ⟨-, rfl⟩ := Prod.mk.inj heq
  exact Text.length_drop_lt (Text.stepLength?_pos (Path.stepLength?_of_step? hr))

/-- The steps that a text consists of, cut out of it one after the other. -/
def steps? (cs : List Char) : Except Miscut (Option (List Path.Step)) :=
  if cs = [] then .ok (some [])
  else
    match _h : step? cs with
    | .error e => .error e
    | .ok none => .ok none
    | .ok (some (s, rest)) => (steps? rest).map (Option.map (s :: ·))
termination_by cs.length
decreasing_by exact length_lt_of_step? _h

/-- The path that a whole text spells, its pieces cut out of the text. -/
def compile? : List Char → Except Miscut (Option Path)
  | '%' :: cs =>
    if wordLength cs = 0 then .ok none
    else do
      let base ← slice cs 0 (wordLength cs)
      let rest ← behind cs (wordLength cs)
      let steps ← steps? rest
      return steps.map fun steps ↦ ⟨String.ofList base, steps⟩
  | _ => .ok none

/-- The path at the start of a text, cut out of it, and how many bytes it takes. -/
def atStart? (cs : List Char) : Except Miscut (Option (Path × Nat)) := do
  match ← pathLength? cs with
  | none => return none
  | some n =>
    let path ← compile? (← slice cs 0 n)
    return path.map (·, n)

theorem steps?_of_ne (hne : cs ≠ []) :
    steps? cs = (step? cs).bind fun r? ↦
      match r? with
      | none => .ok none
      | some (s, rest) => (steps? rest).map (Option.map (s :: ·)) := by
  rw [steps?, if_neg hne]
  split <;> rename_i hstep <;> rw [hstep] <;> rfl

theorem steps?_eq (cs : List Char) : steps? cs = .ok (Path.steps? cs) := by
  fun_induction Path.steps? cs with
  | case1 => rw [steps?, if_pos rfl]
  | case2 cs hne s n hstep ih =>
    rw [steps?_of_ne hne, step?_eq, hstep]
    exact congrArg (Except.map _) ih
  | case3 cs hne hnone =>
    rw [steps?_of_ne hne, step?_eq, hnone]
    rfl

theorem compile?_eq (cs : List Char) : compile? cs = .ok (Path.compile? cs) := by
  unfold compile?
  split
  · rename_i cs
    obtain ⟨hword, hbytes⟩ := wordLength_eq cs
    rw [hword, Path.compile?]
    split
    · rfl
    · have hbase := Text.slice_inBytes cs (Nat.zero_le (Text.wordLength cs))
      have hrest := Text.behind_inBytes cs (Text.wordLength cs)
      rw [Text.inBytes_zero, hbytes, List.drop_zero] at hbase
      rw [hbytes] at hrest
      rw [hbase, Text.ok_bind, hrest, Text.ok_bind, steps?_eq, Text.ok_bind]
      rfl
  · rename_i hother
    rw [Path.compile?.eq_def]
    split
    · exact absurd rfl (hother _)
    · rfl

/-- A path at the start of a text is cut out of it and read without a failing cut. -/
theorem atStart?_eq (cs : List Char) :
    atStart? cs = .ok ((Path.atStart? cs).map fun r ↦ (r.1, inBytes cs r.2)) := by
  rw [atStart?, pathLength?_eq, Text.ok_bind, Path.atStart?]
  cases Text.pathLength? cs with
  | none => rfl
  | some n =>
    have htext := Text.slice_inBytes cs (Nat.zero_le n)
    rw [Text.inBytes_zero, List.drop_zero] at htext
    rw [Option.map_some]
    dsimp only
    rw [htext, Text.ok_bind, compile?_eq, Text.ok_bind, Option.bind_eq_bind, Option.bind_some]
    cases Path.compile? (cs.take n) <;> rfl

end Bytes

end Stencil
