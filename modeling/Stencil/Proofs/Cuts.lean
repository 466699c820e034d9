import Stencil.Proofs.Places

/-!
# Cutting texts at byte offsets

A text is stored as its bytes in UTF-8, and parts of it are taken between byte offsets. Such a cut
is possible where the offset lies inside the text and between two characters. Classes of ASCII
characters may be tested byte by byte, since no byte of any other character is in them.

## Main definitions

* `Text.Miscut`: a byte offset at which a text cannot be cut.
* `Text.cut`, `Text.behind`, `Text.slice`: the parts of a text around byte offsets.
* `Text.inBytes`: the bytes that the first characters of a text take.
* `Text.utf8`: the bytes of a text.
* `Text.asciiByte`: a class of ASCII characters as a class of bytes.

## Main results

* `Text.isValid_iff_cut`: the offsets at which a text can be cut.
* `Text.takeWhile_utf8`: a run of ASCII characters is a run of bytes.
-/

namespace Stencil.Text

/-- A byte offset that is behind the end of a text or inside one of its characters. -/
structure Miscut where
  text : List Char
  offset : Nat

/-- The parts of a text before and behind a byte offset, if it is inside the text and between two
characters. -/
def parts? : List Char → Nat → Option (List Char × List Char)
  | cs, 0 => some ([], cs)
  | [], _ + 1 => none
  | c :: cs, n + 1 =>
    if c.utf8Size ≤ n + 1 then
      (parts? cs (n + 1 - c.utf8Size)).map fun r ↦ (c :: r.1, r.2)
    else none

/-- Cuts a text at a byte offset. -/
def cut (cs : List Char) (offset : Nat) : Except Miscut (List Char × List Char) :=
  match parts? cs offset with
  | some r => .ok r
  | none => .error ⟨cs, offset⟩

/-- The part of a text from a byte offset on. -/
def behind (cs : List Char) (offset : Nat) : Except Miscut (List Char) :=
  (cut cs offset).map Prod.snd

/-- The part of a text between two byte offsets. -/
def slice (cs : List Char) (start stop : Nat) : Except Miscut (List Char) :=
  (cut cs stop).bind fun r ↦ behind r.1 start

variable {as bs cs : List Char} {n m offset : Nat}

theorem ok_bind {α β : Type} (a : α) (f : α → Except Miscut β) : (Except.ok a >>= f) = f a :=
  rfl

theorem parts?_append (as bs : List Char) : parts? (as ++ bs) (byteLength as) = some (as, bs) := by
  induction as with
  | nil => cases bs <;> rfl
  | cons a as ih =>
    obtain ⟨k, hk⟩ := Nat.exists_eq_succ_of_ne_zero a.utf8Size_pos.ne'
    have hlen : byteLength (a :: as) = k + byteLength as + 1 := by
      rw [byteLength_cons, hk, Nat.succ_eq_add_one, Nat.add_right_comm]
    rw [hlen, List.cons_append, parts?, if_pos (by omega)]
    rw [show k + byteLength as + 1 - a.utf8Size = byteLength as by omega, ih, Option.map_some]

theorem eq_of_parts? (h : parts? cs offset = some (as, bs)) :
    cs = as ++ bs ∧ byteLength as = offset := by
  fun_induction parts? cs offset generalizing as bs with
  | case1 cs =>
    obtain ⟨rfl, rfl⟩ := Prod.mk.inj (Option.some.inj h)
    exact ⟨rfl, rfl⟩
  | case2 => simp at h
  | case3 c cs n hle ih =>
    obtain ⟨r, hr, heq⟩ := Option.map_eq_some_iff.mp h
    obtain ⟨rfl, rfl⟩ := Prod.mk.inj heq
    obtain ⟨rfl, hlen⟩ := ih hr
    exact ⟨rfl, by rw [byteLength_cons, hlen, Nat.add_sub_cancel' hle]⟩
  | case4 => simp at h

theorem cut_eq_ok_iff : cut cs offset = .ok (as, bs) ↔ cs = as ++ bs ∧ byteLength as = offset := by
  constructor
  · intro h
    unfold cut at h
    split at h
    · rename_i r hr
      obtain rfl := Except.ok.inj h
      exact eq_of_parts? hr
    · simp at h
  · rintro ⟨rfl, rfl⟩
    rw [cut, parts?_append]

theorem cut_append (as bs : List Char) : cut (as ++ bs) (byteLength as) = .ok (as, bs) :=
  cut_eq_ok_iff.mpr ⟨rfl, rfl⟩

/-- Two texts that a source begins with are the same when they have as many bytes. -/
theorem eq_of_prefix_of_byteLength (has : as <+: cs) (hbs : bs <+: cs)
    (hlen : byteLength as = byteLength bs) : as = bs := by
  obtain ⟨xs, rfl⟩ := has
  obtain ⟨ys, hys⟩ := hbs
  have hcut := cut_append as xs
  rw [← hys, hlen, cut_append] at hcut
  exact (Prod.mk.inj (Except.ok.inj hcut)).1.symm

theorem behind_append (as bs : List Char) : behind (as ++ bs) (byteLength as) = .ok bs := by
  rw [behind, cut_append]
  rfl

theorem behind_zero (cs : List Char) : behind cs 0 = .ok cs :=
  behind_append [] cs

/-- The bytes that the first characters of a text take. -/
def inBytes (cs : List Char) (n : Nat) : Nat :=
  byteLength (cs.take n)

@[simp] theorem inBytes_zero (cs : List Char) : inBytes cs 0 = 0 := by
  rw [inBytes, List.take_zero, byteLength_nil]

theorem inBytes_cons (c : Char) (cs : List Char) (n : Nat) :
    inBytes (c :: cs) (n + 1) = c.utf8Size + inBytes cs n := by
  rw [inBytes, List.take_succ_cons, byteLength_cons, inBytes]

theorem inBytes_add (cs : List Char) (m n : Nat) :
    inBytes cs (m + n) = inBytes cs m + inBytes (cs.drop m) n := by
  rw [inBytes, List.take_add, byteLength_append, inBytes, inBytes]

theorem behind_inBytes (cs : List Char) (n : Nat) :
    behind cs (inBytes cs n) = .ok (cs.drop n) := by
  have h := behind_append (cs.take n) (cs.drop n)
  rwa [List.take_append_drop] at h

theorem eq_of_behind (h : behind cs offset = .ok bs) :
    ∃ as, cs = as ++ bs ∧ byteLength as = offset := by
  unfold behind at h
  cases hcut : cut cs offset with
  | error e => simp [hcut, Except.map] at h
  | ok r =>
    rw [hcut] at h
    obtain rfl := Except.ok.inj h
    exact ⟨r.1, cut_eq_ok_iff.mp hcut⟩

theorem slice_append (as bs cs : List Char) :
    slice (as ++ (bs ++ cs)) (byteLength as) (byteLength as + byteLength bs) = .ok bs := by
  rw [slice, ← List.append_assoc, ← byteLength_append, cut_append]
  exact behind_append as bs

/-- A text between two of its characters. -/
theorem slice_inBytes (cs : List Char) (h : m ≤ n) :
    slice cs (inBytes cs m) (inBytes cs n) = .ok ((cs.take n).drop m) := by
  obtain ⟨k, rfl⟩ := Nat.exists_eq_add_of_le h
  have hcut := slice_append (cs.take m) ((cs.drop m).take k) ((cs.drop m).drop k)
  rw [List.take_append_drop, List.take_append_drop] at hcut
  rw [inBytes_add, List.drop_take, Nat.add_sub_cancel_left]
  exact hcut

theorem utf8ByteSize_ofList (cs : List Char) :
    (String.ofList cs).utf8ByteSize = byteLength cs := by
  induction cs with
  | nil => rfl
  | cons c cs ih =>
    have hone : String.ofList [c] = String.singleton c := rfl
    rw [← List.singleton_append, String.ofList_append, String.utf8ByteSize_append, ih, hone,
      String.utf8ByteSize_singleton, List.singleton_append, byteLength_cons]

theorem utf8ByteSize_eq (s : String) : s.utf8ByteSize = byteLength s.toList := by
  rw [← utf8ByteSize_ofList, String.ofList_toList]

/-- A text can be cut where the library has a place of the text. -/
theorem isValid_iff_cut :
    (String.Pos.Raw.mk offset).IsValid (String.ofList cs) ↔ ∃ r, cut cs offset = .ok r := by
  rw [String.Pos.Raw.isValid_ofList]
  simp only [utf8ByteSize_ofList]
  constructor
  · rintro ⟨n, rfl⟩
    exact ⟨(cs.take n, cs.drop n), cut_eq_ok_iff.mpr ⟨(List.take_append_drop n cs).symm, rfl⟩⟩
  · rintro ⟨⟨as, bs⟩, h⟩
    obtain ⟨rfl, rfl⟩ := cut_eq_ok_iff.mp h
    exact ⟨as.length, by rw [List.take_left]⟩

/-! ### Bytes -/

/-- The bytes of a text in UTF-8. -/
def utf8 (cs : List Char) : List UInt8 :=
  cs.flatMap String.utf8EncodeChar

/-- A class of ASCII characters as a class of bytes. -/
def asciiByte (p : Char → Bool) (b : UInt8) : Bool :=
  b.toNat < 128 && p (Char.ofNat b.toNat)

variable {p : Char → Bool} {c : Char} {b : UInt8}

theorem utf8_cons (c : Char) (cs : List Char) :
    utf8 (c :: cs) = String.utf8EncodeChar c ++ utf8 cs :=
  rfl

theorem length_utf8 (cs : List Char) : (utf8 cs).length = byteLength cs := by
  induction cs with
  | nil => rfl
  | cons c cs ih =>
    rw [utf8_cons, List.length_append, String.length_utf8EncodeChar, ih, byteLength_cons]

theorem utf8EncodeChar_of_lt (h : c.toNat < 128) :
    String.utf8EncodeChar c = [UInt8.ofNat c.toNat] := by
  have hle : c.val.toNat ≤ 127 := Nat.le_of_lt_succ h
  rw [String.utf8EncodeChar]
  exact if_pos hle

/-- A character beyond ASCII has no byte in ASCII. -/
theorem exists_utf8EncodeChar_of_le (h : 128 ≤ c.toNat) :
    ∃ b bs, String.utf8EncodeChar c = b :: bs ∧ ∀ b' ∈ b :: bs, 128 ≤ b'.toNat := by
  have hlt : ¬ c.val.toNat ≤ 127 := Nat.not_le.mpr h
  simp only [String.utf8EncodeChar, if_neg hlt]
  split
  · exact ⟨_, _, rfl, by simp; omega⟩
  split
  · exact ⟨_, _, rfl, by simp; omega⟩
  · exact ⟨_, _, rfl, by simp; omega⟩

theorem asciiByte_ofNat (h : c.toNat < 128) : asciiByte p (UInt8.ofNat c.toNat) = p c := by
  have hmod : (UInt8.ofNat c.toNat).toNat = c.toNat := by
    rw [UInt8.toNat_ofNat', Nat.mod_eq_of_lt (by omega)]
  rw [asciiByte, hmod, Char.ofNat_toNat, decide_eq_true h, Bool.true_and]

theorem asciiByte_of_le (h : 128 ≤ b.toNat) : asciiByte p b = false := by
  rw [asciiByte, decide_eq_false (Nat.not_lt.mpr h), Bool.false_and]

/-- A run of ASCII characters is a run of bytes. -/
theorem takeWhile_utf8 (hp : ∀ c, p c = true → c.toNat < 128) (cs : List Char) :
    (utf8 cs).takeWhile (asciiByte p) = utf8 (cs.takeWhile p) := by
  induction cs with
  | nil => rfl
  | cons c cs ih =>
    rcases Nat.lt_or_ge c.toNat 128 with hlt | hle
    · rw [utf8_cons, utf8EncodeChar_of_lt hlt, List.singleton_append, List.takeWhile_cons,
        asciiByte_ofNat hlt, List.takeWhile_cons]
      split
      · rw [ih, utf8_cons, utf8EncodeChar_of_lt hlt, List.singleton_append]
      · rfl
    · obtain ⟨b, bs, hb, hbs⟩ := exists_utf8EncodeChar_of_le hle
      have hnot : ¬ p c = true := fun h ↦ absurd (hp c h) (Nat.not_lt.mpr hle)
      rw [utf8_cons, hb, List.cons_append, List.takeWhile_cons, List.takeWhile_cons, if_neg hnot,
        asciiByte_of_le (hbs b List.mem_cons_self)]
      rfl

end Stencil.Text
