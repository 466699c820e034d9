import Stencil.Proofs.PathReaders
import Stencil.Proofs.WrittenPaths

/-!
# Quoted texts

A text stands between two equal quotes, double or single, with a backslash in front of each
backslash and each such quote. Written like this it is measured to its closing quote, is one token
of a tag, and stands for itself again, alone and between the brackets of a path, whatever follows.

The measure of quoted texts passes whatever stands behind a backslash, while a token passes no line
feed there. With such an escape a text may stand between the brackets of a path, and is no token of
its own. In no other case do the two differ.

## Main definitions

* `Text.escapeChar`, `Text.literal`: a text between quotes, with backslashes where they are needed.

## Main results

* `Text.reads_literal`: a text between quotes is read back.
* `Token.Found.quoted_or_other`: what is found where a quote stands.
* `Token.quoted_iff_measured`: which quoted texts are tokens.
-/

namespace Stencil

open Text (Cursor byteLength)

/-! ### Measuring in bytes -/

namespace Text

variable {escapable : Char → Bool} {quote : Char} {cs xs : List Char}

/-- A quoted text is measured up to the same place in bytes and in characters. -/
theorem bytes_quotedLength?_iff (hxs : xs <+: cs) :
    Bytes.quotedLength? cs = some (byteLength xs) ↔ quotedLength? cs = some xs.length := by
  rw [Bytes.quotedLength?_eq, Option.map_eq_some_iff]
  constructor
  · rintro ⟨n, hn, hbytes⟩
    obtain rfl := eq_of_prefix_of_byteLength (List.take_prefix n cs) hxs hbytes
    rw [hn, List.length_take_of_le (quotedLengthWith?_le hn)]
  · intro h
    obtain ⟨rest, rfl⟩ := hxs
    exact ⟨xs.length, h, by rw [inBytes, List.take_left]⟩

/-! ### Writing a text between quotes -/

/-- A character between quotes: a backslash comes in front of each backslash and each quote. -/
def escapeChar (quote c : Char) : List Char :=
  if c = '\\' ∨ c = quote then ['\\', c] else [c]

/-- A text between quotes, with backslashes where they are needed. -/
def literal (quote : Char) (cs : List Char) : List Char :=
  enclose quote (escapeChar quote) cs

theorem standsFor_escapeChar (hquote : quote = '"' ∨ quote = '\'') (c : Char) :
    StandsFor quote c (escapeChar quote c) := by
  unfold escapeChar
  split
  · rename_i hc
    rcases hc with rfl | rfl
    · exact .escape (by decide) (by rcases hquote with rfl | rfl <;> decide)
    · refine .escape ?_ ?_ <;> rcases hquote with rfl | rfl <;> decide
  · rename_i hc
    exact .self (not_or.mp hc).2 (not_or.mp hc).1

theorem quotedLengthWith?_literal (hquote : quote = '"' ∨ quote = '\'')
    (hesc : ∀ d, d ≠ '\n' → escapable d = true) (cs rest : List Char) :
    quotedLengthWith? escapable (literal quote cs ++ rest) = some (literal quote cs).length :=
  quotedLengthWith?_enclose (fun c _ ↦ standsFor_escapeChar hquote c) hquote hesc rest

theorem unquote_literal (hquote : quote = '"' ∨ quote = '\'') (cs : List Char) :
    unquote (literal quote cs) = cs :=
  unquote_enclose fun c _ ↦ standsFor_escapeChar hquote c

theorem head?_literal (quote : Char) (cs rest : List Char) :
    (literal quote cs ++ rest).head? = some quote :=
  rfl

end Text

namespace Token

variable {right as : List Char} {c place : Cursor} {t : Token} {q : Char}

/-- Where a quote stands, a token is a quoted text or no known token. -/
theorem known?_quote (hquote : q = '"' ∨ q = '\'') (hhead : as.head? = some q) :
    known? as = (quotedLength? as).map (Lexeme.mk .quoted) := by
  cases hn : quotedLength? as with
  | some n => rw [known?_of_quotedLength? hn, Option.map_some]
  | none =>
    cases hl : known? as with
    | none => rfl
    | some l =>
      rw [quotedLength?_of_known? hquote hhead hl] at hn
      exact absurd hn (by simp)

/-- What is found where a quote stands: the quoted text that is measured there, or, without one,
what is taken as it stands. -/
theorem Found.quoted_or_other (h : Found right place t) (hclose : ¬ right <+: place.rest)
    (hquote : q = '"' ∨ q = '\'') (hhead : place.rest.head? = some q) :
    (t.kind = .quoted ∧ quotedLength? place.rest = some t.text.length) ∨
      (t.kind = .other ∧ quotedLength? place.rest = none) := by
  cases h with
  | close h => exact absurd h hclose
  | token =>
    have hknown := known?_quote hquote hhead
    cases hn : quotedLength? place.rest with
    | none =>
      rw [hn, Option.map_none] at hknown
      rw [lexeme, hknown]
      exact Or.inr ⟨rfl, rfl⟩
    | some n =>
      rw [hn, Option.map_some] at hknown
      rw [lexeme_of_known? hknown]
      dsimp only
      rw [List.length_take_of_le (Text.quotedLengthWith?_le hn)]
      exact Or.inl ⟨rfl, rfl⟩

/-- A quoted text is the first token where it stands. -/
theorem head?_scan_literal (hquote : q = '"' ∨ q = '\'') {offset : Nat} {cs rest : List Char}
    (hclose : ¬ right <+: Text.literal q cs ++ rest) :
    (scan right ⟨offset, Text.literal q cs ++ rest⟩).1.head? =
      some ⟨.quoted, Text.literal q cs, offset⟩ := by
  have hblank : Text.isBlank q = false := by rcases hquote with rfl | rfl <;> decide
  have hstart : Cursor.skipBlanks ⟨offset, Text.literal q cs ++ rest⟩ =
      ⟨offset, Text.literal q cs ++ rest⟩ := by
    refine Cursor.skipBlanks_append (List.forall_mem_nil _) fun a ha ↦ ?_
    obtain rfl : q = a := Option.some.inj ((Text.head?_literal q cs rest).symm.trans ha)
    exact hblank
  have hlength : quotedLength? (Text.literal q cs ++ rest) = some (Text.literal q cs).length :=
    Text.quotedLengthWith?_literal hquote (fun d hd ↦ bne_iff_ne.mpr hd) cs rest
  have hne : Text.literal q cs ++ rest ≠ [] := List.cons_ne_nil _ _
  rw [scan_eq_token (by rwa [hstart]) (by rwa [hstart]), hstart,
    lexeme_of_known? (known?_of_quotedLength? hlength), List.head?_cons, List.take_left]

end Token

namespace Path

/-- Between brackets a quoted text is the entry that it stands for. -/
theorem compile?_literal {q : Char} (hquote : q = '"' ∨ q = '\'') (s : String) :
    compile? ('%' :: 'a' :: '[' :: Text.literal q s.toList ++ [']']) =
      some ⟨"a", [.entry s]⟩ := by
  have hdigits : Text.digitsLength (Text.literal q s.toList ++ [']']) = 0 := by
    have hdigit : q.isDigit = false := by rcases hquote with rfl | rfl <;> decide
    simp [Text.literal, Text.enclose, Text.digitsLength, hdigit]
  have hindex : Text.indexLength? (Text.literal q s.toList ++ [']']) =
      some (Text.literal q s.toList).length := by
    rw [Text.indexLength?, if_pos hdigits]
    exact Text.quotedLengthWith?_literal hquote (fun _ _ ↦ rfl) _ _
  have hentry : indexStep (Text.literal q s.toList) = .entry s := by
    have hhead : (Text.literal q s.toList).head? = some q := rfl
    rw [indexStep, if_pos (by rw [hhead]; simpa using hquote), Text.unquote_literal hquote,
      String.ofList_toList]
  have hstep := step?_bracket hindex hentry
  rw [List.append_nil] at hstep
  have hsteps : steps? ('[' :: Text.literal q s.toList ++ [']']) = some [.entry s] := by
    rw [steps?_of_step? hstep, List.drop_length, steps?, if_pos rfl, Option.map_some]
  have hword : Text.wordLength ('a' :: '[' :: Text.literal q s.toList ++ [']']) = 1 := by
    simp [Text.wordLength, show Text.isWordChar 'a' = true by decide,
      show Text.isWordChar '[' = false by decide]
  rw [List.cons_append, compile?, hword, if_neg one_ne_zero, List.cons_append,
    List.drop_succ_cons, List.drop_zero, hsteps]
  rfl

end Path

/-- Every text can be written between quotes of either kind, whatever follows: it is measured to its
closing quote, in characters and in bytes, it is a token of a tag unless the right delimiter starts
there, and it stands for the text, alone and between the brackets of a path. -/
theorem Text.reads_literal {quote : Char} (hquote : quote = '"' ∨ quote = '\'') (s : String)
    (rest : List Char) :
    Text.quotedLength? (literal quote s.toList ++ rest) = some (literal quote s.toList).length ∧
      Bytes.quotedLength? (literal quote s.toList ++ rest) =
        some (byteLength (literal quote s.toList)) ∧
      (∀ right offset, ¬ right <+: literal quote s.toList ++ rest →
        (Token.scan right ⟨offset, literal quote s.toList ++ rest⟩).1.head? =
          some ⟨.quoted, literal quote s.toList, offset⟩) ∧
      unquote (literal quote s.toList) = s.toList ∧
      Path.compile? ('%' :: 'a' :: '[' :: literal quote s.toList ++ [']']) =
        some ⟨"a", [.entry s]⟩ := by
  have hlength : Text.quotedLength? (literal quote s.toList ++ rest) =
      some (literal quote s.toList).length :=
    quotedLengthWith?_literal hquote (fun _ _ ↦ rfl) _ _
  refine ⟨hlength, (bytes_quotedLength?_iff (List.prefix_append _ _)).mpr hlength,
    fun right offset hclose ↦ Token.head?_scan_literal hquote hclose,
    unquote_literal hquote _, Path.compile?_literal hquote s⟩

/-- A backslash in front of an `n`, a quote and a character of two bytes, written between double
quotes in front of a text with one more quote. -/
theorem Text.reads_literal_backslashes :
    literal '"' "\\n\"é".toList = "\"\\\\n\\\"é\"".toList ∧
      Bytes.quotedLength? "\"\\\\n\\\"é\"n\"".toList = some 9 ∧
      (Token.scan ['\x7d'] ⟨3, "\"\\\\n\\\"é\"n\"".toList⟩).1.head? =
        some ⟨.quoted, "\"\\\\n\\\"é\"".toList, 3⟩ ∧
      unquote "\"\\\\n\\\"é\"".toList = "\\n\"é".toList ∧
      Path.compile? "%a[\"\\\\n\\\"é\"]".toList = some ⟨"a", [.entry "\\n\"é"]⟩ := by
  obtain ⟨-, hbytes, htoken, hunquote, hpath⟩ :=
    reads_literal (Or.inl rfl : '"' = '"' ∨ '"' = '\'') "\\n\"é" ['n', '"']
  exact ⟨rfl, hbytes, htoken ['\x7d'] 3 (by decide), hunquote, hpath⟩

namespace Token

variable {right : List Char} {c place : Cursor} {t : Token} {q : Char}

/-- A text is measured as a token up to some place exactly if it is measured in bytes up to there and
no backslash before that escapes a line feed. -/
theorem quotedLength?_iff_bytes {cs xs : List Char} (hxs : xs <+: cs) :
    quotedLength? cs = some xs.length ↔
      Bytes.quotedLength? cs = some (byteLength xs) ∧ '\n' ∉ Text.escaped xs := by
  rw [Text.bytes_quotedLength?_iff hxs, quotedLength?, Text.quotedLengthWith?_iff_escaped]
  have htake : cs.take xs.length = xs := (List.prefix_iff_eq_take.mp hxs).symm
  rw [htake]
  refine and_congr_right fun _ ↦ ⟨fun hall hmem ↦ ?_, fun hfeed c hc ↦ ?_⟩
  · exact absurd (hall _ hmem) (by decide)
  · exact bne_iff_ne.mpr fun hc' ↦ hfeed (hc' ▸ hc)

/-- What is found where a quote stands is a quoted text if the text there is measured as one and no
backslash in it escapes a line feed; in other words, if it begins with a word of the language of
quoted texts in which a line feed cannot be escaped. Then the token is this word, as long as it is
measured; else the text is taken as it stands. -/
theorem quoted_iff_measured (ht : t ∈ (scan right c).1) (hleads : c.Leads place)
    (hoffset : t.offset = place.offset) (hclose : ¬ right <+: place.rest)
    (hquote : q = '"' ∨ q = '\'') (hhead : place.rest.head? = some q) :
    (t.kind = .quoted ↔ ∃ xs, xs <+: place.rest ∧
        Bytes.quotedLength? place.rest = some (byteLength xs) ∧ '\n' ∉ Text.escaped xs) ∧
      (t.kind = .quoted ↔ ∃ xs ∈ Text.quotedText (· != '\n') q, xs <+: place.rest) ∧
      (t.kind = .quoted → t.text <+: place.rest ∧ t.text ∈ Text.quotedText (· != '\n') q ∧
        Bytes.quotedLength? place.rest = some (byteLength t.text)) ∧
      (t.kind ≠ .quoted → t.kind = .other) := by
  obtain ⟨c', hc', hfound⟩ := (scans_scan right c).found t ht
  obtain rfl : c'.skipBlanks = place :=
    (hc'.trans c'.leads_skipBlanks).unique hleads (hfound.offset_eq.symm.trans hoffset)
  have hbegins := hfound.begins
  have hmem {xs : List Char} (hxs : xs <+: c'.skipBlanks.rest) :
      quotedLength? c'.skipBlanks.rest = some xs.length ↔
        xs ∈ Text.quotedText (· != '\n') q :=
    Text.quotedLengthWith?_iff_mem hquote hhead hxs
  rcases hfound.quoted_or_other hclose hquote hhead with ⟨hkind, hlength⟩ | ⟨hkind, hnone⟩
  · have hbytes := (quotedLength?_iff_bytes hbegins).mp hlength
    have hword := (hmem hbegins).mp hlength
    exact ⟨iff_of_true hkind ⟨_, hbegins, hbytes⟩, iff_of_true hkind ⟨_, hword, hbegins⟩,
      fun _ ↦ ⟨hbegins, hword, hbytes.1⟩, fun hne ↦ absurd hkind hne⟩
  · have hne : t.kind ≠ .quoted := by rw [hkind]; decide
    have hno {xs : List Char} : quotedLength? c'.skipBlanks.rest ≠ some xs.length := by
      rw [hnone]
      simp
    refine ⟨iff_of_false hne ?_, iff_of_false hne ?_, fun h ↦ absurd h hne, fun _ ↦ hkind⟩
    · rintro ⟨xs, hxs, hbytes⟩
      exact hno ((quotedLength?_iff_bytes hxs).mpr hbytes)
    · rintro ⟨xs, hword, hxs⟩
      exact hno ((hmem hxs).mpr hword)

/-- A text with an escaped quote and a line feed, and behind it one that is not closed. -/
theorem quoted_iff_measured_unclosed :
    (scan ['\x7d'] ⟨1, " \"é\\\"\n\" 'b \x7d".toList⟩).1 =
        [⟨.quoted, "\"é\\\"\n\"".toList, 2⟩, ⟨.other, ['\'', 'b'], 10⟩, ⟨.close, ['\x7d'], 13⟩] ∧
      Bytes.quotedLength? "\"é\\\"\n\" 'b \x7d".toList = some 7 ∧
      ∀ xs ∈ Text.quotedText (· != '\n') '\'', ¬ xs <+: "'b \x7d".toList := by
  have hscan : (scan ['\x7d'] ⟨1, " \"é\\\"\n\" 'b \x7d".toList⟩).1 =
      [⟨.quoted, "\"é\\\"\n\"".toList, 2⟩, ⟨.other, ['\'', 'b'], 10⟩, ⟨.close, ['\x7d'], 13⟩] := by
    decide +kernel
  refine ⟨hscan, ?_, fun xs hxs hprefix ↦ ?_⟩
  · have ht : ⟨.quoted, "\"é\\\"\n\"".toList, 2⟩ ∈
        (scan ['\x7d'] ⟨1, " \"é\\\"\n\" 'b \x7d".toList⟩).1 := by
      rw [hscan]
      simp
    have hleads : Cursor.Leads ⟨1, " \"é\\\"\n\" 'b \x7d".toList⟩
        ⟨2, "\"é\\\"\n\" 'b \x7d".toList⟩ := ⟨[' '], rfl, rfl⟩
    have hfound := quoted_iff_measured (q := '"') ht hleads rfl (by decide) (Or.inl rfl) rfl
    exact (hfound.2.2.1 rfl).2.2
  · have ht : ⟨.other, ['\'', 'b'], 10⟩ ∈
        (scan ['\x7d'] ⟨1, " \"é\\\"\n\" 'b \x7d".toList⟩).1 := by
      rw [hscan]
      simp
    have hleads : Cursor.Leads ⟨1, " \"é\\\"\n\" 'b \x7d".toList⟩ ⟨10, "'b \x7d".toList⟩ :=
      ⟨" \"é\\\"\n\" ".toList, rfl, rfl⟩
    have hfound := quoted_iff_measured (q := '\'') ht hleads rfl (by decide) (Or.inr rfl) rfl
    exact absurd (hfound.2.1.mpr ⟨xs, hxs, hprefix⟩) (by decide)

/-- A line feed behind a backslash: six bytes are measured, and the token is something else. -/
theorem quoted_iff_measured_fails :
    ∃ t ∈ (scan ['\x7d'] ⟨0, "\"a\\\nb\"\x7d".toList⟩).1,
      t.offset = 0 ∧ ¬ ['\x7d'] <+: "\"a\\\nb\"\x7d".toList ∧
        Bytes.quotedLength? "\"a\\\nb\"\x7d".toList = some 6 ∧ t.kind ≠ .quoted := by
  have hscan : (scan ['\x7d'] ⟨0, "\"a\\\nb\"\x7d".toList⟩).1.head? =
      some ⟨.other, ['"', 'a', '\\'], 0⟩ := by
    decide +kernel
  have hbytes : Bytes.quotedLength? "\"a\\\nb\"\x7d".toList = some 6 :=
    (Text.bytes_quotedLength?_iff (List.prefix_append "\"a\\\nb\"".toList ['\x7d'])).mpr rfl
  exact ⟨_, List.mem_of_head? hscan, rfl, by decide, hbytes, by decide⟩

end Token

end Stencil
