import Mathlib.Computability.Language
import Stencil.Proofs.Lexemes

/-!
# Escapes in quoted texts

A quoted text is a quote, parts, and the same quote. Each part is a character, or a backslash and
the character that it escapes. This is a regular language, and the measure of quoted texts finds
its only word at the start of a source. To write a text between quotes is to choose, for every
character, a part that stands for it: any such choice is closed by the quote behind it and is read
as the text.

## Main definitions

* `Text.quotedPart`, `Text.quotedText`: the language of quoted texts.
* `Text.escaped`: the characters of a text that a backslash escapes.
* `Text.StandsFor`: what may stand for a character between quotes.
* `Text.enclose`: a text between quotes, written character by character.

## Main results

* `Text.quotedLengthWith?_iff_mem`: the measure finds the words of the language.
* `Text.quotedLengthWith?_iff_escaped`: what it means that not every character can be escaped.
* `Text.quotedLengthWith?_enclose`, `Text.unquote_enclose`: a text between quotes is one piece, and
  stands for the text.
-/

open scoped Computability

namespace Stencil.Text

variable {escapable : Char → Bool} {quote c : Char} {as body cs xs rest : List Char} {n : Nat}

/-! ### The language of quoted texts -/

/-- The parts between the quotes: a character that is neither the quote nor a backslash, or a
backslash and a character that can be escaped. -/
def quotedPart (escapable : Char → Bool) (quote : Char) : Language Char :=
  {cs | (∃ c, cs = [c] ∧ c ≠ quote ∧ c ≠ '\\') ∨ ∃ c, cs = ['\\', c] ∧ escapable c = true}

/-- The quoted texts: a quote, any number of parts, and the quote again. -/
def quotedText (escapable : Char → Bool) (quote : Char) : Language Char :=
  {[quote]} * (quotedPart escapable quote)∗ * {[quote]}

theorem mem_quotedPart : cs ∈ quotedPart escapable quote ↔
    (∃ c, cs = [c] ∧ c ≠ quote ∧ c ≠ '\\') ∨ ∃ c, cs = ['\\', c] ∧ escapable c = true :=
  Iff.rfl

theorem mem_quotedText : xs ∈ quotedText escapable quote ↔
    ∃ body ∈ (quotedPart escapable quote)∗, xs = quote :: body ++ [quote] := by
  constructor
  · rintro ⟨_, ⟨_, rfl, body, hbody, rfl⟩, _, rfl, rfl⟩
    exact ⟨body, hbody, rfl⟩
  · rintro ⟨body, hbody, rfl⟩
    exact ⟨[quote] ++ body, ⟨[quote], rfl, body, hbody, rfl⟩, [quote], rfl, rfl⟩

theorem append_mem_kstar {l : Language Char} (has : as ∈ l) (hbody : body ∈ l∗) :
    as ++ body ∈ l∗ := by
  have hle : l * l∗ ≤ l∗ := mul_kstar_le_kstar
  exact Set.mem_of_subset_of_mem hle (Language.append_mem_mul has hbody)

/-- Parts are passed up to the quote behind them. -/
theorem closingLength?_of_mem_kstar (hquote : quote ≠ '\\')
    (h : body ∈ (quotedPart escapable quote)∗) (rest : List Char) :
    closingLength? escapable quote (body ++ quote :: rest) = some (body.length + 1) := by
  obtain ⟨parts, rfl, hparts⟩ := Language.mem_kstar.mp h
  clear h
  induction parts with
  | nil => rw [List.flatten_nil, List.nil_append, closingLength?_cons_of_ne hquote, if_pos rfl]; rfl
  | cons part parts ih =>
    obtain ⟨hpart, hparts⟩ := List.forall_mem_cons.mp hparts
    have hrest := ih hparts
    rw [List.flatten_cons, List.append_assoc]
    rcases mem_quotedPart.mp hpart with ⟨c, rfl, hc, hslash⟩ | ⟨c, rfl, hc⟩
    · rw [List.singleton_append, closingLength?_cons_of_ne hslash, if_neg hc, hrest]
      rfl
    · simp only [List.cons_append, List.nil_append, closingLength?, hc, if_true, hrest]
      rfl

/-- What is passed up to a closing quote consists of parts. -/
theorem exists_of_closingLength? (h : closingLength? escapable quote cs = some n) :
    ∃ body rest, cs = body ++ quote :: rest ∧ body ∈ (quotedPart escapable quote)∗ ∧
      n = body.length + 1 := by
  fun_induction closingLength? escapable quote cs generalizing n with
  | case1 => simp at h
  | case2 c cs hc ih =>
    obtain ⟨m, hm, rfl⟩ := Option.map_eq_some_iff.mp h
    obtain ⟨body, rest, rfl, hbody, rfl⟩ := ih hm
    exact ⟨['\\', c] ++ body, rest, rfl, append_mem_kstar (Or.inr ⟨c, rfl, hc⟩) hbody, rfl⟩
  | case3 => simp at h
  | case4 cs hne =>
    exact ⟨[], cs, rfl, Language.nil_mem_kstar _, (Option.some.inj h).symm⟩
  | case5 c cs hne hc ih =>
    obtain ⟨m, hm, rfl⟩ := Option.map_eq_some_iff.mp h
    obtain ⟨d, ds, rfl⟩ := List.exists_cons_of_ne_nil (closingLength?_ne_nil hm)
    have hslash : c ≠ '\\' := fun he ↦ hne d ds he rfl
    obtain ⟨body, rest, hbody, hparts, rfl⟩ := ih hm
    rw [hbody]
    exact ⟨[c] ++ body, rest, rfl, append_mem_kstar (Or.inl ⟨c, rfl, hc, hslash⟩) hparts, rfl⟩

theorem quotedLengthWith?_le (h : quotedLengthWith? escapable cs = some n) : n ≤ cs.length := by
  obtain ⟨q, ds, m, rfl, -, -, hm, rfl⟩ := quotedLengthWith?_eq_some h
  obtain ⟨body, rest, rfl, -, rfl⟩ := exists_of_closingLength? hm
  simp

/-- Where a quote stands, a text is measured up to some place exactly if it is a quoted text up to
there. -/
theorem quotedLengthWith?_iff_mem (hquote : quote = '"' ∨ quote = '\'')
    (hhead : cs.head? = some quote) (hxs : xs <+: cs) :
    quotedLengthWith? escapable cs = some xs.length ↔ xs ∈ quotedText escapable quote := by
  have hslash : quote ≠ '\\' := by rcases hquote with rfl | rfl <;> decide
  constructor
  · intro h
    obtain ⟨ds, rfl⟩ := List.head?_eq_some_iff.mp hhead
    rw [quotedLengthWith?_cons hquote] at h
    obtain ⟨m, hm, hlen⟩ := Option.map_eq_some_iff.mp h
    obtain ⟨body, rest, rfl, hbody, rfl⟩ := exists_of_closingLength? hm
    have hsplit : quote :: (body ++ quote :: rest) = (quote :: body ++ [quote]) ++ rest := by simp
    have hword : xs = quote :: body ++ [quote] := by
      rw [hsplit] at hxs
      exact (List.prefix_of_prefix_length_le hxs (List.prefix_append _ _) (by simp [← hlen]))
        |>.eq_of_length (by simp [← hlen])
    exact mem_quotedText.mpr ⟨body, hbody, hword⟩
  · intro h
    obtain ⟨body, hbody, rfl⟩ := mem_quotedText.mp h
    obtain ⟨rest, rfl⟩ := hxs
    rw [List.append_assoc, List.cons_append, List.singleton_append, quotedLengthWith?_cons hquote,
      closingLength?_of_mem_kstar hslash hbody]
    simp

/-! ### Characters that cannot be escaped -/

/-- The characters of a text that stand behind a backslash which is not itself behind one. -/
def escaped : List Char → List Char
  | '\\' :: c :: cs => c :: escaped cs
  | _ :: cs => escaped cs
  | [] => []

theorem escaped_cons_of_ne (hc : c ≠ '\\') (cs : List Char) : escaped (c :: cs) = escaped cs := by
  cases cs <;> simp [escaped, hc]

theorem closingLength?_iff_escaped (hquote : quote ≠ '\\') :
    closingLength? escapable quote cs = some n ↔
      closingLength? (fun _ ↦ true) quote cs = some n ∧
        ∀ c ∈ escaped (cs.take n), escapable c = true := by
  fun_induction closingLength? (fun _ ↦ true) quote cs generalizing n with
  | case1 => simp [closingLength?]
  | case2 c cs _ ih =>
    rw [closingLength?, Option.map_eq_some_iff]
    constructor
    · intro h
      split at h
      · rename_i hc
        obtain ⟨m, hm, rfl⟩ := Option.map_eq_some_iff.mp h
        obtain ⟨hm, hall⟩ := ih.mp hm
        exact ⟨⟨m, hm, rfl⟩, List.forall_mem_cons.mpr ⟨hc, hall⟩⟩
      · simp at h
    · rintro ⟨⟨m, hm, rfl⟩, hall⟩
      obtain ⟨hc, hall⟩ := List.forall_mem_cons.mp hall
      rw [if_pos hc, ih.mpr ⟨hm, hall⟩, Option.map_some]
  | case3 c cs hc => simp at hc
  | case4 cs hne =>
    rw [closingLength?_cons_of_ne hquote, if_pos rfl]
    refine ⟨fun h ↦ ⟨h, ?_⟩, And.left⟩
    obtain rfl := Option.some.inj h
    simp [escaped_cons_of_ne hquote, escaped]
  | case5 c cs hne hc ih =>
    by_cases hslash : c = '\\'
    · -- a backslash that ends the text
      subst hslash
      obtain rfl : cs = [] := by
        cases cs with
        | nil => rfl
        | cons d ds => exact (hne d ds rfl rfl).elim
      simp [closingLength?, hc]
    · rw [closingLength?_cons_of_ne hslash, if_neg hc, Option.map_eq_some_iff,
        Option.map_eq_some_iff]
      constructor
      · rintro ⟨m, hm, rfl⟩
        obtain ⟨hm, hall⟩ := ih.mp hm
        rw [List.take_succ_cons, escaped_cons_of_ne hslash]
        exact ⟨⟨m, hm, rfl⟩, hall⟩
      · rintro ⟨⟨m, hm, rfl⟩, hall⟩
        rw [List.take_succ_cons, escaped_cons_of_ne hslash] at hall
        exact ⟨m, ih.mpr ⟨hm, hall⟩, rfl⟩

/-- Where not every character can be escaped, the same quoted texts are found except those with an
escape that there is not. -/
theorem quotedLengthWith?_iff_escaped : quotedLengthWith? escapable cs = some n ↔
    quotedLength? cs = some n ∧ ∀ c ∈ escaped (cs.take n), escapable c = true := by
  cases cs with
  | nil => simp [quotedLength?, quotedLengthWith?]
  | cons q cs =>
    by_cases hq : q = '"' ∨ q = '\''
    · have hslash : q ≠ '\\' := by rcases hq with rfl | rfl <;> decide
      rw [quotedLength?, quotedLengthWith?_cons hq, quotedLengthWith?_cons hq,
        Option.map_eq_some_iff, Option.map_eq_some_iff]
      constructor
      · rintro ⟨m, hm, rfl⟩
        obtain ⟨hm, hall⟩ := (closingLength?_iff_escaped hslash).mp hm
        rw [List.take_succ_cons, escaped_cons_of_ne hslash]
        exact ⟨⟨m, hm, rfl⟩, hall⟩
      · rintro ⟨⟨m, hm, rfl⟩, hall⟩
        rw [List.take_succ_cons, escaped_cons_of_ne hslash] at hall
        exact ⟨m, (closingLength?_iff_escaped hslash).mpr ⟨hm, hall⟩, rfl⟩
    · simp [quotedLength?, quotedLengthWith?, hq]

/-! ### Writing between quotes -/

/-- What may stand for a character between quotes: the character, or a backslash and what is
resolved to it. No line feed is ever escaped. -/
inductive StandsFor (quote c : Char) : List Char → Prop
  | self (hquote : c ≠ quote) (hslash : c ≠ '\\') : StandsFor quote c [c]
  | escape {d : Char} (hd : d ≠ '\n') (h : resolveEscape quote d = [c]) :
    StandsFor quote c ['\\', d]

/-- A text between quotes, written character by character. -/
def enclose (quote : Char) (write : Char → List Char) (cs : List Char) : List Char :=
  quote :: cs.flatMap write ++ [quote]

section Enclose

variable {write : Char → List Char} (h : ∀ c ∈ cs, StandsFor quote c (write c))
include h

theorem flatMap_mem_kstar (hesc : ∀ d, d ≠ '\n' → escapable d = true) :
    cs.flatMap write ∈ (quotedPart escapable quote)∗ := by
  refine Language.mem_kstar.mpr ⟨cs.map write, List.flatMap_def, fun part hpart ↦ ?_⟩
  obtain ⟨c, hc, rfl⟩ := List.mem_map.mp hpart
  have hpart := h c hc
  generalize write c = part at hpart
  cases hpart with
  | self hquote hslash => exact Or.inl ⟨c, rfl, hquote, hslash⟩
  | escape hd => exact Or.inr ⟨_, rfl, hesc _ hd⟩

theorem unescape_flatMap : unescape quote (cs.flatMap write) = cs := by
  induction cs with
  | nil => rfl
  | cons c cs ih =>
    obtain ⟨hc, hcs⟩ := List.forall_mem_cons.mp h
    rw [List.flatMap_cons]
    generalize write c = part at hc
    cases hc with
    | self _ hslash => simp [unescape, hslash, ih hcs]
    | escape _ hresolve => simp [unescape, hresolve, ih hcs]

/-- A text between quotes is one piece, whatever follows it. -/
theorem quotedLengthWith?_enclose (hquote : quote = '"' ∨ quote = '\'')
    (hesc : ∀ d, d ≠ '\n' → escapable d = true) (rest : List Char) :
    quotedLengthWith? escapable (enclose quote write cs ++ rest) =
      some (enclose quote write cs).length :=
  (quotedLengthWith?_iff_mem hquote rfl (List.prefix_append _ rest)).mpr
    (mem_quotedText.mpr ⟨_, flatMap_mem_kstar h hesc, rfl⟩)

/-- A text between quotes stands for the text. -/
theorem unquote_enclose : unquote (enclose quote write cs) = cs := by
  have hbody := unescape_flatMap h
  simpa [unquote, enclose] using hbody

end Enclose

end Stencil.Text
