import Stencil.Proofs.Literals
import Stencil.Proofs.Nestings
import Stencil.Proofs.NumberLiterals
import Stencil.Proofs.Variables
import Stencil.Proofs.WrittenPaths

/-!
# Conditions written out

An expression is written with every operator between blanks and every argument and group between
parentheses. The text is read token by token as it was written, since no token goes on with what is
written behind it, and so it is accepted as the same expression, without a warning.

## Main definitions

* `Value.Plain`: the literals that are written as a condition spells them.
* `Condition.Writes`: a text that is read as tokens saying something, whatever stop follows.

## Main results

* `Condition.writes_write`: an expression that is written out is read as what it says.
* `Condition.compile_write`: a condition that is accepted is accepted again as it is written out.
-/

namespace Stencil

open Token (Kind)
open Text (Cursor)

/-! ### Literals -/

namespace Value

/-- The literals that are written as a condition spells them: integers, truth values and plain
texts. -/
inductive Plain : Value → Prop
  | text {s : String} (h : ∀ c ∈ s.toList, Text.isPlain c = true) : Plain (.text s)
  | bool (b : Bool) : Plain (.bool b)
  | int (n : Int64) : Plain (.int n)

variable {v : Value}

theorem IsSpelled.plain (h : v.IsSpelled) (hfloat : ∀ x, v ≠ .float x)
    (htext : ∀ s, v = .text s → ∀ c ∈ s.toList, Text.isPlain c = true) : v.Plain := by
  cases h with
  | text s => exact .text (htext s rfl)
  | bool b => exact .bool b
  | int n => exact .int n
  | float x => exact absurd rfl (hfloat x)

/-- The decimal text of an integer spells the integer. -/
theorem ofNumeral?_decimal (n : Int64) : ofNumeral? (Numeral.decimal n.toInt) = some (.int n) := by
  obtain ⟨v, hv, ⟨-, hm⟩ | hwide⟩ := ofNumeral?_of_denotes (Numeral.denotes_decimal n.toInt)
  · rw [hv, Int64.toInt_inj.mp hm]
  · exact absurd (Numeral.hasWord_decimal_iff.mpr (Numeral.fitsWord_toInt n)) hwide

theorem writeLiteral_int (n : Int64) : Expr.writeLiteral (.int n) = Numeral.decimal n.toInt := by
  simp [Expr.writeLiteral, display, intText]

theorem Plain.exists_head? (h : v.Plain) :
    ∃ a, (Expr.writeLiteral v).head? = some a ∧ a ≠ '=' := by
  cases h with
  | text => exact ⟨'"', rfl, by decide⟩
  | bool b => cases b <;> exact ⟨_, rfl, by decide⟩
  | int n =>
    rw [writeLiteral_int]
    cases n.toInt with
    | ofNat k =>
      obtain ⟨c, ds, hcs⟩ := List.exists_cons_of_ne_nil (Numeral.digits_ne_nil 10 k)
      refine ⟨c, by rw [Numeral.decimal, hcs, List.head?_cons], ?_⟩
      rintro rfl
      have hdigit := Numeral.isDigit_of_mem_digits (n := k) (by rw [hcs]; exact List.mem_cons_self)
      exact absurd hdigit (by decide)
    | negSucc k => exact ⟨'-', rfl, by decide⟩

/-- A plain literal is written as one token, which says the literal. -/
theorem Plain.known?_writeLiteral (h : v.Plain) : ∃ k ∈ Token.wordKinds,
    Token.known? (Expr.writeLiteral v) = some ⟨k, (Expr.writeLiteral v).length⟩ ∧
      ∀ o, Token.meaning? ⟨k, Expr.writeLiteral v, o⟩ = some (.literal v) := by
  cases h with
  | @text s h =>
    have hquoted : Token.quotedLength? (Text.quote s.toList) =
        some (Text.quote s.toList).length := by
      have hlength := Text.quotedLengthWith?_quote (fun d hd ↦ bne_iff_ne.mpr hd) h []
      rwa [List.append_nil] at hlength
    refine ⟨.quoted, by decide, Token.known?_of_quotedLength? hquoted, fun o ↦ ?_⟩
    simp [Token.meaning?, Expr.writeLiteral, Text.unquote_quote h]
  | bool b =>
    refine ⟨.truth, by decide, ?_⟩
    cases b <;> exact ⟨by decide +kernel, fun o ↦ rfl⟩
  | int n =>
    have hlength := Token.numberLength?_of_denotes (Numeral.denotes_decimal n.toInt)
    rw [writeLiteral_int]
    refine ⟨.number, by decide, Token.known?_of_numberLength? hlength, fun o ↦ ?_⟩
    simp [Token.meaning?, ofNumeral?_decimal]

end Value

/-! ### Texts that are read as they were written -/

namespace Condition

open Token (Spelled isStop goesOn wordKinds)

variable {cs ds text : List Char} {ms ns : List Meaning} {m : Meaning} {k : Kind}

/-- A text that begins with a stop, or that is empty. -/
def Stops (cs : List Char) : Prop :=
  ∀ a, cs.head? = some a → isStop a = true

/-- A text is read as tokens that say something, whatever stop follows. None of the tokens is a
single equals sign. -/
def Writes (cs : List Char) (ms : List Meaning) : Prop :=
  ∀ ⦃o : Nat⦄ ⦃rest : List Char⦄ ⦃body : List Token⦄ ⦃next : Cursor⦄, Stops rest →
    Spelled (o + Text.byteLength cs) rest body next →
      ∃ ts, Spelled o (cs ++ rest) (ts ++ body) next ∧ Says ts ms ∧ ∀ t ∈ ts, t.kind ≠ .assign

theorem stops_cons {a : Char} (ha : isStop a = true) (cs : List Char) : Stops (a :: cs) := by
  intro b hb
  rwa [← Option.some.inj hb]

theorem Stops.append (h : Stops cs) (h' : Stops ds) : Stops (cs ++ ds) := by
  cases cs with
  | nil => exact h'
  | cons c cs => exact h

theorem writes_nil : Writes [] [] :=
  fun _ _ _ _ _ h ↦ ⟨[], h, rfl, List.forall_mem_nil _⟩

theorem Writes.append (h : Writes cs ms) (h' : Writes ds ns) (hds : Stops ds) :
    Writes (cs ++ ds) (ms ++ ns) := by
  intro o rest body next hrest hspelled
  rw [Text.byteLength_append, ← Nat.add_assoc] at hspelled
  obtain ⟨us, hus, hsaid', hno'⟩ := h' hrest hspelled
  obtain ⟨ts, hts, hsaid, hno⟩ := h (hds.append hrest) hus
  rw [← List.append_assoc, ← List.append_assoc] at hts
  exact ⟨ts ++ us, hts, hsaid.append hsaid', List.forall_mem_append.mpr ⟨hno, hno'⟩⟩

/-- A token that no name and no number goes on with is read in front of every stop. -/
theorem writes_of_known? (hl : Token.known? text = some ⟨k, text.length⟩) (hk : k ∈ wordKinds)
    (hm : ∀ o, Token.meaning? ⟨k, text, o⟩ = some m) : Writes text [m] := by
  intro o rest body next hrest hspelled
  have hgoes : Text.BeginsOutside (goesOn k text) rest :=
    fun a ha ↦ Token.goesOn_of_isStop hk (hrest a ha)
  refine ⟨[⟨k, text, o⟩], hspelled.cons hl hgoes, Says.cons (hm o) rfl, ?_⟩
  rintro t ht
  obtain rfl := List.mem_singleton.mp ht
  rintro rfl
  exact absurd hk (by decide)

/-- A symbol is read in front of what does not go on with it. -/
theorem Writes.symbol (h : Writes cs ms) (hl : Token.known? text = some ⟨k, text.length⟩)
    (hk : k ≠ .assign) (hm : ∀ o, Token.meaning? ⟨k, text, o⟩ = some m) {a : Char}
    (hhead : cs.head? = some a) (hgoes : goesOn k text a = false) :
    Writes (text ++ cs) (m :: ms) := by
  intro o rest body next hrest hspelled
  rw [Text.byteLength_append, ← Nat.add_assoc] at hspelled
  obtain ⟨ts, hts, hsaid, hno⟩ := h hrest hspelled
  have hbegins : Text.BeginsOutside (goesOn k text) (cs ++ rest) := by
    intro b hb
    rw [List.head?_append, hhead, Option.some_or] at hb
    exact Option.some.inj hb ▸ hgoes
  rw [List.append_assoc]
  exact ⟨⟨k, text, o⟩ :: ts, hts.cons hl hbegins, hsaid.cons (hm o),
    List.forall_mem_cons.mpr ⟨hk, hno⟩⟩

theorem Writes.blank (h : Writes cs ms) : Writes (' ' :: cs) ms := by
  intro o rest body next hrest hspelled
  rw [Text.byteLength_cons, ← Nat.add_assoc] at hspelled
  obtain ⟨ts, hts, hsaid⟩ := h hrest hspelled
  exact ⟨ts, hts.blank (by decide), hsaid⟩

/-! ### Symbols written out -/

/-- No symbol begins with a parenthesis and goes on. -/
theorem goesOn_parenthesis {p : Char} (hp : p = '(' ∨ p = ')')
    (hk : Token.symbolKind? (String.ofList [p]) = some k) (a : Char) : goesOn k [p] a = false := by
  have hall : ∀ u ∈ Token.symbols, u.toList.head? = some '(' ∨ u.toList.head? = some ')' →
      u.toList.length = 1 := by
    decide +kernel
  refine Token.goesOn_eq_false hk (fun u hu heq ↦ ?_) ?_ ?_
  · have hlength := hall u hu (by simpa [heq] using hp)
    simp [heq] at hlength
  all_goals rcases hp with rfl | rfl <;> simp

theorem goesOn_unary (op : UnaryOp) {a : Char} (ha : a ≠ '=') :
    goesOn .unary op.symbol.toList a = false := by
  have hall : ∀ u ∈ Token.symbols, ∀ op ∈ UnaryOp.all,
      u.toList.take 1 = op.symbol.toList → u.toList.drop 1 ⊆ ['='] := by
    decide +kernel
  have hkind : Token.symbolKind? (String.ofList op.symbol.toList) = some .unary := by
    cases op <;> decide
  have hlen : op.symbol.toList.length = 1 := by cases op <;> rfl
  refine Token.goesOn_eq_false hkind (fun u hu heq ↦ ?_) (by cases op <;> simp [UnaryOp.symbol])
    (by cases op <;> simp [UnaryOp.symbol])
  have hmem := hall u hu op (by cases op <;> decide) (by rw [heq, List.take_left' hlen])
  rw [heq, List.drop_left' hlen] at hmem
  exact ha (by simpa using hmem)

theorem goesOn_binary (op : BinaryOp) : goesOn .binary op.symbol.toList ' ' = false := by
  have hall : ∀ u ∈ Token.symbols, ' ' ∉ u.toList := by
    decide +kernel
  have hkind : Token.symbolKind? (String.ofList op.symbol.toList) = some .binary := by
    cases op <;> decide
  exact Token.goesOn_eq_false hkind (fun u hu heq ↦ hall u hu (by simp [heq]))
    (fun _ ↦ by decide) (fun _ ↦ by decide)

theorem Writes.unary (op : UnaryOp) (h : Writes cs ms) {a : Char} (hhead : cs.head? = some a)
    (ha : a ≠ '=') : Writes (op.symbol.toList ++ cs) (.unary op :: ms) := by
  have hl : Token.known? op.symbol.toList = some ⟨.unary, op.symbol.toList.length⟩ := by
    cases op <;> decide +kernel
  refine h.symbol hl (by decide) (fun o ↦ ?_) hhead (goesOn_unary op ha)
  simp [Token.meaning?, Token.symbol, UnaryOp.ofSymbol?_symbol]

theorem Writes.operation (op : BinaryOp) (h : Writes cs ms) :
    Writes (' ' :: op.symbol.toList ++ ' ' :: cs) (.binary op :: ms) := by
  have hl : Token.known? op.symbol.toList = some ⟨.binary, op.symbol.toList.length⟩ := by
    cases op <;> decide +kernel
  refine Writes.blank (h.blank.symbol hl (by decide) (fun o ↦ ?_) rfl (goesOn_binary op))
  simp [Token.meaning?, Token.symbol, BinaryOp.ofSymbol?_symbol]

theorem writes_closeParen : Writes [')'] [.closeParen] := by
  intro o rest body next hrest hspelled
  have hl : Token.known? [')'] = some ⟨.closeParen, [')'].length⟩ := by decide +kernel
  have hgoes (a : Char) : goesOn .closeParen [')'] a = false :=
    goesOn_parenthesis (Or.inr rfl) (by decide) a
  exact ⟨[⟨.closeParen, [')'], o⟩], hspelled.cons hl fun a _ ↦ hgoes a, rfl, by simp⟩

/-- What stands between parentheses is read as it was. -/
theorem Writes.enclosed (h : Writes cs ms) :
    Writes ('(' :: cs ++ [')']) (.openParen :: (ms ++ [.closeParen])) := by
  have hl : Token.known? ['('] = some ⟨.openParen, ['('].length⟩ := by decide +kernel
  have hinner := h.append writes_closeParen (stops_cons (by decide) [])
  obtain ⟨a, as, has⟩ := List.exists_cons_of_ne_nil (List.concat_ne_nil ')' cs)
  have hhead : (cs ++ [')']).head? = some a := by rw [has, List.head?_cons]
  exact hinner.symbol hl (by decide) (fun o ↦ rfl) hhead
    (goesOn_parenthesis (Or.inl rfl) (by decide) a)

theorem writes_name (f : Function) : Writes f.name.toList [.function f] := by
  have hl : Token.known? f.name.toList = some ⟨.word, f.name.toList.length⟩ := by
    cases f <;> decide +kernel
  have hname : Function.ofName? f.name = some f := by cases f <;> decide +kernel
  refine writes_of_known? hl (by decide) fun o ↦ ?_
  simp [Token.meaning?, Token.symbol, hname]

/-! ### Expressions written out -/

theorem exists_head?_write : ∀ {e : Expr}, (∀ v ∈ e.literals, v.Plain) →
    ∃ a, e.write.head? = some a ∧ a ≠ '='
  | .path p, _ => ⟨'%', rfl, by decide⟩
  | .literal v, h => (h v (List.mem_singleton_self v)).exists_head?
  | .call f (some arg), _ | .call f none, _ => by
    cases f <;> exact ⟨_, rfl, by decide⟩
  | .unary op operand, _ => by
    cases op <;> exact ⟨_, rfl, by decide⟩
  | .chain first rest, h => by
    rw [Expr.literals, List.forall_mem_append] at h
    obtain ⟨a, ha, hne⟩ := exists_head?_write h.1
    exact ⟨a, by rw [Expr.write, List.head?_append, ha, Option.some_or], hne⟩
  | .group inner, _ => ⟨'(', rfl, by decide⟩

theorem stops_openParen : Stops ('(' :: cs) :=
  stops_cons (by decide) cs

theorem stops_writeRest (rest : List (BinaryOp × Expr)) : Stops (Expr.writeRest rest) := by
  cases rest with
  | nil => simp [Stops, Expr.writeRest]
  | cons r rest =>
    exact stops_cons (a := ' ') (by decide) _

theorem writes_path {p : Path} (hp : p.WellFormed) (hplain : p.Plain) :
    Writes p.write [.path p] := by
  refine writes_of_known? (Token.known?_of_pathLength? (Path.pathLength?_write hp hplain))
    (by decide) fun o ↦ ?_
  simp [Token.meaning?, Path.compile?_write hp hplain]

mutual

/-- An expression that is written out is read as what it says. -/
theorem writes_write : ∀ {e : Expr}, (∀ v ∈ e.literals, v.Plain) →
    (∀ p ∈ e.paths, p.WellFormed ∧ p.Plain) → Writes e.write e.meanings
  | .path p, _, hp => by
    obtain ⟨hgood, hplain⟩ := hp p (List.mem_singleton_self p)
    exact writes_path hgood hplain
  | .literal v, hv, _ => by
    obtain ⟨k, hk, hl, hm⟩ := (hv v (List.mem_singleton_self v)).known?_writeLiteral
    exact writes_of_known? hl hk hm
  | .call f (some arg), hv, hp => by
    have hcall := (writes_name f).append (writes_write (e := arg) hv hp).enclosed stops_openParen
    rw [Expr.write, List.append_assoc]
    exact hcall
  | .call f none, _, _ => (writes_name f).append writes_nil.enclosed stops_openParen
  | .unary op operand, hv, hp => by
    obtain ⟨a, ha, hne⟩ := exists_head?_write (e := operand) hv
    exact (writes_write (e := operand) hv hp).unary op ha hne
  | .chain first rest, hv, hp => by
    rw [Expr.literals, List.forall_mem_append] at hv
    rw [Expr.paths, List.forall_mem_append] at hp
    exact (writes_write hv.1 hp.1).append (writes_writeRest hv.2 hp.2) (stops_writeRest rest)
  | .group inner, hv, hp => (writes_write (e := inner) hv hp).enclosed

theorem writes_writeRest : ∀ {rest : List (BinaryOp × Expr)},
    (∀ v ∈ Expr.literalsRest rest, v.Plain) →
      (∀ p ∈ Expr.pathsRest rest, p.WellFormed ∧ p.Plain) →
        Writes (Expr.writeRest rest) (Expr.meaningsRest rest)
  | [], _, _ => writes_nil
  | (op, e) :: rest, hv, hp => by
    rw [Expr.literalsRest, List.forall_mem_append] at hv
    rw [Expr.pathsRest, List.forall_mem_append] at hp
    have hfirst := (writes_write hv.1 hp.1).operation op
    exact hfirst.append (writes_writeRest hv.2 hp.2) (stops_writeRest rest)

end

/-! ### Accepted conditions written out -/

mutual

/-- The paths of an expression are among what it says. -/
theorem path_mem_meanings : ∀ {e : Expr} {p : Path}, p ∈ e.paths → .path p ∈ e.meanings
  | .path p, q, h => by
    obtain rfl := List.mem_singleton.mp h
    exact List.mem_singleton_self _
  | .literal _, _, h | .call _ none, _, h => absurd h List.not_mem_nil
  | .call _ (some arg), p, h => by simp [Expr.meanings, path_mem_meanings (e := arg) h]
  | .unary _ arg, p, h => by simp [Expr.meanings, path_mem_meanings (e := arg) h]
  | .group arg, p, h => by simp [Expr.meanings, path_mem_meanings (e := arg) h]
  | .chain first rest, p, h => by
    rcases List.mem_append.mp h with h | h
    · simp [Expr.meanings, path_mem_meanings h]
    · simp [Expr.meanings, path_mem_meaningsRest h]

theorem path_mem_meaningsRest : ∀ {rest : List (BinaryOp × Expr)} {p : Path},
    p ∈ Expr.pathsRest rest → .path p ∈ Expr.meaningsRest rest
  | [], _, h => absurd h List.not_mem_nil
  | (op, e) :: rest, p, h => by
    rcases List.mem_append.mp h with h | h
    · simp [Expr.meaningsRest, path_mem_meanings h]
    · simp [Expr.meaningsRest, path_mem_meaningsRest h]

end

/-- A path that a token says is one that texts spell. -/
theorem wellFormed_of_meaning? {t : Token} {p : Path} (h : t.meaning? = some (.path p)) :
    p.WellFormed := by
  unfold Token.meaning? at h
  generalize t.kind = kind at h
  cases kind with
  | path =>
    obtain ⟨q, hq, heq⟩ := Option.map_eq_some_iff.mp h
    exact Meaning.path.inj heq ▸ Path.wellFormed_of_compile? hq
  | number | binary | unary | word =>
    obtain ⟨_, -, heq⟩ := Option.map_eq_some_iff.mp h
    cases heq
  | _ => cases h

section Accepted

variable {c next : Cursor} {body : List Token} {e : Expr} {notes : Log}

/-- The text of a well-formed expression is accepted as the expression. -/
theorem exists_accepts_write (hgood : e.WellFormed) (hdepth : e.depth ≤ maxNesting)
    (hv : ∀ v ∈ e.literals, v.Plain) (hp : ∀ p ∈ e.paths, p.WellFormed ∧ p.Plain) :
    ∃ body, Accepts ['\x7d'] (.ofText (e.write ++ ['\x7d'])) body e
        ⟨Text.byteLength (e.write ++ ['\x7d']), []⟩ ∧ warnings body = [] := by
  have hclose := @Spelled.close (0 + Text.byteLength e.write) [] [] (List.forall_mem_nil _)
  obtain ⟨ts, hspelled, hsaid, hno⟩ := writes_write hv hp (stops_cons (by decide) []) hclose
  rw [List.append_nil, Nat.zero_add] at hspelled
  refine ⟨ts, accepts_iff.mpr ⟨?_, hsaid, hgood, hdepth⟩, ?_⟩
  · rw [Text.byteLength_append]
    exact hspelled.closes
  · simpa [warnings] using hno

/-- A condition that is accepted is accepted again as it is written out, up to the end of that text
and without a warning, and its paths are spelled by their texts. This asks that it has no
floating-point numbers, which have other texts, and that its texts and its entries are plain. -/
theorem compile_write (h : compile ['\x7d'] c = (.accepted e next, notes))
    (hfloat : ∀ x, .float x ∉ e.literals)
    (htext : ∀ s, .text s ∈ e.literals → ∀ c ∈ s.toList, Text.isPlain c = true)
    (hentry : ∀ p ∈ e.paths, ∀ s, .entry s ∈ p.steps → ∀ c ∈ s.toList, Text.isPlain c = true) :
    compile ['\x7d'] (.ofText (e.write ++ ['\x7d'])) =
        (.accepted e ⟨Text.byteLength (e.write ++ ['\x7d']), []⟩, []) ∧
      ∀ p ∈ e.paths, Path.compile? p.write = some p := by
  have hright : ['\x7d'] ≠ [] := List.cons_ne_nil _ _
  obtain ⟨body, haccepts, -⟩ := (compile_eq_accepted_iff hright).mp h
  obtain ⟨-, -, hgood, hdepth⟩ := accepts_iff.mp haccepts
  have hv : ∀ v ∈ e.literals, v.Plain := by
    intro v hv
    refine (haccepts.isSpelled hright v hv).plain ?_ ?_
    · exact fun x hx ↦ hfloat x (hx ▸ hv)
    · exact fun s hs ↦ htext s (hs ▸ hv)
  have hp : ∀ p ∈ e.paths, p.WellFormed ∧ p.Plain := by
    intro p hp
    obtain ⟨t, -, ht⟩ := haccepts.exists_meaning? hright (path_mem_meanings hp)
    refine ⟨wellFormed_of_meaning? ht, fun s hs ↦ ?_⟩
    cases s with
    | entry name => exact hentry p hp name hs
    | field | position => trivial
  obtain ⟨body', haccepts', hwarnings⟩ := exists_accepts_write hgood hdepth hv hp
  refine ⟨(compile_eq_accepted_iff hright).mpr ⟨body', haccepts', hwarnings.symm⟩, fun p hmem ↦ ?_⟩
  exact Path.compile?_write (hp p hmem).1 (hp p hmem).2

/-- A condition with a key in single quotes, a single equals sign and a hexadecimal number, and how
it is written out. -/
theorem compile_write_of_call :
    ∃ e next notes,
      compile ['\x7d'] (.ofText "%a['k'] = 'it\\'s'||!(length(%b)>-0x1f)\x7d".toList) =
        (.accepted e next, notes) ∧
      e.write = "%a[\"k\"] == \"it's\" || !(length(%b) > -31)".toList ∧
      compile ['\x7d'] (.ofText "%a[\"k\"] == \"it's\" || !(length(%b) > -31)\x7d".toList) =
        (.accepted e ⟨41, []⟩, []) := by
  have hexpr : (compile ['\x7d']
        (.ofText "%a['k'] = 'it\\'s'||!(length(%b)>-0x1f)\x7d".toList)).1.accepted?.map
      (fun accepted ↦ (accepted.1.write, accepted.1.paths, accepted.1.literals.all fun
        | .text s => s.toList.all Text.isPlain
        | .float _ => false
        | _ => true)) = some ("%a[\"k\"] == \"it's\" || !(length(%b) > -31)".toList,
          [⟨"a", [.entry "k"]⟩, ⟨"b", []⟩], true) := by
    decide +kernel
  obtain ⟨e, next, notes, h, heq⟩ := exists_of_accepted? hexpr
  obtain ⟨hwrite, heq⟩ := Prod.mk.inj heq
  obtain ⟨hpaths, hliterals⟩ := Prod.mk.inj heq
  rw [List.all_eq_true] at hliterals
  have hagain := (compile_write h ?_ ?_ ?_).1
  · rw [hwrite] at hagain
    exact ⟨e, next, notes, h, hwrite, hagain⟩
  · exact fun x hx ↦ absurd (hliterals _ hx) (by simp)
  · intro s hs
    simpa using hliterals _ hs
  · have hkey : Text.isPlain 'k' = true := by decide
    simpa [hpaths] using hkey

end Accepted

end Condition

end Stencil
