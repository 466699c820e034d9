import Mathlib.Data.List.Basic
import Stencil.Proofs.Grammar

/-!
# The reader that checks a condition

The reader of `Condition.check` knows only what may come next and how many groups are open. Read as
an automaton, its clean steps are the moves of `Condition.Advance`. What it has still to read in a
clean run is described by `Condition.Remaining`, from which a derivation of the whole condition is
put together.

## Main definitions

* `Condition.Advance`: the steps of the reader that leave nothing to complain about.
* `Condition.Remaining`: what a reader that stops without complaint has still before it.
* `Condition.Remark`: what may be said about a token.
* `Condition.AboutTokens`: what is said about tokens by themselves.

## Main results

* `Condition.derives_of_check`: a balanced condition checked without an error is a sentence.
* `Condition.check_of_derives`: a sentence is checked with warnings alone.
* `Condition.remark_check`: whatever is said about a condition is a remark about one of its tokens.
-/

namespace Stencil.Condition

open Token (Kind)

/-! ### Clean steps of the reader -/

/-- The places where an operand may begin. -/
def Expected.StartsOperand (e : Expected) : Prop :=
  e = .operand ∨ e = .argument

/-- The steps of the reader that leave nothing to complain about. -/
inductive Advance : State → Token → State → Prop
  | operator {t : Token} (n : Nat) (ht : IsOperator t) :
      Advance ⟨.operator, n, false⟩ t ⟨.operand, n, false⟩
  | unary {t : Token} {e : Expected} (n : Nat) (ht : t.kind = .unary) (he : e.StartsOperand) :
      Advance ⟨e, n, false⟩ t ⟨.operand, n, false⟩
  | single {t : Token} {e : Expected} (n : Nat) (ht : t.kind.isOperand = true)
      (he : e.StartsOperand) : Advance ⟨e, n, false⟩ t ⟨.operator, n, false⟩
  | name {t : Token} {e : Expected} (n : Nat) (ht : NamesFunction t) (he : e.StartsOperand) :
      Advance ⟨e, n, false⟩ t ⟨.argumentList, n, true⟩
  | group {t : Token} {e : Expected} (n : Nat) (ht : t.kind = .openParen)
      (he : e.StartsOperand) : Advance ⟨e, n, false⟩ t ⟨.operand, n + 1, false⟩
  | arguments {t : Token} (n : Nat) (ht : t.kind = .openParen) :
      Advance ⟨.argumentList, n, true⟩ t ⟨.argument, n + 1, false⟩
  | close {t : Token} {e : Expected} (n : Nat) (ht : t.kind = .closeParen)
      (he : e = .operator ∨ e = .argument) :
      Advance ⟨e, n + 1, false⟩ t ⟨.operator, n, false⟩

/-- A function waits for its argument list exactly when nothing else may come next. -/
def State.Regular (s : State) : Prop :=
  s.called = true ↔ s.expected = .argumentList

theorem Advance.regular {s s' : State} {t : Token} (h : Advance s t s') : s'.Regular := by
  cases h <;> simp [State.Regular]

/-- The token that a reader makes of one without an error. -/
def corrected (t : Token) : Token :=
  if t.kind = .assign then equality t else t

/-- The warnings about the tokens of a sentence, one for each single equals sign. -/
def warnings (ts : List Token) : Log :=
  (ts.filter (·.kind = .assign)).map (fault .singleEquals)

@[simp] theorem warnings_nil : warnings [] = [] := rfl

@[simp] theorem warnings_append (ts us : List Token) :
    warnings (ts ++ us) = warnings ts ++ warnings us := by
  simp [warnings]

theorem hasErrors_warnings (ts : List Token) : Log.hasErrors (warnings ts) = false := by
  simp [warnings, Log.hasErrors, fault, Fault.about, Diagnostic.isError, Fault.severity]

theorem hasErrors_append (a b : Log) : Log.hasErrors (a ++ b) = (a.hasErrors || b.hasErrors) := by
  simp [Log.hasErrors]

theorem isError_fault {f : Fault} (hf : f ≠ .singleEquals) (t : Token) :
    (fault f t).isError = true := by
  cases f <;> first | rfl | exact absurd rfl hf

theorem hasErrors_fault {f : Fault} (hf : f ≠ .singleEquals) (t : Token) :
    Log.hasErrors [fault f t] = true := by
  simp [Log.hasErrors, isError_fault hf]

theorem hasErrors_noteIf {p : Prop} [Decidable p] {f : Fault} (hf : f ≠ .singleEquals)
    (t : Token) : Log.hasErrors (noteIf p (fault f t)) = decide p := by
  by_cases hp : p <;> simp [noteIf, hp, Log.hasErrors, isError_fault hf]

/-! ### What may come next -/

theorem allows_binary_iff (e : Expected) : e.allows .binary = true ↔ e = .operator := by
  cases e <;> decide

theorem allows_operand_iff (e : Expected) : e.allows .operand = true ↔ e.StartsOperand := by
  cases e <;> simp [Expected.allows, Expected.StartsOperand]

theorem allows_function_iff (e : Expected) : e.allows .function = true ↔ e.StartsOperand := by
  cases e <;> simp [Expected.allows, Expected.StartsOperand]

theorem allows_unary_iff (e : Expected) : e.allows .unary = true ↔ e.StartsOperand := by
  cases e <;> simp [Expected.allows, Expected.StartsOperand]

theorem allows_openParen_iff (e : Expected) :
    e.allows .openParen = true ↔ e.StartsOperand ∨ e = .argumentList := by
  cases e <;> simp [Expected.allows, Expected.StartsOperand]

theorem allows_closeParen_iff (e : Expected) :
    e.allows .closeParen = true ↔ e = .operator ∨ e = .argument := by
  cases e <;> decide

theorem Expected.StartsOperand.ne_argumentList {e : Expected} (he : e.StartsOperand) :
    e ≠ .argumentList := by
  rcases he with rfl | rfl <;> decide

/-- A reader that is not behind the name of a function waits for no argument list. -/
theorem State.Regular.eq_of_ne {s : State} (hs : s.Regular)
    (he : s.expected ≠ .argumentList) : s = ⟨s.expected, s.opened, false⟩ := by
  obtain ⟨e, n, called⟩ := s
  have hcalled : called = false := by
    rw [← Bool.not_eq_true]
    exact fun hc ↦ he (hs.mp hc)
  rw [hcalled]

/-! ### The reader without complaint -/

/-- A step without complaint. At the end of a condition it leaves no operand outstanding, and
nothing else but a group that it has just opened. -/
def CleanStep (s : State) (last : Bool) (t : Token) (s' : State) : Prop :=
  Advance s t s' ∧ (last = true → t.kind = .openParen ∨ s'.expected = .operator)

theorem cleanStep_of_binary {s : State} {t : Token} {last : Bool} (ht : IsOperator t)
    (hs : s.Regular) {u : Token} (h : Log.hasErrors (operator s .binary last u).notes = false) :
    CleanStep s last t { s with expected := .operand } := by
  simp only [operator] at h
  split at h
  · simp [hasErrors_fault] at h
  · rename_i hallow
    simp only [Bool.not_eq_true', Bool.not_eq_false, allows_binary_iff] at hallow
    rw [hasErrors_noteIf (by decide), decide_eq_false_iff_not] at h
    rw [hs.eq_of_ne (by rw [hallow]; decide), hallow]
    exact ⟨.operator _ ht, fun hl ↦ absurd hl h⟩

theorem cleanStep_of_unary {s : State} {t : Token} {last : Bool} (ht : t.kind = .unary)
    (hs : s.Regular) (h : Log.hasErrors (operator s .unary last t).notes = false) :
    CleanStep s last t { s with expected := .operand } := by
  simp only [operator] at h
  split at h
  · simp [hasErrors_fault] at h
  · rename_i hallow
    simp only [Bool.not_eq_true', Bool.not_eq_false, allows_unary_iff] at hallow
    rw [hasErrors_noteIf (by decide), decide_eq_false_iff_not] at h
    rw [hs.eq_of_ne hallow.ne_argumentList]
    exact ⟨.unary _ ht hallow, fun hl ↦ absurd hl h⟩

theorem cleanStep_of_operand {s : State} {t : Token} {last : Bool}
    (ht : t.kind.isOperand = true) (hs : s.Regular)
    (h : Log.hasErrors (operand s t).notes = false) :
    CleanStep s last t { s with expected := .operator } := by
  simp only [operand, hasErrors_append, hasErrors_noteIf, Bool.or_eq_false_iff, ne_eq,
    reduceCtorEq, not_false_eq_true, decide_eq_false_iff_not, Bool.not_eq_true',
    Bool.not_eq_false, allows_operand_iff] at h
  rw [hs.eq_of_ne h.1.ne_argumentList]
  exact ⟨.single _ ht h.1, fun _ ↦ Or.inr rfl⟩

theorem cleanStep_of_word {s : State} {t : Token} {last : Bool} (ht : t.kind = .word)
    (hs : s.Regular) (h : Log.hasErrors (functionName s last t).notes = false) :
    CleanStep s last t { s with expected := .argumentList, called := true } := by
  simp only [functionName] at h
  split at h
  · simp [hasErrors_fault] at h
  rename_i hallow
  simp only [Bool.not_eq_true', Bool.not_eq_false, allows_function_iff] at hallow
  split at h
  · simp [hasErrors_fault] at h
  rename_i hname
  have hlast : last = false := by
    cases last with
    | false => rfl
    | true => simp [noteIf, missingArguments, Log.hasErrors, Diagnostic.isError, fault,
        Fault.about, Fault.severity] at h
  have hnames : NamesFunction t := ⟨ht, by simpa [Option.isSome_iff_ne_none] using hname⟩
  rw [hs.eq_of_ne hallow.ne_argumentList, hlast]
  exact ⟨.name _ hnames hallow, fun hl ↦ absurd hl (by decide)⟩

theorem cleanStep_of_openParen {s : State} {t : Token} {last : Bool} (ht : t.kind = .openParen)
    (hs : s.Regular) (h : Log.hasErrors (openParen s t).notes = false) :
    CleanStep s last t (openParen s t).next := by
  simp only [openParen, hasErrors_noteIf, ne_eq, reduceCtorEq, not_false_eq_true,
    decide_eq_false_iff_not, Bool.not_eq_true', Bool.not_eq_false] at h
  refine ⟨?_, fun _ ↦ Or.inl ht⟩
  rcases (allows_openParen_iff _).mp h with he | he
  · have hs' := hs.eq_of_ne he.ne_argumentList
    rw [hs']
    simpa [openParen, (allows_openParen_iff _).mpr (Or.inl he)] using Advance.group _ ht he
  · obtain ⟨e, n, called⟩ := s
    obtain rfl : called = true := hs.mpr he
    obtain rfl : e = .argumentList := he
    exact .arguments _ ht

theorem cleanStep_of_closeParen {s : State} {t : Token} {last : Bool} (ht : t.kind = .closeParen)
    (hs : s.Regular) (h : Log.hasErrors (closeParen s t).notes = false) :
    CleanStep s last t (closeParen s t).next := by
  simp only [closeParen] at h ⊢
  split at h
  · simp [hasErrors_fault] at h
  rename_i hallow
  simp only [Bool.not_eq_true', Bool.not_eq_false] at hallow
  have he := (allows_closeParen_iff _).mp hallow
  rw [hasErrors_noteIf (by decide), decide_eq_false_iff_not] at h
  refine ⟨?_, fun _ ↦ Or.inr rfl⟩
  have hne : s.expected ≠ .argumentList := by
    rcases he with he | he <;> rw [he] <;> decide
  obtain ⟨n, hn⟩ := Nat.exists_eq_succ_of_ne_zero h
  rw [if_pos hallow, hs.eq_of_ne hne, hn]
  exact .close n ht he

/-- A step of the reader without an error is clean. -/
theorem cleanStep_of_examine {s : State} {t : Token} {last : Bool} (hs : s.Regular)
    (h : Log.hasErrors (examine s last t).notes = false) :
    CleanStep s last t (examine s last t).next := by
  unfold examine at h ⊢
  split at h
  · rename_i hk
    exact cleanStep_of_binary (Or.inl hk) hs h
  · rename_i hk
    exact cleanStep_of_unary hk hs h
  all_goals try exact cleanStep_of_operand (by rw [‹t.kind = _›]; rfl) hs h
  · rename_i hk
    exact cleanStep_of_word hk hs h
  · rename_i hk
    exact cleanStep_of_openParen hk hs h
  · rename_i hk
    exact cleanStep_of_closeParen hk hs h
  · rename_i hk
    unfold assign at h ⊢
    split at h
    · rename_i hallow
      rw [if_pos hallow]
      refine cleanStep_of_binary (u := equality t) (Or.inr hk) hs ?_
      simpa [Log.hasErrors, fault, Fault.about, Diagnostic.isError, Fault.severity] using h
    · simp [unknown, hasErrors_fault] at h
  all_goals simp [unknown, hasErrors_fault] at h

/-- A token that is a path spells one. -/
def SpellsPath (t : Token) : Prop :=
  t.kind = .path → (Path.compile? t.text).isSome

/-- A clean step is made without an error, and with a warning for a single equals sign. -/
theorem examine_of_advance {s s' : State} {t : Token} {last : Bool} (h : Advance s t s')
    (ht : SpellsPath t) (hl : last = true → t.kind = .openParen ∨ s'.expected = .operator) :
    examine s last t = ⟨corrected t, s', warnings [t]⟩ := by
  cases h with
  | operator n hop =>
    have hlast : last = false := by
      rcases hop with hk | hk <;> simpa [hk] using hl
    rcases hop with hk | hk
    · simp [examine, hk, operator, corrected, warnings, noteIf, hlast, Expected.allows]
    · simp [examine, hk, assign, operator, corrected, warnings, noteIf, hlast, Expected.allows]
  | unary n hk he =>
    have hlast : last = false := by simpa [hk] using hl
    simp [examine, hk, operator, corrected, warnings, noteIf, hlast, (allows_unary_iff _).mpr he]
  | single n hk he =>
    have hallow := (allows_operand_iff _).mpr he
    cases hkind : t.kind <;> simp only [hkind, Kind.isOperand, Bool.false_eq_true] at hk
    · simp [examine, hkind, operand, corrected, warnings, noteIf, hallow,
        Option.isSome_iff_ne_none.mp (ht hkind)]
    all_goals simp [examine, hkind, operand, corrected, warnings, noteIf, hallow]
  | name n hf he =>
    have hlast : last = false := by simpa [hf.1] using hl
    have hname := Option.isSome_iff_ne_none.mp hf.2
    simp [examine, hf.1, functionName, corrected, warnings, noteIf, hlast, hname,
      (allows_function_iff _).mpr he]
  | group n hk he =>
    simp [examine, hk, openParen, corrected, warnings, noteIf,
      (allows_openParen_iff _).mpr (Or.inl he)]
  | arguments n hk =>
    simp [examine, hk, openParen, corrected, warnings, noteIf, Expected.allows]
  | close n hk he =>
    simp [examine, hk, closeParen, corrected, warnings, noteIf,
      (allows_closeParen_iff _).mpr he]

/-! ### Sentences are checked without an error -/

/-- Some tokens lead the reader from one state to another with warnings alone. What comes behind
them may only be nothing where an operand has just ended. -/
def ReadsTo (s : State) (ts : List Token) (s' : State) : Prop :=
  ∀ rest, (rest = [] → s'.expected = .operator) →
    check s (ts ++ rest) =
      (ts.map corrected ++ (check s' rest).1, warnings ts ++ (check s' rest).2)

theorem readsTo_nil (s : State) : ReadsTo s [] s := by
  intro rest _
  simp

theorem readsTo_of_advance {s s' : State} {t : Token} (h : Advance s t s') (ht : SpellsPath t) :
    ReadsTo s [t] s' := by
  intro rest hrest
  have hv : examine s rest.isEmpty t = ⟨corrected t, s', warnings [t]⟩ :=
    examine_of_advance h ht fun he ↦ Or.inr (hrest (List.isEmpty_iff.mp he))
  simp only [List.singleton_append, check, hv, List.map_cons, List.map_nil]

theorem ReadsTo.append {s₁ s₂ s₃ : State} {ts us : List Token} (h₁ : ReadsTo s₁ ts s₂)
    (h₂ : ReadsTo s₂ us s₃) (hmid : us ≠ [] ∨ s₂.expected = .operator) :
    ReadsTo s₁ (ts ++ us) s₃ := by
  intro rest hrest
  have hnext : us ++ rest = [] → s₂.expected = .operator := by
    intro hnil
    rcases hmid with hne | he
    · exact absurd (List.append_eq_nil_iff.mp hnil).1 hne
    · exact he
  rw [List.append_assoc, h₁ _ hnext, h₂ _ hrest]
  simp

/-- A step, and what follows it. -/
theorem ReadsTo.cons {s₁ s₂ s₃ : State} {t : Token} {ts : List Token} (h : Advance s₁ t s₂)
    (ht : SpellsPath t) (hr : ReadsTo s₂ ts s₃) (hne : ts ≠ []) : ReadsTo s₁ (t :: ts) s₃ :=
  (readsTo_of_advance h ht).append hr (Or.inl hne)

/-- What may come next where a part begins. -/
def Part.Admits : Part → Expected → Prop
  | .operations, e => e = .operator
  | _, e => e.StartsOperand

/-- A part of a condition is read with warnings alone, up to the place behind an operand in the
same group. -/
theorem readsTo_of_derives {p : Part} {ts : List Token} (h : Derives p ts)
    (hpath : ∀ t ∈ ts, SpellsPath t) {e : Expected} (he : p.Admits e) (n : Nat) :
    ReadsTo ⟨e, n, false⟩ ts ⟨.operator, n, false⟩ := by
  induction h generalizing e n with
  | single ht => exact readsTo_of_advance (.single n ht he) (hpath _ (by simp))
  | unary ht h ih =>
    have htail := ih (fun u hu ↦ hpath u (by simp [hu])) (Or.inl rfl) n
    exact .cons (.unary n ht he) (hpath _ (by simp)) htail (h.ne_nil (by decide))
  | @group o c ts ho h hc ih =>
    have hinner := ih (fun u hu ↦ hpath u (by simp [hu])) (Or.inl rfl) (n + 1)
    have hclose := readsTo_of_advance (.close n hc (Or.inl rfl)) (hpath c (by simp))
    exact .cons (.group n ho he) (hpath _ (by simp))
      (hinner.append hclose (Or.inr rfl)) (by simp)
  | @emptyCall f o c hf ho hc =>
    have hclose := readsTo_of_advance (.close n hc (Or.inr rfl)) (hpath c (by simp))
    have hopen := ReadsTo.cons (.arguments n ho) (hpath o (by simp)) hclose (by simp)
    exact .cons (.name n hf he) (hpath _ (by simp)) hopen (by simp)
  | @call f o c ts hf ho h hc ih =>
    have hinner := ih (fun u hu ↦ hpath u (by simp [hu])) (Or.inr rfl) (n + 1)
    have hclose := readsTo_of_advance (.close n hc (Or.inl rfl)) (hpath c (by simp))
    have hopen := ReadsTo.cons (.arguments n ho) (hpath o (by simp))
      (hinner.append hclose (Or.inr rfl)) (by simp)
    exact .cons (.name n hf he) (hpath _ (by simp)) hopen (by simp)
  | sequence h hr ih ihr =>
    have hfirst := ih (fun u hu ↦ hpath u (by simp [hu])) he n
    exact hfirst.append (ihr (fun u hu ↦ hpath u (by simp [hu])) rfl n) (Or.inr rfl)
  | stop =>
    obtain rfl : e = .operator := he
    exact readsTo_nil _
  | operation ht h hr ih ihr =>
    obtain rfl : e = .operator := he
    have hoperand := ih (fun u hu ↦ hpath u (by simp [hu])) (Or.inl rfl) n
    have hrest := hoperand.append (ihr (fun u hu ↦ hpath u (by simp [hu])) rfl n) (Or.inr rfl)
    refine .cons (.operator n ht) (hpath _ (by simp)) hrest fun hnil ↦ ?_
    exact h.ne_nil (by decide) (List.append_eq_nil_iff.mp hnil).1

/-- A sentence is checked with warnings alone, and each single equals sign becomes an equality. -/
theorem check_of_derives {ts : List Token} (h : Derives .sequence ts)
    (hpath : ∀ t ∈ ts, SpellsPath t) :
    check .start ts = (ts.map corrected, warnings ts) := by
  have hreads : ReadsTo .start ts ⟨.operator, 0, false⟩ :=
    readsTo_of_derives h hpath (Or.inl rfl) 0
  simpa only [List.append_nil, check] using hreads [] fun _ ↦ rfl

/-! ### What is checked without an error is a sentence -/

/-- What may follow an operand inside of `n` open groups: operations, and `n` times the end of a
group with operations behind it. -/
inductive Closing : Nat → List Token → Prop
  | done {ts : List Token} (h : Derives .operations ts) : Closing 0 ts
  | close {n : Nat} {c : Token} {ts us : List Token} (h : Derives .operations ts)
      (hc : c.kind = .closeParen) (hr : Closing n us) : Closing (n + 1) (ts ++ c :: us)

/-- What a reader has still before it when it goes on without complaint to the end. -/
inductive Remaining : Expected → Nat → List Token → Prop
  | operator {n : Nat} {ts : List Token} (h : Closing n ts) : Remaining .operator n ts
  | operand {e : Expected} {n : Nat} {ts us : List Token} (he : e.StartsOperand)
      (h : Derives .operand ts) (hr : Closing n us) : Remaining e n (ts ++ us)
  | noArgument {n : Nat} {c : Token} {us : List Token} (hc : c.kind = .closeParen)
      (hr : Closing n us) : Remaining .argument (n + 1) (c :: us)
  | argumentList {n : Nat} {o : Token} {ts : List Token} (ho : o.kind = .openParen)
      (h : Remaining .argument (n + 1) ts) : Remaining .argumentList n (o :: ts)

theorem Closing.operation {n : Nat} {t : Token} {ts us : List Token} (ht : IsOperator t)
    (h : Derives .operand ts) (hr : Closing n us) : Closing n (t :: (ts ++ us)) := by
  cases hr with
  | done hops => exact .done (.operation ht h hops)
  | @close n c vs ws hops hc hr =>
    have hcons : t :: (ts ++ (vs ++ c :: ws)) = t :: (ts ++ vs) ++ c :: ws := by simp
    rw [hcons]
    exact .close (.operation ht h hops) hc hr

theorem not_startsOperand_operator : ¬ Expected.operator.StartsOperand := by
  simp [Expected.StartsOperand]

theorem not_startsOperand_argumentList : ¬ Expected.argumentList.StartsOperand := by
  simp [Expected.StartsOperand]

/-- A token that opens the operand of what remains, up to the end of the group it opens. -/
theorem Remaining.of_advance {s s' : State} {t : Token} {ts : List Token} (h : Advance s t s')
    (hr : Remaining s'.expected s'.opened ts) : Remaining s.expected s.opened (t :: ts) := by
  cases h with
  | operator n ht =>
    cases hr with
    | operand he h hr => exact .operator (hr.operation ht h)
  | unary n ht he =>
    cases hr with
    | operand _ h hr => exact .operand he (.unary ht h) hr
  | single n ht he =>
    cases hr with
    | operator hr => exact .operand he (.single ht) hr
    | operand he' => exact absurd he' not_startsOperand_operator
  | name n ht he =>
    cases hr with
    | operand he' => exact absurd he' not_startsOperand_argumentList
    | @argumentList _ o us ho hr =>
      generalize he' : Expected.argument = e' at hr
      cases hr with
      | operator => exact absurd he' (by decide)
      | @operand _ _ xs ys _ h hr =>
        cases hr with
        | @close _ c vs ws hops hc hr =>
          have hcons : t :: o :: (xs ++ (vs ++ c :: ws)) =
              t :: o :: ((xs ++ vs) ++ [c]) ++ ws := by simp
          rw [hcons]
          exact .operand he (.call ht ho (.sequence h hops) hc) hr
      | @noArgument _ c vs hc hr => exact .operand he (.emptyCall ht ho hc) hr
      | argumentList => exact absurd he' (by decide)
  | group n ht he =>
    cases hr with
    | @operand _ _ xs ys _ h hr =>
      cases hr with
      | @close _ c vs ws hops hc hr =>
        have hcons : t :: (xs ++ (vs ++ c :: ws)) = t :: ((xs ++ vs) ++ [c]) ++ ws := by simp
        rw [hcons]
        exact .operand he (.group ht (.sequence h hops) hc) hr
  | arguments n ht => exact .argumentList ht hr
  | close n ht he =>
    cases hr with
    | operator hr =>
      rcases he with rfl | rfl
      · exact .operator (.close .stop ht hr)
      · exact .noArgument ht hr
    | operand he' => exact absurd he' not_startsOperand_operator

/-- How a clean step changes the number of open groups. -/
theorem Advance.opened_add_count {s s' : State} {t : Token} (h : Advance s t s') (a b : Nat) :
    s.opened + (count .openParen [t] + a) = count .closeParen [t] + b ↔ s'.opened + a = b := by
  cases h with
  | operator n ht => rcases ht with ht | ht <;> simp [count, ht]
  | single n ht he =>
    cases hk : t.kind <;> simp_all [count, Kind.isOperand]
  | name n ht he => simp [count, ht.1]
  | unary n ht he => simp [count, ht]
  | group n ht he => simp [count, ht]; omega
  | arguments n ht => simp [count, ht]; omega
  | close n ht he => simp [count, ht]; omega

theorem Advance.opened_pos {s s' : State} {t : Token} (h : Advance s t s')
    (ht : t.kind = .openParen) : 0 < s'.opened := by
  cases h <;> simp_all [IsOperator, NamesFunction, Kind.isOperand]

theorem count_cons (kind : Kind) (t : Token) (ts : List Token) :
    count kind (t :: ts) = count kind [t] + count kind ts := by
  simp only [count, List.countP_cons, List.countP_nil]
  omega

/-- A reader without complaint that comes to the end with every group closed had before it what
`Remaining` says. Only behind an operand may nothing be left. -/
theorem remaining_of_check {s : State} {ts : List Token} (hs : s.Regular)
    (hlast : ts = [] → s.expected = .operator)
    (hbal : s.opened + count .openParen ts = count .closeParen ts)
    (h : Log.hasErrors (check s ts).2 = false) : Remaining s.expected s.opened ts := by
  induction ts generalizing s with
  | nil =>
    have hopened : s.opened = 0 := by simpa [count] using hbal
    rw [hlast rfl, hopened]
    exact .operator (.done .stop)
  | cons t ts ih =>
    simp only [check, hasErrors_append, Bool.or_eq_false_iff] at h
    obtain ⟨hstep, hend⟩ := cleanStep_of_examine hs h.1
    have hbal' : (examine s ts.isEmpty t).next.opened + count .openParen ts =
        count .closeParen ts := by
      rw [← hstep.opened_add_count, ← count_cons, ← count_cons]
      exact hbal
    refine .of_advance hstep (ih hstep.regular (fun hnil ↦ ?_) hbal' h.2)
    -- a group opened by the last token would never be closed
    subst hnil
    rcases hend rfl with hopen | hoperator
    · have hpos := hstep.opened_pos hopen
      simp only [count, List.countP_nil] at hbal'
      omega
    · exact hoperator

/-- A balanced condition that is checked without an error is a sentence. -/
theorem derives_of_check {ts : List Token} (hne : ts ≠ [])
    (hbal : count .openParen ts = count .closeParen ts)
    (h : Log.hasErrors (check .start ts).2 = false) : Derives .sequence ts := by
  have hr : Remaining .operand 0 ts :=
    remaining_of_check (s := .start) (by simp [State.Regular, State.start])
      (fun hnil ↦ absurd hnil hne) (by simpa [State.start] using hbal) h
  cases hr with
  | operand _ hoperand hr =>
    cases hr with
    | done hops => exact .sequence hoperand hops

/-! ### What is said about single tokens -/

/-- The faults that are found in a token by itself, wherever the condition stands. -/
def tokenFaults : List Fault :=
  [.pathSyntax, .operatorNotAllowed, .missingOperand, .operandNotAllowed, .functionNotAllowed,
    .functionUnknown, .openParenNotAllowed, .closeParenNotAllowed, .closeParenUnopened,
    .singleEquals, .unknownExpression]

/-- What may be said about a token, at the end of a condition or not. A path is at fault only when
it spells none. Of a single equals sign at the end it is the equality in its place that misses an
operand. -/
inductive Remark (t : Token) (last : Bool) : Diagnostic → Prop
  | fault {f : Fault} (hf : f ∈ tokenFaults)
      (hpath : f = .pathSyntax → t.kind = .path ∧ Path.compile? t.text = none) :
      Remark t last (fault f t)
  | arguments : Remark t last (missingArguments t)
  | equality (hkind : t.kind = .assign) (hlast : last = true) :
      Remark t last (Condition.fault .missingOperand (equality t))

theorem forall_mem_noteIf {p : Prop} [Decidable p] {d : Diagnostic} {P : Diagnostic → Prop} :
    (∀ n ∈ noteIf p d, P n) ↔ (p → P d) := by
  by_cases hp : p <;> simp [noteIf, hp]

/-- Whatever is said about a token is a remark. -/
theorem remark_examine (s : State) (last : Bool) (t : Token) :
    ∀ n ∈ (examine s last t).notes, Remark t last n := by
  have hfault {f : Fault} (hf : f ∈ tokenFaults) (hne : f ≠ .pathSyntax) :
      Remark t last (fault f t) :=
    .fault hf fun h ↦ absurd h hne
  have hone {f : Fault} (hf : f ∈ tokenFaults) (hne : f ≠ .pathSyntax) :
      ∀ n ∈ [fault f t], Remark t last n :=
    List.forall_mem_singleton.mpr (hfault hf hne)
  have hif {p : Prop} [Decidable p] {f : Fault} (hf : f ∈ tokenFaults) (hne : f ≠ .pathSyntax) :
      ∀ n ∈ noteIf p (fault f t), Remark t last n :=
    forall_mem_noteIf.mpr fun _ ↦ hfault hf hne
  have hoperator (c : Class) : ∀ n ∈ (operator s c last t).notes, Remark t last n := by
    simp only [operator]
    split
    · exact hone (by decide) (by decide)
    · exact hif (by decide) (by decide)
  have hoperand : ∀ n ∈ (operand s t).notes, Remark t last n := by
    refine List.forall_mem_append.mpr ⟨hif (by decide) (by decide), forall_mem_noteIf.mpr ?_⟩
    exact fun hpath ↦ .fault (by decide) fun _ ↦ ⟨hpath.1, Option.isNone_iff_eq_none.mp hpath.2⟩
  have hunknown : ∀ n ∈ (unknown s t).notes, Remark t last n := hone (by decide) (by decide)
  unfold examine
  cases hk : t.kind with
  | binary | unary => exact hoperator _
  | path | quoted | number | truth => exact hoperand
  | word =>
    simp only [functionName]
    split
    · exact hone (by decide) (by decide)
    split
    · exact hone (by decide) (by decide)
    · exact forall_mem_noteIf.mpr fun _ ↦ .arguments
  | openParen => exact hif (by decide) (by decide)
  | closeParen =>
    simp only [closeParen]
    split
    · exact hone (by decide) (by decide)
    · exact hif (by decide) (by decide)
  | assign =>
    simp only [assign]
    split
    · rename_i hallow
      refine List.forall_mem_cons.mpr ⟨hfault (by decide) (by decide), ?_⟩
      rw [operator, if_neg (by simp [hallow])]
      exact forall_mem_noteIf.mpr (.equality hk)
    · exact hunknown
  | close | other => exact hunknown

/-- Whatever is said about the tokens of a condition is a remark about one of them. -/
theorem remark_check (s : State) (ts : List Token) : ∀ n ∈ (check s ts).2,
    ∃ before t after, ts = before ++ t :: after ∧ Remark t after.isEmpty n := by
  induction ts generalizing s with
  | nil => exact List.forall_mem_nil _
  | cons t ts ih =>
    refine List.forall_mem_append.mpr
      ⟨fun n hn ↦ ⟨[], t, ts, rfl, remark_examine s _ t n hn⟩, fun n hn ↦ ?_⟩
    obtain ⟨before, u, after, rfl, hu⟩ := ih _ n hn
    exact ⟨t :: before, u, after, rfl, hu⟩

/-- Nothing but faults of single tokens, after each of which the compile goes on. -/
def AboutTokens (log : Log) : Prop :=
  ∀ n ∈ log, n.fatal = false ∧ n.fault ∈ tokenFaults

/-- Whatever is said about the tokens of a condition is about each of them by itself. -/
theorem aboutTokens_check (s : State) (ts : List Token) : AboutTokens (check s ts).2 := by
  have hmissing : Fault.missingOperand ∈ tokenFaults := by decide
  intro n hn
  obtain ⟨before, t, after, -, hremark⟩ := remark_check s ts n hn
  cases hremark with
  | fault hf => exact ⟨rfl, hf⟩
  | arguments | equality => exact ⟨rfl, hmissing⟩

end Stencil.Condition
