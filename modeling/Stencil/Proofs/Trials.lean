import Stencil.Proofs.OpenBlocks
import Stencil.Proofs.Places

/-!
# What a trial comes to

Behind a left delimiter a tag is tried, and four things may come of it: a tag that stands there, no
tag and nothing to say, a tag with faults that is left as text, or the end of the compile. For each
of them it is said here what happens to the open blocks and what is recorded. Everything that is
known about the diagnostics of a whole run follows from it.

## Main definitions

* `Fault.inTag`: the faults that are found while a tag is tried.
* `Log.Passing`, `Log.Stopping`: diagnostics after which the compile goes on, and those that end
  with the one that stops it.
* `Template.Blocks.InElse`, `Template.Late`: an elseif that comes too late.
* `Template.Tries`: what a trial may come to.

## Main results

* `Condition.compile_cases`: what may become of a condition.
* `Template.tries_readTag`: what may become of a place behind a left delimiter.
-/

namespace Stencil

open Text (Cursor)

/-- The faults that are found while a tag is tried. The others are about whole blocks and about the
scan itself. -/
def Fault.inTag : Fault → Bool
  | ifUnended | blockUnended | stalled => false
  | _ => true

/-- A diagnostic of a tag after which the compile goes on. -/
structure Diagnostic.Passing (n : Diagnostic) : Prop where
  fatal : n.fatal = false
  inTag : n.fault.inTag = true

namespace Log

variable {a b : Log} {n : Diagnostic}

/-- Diagnostics of tags after which the compile goes on. -/
def Passing (log : Log) : Prop :=
  ∀ n ∈ log, n.Passing

/-- Diagnostics of tags of which the last one, an error, stopped the compile. -/
structure Stopping (log : Log) : Prop where
  split : ∃ (earlier : Log) (last : Diagnostic), log = earlier ++ [last] ∧ earlier.Passing ∧
    last.fatal = true ∧ last.isError = true ∧ last.fault.inTag = true

theorem passing_nil : Passing [] :=
  List.forall_mem_nil _

theorem passing_singleton : Passing [n] ↔ n.Passing :=
  List.forall_mem_singleton

theorem passing_append : Passing (a ++ b) ↔ a.Passing ∧ b.Passing :=
  List.forall_mem_append

theorem Stopping.append (ha : a.Passing) (hb : b.Stopping) : Stopping (a ++ b) := by
  obtain ⟨earlier, last, rfl, hearlier, hlast⟩ := hb.split
  exact ⟨a ++ earlier, last, (List.append_assoc _ _ _).symm, passing_append.mpr ⟨ha, hearlier⟩,
    hlast⟩

theorem Stopping.hasErrors (h : a.Stopping) : a.hasErrors = true := by
  obtain ⟨earlier, last, rfl, -, -, hlast, -⟩ := h.split
  rw [Condition.hasErrors_append, hasErrors, hasErrors, List.any_cons, hlast, Bool.true_or,
    Bool.or_true]

theorem Stopping.inTag (h : a.Stopping) : ∀ n ∈ a, n.fault.inTag = true := by
  obtain ⟨earlier, last, rfl, hearlier, -, -, hlast⟩ := h.split
  exact List.forall_mem_append.mpr
    ⟨fun n hn ↦ (hearlier n hn).inTag, List.forall_mem_singleton.mpr hlast⟩

/-- Only the last one of them is what stopped the compile. -/
theorem Stopping.last_of_fatal {earlier later : Log} (h : Stopping (earlier ++ n :: later))
    (hfatal : n.fatal = true) : later = [] ∧ n.isError = true := by
  obtain ⟨before, last, heq, hbefore, -, hlast, -⟩ := h.split
  rcases List.eq_nil_or_concat later with rfl | ⟨later, m, rfl⟩
  · obtain ⟨-, hn⟩ := List.append_inj' heq rfl
    obtain rfl := List.singleton_inj.mp hn
    exact ⟨rfl, hlast⟩
  · rw [List.concat_eq_append, ← List.cons_append, ← List.append_assoc] at heq
    obtain ⟨rfl, -⟩ := List.append_inj' heq rfl
    have hpassing := hbefore n (by simp)
    exact absurd hfatal (by simp [hpassing.fatal])

end Log

theorem Fault.isError_about {f : Fault} (hf : f ≠ .singleEquals) (offset : Nat) (token : String) :
    (f.about offset token).isError = true := by
  cases f <;> first | rfl | exact absurd rfl hf

theorem Fault.passing_about {f : Fault} (hf : f.inTag = true) (offset : Nat) (token : String) :
    (f.about offset token).Passing :=
  ⟨rfl, hf⟩

/-- An error on its own stops the compile. -/
theorem Log.stopping_halt {f : Fault} (hf : f ≠ .singleEquals) (htag : f.inTag = true)
    (offset : Nat) (token : String) : Log.Stopping (Log.halt [] (f.about offset token)) :=
  ⟨[], (f.about offset token).halting, rfl, Log.passing_nil, rfl,
    Fault.isError_about hf offset token, htag⟩

/-! ### Conditions -/

namespace Condition

variable {right : List Char} {c : Cursor}

theorem passing_fault {f : Fault} (hf : f.inTag = true) (t : Token) : Log.Passing [fault f t] :=
  Log.passing_singleton.mpr (Fault.passing_about hf _ _)

theorem passing_warnings (ts : List Token) : (warnings ts).Passing := by
  intro w hw
  obtain ⟨t, -, rfl⟩ := List.mem_map.mp hw
  exact Fault.passing_about rfl _ _

/-- Whatever is wrong with the tokens of a condition, the compile goes on after it. -/
theorem passing_check (s : State) (ts : List Token) : (check s ts).2.Passing := by
  have htag : ∀ f ∈ tokenFaults, f.inTag = true := by decide
  intro n hn
  obtain ⟨hfatal, hfault⟩ := aboutTokens_check s ts n hn
  exact ⟨hfatal, htag _ hfault⟩

/-- What may become of the tokens of a condition: an expression, or faults after which the compile
goes on. -/
theorem compileBody_cases (start : Nat) (body : List Token) (next : Cursor) :
    (∃ e, (compileBody start body next).1 = .accepted e next) ∨
      (compileBody start body next).1 = .rejected ∧ (compileBody start body next).2.Passing := by
  unfold compileBody
  have hpassing := passing_check .start body
  dsimp only
  split
  · exact Or.inr ⟨rfl, hpassing⟩
  split
  · exact Or.inr ⟨rfl, Log.passing_append.mpr ⟨hpassing, passing_fault rfl _⟩⟩
  split
  · exact Or.inl ⟨_, rfl⟩
  · exact Or.inr ⟨rfl, Log.passing_append.mpr ⟨hpassing, Log.passing_singleton.mpr ⟨rfl, rfl⟩⟩⟩

/-- A condition that has a right delimiter, tokens and balanced parentheses is left to what its
tokens say. Any other one stops the compile. -/
theorem compile_eq (right : List Char) (c : Cursor) :
    (∃ (f : Fault) (o : Nat), f ≠ .singleEquals ∧ f.inTag = true ∧
        compile right c = (.halted, Log.halt [] (f.locate o))) ∨
      ∃ body, compile right c = compileBody c.offset body (Token.scan right c).2 := by
  unfold compile
  dsimp only
  split
  · exact Or.inl ⟨.ifUnclosed, _, by decide, rfl, rfl⟩
  split
  · exact Or.inl ⟨.ifEmpty, _, by decide, rfl, rfl⟩
  split
  · exact Or.inl ⟨.unbalancedParens, _, by decide, rfl, rfl⟩
  · exact Or.inr ⟨_, rfl⟩

/-- What may become of a condition. It is accepted, and only its single equals signs are noted; or
its faults are noted and the compile goes on; or a fault stops the compile. -/
theorem compile_cases (hright : right ≠ []) (c : Cursor) :
    (∃ body e next, Accepts right c body e next ∧
        compile right c = (.accepted e next, warnings body)) ∨
      (∃ notes : Log, compile right c = (.rejected, notes) ∧ notes.Passing ∧
        notes.hasErrors = true) ∨
      ∃ notes : Log, compile right c = (.halted, notes) ∧ notes.Stopping := by
  rcases compile_eq right c with ⟨f, o, hf, htag, hcompile⟩ | ⟨body, hbody⟩
  · exact Or.inr (Or.inr ⟨_, hcompile, Log.stopping_halt hf htag _ _⟩)
  rcases hcompile : compile right c with ⟨outcome, notes⟩
  have hcases := compileBody_cases c.offset body (Token.scan right c).2
  rw [← hbody, hcompile] at hcases
  rcases hcases with ⟨e, rfl⟩ | ⟨rfl, hpassing⟩
  · obtain ⟨body', haccepts, rfl⟩ := (compile_eq_accepted_iff hright).mp hcompile
    exact Or.inl ⟨body', e, _, haccepts, rfl⟩
  · exact Or.inr (Or.inl ⟨notes, rfl, hpassing, hasErrors_of_compile hcompile (by simp)⟩)

end Condition

/-! ### Trials -/

namespace Template

open Condition (warnings)

variable {right : List Char} {b : Blocks} {c : Cursor} {offset n : Nat}

/-- The innermost open block is in its else part. -/
def Blocks.InElse (b : Blocks) : Prop :=
  b.stack.head? = some true

/-- What is recorded about a tag that stands in the wrong part of its block: an elseif in an else
part is an error at the place behind its name. -/
inductive Late (right : List Char) (b : Blocks) (c : Cursor) : Tag → Log → Prop
  | none {t : Tag} (h : ∀ e, t = .elseIf e → ¬ b.InElse) : Late right b c t []
  | elseIf {e : Expr} {n : Nat} (hname : Names right c.rest "elseif" n) (h : b.InElse) :
      Late right b c (.elseIf e) [Fault.secondElse.locate (c.advance n).offset]

/-- What a trial may come to, with the open blocks after it and what is recorded. -/
inductive Tries (right : List Char) (b : Blocks) (offset : Nat) (c : Cursor) : Trial → Prop
  /-- A tag that stands there. Only an elseif in an else part is an error. -/
  | tag {t : Tag} {next : Cursor} {late warned : Log} (h : Tag.At right c t warned next)
      (hlate : Late right b c t late) :
      Tries right b offset c ⟨.tag t next, b.after offset t, late ++ warned⟩
  | untagged (h : Untagged right c) : Tries right b offset c ⟨.unmatched, b, []⟩
  /-- A tag by its name, but with faults. -/
  | refused {name : String} {n : Nat} {notes : Log} (hname : Names right c.rest name n)
      (hmem : name ∈ tagNames) (hpassing : notes.Passing) (herrors : notes.hasErrors = true) :
      Tries right b offset c ⟨.unmatched, b, notes⟩
  | halted {notes : Log} (h : notes.Stopping) : Tries right b offset c ⟨.halted, b, notes⟩

theorem tries_tag {t : Tag} {next : Cursor} {warned : Log} (h : Tag.At right c t warned next)
    (ht : ∀ e, t ≠ .elseIf e) :
    Tries right b offset c ⟨.tag t next, b.after offset t, warned⟩ :=
  have hclean : Tries right b offset c ⟨.tag t next, b.after offset t, [] ++ warned⟩ :=
    .tag h (.none fun e he ↦ absurd he (ht e))
  hclean

theorem tries_readVariable (hhead : c.rest.head? = some '%') :
    Tries right b offset c (readVariable right b c) := by
  unfold readVariable
  split
  · rename_i hpath
    exact .untagged ⟨hpath, fun _ _ hname ↦ absurd hhead hname.head?_ne⟩
  · rename_i p n hpath
    split
    · rename_i hclose
      exact tries_tag (.show hpath (List.isPrefixOf_iff_prefix.mp hclose)) fun _ ↦ nofun
    · exact .halted (Log.stopping_halt (by decide) rfl _ _)

theorem tries_readIf (hright : right ≠ []) (hname : Names right c.rest "if" n) :
    Tries right b offset c (readIf right b offset (c.advance n)) := by
  unfold readIf
  rcases Condition.compile_cases hright (c.advance n) with
    ⟨body, e, next, haccepts, hcompile⟩ | ⟨notes, hcompile, hpassing, herrors⟩ |
    ⟨notes, hcompile, hstops⟩
  · rw [hcompile]
    exact tries_tag (.ifTrue hname haccepts) fun _ ↦ nofun
  · rw [hcompile]
    exact .refused hname (by decide) hpassing herrors
  · rw [hcompile]
    exact .halted hstops

/-- What is recorded about an elseif in an else part. -/
theorem passing_late (f : Frame) (o : Nat) :
    Log.Passing (if f.hasElse then [Fault.secondElse.locate o] else []) := by
  split
  · exact Log.passing_singleton.mpr (Fault.passing_about rfl _ _)
  · exact Log.passing_nil

theorem tries_readElseIf (hright : right ≠ []) (hname : Names right c.rest "elseif" n) :
    Tries right b offset c (readElseIf right b (c.advance n)) := by
  unfold readElseIf
  cases hcurrent : b.current? ifKind with
  | none => exact .halted (Log.stopping_halt (by decide) rfl _ _)
  | some f =>
    obtain ⟨outer, hstack⟩ := stack_of_current? hcurrent
    have hpassing := passing_late f (c.advance n).offset
    rcases Condition.compile_cases hright (c.advance n) with
      ⟨body, e, next, haccepts, hcompile⟩ | ⟨notes, hcompile, hnotes, herrors⟩ |
      ⟨notes, hcompile, hstops⟩
    · simp only [hcompile]
      refine .tag (.elseIf hname haccepts) ?_
      cases helse : f.hasElse with
      | false => exact .none fun _ _ ↦ by simp [Blocks.InElse, hstack, helse]
      | true => exact .elseIf hname (by rw [Blocks.InElse, hstack, helse, List.head?_cons])
    · simp only [hcompile]
      refine .refused hname (by decide) (Log.passing_append.mpr ⟨hpassing, hnotes⟩) ?_
      rw [Condition.hasErrors_append, herrors, Bool.or_true]
    · simp only [hcompile]
      exact .halted (hstops.append hpassing)

theorem tries_refuse {name : String} {f : Fault} (hname : Names right c.rest name n)
    (hmem : name ∈ tagNames) (hf : f ≠ .singleEquals) (htag : f.inTag = true) (o : Nat) :
    Tries right b offset c (refuse b (f.locate o)) :=
  .refused hname hmem (Log.passing_singleton.mpr (Fault.passing_about htag _ _))
    (hasErrors_refuse hf b _ _)

theorem tries_readElse (hname : Names right c.rest "else" n) :
    Tries right b offset c (readElse right b (c.advance n)) := by
  unfold readElse
  cases hclose : close? right (c.advance n) with
  | none => exact .halted (Log.stopping_halt (by decide) rfl _ _)
  | some next =>
    obtain ⟨hbegins, rfl⟩ := prefix_of_close? hclose
    cases b.current? ifKind with
    | none => exact tries_refuse hname (by decide) (by decide) rfl _
    | some f =>
      dsimp only
      split
      · exact tries_refuse hname (by decide) (by decide) rfl _
      · exact tries_tag (.otherwise hname hbegins) fun _ ↦ nofun

theorem tries_readEndIf (hname : Names right c.rest "/if" n) :
    Tries right b offset c (readEndIf right b (c.advance n)) := by
  unfold readEndIf
  cases hclose : close? right (c.advance n) with
  | none => exact .halted (Log.stopping_halt (by decide) rfl _ _)
  | some next =>
    obtain ⟨hbegins, rfl⟩ := prefix_of_close? hclose
    dsimp only
    split
    · exact tries_refuse hname (by decide) (by decide) rfl _
    · exact tries_tag (.endIf hname hbegins) fun _ ↦ nofun

/-- What may become of a place behind a left delimiter. -/
theorem tries_readTag (hright : right ≠ []) (b : Blocks) (offset : Nat) (c : Cursor) :
    Tries right b offset c (readTag right b offset c) := by
  by_cases hhead : c.rest.head? = some '%'
  · rw [readTag, if_pos hhead]
    exact tries_readVariable hhead
  have hpath : Path.atStart? c.rest = none := by
    by_contra hsome
    obtain ⟨r, hr⟩ := Option.ne_none_iff_exists'.mp hsome
    exact hhead (head?_of_atStart? hr)
  cases hlen : nameLength? right c.rest with
  | none =>
    rw [readTag, if_neg hhead, readNamed, hlen]
    refine .untagged ⟨hpath, fun name m hname ↦ ?_⟩
    rw [hname.1] at hlen
    exact absurd hlen (by simp)
  | some m =>
    generalize hname : String.ofList ((c.rest.take m).map Char.toLower) = name
    have hnames : Names right c.rest name m := ⟨hlen, hname⟩
    rw [readTag_of_names hnames]
    by_cases hif : name = "if"
    · subst hif
      exact tries_readIf hright hnames
    by_cases helseif : name = "elseif"
    · subst helseif
      exact tries_readElseIf hright hnames
    by_cases helse : name = "else"
    · subst helse
      exact tries_readElse hnames
    by_cases hendif : name = "/if"
    · subst hendif
      exact tries_readEndIf hnames
    rw [if_neg hif, if_neg helseif, if_neg helse, if_neg hendif]
    refine .untagged ⟨hpath, fun name' m' hname' ↦ ?_⟩
    obtain rfl := Option.some.inj (hlen.symm.trans hname'.1)
    rw [← hname'.2, hname]
    simp [tagNames, hif, helseif, helse, hendif]

end Template

end Stencil
