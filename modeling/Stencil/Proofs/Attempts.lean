import Stencil.Proofs.Rounds

/-!
# Attempts that fail

Wherever a left delimiter is found, trying the tag behind it adds to the diagnostics and takes none
back. An attempt that finds no tag leaves the open blocks as they are, and it is silent only if no
tag stands there by its name: a tag with faults leaves an error behind, and an attempt that stops
the compile leaves the error that did. A tag that is found comes with nothing but the warnings of
its condition, unless it is an elseif in an else part.

## Main definitions

* `Log.Warned`: nothing but warnings about single equals signs.
* `Template.Named`: a tag by its name.

## Main results

* `Template.Reached.passing`: before every round the compile went on after all that was recorded.
* `Template.Tries.silent_or_noticed`, `Template.Tries.warned_or_late`: what is recorded where no tag
  is found, and where one is.
* `Template.noticed_of_reached`: what an attempt leaves behind.
-/

namespace Stencil

open Text (Cursor)

/-- What stopped the compile is the last diagnostic, and the only fatal one. -/
theorem Log.Stopping.exists_last {log : Log} (h : log.Stopping) :
    ∃ earlier last, log = earlier ++ [last] ∧ last.fatal = true ∧
      ∀ n ∈ earlier, n.fatal = false := by
  obtain ⟨earlier, last, rfl, hearlier, hfatal, -⟩ := h.split
  exact ⟨earlier, last, rfl, hfatal, fun n hn ↦ (hearlier n hn).fatal⟩

/-- Nothing but warnings about single equals signs. -/
def Log.Warned (log : Log) : Prop :=
  ∀ n ∈ log, n.fault = .singleEquals ∧ n.isError = false ∧ n.fatal = false

namespace Template

variable {d : Delimiters} {template right : List Char} {s : Scan} {v : Tried} {b : Blocks}
  {offset : Nat} {c next : Cursor} {t : Tag} {notes : Log} {trial : Trial}

/-- Before every round, the compile went on after all that was recorded. -/
theorem Reached.passing (h : Reached d template s) : s.log.Passing := by
  induction h with
  | start => exact Log.passing_nil
  | @next s s' _ hstep ih =>
    rcases step_cases d s with ⟨-, hround⟩ | ⟨v, -, -, hround⟩ | ⟨v, s₁, htried, hgoes, hround, -⟩
    · simp [hround] at hstep
    · simp [hround] at hstep
    · obtain rfl := Round.next.inj (hround.symm.trans hstep)
      obtain ⟨n, hmeets⟩ := exists_meets htried
      rw [hgoes.log]
      exact Log.passing_append.mpr ⟨ih, hmeets.tries.passing hgoes.goesOn⟩
  | @finished s s' _ hstep ih =>
    rcases step_cases d s with ⟨-, hround⟩ | ⟨v, -, -, hround⟩ | ⟨v, s₁, -, -, hround, -⟩
    · obtain rfl := Round.finished.inj (hround.symm.trans hstep)
      exact ih
    · simp [hround] at hstep
    · simp [hround] at hstep

/-- There is nothing to say about a tag but for the single equals signs of its condition. -/
theorem Tag.At.warned (h : Tag.At right c t notes next) : notes.Warned := by
  have hwarnings (body : List Token) : (Condition.warnings body).Warned := by
    intro n hn
    obtain ⟨u, -, rfl⟩ := List.mem_map.mp hn
    exact ⟨rfl, rfl, rfl⟩
  cases h with
  | ifTrue => exact hwarnings _
  | elseIf => exact hwarnings _
  | _ => exact List.forall_mem_nil _

/-- An attempt that finds no tag leaves the open blocks as they are. -/
theorem Tries.blocks_eq (h : Tries right b offset c trial)
    (hno : ∀ t next, trial.attempt ≠ .tag t next) : trial.blocks = b := by
  cases h with
  | @tag t next => exact absurd rfl (hno t next)
  | _ => rfl

/-- A tag stands at a place by its name, in any letter case, whatever follows the name. -/
def Named (right : List Char) (c : Cursor) : Prop :=
  ∃ name n, Names right c.rest name n ∧ name ∈ tagNames

/-- Where an attempt finds no tag there is either none by its name and nothing to say, or one with
an error after which the compile goes on. -/
theorem Tries.silent_or_noticed (h : Tries right b offset c trial)
    (hno : trial.attempt = .unmatched) :
    (¬ Named right c ∧ trial.notes = []) ∨
      Named right c ∧ ∃ e ∈ trial.notes, e.isError = true ∧ e.fatal = false := by
  cases h with
  | tag => simp at hno
  | untagged huntagged =>
    refine Or.inl ⟨?_, rfl⟩
    rintro ⟨name, n, hname, hmem⟩
    exact huntagged.2 name n hname hmem
  | @refused name n notes hname hmem hpassing herrors =>
    obtain ⟨e, he, herror⟩ := List.any_eq_true.mp herrors
    exact Or.inr ⟨⟨name, n, hname, hmem⟩, e, he, herror, (hpassing e he).fatal⟩
  | halted => simp at hno

/-- A tag that is found comes with warnings alone, or it is an elseif in an else part and comes with
an error about that, too. -/
theorem Tries.warned_or_late (h : Tries right b offset c trial)
    (ht : trial.attempt = .tag t next) :
    ((∀ e, t = .elseIf e → ¬ b.InElse) ∧ trial.notes.Warned) ∨
      (∃ e, t = .elseIf e) ∧ b.InElse ∧ ∃ n warned, Names right c.rest "elseif" n ∧
        trial.notes = Fault.secondElse.locate (c.advance n).offset :: warned ∧
          Log.Warned warned := by
  cases h with
  | tag hat hlate =>
    obtain ⟨rfl, rfl⟩ := Attempt.tag.inj ht
    cases hlate with
    | none hpart => exact Or.inl ⟨hpart, hat.warned⟩
    | elseIf hname helse => exact Or.inr ⟨⟨_, rfl⟩, helse, _, _, hname, rfl, hat.warned⟩
  | _ => simp at ht

/-- An attempt to find a tag only adds to what is recorded, and what it adds is noticed. Without a
tag the open blocks stay as they are. An attempt that stops the compile adds a fatal diagnostic last
of all, the only one there is. One that finds no tag adds an error if a tag stands there by its
name, and nothing otherwise. One that finds a tag adds warnings about single equals signs alone,
unless the tag is an elseif in an else part: that is one error more. -/
theorem noticed_of_reached (h : Reached d template s) (htried : s.tried? d = some v) :
    ((∃ s', step d s = .next s' ∧ s'.log = s.log ++ v.trial.notes ∧ s'.blocks = v.trial.blocks ∧
        v.trial.attempt ≠ .halted) ∨
      step d s = .halted (s.log ++ v.trial.notes) ∧ v.trial.attempt = .halted) ∧
    ((∀ t next, v.trial.attempt ≠ .tag t next) → v.trial.blocks = s.blocks) ∧
    (v.trial.attempt = .halted → ∃ earlier last, v.trial.notes = earlier ++ [last] ∧
      last.fatal = true ∧ ∀ n ∈ s.log ++ earlier, n.fatal = false) ∧
    (v.trial.attempt = .unmatched →
      (Named d.right.toList (v.inside d) →
        ∃ e ∈ v.trial.notes, e.isError = true ∧ e.fatal = false) ∧
      (¬ Named d.right.toList (v.inside d) → v.trial.notes = [])) ∧
    ∀ t next, v.trial.attempt = .tag t next →
      ((∀ e, t = .elseIf e → ¬ s.blocks.InElse) → v.trial.notes.Warned) ∧
      ∀ e, t = .elseIf e → s.blocks.InElse →
        ∃ n warned, Names d.right.toList (v.inside d).rest "elseif" n ∧
          v.trial.notes = Fault.secondElse.locate ((v.inside d).advance n).offset :: warned ∧
            Log.Warned warned := by
  obtain ⟨n, hmeets⟩ := exists_meets htried
  have htries := hmeets.tries
  refine ⟨?_, htries.blocks_eq, fun hhalts ↦ ?_, fun hno ↦ ?_, fun t next ht ↦ ?_⟩
  · rcases hmeets.goes with ⟨s', hstep, hgoes⟩ | hhalts
    · exact Or.inl ⟨s', hstep, hgoes.log, hgoes.blocks, hgoes.goesOn⟩
    · exact Or.inr hhalts
  · obtain ⟨earlier, last, heq, hfatal, hearlier⟩ := (htries.stopping hhalts).exists_last
    refine ⟨earlier, last, heq, hfatal, List.forall_mem_append.mpr ⟨?_, hearlier⟩⟩
    exact fun n hn ↦ (h.passing n hn).fatal
  · rcases htries.silent_or_noticed hno with ⟨hnot, hnil⟩ | ⟨hnamed, herror⟩
    · exact ⟨fun hnamed ↦ absurd hnamed hnot, fun _ ↦ hnil⟩
    · exact ⟨fun _ ↦ herror, fun hnot ↦ absurd hnamed hnot⟩
  · rcases htries.warned_or_late ht with ⟨hpart, hwarned⟩ | ⟨⟨e, he⟩, helse, hlate⟩
    · exact ⟨fun _ ↦ hwarned, fun e he hin ↦ absurd hin (hpart e he)⟩
    · exact ⟨fun hpart ↦ absurd helse (hpart e he), fun _ _ _ ↦ hlate⟩

/-- An elseif in an else part, with a single equals sign in its condition. -/
theorem noticed_of_reached_late :
    ∃ s s' o warned, Reached .standard "\x7bif %a\x7d\x7belse\x7d\x7belseif %b = 1\x7d".toList s ∧
      s.blocks.InElse ∧ step .standard s = .next s' ∧
        s'.log = Fault.secondElse.locate o :: warned ∧ warned ≠ [] ∧ Log.Warned warned := by
  let start : Scan := .start "\x7bif %a\x7d\x7belse\x7d\x7belseif %b = 1\x7d".toList
  have hsome : ((start.next? .standard).bind (Scan.next? .standard)).isSome = true := by
    decide +kernel
  have htrial : ((start.next? .standard).bind (Scan.next? .standard)).map (fun s ↦
      (s.blocks.stack, s.log, (s.tried? .standard).map fun v ↦ (v.trial.notes.length,
        match v.trial.attempt with
        | .tag (.elseIf _) _ => true
        | _ => false))) = some ([true], [], some (2, true)) := by
    decide +kernel
  obtain ⟨s, hs⟩ := Option.isSome_iff_exists.mp hsome
  simp only [hs, Option.map_some, Option.some.injEq, Prod.mk.injEq,
    Option.map_eq_some_iff] at htrial
  obtain ⟨hstack, hlog, v, htried, hlength, hattempt⟩ := htrial
  obtain ⟨s₁, hs₁, hs⟩ := Option.bind_eq_some_iff.mp hs
  have hreached := (Reached.start.of_next? hs₁).of_next? hs
  have helse : s.blocks.InElse := by rw [Blocks.InElse, hstack]; rfl
  obtain ⟨hround, -, -, -, htag⟩ := noticed_of_reached hreached htried
  split at hattempt
  · rename_i e next heq
    obtain ⟨n, warned, -, hnotes, hwarned⟩ := (htag _ next heq).2 e rfl helse
    rcases hround with ⟨s', hstep, hlog', -⟩ | ⟨-, hhalts⟩
    · rw [hlog, List.nil_append, hnotes] at hlog'
      refine ⟨s, s', _, warned, hreached, helse, hstep, hlog', ?_, hwarned⟩
      rintro rfl
      rw [hnotes] at hlength
      simp at hlength
    · rw [heq] at hhalts
      cases hhalts
  · simp at hattempt

end Template

end Stencil
