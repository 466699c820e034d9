import Stencil.Proofs.Trials

/-!
# The rounds of a scan

A run of a scan is a sequence of rounds, and a round tries one tag. What a run records and which
blocks it leaves open is what its trials record and do, one after the other. No round stands still
and none leaves the template, so that the run comes to an end by itself.

## Main definitions

* `Template.Tried`: a place where a tag was tried, and what came of it.
* `Template.tried`, `Template.tags`: where a scan tries tags, and the tags that it recognises.
* `Template.Runs`: the runs of a scan, with what they tried.

## Main results

* `Template.Meets.goes`: what a round does with the trial that it makes.
* `Template.runs_run`: every run comes to an end by itself.
* `Template.Runs.log_ok`, `Template.Runs.log_error`: what a run records.
-/

namespace Stencil.Template

open Text (Cursor)

/-- A place where a tag was tried. -/
structure Tried where
  /-- The place of the left delimiter. -/
  place : Cursor
  trial : Trial

/-- The place behind the left delimiter. -/
def Tried.inside (d : Delimiters) (v : Tried) : Cursor :=
  v.place.advance d.left.toList.length

/-- The tag that was recognised at a place, with the byte offset of its left delimiter. -/
def Tried.tag? (v : Tried) : Option (Nat × Tag) :=
  match v.trial.attempt with
  | .tag t _ => some (v.place.offset, t)
  | .unmatched | .halted => none

/-- Where a scan tries the next tag: at the next left delimiter that has something behind it. -/
def Scan.tried? (d : Delimiters) (s : Scan) : Option Tried :=
  match find? d.left.toList s.cursor.rest with
  | none => none
  | some n =>
    let place := s.cursor.advance n
    let inside := place.advance d.left.toList.length
    if inside.rest = [] then none
    else some ⟨place, readTag d.right.toList s.blocks place.offset inside⟩

/-- The places where a scan tries tags, over a template of `size` bytes. -/
def triedFrom (d : Delimiters) (size : Nat) (s : Scan) : List Tried :=
  (s.tried? d).toList ++
    match step d s with
    | .next s' =>
      if s.cursor.offset < s'.cursor.offset ∧ s'.cursor.offset ≤ size then triedFrom d size s'
      else []
    | .finished _ | .halted _ => []
termination_by size - s.cursor.offset

/-- The places where the scan of a template tries tags. -/
def tried (d : Delimiters) (template : List Char) : List Tried :=
  triedFrom d (Text.byteLength template) (.start template)

/-- The tags that the scan of a template recognises, with the byte offsets where they begin. -/
def tags (d : Delimiters) (template : List Char) : List (Nat × Tag) :=
  (tried d template).filterMap Tried.tag?

/-- What some trials record. -/
def notesOf (vs : List Tried) : Log :=
  vs.flatMap (·.trial.notes)

variable {d : Delimiters} {right : List Char} {s s' : Scan} {v : Tried} {vs : List Tried} {n : Nat}
  {c next : Cursor} {t : Tag} {log notes : Log} {result : Except Log Scan}

/-! ### One round -/

/-- The round of a scan that tries a tag `n` characters further on. -/
structure Meets (d : Delimiters) (s : Scan) (n : Nat) (v : Tried) : Prop where
  place : v.place = s.cursor.advance n
  left : d.left.toList <+: v.place.rest
  trial : v.trial = readTag d.right.toList s.blocks v.place.offset (v.inside d)
  round : step d s = settle d.left.toList (s.takeText n) v.trial

/-- The round of a scan that finds a left delimiter. -/
theorem step_of_find? (hfind : find? d.left.toList s.cursor.rest = some n) :
    step d s =
      if ((s.takeText n).cursor.advance d.left.toList.length).rest = [] then
        .finished ((s.takeText n).takeText (s.takeText n).cursor.rest.length)
      else
        settle d.left.toList (s.takeText n) (readTag d.right.toList (s.takeText n).blocks
          (s.takeText n).cursor.offset ((s.takeText n).cursor.advance d.left.toList.length)) := by
  rw [step]
  simp only [hfind]

theorem exists_meets (h : s.tried? d = some v) : ∃ n, Meets d s n v := by
  unfold Scan.tried? at h
  split at h
  · simp at h
  rename_i n hfind
  dsimp only at h
  split at h
  · simp at h
  rename_i hne
  obtain rfl := Option.some.inj h
  exact ⟨n, rfl, prefix_of_find? hfind, rfl, (step_of_find? hfind).trans (if_neg hne)⟩

theorem takeText_takeText_length (s : Scan) (n : Nat) :
    (s.takeText n).takeText (s.takeText n).cursor.rest.length =
      s.takeText (n + (s.cursor.rest.length - n)) := by
  rw [takeText_add]
  simp [Scan.takeText]

/-- Without a tag to try, what is left is text. -/
theorem step_of_tried?_eq_none (h : s.tried? d = none) :
    step d s = .finished (s.takeText s.cursor.rest.length) := by
  unfold Scan.tried? at h
  split at h
  · rename_i hfind
    unfold step
    simp only [hfind]
  · rename_i n hfind
    dsimp only at h
    split at h
    · rename_i hnil
      have hlt : n < s.cursor.rest.length := by
        by_contra hle
        have hbegins := prefix_of_find? hfind
        rw [List.drop_of_length_le (not_lt.mp hle), List.prefix_nil] at hbegins
        exact left_ne_nil d hbegins
      refine ((step_of_find? hfind).trans (if_pos hnil)).trans ?_
      rw [takeText_takeText_length, Nat.add_sub_cancel' hlt.le]
    · simp at h

/-- What a round does that goes on behind the tag it tried, or behind a bit of text. -/
structure Scan.Goes (d : Delimiters) (s : Scan) (v : Tried) (s' : Scan) : Prop where
  log : s'.log = s.log ++ v.trial.notes
  blocks : s'.blocks = v.trial.blocks
  ahead : (v.inside d).Leads s'.cursor
  cursor : ∀ t next, v.trial.attempt = .tag t next → s'.cursor = next
  goesOn : v.trial.attempt ≠ .halted

theorem Tag.At.leads (h : Tag.At d.right.toList c t notes next) : c.Leads next := by
  obtain ⟨inside, hinside, -⟩ := h.cut
  have htotal := h.total_eq
  refine ⟨inside, hinside, ?_⟩
  simp only [Cursor.total, hinside, Text.byteLength_append] at htotal
  omega

theorem Meets.tries (h : Meets d s n v) :
    Tries d.right.toList s.blocks v.place.offset (v.inside d) v.trial := by
  rw [h.trial]
  exact tries_readTag (right_ne_nil d) _ _ _

theorem Meets.leads (h : Meets d s n v) : s.cursor.Leads v.place := by
  rw [h.place]
  exact s.cursor.leads_advance n

theorem Tried.leads (d : Delimiters) (v : Tried) : v.place.Leads (v.inside d) :=
  v.place.leads_advance _

/-- Behind the left delimiter there is less of the template than before it. -/
theorem Meets.length_lt (h : Meets d s n v) :
    (v.inside d).rest.length < v.place.rest.length := by
  have hpos := List.length_pos_iff.mpr (left_ne_nil d)
  have hle := h.left.length_le
  rw [Tried.inside, Cursor.length_rest_advance]
  omega

/-- A place where no tag was found is left with the character behind the left delimiter. -/
theorem Meets.leads_takeText (h : Meets d s n v) :
    (v.inside d).Leads ((s.takeText n).cursor.advance (d.left.toList.length + 1)) := by
  rw [← advance_advance, Tried.inside, h.place]
  exact Cursor.leads_advance _ 1

/-- What a round does with the trial that it makes: it goes on behind it or stops the compile. -/
theorem Meets.goes (h : Meets d s n v) :
    (∃ s', step d s = .next s' ∧ s.Goes d v s') ∨
      step d s = .halted (s.log ++ v.trial.notes) ∧ v.trial.attempt = .halted := by
  have hround := h.round
  have htries := h.tries
  have htext := h.leads_takeText
  obtain ⟨place, trial⟩ := v
  dsimp only [Tried.inside] at htries htext hround
  cases htries with
  | tag hat hlate => exact Or.inl ⟨_, hround, rfl, rfl, hat.leads, by simp, by simp⟩
  | untagged => exact Or.inl ⟨_, hround, rfl, rfl, htext, by simp, by simp⟩
  | refused => exact Or.inl ⟨_, hround, rfl, rfl, htext, by simp, by simp⟩
  | halted => exact Or.inr ⟨hround, rfl⟩

/-- A round that goes on ends behind the place where it tried a tag. -/
theorem Meets.ahead (h : Meets d s n v) (hgoes : s.Goes d v s') :
    v.place.Leads s'.cursor ∧ v.place.offset < s'.cursor.offset := by
  have hleads := (v.leads d).trans hgoes.ahead
  exact ⟨hleads, hleads.offset_lt (hgoes.ahead.length_le.trans_lt h.length_lt)⟩

/-- What a round may come to: the end of the template, the end of the compile, or a place further
on. -/
theorem step_cases (d : Delimiters) (s : Scan) :
    (s.tried? d = none ∧ step d s = .finished (s.takeText s.cursor.rest.length)) ∨
      (∃ v, s.tried? d = some v ∧ v.trial.attempt = .halted ∧
        step d s = .halted (s.log ++ v.trial.notes)) ∨
      ∃ v s', s.tried? d = some v ∧ s.Goes d v s' ∧ step d s = .next s' ∧
        s.cursor.Leads s'.cursor ∧ s.cursor.offset < s'.cursor.offset := by
  cases htried : s.tried? d with
  | none => exact Or.inl ⟨rfl, step_of_tried?_eq_none htried⟩
  | some v =>
    obtain ⟨n, hmeets⟩ := exists_meets htried
    rcases hmeets.goes with ⟨s', hstep, hgoes⟩ | ⟨hstep, hhalts⟩
    · obtain ⟨hleads, hlt⟩ := hmeets.ahead hgoes
      exact Or.inr (Or.inr ⟨v, s', rfl, hgoes, hstep, hmeets.leads.trans hleads,
        hmeets.leads.offset_le.trans_lt hlt⟩)
    · exact Or.inr (Or.inl ⟨v, rfl, hhalts, hstep⟩)

/-- A round that goes on ends further on in the template. -/
theorem ahead_of_step_next (h : step d s = .next s') :
    s.cursor.Leads s'.cursor ∧ s.cursor.offset < s'.cursor.offset := by
  rcases step_cases d s with ⟨-, hstep⟩ | ⟨v, -, -, hstep⟩ | ⟨v, s₁, -, -, hstep, hahead⟩
  · simp [h] at hstep
  · simp [h] at hstep
  · obtain rfl := Round.next.inj (h.symm.trans hstep)
    exact hahead

theorem leads_of_step_finished (h : step d s = .finished s') : s.cursor.Leads s'.cursor := by
  rcases step_cases d s with ⟨-, hstep⟩ | ⟨v, -, -, hstep⟩ | ⟨v, s₁, -, -, hstep, -⟩
  · obtain rfl := Round.finished.inj (h.symm.trans hstep)
    exact s.cursor.leads_advance _
  · simp [h] at hstep
  · simp [h] at hstep

/-! ### Runs -/

/-- The runs of a scan that come to an end by themselves, with what they tried. -/
inductive Runs (d : Delimiters) : Scan → List Tried → Except Log Scan → Prop
  | finished {s : Scan} (h : s.tried? d = none) :
      Runs d s [] (.ok (s.takeText s.cursor.rest.length))
  | halted {s : Scan} {v : Tried} (h : s.tried? d = some v) (hhalts : v.trial.attempt = .halted) :
      Runs d s [v] (.error (s.log ++ v.trial.notes))
  | next {s s' : Scan} {v : Tried} {vs : List Tried} {result : Except Log Scan}
      (h : s.tried? d = some v) (hgoes : s.Goes d v s') (hr : Runs d s' vs result) :
      Runs d s (v :: vs) result

/-- Every run comes to an end by itself: no round stands still or leaves the template. -/
theorem runs_run {size : Nat} (hsize : s.cursor.total = size) :
    Runs d s (triedFrom d size s) (run d size s) := by
  induction hleft : size - s.cursor.offset using Nat.strong_induction_on generalizing s with
  | _ left ih =>
    rw [run, triedFrom]
    rcases step_cases d s with ⟨hnone, hstep⟩ | ⟨v, hsome, hhalts, hstep⟩ |
      ⟨v, s', hsome, hgoes, hstep, hleads, hlt⟩
    · rw [hstep, hnone]
      exact .finished hnone
    · rw [hstep, hsome]
      exact .halted hsome hhalts
    · have htotal : s'.cursor.total = size := hleads.total_eq.trans hsize
      have hle : s'.cursor.offset ≤ size := offset_le htotal
      rw [hstep, hsome]
      simp only [hlt, hle, and_self, if_true]
      exact .next hsome hgoes (ih _ (by omega) htotal rfl)

theorem runs_scan (d : Delimiters) (template : List Char) :
    Runs d (.start template) (tried d template) (scan d template) :=
  runs_run (Nat.zero_add _)

/-- Every place of a run was met by a round of it, and later ones lie further on. -/
theorem Runs.places (h : Runs d s vs result) :
    vs.Pairwise (·.place.offset < ·.place.offset) ∧
      ∀ v ∈ vs, s.cursor.Leads v.place ∧ ∃ s₁ n, Meets d s₁ n v := by
  induction h with
  | finished => exact ⟨.nil, List.forall_mem_nil _⟩
  | halted hsome =>
    obtain ⟨n, hmeets⟩ := exists_meets hsome
    exact ⟨List.pairwise_singleton _ _, List.forall_mem_singleton.mpr ⟨hmeets.leads, _, n, hmeets⟩⟩
  | next hsome hgoes hr ih =>
    obtain ⟨n, hmeets⟩ := exists_meets hsome
    obtain ⟨hpairs, hplaces⟩ := ih
    obtain ⟨hleads, hlt⟩ := hmeets.ahead hgoes
    refine ⟨List.pairwise_cons.mpr ⟨fun w hw ↦ hlt.trans_le (hplaces w hw).1.offset_le, hpairs⟩, ?_⟩
    refine List.forall_mem_cons.mpr ⟨⟨hmeets.leads, _, n, hmeets⟩, fun w hw ↦ ?_⟩
    obtain ⟨hw, hmet⟩ := hplaces w hw
    exact ⟨(hmeets.leads.trans hleads).trans hw, hmet⟩

/-! ### What a run records -/

theorem notesOf_cons (v : Tried) (vs : List Tried) :
    notesOf (v :: vs) = v.trial.notes ++ notesOf vs :=
  rfl

theorem Tag.At.passing (h : Tag.At right c t notes next) : notes.Passing := by
  cases h with
  | ifTrue => exact Condition.passing_warnings _
  | elseIf => exact Condition.passing_warnings _
  | _ => exact Log.passing_nil

/-- What a trial has to say that is left behind. -/
theorem Tries.passing {b : Blocks} {offset : Nat} {trial : Trial}
    (h : Tries right b offset c trial) (hgoes : trial.attempt ≠ .halted) :
    trial.notes.Passing := by
  cases h with
  | tag hat hlate =>
    refine Log.passing_append.mpr ⟨?_, hat.passing⟩
    cases hlate with
    | none => exact Log.passing_nil
    | elseIf => exact Log.passing_singleton.mpr (Fault.passing_about rfl _ _)
  | untagged => exact Log.passing_nil
  | refused hname hmem hpassing => exact hpassing
  | halted => exact absurd rfl hgoes

theorem Tries.stopping {b : Blocks} {offset : Nat} {trial : Trial}
    (h : Tries right b offset c trial) (hhalts : trial.attempt = .halted) :
    trial.notes.Stopping := by
  cases h with
  | halted hstops => exact hstops
  | _ => exact absurd hhalts (by simp)

/-- A run to the end of the template records what its trials have to say, and the compile went on
after all of it. -/
theorem Runs.log_ok (h : Runs d s vs (.ok s')) :
    s'.log = s.log ++ notesOf vs ∧ (notesOf vs).Passing := by
  generalize hresult : Except.ok s' = result at h
  induction h with
  | finished hnone =>
    obtain rfl := Except.ok.inj hresult
    exact ⟨(List.append_nil _).symm, Log.passing_nil⟩
  | halted hsome hhalts => simp at hresult
  | next hsome hgoes hr ih =>
    obtain ⟨n, hmeets⟩ := exists_meets hsome
    obtain ⟨hlog, hpassing⟩ := ih hresult
    rw [hlog, hgoes.log, notesOf_cons, List.append_assoc]
    exact ⟨rfl, Log.passing_append.mpr ⟨hmeets.tries.passing hgoes.goesOn, hpassing⟩⟩

/-- A run that stops records what its trials have to say, up to what stopped it. -/
theorem Runs.log_error (h : Runs d s vs (.error log)) :
    log = s.log ++ notesOf vs ∧ (notesOf vs).Stopping := by
  generalize hresult : Except.error log = result at h
  induction h with
  | finished hnone => simp at hresult
  | halted hsome hhalts =>
    obtain ⟨n, hmeets⟩ := exists_meets hsome
    obtain rfl := Except.error.inj hresult
    rw [notesOf_cons, notesOf, List.flatMap_nil, List.append_nil]
    exact ⟨rfl, hmeets.tries.stopping hhalts⟩
  | next hsome hgoes hr ih =>
    obtain ⟨n, hmeets⟩ := exists_meets hsome
    obtain ⟨hlog, hstops⟩ := ih hresult
    rw [hlog, hgoes.log, notesOf_cons, List.append_assoc]
    exact ⟨rfl, hstops.append (hmeets.tries.passing hgoes.goesOn)⟩

end Stencil.Template
