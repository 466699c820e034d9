import Stencil.Proofs.Neighbours
import Stencil.Proofs.Rounds

/-!
# Outcomes and diagnostics

A compile fails exactly when an error was recorded on the way, and it gives back whatever was
recorded, in the order in which it was. Only the last diagnostic may have stopped the compile. What
is left over for a template that compiles are warnings about single equals signs, one for each of
them in the conditions of the template.

## Main definitions

* `Template.recorded`: everything that is recorded about a template, in order.
* `Template.conditionTokens`, `Template.equalsSigns`: the tokens of the conditions of a template,
  and the single equals signs among them.
* `Program.diagnostics`: what a compile has to say about a template.

## Main results

* `Program.diagnostics_eq`: a compile gives back what was recorded.
* `Program.outcome_matches_diagnostics`: how the outcome of a compile and its diagnostics belong
  together.
-/

namespace Stencil

open Text (Cursor)

namespace Template

open Condition (Accepts warnings)

/-- The tokens of the condition at a place behind a left delimiter, and none when the place has no
name of a tag with a condition. -/
def conditionTokens (right : List Char) (c : Cursor) : List Token :=
  match nameLength? right c.rest with
  | none => []
  | some n =>
    let name := String.ofList ((c.rest.take n).map Char.toLower)
    if name = "if" ∨ name = "elseif" then
      (Token.scan right (c.advance n)).1.takeWhile (·.kind ≠ .close)
    else []

/-- The single equals signs in the conditions where tags were tried. -/
def signsOf (d : Delimiters) (vs : List Tried) : List Token :=
  vs.flatMap fun v ↦ (conditionTokens d.right.toList (v.inside d)).filter (·.kind = .assign)

/-- The single equals signs in the conditions of a template, in the order of the source. -/
def equalsSigns (d : Delimiters) (template : List Char) : List Token :=
  signsOf d (tried d template)

/-- Everything that is recorded about a template, in order: what the trials have to say, and the
blocks that are never closed when the end of the template is reached. -/
def recorded (d : Delimiters) (template : List Char) : Log :=
  notesOf (tried d template) ++
    match scan d template with
    | .ok s => s.blocks.drain.map fun e ↦ unended e.1 e.2
    | .error _ => []

variable {d : Delimiters} {right template : List Char} {c next : Cursor} {s s' : Scan} {b : Blocks}
  {offset n : Nat} {v : Tried} {vs : List Tried} {trial : Trial} {log : Log}

theorem conditionTokens_of_names {name : String} (h : Names right c.rest name n) :
    conditionTokens right c = if name = "if" ∨ name = "elseif" then
      (Token.scan right (c.advance n)).1.takeWhile (·.kind ≠ .close) else [] := by
  rw [conditionTokens, h.1]
  dsimp only
  rw [h.2]

theorem conditionTokens_eq_nil
    (h : ∀ name n, Names right c.rest name n → name ≠ "if" ∧ name ≠ "elseif") :
    conditionTokens right c = [] := by
  cases hlen : nameLength? right c.rest with
  | none => rw [conditionTokens, hlen]
  | some n =>
    obtain ⟨hif, helseif⟩ := h _ n ⟨hlen, rfl⟩
    rw [conditionTokens_of_names ⟨hlen, rfl⟩, if_neg (not_or.mpr ⟨hif, helseif⟩)]

theorem conditionTokens_of_ne {name : String} (h : Names right c.rest name n)
    (hname : name ≠ "if" ∧ name ≠ "elseif") : conditionTokens right c = [] := by
  rw [conditionTokens_of_names h, if_neg (not_or.mpr hname)]

theorem conditionTokens_of_accepts {name : String} {body : List Token} {e : Expr}
    (hright : right ≠ []) (h : Names right c.rest name n) (hname : name = "if" ∨ name = "elseif")
    (haccepts : Accepts right (c.advance n) body e next) : conditionTokens right c = body := by
  rw [conditionTokens_of_names h, if_pos hname]
  exact Condition.takeWhile_of_closes hright haccepts.closes

theorem conditionTokens_subset {t : Token} (ht : t ∈ conditionTokens right c) :
    ∃ c', t ∈ (Token.scan right c').1 := by
  unfold conditionTokens at ht
  split at ht
  · simp at ht
  dsimp only at ht
  split at ht
  · exact ⟨_, (List.takeWhile_sublist _).subset ht⟩
  · simp at ht

theorem picked_of_accepts {body : List Token} {e : Expr} (hright : right ≠ [])
    (haccepts : Accepts right (c.advance n) body e next) : Token.Picked c body next := by
  obtain ⟨o, hscan⟩ := Token.scan_eq_of_closes hright haccepts.closes
  have hrow := Token.row_scan hright (c.advance n)
  rw [hscan] at hrow
  exact ⟨_, hrow.of_leads (c.leads_advance n), List.sublist_append_left _ _⟩

/-- What there is to say about a tag is about the single equals signs of its condition. -/
theorem Tag.At.signs {t : Tag} {notes : Log} (h : Tag.At d.right.toList c t notes next) :
    notes = warnings (conditionTokens d.right.toList c) ∧
      Token.Picked c (conditionTokens d.right.toList c) next := by
  have hleads := h.leads
  cases h with
  | «show» hpath hclose =>
    have hhead := head?_of_atStart? hpath
    rw [conditionTokens_eq_nil fun _ _ hname ↦ absurd hhead hname.head?_ne]
    exact ⟨rfl, Token.picked_nil hleads⟩
  | ifTrue hname haccepts =>
    rw [conditionTokens_of_accepts (right_ne_nil d) hname (Or.inl rfl) haccepts]
    exact ⟨rfl, picked_of_accepts (right_ne_nil d) haccepts⟩
  | elseIf hname haccepts =>
    rw [conditionTokens_of_accepts (right_ne_nil d) hname (Or.inr rfl) haccepts]
    exact ⟨rfl, picked_of_accepts (right_ne_nil d) haccepts⟩
  | otherwise hname hclose =>
    rw [conditionTokens_of_ne hname (by decide)]
    exact ⟨rfl, Token.picked_nil hleads⟩
  | endIf hname hclose =>
    rw [conditionTokens_of_ne hname (by decide)]
    exact ⟨rfl, Token.picked_nil hleads⟩

/-- The same of a round that leaves no error. -/
theorem Meets.signs (h : Meets d s n v) (hgoes : s.Goes d v s')
    (hclean : v.trial.notes.hasErrors = false) :
    v.trial.notes = warnings (conditionTokens d.right.toList (v.inside d)) ∧
      Token.Picked (v.inside d) (conditionTokens d.right.toList (v.inside d)) s'.cursor := by
  have htries := h.tries
  have hcursor := hgoes.cursor
  have hgoesOn := hgoes.goesOn
  generalize v.trial = trial at htries hclean hcursor hgoesOn ⊢
  cases htries with
  | @tag t next late warned hat hlate =>
    rw [Condition.hasErrors_append, Bool.or_eq_false_iff] at hclean
    obtain rfl : late = [] := by
      cases hlate with
      | none => rfl
      | elseIf => exact absurd hclean.1 (by simp [Log.hasErrors, Fault.locate, Fault.isError_about])
    rw [hcursor t next rfl]
    exact hat.signs
  | untagged huntagged =>
    have hnone := conditionTokens_eq_nil fun name n hname ↦ by
      have hmem := huntagged.2 name n hname
      simp only [tagNames, List.mem_cons, not_or] at hmem
      exact ⟨hmem.1, hmem.2.1⟩
    rw [hnone]
    exact ⟨rfl, Token.picked_nil hgoes.ahead⟩
  | refused hname hmem hpassing herrors => exact absurd hclean (by simp [herrors])
  | halted hstops => exact absurd rfl hgoesOn

theorem signsOf_cons (v : Tried) (vs : List Tried) : signsOf d (v :: vs) =
    (conditionTokens d.right.toList (v.inside d)).filter (·.kind = .assign) ++ signsOf d vs :=
  rfl

/-- What a run without an error records are warnings about the single equals signs in the
conditions of its template. -/
theorem Runs.signs (h : Runs d s vs (.ok s')) (hclean : (notesOf vs).hasErrors = false) :
    notesOf vs = (signsOf d vs).map (Condition.fault .singleEquals) ∧
      Token.Picked s.cursor (signsOf d vs) s'.cursor := by
  generalize hresult : Except.ok s' = result at h
  induction h with
  | finished hnone =>
    obtain rfl := Except.ok.inj hresult
    exact ⟨rfl, Token.picked_nil (Cursor.leads_advance _ _)⟩
  | halted hsome hhalts => simp at hresult
  | @next s s₁ v vs result hsome hgoes hr ih =>
    obtain ⟨n, hmeets⟩ := exists_meets hsome
    rw [notesOf_cons, Condition.hasErrors_append, Bool.or_eq_false_iff] at hclean
    obtain ⟨hnotes, hpicked⟩ := ih hclean.2 hresult
    obtain ⟨hfirst, hfrom⟩ := hmeets.signs hgoes hclean.1
    rw [notesOf_cons, signsOf_cons, List.map_append, ← hnotes, hfirst]
    exact ⟨rfl, ((hfrom.filter _).of_leads (hmeets.leads.trans (v.leads d))).append hpicked⟩

theorem mem_signsOf {t : Token} (h : t ∈ signsOf d vs) : t.text = ['='] := by
  obtain ⟨v, -, ht⟩ := List.mem_flatMap.mp h
  obtain ⟨ht, hkind⟩ := List.mem_filter.mp ht
  obtain ⟨c, hc⟩ := conditionTokens_subset ht
  exact Token.text_of_assign hc (by simpa using hkind)

/-- A single equals sign of a template stands at an equals sign of the template. -/
theorem equals_of_picked {ts : List Token} {t : Token}
    (h : Token.Picked (.ofText template) ts next) (ht : t ∈ ts) (htext : t.text = ['=']) :
    ∃ before after, template = before ++ '=' :: after ∧ t.offset = Text.byteLength before := by
  obtain ⟨place, hleads, hoffset, hprefix⟩ := h.stands ht
  obtain ⟨before, hbefore, hplace⟩ := Cursor.leads_ofText_iff.mp hleads
  rw [htext] at hprefix
  obtain ⟨after, hafter⟩ := hprefix
  exact ⟨before, after, by rw [hbefore, ← hafter, List.singleton_append], hoffset.trans hplace⟩

/-! ### Whole templates -/

theorem recorded_of_ok (h : scan d template = .ok s) :
    recorded d template = s.finalLog ∧ s.log = notesOf (tried d template) := by
  have hruns := runs_scan d template
  rw [h] at hruns
  have hlog : s.log = notesOf (tried d template) := hruns.log_ok.1
  rw [recorded, h, ← hlog]
  exact ⟨rfl, rfl⟩

theorem recorded_of_error (h : scan d template = .error log) :
    recorded d template = log ∧ log.Stopping := by
  have hruns := runs_scan d template
  rw [h] at hruns
  obtain ⟨hlog, hstops⟩ := hruns.log_error
  obtain rfl : log = notesOf (tried d template) := hlog
  rw [recorded, h]
  exact ⟨List.append_nil _, hstops⟩

end Template

open Template

namespace Program

variable {d : Delimiters} {template : String}

/-- What a compile gives back besides the nodes: the warnings about a template that compiles, or
everything that is wrong with one that does not. -/
def diagnostics (d : Delimiters) (template : String) : Log :=
  match compile d template with
  | .error log => log
  | .ok p => p.warnings

/-- A compile fails exactly when an error was recorded, and gives back everything that was. -/
theorem compile_eq (d : Delimiters) (template : String) :
    (recorded d template.toList).hasErrors = true ∧
        compile d template = .error (recorded d template.toList) ∨
      (recorded d template.toList).hasErrors = false ∧
        ∃ s, scan d template.toList = .ok s ∧
          compile d template = .ok ⟨currentVersion, s.nodes, recorded d template.toList⟩ := by
  cases hscan : scan d template.toList with
  | error log =>
    obtain ⟨hrecorded, hstops⟩ := recorded_of_error hscan
    rw [hrecorded, compile, hscan]
    exact Or.inl ⟨hstops.hasErrors, rfl⟩
  | ok s =>
    rw [compile_of_scan hscan, (recorded_of_ok hscan).1]
    cases herrors : s.finalLog.hasErrors with
    | true => exact Or.inl ⟨rfl, rfl⟩
    | false => exact Or.inr ⟨rfl, s, rfl, rfl⟩

theorem diagnostics_eq (d : Delimiters) (template : String) :
    diagnostics d template = recorded d template.toList := by
  rw [diagnostics]
  rcases compile_eq d template with ⟨-, hcompile⟩ | ⟨-, s, -, hcompile⟩ <;> rw [hcompile]

theorem isError_unended (kind : String) (f : Frame) : (unended kind f).isError = true := by
  unfold unended
  split <;> rfl

theorem fatal_unended (kind : String) (f : Frame) : (unended kind f).fatal = false := by
  unfold unended
  split <;> rfl

/-- A compile that reached the end of the template was stopped by nothing. -/
theorem fatal_of_ok {s : Scan} (hscan : scan d template.toList = .ok s) :
    ∀ n ∈ recorded d template.toList, n.fatal = false := by
  have hruns := runs_scan d template.toList
  rw [hscan] at hruns
  rw [recorded, hscan]
  refine List.forall_mem_append.mpr ⟨fun n hn ↦ (hruns.log_ok.2 n hn).fatal, fun n hn ↦ ?_⟩
  obtain ⟨e, -, rfl⟩ := List.mem_map.mp hn
  exact fatal_unended _ _

/-- Without an error there are only warnings about single equals signs. -/
theorem recorded_of_clean {s : Scan} (hscan : scan d template.toList = .ok s)
    (hclean : (recorded d template.toList).hasErrors = false) :
    recorded d template.toList =
        (equalsSigns d template.toList).map (Condition.fault .singleEquals) ∧
      Token.Picked (.ofText template.toList) (equalsSigns d template.toList) s.cursor := by
  rw [recorded, Condition.hasErrors_append, Bool.or_eq_false_iff] at hclean
  obtain ⟨hnotes, hended⟩ := hclean
  have hruns := runs_scan d template.toList
  rw [hscan] at hruns hended
  have hnone : s.blocks.drain = [] := by
    cases hdrain : s.blocks.drain with
    | nil => rfl
    | cons e es => simp [hdrain, Log.hasErrors, isError_unended] at hended
  rw [recorded, hscan]
  dsimp only
  rw [hnone, List.map_nil, List.append_nil]
  exact hruns.signs hnotes

/-- A compile fails exactly when an error was recorded, and then everything that was recorded is
given back in its order. At most one diagnostic is fatal; it comes last and is an error. A template
that compiles has one warning for each single equals sign in its conditions and no other one, in the
order of the source, each at its equals sign. -/
theorem outcome_matches_diagnostics (d : Delimiters) (template : String) :
    (∀ log, compile d template = .error log ↔
        (recorded d template.toList).hasErrors = true ∧ log = recorded d template.toList) ∧
      (∀ earlier n later, recorded d template.toList = earlier ++ n :: later → n.fatal = true →
        later = [] ∧ n.isError = true) ∧
      ∀ p, compile d template = .ok p →
        p.warnings = recorded d template.toList ∧
          p.warnings = (equalsSigns d template.toList).map (Condition.fault .singleEquals) ∧
          p.warnings.Pairwise (·.offset < ·.offset) ∧
          ∀ w ∈ p.warnings, w.fault = .singleEquals ∧ w.fatal = false ∧
            ∃ before after, template.toList = before ++ '=' :: after ∧
              w.offset = Text.byteLength before := by
  refine ⟨fun log ↦ ?_, fun earlier n later heq hfatal ↦ ?_, fun p hp ↦ ?_⟩
  · rcases compile_eq d template with ⟨herrors, hcompile⟩ | ⟨hclean, s, -, hcompile⟩
    · rw [hcompile, Except.error.injEq, eq_comm]
      exact ⟨fun hlog ↦ ⟨herrors, hlog⟩, And.right⟩
    · simp [hcompile, hclean]
  · cases hscan : scan d template.toList with
    | error log =>
      obtain ⟨hrecorded, hstops⟩ := recorded_of_error hscan
      rw [← hrecorded, heq] at hstops
      exact hstops.last_of_fatal hfatal
    | ok s =>
      have hpassed := fatal_of_ok hscan n (by simp [heq])
      exact absurd hfatal (by simp [hpassed])
  · rcases compile_eq d template with ⟨-, hcompile⟩ | ⟨hclean, s, hscan, hcompile⟩
    · simp [hcompile] at hp
    obtain rfl := Except.ok.inj (hcompile.symm.trans hp)
    obtain ⟨hwarnings, hpicked⟩ := recorded_of_clean hscan hclean
    refine ⟨rfl, hwarnings, ?_, fun w hw ↦ ?_⟩
    · dsimp only
      rw [hwarnings, List.pairwise_map]
      exact hpicked.pairwise
    · rw [show _ = _ from hwarnings] at hw
      obtain ⟨t, ht, rfl⟩ := List.mem_map.mp hw
      exact ⟨rfl, rfl, equals_of_picked hpicked ht (mem_signsOf ht)⟩

/-- A template with two single equals signs, and one with an empty condition that stops the
compile. -/
theorem outcome_matches_diagnostics_equals :
    (∃ p, compile .standard "\x7bif %a = 1\x7dé\x7belseif %b = 2\x7dy\x7b/if\x7d" = .ok p ∧
      p.warnings.map Diagnostic.offset = [7, 24]) ∧
    ∃ n, recorded .standard "\x7bif\x7d\x7bif %a\x7d".toList = [n] ∧ n.isError = true := by
  constructor
  · have hcompiles : (compile .standard
        "\x7bif %a = 1\x7dé\x7belseif %b = 2\x7dy\x7b/if\x7d").toBool = true := by
      decide +kernel
    have hoffsets : (equalsSigns .standard
        "\x7bif %a = 1\x7dé\x7belseif %b = 2\x7dy\x7b/if\x7d".toList).map Token.offset =
          [7, 24] := by
      decide +kernel
    obtain ⟨p, hp⟩ := exists_of_toBool hcompiles
    obtain ⟨-, -, hok⟩ := outcome_matches_diagnostics .standard
      "\x7bif %a = 1\x7dé\x7belseif %b = 2\x7dy\x7b/if\x7d"
    obtain ⟨-, hwarnings, -, -⟩ := hok p hp
    refine ⟨p, hp, ?_⟩
    rw [hwarnings, List.map_map]
    exact hoffsets
  · have hfatal : (recorded .standard "\x7bif\x7d\x7bif %a\x7d".toList).map Diagnostic.fatal =
        [true] := by
      decide +kernel
    obtain ⟨n, ns, hrecorded, hn, hnone⟩ := List.map_eq_cons_iff.mp hfatal
    obtain rfl := List.map_eq_nil_iff.mp hnone
    obtain ⟨-, hlast, -⟩ := outcome_matches_diagnostics .standard "\x7bif\x7d\x7bif %a\x7d"
    exact ⟨n, hrecorded, (hlast [] n [] hrecorded hn).2⟩

end Program

end Stencil
