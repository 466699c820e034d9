import Stencil.Proofs.Outcomes

/-!
# Blocks that are never closed

The blocks that are open at the end of a template are those of the opening tags without an end tag
of their own, where an end tag belongs to the innermost block that is open. A tag that was not
recognised counts for nothing. Each of them is reported once, after everything else, the innermost
one first.

## Main definitions

* `Template.openIfs`: the blocks that a sequence of tags leaves open.

## Main results

* `Template.Runs.offsets`: the open blocks of a scan are those that its tags leave open.
* `Program.unclosed_diagnostics`: how blocks that are never closed are reported.
-/

namespace Stencil

namespace Template

open Text (Cursor)

/-- The open blocks after one more tag, each given by the byte offset of its opening tag. -/
def openAfter (opened : List Nat) : Nat × Tag → List Nat
  | (offset, .ifTrue _) => offset :: opened
  | (_, .endIf) => opened.tail
  | (_, .show _) | (_, .elseIf _) | (_, .otherwise) => opened

/-- The blocks that some tags leave open, innermost first. -/
def openIfs (ts : List (Nat × Tag)) : List Nat :=
  ts.foldl openAfter []

/-- The byte offsets of the open blocks, innermost first. -/
def Blocks.offsets (b : Blocks) : List Nat :=
  (b.ofKind ifKind).map Frame.offset

variable {d : Delimiters} {template : List Char} {s s' : Scan} {b : Blocks} {t : Tag}
  {offset n : Nat} {v : Tried} {vs : List Tried} {trial : Trial}

/-! ### What tags leave open -/

theorem offsets_after (b : Blocks) (offset : Nat) (t : Tag) :
    (b.after offset t).offsets = openAfter b.offsets (offset, t) := by
  unfold Blocks.offsets
  cases t with
  | «show» p => rfl
  | ifTrue e => rw [Blocks.after, Blocks.push, Blocks.ofKind_setKind]; rfl
  | elseIf e => rfl
  | otherwise =>
    rw [Blocks.after, Blocks.markElse]
    cases h : b.ofKind ifKind with
    | nil => rw [h]; rfl
    | cons f outer => rw [Blocks.ofKind_setKind]; rfl
  | endIf =>
    rw [Blocks.after, Blocks.pop]
    cases h : b.ofKind ifKind with
    | nil => rw [h]; rfl
    | cons f outer => rw [Blocks.ofKind_setKind]; rfl

theorem mem_openAfter {opened : List Nat} {o : Nat} (h : o ∈ openAfter opened (offset, t)) :
    o ∈ opened ∨ o = offset ∧ ∃ e, t = .ifTrue e := by
  cases t with
  | ifTrue e =>
    rcases List.mem_cons.mp h with rfl | h
    · exact Or.inr ⟨rfl, e, rfl⟩
    · exact Or.inl h
  | endIf => exact Or.inl (List.mem_of_mem_tail h)
  | «show» p => exact Or.inl h
  | elseIf e => exact Or.inl h
  | otherwise => exact Or.inl h

/-- Tags in the order of the source leave blocks open whose offsets decrease towards the outside. -/
theorem pairwise_foldl_openAfter {ts : List (Nat × Tag)} {opened : List Nat}
    (hts : ts.Pairwise (·.1 < ·.1)) (hopened : opened.Pairwise (· > ·))
    (hbefore : ∀ o ∈ opened, ∀ t ∈ ts, o < t.1) :
    (ts.foldl openAfter opened).Pairwise (· > ·) := by
  induction ts generalizing opened with
  | nil => exact hopened
  | cons t ts ih =>
    obtain ⟨offset, t⟩ := t
    obtain ⟨hfirst, hts⟩ := List.pairwise_cons.mp hts
    refine ih hts ?_ fun o ho u hu ↦ ?_
    · cases t with
      | ifTrue e =>
        exact List.pairwise_cons.mpr
          ⟨fun o ho ↦ hbefore o ho (offset, .ifTrue e) List.mem_cons_self, hopened⟩
      | endIf => exact hopened.sublist (List.tail_sublist _)
      | «show» p => exact hopened
      | elseIf e => exact hopened
      | otherwise => exact hopened
    · rcases mem_openAfter ho with ho | ⟨rfl, -⟩
      · exact hbefore o ho u (List.mem_cons_of_mem _ hu)
      · exact hfirst u hu

/-- A block that is left open was opened by one of the tags. -/
theorem mem_foldl_openAfter {ts : List (Nat × Tag)} {opened : List Nat} {o : Nat}
    (h : o ∈ ts.foldl openAfter opened) : o ∈ opened ∨ ∃ e, (o, Tag.ifTrue e) ∈ ts := by
  induction ts generalizing opened with
  | nil => exact Or.inl h
  | cons t ts ih =>
    obtain ⟨offset, t⟩ := t
    rcases ih h with h | ⟨e, he⟩
    · rcases mem_openAfter h with h | ⟨rfl, e, rfl⟩
      · exact Or.inl h
      · exact Or.inr ⟨e, List.mem_cons_self⟩
    · exact Or.inr ⟨e, List.mem_cons_of_mem _ he⟩

/-! ### What a run leaves open -/

/-- A trial changes the open blocks by the tag that it recognises, and by nothing else. -/
theorem Meets.offsets (h : Meets d s n v) :
    v.trial.blocks.offsets = v.tag?.toList.foldl openAfter s.blocks.offsets ∧
      (s.blocks.OnlyIfs → v.trial.blocks.OnlyIfs) := by
  have htries := h.tries
  obtain ⟨place, trial⟩ := v
  dsimp only [Tried.inside, Tried.tag?] at htries ⊢
  cases htries with
  | tag hat hlate => exact ⟨offsets_after _ _ _, fun honly ↦ honly.after _ _⟩
  | _ => exact ⟨rfl, id⟩

/-- The open blocks of a scan are those that its tags leave open. -/
theorem Runs.offsets (h : Runs d s vs (.ok s')) :
    s'.blocks.offsets = (vs.filterMap Tried.tag?).foldl openAfter s.blocks.offsets ∧
      (s.blocks.OnlyIfs → s'.blocks.OnlyIfs) := by
  generalize hresult : Except.ok s' = result at h
  induction h with
  | finished hnone =>
    obtain rfl := Except.ok.inj hresult
    exact ⟨rfl, id⟩
  | halted hsome hhalts => simp at hresult
  | @next s s₁ v vs result hsome hgoes hr ih =>
    obtain ⟨n, hmeets⟩ := exists_meets hsome
    obtain ⟨hoffsets, honly⟩ := ih hresult
    obtain ⟨hfirst, hkept⟩ := hmeets.offsets
    refine ⟨?_, fun hs ↦ honly (by rw [hgoes.blocks]; exact hkept hs)⟩
    rw [hoffsets, hgoes.blocks, hfirst, ← List.foldl_append]
    congr 1
    cases htag : v.tag? with
    | none => rw [List.filterMap_cons_none htag]; rfl
    | some t => rw [List.filterMap_cons_some htag]; rfl

theorem tag?_eq_some (h : v.tag? = some (offset, t)) :
    offset = v.place.offset ∧ ∃ next, v.trial.attempt = .tag t next := by
  unfold Tried.tag? at h
  split at h
  · rename_i t' next hattempt
    obtain ⟨rfl, rfl⟩ := Prod.mk.inj (Option.some.inj h)
    exact ⟨rfl, next, hattempt⟩
  · simp at h
  · simp at h

/-- The tags that a scan recognises stand in the order of the source. -/
theorem pairwise_tags (d : Delimiters) (template : List Char) :
    (tags d template).Pairwise (·.1 < ·.1) := by
  refine (runs_scan d template).places.1.filterMap _ fun v w hlt t ht u hu ↦ ?_
  rw [(tag?_eq_some ht).1, (tag?_eq_some hu).1]
  exact hlt

theorem Meets.at_tag {next : Cursor} (h : Meets d s n v) (ht : v.trial.attempt = .tag t next) :
    ∃ warned, Tag.At d.right.toList (v.inside d) t warned next := by
  have htries := h.tries
  generalize v.trial = trial at htries ht
  cases htries with
  | @tag t' next' late warned hat hlate =>
    obtain ⟨rfl, rfl⟩ := Attempt.tag.inj ht
    exact ⟨warned, hat⟩
  | _ => simp at ht

/-- An opening tag stands at a left delimiter with its name at once behind it. -/
theorem opening_of_mem_tags {e : Expr} (h : (offset, Tag.ifTrue e) ∈ tags d template) :
    ∃ before name after, template = before ++ (d.left.toList ++ (name ++ after)) ∧
      offset = Text.byteLength before ∧ name.map Char.toLower = ['i', 'f'] := by
  obtain ⟨v, hv, htag⟩ := List.mem_filterMap.mp h
  obtain ⟨rfl, next, hattempt⟩ := tag?_eq_some htag
  obtain ⟨hleads, s, n, hmeets⟩ := (runs_scan d template).places.2 v hv
  obtain ⟨warned, hat⟩ := hmeets.at_tag hattempt
  obtain ⟨before, hbefore, hoffset⟩ := Cursor.leads_ofText_iff.mp hleads
  obtain ⟨inside, hinside⟩ := hmeets.left
  have hrest : (v.inside d).rest = inside := by
    rw [Tried.inside, Cursor.rest_advance, ← hinside, List.drop_left]
  cases hat with
  | @ifTrue k body e next hname haccepts =>
    rw [hrest] at hname
    refine ⟨before, inside.take k, inside.drop k, ?_, hoffset, ?_⟩
    · rw [List.take_append_drop, hinside, hbefore]
    · simpa using congrArg String.toList hname.2

theorem map_unended_drain (h : b.OnlyIfs) :
    b.drain.map (fun e ↦ unended e.1 e.2) = b.offsets.map Fault.ifUnended.locate := by
  rw [h.drain_eq, Blocks.offsets, List.map_map, List.map_map]
  rfl

end Template

open Template

namespace Program

variable {d : Delimiters} {template : String}

theorem not_unended_of_inTag {n : Diagnostic} (h : n.fault.inTag = true) :
    n.fault ≠ .ifUnended ∧ n.fault ≠ .blockUnended := by
  constructor <;> intro hfault <;> simp [hfault, Fault.inTag] at h

/-- At the end of a template the blocks that its tags leave open are reported. -/
theorem diagnostics_of_ok {s : Scan} (h : scan d template.toList = .ok s) :
    diagnostics d template = notesOf (tried d template.toList) ++
        (openIfs (tags d template.toList)).map Fault.ifUnended.locate ∧
      (notesOf (tried d template.toList)).Passing := by
  have hruns := runs_scan d template.toList
  rw [h] at hruns
  obtain ⟨hoffsets, honly⟩ := hruns.offsets
  rw [diagnostics_eq, recorded, h]
  dsimp only
  rw [map_unended_drain (honly onlyIfs_empty), hoffsets]
  exact ⟨rfl, hruns.log_ok.2⟩

theorem diagnostics_of_error {log : Log} (h : scan d template.toList = .error log) :
    diagnostics d template = log ∧ log.Stopping := by
  rw [diagnostics_eq]
  obtain ⟨hrecorded, hstops⟩ := recorded_of_error h
  exact ⟨hrecorded, hstops⟩

/-- What is reported is found while a tag is tried, or is about a block that is never closed. -/
theorem fault_of_mem_diagnostics {n : Diagnostic} (h : n ∈ diagnostics d template) :
    n.fault.inTag = true ∨ n.fault = .ifUnended := by
  cases hscan : scan d template.toList with
  | ok s =>
    obtain ⟨hdiagnostics, hpassing⟩ := diagnostics_of_ok hscan
    rw [hdiagnostics] at h
    rcases List.mem_append.mp h with h | h
    · exact Or.inl (hpassing n h).inTag
    · obtain ⟨o, -, rfl⟩ := List.mem_map.mp h
      exact Or.inr rfl
  | error log =>
    obtain ⟨hdiagnostics, hstops⟩ := diagnostics_of_error hscan
    rw [hdiagnostics] at h
    exact Or.inl (hstops.inTag n h)

/-- Blocks that are never closed are reported exactly. When the end of a template is reached, its
last diagnostics are one for each block that its tags leave open, the innermost one first and with
strictly decreasing offsets, each the offset of a left delimiter with the name of an opening tag at
once behind it. Nothing else is reported in this way, and nothing at all is when the compile stops
before the end. -/
theorem unclosed_diagnostics (d : Delimiters) (template : String) :
    (∀ s, scan d template.toList = .ok s →
      ∃ earlier, diagnostics d template =
          earlier ++ (openIfs (tags d template.toList)).map Fault.ifUnended.locate ∧
        ∀ n ∈ earlier, n.fault ≠ .ifUnended) ∧
      (openIfs (tags d template.toList)).Pairwise (· > ·) ∧
      (∀ offset ∈ openIfs (tags d template.toList),
        ∃ before name after, template.toList = before ++ (d.left.toList ++ (name ++ after)) ∧
          offset = Text.byteLength before ∧ name.map Char.toLower = ['i', 'f']) ∧
      (∀ log, scan d template.toList = .error log →
        diagnostics d template = log ∧ ∀ n ∈ log, n.fault ≠ .ifUnended) ∧
      ∀ n ∈ diagnostics d template, n.fault ≠ .blockUnended := by
  refine ⟨fun s hs ↦ ?_, pairwise_foldl_openAfter (pairwise_tags d _) .nil (by simp),
    fun offset ho ↦ ?_, fun log hlog ↦ ?_, fun n hn ↦ ?_⟩
  · obtain ⟨hdiagnostics, hpassing⟩ := diagnostics_of_ok hs
    exact ⟨_, hdiagnostics, fun n hn ↦ (not_unended_of_inTag (hpassing n hn).inTag).1⟩
  · rcases mem_foldl_openAfter ho with hnil | ⟨e, he⟩
    · simp at hnil
    · exact opening_of_mem_tags he
  · obtain ⟨hdiagnostics, hstops⟩ := diagnostics_of_error hlog
    exact ⟨hdiagnostics, fun n hn ↦ (not_unended_of_inTag (hstops.inTag n hn)).1⟩
  · rcases fault_of_mem_diagnostics hn with hfault | hfault
    · exact (not_unended_of_inTag hfault).2
    · simp [hfault]

/-- Two blocks that are never closed, with a tag at fault between them and a block inside that is
closed; and a compile that stops with a block open. -/
theorem unclosed_diagnostics_nested :
    (∃ earlier, diagnostics .standard
        "\x7bif %a\x7dé\x7bif %b %c\x7d\x7bIF %d\x7d\x7bif %e\x7d\x7b/if\x7d" =
          earlier ++ [19, 0].map Fault.ifUnended.locate ∧
        ∀ n ∈ earlier, n.fault ≠ .ifUnended) ∧
      ∀ n ∈ diagnostics .standard "\x7bif %a\x7d\x7bif\x7d", n.fault ≠ .ifUnended := by
  constructor
  · obtain ⟨hok, -⟩ := unclosed_diagnostics .standard
      "\x7bif %a\x7dé\x7bif %b %c\x7d\x7bIF %d\x7d\x7bif %e\x7d\x7b/if\x7d"
    have hends : (scan .standard
        "\x7bif %a\x7dé\x7bif %b %c\x7d\x7bIF %d\x7d\x7bif %e\x7d\x7b/if\x7d".toList).toBool =
          true := by
      decide +kernel
    have hopen : openIfs (tags .standard
        "\x7bif %a\x7dé\x7bif %b %c\x7d\x7bIF %d\x7d\x7bif %e\x7d\x7b/if\x7d".toList) =
          [19, 0] := by
      decide +kernel
    rw [← hopen]
    cases hscan : scan .standard
        "\x7bif %a\x7dé\x7bif %b %c\x7d\x7bIF %d\x7d\x7bif %e\x7d\x7b/if\x7d".toList with
    | ok s => exact hok s hscan
    | error log =>
      rw [hscan] at hends
      exact absurd hends (by simp [Except.toBool])
  · obtain ⟨-, -, -, herror, -⟩ := unclosed_diagnostics .standard "\x7bif %a\x7d\x7bif\x7d"
    have hstops : (scan .standard "\x7bif %a\x7d\x7bif\x7d".toList).toBool = false := by
      decide +kernel
    cases hscan : scan .standard "\x7bif %a\x7d\x7bif\x7d".toList with
    | ok s =>
      rw [hscan] at hstops
      exact absurd hstops (by simp [Except.toBool])
    | error log =>
      obtain ⟨hdiagnostics, hnone⟩ := herror log hscan
      rw [hdiagnostics]
      exact hnone

end Program

end Stencil
