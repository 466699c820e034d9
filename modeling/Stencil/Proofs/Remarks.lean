import Stencil.Proofs.Nestings

/-!
# What is recorded about a condition

Something may be wrong with a condition as a whole, with one of its tokens, or with a token that
opens a level too many. Whatever is recorded about a condition is one of these, so that a statement
about all diagnostics of conditions has three cases.

## Main definitions

* `Condition.Noted`: what may be recorded about the condition at a place.

## Main results

* `Condition.noted_compile`: whatever is recorded about a condition is one of these.
-/

namespace Stencil.Condition

open Text (Cursor)

variable {right : List Char} {c : Cursor} {s : State} {t u : Token} {ts : List Token}

/-- The tokens as they are understood are those of the condition, and equalities in the place of
single equals signs. -/
theorem mem_check (h : u ∈ (check s ts).1) :
    ∃ t ∈ ts, u = t ∨ t.kind = .assign ∧ u = equality t := by
  have hexamine (s : State) (last : Bool) (t : Token) :
      (examine s last t).token = t ∨ t.kind = .assign ∧ (examine s last t).token = equality t := by
    unfold examine
    cases hk : t.kind with
    | assign =>
      dsimp only [assign]
      split
      · exact Or.inr ⟨rfl, rfl⟩
      · exact Or.inl rfl
    | _ => exact Or.inl rfl
  induction ts generalizing s with
  | nil => simp [check] at h
  | cons t ts ih =>
    rcases List.mem_cons.mp h with rfl | h
    · exact ⟨t, List.mem_cons_self, hexamine _ _ _⟩
    · obtain ⟨v, hv, hu⟩ := ih h
      exact ⟨v, List.mem_cons_of_mem _ hv, hu⟩

/-- Only a token that opens a level is too deep. -/
theorem opens_of_tooDeep? (h : tooDeep? .start ts = some t) : t ∈ ts ∧ t.opens = true := by
  rw [tooDeep?_eq_find? (by decide)] at h
  obtain ⟨r, hr, rfl⟩ := Option.map_eq_some_iff.mp h
  have hmem := List.mem_map_of_mem (f := Prod.fst) (List.mem_of_find?_eq_some hr)
  rw [Nesting.map_fst_openings] at hmem
  exact List.mem_filter.mp hmem

/-- The faults of a condition as a whole. -/
def wholeFaults : List Fault :=
  [.ifUnclosed, .ifEmpty, .unbalancedParens, .unknownExpression]

/-- The tokens of the condition at a place, without the right delimiter. -/
def bodyAt (right : List Char) (c : Cursor) : List Token :=
  (Token.scan right c).1.takeWhile (·.kind ≠ .close)

/-- What may be recorded about the condition at a place. -/
inductive Noted (right : List Char) (c : Cursor) : Diagnostic → Prop
  /-- A fault of the whole, at its start or behind its last token. -/
  | whole {f : Fault} {n : Diagnostic} (hf : f ∈ wholeFaults) (hfault : n.fault = f)
      (htoken : n.token = "")
      (hoffset : n.offset = bodyEnd c.offset (bodyAt right c) ∨ n.offset = c.offset) :
      Noted right c n
  /-- Something about one of its tokens, when the right delimiter was found. -/
  | remark {before after : List Token} {t : Token} {n : Diagnostic}
      (hclosed : ∃ u ∈ (Token.scan right c).1, u.kind = .close)
      (hbody : bodyAt right c = before ++ t :: after) (h : Remark t after.isEmpty n) :
      Noted right c n
  /-- A token of it that opens a level too many. -/
  | deep {t : Token} (ht : t ∈ bodyAt right c) (hopens : t.opens = true) :
      Noted right c (fault .nestedTooDeep t)

theorem noted_compileBody {next : Cursor}
    (hclosed : ∃ u ∈ (Token.scan right c).1, u.kind = .close) :
    ∀ n ∈ (compileBody c.offset (bodyAt right c) next).2, Noted right c n := by
  have hcheck : ∀ n ∈ (check .start (bodyAt right c)).2, Noted right c n := fun n hn ↦ by
    obtain ⟨before, t, after, hbody, hremark⟩ := remark_check _ _ n hn
    exact .remark hclosed hbody hremark
  unfold compileBody
  dsimp only
  split
  · exact hcheck
  split
  · rename_i t hdeep
    refine List.forall_mem_append.mpr ⟨hcheck, List.forall_mem_singleton.mpr ?_⟩
    obtain ⟨hmem, hopens⟩ := opens_of_tooDeep? hdeep
    obtain ⟨u, hu, rfl | ⟨-, rfl⟩⟩ := mem_check hmem
    · exact .deep hu hopens
    · simp [Token.opens, equality] at hopens
  split
  · exact hcheck
  · exact List.forall_mem_append.mpr
      ⟨hcheck, List.forall_mem_singleton.mpr
        (.whole (f := .unknownExpression) (by decide) rfl rfl (Or.inr rfl))⟩

/-- Whatever is recorded about a condition is about the whole of it, about one of its tokens, or
about a token that is too deep. -/
theorem noted_compile (right : List Char) (c : Cursor) :
    ∀ n ∈ (compile right c).2, Noted right c n := by
  unfold compile
  dsimp only
  split
  · exact List.forall_mem_singleton.mpr (.whole (f := .ifUnclosed) (by decide) rfl rfl (Or.inr rfl))
  rename_i hclosed
  split
  · exact List.forall_mem_singleton.mpr (.whole (f := .ifEmpty) (by decide) rfl rfl (Or.inr rfl))
  split
  · exact List.forall_mem_singleton.mpr
      (.whole (f := .unbalancedParens) (by decide) rfl rfl (Or.inl rfl))
  · exact noted_compileBody (by simpa using hclosed)

end Stencil.Condition
