import Stencil.Proofs.Acceptance
import Stencil.Template.Scan

/-!
# Tags

What may stand behind a left delimiter is described without the scan that tries it. `Tag.At` says
which tag stands at a place, what there is to say about it and where it ends; `Untagged` says that
none does. The open blocks decide only whether a tag may stand there, and that is a matter of
whether their else parts have begun.

## Main definitions

* `Template.Tag.At`, `Template.Untagged`: the tag at a place, or none.
* `Template.Tag.nest?`: how a tag changes the open blocks.
* `Template.Tag.Spells`: the whole source of a tag.

## Main results

* `Template.readTag_cases`: what an attempt without an error has found.
* `Template.readTag_of_at`, `Template.readTag_of_untagged`: what is found when it is there.
* `Template.Tag.At.unique`: there is one tag at a place at most.
* `Template.Tag.At.shift`, `Template.Tag.At.cut`, `Template.Tag.At.extend`: a tag does not look at
  what is around it.
-/

namespace Stencil.Template

open Text (Cursor)
open Condition (Accepts warnings)

variable {right cs vs : List Char} {c next : Cursor} {t : Tag} {notes : Log}

/-- A text begins with a name for a tag, in any letter case. -/
def Names (right cs : List Char) (name : String) (n : Nat) : Prop :=
  nameLength? right cs = some n ∧ String.ofList ((cs.take n).map Char.toLower) = name

/-- The names of tags. -/
def tagNames : List String :=
  ["if", "elseif", "else", "/if"]

/-- The tag at a place behind the left delimiter, what there is to say about it, and the place after
it. -/
inductive Tag.At (right : List Char) (c : Cursor) : Tag → Log → Cursor → Prop
  | show {p : Path} {n : Nat} (hpath : Path.atStart? c.rest = some (p, n))
      (hclose : right <+: (c.advance n).rest) :
      Tag.At right c (.show p) [] ((c.advance n).advance right.length)
  | ifTrue {n : Nat} {body : List Token} {e : Expr} {next : Cursor}
      (hname : Names right c.rest "if" n) (h : Accepts right (c.advance n) body e next) :
      Tag.At right c (.ifTrue e) (warnings body) next
  | elseIf {n : Nat} {body : List Token} {e : Expr} {next : Cursor}
      (hname : Names right c.rest "elseif" n) (h : Accepts right (c.advance n) body e next) :
      Tag.At right c (.elseIf e) (warnings body) next
  | otherwise {n : Nat} (hname : Names right c.rest "else" n)
      (hclose : right <+: (c.advance n).skipBlanks.rest) :
      Tag.At right c .otherwise [] ((c.advance n).skipBlanks.advance right.length)
  | endIf {n : Nat} (hname : Names right c.rest "/if" n)
      (hclose : right <+: (c.advance n).skipBlanks.rest) :
      Tag.At right c .endIf [] ((c.advance n).skipBlanks.advance right.length)

/-- No tag begins at a place behind the left delimiter. -/
def Untagged (right : List Char) (c : Cursor) : Prop :=
  Path.atStart? c.rest = none ∧ ∀ name n, Names right c.rest name n → name ∉ tagNames

/-! ### Open blocks -/

/-- Whether the else part of each open block has begun, innermost block first. -/
def Blocks.stack (b : Blocks) : List Bool :=
  (b.ofKind ifKind).map Frame.hasElse

/-- The open blocks after a tag, if the tag may stand there. -/
def Tag.nest? : Tag → List Bool → Option (List Bool)
  | .show _, stack => some stack
  | .ifTrue _, stack => some (false :: stack)
  | .elseIf _, false :: stack => some (false :: stack)
  | .otherwise, false :: stack => some (true :: stack)
  | .endIf, _ :: stack => some stack
  | _, _ => none

/-- The blocks after a tag that begins at an offset. -/
def Blocks.after (b : Blocks) (offset : Nat) : Tag → Blocks
  | .ifTrue _ => b.push ifKind offset
  | .otherwise => b.markElse ifKind
  | .endIf => b.pop ifKind
  | .show _ | .elseIf _ => b

theorem Blocks.ofKind_setKind (b : Blocks) (kind : String) (frames : List Frame) :
    (b.setKind kind frames).ofKind kind = frames := by
  rw [ofKind, setKind, Entries.get?_put, if_pos rfl, Option.getD_some]

/-- An elseif stands in a block whose else part has not begun. -/
theorem nest?_elseIf {e : Expr} {stack stack' : List Bool} :
    (Tag.elseIf e).nest? stack = some stack' ↔
      ∃ outer, stack = false :: outer ∧ stack' = false :: outer := by
  rcases stack with _ | ⟨_ | _, outer⟩ <;> simp [Tag.nest?, eq_comm]

/-- An else stands in a block whose else part has not begun, and begins it. -/
theorem nest?_otherwise {stack stack' : List Bool} :
    Tag.otherwise.nest? stack = some stack' ↔
      ∃ outer, stack = false :: outer ∧ stack' = true :: outer := by
  rcases stack with _ | ⟨_ | _, outer⟩ <;> simp [Tag.nest?, eq_comm]

/-- An end tag stands in a block, and closes it. -/
theorem nest?_endIf {stack stack' : List Bool} :
    Tag.endIf.nest? stack = some stack' ↔ ∃ inElse, stack = inElse :: stack' := by
  rcases stack with _ | ⟨inElse, outer⟩ <;> simp [Tag.nest?]

theorem exists_frames {b : Blocks} {inElse : Bool} {outer : List Bool}
    (h : b.stack = inElse :: outer) :
    ∃ f frames, b.ofKind ifKind = f :: frames ∧ f.hasElse = inElse ∧
      frames.map Frame.hasElse = outer :=
  List.map_eq_cons_iff.mp h

theorem Blocks.stack_after {b : Blocks} {stack : List Bool} (h : t.nest? b.stack = some stack)
    (offset : Nat) : (b.after offset t).stack = stack := by
  cases t with
  | «show» p => exact Option.some.inj h
  | ifTrue e =>
    rw [← Option.some.inj h, after, Blocks.stack, push, ofKind_setKind]
    rfl
  | elseIf e =>
    obtain ⟨outer, hstack, rfl⟩ := nest?_elseIf.mp h
    exact hstack
  | otherwise =>
    obtain ⟨outer, hstack, rfl⟩ := nest?_otherwise.mp h
    obtain ⟨f, frames, hframes, -, rfl⟩ := exists_frames hstack
    simp only [after, markElse, hframes, Blocks.stack, ofKind_setKind, List.map_cons]
  | endIf =>
    obtain ⟨inElse, hstack⟩ := nest?_endIf.mp h
    obtain ⟨f, frames, hframes, -, rfl⟩ := exists_frames hstack
    simp only [after, pop, hframes, Blocks.stack, ofKind_setKind]

/-! ### Attempts that find a tag -/

variable {b : Blocks} {stack : List Bool} {n offset : Nat}

theorem Names.head?_ne {name : String} (h : Names right cs name n) : cs.head? ≠ some '%' := by
  intro hhead
  obtain ⟨cs, rfl⟩ : ∃ ds, cs = '%' :: ds := by
    cases cs with
    | nil => simp at hhead
    | cons a cs => exact ⟨cs, by simpa using hhead⟩
  have hnone : nameLength? right ('%' :: cs) = none := rfl
  rw [h.1] at hnone
  exact absurd hnone (by simp)

theorem head?_of_atStart? {r : Path × Nat} (h : Path.atStart? cs = some r) :
    cs.head? = some '%' := by
  unfold Path.atStart? at h
  simp only [Option.bind_eq_bind, Option.bind_eq_some_iff] at h
  obtain ⟨n, hn, -⟩ := h
  obtain ⟨ds, rfl, -⟩ := Text.pathLength?_eq_some hn
  rfl

/-- An attempt at a tag with a name, told by the name. -/
theorem readTag_of_names {name : String} (h : Names right c.rest name n) :
    readTag right b offset c =
      if name = "if" then readIf right b offset (c.advance n)
      else if name = "elseif" then readElseIf right b (c.advance n)
      else if name = "else" then readElse right b (c.advance n)
      else if name = "/if" then readEndIf right b (c.advance n)
      else ⟨.unmatched, b, []⟩ := by
  rw [readTag, if_neg h.head?_ne, readNamed, h.1]
  simp only [h.2]

theorem current?_eq (b : Blocks) :
    (b.current? ifKind).map Frame.hasElse = b.stack.head? := by
  rw [Blocks.current?, Blocks.stack, List.head?_map]

/-- The innermost open block. -/
theorem exists_current? {inElse : Bool} (h : b.stack = inElse :: stack) :
    ∃ f, b.current? ifKind = some f ∧ f.hasElse = inElse := by
  have hhead := current?_eq b
  rw [h, List.head?_cons] at hhead
  exact Option.map_eq_some_iff.mp hhead

theorem close?_of_prefix (h : right <+: c.skipBlanks.rest) :
    close? right c = some (c.skipBlanks.advance right.length) :=
  if_pos (List.isPrefixOf_iff_prefix.mpr h)

theorem compile_of_accepts (hright : right ≠ []) {body : List Token} {e : Expr}
    (h : Accepts right c body e next) :
    Condition.compile right c = (.accepted e next, warnings body) :=
  (Condition.compile_eq_accepted_iff hright).mpr ⟨body, h, rfl⟩

/-- A tag is found where it stands, if the open blocks let it stand there. -/
theorem readTag_of_at (hright : right ≠ []) (h : Tag.At right c t notes next)
    (hnest : t.nest? b.stack = some stack) :
    readTag right b offset c = ⟨.tag t next, b.after offset t, notes⟩ := by
  cases h with
  | «show» hpath hclose =>
    rw [readTag, if_pos (head?_of_atStart? hpath), readVariable, hpath]
    exact if_pos (List.isPrefixOf_iff_prefix.mpr hclose)
  | ifTrue hname h =>
    rw [readTag_of_names hname, if_pos rfl, readIf, compile_of_accepts hright h]
    rfl
  | elseIf hname h =>
    obtain ⟨outer, hstack, -⟩ := nest?_elseIf.mp hnest
    obtain ⟨f, hf, helse⟩ := exists_current? hstack
    rw [readTag_of_names hname, if_neg (by decide), if_pos rfl, readElseIf, hf]
    simp [helse, compile_of_accepts hright h, Blocks.after]
  | otherwise hname hclose =>
    obtain ⟨outer, hstack, -⟩ := nest?_otherwise.mp hnest
    obtain ⟨f, hf, helse⟩ := exists_current? hstack
    rw [readTag_of_names hname, if_neg (by decide), if_neg (by decide), if_pos rfl, readElse,
      close?_of_prefix hclose, hf]
    simp [helse, Blocks.after]
  | endIf hname hclose =>
    obtain ⟨inElse, hstack⟩ := nest?_endIf.mp hnest
    obtain ⟨f, hf, -⟩ := exists_current? hstack
    rw [readTag_of_names hname, if_neg (by decide), if_neg (by decide), if_neg (by decide),
      if_pos rfl, readEndIf, close?_of_prefix hclose, hf]
    rfl

/-- Nothing is found where no tag begins. -/
theorem readTag_of_untagged (h : Untagged right c) :
    readTag right b offset c = ⟨.unmatched, b, []⟩ := by
  by_cases hhead : c.rest.head? = some '%'
  · rw [readTag, if_pos hhead, readVariable, h.1]
  · cases hlen : nameLength? right c.rest with
    | none => rw [readTag, if_neg hhead, readNamed, hlen]
    | some n =>
      have hnames : Names right c.rest _ n := ⟨hlen, rfl⟩
      have hother := h.2 _ n hnames
      simp only [tagNames, List.mem_cons, List.not_mem_nil, or_false, not_or] at hother
      obtain ⟨hif, helseif, helse, hendif⟩ := hother
      rw [readTag_of_names hnames, if_neg hif, if_neg helseif, if_neg helse, if_neg hendif]

/-! ### What an attempt has found -/

/-- What an attempt that leaves no error has found: a tag that the open blocks let stand there, or
nothing. -/
def Finds (right : List Char) (b : Blocks) (offset : Nat) (c : Cursor) (trial : Trial) : Prop :=
  (Untagged right c ∧ trial = ⟨.unmatched, b, []⟩) ∨
    ∃ t notes next stack, Tag.At right c t notes next ∧ t.nest? b.stack = some stack ∧
      trial = ⟨.tag t next, b.after offset t, notes⟩

theorem hasErrors_halt {f : Fault} (hf : f ≠ .singleEquals) (b : Blocks) (offset : Nat)
    (token : String) : Log.hasErrors (halt b (f.about offset token)).notes = true := by
  cases f <;> first | rfl | exact absurd rfl hf

theorem hasErrors_refuse {f : Fault} (hf : f ≠ .singleEquals) (b : Blocks) (offset : Nat)
    (token : String) : Log.hasErrors (refuse b (f.about offset token)).notes = true := by
  cases f <;> first | rfl | exact absurd rfl hf

theorem stack_of_current? {f : Frame} (h : b.current? ifKind = some f) :
    ∃ outer, b.stack = f.hasElse :: outer := by
  have hhead := current?_eq b
  rw [h, Option.map_some] at hhead
  exact ⟨b.stack.tail, (List.cons_head?_tail hhead.symm).symm⟩

theorem prefix_of_close? (h : close? right c = some next) :
    right <+: c.skipBlanks.rest ∧ next = c.skipBlanks.advance right.length := by
  unfold close? at h
  split at h
  · rename_i hclose
    exact ⟨List.isPrefixOf_iff_prefix.mp hclose, (Option.some.inj h).symm⟩
  · simp at h

theorem finds_variable (hhead : c.rest.head? = some '%')
    (h : Log.hasErrors (readVariable right b c).notes = false) :
    Finds right b offset c (readVariable right b c) := by
  unfold readVariable at h ⊢
  cases hpath : Path.atStart? c.rest with
  | none => exact Or.inl ⟨⟨hpath, fun _ _ hname ↦ absurd hhead hname.head?_ne⟩, rfl⟩
  | some r =>
    obtain ⟨p, n⟩ := r
    simp only [hpath] at h ⊢
    split at h
    · rename_i hclose
      rw [if_pos hclose]
      exact Or.inr ⟨_, _, _, _, .show hpath (List.isPrefixOf_iff_prefix.mp hclose), rfl, rfl⟩
    · rw [hasErrors_halt (by decide)] at h
      exact absurd h (by decide)

theorem finds_if (hright : right ≠ []) (hname : Names right c.rest "if" n)
    (h : Log.hasErrors (readIf right b offset (c.advance n)).notes = false) :
    Finds right b offset c (readIf right b offset (c.advance n)) := by
  unfold readIf at h ⊢
  rcases hcompile : Condition.compile right (c.advance n) with ⟨o, notes⟩
  rw [hcompile] at h
  cases o with
  | accepted e next =>
    obtain ⟨body, haccepts, rfl⟩ := (Condition.compile_eq_accepted_iff hright).mp hcompile
    exact Or.inr ⟨_, _, _, _, .ifTrue hname haccepts, rfl, rfl⟩
  | rejected =>
    have herrors := Condition.hasErrors_of_compile hcompile (by simp)
    exact absurd (h.symm.trans herrors) (by decide)
  | halted =>
    have herrors := Condition.hasErrors_of_compile hcompile (by simp)
    exact absurd (h.symm.trans herrors) (by decide)

theorem finds_elseIf (hright : right ≠ []) (hname : Names right c.rest "elseif" n)
    (h : Log.hasErrors (readElseIf right b (c.advance n)).notes = false) :
    Finds right b offset c (readElseIf right b (c.advance n)) := by
  unfold readElseIf at h ⊢
  cases hcurrent : b.current? ifKind with
  | none =>
    rw [hcurrent] at h
    exact absurd (h.symm.trans (hasErrors_halt (by decide) _ _ _)) (by decide)
  | some f =>
    obtain ⟨outer, hstack⟩ := stack_of_current? hcurrent
    rcases hcompile : Condition.compile right (c.advance n) with ⟨o, notes⟩
    simp only [hcurrent, hcompile] at h ⊢
    have hboth : Log.hasErrors ((if f.hasElse then
        [Fault.secondElse.locate (c.advance n).offset] else []) ++ notes) = false := by
      cases o <;> exact h
    rw [Condition.hasErrors_append, Bool.or_eq_false_iff] at hboth
    obtain ⟨hlate, hclean⟩ := hboth
    have hvacant : f.hasElse = false := by
      by_contra helse
      rw [if_pos (by simpa using helse)] at hlate
      exact Bool.noConfusion hlate
    cases o with
    | accepted e next =>
      obtain ⟨body, haccepts, rfl⟩ := (Condition.compile_eq_accepted_iff hright).mp hcompile
      rw [hvacant] at hstack ⊢
      exact Or.inr ⟨_, _, _, _, .elseIf hname haccepts, by rw [hstack]; rfl, rfl⟩
    | rejected =>
      have herrors := Condition.hasErrors_of_compile hcompile (by simp)
      exact absurd (hclean.symm.trans herrors) (by decide)
    | halted =>
      have herrors := Condition.hasErrors_of_compile hcompile (by simp)
      exact absurd (hclean.symm.trans herrors) (by decide)

theorem finds_else (hname : Names right c.rest "else" n)
    (h : Log.hasErrors (readElse right b (c.advance n)).notes = false) :
    Finds right b offset c (readElse right b (c.advance n)) := by
  unfold readElse at h ⊢
  cases hclose : close? right (c.advance n) with
  | none =>
    rw [hclose] at h
    exact absurd (h.symm.trans (hasErrors_halt (by decide) _ _ _)) (by decide)
  | some next =>
    obtain ⟨hbegins, rfl⟩ := prefix_of_close? hclose
    cases hcurrent : b.current? ifKind with
    | none =>
      simp only [hclose, hcurrent] at h
      exact absurd (h.symm.trans (hasErrors_refuse (by decide) _ _ _)) (by decide)
    | some f =>
      obtain ⟨outer, hstack⟩ := stack_of_current? hcurrent
      simp only [hclose, hcurrent] at h ⊢
      cases helse : f.hasElse with
      | true =>
        rw [if_pos helse] at h
        exact absurd (h.symm.trans (hasErrors_refuse (by decide) _ _ _)) (by decide)
      | false =>
        rw [helse] at hstack
        exact Or.inr ⟨_, _, _, _, .otherwise hname hbegins, by rw [hstack]; rfl, rfl⟩

theorem finds_endIf (hname : Names right c.rest "/if" n)
    (h : Log.hasErrors (readEndIf right b (c.advance n)).notes = false) :
    Finds right b offset c (readEndIf right b (c.advance n)) := by
  unfold readEndIf at h ⊢
  cases hclose : close? right (c.advance n) with
  | none =>
    rw [hclose] at h
    exact absurd (h.symm.trans (hasErrors_halt (by decide) _ _ _)) (by decide)
  | some next =>
    obtain ⟨hbegins, rfl⟩ := prefix_of_close? hclose
    cases hcurrent : b.current? ifKind with
    | none =>
      simp only [hclose, hcurrent, Option.isNone_none, if_true] at h
      exact absurd (h.symm.trans (hasErrors_refuse (by decide) _ _ _)) (by decide)
    | some f =>
      obtain ⟨outer, hstack⟩ := stack_of_current? hcurrent
      exact Or.inr ⟨_, _, _, _, .endIf hname hbegins, by rw [hstack]; rfl, rfl⟩

/-- An attempt that leaves no error has found a tag that the open blocks let stand there, or
nothing. -/
theorem readTag_cases (hright : right ≠ [])
    (h : Log.hasErrors (readTag right b offset c).notes = false) :
    Finds right b offset c (readTag right b offset c) := by
  by_cases hhead : c.rest.head? = some '%'
  · rw [readTag, if_pos hhead] at h ⊢
    exact finds_variable hhead h
  have hpath : Path.atStart? c.rest = none := by
    by_contra hsome
    obtain ⟨r, hr⟩ := Option.ne_none_iff_exists'.mp hsome
    exact hhead (head?_of_atStart? hr)
  cases hlen : nameLength? right c.rest with
  | none =>
    rw [readTag, if_neg hhead, readNamed, hlen]
    refine Or.inl ⟨⟨hpath, fun name m hname ↦ ?_⟩, rfl⟩
    rw [hname.1] at hlen
    exact absurd hlen (by simp)
  | some m =>
    generalize hname : String.ofList ((c.rest.take m).map Char.toLower) = name
    have hnames : Names right c.rest name m := ⟨hlen, hname⟩
    rw [readTag_of_names hnames] at h ⊢
    by_cases hif : name = "if"
    · subst hif
      exact finds_if hright hnames h
    by_cases helseif : name = "elseif"
    · subst helseif
      exact finds_elseIf hright hnames h
    by_cases helse : name = "else"
    · subst helse
      exact finds_else hnames h
    by_cases hendif : name = "/if"
    · subst hendif
      exact finds_endIf hnames h
    rw [if_neg hif, if_neg helseif, if_neg helse, if_neg hendif]
    refine Or.inl ⟨⟨hpath, fun name' m' hname' ↦ ?_⟩, rfl⟩
    obtain rfl := Option.some.inj (hlen.symm.trans hname'.1)
    rw [← hname'.2, hname]
    simp [tagNames, hif, helseif, helse, hendif]

/-- Behind an opening tag every tag may stand. -/
theorem readTag_behind_if (hright : right ≠ []) (h : Tag.At right c t notes next) :
    ∃ b, readTag right (Blocks.empty.push ifKind 0) 0 c = ⟨.tag t next, b, notes⟩ := by
  have hstack : (Blocks.empty.push ifKind 0).stack = [false] := by decide +kernel
  have hmay : (t.nest? (Blocks.empty.push ifKind 0).stack).isSome := by
    rw [hstack]
    cases t <;> rfl
  obtain ⟨stack, hnest⟩ := Option.isSome_iff_exists.mp hmay
  exact ⟨_, readTag_of_at hright h hnest⟩

/-- There is one tag at a place at most. -/
theorem Tag.At.unique {t' : Tag} {notes' : Log} {next' : Cursor} (hright : right ≠ [])
    (h : Tag.At right c t notes next) (h' : Tag.At right c t' notes' next') :
    t' = t ∧ notes' = notes ∧ next' = next := by
  obtain ⟨b, hread⟩ := readTag_behind_if hright h
  obtain ⟨b', hread'⟩ := readTag_behind_if hright h'
  rw [hread'] at hread
  simp only [Trial.mk.injEq, Attempt.tag.injEq] at hread
  exact ⟨hread.1.1, hread.2.2, hread.1.2⟩

theorem Tag.At.not_untagged (hright : right ≠ []) (h : Tag.At right c t notes next) :
    ¬ Untagged right c := by
  intro hnone
  obtain ⟨b, hread⟩ := readTag_behind_if hright h
  rw [readTag_of_untagged hnone] at hread
  simp at hread

/-! ### Tags further on in a source -/

/-- A tag does not depend on where the source stands. -/
theorem Tag.At.shift (h : Tag.At right c t notes next) (k : Nat) :
    Tag.At right (c.shift k) t (notes.map (Diagnostic.shift k)) (next.shift k) := by
  cases h with
  | «show» hpath hclose =>
    rw [← Cursor.advance_shift, ← Cursor.advance_shift]
    exact .show hpath hclose
  | ifTrue hname h =>
    rw [← Condition.warnings_shift]
    exact .ifTrue hname (by rw [Cursor.advance_shift]; exact h.shift k)
  | elseIf hname h =>
    rw [← Condition.warnings_shift]
    exact .elseIf hname (by rw [Cursor.advance_shift]; exact h.shift k)
  | otherwise hname hclose =>
    rw [← Cursor.advance_shift, ← Cursor.skipBlanks_shift, ← Cursor.advance_shift]
    exact .otherwise hname (by rw [Cursor.advance_shift, Cursor.skipBlanks_shift]; exact hclose)
  | endIf hname hclose =>
    rw [← Cursor.advance_shift, ← Cursor.skipBlanks_shift, ← Cursor.advance_shift]
    exact .endIf hname (by rw [Cursor.advance_shift, Cursor.skipBlanks_shift]; exact hclose)

/-- Nor does the absence of a tag. -/
theorem Untagged.shift (h : Untagged right c) (k : Nat) : Untagged right (c.shift k) :=
  h

/-! ### The source of a tag -/

/-- The whole source of a tag: the left delimiter, a path or a name with what belongs to it, and the
right delimiter. A condition is read with the right delimiter behind it, and to the end. -/
inductive Tag.Spells (d : Delimiters) : Tag → List Char → Prop
  | show {p : Path} {path : List Char} (h : Path.compile? path = some p) :
      Tag.Spells d (.show p) (d.left.toList ++ (path ++ d.right.toList))
  | ifTrue {e : Expr} {name condition : List Char} {stop : Nat} {notes : Log}
      (hname : String.ofList (name.map Char.toLower) = "if")
      (h : Condition.compile d.right.toList (.ofText condition) =
        (.accepted e ⟨stop, []⟩, notes)) :
      Tag.Spells d (.ifTrue e) (d.left.toList ++ (name ++ condition))
  | elseIf {e : Expr} {name condition : List Char} {stop : Nat} {notes : Log}
      (hname : String.ofList (name.map Char.toLower) = "elseif")
      (h : Condition.compile d.right.toList (.ofText condition) =
        (.accepted e ⟨stop, []⟩, notes)) :
      Tag.Spells d (.elseIf e) (d.left.toList ++ (name ++ condition))
  | otherwise {name blanks : List Char} (hname : String.ofList (name.map Char.toLower) = "else")
      (hblanks : ∀ b ∈ blanks, Text.isBlank b = true) :
      Tag.Spells d .otherwise (d.left.toList ++ (name ++ (blanks ++ d.right.toList)))
  | endIf {name blanks : List Char} (hname : String.ofList (name.map Char.toLower) = "/if")
      (hblanks : ∀ b ∈ blanks, Text.isBlank b = true) :
      Tag.Spells d .endIf (d.left.toList ++ (name ++ (blanks ++ d.right.toList)))

theorem rest_eq_of_close (hclose : right <+: c.skipBlanks.rest) :
    ∃ blanks, (∀ b ∈ blanks, Text.isBlank b = true) ∧
      c.rest = (blanks ++ right) ++ (c.skipBlanks.advance right.length).rest := by
  obtain ⟨blanks, hblanks, hrest, -⟩ := c.exists_skipBlanks
  obtain ⟨ds, hds⟩ := hclose
  refine ⟨blanks, hblanks, ?_⟩
  rw [hrest, Cursor.rest_advance, ← hds, List.drop_left, List.append_assoc]

/-- An accepted condition is one on its own, when it is cut behind the right delimiter. -/
theorem exists_condition (hright : right ≠ []) {body : List Token} {e : Expr}
    (h : Accepts right c body e next) :
    ∃ condition stop notes, c.rest = condition ++ next.rest ∧
      Condition.compile right (.ofText condition) = (.accepted e ⟨stop, []⟩, notes) := by
  obtain ⟨condition, hrest, hcut⟩ := h.cut hright
  have hstart : (⟨c.offset, condition⟩ : Cursor) = (Cursor.ofText condition).shift c.offset := rfl
  rw [hstart] at hcut
  obtain ⟨body', ⟨stop, rest⟩, haccepts, hnext⟩ := hcut.of_shift
  obtain rfl : [] = rest := congrArg Cursor.rest hnext
  exact ⟨condition, stop, _, hrest, compile_of_accepts hright haccepts⟩

/-- A tag stands in the source as its own source says. -/
theorem Tag.At.cut {d : Delimiters} (h : Tag.At d.right.toList c t notes next) :
    ∃ inside, c.rest = inside ++ next.rest ∧ t.Spells d (d.left.toList ++ inside) := by
  have hright : d.right.toList ≠ [] := by
    simpa using d.right_ne_empty
  have hcut (n : Nat) (after : List Char) (hafter : c.rest.drop n = after ++ next.rest) :
      c.rest = (c.rest.take n ++ after) ++ next.rest := by
    rw [List.append_assoc, ← hafter, List.take_append_drop]
  cases h with
  | @«show» p n hpath hclose =>
    obtain ⟨ds, hds⟩ := hclose
    refine ⟨_, hcut n d.right.toList ?_, .show ?_⟩
    · rw [Cursor.rest_advance, ← hds, List.drop_left, hds, Cursor.rest_advance]
    · unfold Path.atStart? at hpath
      simp only [Option.bind_eq_bind, Option.bind_eq_some_iff] at hpath
      obtain ⟨m, -, q, hq, heq⟩ := hpath
      obtain ⟨rfl, rfl⟩ := Prod.mk.inj (Option.some.inj heq)
      exact hq
  | @ifTrue n body e next hname h =>
    obtain ⟨condition, stop, notes, hrest, hcompile⟩ := exists_condition hright h
    exact ⟨_, hcut n condition hrest, .ifTrue hname.2 hcompile⟩
  | @elseIf n body e next hname h =>
    obtain ⟨condition, stop, notes, hrest, hcompile⟩ := exists_condition hright h
    exact ⟨_, hcut n condition hrest, .elseIf hname.2 hcompile⟩
  | @otherwise n hname hclose =>
    obtain ⟨blanks, hblanks, hrest⟩ := rest_eq_of_close hclose
    exact ⟨_, hcut n _ hrest, .otherwise hname.2 hblanks⟩
  | @endIf n hname hclose =>
    obtain ⟨blanks, hblanks, hrest⟩ := rest_eq_of_close hclose
    exact ⟨_, hcut n _ hrest, .endIf hname.2 hblanks⟩

theorem Tag.Spells.ne_nil {d : Delimiters} {source : List Char} (h : t.Spells d source) :
    source ≠ [] := by
  cases h <;> simp [d.left_ne_empty]

theorem Names.ne_nil {name : String} (h : Names right cs name n) : cs ≠ [] := by
  rintro rfl
  have hnone : nameLength? right [] = none := rfl
  rw [h.1] at hnone
  exact absurd hnone (by simp)

theorem Tag.At.rest_ne_nil (h : Tag.At right c t notes next) : c.rest ≠ [] := by
  cases h with
  | «show» hpath =>
    intro hnil
    rw [hnil] at hpath
    exact absurd (head?_of_atStart? hpath) (by simp)
  | ifTrue hname => exact hname.ne_nil
  | elseIf hname => exact hname.ne_nil
  | otherwise hname => exact hname.ne_nil
  | endIf hname => exact hname.ne_nil

theorem Tag.At.total_eq (h : Tag.At right c t notes next) : next.total = c.total := by
  cases h with
  | «show» => rw [Cursor.total_advance, Cursor.total_advance]
  | ifTrue hname h => rw [h.closes.total_eq, Cursor.total_advance]
  | elseIf hname h => rw [h.closes.total_eq, Cursor.total_advance]
  | otherwise => rw [Cursor.total_advance, Cursor.skipBlanks, Cursor.total_advance,
      Cursor.total_advance]
  | endIf => rw [Cursor.total_advance, Cursor.skipBlanks, Cursor.total_advance,
      Cursor.total_advance]

/-! ### Tags of a source that goes on -/

theorem le_length_of_mem_drop {a : Char} (h : a ∈ cs.drop n) : n ≤ cs.length :=
  (Text.lt_length_of_mem_drop h).le

theorem head?_append_of_mem {a : Char} (h : a ∈ cs) : (cs ++ vs).head? = cs.head? :=
  List.head?_append_of_ne_nil _ (List.ne_nil_of_mem h)

/-- The name of a tag is the same when the source goes on behind a closing brace. -/
theorem nameLength?_append (h : '\x7d' ∈ cs) :
    nameLength? ['\x7d'] (cs ++ vs) = nameLength? ['\x7d'] cs := by
  obtain ⟨k, hk⟩ : ∃ k, (if cs.head? = some '/' then 1 else 0) = k := ⟨_, rfl⟩
  have hslash : '\x7d' ∈ cs.drop k := by
    split at hk
    · rename_i hhead
      obtain ⟨ds, rfl⟩ : ∃ ds, cs = '/' :: ds := by
        cases cs with
        | nil => simp at hhead
        | cons a ds => exact ⟨ds, by simpa using hhead⟩
      simpa [← hk] using h
    · simpa [← hk] using h
  have hafter : '\x7d' ∈ cs.drop (k + Text.wordLength (cs.drop k)) := by
    rw [← List.drop_drop]
    exact Text.mem_drop_takeWhile hslash (by decide)
  have hbegins : ['\x7d'].isPrefixOf (cs.drop (k + Text.wordLength (cs.drop k)) ++ vs) =
      ['\x7d'].isPrefixOf (cs.drop (k + Text.wordLength (cs.drop k))) := by
    obtain ⟨a, as, has⟩ := List.exists_cons_of_ne_nil (List.ne_nil_of_mem hafter)
    simp [has, List.isPrefixOf]
  simp only [nameLength?, head?_append_of_mem h, hk,
    List.drop_append_of_le_length (le_length_of_mem_drop hslash), Text.wordLength_append hslash,
    List.drop_append_of_le_length (le_length_of_mem_drop hafter), head?_append_of_mem hafter,
    hbegins, List.append_eq_nil_iff, List.ne_nil_of_mem hafter, false_and]

theorem atStart?_append {p : Path} (h : Path.atStart? cs = some (p, n))
    (hclose : ['\x7d'] <+: cs.drop n) : Path.atStart? (cs ++ vs) = some (p, n) := by
  obtain ⟨ds, hds⟩ := hclose
  unfold Path.atStart? at h ⊢
  simp only [Option.bind_eq_bind, Option.bind_eq_some_iff] at h
  obtain ⟨m, hm, q, hq, heq⟩ := h
  obtain ⟨rfl, rfl⟩ := Prod.mk.inj (Option.some.inj heq)
  have hmem : '\x7d' ∈ cs.drop m := by simp [← hds]
  rw [Text.pathLength?_append hm hmem (by simp [← hds]), Option.bind_eq_bind, Option.bind_some,
    List.take_append_of_le_length (le_length_of_mem_drop hmem), hq]
  rfl

/-- Every path that a text begins with can be compiled. -/
theorem pathLength?_of_atStart?_eq_none (h : Path.atStart? cs = none) :
    Text.pathLength? cs = none := by
  by_contra hsome
  obtain ⟨n, hn⟩ := Option.ne_none_iff_exists'.mp hsome
  obtain ⟨p, hp⟩ := Option.isSome_iff_exists.mp (Path.compile?_of_pathLength? hn)
  simp [Path.atStart?, hn, hp] at h

theorem atStart?_append_eq_none (hmem : '\x7d' ∈ cs) (h : Path.atStart? cs = none) :
    Path.atStart? (cs ++ vs) = none := by
  have hnone : Text.pathLength? (cs ++ vs) = none := by
    by_contra hsome
    obtain ⟨n, hn⟩ := Option.ne_none_iff_exists'.mp hsome
    obtain ⟨ds, hds, hword, -⟩ := Text.pathLength?_eq_some hn
    obtain ⟨m, hm⟩ := Text.pathLength?_of_append hmem hds hword
    rw [pathLength?_of_atStart?_eq_none h] at hm
    exact absurd hm (by simp)
  rw [Path.atStart?, hnone]
  rfl

theorem nameLength?_le (h : nameLength? right cs = some n) : n ≤ cs.length := by
  obtain ⟨k, hk⟩ : ∃ k, (if cs.head? = some '/' then 1 else 0) = k := ⟨_, rfl⟩
  simp only [nameLength?, hk] at h
  split at h
  · simp at h
  rename_i hword
  split at h
  · rw [← Option.some.inj h]
    have hle : Text.wordLength (cs.drop k) ≤ (cs.drop k).length :=
      (List.takeWhile_prefix _).length_le
    rw [List.length_drop] at hle
    omega
  · simp at h

theorem names_append {name : String} (hmem : '\x7d' ∈ cs) :
    Names ['\x7d'] (cs ++ vs) name n ↔ Names ['\x7d'] cs name n := by
  rw [Names, Names, nameLength?_append hmem]
  refine and_congr_right fun hn ↦ ?_
  rw [List.take_append_of_le_length (nameLength?_le hn)]

/-- A tag up to a closing brace is the same when anything follows the brace. -/
theorem Tag.At.extend (h : Tag.At ['\x7d'] c t notes next) (vs : List Char) :
    Tag.At ['\x7d'] (c.extend vs) t notes (next.extend vs) := by
  have hname {name : String} {n : Nat} (hname : Names ['\x7d'] c.rest name n)
      (hmem : '\x7d' ∈ (c.advance n).rest) : Names ['\x7d'] (c.extend vs).rest name n ∧
        (c.extend vs).advance n = (c.advance n).extend vs :=
    ⟨(names_append (List.mem_of_mem_drop hmem)).mpr hname,
      Cursor.advance_extend (nameLength?_le hname.1)⟩
  have hclosing {c : Cursor} (hclose : ['\x7d'] <+: c.skipBlanks.rest) : '\x7d' ∈ c.rest :=
    (Token.Closes.close hclose).mem
  have hskip {c : Cursor} (hclose : ['\x7d'] <+: c.skipBlanks.rest) :
      (c.extend vs).skipBlanks = c.skipBlanks.extend vs :=
    Cursor.skipBlanks_extend vs (hclosing hclose) (by decide)
  have hbrace {c : Cursor} (hclose : ['\x7d'] <+: c.rest) :
      ['\x7d'] <+: (c.extend vs).rest ∧
        (c.extend vs).advance ['\x7d'].length = (c.advance ['\x7d'].length).extend vs :=
    ⟨hclose.trans (List.prefix_append _ _), Cursor.advance_extend hclose.length_le⟩
  cases h with
  | @«show» p n hpath hclose =>
    have hmem : '\x7d' ∈ c.rest.drop n := hclose.subset (List.mem_singleton.mpr rfl)
    have hadvance : (c.extend vs).advance n = (c.advance n).extend vs :=
      Cursor.advance_extend (le_length_of_mem_drop hmem)
    rw [← (hbrace hclose).2, ← hadvance]
    refine .show (atStart?_append hpath hclose) ?_
    rw [hadvance]
    exact (hbrace hclose).1
  | ifTrue hnames h =>
    obtain ⟨hnames', hadvance⟩ := hname hnames h.closes.mem
    exact .ifTrue hnames' (by rw [hadvance]; exact h.extend vs)
  | elseIf hnames h =>
    obtain ⟨hnames', hadvance⟩ := hname hnames h.closes.mem
    exact .elseIf hnames' (by rw [hadvance]; exact h.extend vs)
  | otherwise hnames hclose =>
    obtain ⟨hnames', hadvance⟩ := hname hnames (hclosing hclose)
    rw [← (hbrace hclose).2, ← hskip hclose, ← hadvance]
    refine .otherwise hnames' ?_
    rw [hadvance, hskip hclose]
    exact (hbrace hclose).1
  | endIf hnames hclose =>
    obtain ⟨hnames', hadvance⟩ := hname hnames (hclosing hclose)
    rw [← (hbrace hclose).2, ← hskip hclose, ← hadvance]
    refine .endIf hnames' ?_
    rw [hadvance, hskip hclose]
    exact (hbrace hclose).1

/-- No tag begins where none began before the source went on, behind a closing brace. -/
theorem Untagged.extend (h : Untagged ['\x7d'] c) (hmem : '\x7d' ∈ c.rest) (vs : List Char) :
    Untagged ['\x7d'] (c.extend vs) :=
  ⟨atStart?_append_eq_none hmem h.1, fun name n hname ↦ h.2 name n ((names_append hmem).mp hname)⟩

end Stencil.Template
