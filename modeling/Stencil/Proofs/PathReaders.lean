import Stencil.Proofs.Neighbours
import Stencil.Proofs.Partitions
import Stencil.Proofs.Remarks

/-!
# The readers of paths

A path is read in three ways: it is measured at the start of a text, a text that was cut behind it
is read as a whole, and the scan of a tag finds it as a token. The measure takes every step that it
can, and a text is a path when no step is missing and nothing is left, so that the three readers
see the same paths. In particular a path token always spells a path.

## Main results

* `Path.compile?_isSome_iff`: a text is a path when the measure takes all of it.
* `Path.atStart?_isSome_iff`: where a path starts.
* `Text.stepLength?_drop_pathLength?`: behind a path there is no further step.
* `Token.path_of_mem_scan`: where a path starts the scan of a tag finds it as a token.
* `Condition.fault_ne_pathSyntax`: no condition is found to have a path at fault.
* `Path.path_readers_agree`: the three readers agree.
-/

namespace Stencil

open Text (Cursor)

/-! ### Measuring -/

namespace Text

variable {cs : List Char} {n : Nat}

/-- The steps at the start of a text are taken as far as they go. -/
theorem stepLength?_drop_stepsLength (cs : List Char) :
    stepLength? (cs.drop (stepsLength cs)) = none := by
  induction hn : cs.length using Nat.strong_induction_on generalizing cs with
  | _ n ih =>
    cases hstep : stepLength? cs with
    | none => rwa [stepsLength_of_none hstep, List.drop_zero]
    | some m =>
      have hlt := length_drop_lt (stepLength?_pos hstep)
      rw [stepsLength_of_some hstep, ← List.drop_drop]
      exact ih _ (hn ▸ hlt) _ rfl

/-- Behind a path there is no further step. -/
theorem stepLength?_drop_pathLength? (h : pathLength? cs = some n) :
    stepLength? (cs.drop n) = none := by
  obtain ⟨ds, rfl, -, rfl⟩ := pathLength?_eq_some h
  rw [Nat.add_assoc, Nat.add_comm, List.drop_succ_cons, ← List.drop_drop]
  exact stepLength?_drop_stepsLength _

/-- A path starts with a percent sign and a word character. -/
theorem pathLength?_isSome_iff :
    (pathLength? cs).isSome ↔ ∃ a ds, cs = '%' :: a :: ds ∧ isWordChar a = true := by
  constructor
  · intro h
    obtain ⟨n, hn⟩ := Option.isSome_iff_exists.mp h
    obtain ⟨ds, rfl, hword, -⟩ := pathLength?_eq_some hn
    cases ds with
    | nil => exact absurd rfl hword
    | cons a ds =>
      refine ⟨a, ds, rfl, ?_⟩
      by_contra ha
      exact hword (by simp [wordLength, ha])
  · rintro ⟨a, ds, rfl, ha⟩
    have hword : wordLength (a :: ds) ≠ 0 := by simp [wordLength, ha]
    rw [pathLength?_cons hword]
    rfl

end Text

/-! ### Reading a text that was cut -/

namespace Path

variable {cs : List Char} {n : Nat} {p : Path}

/-- The measure takes all of a text that consists of steps. -/
theorem stepsLength_of_steps? {ss : List Step} (h : steps? cs = some ss) :
    Text.stepsLength cs = cs.length := by
  induction hn : cs.length using Nat.strong_induction_on generalizing cs ss with
  | _ n ih =>
    by_cases hnil : cs = []
    · subst hnil
      rw [← hn, Text.stepsLength_of_none rfl, List.length_nil]
    rw [steps?, if_neg hnil] at h
    split at h
    · rename_i s m hstep
      have hlength := stepLength?_of_step? hstep
      have hlt := Text.length_drop_lt (Text.stepLength?_pos hlength)
      have hle := Text.stepLength?_le hlength
      obtain ⟨ss', hss, -⟩ := Option.map_eq_some_iff.mp h
      rw [Text.stepsLength_of_some hlength, ih _ (hn ▸ hlt) hss rfl, List.length_drop]
      omega
    · simp at h

/-- A text is a path when the measure takes all of it. -/
theorem compile?_isSome_iff : (compile? cs).isSome ↔ Text.pathLength? cs = some cs.length := by
  constructor
  · intro h
    obtain ⟨p, hp⟩ := Option.isSome_iff_exists.mp h
    unfold compile? at hp
    split at hp
    · rename_i ds
      dsimp only at hp
      split at hp
      · simp at hp
      rename_i hword
      obtain ⟨ss, hss, -⟩ := Option.map_eq_some_iff.mp hp
      have hle : Text.wordLength ds ≤ ds.length := (List.takeWhile_prefix _).length_le
      rw [Text.pathLength?_cons hword, stepsLength_of_steps? hss, List.length_drop,
        List.length_cons]
      congr 1
      omega
    · simp at hp
  · intro h
    have hsome := compile?_of_pathLength? h
    rwa [List.take_length] at hsome

/-- The path at the start of a text is the path of the text cut behind it. -/
theorem atStart?_eq_some_iff :
    atStart? cs = some (p, n) ↔ Text.pathLength? cs = some n ∧ compile? (cs.take n) = some p := by
  simp only [atStart?, Option.bind_eq_bind, Option.bind_eq_some_iff, Option.pure_def,
    Option.some.injEq, Prod.mk.injEq]
  constructor
  · rintro ⟨m, hm, q, hq, rfl, rfl⟩
    exact ⟨hm, hq⟩
  · rintro ⟨hn, hp⟩
    exact ⟨n, hn, p, hp, rfl, rfl⟩

theorem atStart?_isSome : (atStart? cs).isSome = (Text.pathLength? cs).isSome := by
  cases hn : Text.pathLength? cs with
  | none => simp [atStart?, hn]
  | some n =>
    obtain ⟨p, hp⟩ := Option.isSome_iff_exists.mp (compile?_of_pathLength? hn)
    rw [atStart?_eq_some_iff.mpr ⟨hn, hp⟩]
    rfl

/-- A path is read at the start of a text where a percent sign and a word character stand. -/
theorem atStart?_isSome_iff :
    (atStart? cs).isSome ↔ ∃ a ds, cs = '%' :: a :: ds ∧ Text.isWordChar a = true := by
  rw [atStart?_isSome, Text.pathLength?_isSome_iff]

end Path

/-! ### Tokens -/

/-- Two places of a source at the same offset are the same. -/
theorem Text.Cursor.Leads.unique {c place place' : Cursor} (h : c.Leads place)
    (h' : c.Leads place') (hoffset : place.offset = place'.offset) : place = place' := by
  obtain ⟨xs, hxs, hx⟩ := h
  obtain ⟨ys, hys, hy⟩ := h'
  obtain rfl : xs = ys :=
    Text.eq_of_prefix_of_byteLength ⟨_, hxs.symm⟩ ⟨_, hys.symm⟩ (by omega)
  obtain ⟨offset, rest⟩ := place
  obtain ⟨offset', rest'⟩ := place'
  obtain rfl : rest = rest' := List.append_cancel_left (hxs.symm.trans hys)
  rw [show offset = offset' from hoffset]

namespace Token

variable {right : List Char} {c place : Cursor} {t : Token}

/-- Where a path starts, and not the right delimiter, the scan of a tag finds the path. -/
theorem path_of_mem_scan (ht : t ∈ (scan right c).1) (hleads : c.Leads place)
    (hoffset : t.offset = place.offset) (hclose : ¬ right <+: place.rest)
    (hpath : (Text.pathLength? place.rest).isSome) :
    t.kind = .path ∧ Text.pathLength? place.rest = some t.text.length ∧
      t.text <+: place.rest := by
  obtain ⟨c', hc', hfound⟩ := (scans_scan right c).found t ht
  obtain rfl : c'.skipBlanks = place :=
    (hc'.trans c'.leads_skipBlanks).unique hleads (hfound.offset_eq.symm.trans hoffset)
  obtain ⟨n, hn⟩ := Option.isSome_iff_exists.mp hpath
  cases hfound with
  | close h => exact absurd h hclose
  | token h =>
    rw [lexeme_of_known? (known?_of_pathLength? hn)]
    dsimp only
    rw [List.length_take_of_le (Text.pathLength?_le hn)]
    exact ⟨rfl, hn, List.take_prefix _ _⟩

end Token

namespace Condition

variable {right : List Char} {c : Cursor}

/-- A path that is a token of a tag spells a path. -/
theorem spellsPath_of_mem_bodyAt {t : Token} (ht : t ∈ bodyAt right c) : SpellsPath t := by
  intro hkind
  have hscan := (List.takeWhile_sublist _).subset ht
  have hknown := Token.known_of_mem_scan hscan (by simp [hkind]) (by simp [hkind])
  exact hknown.spellsPath hkind

/-- No condition is found to have a path at fault. -/
theorem fault_ne_pathSyntax : ∀ n ∈ (compile right c).2, n.fault ≠ .pathSyntax := by
  intro n hn hfault
  cases noted_compile right c n hn with
  | whole hf hwhole =>
    rw [← hwhole, hfault] at hf
    exact absurd hf (by decide)
  | @remark before after t _ hclosed hbody hremark =>
    cases hremark with
    | fault hf hpath =>
      obtain ⟨hkind, hnone⟩ := hpath hfault
      have hsome := spellsPath_of_mem_bodyAt (t := t) (by rw [hbody]; simp) hkind
      rw [hnone] at hsome
      exact absurd hsome (by decide)
    | arguments | equality => cases hfault
  | deep => cases hfault

end Condition

namespace Path

/-- The three readers of paths agree. A text is a path exactly when the measure takes all of it. A
path is read at the start of a text exactly where a percent sign and a word character stand; then it
is as long as it is measured, it is the path of the text cut behind it, and no further step follows.
Where the scan of a tag finds a token at such a place and the right delimiter does not start there,
the token is a path of this length, so that no condition is ever found to have a path at fault. -/
theorem path_readers_agree :
    (∀ cs, (compile? cs).isSome ↔ Text.pathLength? cs = some cs.length) ∧
      (∀ cs, (atStart? cs).isSome ↔ ∃ a ds, cs = '%' :: a :: ds ∧ Text.isWordChar a = true) ∧
      (∀ cs p n, atStart? cs = some (p, n) →
        Text.pathLength? cs = some n ∧ compile? (cs.take n) = some p ∧
          Text.selectorLength? (cs.drop n) = none ∧ Text.bracketLength? (cs.drop n) = none) ∧
      (∀ right c place a ds, ∀ t ∈ (Token.scan right c).1,
        c.Leads place → t.offset = place.offset → ¬ right <+: place.rest →
          place.rest = '%' :: a :: ds → Text.isWordChar a = true →
            t.kind = .path ∧ Text.pathLength? place.rest = some t.text.length ∧
              t.text <+: place.rest) ∧
      ∀ right c, ∀ n ∈ (Condition.compile right c).2, n.fault ≠ .pathSyntax := by
  refine ⟨fun cs ↦ compile?_isSome_iff, fun cs ↦ atStart?_isSome_iff, fun cs p n h ↦ ?_,
    fun right c place a ds t ht hleads hoffset hclose hrest ha ↦ ?_,
    fun right c ↦ Condition.fault_ne_pathSyntax⟩
  · obtain ⟨hlength, hpath⟩ := atStart?_eq_some_iff.mp h
    exact ⟨hlength, hpath, Option.or_eq_none_iff.mp (Text.stepLength?_drop_pathLength? hlength)⟩
  · exact Token.path_of_mem_scan ht hleads hoffset hclose
      (Text.pathLength?_isSome_iff.mpr ⟨a, ds, hrest, ha⟩)

/-- A path with a bracket behind it that is never closed: read at the start of a text up to the
bracket, and found as long by the scan of a tag. -/
theorem path_readers_agree_unclosed :
    Text.bracketLength? "[\"b ".toList = none ∧
      Text.pathLength? "%a.c[\"b ".toList = some "%a.c".toList.length := by
  obtain ⟨-, hstart, hlength, htoken, -⟩ := path_readers_agree
  constructor
  · obtain ⟨r, hr⟩ := Option.isSome_iff_exists.mp
      ((hstart "%a.c[\"b ".toList).mpr ⟨'a', ".c[\"b ".toList, rfl, by decide⟩)
    have hn : r.2 = 4 := by
      have hmap : (atStart? "%a.c[\"b ".toList).map Prod.snd = some 4 := by decide +kernel
      rw [hr] at hmap
      exact Option.some.inj hmap
    have hbracket := (hlength _ r.1 r.2 hr).2.2.2
    rw [hn] at hbracket
    exact hbracket
  · have hscan : ⟨.path, "%a.c".toList, 1⟩ ∈
        (Token.scan ['\x7d'] ⟨0, " %a.c[\"b ".toList⟩).1 := by
      decide +kernel
    exact (htoken ['\x7d'] ⟨0, " %a.c[\"b ".toList⟩ ⟨1, "%a.c[\"b ".toList⟩ 'a' ".c[\"b ".toList
      _ hscan ⟨[' '], rfl, rfl⟩ rfl (by decide) rfl (by decide)).2.1

end Path

end Stencil
