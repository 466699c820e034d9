import Mathlib.Data.String.Basic
import Stencil.Entries
import Stencil.Proofs.Cuts

/-!
# Names in the order of their bytes

Texts are compared by code points. In UTF-8 this is also the order of their bytes: a character of
fewer bytes has a smaller first byte, and two characters of equally many bytes are spelled by the
digits of their code points to the base 64, the most significant one first. Entries that are put in
one after the other stay in this order.

## Main results

* `Text.utf8_le_utf8_iff`: texts are in the order of their bytes.
* `Entries.pairwise_put`: entries stay in the order of their names.
-/

namespace Stencil

namespace Text

theorem ofNat_cons_lt {m n : Nat} (h : m < n) (hn : n < 256) (bs bs' : List UInt8) :
    UInt8.ofNat m :: bs < UInt8.ofNat n :: bs' := by
  refine List.cons_lt_cons_iff.mpr (Or.inl (UInt8.lt_iff_toNat_lt.mpr ?_))
  rwa [UInt8.toNat_ofNat', UInt8.toNat_ofNat', Nat.mod_eq_of_lt (h.trans hn), Nat.mod_eq_of_lt hn]

/-- The order of the bytes in front of a continuation byte, with this byte for another digit. -/
theorem append_continuation_lt (as as' : List UInt8) {m n : Nat} (h : m < n)
    (hlt : m / 64 < n / 64 → ∀ bs bs', as ++ bs < as' ++ bs') (heq : m / 64 = n / 64 → as = as')
    (bs bs' : List UInt8) :
    as ++ UInt8.ofNat (m % 64 + 128) :: bs < as' ++ UInt8.ofNat (n % 64 + 128) :: bs' := by
  rcases Nat.lt_or_eq_of_le (Nat.div_le_div_right (c := 64) h.le) with hdiv | hdiv
  · exact hlt hdiv _ _
  · rw [heq hdiv]
    exact List.append_left_lt (ofNat_cons_lt (by omega) (by omega) _ _)

/-- Of two characters the smaller one has the smaller bytes, whatever is behind them. -/
theorem utf8EncodeChar_append_lt {c d : Char} (h : c < d) (bs bs' : List UInt8) :
    String.utf8EncodeChar c ++ bs < String.utf8EncodeChar d ++ bs' := by
  have hlt : c.val.toNat < d.val.toNat := h
  have hd : d.val.toNat < 1114112 := by
    rcases d.valid with hvalid | ⟨-, hvalid⟩
    · exact Nat.lt_trans hvalid (by decide)
    · exact hvalid
  have hdiv (k : Nat) : k / 4096 = k / 64 / 64 ∧ k / 262144 = k / 64 / 64 / 64 := by
    omega
  simp only [String.utf8EncodeChar, hdiv]
  generalize c.val.toNat = m at hlt
  generalize d.val.toNat = n at hlt hd
  -- characters of different lengths are told apart by their first bytes
  split_ifs <;> first | omega | exact ofNat_cons_lt (by omega) (by omega) _ _ | skip
  · refine append_continuation_lt [_] [_] hlt (fun h ↦ ?_) (fun h ↦ by rw [h]) _ _
    exact ofNat_cons_lt (by omega) (by omega)
  · refine append_continuation_lt [_, _] [_, _] hlt (fun h ↦ ?_) (fun h ↦ by rw [h]) _ _
    refine append_continuation_lt [_] [_] h (fun h ↦ ?_) (fun h ↦ by rw [h])
    exact ofNat_cons_lt (by omega) (by omega)
  · refine append_continuation_lt [_, _, _] [_, _, _] hlt (fun h ↦ ?_) (fun h ↦ by rw [h]) _ _
    refine append_continuation_lt [_, _] [_, _] h (fun h ↦ ?_) (fun h ↦ by rw [h])
    refine append_continuation_lt [_] [_] h (fun h ↦ ?_) (fun h ↦ by rw [h])
    exact ofNat_cons_lt (by omega) (by omega)

theorem utf8_lt_of_lt {cs ds : List Char} (h : cs < ds) : utf8 cs < utf8 ds := by
  induction cs generalizing ds with
  | nil =>
    cases ds with
    | nil => exact absurd h (List.lt_irrefl _)
    | cons d ds =>
      obtain ⟨b, bs, hb⟩ := List.exists_cons_of_ne_nil (String.utf8EncodeChar_ne_nil (c := d))
      rw [utf8_cons, hb]
      exact List.nil_lt_cons _ _
  | cons c cs ih =>
    cases ds with
    | nil => exact absurd h (List.not_lt_nil _)
    | cons d ds =>
      rw [utf8_cons, utf8_cons]
      rcases List.cons_lt_cons_iff.mp h with hlt | ⟨rfl, hlt⟩
      · exact utf8EncodeChar_append_lt hlt _ _
      · exact List.append_left_lt (ih hlt)

/-- Texts are in the order of their bytes. -/
theorem utf8_le_utf8_iff {s t : String} : utf8 s.toList ≤ utf8 t.toList ↔ s ≤ t := by
  constructor
  · intro h
    exact le_of_not_gt fun hlt ↦ h (utf8_lt_of_lt (String.lt_iff_toList_lt.mp hlt))
  · intro h hlt
    rcases h.lt_or_eq with hst | rfl
    · exact List.lt_asymm hlt (utf8_lt_of_lt (String.lt_iff_toList_lt.mp hst))
    · exact List.lt_irrefl _ hlt

end Text

namespace Entries

variable {α : Type} {entries : Entries α} {name : String} {a : α} {e : String × α}

theorem eq_or_mem_of_mem_put (h : e ∈ put entries name a) : e = (name, a) ∨ e ∈ entries := by
  induction entries with
  | nil => exact Or.inl (List.mem_singleton.mp h)
  | cons e' rest ih =>
    rw [put] at h
    split_ifs at h
    · exact (List.mem_cons.mp h).imp_right (List.mem_cons_of_mem _)
    · exact List.mem_cons.mp h
    · rcases List.mem_cons.mp h with rfl | h
      · exact Or.inr List.mem_cons_self
      · exact (ih h).imp_right (List.mem_cons_of_mem _)

/-- Entries stay in order, each name once. -/
theorem pairwise_put (h : entries.Pairwise fun e e' ↦ e.1 < e'.1) (name : String) (a : α) :
    (put entries name a).Pairwise fun e e' ↦ e.1 < e'.1 := by
  induction entries with
  | nil => exact List.pairwise_singleton _ _
  | cons e rest ih =>
    obtain ⟨hfirst, hrest⟩ := List.pairwise_cons.mp h
    rw [put]
    split_ifs with heq hlt
    · exact List.pairwise_cons.mpr ⟨fun e' he' ↦ heq ▸ hfirst e' he', hrest⟩
    · refine List.pairwise_cons.mpr ⟨fun e' he' ↦ ?_, h⟩
      rcases List.mem_cons.mp he' with rfl | he'
      · exact hlt
      · exact hlt.trans (hfirst e' he')
    · refine List.pairwise_cons.mpr ⟨fun e' he' ↦ ?_, ih hrest⟩
      rcases eq_or_mem_of_mem_put he' with rfl | he'
      · exact lt_of_le_of_ne (not_lt.mp hlt) (Ne.symm heq)
      · exact hfirst e' he'

end Entries

end Stencil
