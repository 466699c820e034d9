import Stencil.Proofs.Tokens

/-!
# Places of a source

Reading moves a cursor on in its source and never leaves it: what was passed and what is left make
up the source, and the offset counts the bytes that were passed. The tokens of a tag stand in a row,
each with its own text at its own place, none of them empty and none over another.

## Main definitions

* `Text.Cursor.Leads`: a place at or behind another one in the same source.
* `Token.Row`: tokens in a row between two places.
* `Token.Picked`: some of the tokens of a row.

## Main results

* `Text.Cursor.leads_ofText_iff`: the places of a text.
* `Token.row_scan`: what the scan of a tag finds stands in a row.
* `Token.Row.stands`, `Token.Row.pairwise`: where the tokens of a row stand, and in which order.
-/

namespace Stencil

namespace Text.Cursor

variable {c c' c'' : Cursor} {n : Nat} {cs xs : List Char}

/-- A place at or behind another one in the same source. -/
def Leads (c c' : Cursor) : Prop :=
  ∃ xs, c.rest = xs ++ c'.rest ∧ c'.offset = c.offset + byteLength xs

theorem Leads.refl (c : Cursor) : c.Leads c :=
  ⟨[], rfl, rfl⟩

theorem Leads.trans (h : c.Leads c') (h' : c'.Leads c'') : c.Leads c'' := by
  obtain ⟨xs, hxs, hoffset⟩ := h
  obtain ⟨ys, hys, hoffset'⟩ := h'
  refine ⟨xs ++ ys, by rw [hxs, hys, List.append_assoc], ?_⟩
  rw [hoffset', hoffset, byteLength_append, Nat.add_assoc]

theorem leads_advance (c : Cursor) (n : Nat) : c.Leads (c.advance n) :=
  ⟨c.rest.take n, (List.take_append_drop n c.rest).symm, rfl⟩

theorem leads_skipBlanks (c : Cursor) : c.Leads c.skipBlanks :=
  c.leads_advance _

theorem Leads.offset_le (h : c.Leads c') : c.offset ≤ c'.offset := by
  obtain ⟨xs, -, hoffset⟩ := h
  omega

theorem Leads.length_le (h : c.Leads c') : c'.rest.length ≤ c.rest.length := by
  obtain ⟨xs, hxs, -⟩ := h
  rw [hxs, List.length_append]
  exact Nat.le_add_left _ _

theorem Leads.total_eq (h : c.Leads c') : c'.total = c.total := by
  obtain ⟨xs, hxs, hoffset⟩ := h
  rw [total, total, hxs, hoffset, byteLength_append, Nat.add_assoc]

/-- A place with less behind it comes later. -/
theorem Leads.offset_lt (h : c.Leads c') (hlt : c'.rest.length < c.rest.length) :
    c.offset < c'.offset := by
  obtain ⟨xs, hxs, hoffset⟩ := h
  cases xs with
  | nil => simp [hxs] at hlt
  | cons a xs =>
    have hpos := Char.utf8Size_pos a
    rw [byteLength_cons] at hoffset
    omega

/-- The places of a text: what comes before a place and what is left make up the text, and the
offset counts the bytes before the place. -/
theorem leads_ofText_iff :
    (ofText cs).Leads c ↔ ∃ before, cs = before ++ c.rest ∧ c.offset = byteLength before := by
  simp only [Leads, ofText, Nat.zero_add]

theorem advance_of_prefix (h : xs <+: c.rest) :
    c.rest = xs ++ (c.advance xs.length).rest ∧
      (c.advance xs.length).offset = c.offset + byteLength xs := by
  obtain ⟨ys, hys⟩ := h
  rw [rest_advance, offset_advance, ← hys, List.drop_left, List.take_left]
  exact ⟨rfl, rfl⟩

end Text.Cursor

namespace Token

open Text (Cursor)

variable {right : List Char} {c next place : Cursor} {ts : List Token} {t : Token}

/-- Tokens in a row between two places, each with its text at its place. -/
inductive Row : Cursor → List Token → Cursor → Prop
  | nil {c next : Cursor} (h : c.Leads next) : Row c [] next
  | cons {c place next : Cursor} {t : Token} {ts : List Token} (h : c.Leads place)
      (hoffset : t.offset = place.offset) (htext : t.text <+: place.rest) (hne : t.text ≠ [])
      (hr : Row (place.advance t.text.length) ts next) : Row c (t :: ts) next

theorem Row.of_leads {c' : Cursor} (hc : c'.Leads c) (h : Row c ts next) : Row c' ts next := by
  cases h with
  | nil h => exact .nil (hc.trans h)
  | cons h hoffset htext hne hr => exact .cons (hc.trans h) hoffset htext hne hr

theorem Row.leads (h : Row c ts next) : c.Leads next := by
  induction h with
  | nil h => exact h
  | cons h hoffset htext hne hr ih => exact (h.trans (Cursor.leads_advance _ _)).trans ih

theorem Row.append {us : List Token} (h : Row c ts place) (h' : Row place us next) :
    Row c (ts ++ us) next := by
  induction h with
  | nil h => exact h'.of_leads h
  | cons h hoffset htext hne hr ih => exact .cons h hoffset htext hne (ih h')

theorem Found.stop_eq (h : Found right place t) :
    t.stop = (place.advance t.text.length).offset := by
  rw [(Cursor.advance_of_prefix h.begins).2, stop, h.offset_eq]

/-- The tokens of a run stand in a row. -/
theorem Scans.row (hright : right ≠ []) (h : Scans right c ts next) : Row c ts next := by
  induction h with
  | finish => exact .nil (Cursor.leads_skipBlanks _)
  | close hne ht hkind =>
    exact .cons (Cursor.leads_skipBlanks _) ht.offset_eq ht.begins (ht.ne_nil hright hne)
      (.nil (.refl _))
  | token hne ht hkind hr ih =>
    exact .cons (Cursor.leads_skipBlanks _) ht.offset_eq ht.begins (ht.ne_nil hright hne) ih

/-- The tokens that the scan of a tag finds stand in a row, up to the place where it ends. -/
theorem row_scan (hright : right ≠ []) (c : Cursor) : Row c (scan right c).1 (scan right c).2 :=
  (scans_scan right c).row hright

theorem Row.stop_le (h : Row c (t :: ts) next) :
    c.offset ≤ t.offset ∧ t.offset < t.stop ∧
      ∃ place, t.stop = place.offset ∧ Row place ts next := by
  cases h with
  | @cons _ place _ _ _ h hoffset htext hne hr =>
    obtain ⟨hrest, hstop⟩ := Cursor.advance_of_prefix htext
    obtain ⟨a, cs, hcs⟩ := List.exists_cons_of_ne_nil hne
    have hpos := Char.utf8Size_pos a
    refine ⟨hoffset ▸ h.offset_le, ?_, _, ?_, hr⟩
    · rw [stop, hcs, Text.byteLength_cons]
      omega
    · rw [stop, hstop, hoffset]

/-- A row of tokens has no more of them than bytes. -/
theorem Row.length_le (h : Row c ts next) : c.offset + ts.length ≤ next.offset := by
  induction ts generalizing c with
  | nil => exact h.leads.offset_le
  | cons t ts ih =>
    obtain ⟨hle, hlt, place, hstop, hr⟩ := h.stop_le
    have hrest := ih hr
    rw [List.length_cons]
    omega

/-- The tokens of a row stand one behind the other between its two places. -/
theorem Row.pairwise (h : Row c ts next) :
    ts.Pairwise (fun t u ↦ t.stop ≤ u.offset) ∧
      ∀ t ∈ ts, c.offset ≤ t.offset ∧ t.offset < t.stop ∧ t.stop ≤ next.offset := by
  induction ts generalizing c with
  | nil => simp
  | cons t ts ih =>
    obtain ⟨hle, hlt, place, hstop, hr⟩ := h.stop_le
    obtain ⟨hpairs, hbounds⟩ := ih hr
    refine ⟨List.pairwise_cons.mpr ⟨fun u hu ↦ hstop ▸ (hbounds u hu).1, hpairs⟩, ?_⟩
    refine List.forall_mem_cons.mpr ⟨⟨hle, hlt, hstop ▸ hr.leads.offset_le⟩, fun u hu ↦ ?_⟩
    obtain ⟨hfrom, hlast⟩ := hbounds u hu
    exact ⟨by omega, hlast⟩

/-- Each token of a row has its text at its place in the source. -/
theorem Row.stands (h : Row c ts next) : ∀ t ∈ ts, t.text ≠ [] ∧
    ∃ place, c.Leads place ∧ t.offset = place.offset ∧ t.text <+: place.rest := by
  induction h with
  | nil => exact List.forall_mem_nil _
  | @cons c place next t ts h hoffset htext hne hr ih =>
    refine List.forall_mem_cons.mpr ⟨⟨hne, place, h, hoffset, htext⟩, fun u hu ↦ ?_⟩
    obtain ⟨hne', place', hleads, hstands⟩ := ih u hu
    exact ⟨hne', place', (h.trans (Cursor.leads_advance _ _)).trans hleads, hstands⟩

/-- Some of the tokens of a row, in their order. -/
def Picked (c : Cursor) (us : List Token) (next : Cursor) : Prop :=
  ∃ ts, Row c ts next ∧ us.Sublist ts

variable {us vs : List Token}

theorem picked_nil (h : c.Leads next) : Picked c [] next :=
  ⟨[], .nil h, List.Sublist.refl _⟩

theorem Picked.of_leads {c' : Cursor} (hc : c'.Leads c) (h : Picked c us next) :
    Picked c' us next := by
  obtain ⟨ts, hrow, hsub⟩ := h
  exact ⟨ts, hrow.of_leads hc, hsub⟩

theorem Picked.append (h : Picked c us place) (h' : Picked place vs next) :
    Picked c (us ++ vs) next := by
  obtain ⟨ts, hrow, hsub⟩ := h
  obtain ⟨ts', hrow', hsub'⟩ := h'
  exact ⟨ts ++ ts', hrow.append hrow', hsub.append hsub'⟩

theorem Picked.filter (h : Picked c us next) (p : Token → Bool) : Picked c (us.filter p) next := by
  obtain ⟨ts, hrow, hsub⟩ := h
  exact ⟨ts, hrow, List.filter_sublist.trans hsub⟩

/-- Later tokens stand at later places. -/
theorem Picked.pairwise (h : Picked c us next) : us.Pairwise (·.offset < ·.offset) := by
  obtain ⟨ts, hrow, hsub⟩ := h
  obtain ⟨hpairs, hbounds⟩ := hrow.pairwise
  refine List.Pairwise.sublist hsub ?_
  exact hpairs.imp_of_mem fun ht _ hle ↦ (hbounds _ ht).2.1.trans_le hle

/-- The text of a token is found at its place. -/
theorem Picked.stands (h : Picked c us next) (ht : t ∈ us) :
    ∃ place, c.Leads place ∧ t.offset = place.offset ∧ t.text <+: place.rest := by
  obtain ⟨ts, hrow, hsub⟩ := h
  exact (hrow.stands t (hsub.subset ht)).2

end Token

end Stencil
