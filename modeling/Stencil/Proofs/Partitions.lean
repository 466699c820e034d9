import Mathlib.Data.List.Chain
import Stencil.Proofs.ByteTokens

/-!
# What the tokens of a tag cover

The scan of a tag covers its source from the place where it starts to the place where it ends:
tokens one behind the other, and nothing but blanks between them. The right delimiter is looked for
first at every place, so that it is the last token if it is one at all, and no other token starts
where it starts. What starts no token is taken as it stands, but never over a blank or into the
delimiter.

## Main definitions

* `Text.BlankBetween`: two byte offsets of a text with nothing but blanks between them.
* `Token.Partitions`: tokens that cover a part of a source between two byte offsets.

## Main results

* `Token.not_infix_plainLength`: what is taken as it stands holds no right delimiter.
* `Token.scan_partitions`: the tokens of a tag cover its source.
-/

namespace Stencil

open Text (Cursor)

namespace Text

variable {source xs : List Char} {c : Cursor}

/-- Two byte offsets of a text with nothing but blanks between them. -/
def BlankBetween (source : List Char) (start stop : Nat) : Prop :=
  ∃ bs, slice source start stop = .ok bs ∧ ∀ b ∈ bs, isBlank b = true

theorem leads_of_behind {start : Nat} {rest : List Char} (h : behind source start = .ok rest) :
    (Cursor.ofText source).Leads ⟨start, rest⟩ := by
  obtain ⟨before, hsource, hstart⟩ := eq_of_behind h
  exact Cursor.leads_ofText_iff.mpr ⟨before, hsource, hstart.symm⟩

theorem slice_of_prefix (h : (Cursor.ofText source).Leads c) (hxs : xs <+: c.rest) :
    slice source c.offset (c.offset + byteLength xs) = .ok xs := by
  obtain ⟨ys, hys⟩ := hxs
  have hslice := slice_of_leads h xs.length
  rwa [Cursor.offset_advance, ← hys, List.take_left] at hslice

theorem blankBetween_skipBlanks (h : (Cursor.ofText source).Leads c) :
    BlankBetween source c.offset c.skipBlanks.offset := by
  obtain ⟨bs, hb, hrest, hoffset⟩ := c.exists_skipBlanks
  refine ⟨bs, ?_, hb⟩
  rw [hoffset]
  exact slice_of_prefix h ⟨_, hrest.symm⟩

end Text

namespace Token

variable {right source : List Char} {c next place : Cursor} {t : Token} {ts : List Token}

/-! ### One token -/

theorem Found.text_of_close (h : Found right place t) (hkind : t.kind = .close) :
    t.text = right := by
  cases h with
  | close => rfl
  | token => exact absurd hkind (lexeme_kind_ne_close _ _)

theorem Found.not_prefix (h : Found right place t) (hkind : t.kind ≠ .close) :
    ¬ right <+: place.rest := by
  cases h with
  | close => exact absurd rfl hkind
  | token h => exact h

/-- What is taken as it stands holds no blank. -/
theorem isBlank_of_mem_plainLength (right cs : List Char) :
    ∀ a ∈ cs.take (plainLength right cs), Text.isBlank a = false := by
  induction cs with
  | nil => simp
  | cons a cs ih =>
    rw [plainLength]
    split
    · simp
    · rename_i hgoes
      rw [Bool.or_eq_true, not_or, Bool.not_eq_true] at hgoes
      rw [List.take_succ_cons]
      exact List.forall_mem_cons.mpr ⟨hgoes.1, ih⟩

/-- What is taken as it stands holds no right delimiter. -/
theorem not_infix_plainLength (hright : right ≠ []) (cs : List Char) :
    ¬ right <:+: cs.take (plainLength right cs) := by
  induction cs with
  | nil => simpa using hright
  | cons a cs ih =>
    rw [plainLength]
    split
    · simpa using hright
    · rename_i hgoes
      rw [Bool.or_eq_true, not_or, List.isPrefixOf_iff_prefix] at hgoes
      rw [List.take_succ_cons, List.infix_cons_iff, not_or]
      refine ⟨fun hbegins ↦ hgoes.2 (hbegins.trans ?_), ih⟩
      exact List.cons_prefix_cons.mpr ⟨rfl, List.take_prefix _ _⟩

/-- A token that is no known one holds neither a blank nor a right delimiter. -/
theorem Found.plain (hright : right ≠ []) (h : Found right place t) (hkind : t.kind = .other)
    (hblank : ∀ a, place.rest.head? = some a → Text.isBlank a = false) :
    (∀ a ∈ t.text, Text.isBlank a = false) ∧ ¬ right <:+: t.text := by
  cases h with
  | close => simp at hkind
  | token h =>
    dsimp only at hkind ⊢
    cases hl : known? place.rest with
    | some l =>
      rw [lexeme_of_known? hl] at hkind
      exact absurd hkind (kind_of_known? hl).2
    | none =>
      rw [lexeme, hl, Option.getD_none]
      dsimp only
      cases hrest : place.rest with
      | nil => simpa using hright
      | cons a cs =>
        rw [hrest] at h hblank
        rw [List.tail_cons, List.take_succ_cons, List.infix_cons_iff, not_or]
        refine ⟨List.forall_mem_cons.mpr ⟨hblank a rfl, isBlank_of_mem_plainLength right cs⟩,
          fun hbegins ↦ h (hbegins.trans ?_), not_infix_plainLength hright cs⟩
        exact List.cons_prefix_cons.mpr ⟨rfl, List.take_prefix _ _⟩

/-! ### Runs -/

/-- Each token of a run is found behind some blanks. -/
theorem Scans.found (h : Scans right c ts next) : ∀ t ∈ ts, ∃ c', c.Leads c' ∧
    Found right c'.skipBlanks t := by
  induction h with
  | finish => exact List.forall_mem_nil _
  | close hne ht hkind => exact List.forall_mem_singleton.mpr ⟨_, .refl _, ht⟩
  | @token c next t ts hne ht hkind hr ih =>
    refine List.forall_mem_cons.mpr ⟨⟨c, .refl c, ht⟩, fun u hu ↦ ?_⟩
    obtain ⟨c', hleads, hfound⟩ := ih u hu
    exact ⟨c', (c.leads_skipBlanks.trans (Cursor.leads_advance _ _)).trans hleads, hfound⟩

/-- The place behind the last of some tokens, or the place where they start. -/
def lastStop (start : Nat) (ts : List Token) : Nat :=
  (ts.getLast?.map stop).getD start

theorem lastStop_cons (start : Nat) (t : Token) (ts : List Token) :
    lastStop start (t :: ts) = lastStop t.stop ts := by
  rw [lastStop, lastStop, List.getLast?_cons]
  cases ts.getLast? <;> rfl

/-- There are only blanks in front of the first token of a run and between two tokens. -/
theorem Scans.gaps (h : Scans right c ts next) (hleads : (Cursor.ofText source).Leads c) :
    (∀ t ∈ ts.head?, Text.BlankBetween source c.offset t.offset) ∧
      ts.IsChain fun t u ↦ Text.BlankBetween source t.stop u.offset := by
  have hfirst {c : Cursor} {t : Token} {ts : List Token} (hleads : (Cursor.ofText source).Leads c)
      (ht : Found right c.skipBlanks t) :
      ∀ u ∈ (t :: ts).head?, Text.BlankBetween source c.offset u.offset := by
    rintro u hu
    obtain rfl : t = u := by simpa using hu
    rw [ht.offset_eq]
    exact Text.blankBetween_skipBlanks hleads
  induction h with
  | finish => exact ⟨by simp, .nil⟩
  | close hne ht hkind => exact ⟨hfirst hleads ht, .singleton _⟩
  | @token c next t ts hne ht hkind hr ih =>
    obtain ⟨hhead, hchain⟩ :=
      ih ((hleads.trans c.leads_skipBlanks).trans (Cursor.leads_advance _ _))
    rw [← ht.stop_eq] at hhead
    exact ⟨hfirst hleads ht, List.isChain_cons.mpr ⟨hhead, hchain⟩⟩

/-- A run ends behind the right delimiter, or at the end of the source with only blanks left behind
its last token. -/
theorem Scans.ends (h : Scans right c ts next) (hleads : (Cursor.ofText source).Leads c) :
    (∃ t ∈ ts, t.kind = .close ∧ next.offset = t.stop) ∨
      (∀ t ∈ ts, t.kind ≠ .close) ∧ next.offset = Text.byteLength source ∧
        Text.BlankBetween source (lastStop c.offset ts) next.offset := by
  induction h with
  | @finish c h =>
    refine Or.inr ⟨List.forall_mem_nil _, ?_, Text.blankBetween_skipBlanks hleads⟩
    have hend := Text.offset_advance_length (hleads.trans c.leads_skipBlanks)
    rw [h] at hend
    simpa [h] using hend
  | close hne ht hkind => exact Or.inl ⟨_, List.mem_singleton.mpr rfl, hkind, ht.stop_eq.symm⟩
  | @token c next t ts hne ht hkind hr ih =>
    rcases ih ((hleads.trans c.leads_skipBlanks).trans (Cursor.leads_advance _ _)) with
      ⟨u, hu, hclose, hstop⟩ | ⟨hnone, hstop, hblank⟩
    · exact Or.inl ⟨u, List.mem_cons_of_mem _ hu, hclose, hstop⟩
    · refine Or.inr ⟨List.forall_mem_cons.mpr ⟨hkind, hnone⟩, hstop, ?_⟩
      rwa [lastStop_cons, ht.stop_eq]

/-! ### Covering a source -/

/-- Tokens that cover a source from one byte offset to another, up to the first right delimiter. -/
structure Partitions (right source : List Char) (start : Nat) (ts : List Token) (last : Nat) :
    Prop where
  /-- No more tokens than there are bytes. -/
  finite : start + ts.length ≤ last
  /-- Each token is a piece of the source that is not empty. -/
  texts : ∀ t ∈ ts, t.text ≠ [] ∧ Text.slice source t.offset t.stop = .ok t.text
  /-- Each token starts behind the end of the tokens before it. -/
  increasing : ts.Pairwise fun t u ↦ t.offset < u.offset ∧ t.stop ≤ u.offset
  /-- There are only blanks in front of the first token. -/
  first : ∀ t ∈ ts.head?, Text.BlankBetween source start t.offset
  /-- There are only blanks between one token and the next. -/
  gaps : ts.IsChain fun t u ↦ Text.BlankBetween source t.stop u.offset
  /-- The right delimiter can only be the last token. -/
  close : ∀ before t after, ts = before ++ t :: after → t.kind = .close →
    after = [] ∧ t.text = right
  /-- No other token starts where the right delimiter starts. -/
  delimiter : ∀ t ∈ ts, t.kind ≠ .close →
    ∃ rest, Text.behind source t.offset = .ok rest ∧ ¬ right <+: rest
  /-- What is taken as it stands holds no blank and no right delimiter. -/
  plain : ∀ t ∈ ts, t.kind = .other →
    (∀ a ∈ t.text, Text.isBlank a = false) ∧ ¬ right <:+: t.text
  /-- The end is that of the right delimiter. Without one it is the end of the source, and only
  blanks are left behind the last token. -/
  ends : (∃ t ∈ ts, t.kind = .close ∧ last = t.stop) ∨
    (∀ t ∈ ts, t.kind ≠ .close) ∧ last = Text.byteLength source ∧
      Text.BlankBetween source (lastStop start ts) last

/-- The tokens of a tag cover its source, from every byte offset between two characters on: a
finite number of pieces of the source in their order, with nothing but blanks around them, up to the
first right delimiter or the end of the source. -/
theorem scan_partitions {right source rest : List Char} {start : Nat} (hright : right ≠ [])
    (hstart : Text.behind source start = .ok rest) :
    Partitions right source start (scan right ⟨start, rest⟩).1
      (scan right ⟨start, rest⟩).2.offset := by
  have hleads := Text.leads_of_behind hstart
  have hscans := scans_scan right ⟨start, rest⟩
  have hrow := row_scan hright ⟨start, rest⟩
  obtain ⟨hpairs, hbounds⟩ := hrow.pairwise
  obtain ⟨hfirst, hgaps⟩ := hscans.gaps hleads
  refine ⟨hrow.length_le, fun t ht ↦ ?_, ?_, hfirst, hgaps, fun before t after hts hkind ↦ ?_,
    fun t ht hkind ↦ ?_, fun t ht hkind ↦ ?_, hscans.ends hleads⟩
  · obtain ⟨hne, place, hplace, hoffset, htext⟩ := hrow.stands t ht
    rw [stop, hoffset]
    exact ⟨hne, Text.slice_of_prefix (hleads.trans hplace) htext⟩
  · exact hpairs.imp_of_mem fun ht _ hle ↦ ⟨(hbounds _ ht).2.1.trans_le hle, hle⟩
  · obtain ⟨c', -, hfound⟩ := hscans.found t (by rw [hts]; simp)
    rw [hts] at hscans
    exact ⟨hscans.close_last hkind, hfound.text_of_close hkind⟩
  · obtain ⟨c', hc', hfound⟩ := hscans.found t ht
    rw [hfound.offset_eq]
    exact ⟨_, Text.behind_of_leads ((hleads.trans hc').trans c'.leads_skipBlanks),
      hfound.not_prefix hkind⟩
  · obtain ⟨c', -, hfound⟩ := hscans.found t ht
    exact hfound.plain hright hkind fun a ha ↦ c'.isBlank_of_head?_skipBlanks ha

/-- A source with a blank of two bytes, an unknown token that ends before the right delimiter, and a
second delimiter that is not reached; and one without a delimiter. -/
theorem scan_partitions_delimited :
    Partitions ['%', '>'] "é\u00a0%a ?x%> %>".toList 2
        [⟨.path, ['%', 'a'], 4⟩, ⟨.other, ['?', 'x'], 7⟩, ⟨.close, ['%', '>'], 9⟩] 11 ∧
      Partitions ['%', '>'] "%a ".toList 0 [⟨.path, ['%', 'a'], 0⟩] 3 := by
  have hright : ['%', '>'] ≠ [] := List.cons_ne_nil _ _
  have hfirst : (scan ['%', '>'] ⟨2, "\u00a0%a ?x%> %>".toList⟩).1 =
      [⟨.path, ['%', 'a'], 4⟩, ⟨.other, ['?', 'x'], 7⟩, ⟨.close, ['%', '>'], 9⟩] ∧
        (scan ['%', '>'] ⟨2, "\u00a0%a ?x%> %>".toList⟩).2.offset = 11 := by
    decide +kernel
  have hsecond : (scan ['%', '>'] ⟨0, "%a ".toList⟩).1 = [⟨.path, ['%', 'a'], 0⟩] ∧
      (scan ['%', '>'] ⟨0, "%a ".toList⟩).2.offset = 3 := by
    decide +kernel
  constructor
  · have hstart : Text.behind "é\u00a0%a ?x%> %>".toList 2 = .ok "\u00a0%a ?x%> %>".toList :=
      Text.behind_append ['é'] "\u00a0%a ?x%> %>".toList
    have hcovers := scan_partitions hright hstart
    rwa [hfirst.1, hfirst.2] at hcovers
  · have hcovers := scan_partitions hright (Text.behind_zero "%a ".toList)
    rwa [hsecond.1, hsecond.2] at hcovers

end Token

end Stencil
