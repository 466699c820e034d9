import Stencil.Proofs.Lookahead

/-!
# The tokens of a tag

Every scan of a tag is a run that finds one token after the other behind blanks. A run that finds
the right delimiter, and only known tokens before it, is described step by step by `Token.Closes`.
Such a run looks at nothing behind the delimiter: it stays the same when the source is moved, when
it is cut behind the delimiter, and, for a closing brace, when anything else follows.

## Main definitions

* `Text.Cursor.shift`, `Text.Cursor.extend`: a place moved by some bytes, a source that goes on.
* `Token.Found`: the token that is found at a place without a blank.
* `Token.Scans`: the runs of the scan of a tag.
* `Token.Closes`: the known tokens from a place up to the right delimiter, and the place behind it.

## Main results

* `Token.scans_scan`: every scan of a tag is a run.
* `Token.scan_eq_of_closes`, `Token.closes_of_scan`: `Token.Closes` describes runs of the scan.
* `Token.Closes.shift`, `Token.Closes.cut`, `Token.Closes.extend`: what such a run does not see.
-/

namespace Stencil

/-! ### Moving and continuing a source -/

namespace Text.Cursor

/-- The same text, some bytes further on. -/
def shift (k : Nat) (c : Cursor) : Cursor :=
  ⟨k + c.offset, c.rest⟩

/-- The same place in a source that goes on. -/
def extend (vs : List Char) (c : Cursor) : Cursor :=
  ⟨c.offset, c.rest ++ vs⟩

variable {c : Cursor} {k n : Nat} {vs : List Char}

@[simp] theorem rest_extend : (c.extend vs).rest = c.rest ++ vs := rfl

/-- The bytes of a source up to its end. Reading does not change them. -/
def total (c : Cursor) : Nat :=
  c.offset + byteLength c.rest

theorem total_advance : (c.advance n).total = c.total := by
  have hsplit : byteLength (c.rest.take n) + byteLength (c.rest.drop n) = byteLength c.rest := by
    rw [← byteLength_append, List.take_append_drop]
  simp only [total, offset_advance, rest_advance]
  omega

/-- Taking more characters than there are is taking all of them. -/
theorem advance_length_take (c : Cursor) (n : Nat) :
    c.advance (c.rest.take n).length = c.advance n := by
  rw [advance, advance, List.length_take]
  rcases Nat.le_total n c.rest.length with hle | hle
  · rw [Nat.min_eq_left hle]
  · rw [Nat.min_eq_right hle, List.take_length, List.drop_length, List.take_of_length_le hle,
      List.drop_of_length_le hle]

theorem advance_shift : (c.shift k).advance n = (c.advance n).shift k := by
  simp [advance, shift, Nat.add_assoc]

theorem skipBlanks_shift : (c.shift k).skipBlanks = c.skipBlanks.shift k :=
  advance_shift

theorem advance_extend (h : n ≤ c.rest.length) :
    (c.extend vs).advance n = (c.advance n).extend vs := by
  simp only [advance, extend]
  rw [List.take_append_of_le_length h, List.drop_append_of_le_length h]

/-- Blanks that end before the source goes on are skipped alike. -/
theorem skipBlanks_extend {a : Char} (vs : List Char) (ha : a ∈ c.rest)
    (hblank : isBlank a = false) : (c.extend vs).skipBlanks = c.skipBlanks.extend vs := by
  unfold skipBlanks
  rw [rest_extend, takeWhile_append_of_mem ha hblank]
  exact advance_extend (List.takeWhile_prefix _).length_le

theorem rest_skipBlanks (c : Cursor) : c.skipBlanks.rest = c.rest.dropWhile isBlank :=
  drop_length_takeWhile _ _

theorem isBlank_of_head?_skipBlanks {a : Char} (h : c.skipBlanks.rest.head? = some a) :
    isBlank a = false := by
  rw [rest_skipBlanks] at h
  have hfirst := List.head?_dropWhile_not isBlank c.rest
  rw [h] at hfirst
  simpa using hfirst

theorem exists_skipBlanks (c : Cursor) : ∃ bs, (∀ b ∈ bs, isBlank b = true) ∧
    c.rest = bs ++ c.skipBlanks.rest ∧ c.skipBlanks.offset = c.offset + byteLength bs := by
  refine ⟨c.rest.takeWhile isBlank, fun b hb ↦ List.mem_takeWhile_imp hb, ?_, ?_⟩
  · rw [rest_skipBlanks, List.takeWhile_append_dropWhile]
  · rw [skipBlanks, offset_advance, take_length_takeWhile]

theorem skipBlanks_append {o : Nat} {bs cs : List Char} (hb : ∀ b ∈ bs, isBlank b = true)
    (hcs : ∀ a, cs.head? = some a → isBlank a = false) :
    skipBlanks ⟨o, bs ++ cs⟩ = ⟨o + byteLength bs, cs⟩ := by
  have hnone : cs.takeWhile isBlank = [] := by
    cases cs with
    | nil => rfl
    | cons a cs => rw [List.takeWhile_cons_of_neg (by simpa using hcs a rfl)]
  have hblanks : (bs ++ cs).takeWhile isBlank = bs := by
    rw [List.takeWhile_append_of_pos hb, hnone, List.append_nil]
  simp [skipBlanks, advance, hblanks]

/-- Blanks are skipped alike when the source is cut somewhere behind them. -/
theorem exists_skipBlanks_cut (c : Cursor) : ∃ bs, c.rest = bs ++ c.skipBlanks.rest ∧
    ∀ xs ys, c.skipBlanks.rest = xs ++ ys →
      skipBlanks ⟨c.offset, bs ++ xs⟩ = ⟨c.skipBlanks.offset, xs⟩ := by
  obtain ⟨bs, hb, hrest, hoffset⟩ := c.exists_skipBlanks
  refine ⟨bs, hrest, fun xs ys hxs ↦ ?_⟩
  rw [hoffset]
  refine skipBlanks_append hb fun a ha ↦ c.isBlank_of_head?_skipBlanks ?_
  rw [hxs, List.head?_append, ha, Option.some_or]

end Text.Cursor

namespace Token

open Text (Cursor)

/-- A token some bytes further on. -/
def shift (k : Nat) (t : Token) : Token :=
  { t with offset := k + t.offset }

/-! ### Runs of the scan -/

variable {right : List Char} {c next place : Cursor} {t : Token} {ts body : List Token}

theorem lexeme_of_known? {cs : List Char} {l : Lexeme} (h : known? cs = some l) :
    lexeme right cs = l := by
  rw [lexeme, h, Option.getD_some]

theorem known?_nil : known? [] = none := by
  rfl

theorem scan_eq_close (hne : c.skipBlanks.rest ≠ []) (h : right <+: c.skipBlanks.rest) :
    scan right c =
      ([⟨.close, right, c.skipBlanks.offset⟩], c.skipBlanks.advance right.length) := by
  rw [scan]
  simp only [if_neg hne, if_pos (List.isPrefixOf_iff_prefix.mpr h)]

theorem scan_eq_token (hne : c.skipBlanks.rest ≠ []) (h : ¬ right <+: c.skipBlanks.rest) :
    scan right c =
      (⟨(lexeme right c.skipBlanks.rest).kind,
          c.skipBlanks.rest.take (lexeme right c.skipBlanks.rest).length,
          c.skipBlanks.offset⟩ ::
        (scan right (c.skipBlanks.advance (lexeme right c.skipBlanks.rest).length)).1,
        (scan right (c.skipBlanks.advance (lexeme right c.skipBlanks.rest).length)).2) := by
  rw [scan]
  simp only [if_neg hne, if_neg (List.isPrefixOf_iff_prefix.not.mpr h)]

theorem kind_of_known? {cs : List Char} {l : Lexeme} (h : known? cs = some l) :
    l.kind ≠ .close ∧ l.kind ≠ .other := by
  rcases known?_eq_some h with ⟨n, -, rfl⟩ | ⟨n, -, rfl⟩ | ⟨n, -, rfl⟩ | h | h
  · simp
  · simp
  · simp
  · obtain ⟨-, -, -, -, rfl⟩ := word?_eq_some h
    simp only [wordKind]
    split <;> simp
  · have hkind := mem_symbolKinds (symbol?_eq_some h).2
    constructor <;> intro hk <;> rw [hk] at hkind <;> exact absurd hkind (by decide)

theorem lexeme_kind_ne_close (right cs : List Char) : (lexeme right cs).kind ≠ .close := by
  unfold lexeme
  cases h : known? cs with
  | none => simp
  | some l => simpa using (kind_of_known? h).1

/-- The token that is found at a place without a blank: the right delimiter, or the token at the
start of a text that does not begin with it. -/
inductive Found (right : List Char) (place : Cursor) : Token → Prop
  | close (h : right <+: place.rest) : Found right place ⟨.close, right, place.offset⟩
  | token (h : ¬ right <+: place.rest) :
      Found right place ⟨(lexeme right place.rest).kind,
        place.rest.take (lexeme right place.rest).length, place.offset⟩

theorem Found.offset_eq (h : Found right place t) : t.offset = place.offset := by
  cases h <;> rfl

theorem Found.begins (h : Found right place t) : t.text <+: place.rest := by
  cases h with
  | close h => exact h
  | token => exact List.take_prefix _ _

theorem Found.ne_nil (hright : right ≠ []) (hne : place.rest ≠ []) (h : Found right place t) :
    t.text ≠ [] := by
  cases h with
  | close => exact hright
  | token =>
    rw [Ne, List.take_eq_nil_iff]
    exact not_or.mpr ⟨(lexeme_length_pos right place.rest).ne', hne⟩

/-- What is found and kept as neither the right delimiter nor as it stands is a lexeme. -/
theorem Found.exists_lexeme (h : Found right place t) (hclose : t.kind ≠ .close)
    (hother : t.kind ≠ .other) : ∃ l, ¬ right <+: place.rest ∧ known? place.rest = some l ∧
      t = ⟨l.kind, place.rest.take l.length, place.offset⟩ := by
  cases h with
  | close => exact absurd rfl hclose
  | token h =>
    dsimp only at hother
    cases hl : known? place.rest with
    | none => simp [lexeme, hl] at hother
    | some l => exact ⟨l, h, rfl, by rw [lexeme_of_known? hl]⟩

/-- The runs of the scan of a tag: blanks are skipped in front of each token, and the right
delimiter or the end of the source ends the run. -/
inductive Scans (right : List Char) : Cursor → List Token → Cursor → Prop
  | finish {c : Cursor} (h : c.skipBlanks.rest = []) : Scans right c [] c.skipBlanks
  | close {c : Cursor} {t : Token} (hne : c.skipBlanks.rest ≠ [])
      (ht : Found right c.skipBlanks t) (hkind : t.kind = .close) :
      Scans right c [t] (c.skipBlanks.advance t.text.length)
  | token {c next : Cursor} {t : Token} {ts : List Token} (hne : c.skipBlanks.rest ≠ [])
      (ht : Found right c.skipBlanks t) (hkind : t.kind ≠ .close)
      (hr : Scans right (c.skipBlanks.advance t.text.length) ts next) : Scans right c (t :: ts) next

/-- Every scan of a tag is a run. -/
theorem scans_scan (right : List Char) (c : Cursor) :
    Scans right c (scan right c).1 (scan right c).2 := by
  fun_induction scan right c with
  | case1 c start hnil => exact .finish hnil
  | case2 c start hne hclose =>
    exact .close hne (.close (List.isPrefixOf_iff_prefix.mp hclose)) rfl
  | case3 c start hne hclose l tokens stop hrest ih =>
    rw [hrest] at ih
    refine .token hne (.token (List.isPrefixOf_iff_prefix.not.mp hclose))
      (lexeme_kind_ne_close _ _) ?_
    rwa [Cursor.advance_length_take]

/-- The right delimiter is the last token of a run. -/
theorem Scans.close_last {before after : List Token} (h : Scans right c (before ++ t :: after) next)
    (hkind : t.kind = .close) : after = [] := by
  generalize hts : before ++ t :: after = ts at h
  induction h generalizing before with
  | finish => simp at hts
  | close =>
    cases before with
    | nil => exact (List.cons.inj hts).2
    | cons u before => simp at hts
  | token hne ht hkind' hr ih =>
    cases before with
    | nil =>
      obtain ⟨rfl, -⟩ := List.cons.inj hts
      exact absurd hkind hkind'
    | cons u before => exact ih (List.cons.inj hts).2

/-- The right delimiter is the last token that the scan finds, or it finds none. -/
theorem scan_eq_append_close (h : ∃ t ∈ (scan right c).1, t.kind = .close) :
    ∃ t, t.kind = .close ∧
      (scan right c).1 = (scan right c).1.takeWhile (·.kind ≠ .close) ++ [t] := by
  have hscans := scans_scan right c
  generalize (scan right c).1 = ts at h hscans ⊢
  have hsplit := List.takeWhile_append_dropWhile (p := fun t : Token ↦ t.kind ≠ .close) (l := ts)
  cases hdrop : ts.dropWhile (·.kind ≠ .close) with
  | nil =>
    obtain ⟨t, ht, hclose⟩ := h
    exact absurd hclose (by simpa using List.dropWhile_eq_nil_iff.mp hdrop t ht)
  | cons t after =>
    have hclose : t.kind = .close := by
      have hhead := List.head?_dropWhile_not (fun t : Token ↦ decide (t.kind ≠ .close)) ts
      rw [hdrop] at hhead
      simpa using hhead
    rw [hdrop] at hsplit
    obtain rfl := Scans.close_last (hsplit ▸ hscans) hclose
    exact ⟨t, hclose, hsplit.symm⟩

/-- A token whose kind and text were read at the start of some source. -/
def Known (t : Token) : Prop :=
  ∃ cs l, known? cs = some l ∧ t.kind = l.kind ∧ t.text = cs.take l.length

/-- What the scan finds at some place is a known token, the right delimiter, or something else that
is kept as it stands. -/
theorem known_of_mem_scan (ht : t ∈ (scan right c).1) (hclose : t.kind ≠ .close)
    (hother : t.kind ≠ .other) : t.Known := by
  have h := scans_scan right c
  generalize (scan right c).1 = ts at h ht
  generalize (scan right c).2 = next at h
  induction h with
  | finish => simp at ht
  | close hne hfound hkind =>
    obtain rfl := List.mem_singleton.mp ht
    exact absurd hkind hclose
  | token hne hfound hkind hr ih =>
    rcases List.mem_cons.mp ht with rfl | ht
    · obtain ⟨l, -, hl, rfl⟩ := hfound.exists_lexeme hclose hother
      exact ⟨_, l, hl, rfl, rfl⟩
    · exact ih ht

/-! ### Runs that find the right delimiter -/

/-- The known tokens from a place up to the right delimiter, and the place behind it. -/
inductive Closes (right : List Char) : Cursor → List Token → Cursor → Prop
  | close {c : Cursor} (h : right <+: c.skipBlanks.rest) :
      Closes right c [] (c.skipBlanks.advance right.length)
  | token {c : Cursor} {l : Lexeme} {body : List Token} {next : Cursor}
      (hclose : ¬ right <+: c.skipBlanks.rest) (hl : known? c.skipBlanks.rest = some l)
      (hr : Closes right (c.skipBlanks.advance l.length) body next) :
      Closes right c
        (⟨l.kind, c.skipBlanks.rest.take l.length, c.skipBlanks.offset⟩ :: body) next

/-- A run that ends at the right delimiter is a run of the scan. -/
theorem scan_eq_of_closes (hright : right ≠ []) (h : Closes right c body next) :
    ∃ o, scan right c = (body ++ [⟨.close, right, o⟩], next) := by
  induction h with
  | @close c h =>
    have hne : c.skipBlanks.rest ≠ [] := by
      intro hnil
      rw [hnil] at h
      exact hright (List.prefix_nil.mp h)
    exact ⟨_, scan_eq_close hne h⟩
  | @token c l body next hclose hl hr ih =>
    obtain ⟨o, ho⟩ := ih
    have hne : c.skipBlanks.rest ≠ [] := by
      intro hnil
      rw [hnil, known?_nil] at hl
      exact absurd hl (by simp)
    refine ⟨o, ?_⟩
    rw [scan_eq_token hne hclose, lexeme_of_known? hl, ho]
    rfl

/-- A run that finds the right delimiter, and only known tokens before it. -/
theorem Scans.closes (h : Scans right c (body ++ [t]) next) (ht : t.kind = .close)
    (hknown : ∀ u ∈ body, u.kind ≠ .other) : Closes right c body next := by
  generalize hts : body ++ [t] = ts at h
  induction h generalizing body with
  | finish => simp at hts
  | close hne hfound hkind =>
    obtain rfl : body = [] := by simpa using congrArg List.length hts
    cases hfound with
    | close h => exact .close h
    | token => exact absurd hkind (lexeme_kind_ne_close _ _)
  | token hne hfound hkind hr ih =>
    cases body with
    | nil =>
      obtain ⟨rfl, -⟩ := List.cons.inj hts
      exact absurd ht hkind
    | cons u body =>
      obtain ⟨rfl, htail⟩ := List.cons.inj hts
      obtain ⟨hother, hknown⟩ := List.forall_mem_cons.mp hknown
      have hrest := ih hknown htail
      obtain ⟨l, hclose, hl, rfl⟩ := hfound.exists_lexeme hkind hother
      dsimp only at hrest
      rw [Cursor.advance_length_take] at hrest
      exact .token hclose hl hrest

theorem closes_of_scan (ht : t.kind = .close) (hknown : ∀ u ∈ body, u.kind ≠ .other)
    (h : scan right c = (body ++ [t], next)) : Closes right c body next := by
  have hscans := scans_scan right c
  rw [h] at hscans
  exact hscans.closes ht hknown

/-! ### What a run that finds the right delimiter does not see -/

theorem Closes.kind_ne (h : Closes right c body next) :
    ∀ t ∈ body, t.kind ≠ .close ∧ t.kind ≠ .other := by
  induction h with
  | close => simp
  | token hclose hl hr ih =>
    intro t ht
    rcases List.mem_cons.mp ht with rfl | ht
    · exact kind_of_known? hl
    · exact ih t ht

theorem Closes.total_eq (h : Closes right c body next) : next.total = c.total := by
  induction h with
  | close h => rw [Cursor.total_advance, Cursor.skipBlanks, Cursor.total_advance]
  | token hclose hl hr ih => rw [ih, Cursor.total_advance, Cursor.skipBlanks, Cursor.total_advance]

/-- A run does not depend on where the source stands. -/
theorem Closes.shift (h : Closes right c body next) (k : Nat) :
    Closes right (c.shift k) (body.map (Token.shift k)) (next.shift k) := by
  induction h with
  | close h =>
    rw [← Cursor.advance_shift, ← Cursor.skipBlanks_shift]
    exact .close (by rw [Cursor.skipBlanks_shift]; exact h)
  | @token c l body next hclose hl hr ih =>
    rw [← Cursor.advance_shift, ← Cursor.skipBlanks_shift] at ih
    have hstep := Closes.token (c := c.shift k) (by rw [Cursor.skipBlanks_shift]; exact hclose)
      (by rw [Cursor.skipBlanks_shift]; exact hl) ih
    rw [Cursor.skipBlanks_shift] at hstep
    exact hstep

/-- A run further on in a source is a run moved there. -/
theorem Closes.of_shift {k : Nat} (h : Closes right (c.shift k) body next) :
    ∃ body' next', Closes right c body' next' ∧ body = body'.map (Token.shift k) ∧
      next = next'.shift k := by
  generalize hc : c.shift k = c' at h
  induction h generalizing c with
  | close h =>
    subst hc
    rw [Cursor.skipBlanks_shift] at h ⊢
    exact ⟨[], _, .close h, rfl, Cursor.advance_shift⟩
  | @token c' l body next hclose hl hr ih =>
    subst hc
    rw [Cursor.skipBlanks_shift] at hclose hl ih ⊢
    obtain ⟨body', next', hr', rfl, rfl⟩ := ih Cursor.advance_shift.symm
    exact ⟨_, next', .token hclose hl hr', rfl, rfl⟩

/-- A blank before the first token does not count. -/
theorem Closes.blank {o : Nat} {b : Char} {cs : List Char} (hb : Text.isBlank b = true)
    (h : Closes right ⟨o + b.utf8Size, cs⟩ body next) : Closes right ⟨o, b :: cs⟩ body next := by
  have hskip : Cursor.skipBlanks ⟨o, b :: cs⟩ = Cursor.skipBlanks ⟨o + b.utf8Size, cs⟩ := by
    simp [Cursor.skipBlanks, Cursor.advance, hb, Nat.add_assoc]
  cases h with
  | close h =>
    rw [← hskip] at h ⊢
    exact .close h
  | token hclose hl hr =>
    rw [← hskip] at hclose hl hr ⊢
    exact .token hclose hl hr

/-- A known token is the same when the source is cut somewhere behind it. -/
theorem known?_cut {cs xs ys : List Char} {l : Lexeme} (h : known? cs = some l)
    (htail : cs.drop l.length = xs ++ ys) (hne : xs ≠ []) :
    cs = (cs.take l.length ++ xs) ++ ys ∧ known? (cs.take l.length ++ xs) = some l ∧
      (cs.take l.length ++ xs).take l.length = cs.take l.length ∧
        (cs.take l.length ++ xs).drop l.length = xs := by
  have hlen : (cs.take l.length).length = l.length := by
    refine List.length_take_of_le (Nat.le_of_not_lt fun hlt ↦ hne ?_)
    rw [List.drop_eq_nil_of_le hlt.le] at htail
    exact (List.append_eq_nil_iff.mp htail.symm).1
  have hpiece : cs = (cs.take l.length ++ xs) ++ ys := by
    rw [List.append_assoc, ← htail, List.take_append_drop]
  refine ⟨hpiece, ?_, List.take_left' hlen, List.drop_left' hlen⟩
  rw [hpiece] at h
  exact survivesCut_known?.eq_some h (by rw [List.length_append]; omega)

/-- Such a run looks at nothing behind the right delimiter. -/
theorem Closes.cut (hright : right ≠ []) (h : Closes right c body next) :
    ∃ xs, xs ≠ [] ∧ c.rest = xs ++ next.rest ∧
      Closes right ⟨c.offset, xs⟩ body ⟨next.offset, []⟩ := by
  induction h with
  | @close c h =>
    obtain ⟨bs, hrest, hcut⟩ := c.exists_skipBlanks_cut
    obtain ⟨ys, hys⟩ := h
    have hskip := hcut right ys hys.symm
    refine ⟨bs ++ right, by simp [hright], ?_, ?_⟩
    · rw [hrest, List.append_assoc, Cursor.rest_advance, ← hys, List.drop_left]
    · have hclose := @Closes.close right ⟨c.offset, bs ++ right⟩
        ⟨[], by rw [hskip, List.append_nil]⟩
      rw [hskip] at hclose
      simpa [Cursor.advance, ← hys] using hclose
  | @token c l body next hclose hl hr ih =>
    obtain ⟨xs, hne, htail, hxs⟩ := ih
    obtain ⟨bs, hrest, hcut⟩ := c.exists_skipBlanks_cut
    obtain ⟨hpiece, hl', htake, hdrop⟩ := known?_cut hl htail hne
    have hskip := hcut _ _ hpiece
    refine ⟨bs ++ (c.skipBlanks.rest.take l.length ++ xs), by simp [hne], ?_, ?_⟩
    · rw [List.append_assoc, ← hpiece]
      exact hrest
    have hstep := @Closes.token right
      ⟨c.offset, bs ++ (c.skipBlanks.rest.take l.length ++ xs)⟩ l body ⟨next.offset, []⟩
    rw [hskip] at hstep
    simp only [Cursor.advance, htake, hdrop] at hstep
    refine hstep (fun hbegins ↦ hclose ?_) hl' hxs
    rw [hpiece]
    exact hbegins.trans (List.prefix_append _ _)

/-! ### Tags that a brace closes -/

/-- No token starts with a bracket. -/
theorem known?_bracket (cs : List Char) : known? ('[' :: cs) = none := by
  by_contra hsome
  obtain ⟨l, hl⟩ := Option.ne_none_iff_exists'.mp hsome
  have hmem : '[' ∈ ('[' :: cs).take l.length := by
    rw [← Nat.succ_pred_eq_of_pos (known?_pos hl), List.take_succ_cons]
    exact List.mem_cons_self
  rcases known?_eq_some hl with ⟨n, h, -⟩ | ⟨n, h, -⟩ | ⟨n, h, rfl⟩ | h | h
  · simp [Text.pathLength?] at h
  · simp [quotedLength?, Text.quotedLengthWith?] at h
  · exact absurd (numberLength?_chars h _ hmem) (by decide)
  · exact absurd (word?_chars h _ hmem) (by decide)
  · exact absurd (symbol?_chars h _ hmem) (by decide)

theorem Closes.mem (h : Closes ['\x7d'] c body next) : '\x7d' ∈ c.rest := by
  have hsub {c : Cursor} (h : '\x7d' ∈ c.skipBlanks.rest) : '\x7d' ∈ c.rest := by
    rw [Cursor.rest_skipBlanks] at h
    exact (List.dropWhile_sublist _).subset h
  induction h with
  | close h => exact hsub (h.subset (List.mem_singleton.mpr rfl))
  | token hclose hl hr ih => exact hsub (List.mem_of_mem_drop ih)

theorem Closes.head?_ne_bracket (h : Closes ['\x7d'] c body next) : c.rest.head? ≠ some '[' := by
  intro hhead
  obtain ⟨cs, hcs⟩ : ∃ cs, c.rest = '[' :: cs := by
    cases hrest : c.rest with
    | nil => simp [hrest] at hhead
    | cons a cs => exact ⟨cs, by simpa [hrest] using hhead⟩
  have hskip : c.skipBlanks.rest = '[' :: cs := by
    rw [Cursor.rest_skipBlanks, hcs, List.dropWhile_cons_of_neg (by decide)]
  cases h with
  | close h => simp [hskip] at h
  | token hclose hl hr =>
    rw [hskip, known?_bracket] at hl
    exact absurd hl (by simp)

/-- A run up to a closing brace is the same when anything follows the brace. -/
theorem Closes.extend (h : Closes ['\x7d'] c body next) (vs : List Char) :
    Closes ['\x7d'] (c.extend vs) body (next.extend vs) := by
  have hmem := h.mem
  induction h with
  | @close c h =>
    have hskip := Cursor.skipBlanks_extend vs hmem (by decide)
    have hstep := @Closes.close ['\x7d'] (c.extend vs) (by
      rw [hskip]
      exact h.trans (List.prefix_append _ _))
    rw [hskip, Cursor.advance_extend h.length_le] at hstep
    exact hstep
  | @token c l body next hclose hl hr ih =>
    have hskip := Cursor.skipBlanks_extend vs hmem (by decide)
    have hdrop : '\x7d' ∈ c.skipBlanks.rest.drop l.length := hr.mem
    have hle : l.length ≤ c.skipBlanks.rest.length := (Text.lt_length_of_mem_drop hdrop).le
    have hstep := @Closes.token ['\x7d'] (c.extend vs) l body (next.extend vs)
    rw [hskip, Cursor.advance_extend hle, Cursor.rest_extend,
      List.take_append_of_le_length hle] at hstep
    refine hstep ?_ (known?_append hl hdrop hr.head?_ne_bracket) (ih hr.mem)
    intro hbegins
    refine hclose (List.prefix_of_prefix_length_le hbegins (List.prefix_append _ _) ?_)
    exact List.length_pos_of_mem (List.mem_of_mem_drop hdrop)

end Token

end Stencil
