import Mathlib.Tactic.SplitIfs
import Stencil.Proofs.JsonNumbers

/-!
# Written documents are read back

The reader takes exactly the text of a document and gives the document back, whatever follows it:
strings with quotes, backslashes and control characters, arrays and objects nested to any depth.
Only numbers are what their texts stand for.

## Main definitions

* `Json.reread`: a document with every number as its text reads.
* `Json.Reads`: the reader gives a document back, and what follows its text.

## Main results

* `Json.string?_writeText`: a written text is read as itself.
* `Json.reads`: every document is read back from the start of a text.
* `Json.read?_write`: a document is read back from its whole text.
-/

namespace Stencil

/-- Readers of items give a list back when each gives its item back. -/
theorem mapM_map_eq_some {α β : Type} {f : α → β} {g : β → Option α} {as : List α}
    (h : ∀ a ∈ as, g (f a) = some a) : (as.map f).mapM g = some as := by
  induction as with
  | nil => rfl
  | cons a as ih =>
    rw [List.map_cons, List.mapM_cons, h a List.mem_cons_self,
      ih fun b hb ↦ h b (List.mem_cons_of_mem a hb)]
    rfl

end Stencil

namespace Stencil.Json

variable {cs rest : List Char}

/-! ### Strings -/

theorem writeControl_eq : ∀ n < 32, writeControl (Char.ofNat n) =
    ['\\', 'u', '0', '0', Nat.digitChar (n / 16), Nat.digitChar (n % 16)] := by
  decide +kernel

theorem hex4?_digitChar : ∀ n < 32,
    hex4? '0' '0' (Nat.digitChar (n / 16)) (Nat.digitChar (n % 16)) = some n := by
  decide

theorem units?_escape {e c : Char} (hu : e ≠ 'u') (he : escape? e = some c) (cs : List Char) :
    units? ('\\' :: e :: cs) = (units? cs).map fun (ns, rest) ↦ (c.toNat :: ns, rest) := by
  rw [units?.eq_3 _ _ (by simp [hu]), he]
  cases units? cs <;> rfl

/-- A written character is read as its code point. -/
theorem units?_writeChar (c : Char) (cs : List Char) :
    units? (writeChar c ++ cs) = (units? cs).map fun (ns, rest) ↦ (c.toNat :: ns, rest) := by
  rw [writeChar]
  split_ifs with hself hb hf hn hr ht hcontrol
  · rcases hself with rfl | rfl <;> exact units?_escape (by decide) rfl cs
  · exact hb ▸ units?_escape (by decide) rfl cs
  · exact hf ▸ units?_escape (by decide) rfl cs
  · exact hn ▸ units?_escape (by decide) rfl cs
  · exact hr ▸ units?_escape (by decide) rfl cs
  · exact ht ▸ units?_escape (by decide) rfl cs
  · have htext := writeControl_eq c.toNat hcontrol
    rw [Char.ofNat_toNat] at htext
    rw [htext]
    simp only [List.cons_append, List.nil_append, units?, hex4?_digitChar c.toNat hcontrol]
    cases units? cs <;> rfl
  · rw [not_or] at hself
    have hplain : ¬(c.toNat < 0x20 ∨ c = '\\') := fun h ↦ h.elim hcontrol hself.2
    rw [List.singleton_append, units?, if_neg hplain]
    · cases units? cs <;> rfl
    all_goals simp [hself.1, hself.2]

theorem units?_writeText (cs rest : List Char) :
    units? (cs.flatMap writeChar ++ '"' :: rest) = some (cs.map Char.toNat, rest) := by
  induction cs with
  | nil => rw [List.flatMap_nil, List.nil_append, units?, List.map_nil]
  | cons c cs ih =>
    rw [List.flatMap_cons, List.append_assoc, units?_writeChar, ih, Option.map_some, List.map_cons]

theorem charsOfUnits?_map_toNat (cs : List Char) :
    charsOfUnits? (cs.map Char.toNat) = some cs := by
  induction cs with
  | nil => rfl
  | cons c cs ih =>
    have hvalid : c.toNat < 0xd800 ∨ 0xdfff < c.toNat ∧ c.toNat < 0x110000 := c.valid
    rw [List.map_cons, charsOfUnits?.eq_def]
    simp only
    rw [if_neg (by omega), if_neg (by omega), ih, Char.ofNat_toNat, Option.map_some]

/-- A written text is read as itself. -/
theorem string?_writeText (s : String) (rest : List Char) :
    string? (s.toList.flatMap writeChar ++ '"' :: rest) = some (some s, rest) := by
  simp only [string?, units?_writeText, Option.map_some, charsOfUnits?_map_toNat,
    String.ofList_toList]

/-! ### Values -/

mutual

/-- A document with every number as its text reads. -/
def reread : Json → Json
  | null | unreadable => null
  | bool b => bool b
  | int n => numberOf (Numeral.decimal n)
  | float x => numberOf (floatFormat.write x)
  | text s => text s
  | list items => list (rereadItems items)
  | object fields => object (rereadFields fields)

/-- Items with every number as its text reads. -/
def rereadItems : List Json → List Json
  | [] => []
  | j :: js => j.reread :: rereadItems js

/-- Fields with every number as its text reads. -/
def rereadFields : List (String × Json) → List (String × Json)
  | [] => []
  | (name, j) :: fields => (name, j.reread) :: rereadFields fields

end

/-- The reader gives a written document back, up to its numbers, and what follows it. -/
def Reads (j : Json) : Prop :=
  ∀ n rest, Stops rest → 2 * j.write.length ≤ n →
    value? n (j.writeBefore rest) = some (j.reread, rest)

/-- A text starts neither with a blank nor with the end of an array. -/
def Opens (cs : List Char) : Prop :=
  ∃ c ds, cs = c :: ds ∧ isBlank c = false ∧ c ≠ ']'

theorem skipBlanks_of_opens (h : Opens cs) : skipBlanks cs = cs := by
  obtain ⟨c, ds, rfl, hc, -⟩ := h
  rw [skipBlanks, List.dropWhile_cons, if_neg (by simp [hc])]

theorem punctuation?_bracket_of_opens (h : Opens cs) : punctuation? ']' cs = none := by
  rw [punctuation?, skipBlanks_of_opens h]
  obtain ⟨c, ds, rfl, -, hc⟩ := h
  exact if_neg hc.symm

theorem Spelled.exists_cons (h : Spelled cs) :
    ∃ c ds, cs = c :: ds ∧ ∀ d, d ≠ '-' → d.isDigit = false → c ≠ d := by
  cases h with
  | positive h =>
    obtain ⟨c, ds, rfl, hc⟩ := h.head_isDigit
    refine ⟨c, ds, rfl, ?_⟩
    rintro d - hd rfl
    exact absurd hc (by simp [hd])
  | negative =>
    exact ⟨_, _, rfl, fun d hne _ ↦ hne.symm⟩

theorem Spelled.opens (h : Spelled cs) (rest : List Char) : Opens (cs ++ rest) := by
  obtain ⟨c, ds, rfl, hc⟩ := h.exists_cons
  refine ⟨c, _, rfl, ?_, hc ']' (by decide) (by decide)⟩
  simp only [isBlank, Bool.or_eq_false_iff, beq_eq_false_iff_ne]
  refine ⟨⟨⟨?_, ?_⟩, ?_⟩, ?_⟩ <;> exact hc _ (by decide) (by decide)

theorem opens_writeBefore (j : Json) (rest : List Char) : Opens (j.writeBefore rest) := by
  match j with
  | null | unreadable | text _ | list [] | list (_ :: _) | object [] | object (_ :: _) =>
    exact ⟨_, _, rfl, by decide, by decide⟩
  | bool b => cases b <;> exact ⟨_, _, rfl, by decide, by decide⟩
  | int n => exact (spelled_decimal n).opens rest
  | float x =>
    rw [writeBefore]
    rcases spelled_write x with h | h
    · exact h.opens rest
    · exact h ▸ ⟨_, _, rfl, by decide, by decide⟩

theorem value?_of_spelled (h : Spelled cs) (hrest : Stops rest) (n : Nat) :
    value? (n + 1) (cs ++ rest) = some (numberOf cs, rest) := by
  rw [← h.number? hrest]
  obtain ⟨c, ds, rfl, hc⟩ := h.exists_cons
  have hne (d : Char) (hd : d ≠ '-' ∧ d.isDigit = false) : ¬c = d := hc d hd.1 hd.2
  rw [List.cons_append, value?, if_neg (hne _ (by decide)), if_neg (hne _ (by decide)),
    if_neg (hne _ (by decide)), if_neg (hne _ (by decide)), if_neg (hne _ (by decide)),
    if_neg (hne _ (by decide))]

theorem write_length_pos (j : Json) : 0 < j.write.length := by
  obtain ⟨c, ds, heq, -⟩ := opens_writeBefore j []
  rw [write, heq]
  exact Nat.succ_pos _

/-- What is read in one step is read with enough steps. -/
theorem reads_of_succ {j : Json}
    (h : ∀ n rest, Stops rest → value? (n + 1) (j.writeBefore rest) = some (j.reread, rest)) :
    Reads j := by
  intro n rest hrest hn
  have hpos := j.write_length_pos
  obtain ⟨m, rfl⟩ := Nat.exists_eq_add_one.mpr (show 0 < n by omega)
  exact h m rest hrest

theorem word?_append (word : String) (rest : List Char) :
    word? word (word.toList ++ rest) = some rest := by
  rw [word?, if_pos (by simp), ← String.length_toList, List.drop_left]

theorem value?_null (n : Nat) (rest : List Char) :
    value? (n + 1) ("null".toList ++ rest) = some (null, rest) :=
  congrArg (Option.map (null, ·)) (word?_append "ull" rest)

theorem reads_null : Reads null :=
  reads_of_succ fun n rest _ ↦ value?_null n rest

theorem reads_unreadable : Reads unreadable :=
  reads_of_succ fun n rest _ ↦ value?_null n rest

theorem reads_bool (b : Bool) : Reads (bool b) := by
  refine reads_of_succ fun _ rest _ ↦ ?_
  cases b with
  | false => exact congrArg (Option.map (bool false, ·)) (word?_append "alse" rest)
  | true => exact congrArg (Option.map (bool true, ·)) (word?_append "rue" rest)

theorem reads_int (n : Int) : Reads (int n) :=
  reads_of_succ fun m _ hrest ↦ value?_of_spelled (spelled_decimal n) hrest m

theorem reads_float (x : Float) : Reads (float x) := by
  refine reads_of_succ fun n rest hrest ↦ ?_
  rw [writeBefore, reread]
  rcases spelled_write x with h | h
  · exact value?_of_spelled h hrest n
  · rw [h, value?_null]
    rfl

theorem reads_text (s : String) : Reads (text s) := by
  refine reads_of_succ fun _ _ _ ↦ ?_
  simp [writeBefore, writeText, value?, string?_writeText, reread]

/-! ### Arrays and objects -/

theorem skipBlanks_cons {c : Char} (h : isBlank c = false) (cs : List Char) :
    skipBlanks (c :: cs) = c :: cs := by
  rw [skipBlanks, List.dropWhile_cons, if_neg (by simp [h])]

theorem stops_cons {c : Char} (h : c.isDigit = false ∧ c ≠ '.' ∧ c ≠ 'e' ∧ c ≠ 'E')
    (cs : List Char) : Stops (c :: cs) := by
  rintro d ⟨⟩
  exact h

theorem items?_last {n : Nat} {j : Json} (h : value? n cs = some (j, ']' :: rest)) :
    items? (n + 1) cs = some ([j], rest) := by
  have hend : skipBlanks (']' :: rest) = ']' :: rest := skipBlanks_cons (by decide) rest
  simp only [items?, h, Option.bind_eq_bind, Option.bind_some, hend]
  rfl

theorem items?_more {n : Nat} {j : Json} (h : value? n cs = some (j, ',' :: rest)) :
    items? (n + 1) cs = (items? n (skipBlanks rest)).map fun (js, rest) ↦ (j :: js, rest) := by
  have hcomma : skipBlanks (',' :: rest) = ',' :: rest := skipBlanks_cons (by decide) rest
  simp only [items?, h, Option.bind_eq_bind, Option.bind_some, hcomma]
  cases items? n (skipBlanks rest) <;> rfl

theorem items?_write {j : Json} {js : List Json} (hreads : ∀ k ∈ j :: js, Reads k) {n : Nat}
    (rest : List Char) (hn : 2 * (j.write.length + (writeItems [] js).length) ≤ n) :
    items? n (j.writeBefore (writeItems rest js)) = some (j.reread :: rereadItems js, rest) := by
  -- the comma or bracket after an item pays for the step that goes from one item to the next
  induction js generalizing j n with
  | nil =>
    rw [writeItems, List.length_singleton] at hn
    obtain ⟨m, rfl⟩ := Nat.exists_eq_add_one.mpr (show 0 < n by omega)
    exact items?_last (hreads j List.mem_cons_self m _ (stops_cons (by decide) rest) (by omega))
  | cons k ks ih =>
    rw [writeItems, writeBefore_eq, List.length_cons, List.length_append] at hn
    obtain ⟨m, rfl⟩ := Nat.exists_eq_add_one.mpr (show 0 < n by omega)
    have hks := ih (fun l hl ↦ hreads l (List.mem_cons_of_mem j hl)) (n := m) (by omega)
    rw [writeItems, items?_more (hreads j List.mem_cons_self m _ (stops_cons (by decide) _)
      (by omega)), skipBlanks_of_opens (opens_writeBefore k _), hks]
    rfl

theorem reads_list {items : List Json} (hreads : ∀ j ∈ items, Reads j) : Reads (list items) := by
  intro n rest _ hn
  have hpos := (list items).write_length_pos
  obtain ⟨m, rfl⟩ := Nat.exists_eq_add_one.mpr (show 0 < n by omega)
  cases items with
  | nil => simp [writeBefore, value?, punctuation?, skipBlanks, isBlank, reread, rereadItems]
  | cons j js =>
    rw [write, writeBefore, writeBefore_eq, List.length_cons, List.length_append] at hn
    have hopens := opens_writeBefore j (writeItems rest js)
    rw [writeBefore, value?, if_neg (by decide), if_pos rfl,
      punctuation?_bracket_of_opens hopens, skipBlanks_of_opens hopens]
    simp only
    rw [items?_write hreads rest (by omega)]
    rfl

theorem opens_writeText (s : String) (rest : List Char) : Opens (writeText s ++ rest) :=
  ⟨_, _, rfl, by decide, by decide⟩

theorem punctuation?_colon (hcs : Opens cs) : punctuation? ':' (':' :: cs) = some cs := by
  have hcolon : skipBlanks (':' :: cs) = ':' :: cs := skipBlanks_cons (by decide) cs
  simp only [punctuation?, hcolon, if_true, skipBlanks_of_opens hcs]

theorem fields?_last {n : Nat} {j : Json} (name : String) (hcs : Opens cs)
    (h : value? n cs = some (j, '\x7d' :: rest)) :
    fields? (n + 1) (writeText name ++ ':' :: cs) = some ([(some name, j)], rest) := by
  have hend : skipBlanks ('\x7d' :: rest) = '\x7d' :: rest := skipBlanks_cons (by decide) rest
  simp [fields?, writeText, string?_writeText, punctuation?_colon hcs, h, hend]

theorem fields?_more {n : Nat} {j : Json} (name : String) (hcs : Opens cs)
    (h : value? n cs = some (j, ',' :: rest)) :
    fields? (n + 1) (writeText name ++ ':' :: cs) =
      (fields? n (skipBlanks rest)).map fun (fields, rest) ↦ ((some name, j) :: fields, rest) := by
  have hcomma : skipBlanks (',' :: rest) = ',' :: rest := skipBlanks_cons (by decide) rest
  simp only [fields?, writeText, List.cons_append, List.append_assoc, List.nil_append,
    string?_writeText, punctuation?_colon hcs, h, hcomma, Option.bind_eq_bind, Option.bind_some]
  cases fields? n (skipBlanks rest) <;> rfl

/-- Fields with names that may be missing, none of which is. -/
def named (fields : List (String × Json)) : List (Option String × Json) :=
  fields.map fun (name, j) ↦ (some name, j)

theorem fields?_write {name : String} {j : Json} {fields : List (String × Json)}
    (hreads : ∀ field ∈ (name, j) :: fields, Reads field.2) {n : Nat} (rest : List Char)
    (hn : 2 * (j.write.length + (writeFields [] fields).length) ≤ n) :
    fields? n (writeText name ++ ':' :: j.writeBefore (writeFields rest fields)) =
      some (named ((name, j.reread) :: rereadFields fields), rest) := by
  induction fields generalizing name j n with
  | nil =>
    rw [writeFields, List.length_singleton] at hn
    obtain ⟨m, rfl⟩ := Nat.exists_eq_add_one.mpr (show 0 < n by omega)
    exact fields?_last name (opens_writeBefore j _)
      (hreads _ List.mem_cons_self m _ (stops_cons (by decide) rest) (by simp only; omega))
  | cons field fields ih =>
    obtain ⟨name', k⟩ := field
    rw [writeFields, List.cons_append, List.length_cons, List.length_append, List.length_cons,
      writeBefore_eq, List.length_append] at hn
    obtain ⟨m, rfl⟩ := Nat.exists_eq_add_one.mpr (show 0 < n by omega)
    have hfields : fields? m (writeText name' ++ ':' :: k.writeBefore (writeFields rest fields)) =
        some (named ((name', k.reread) :: rereadFields fields), rest) :=
      ih (fun l hl ↦ hreads l (List.mem_cons_of_mem _ hl)) (by omega)
    have hj := hreads _ List.mem_cons_self m
      (',' :: (writeText name' ++ ':' :: k.writeBefore (writeFields rest fields)))
      (stops_cons (by decide) _) (by simp only; omega)
    have hmore := fields?_more name (opens_writeBefore j _) hj
    rw [skipBlanks_of_opens (opens_writeText name' _), hfields] at hmore
    exact hmore

theorem ofFields_named (fields : List (String × Json)) :
    ofFields (named fields) = object fields := by
  rw [ofFields, named, mapM_map_eq_some]
  exact fun _ _ ↦ rfl

theorem reads_object {fields : List (String × Json)} (hreads : ∀ field ∈ fields, Reads field.2) :
    Reads (object fields) := by
  intro n rest _ hn
  have hpos := (object fields).write_length_pos
  obtain ⟨m, rfl⟩ := Nat.exists_eq_add_one.mpr (show 0 < n by omega)
  cases fields with
  | nil => simp [writeBefore, value?, punctuation?, skipBlanks, isBlank, reread, rereadFields]
  | cons field fields =>
    obtain ⟨name, j⟩ := field
    rw [write, writeBefore, writeBefore_eq] at hn
    simp only [List.length_cons, List.length_append] at hn
    have hopens := opens_writeText name (':' :: j.writeBefore (writeFields rest fields))
    have hbrace : punctuation? '\x7d'
        (writeText name ++ ':' :: j.writeBefore (writeFields rest fields)) = none := by
      rw [punctuation?, skipBlanks_of_opens hopens]
      rfl
    have hfields := fields?_write hreads (n := m) rest (by omega)
    rw [writeBefore, List.cons_append, value?, if_neg (by decide), if_neg (by decide), if_pos rfl,
      hbrace, skipBlanks_of_opens hopens, hfields]
    simp only [Option.bind_eq_bind, Option.bind_some, ofFields_named]
    rfl

mutual

theorem reads : ∀ j : Json, Reads j
  | null => reads_null
  | unreadable => reads_unreadable
  | bool b => reads_bool b
  | int n => reads_int n
  | float x => reads_float x
  | text s => reads_text s
  | list items => reads_list (reads_items items)
  | object fields => reads_object (reads_fields fields)

theorem reads_items : ∀ js : List Json, ∀ j ∈ js, Reads j
  | [] => List.forall_mem_nil _
  | j :: js => List.forall_mem_cons.mpr ⟨j.reads, reads_items js⟩

theorem reads_fields : ∀ fields : List (String × Json), ∀ field ∈ fields, Reads field.2
  | [] => List.forall_mem_nil _
  | (_, j) :: fields => List.forall_mem_cons.mpr ⟨j.reads, reads_fields fields⟩

end

/-- A written document is read back, up to its numbers. -/
theorem read?_write (j : Json) : read? j.write = some j.reread := by
  have hread : value? (2 * j.write.length + 2) (skipBlanks j.write) = some (j.reread, []) := by
    rw [skipBlanks_of_opens (show Opens j.write from opens_writeBefore j [])]
    exact j.reads _ [] stops_nil (by omega)
  simp only [read?, hread]
  rfl

end Stencil.Json
