import Stencil.Program.Stored
import Stencil.Proofs.JsonText
import Stencil.Proofs.Literals

/-!
# Stored programs are loaded

Loading undoes storing: paths, operators, blocks and warnings come back as they were, however
deeply they are nested. Only literals pass through a format that does not tell all of them apart,
so that what is loaded is the program with each literal as its text reads. Literals without
floating-point numbers read as themselves.

## Main definitions

* `Value.reread?`: a value as it is read from its text.
* `Value.inOrder`, `Value.holdsFloat`: whether the keys of all maps increase, and whether there is a
  floating-point number at any depth.

## Main results

* `Program.load_store`: what is loaded is the program with every literal as its text reads.
* `Value.reread?_of_inOrder`: a value without floating-point numbers reads as itself.
* `Program.load_store_of_inOrder`: a program without floating-point numbers is loaded as itself.
-/

namespace Stencil

/-! ### Documents -/

namespace Json

theorem rereadItems_eq_map (js : List Json) : rereadItems js = js.map reread := by
  induction js with
  | nil => rfl
  | cons j js ih => rw [rereadItems, ih, List.map_cons]

theorem reread_tag (name : String) (j : Json) : (tag name j).reread = tag name j.reread :=
  rfl

theorem reread_word (n : Int64) : (int n.toInt).reread = int n.toInt := by
  have hlow := n.le_toInt
  have hhigh := n.toInt_lt
  exact numberOf_decimal (by omega) (by omega)

theorem reread_offset {n : Nat} (h : n < 2 ^ 64) : (int n).reread = int n := by
  have hlow : -2 ^ 63 ≤ (n : Int) := by omega
  have hhigh : (n : Int) < 2 ^ 64 := by omega
  exact numberOf_decimal hlow hhigh

theorem offset?_int {n : Nat} (h : n < 2 ^ 64) : (int n).offset? = some n := by
  rw [offset?, if_pos ⟨by omega, by omega⟩, Int.toNat_natCast]

mutual

/-- Reading numbers anew makes no document shallower. -/
theorem depth_le_depth_reread : ∀ j : Json, j.depth ≤ j.reread.depth
  | null | unreadable | bool _ | int _ | float _ | text _ => Nat.zero_le _
  | list items => Nat.succ_le_succ (depthItems_le_depthItems_reread items)
  | object fields => Nat.succ_le_succ (depthFields_le_depthFields_reread fields)

theorem depthItems_le_depthItems_reread :
    ∀ js : List Json, depthItems js ≤ depthItems (rereadItems js)
  | [] => Nat.le_refl _
  | j :: js => by
    have hj := j.depth_le_depth_reread
    have hjs := depthItems_le_depthItems_reread js
    simp only [depthItems, rereadItems]
    omega

theorem depthFields_le_depthFields_reread :
    ∀ fields : List (String × Json), depthFields fields ≤ depthFields (rereadFields fields)
  | [] => Nat.le_refl _
  | (_, j) :: fields => by
    have hj := j.depth_le_depth_reread
    have hfields := depthFields_le_depthFields_reread fields
    simp only [depthFields, rereadFields]
    omega

end

end Json

/-! ### Paths, expressions, nodes, diagnostics -/

/-- A value as it is read from its text, if it is. -/
def Value.reread? (v : Value) : Option Value :=
  ofJson? v.toJson.reread

namespace Path

theorem Step.ofJson?_reread (s : Step) : ofJson? s.toJson.reread = some s := by
  cases s with
  | field name => rfl
  | entry name => rfl
  | position i =>
    rw [toJson, Json.reread_tag, Json.reread_tag, Json.reread_word]
    simp [ofJson?, ofIndex?, Json.tag, Json.tagged?, Json.int?, Numeral.word?_toInt]

theorem ofJson?_reread (p : Path) : ofJson? p.toJson.reread = some p := by
  have hsteps : (Json.rereadItems (p.steps.map Step.toJson)).mapM Step.ofJson? = some p.steps := by
    rw [Json.rereadItems_eq_map, List.map_map]
    exact mapM_map_eq_some fun s _ ↦ s.ofJson?_reread
  simp [toJson, ofJson?, Json.reread, Json.rereadFields, Json.parts?, Json.text?, Json.items,
    hsteps]

end Path

namespace Expr

theorem exists_tag (e : Expr) : ∃ name j, e.toJson.reread = .object [(name, j)] := by
  match e with
  | path _ | literal _ | call _ (some _) | call _ none | unary _ _ | chain _ _ | group _ =>
    exact ⟨_, _, rfl⟩

open Json in
mutual

theorem ofJsonWithin?_reread : ∀ (e : Expr) {n : Nat}, e.toJson.depth < n →
    ofJsonWithin? n e.toJson.reread = e.mapLiterals? Value.reread?
  | _, 0, h => absurd h (Nat.not_lt_zero _)
  | path p, n + 1, _ => by
    simp [toJson, tag, reread, rereadFields, ofJsonWithin?, tagged?, mapLiterals?,
      p.ofJson?_reread]
  | literal v, n + 1, _ => by
    simp [toJson, tag, reread, rereadFields, ofJsonWithin?, tagged?, mapLiterals?, Value.reread?]
  | call f (some arg), n + 1, h => by
    have hdepth : arg.toJson.depth < n := by
      simp only [toJson, tag, Json.depth, depthFields] at h
      omega
    have harg := arg.ofJsonWithin?_reread hdepth
    -- an argument is never written as null, which would stand for no argument
    obtain ⟨name, j, hj⟩ := arg.exists_tag
    rw [hj] at harg
    simp only [toJson, tag, reread, rereadFields, ofJsonWithin?, tagged?, mapLiterals?, hj]
    simp [parts?, bare?, alternative?, f.ofWord?_word, harg, Option.map_eq_bind]
  | call f none, n + 1, _ => by
    simp [toJson, tag, reread, rereadFields, ofJsonWithin?, tagged?, mapLiterals?, parts?, bare?,
      alternative?, f.ofWord?_word]
  | unary op operand, n + 1, h => by
    have hdepth : operand.toJson.depth < n := by
      simp only [toJson, tag, Json.depth, depthFields] at h
      omega
    simp only [toJson, tag, reread, rereadFields, ofJsonWithin?, tagged?, mapLiterals?]
    simp [parts?, bare?, alternative?, op.ofWord?_word, operand.ofJsonWithin?_reread hdepth,
      Option.map_eq_bind]
  | chain first rest, n + 1, h => by
    have hdepth : first.toJson.depth < n ∧ depthItems (toJsonRest rest) < n := by
      simp only [toJson, tag, Json.depth, depthFields] at h
      omega
    simp [toJson, tag, reread, rereadFields, ofJsonWithin?, tagged?, mapLiterals?, parts?, items,
      first.ofJsonWithin?_reread hdepth.1, mapM_ofPair?_reread rest hdepth.2]
  | group inner, n + 1, h => by
    have hdepth : inner.toJson.depth < n := by
      simp only [toJson, tag, Json.depth, depthFields] at h
      omega
    simp [toJson, tag, reread, rereadFields, ofJsonWithin?, tagged?, mapLiterals?,
      inner.ofJsonWithin?_reread hdepth]

theorem mapM_ofPair?_reread : ∀ (rest : List (BinaryOp × Expr)) {n : Nat},
    depthItems (toJsonRest rest) < n →
      (rereadItems (toJsonRest rest)).mapM (ofPair? (ofJsonWithin? n)) =
        mapLiteralsRest? Value.reread? rest
  | [], _, _ => rfl
  | (op, e) :: rest, n, h => by
    have hdepth : e.toJson.depth < n ∧ depthItems (toJsonRest rest) < n := by
      simp only [toJsonRest, Json.depth, depthItems] at h
      omega
    simp only [toJsonRest, rereadItems, reread, List.mapM_cons, mapM_ofPair?_reread rest hdepth.2,
      mapLiteralsRest?]
    simp [ofPair?, bare?, alternative?, op.ofWord?_word, e.ofJsonWithin?_reread hdepth.1,
      Option.bind_assoc]

end

/-- A stored expression is read as itself, up to its literals. -/
theorem ofJson?_reread (e : Expr) : ofJson? e.toJson.reread = e.mapLiterals? Value.reread? :=
  e.ofJsonWithin?_reread (Nat.lt_succ_of_le e.toJson.depth_le_depth_reread)

end Expr

namespace Node

open Json in
mutual

theorem ofJsonWithin?_reread : ∀ (node : Node) {n : Nat}, node.toJson.depth < n →
    ofJsonWithin? n node.toJson.reread = node.mapLiterals? Value.reread?
  | _, 0, h => absurd h (Nat.not_lt_zero _)
  | text _, _ + 1, _ => rfl
  | .variable p, n + 1, _ => by
    simp [toJson, tag, reread, rereadFields, ofJsonWithin?, tagged?, mapLiterals?,
      p.ofJson?_reread]
  | conditional branches (some body), n + 1, h => by
    have hdepth : depthItems (toJsonBranches branches) < n ∧ depthItems (toJsonList body) < n := by
      simp only [toJson, tag, Json.depth, depthFields] at h
      omega
    simp [toJson, tag, reread, rereadFields, ofJsonWithin?, tagged?, mapLiterals?, parts?, items,
      ofList?, mapM_ofBranch?_reread branches hdepth.1, mapM_ofJsonWithin?_reread body hdepth.2]
  | conditional branches none, n + 1, h => by
    have hdepth : depthItems (toJsonBranches branches) < n := by
      simp only [toJson, tag, Json.depth, depthFields] at h
      omega
    simp only [toJson, tag, reread, rereadFields, ofJsonWithin?, tagged?, mapLiterals?]
    simp [parts?, items, mapM_ofBranch?_reread branches hdepth, Option.map_eq_bind]

theorem mapM_ofJsonWithin?_reread : ∀ (nodes : List Node) {n : Nat},
    depthItems (toJsonList nodes) < n →
      (rereadItems (toJsonList nodes)).mapM (ofJsonWithin? n) =
        mapLiteralsList? Value.reread? nodes
  | [], _, _ => rfl
  | node :: nodes, n, h => by
    have hdepth : node.toJson.depth < n ∧ depthItems (toJsonList nodes) < n := by
      simp only [toJsonList, depthItems] at h
      omega
    simp [toJsonList, rereadItems, mapLiteralsList?, node.ofJsonWithin?_reread hdepth.1,
      mapM_ofJsonWithin?_reread nodes hdepth.2]

theorem mapM_ofBranch?_reread : ∀ (branches : List (Expr × List Node)) {n : Nat},
    depthItems (toJsonBranches branches) < n →
      (rereadItems (toJsonBranches branches)).mapM (ofBranch? (ofJsonWithin? n)) =
        mapLiteralsBranches? Value.reread? branches
  | [], _, _ => rfl
  | (test, body) :: branches, n, h => by
    have hdepth : depthItems (toJsonList body) < n ∧ depthItems (toJsonBranches branches) < n := by
      simp only [toJsonBranches, Json.depth, depthItems, depthFields] at h
      omega
    simp only [toJsonBranches, rereadItems, reread, rereadFields, List.mapM_cons,
      mapM_ofBranch?_reread branches hdepth.2, mapLiteralsBranches?]
    simp [ofBranch?, ofList?, parts?, items, test.ofJson?_reread,
      mapM_ofJsonWithin?_reread body hdepth.1, Option.bind_assoc]

end

/-- A stored node is read as itself, up to its literals. -/
theorem ofJson?_reread (node : Node) :
    ofJson? node.toJson.reread = node.mapLiterals? Value.reread? :=
  node.ofJsonWithin?_reread (Nat.lt_succ_of_le node.toJson.depth_le_depth_reread)

theorem mapM_ofJson?_reread (nodes : List Node) :
    (Json.rereadItems (toJsonList nodes)).mapM ofJson? = mapLiteralsList? Value.reread? nodes := by
  induction nodes with
  | nil => rfl
  | cons node nodes ih =>
    simp [toJsonList, Json.rereadItems, mapLiteralsList?, node.ofJson?_reread, ih]

end Node

theorem Diagnostic.ofJson?_reread {d : Diagnostic} (h : d.offset < 2 ^ 64) :
    ofJson? d.toJson.reread = some d := by
  simp only [toJson, Json.reread.eq_8, Json.rereadFields, Json.reread_offset h]
  simp [ofJson?, Json.reread, Json.parts?, Json.bare?, Json.alternative?, Json.text?, Json.bool?,
    Json.offset?_int h, Fault.ofName?_name]

/-! ### Programs -/

namespace Program

theorem ofJson?_reread {p : Program} (h : ∀ d ∈ p.warnings, d.offset < 2 ^ 64) :
    ofJson? p.toJson.reread = (p.mapLiterals? Value.reread?).map (format, ·) := by
  have hwarnings : (Json.rereadItems (p.warnings.map Diagnostic.toJson)).mapM Diagnostic.ofJson? =
      some p.warnings := by
    rw [Json.rereadItems_eq_map, List.map_map]
    exact mapM_map_eq_some fun d hd ↦ Diagnostic.ofJson?_reread (h d hd)
  simp [toJson, ofJson?, Json.reread, Json.rereadFields, Json.parts?, Json.text?, Json.items,
    Node.ofList?, Node.mapM_ofJson?_reread, hwarnings, mapLiterals?, Option.map_eq_bind,
    Option.bind_assoc]

/-- What is loaded from the text of a program is the program with every literal as its text reads,
if each of them reads as a value. -/
theorem load_store {p : Program} (h : ∀ d ∈ p.warnings, d.offset < 2 ^ 64) :
    load p.store = match p.mapLiterals? Value.reread? with
      | some q => .ok q
      | none => .error .malformed := by
  rw [load, store, String.toList_ofList, Json.read?_write, Option.bind_some, ofJson?_reread h]
  cases p.mapLiterals? Value.reread? <;> rfl

end Program

/-! ### Values without floating-point numbers -/

namespace Entries

variable {α : Type} {entries : Entries α}

theorem put_of_forall_lt {name : String} (h : ∀ e ∈ entries, e.1 < name) (a : α) :
    put entries name a = entries ++ [(name, a)] := by
  induction entries with
  | nil => rfl
  | cons e rest ih =>
    have hlt := h e List.mem_cons_self
    have hne : name ≠ e.1 := by
      rintro rfl
      exact String.lt_irrefl _ hlt
    rw [put, if_neg hne, if_neg (String.lt_asymm hlt),
      ih fun e he ↦ h e (List.mem_cons_of_mem _ he), List.cons_append]

theorem merge_of_pairwise {more : Entries α}
    (h : (entries ++ more).Pairwise fun e e' ↦ e.1 < e'.1) :
    merge entries more = entries ++ more := by
  induction more generalizing entries with
  | nil => rw [merge, List.foldl_nil, List.append_nil]
  | cons e more ih =>
    have hlt : ∀ e' ∈ entries, e'.1 < e.1 := fun e' he' ↦
      (List.pairwise_append.mp h).2.2 e' he' e List.mem_cons_self
    have hput : put entries e.1 e.2 = entries ++ [e] := put_of_forall_lt hlt e.2
    rw [List.append_cons] at h ⊢
    rw [← ih h, merge, List.foldl_cons, hput, merge]

/-- Entries in order stay as they are. -/
theorem ofList_of_pairwise (h : entries.Pairwise fun e e' ↦ e.1 < e'.1) :
    ofList entries = entries :=
  merge_of_pairwise h

end Entries

namespace Value

mutual

/-- Whether the keys of a map increase, as they do in every map of a running program; the same at
every depth. -/
def inOrder : Value → Bool
  | list items => inOrderItems items
  | map entries => decide (entries.Pairwise fun e e' ↦ e.1 < e'.1) && inOrderEntries entries
  | _ => true

/-- Whether the maps in some items are in order. -/
def inOrderItems : List Value → Bool
  | [] => true
  | v :: vs => v.inOrder && inOrderItems vs

/-- Whether the maps in some entries are in order. -/
def inOrderEntries : List (String × Value) → Bool
  | [] => true
  | (_, v) :: es => v.inOrder && inOrderEntries es

end

mutual

/-- Whether a value holds a floating-point number at any depth. -/
def holdsFloat : Value → Bool
  | float _ => true
  | list items => holdsFloatItems items
  | map entries => holdsFloatEntries entries
  | _ => false

/-- Whether some item holds a floating-point number. -/
def holdsFloatItems : List Value → Bool
  | [] => false
  | v :: vs => v.holdsFloat || holdsFloatItems vs

/-- Whether some entry holds a floating-point number. -/
def holdsFloatEntries : List (String × Value) → Bool
  | [] => false
  | (_, v) :: es => v.holdsFloat || holdsFloatEntries es

end

theorem reread?_int (n : Int64) : (int n).reread? = some (int n) := by
  rw [reread?, toJson, Json.reread_word, ofJson?, Numeral.word?_toInt, Option.map_some,
    Option.getD_some]

mutual

/-- A value without floating-point numbers reads as itself. -/
theorem reread?_of_inOrder : ∀ {v : Value}, v.inOrder = true → v.holdsFloat = false →
    v.reread? = some v
  | null, _, _ | bool _, _, _ | text _, _, _ => rfl
  | int n, _, _ => reread?_int n
  | float _, _, h => nomatch h
  | list items, horder, hfloat => by
    have hitems : ofJsonItems? (Json.rereadItems (toJsonItems items)) = some items :=
      ofJsonItems?_of_inOrder horder hfloat
    simp [reread?, toJson, Json.reread, ofJson?, hitems]
  | map entries, horder, hfloat => by
    simp only [inOrder, Bool.and_eq_true, decide_eq_true_eq] at horder
    have hentries : ofJsonFields? (Json.rereadFields (toJsonEntries entries)) = some entries :=
      ofJsonFields?_of_inOrder horder.2 hfloat
    simp [reread?, toJson, Json.reread, ofJson?, hentries, Entries.ofList_of_pairwise horder.1]

theorem ofJsonItems?_of_inOrder : ∀ {vs : List Value}, inOrderItems vs = true →
    holdsFloatItems vs = false → ofJsonItems? (Json.rereadItems (toJsonItems vs)) = some vs
  | [], _, _ => rfl
  | v :: vs, horder, hfloat => by
    simp only [inOrderItems, Bool.and_eq_true] at horder
    simp only [holdsFloatItems, Bool.or_eq_false_iff] at hfloat
    have hv := reread?_of_inOrder horder.1 hfloat.1
    rw [reread?] at hv
    simp [toJsonItems, Json.rereadItems, ofJsonItems?, hv,
      ofJsonItems?_of_inOrder horder.2 hfloat.2]

theorem ofJsonFields?_of_inOrder : ∀ {es : List (String × Value)}, inOrderEntries es = true →
    holdsFloatEntries es = false →
      ofJsonFields? (Json.rereadFields (toJsonEntries es)) = some es
  | [], _, _ => rfl
  | (_, v) :: es, horder, hfloat => by
    simp only [inOrderEntries, Bool.and_eq_true] at horder
    simp only [holdsFloatEntries, Bool.or_eq_false_iff] at hfloat
    have hv := reread?_of_inOrder horder.1 hfloat.1
    rw [reread?] at hv
    simp [toJsonEntries, Json.rereadFields, ofJsonFields?, hv,
      ofJsonFields?_of_inOrder horder.2 hfloat.2]

end

end Value

namespace Program

/-- A program without floating-point numbers is loaded from its text as itself: any nesting of
nodes and expressions, any texts, any literals, any warnings with offsets that fit a word. -/
theorem load_store_of_inOrder {p : Program}
    (horder : ∀ v ∈ p.literals, v.inOrder = true)
    (hfloat : ∀ v ∈ p.literals, v.holdsFloat = false)
    (hwarnings : ∀ d ∈ p.warnings, d.offset < 2 ^ 64) : load p.store = .ok p := by
  have hsame : p.mapLiterals? Value.reread? = some p :=
    mapLiterals?_eq_some fun v hv ↦ Value.reread?_of_inOrder (horder v hv) (hfloat v hv)
  rw [load_store hwarnings, hsame]

/-- A program with nested blocks, an else part without nodes, a literal that holds lists and maps,
texts with quotes, control and wide characters, and a warning. -/
def manifold : Program where
  version := currentVersion
  nodes :=
    [.text "say \"hi\"\n\\\x01é",
      .conditional
        [(.chain (.call .length (some (.path ⟨"x", [.field "a", .position (-3), .entry "k"]⟩)))
            [(.eq, .literal (.list [.null, .map [("a", .int (-1)), ("b", .list [])]]))],
          [.conditional [(.unary .not (.group (.call .uppercase none)), [.variable ⟨"y", []⟩])]
            none])]
        (some [])]
  warnings := [Fault.singleEquals.about 12 "="]

theorem load_store_manifold : load manifold.store = .ok manifold :=
  load_store_of_inOrder (by decide +kernel) (by decide +kernel) (by decide)

end Program

end Stencil
