import Stencil.Text.Lexeme

/-!
# Variable paths

A path names a variable and the steps from its value inwards: `%user.tags[0]["first"]`.

## Main definitions

* `Path`, `Path.Step`: a path and its steps.
* `Path.write`: the text of a path.
* `Path.compile?`: the path that a whole text spells.
* `Path.atStart?`: the path at the start of a text, and its length.
-/

namespace Stencil

/-- One step from a value to a part of it. -/
inductive Path.Step
  /-- `.name`. -/
  | field (name : String)
  /-- `[3]`. -/
  | position (i : Int64)
  /-- `["name"]`. -/
  | entry (name : String)
  deriving DecidableEq, Repr

/-- A variable and the steps to a part of its value. -/
structure Path where
  base : String
  steps : List Path.Step
  deriving DecidableEq, Repr

namespace Path

/-- The text of a step. -/
def Step.write : Step → List Char
  | field name => '.' :: name.toList
  | position i => '[' :: Numeral.decimal i.toInt ++ [']']
  | entry name => '[' :: Text.quote name.toList ++ [']']

/-- The text of a path. -/
def write (p : Path) : List Char :=
  '%' :: p.base.toList ++ p.steps.flatMap Step.write

/-- The step that stands between brackets. Digits past the range of integers can address no item
and are kept as a name. -/
def indexStep (inner : List Char) : Step :=
  if inner.head? = some '"' ∨ inner.head? = some '\'' then
    .entry (String.ofList (Text.unquote inner))
  else
    match Numeral.integer? inner with
    | some i => .position i
    | none => .entry (String.ofList inner)

/-- The step at the start of a text, and its length. -/
def step? (cs : List Char) : Option (Step × Nat) :=
  match Text.selectorLength? cs with
  | some n => some (.field (String.ofList ((cs.take n).drop 1)), n)
  | none => (Text.bracketLength? cs).map fun n ↦ (indexStep ((cs.take (n - 1)).drop 1), n)

theorem stepLength?_of_step? {cs : List Char} {s : Step} {n : Nat} (h : step? cs = some (s, n)) :
    Text.stepLength? cs = some n := by
  unfold step? at h
  unfold Text.stepLength?
  split at h <;> simp_all

/-- The steps that a text consists of. -/
def steps? (cs : List Char) : Option (List Step) :=
  if cs = [] then some []
  else
    match _h : step? cs with
    | some (s, n) => (steps? (cs.drop n)).map (s :: ·)
    | none => none
termination_by cs.length
decreasing_by exact Text.length_drop_lt (Text.stepLength?_pos (stepLength?_of_step? ‹_›))

/-- The path that a whole text spells. -/
def compile? : List Char → Option Path
  | '%' :: cs =>
    let n := Text.wordLength cs
    if n = 0 then none
    else (steps? (cs.drop n)).map fun steps ↦ ⟨String.ofList (cs.take n), steps⟩
  | _ => none

/-- The path at the start of a text, and how many characters it takes. -/
def atStart? (cs : List Char) : Option (Path × Nat) := do
  let n ← Text.pathLength? cs
  let path ← compile? (cs.take n)
  return (path, n)

end Path

end Stencil
