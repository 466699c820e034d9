import Stencil.Template.Scan

/-!
# Programs

A template that compiles becomes a program: its nodes and the warnings about it. A template that
does not compile gives every diagnostic of the run.

## Main definitions

* `Program`: a compiled template.
* `Program.compile`: the program of a template, or what is wrong with it.
* `Program.same`: equality of programs, literals being compared as values.
-/

namespace Stencil

/-- A compiled template. -/
structure Program where
  /-- The version of the compiler that made it. -/
  version : String
  nodes : List Node
  /-- The diagnostics that are no errors. -/
  warnings : Log

namespace Program

/-- The version that new programs carry. -/
def currentVersion : String := "0.4.1"

/-- The program of a template, or all diagnostics of a run with an error. -/
def compile (d : Delimiters) (template : String) : Except Log Program := do
  let s ← Template.scan d template.toList
  if s.finalLog.hasErrors then .error s.finalLog
  else return ⟨currentVersion, s.nodes, s.finalLog⟩

/-- Whether two programs are equal, their literals compared as values. -/
def same (p q : Program) : Bool :=
  p.version == q.version && Node.sameList p.nodes q.nodes && p.warnings == q.warnings

end Program

end Stencil
