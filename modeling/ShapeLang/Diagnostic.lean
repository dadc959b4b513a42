import ShapeLang.Problem
import ShapeLang.Span

/-!
# Diagnostics

A problem at a place, with how seriously it is taken. Only errors reject a
program; a warning can be promoted to an error.
-/

namespace ShapeLang

inductive Severity where
  | warning
  | error
  /-- A broken invariant of the checker, never the fault of the program. -/
  | internal
deriving DecidableEq, Repr, Inhabited

def Severity.name : Severity → String
  | warning => "warning"
  | error => "error"
  | internal => "internal compiler error"

structure Diagnostic where
  problem : Problem
  span : Span
  severity : Severity
deriving DecidableEq, Repr, Inhabited

namespace Diagnostic

def error (problem : Problem) (span : Span) : Diagnostic := ⟨problem, span, .error⟩

def warning (problem : Problem) (span : Span) : Diagnostic := ⟨problem, span, .warning⟩

/-- Everything but a warning rejects the program. -/
def isError (d : Diagnostic) : Bool := d.severity != .warning

/-- A warning becomes an error; anything else stays as it is. -/
def promote (d : Diagnostic) : Diagnostic :=
  match d.severity with
  | .warning => { d with severity := .error }
  | _ => d

end Diagnostic

end ShapeLang
