import ShapeLang.Checker.Walk

/-!
# Checked programs

What a check hands on: the classes, the function types, the top-level bindings
and the diagnostics. The types of expressions stay in the slots of the tree.
-/

namespace ShapeLang

structure Checked where
  classes : ClassTable
  builtins : Builtins
  functions : List (List Overload)
  globals : NameMap Binding
  diagnostics : List Diagnostic
deriving Inhabited

namespace Checked

def errors (c : Checked) : List Diagnostic := c.diagnostics.filter (·.isError)

def warnings (c : Checked) : List Diagnostic := c.diagnostics.filter (!·.isError)

def isOk (c : Checked) : Bool := c.errors.isEmpty

end Checked

/-- Ends a check; only the root frame may be open. -/
def Checker.finish (s : Checker) : Except Fault Checked :=
  if s.atRoot then
    .ok ⟨s.classes, s.builtins, s.functions, s.frame.bindings, s.diagnostics⟩
  else .error (.scopesOpen s.outer.length)

/-- Checks a program: the tree with its slots filled, and whether every statement went
well. -/
def Check.checkProgram (p : Program) : Check (Program × Bool) := do
  let (body, ok) ← checkStmts p.body
  return (⟨body, p.span⟩, ok)

def Program.check (p : Program) (warningsAsErrors : Bool) : Except Fault (Program × Checked) := do
  let start ← Checker.initial warningsAsErrors
  let ((p, _), s) ← (Check.checkProgram p).run start
  return (p, ← s.finish)

end ShapeLang
