import ShapeLang.Builtin
import ShapeLang.ClassTable.Join
import ShapeLang.Diagnostic
import ShapeLang.Scope
import ShapeLang.Ty.Resolve
import ShapeLang.TypeTerm

/-!
# The state of a check

A check carries the class table, the function types met so far, the frames and
the diagnostics. An operation that fails has recorded why; the only failure
without a record is reading a name whose value failed before.
-/

namespace ShapeLang

structure Checker where
  classes : ClassTable
  builtins : Builtins
  /-- The distinct function types of the program, in the order they were met. -/
  functions : List (List Overload)
  /-- The innermost frame. -/
  frame : Frame
  /-- The frames around it, from the inside out. -/
  outer : List Frame
  diagnostics : List Diagnostic
  warningsAsErrors : Bool
deriving Inhabited

/-- A step of a check. A result of `none` means that the step failed. -/
abbrev Check := StateT Checker (Except Fault)

namespace Checker

def initial (warningsAsErrors : Bool) : Except Fault Checker := do
  let (builtins, classes) ← ClassTable.addBuiltins {}
  let bindings ← Builtin.all.foldlM (fun (m : NameMap Binding) kind => do
    let type ← classes.classValue (builtins.get kind)
    return m.insert kind.name ⟨type, .always, true, false, .null⟩) .empty
  return { classes, builtins, functions := [], frame := ⟨bindings, none, .root⟩, outer := [],
           diagnostics := [], warningsAsErrors }

def errorCount (s : Checker) : Nat := s.diagnostics.countP (·.isError)

def depth (s : Checker) : Nat := s.outer.length + 1

/-- Outside of every branch and function body. -/
def atRoot (s : Checker) : Bool := s.outer.isEmpty

def lookup? (s : Checker) (name : String) : Option Binding := s.frame.bindings.find? name

def builtin (s : Checker) (kind : Builtin) : Ty := s.builtins.object kind

/-- Binds a name in the innermost frame, whatever it was before. -/
def bind (s : Checker) (name : String) (binding : Binding) : Checker :=
  { s with frame := { s.frame with bindings := s.frame.bindings.insert name binding } }

def setReturns (s : Checker) (returns : Option Ty) : Checker :=
  { s with frame := { s.frame with returns } }

/-- Opens a frame that starts with what is bound now. -/
def enter (s : Checker) (kind : FrameKind) : Checker :=
  { s with frame := ⟨s.frame.bindings, none, kind⟩, outer := s.frame :: s.outer }

/-- What the innermost function was declared to return, if any; nothing outside of
functions. -/
def declaredReturn? (s : Checker) : Option (Option Ty) :=
  (s.frame :: s.outer).findSome? fun frame => match frame.kind with
    | .function declared => some declared
    | _ => none

def addDiagnostic (s : Checker) (d : Diagnostic) : Checker :=
  { s with diagnostics := s.diagnostics ++ [d] }

end Checker

namespace Check

def fail {α : Type} (problem : Problem) (span : Span) : Check (Option α) := do
  modify (·.addDiagnostic (.error problem span))
  return none

/-- Records a warning, as an error if warnings are to be. -/
def warn (problem : Problem) (span : Span) : Check Unit :=
  modify fun s =>
    let d := Diagnostic.warning problem span
    s.addDiagnostic (if s.warningsAsErrors then d.promote else d)

/-- Records that one type does not stand for another, and fails. -/
def mismatch {α : Type} (reason : Mismatch) (expected received : Ty) (span : Span) :
    Check (Option α) :=
  match reason with
  | .incompatible => fail (.typeMismatch expected.text received.text) span
  | .unsupported feature => fail (.unimplemented feature) span

/-- Fails unless the received type stands for the expected one. -/
def expectType (received expected : Ty) (span : Span) : Check (Option Unit) := do
  match ← (← get).classes.compare received expected with
  | .ok () => return some ()
  | .error reason => mismatch reason expected received span

/-- The type that an annotation denotes. -/
def resolveTerm (term : TypeTerm) : Check (Option Ty) := do
  match term.lower.resolve (← get).classes.ids with
  | (type, none) => return some type
  | (_, some (.unknownClass name)) => fail (.unknownSymbol name) term.span
  | (_, some (.generics _)) => fail (.unimplemented "Generic types") term.span

/-- The types that several annotations denote; all of them are looked at. -/
def resolveTerms : List TypeTerm → Check (Option (List Ty))
  | [] => return some []
  | term :: terms => do
      let first ← resolveTerm term
      let others ← resolveTerms terms
      match first, others with
      | some type, some types => return some (type :: types)
      | _, _ => return none

/-- Adds a function type to the list unless it is there already. -/
def registerFunction (overloads : List Overload) : Check Unit :=
  modify fun s =>
    if s.functions.contains overloads then s
    else { s with functions := s.functions ++ [overloads] }

end Check

end ShapeLang
