import ShapeLang.Ty

/-!
# Resolving class names

Instances written in an annotation name their class. Resolving looks every name
up, from left to right, and stops at the first that has no class or that carries
type arguments; what was resolved before stays resolved.
-/

namespace ShapeLang

inductive Unresolved where
  | unknownClass (name : String)
  | generics (name : String)
deriving DecidableEq, Repr, Inhabited

variable (ids : NameMap ClassId)

mutual

/-- The type with the classes of its names filled in, and why that stopped if it did. -/
def Ty.resolve : Ty → Ty × Option Unresolved
  | .object name id [] =>
      match ids.find? name with
      | some found => (.object name (some found) [], none)
      | none => (.object name id [], some (.unknownClass name))
  | .object name id (g :: gs) => (.object name id (g :: gs), some (.generics name))
  | .func os => let (os, stop) := Ty.resolveOverloads os; (.func os, stop)
  | .array item => let (item, stop) := item.resolve; (.array item, stop)
  | .maybe item => let (item, stop) := item.resolve; (.maybe item, stop)
  | .tuple r => let (r, stop) := Ty.resolveRuns r; (.tuple r, stop)
  | .spread r => let (r, stop) := Ty.resolveRuns r; (.spread r, stop)
  | .classValue id name => (.classValue id name, none)
  | .noneType => (.noneType, none)

def Ty.resolveList : List Ty → List Ty × Option Unresolved
  | [] => ([], none)
  | a :: as =>
      match a.resolve with
      | (a, some stop) => (a :: as, some stop)
      | (a, none) => let (as, stop) := Ty.resolveList as; (a :: as, stop)

def Ty.resolveRuns : Runs Ty → Runs Ty × Option Unresolved
  | .nil => (.nil, none)
  | .cons a n r =>
      match a.resolve with
      | (a, some stop) => (.cons a n r, some stop)
      | (a, none) => let (r, stop) := Ty.resolveRuns r; (.cons a n r, stop)

def Ty.resolveOverloads : List Overload → List Overload × Option Unresolved
  | [] => ([], none)
  | o :: os =>
      match o.resolve with
      | (o, some stop) => (o :: os, some stop)
      | (o, none) => let (os, stop) := Ty.resolveOverloads os; (o :: os, stop)

def Overload.resolve : Overload → Overload × Option Unresolved
  | ⟨g :: gs, params, result⟩ => (⟨g :: gs, params, result⟩, some (.generics g))
  | ⟨[], params, result⟩ =>
      match Ty.resolveList params with
      | (params, some stop) => (⟨[], params, result⟩, some stop)
      | (params, none) => let (result, stop) := result.resolve; (⟨[], params, result⟩, stop)

end

end ShapeLang
