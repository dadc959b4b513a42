/-!
# Faults

What ends a run before its time. Most faults are broken invariants of the checker,
and no program reaches them. The one that a program can reach is that a tuple gets
more elements than a machine word counts.
-/

namespace ShapeLang

/-- A class is known by its place in the class table. -/
abbrev ClassId := Nat

inductive Fault where
  | classOutOfRange (id : ClassId)
  | unresolvedObject (name : String)
  | registeredTwice (name : String)
  | builtinDeclaredTwice (name : String)
  | branchNotEntered
  | functionNotEntered
  | scopesOpen (count : Nat)
  /-- Class values that mention each other in their fields have no finite comparison. -/
  | endlessComparison
  | countOverflow
deriving DecidableEq, Repr, Inhabited

def Fault.message : Fault → String
  | classOutOfRange id => s!"class id {id} out of range"
  | unresolvedObject name => "object type `" ++ name ++ "` used before verification"
  | registeredTwice name => "class `" ++ name ++ "` registered twice"
  | builtinDeclaredTwice name => "builtin class `" ++ name ++ "` declared twice"
  | branchNotEntered => "left a branch that was never entered"
  | functionNotEntered => "left a function that was never entered"
  | scopesOpen count => s!"{count} scopes still open after checking"
  | endlessComparison => "comparison of class values does not end"
  | countOverflow => "attempt to add with overflow"

end ShapeLang
