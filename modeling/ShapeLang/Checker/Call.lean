import ShapeLang.Checker

/-!
# Calls, members and conditions

A call takes the first overload whose parameters the arguments can stand for.
Operators are fields of the class of their left operand. A condition needs a
class that casts to the truth values.
-/

namespace ShapeLang

/-- The first candidate that takes the arguments, with its index counted from `index`. -/
def ClassTable.firstViable? {α : Type} (t : ClassTable) (params : α → List Ty)
    (arguments : List Ty) (index : Nat) :
    List α → Except Fault (Except Mismatch (Option (Nat × α)))
  | [] => .ok (.ok none)
  | candidate :: others =>
      if (params candidate).length != arguments.length then
        t.firstViable? params arguments (index + 1) others
      else do
        match ← t.acceptAll t.satisfies (params candidate) arguments with
        | .ok () => return .ok (some (index, candidate))
        | .error .incompatible => t.firstViable? params arguments (index + 1) others
        | .error reason => return .error reason

/-- Whether an overload turns a value into a truth value without arguments. -/
def Builtins.isTruthCast (b : Builtins) (o : Overload) : Bool :=
  o.generics.isEmpty && o.params.isEmpty && b.is o.result .bool

/-- Whether values of the class can be conditions. -/
def Builtins.castsToTruth (b : Builtins) (c : Class) : Bool :=
  ["=>", "toBool"].any fun name =>
    (((c.fields.find? name).bind Ty.overloads?).getD []).any b.isTruthCast

namespace Check

/-- Picks the first candidate that takes the arguments. If there is a single candidate
and it takes another number of arguments, that is what is reported. -/
def selectOverload {α : Type} (callee : String) (params : α → List Ty) (candidates : List α)
    (arguments : List Ty) (span : Span) : Check (Option (Nat × α)) := do
  match ← (← get).classes.firstViable? params arguments 0 candidates with
  | .error reason => mismatch reason .noneType .noneType span
  | .ok (some found) => return some found
  | .ok none =>
      let unmatched : Problem := .noMatchingOverload callee (Ty.argumentText arguments)
      match candidates with
      | [only] =>
          if (params only).length != arguments.length then
            fail (.arityMismatch (params only).length arguments.length) span
          else fail unmatched span
      | _ => fail unmatched span

/-- The overload that a call of a function takes and the type it gives. -/
def call (callee : String) (overloads : List Overload) (arguments : List Ty) (span : Span) :
    Check (Option (Nat × Ty)) := do
  match ← selectOverload callee Overload.params overloads arguments span with
  | some (index, overload) => return some (index, overload.result)
  | none => return none

/-- The constructor that a construction takes. A class without constructors is
constructed without arguments, by none. -/
def construct (id : ClassId) (arguments : List Ty) (span : Span) :
    Check (Option (Option Nat)) := do
  let c ← (← get).classes.get id
  if c.constructors.isEmpty && arguments.isEmpty then return some none
  else
    match ← selectOverload c.name (fun params => params) c.constructors arguments span with
    | some (index, _) => return some (some index)
    | none => return none

def member (receiver : Ty) (name : String) (span : Span) : Check (Option Ty) := do
  match receiver.objectClass? with
  | none => fail (.notAnObject receiver.text) span
  | some id =>
      let c ← (← get).classes.get id
      match c.fields.find? name with
      | some type => return some type
      | none => fail (.noSuchMember c.name name) span

def callMember (receiver : Ty) (name : String) (arguments : List Ty) (span : Span) :
    Check (Option (Nat × Ty)) := do
  match ← member receiver name span with
  | none => return none
  | some (.func overloads) => call name overloads arguments span
  | some other => fail (.typeMismatch "function" other.text) span

/-- Calls a function or constructs an instance of a class: the overload, if one was
selected, and the type. -/
def callValue (callee : String) (value : Ty) (arguments : List Ty) (span : Span) :
    Check (Option (Option Nat × Ty)) := do
  match value with
  | .func overloads =>
      match ← call callee overloads arguments span with
      | some (index, type) => return some (some index, type)
      | none => return none
  | .classValue id name =>
      match ← construct id arguments span with
      | some overload => return some (overload, .instanceOf id name)
      | none => return none
  | other => fail (.typeMismatch "function" other.text) span

def constructValue (value : Ty) (arguments : List Ty) (span : Span) :
    Check (Option (Option Nat × Ty)) := do
  match value with
  | .classValue id name =>
      match ← construct id arguments span with
      | some overload => return some (overload, .instanceOf id name)
      | none => return none
  | other => fail (.typeMismatch "class" other.text) span

/-- Fails unless values of the type can be conditions. -/
def checkCondition (type : Ty) (span : Span) : Check (Option Unit) := do
  let s ← get
  let accepted ← match type.objectClass? with
    | none => pure false
    | some id => do
        let c ← s.classes.get id
        pure (s.builtins.castsToTruth c)
  if accepted then return some ()
  else fail (.typeMismatch Builtin.bool.name type.text) span

/-- The cast from one type to exactly another. -/
def castTo (value target : Ty) (span : Span) : Check (Option (Nat × Ty)) := do
  let s ← get
  let overloads ← match value.objectClass? with
    | none => pure []
    | some id => do
        let c ← s.classes.get id
        pure (((c.fields.find? "=>").bind Ty.overloads?).getD [])
  match overloads.findIdx? fun o =>
      o.generics.isEmpty && o.params.isEmpty && o.result == target with
  | some index => return some (index, target)
  | none => fail (.noSuchCast value.text target.text) span

end Check

end ShapeLang
