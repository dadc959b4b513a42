import ShapeLang.Checker

/-!
# Branches, functions and returns

Each arm of a branching statement is checked in a frame of its own, and the arms
are then merged into the frame around them. A function body has a frame that
knows what the function is to return.
-/

namespace ShapeLang

/-- Why two types could not be joined, with the two types. -/
structure JoinFailure where
  reason : Mismatch
  left : Ty
  right : Ty
deriving Inhabited

namespace ClassTable

/-- The type of an outer variable after its arms, when each arm has the given binding for
it. Arms that have nothing in common, or of which one failed, leave the outer type. -/
def reconcile (t : ClassTable) (outer : Ty) : List Binding → Except Fault Ty
  | [] => .ok outer
  | first :: others => do
      match ← go first.type others with
      | some merged => return if first.unresolved then outer else merged
      | none => return outer
where
  go (merged : Ty) : List Binding → Except Fault (Option Ty)
    | [] => .ok (some merged)
    | arm :: arms =>
        if arm.unresolved then .ok none
        else if arm.type == merged then go merged arms
        else do
          match ← t.join merged arm.type with
          | .ok type => go type arms
          | .error _ => return none

/-- The binding that arms introduce together: a type that covers all of theirs. It stays
unresolved if it is in one of them. -/
def joinBindings (t : ClassTable) (merged : Binding) :
    List Binding → Except Fault (Binding × Option JoinFailure)
  | [] => .ok (merged, none)
  | other :: others =>
      if merged.unresolved || other.unresolved then
        .ok ({ merged with type := .noneType, unresolved := true }, none)
      else do
        match ← t.join merged.type other.type with
        | .ok type =>
            t.joinBindings { merged with type, constant := merged.constant || other.constant }
              others
        | .error reason => return (merged, some ⟨reason, merged.type, other.type⟩)

end ClassTable

def Arm.names (arms : List Arm) : List String :=
  (NameMap.ofList (arms.flatMap fun arm => arm.bindings.keys.map (·, ()))).keys

/-- What each arm that still has the name binds it to. -/
def Arm.bindingsOf (arms : List Arm) (name : String) : List Binding :=
  arms.filterMap fun arm => arm.bindings.find? name

def Arm.states (arms : List Arm) (name : String) : List Assigned :=
  arms.map fun arm => match arm.bindings.find? name with
    | some b => b.assigned
    | none => .never

namespace Check

def enterBranch : Check Unit := modify (·.enter .branch)

def exitBranch : Check Arm := do
  let s ← get
  match s.frame.kind, s.outer with
  | .branch, frame :: outer =>
      set { s with frame, outer }
      return ⟨s.frame.bindings, s.frame.returns⟩
  | _, _ => throw .branchNotEntered

def enterFunction (declared : Option Ty) : Check Unit := modify (·.enter (.function declared))

/-- Leaves a function body: what it returns on every path. -/
def exitFunction : Check (Option Ty) := do
  let s ← get
  match s.frame.kind, s.outer with
  | .function _, frame :: outer =>
      set { s with frame, outer }
      return s.frame.returns
  | _, _ => throw .functionNotEntered

/-- Merges what the arms bind to one name into the innermost frame. -/
def mergeName (arms : List Arm) (exhaustive : Bool) (span : Span) (name : String) :
    Check (Option Unit) := do
  let s ← get
  let assigned := Assigned.afterArms exhaustive (Arm.states arms name)
  match s.lookup? name with
  | some outer =>
      let type ← if exhaustive && !outer.unresolved then
          s.classes.reconcile outer.type (Arm.bindingsOf arms name)
        else pure outer.type
      set (s.bind name { outer with type, assigned := outer.assigned.max assigned })
      return some ()
  | none =>
      match Arm.bindingsOf arms name with
      | [] => return some ()
      | first :: others =>
          let (merged, failure) ← s.classes.joinBindings { first with assigned } others
          let result : Option Unit ← match failure with
            | none => pure (some ())
            | some f => mismatch f.reason f.left f.right span
          modify (·.bind name merged)
          return result

/-- Merges the names one after the other; all are tried. -/
def mergeNames (arms : List Arm) (exhaustive : Bool) (span : Span) :
    List String → Check Bool
  | [] => return true
  | name :: names => do
      let merged ← mergeName arms exhaustive span name
      let others ← mergeNames arms exhaustive span names
      return merged.isSome && others

/-- Joins what the arms return to what was returned before them. -/
def mergeReturns (span : Span) (returned : Option Ty) : List Ty → Check (Bool × Option Ty)
  | [] => return (true, returned)
  | type :: types =>
      match returned with
      | none => mergeReturns span (some type) types
      | some previous => do
          match ← (← get).classes.join previous type with
          | .ok merged => mergeReturns span (some merged) types
          | .error reason =>
              let _ ← mismatch (α := Unit) reason previous type span
              let (_, returned) ← mergeReturns span (some previous) types
              return (false, returned)

/-- Merges the arms of a branching statement into the innermost frame. If exactly one
arm always runs, what every arm assigns or returns is assigned or returned
afterwards. -/
def mergeArms (arms : List Arm) (exhaustive : Bool) (span : Span) : Check (Option Unit) := do
  let bindings ← mergeNames arms exhaustive span (Arm.names arms)
  let returns := arms.filterMap (·.returns)
  if exhaustive && !arms.isEmpty && returns.length == arms.length then
    let (joined, returned) ← mergeReturns span (← get).frame.returns returns
    modify (·.setReturns returned)
    return if bindings && joined then some () else none
  else return if bindings then some () else none

/-- Accounts for a return on the current path. The value must stand for the declared
type, if there is one. -/
def recordReturn (value : Ty) (span : Span) : Check (Option Unit) := do
  let returned : Option Ty ← match (← get).declaredReturn? with
    | none => fail .returnOutsideFunction span
    | some none => pure (some value)
    | some (some declared) => do
        match ← expectType value declared span with
        | some () => pure (some declared)
        | none => pure none
  match returned with
  | none => return none
  | some returned =>
      let s ← get
      match s.frame.returns with
      | none =>
          set (s.setReturns (some returned))
          return some ()
      | some previous =>
          match ← s.classes.join previous returned with
          | .ok merged =>
              set (s.setReturns (some merged))
              return some ()
          | .error reason => mismatch reason previous returned span

end Check

end ShapeLang
