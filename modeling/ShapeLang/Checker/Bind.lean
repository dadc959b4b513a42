import ShapeLang.Checker

/-!
# Reading and binding names

A variable keeps the type it was first given. Binding it again needs a value of
that type, except that a function may gain overloads. A constant is bound once.
-/

namespace ShapeLang

namespace ClassTable

/-- The old overloads followed by the new ones with other parameters. A new overload
with parameters already there must give what stands for the old result. -/
def mergeOverloads (t : ClassTable) (name : String) (merged : List Overload) :
    List Overload → Except Fault (Except Problem (List Overload))
  | [] => .ok (.ok merged)
  | o :: os =>
      match Overload.find? merged o.params with
      | none => t.mergeOverloads name (merged ++ [o]) os
      | some old => do
          match ← t.compare o.result old.result with
          | .ok () => t.mergeOverloads name merged os
          | .error .incompatible => return .error (.redefinition name old.text o.text)
          | .error (.unsupported feature) => return .error (.unimplemented feature)

/-- The type of a variable of type `old` that is bound to a value of type `new`. -/
def rebind (t : ClassTable) (name : String) (old new : Ty) :
    Except Fault (Except Problem Ty) :=
  match old, new with
  | .func olds, .func news => do
      match ← t.mergeOverloads name olds news with
      | .ok merged => return .ok (.func merged)
      | .error problem => return .error problem
  | _, _ => do
      match ← t.compare new old with
      | .ok () => return .ok old
      | .error .incompatible => return .error (.redefinition name old.text new.text)
      | .error (.unsupported feature) => return .error (.unimplemented feature)

end ClassTable

namespace Check

/-- The type of a variable, which must have been assigned on all paths. -/
def read (name : String) (span : Span) : Check (Option Ty) := do
  match (← get).lookup? name with
  | none => fail (.unknownSymbol name) span
  | some b =>
      if b.unresolved then return none
      else match b.assigned with
        | .always => return some b.type
        | .sometimes => fail (.useBeforeInit name true) span
        | .never => fail (.useBeforeInit name false) span

/-- Binds a name in the innermost frame, together with what was bound to it before. -/
def define (name : String) (type : Ty) (assigned : Assigned) (constant : Bool) (span : Span) :
    Check (Option Unit) := do
  let s ← get
  let fresh : Check (Option Unit) := do
    set (s.bind name ⟨type, assigned, constant, false, span⟩)
    return some ()
  match s.lookup? name with
  | none => fresh
  | some old =>
      if old.unresolved then fresh
      else if old.isFixed then fail (.redefinition name old.type.text type.text) span
      else
        match ← s.classes.rebind name old.type type with
        | .error problem => fail problem span
        | .ok merged =>
            set (s.bind name { old with
              type := merged
              assigned := old.assigned.max assigned
              constant := old.constant || constant })
            return some ()

/-- Binds a name after the value meant for it failed to check. A binding that is there
keeps its type and counts as assigned. -/
def defineUnresolved (name : String) (span : Span) : Check Unit :=
  modify fun s => match s.lookup? name with
    | some old => s.bind name { old with assigned := .always }
    | none => s.bind name (.failed span)

/-- Binds a name whatever it was before. -/
def shadow (name : String) (type : Ty) (span : Span) : Check Unit :=
  modify (·.bind name (.plain type span))

/-- Binds every name that is not discarded, after a value failed to check. -/
def defineAllUnresolved (names : List String) (span : Span) : Check Unit :=
  (names.filter (· != "_")).forM (defineUnresolved · span)

/-- Binds each name to the type beside it; an underscore discards. All are tried. -/
def defineEach (constant : Bool) (span : Span) : List (String × Ty) → Check Bool
  | [] => return true
  | (name, type) :: rest => do
      let bound ← if name == "_" then pure (some ())
        else define name type .always constant span
      let others ← defineEach constant span rest
      return bound.isSome && others

/-- Binds names to a value of the given type. A spread tuple is taken apart and needs as
many names as it has elements; any other value goes to every name. -/
def defineNames (names : List String) (type : Ty) (constant : Bool) (span : Span) :
    Check (Option Ty) := do
  match type with
  | .spread items =>
      if items.length != names.length then
        defineAllUnresolved names span
        fail (.arityMismatch items.length names.length) span
      else
        let bound ← defineEach constant span (names.zip (items.take names.length))
        return if bound then some type else none
  | _ =>
      let bound ← defineEach constant span (names.map (·, type))
      return if bound then some type else none

end Check

end ShapeLang
