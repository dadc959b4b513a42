import ShapeLang.Checker.Bind
import ShapeLang.Tree

/-!
# Class declarations

A class is declared before its fields are resolved, so they can mention it. Its
name becomes a constant. Type parameters and super types are read but ignored
with a warning.
-/

namespace ShapeLang.Check

/-- Adds the names of a group to the fields, reporting those that are there already. -/
def addFields (type : Ty) (span : Span) (fields : NameMap Ty) :
    List String → Check (Bool × NameMap Ty)
  | [] => return (true, fields)
  | name :: names =>
      match fields.find? name with
      | none => addFields type span (fields.insert name type) names
      | some old => do
          let _ ← fail (α := Unit) (.redefinition name old.text type.text) span
          let (_, fields) ← addFields type span fields names
          return (false, fields)

/-- The fields that the groups declare; all groups are looked at. -/
def collectFields (fields : NameMap Ty) : List FieldGroup → Check (Bool × NameMap Ty)
  | [] => return (true, fields)
  | group :: groups => do
      match ← resolveTerm group.term with
      | none =>
          let (_, fields) ← collectFields fields groups
          return (false, fields)
      | some type =>
          let (added, fields) ← addFields type group.span fields group.names
          let (others, fields) ← collectFields fields groups
          return (added && others, fields)

/-- The constructors whose parameters could all be resolved; all are looked at. -/
def collectConstructors : List (List TypeTerm) → Check (Bool × List (List Ty))
  | [] => return (true, [])
  | terms :: rest => do
      let params ← resolveTerms terms
      let (others, constructors) ← collectConstructors rest
      match params with
      | some params => return (others, params :: constructors)
      | none => return (false, constructors)

/-- Takes a free name for a class; for a taken one, what it stands for. -/
def claimClass (name : String) : Check (Except String ClassId) := do
  let s ← get
  let declare : Check (Except String ClassId) := do
    match s.classes.declare name with
    | .ok (id, classes) =>
        set { s with classes }
        return .ok id
    | .error existing => return .error (← s.classes.objectOf existing).text
  match s.lookup? name with
  | some old => if old.unresolved then declare else return .error old.type.text
  | none => declare

/-- Declares a class with its fields and constructors and registers it. -/
def declareClass (decl : ClassDecl) (span : Span) : Check (Option Ty) := do
  if !(← get).atRoot then
    defineUnresolved decl.name span
    fail (.unimplemented "Nested class declarations") span
  else
    if !decl.generics.isEmpty then warn (.unimplemented "Generic classes") span
    if !decl.supers.isEmpty then warn (.unimplemented "Super types") span
    match ← claimClass decl.name with
    | .error old => fail (.redefinition decl.name old ("class " ++ decl.name)) span
    | .ok id =>
        let type ← (← get).classes.classValue id
        match ← define decl.name type .always true span with
        | none => return none
        | some () =>
            let (fieldsOk, fields) ← collectFields .empty decl.fields
            let (constructorsOk, constructors) ← collectConstructors decl.constructors
            let s ← get
            let classes ← s.classes.modify id fun c => { c with fields, constructors }
            set { s with classes := ← classes.register id }
            return if fieldsOk && constructorsOk then some type else none

end ShapeLang.Check
