import ShapeLang.Checker.Branch
import ShapeLang.Checker.Call
import ShapeLang.Checker.ClassDecl

/-!
# Checking trees

The walk over a tree. It returns the tree with its slots filled, and the type of
an expression or whether a statement went well. After a failure it goes on as far
as that makes sense, so that one run reports every mistake once.
-/

namespace ShapeLang

/-- The arm of a case without the name that its pattern bound. -/
def Arm.forget (arm : Arm) : Pattern → Arm
  | .type name _ => { arm with bindings := arm.bindings.erase name }
  | .value _ => arm

namespace Check

def literalType (b : Builtins) : Literal → Ty
  | .int _ => b.object .int
  | .double _ => b.object .double
  | .string _ => b.object .string
  | .bool _ => b.object .bool
  | .noneValue => .noneType

def joinItems (span : Span) (merged : Ty) : List Ty → Check (Option Ty)
  | [] => return some merged
  | type :: types => do
      match ← (← get).classes.join merged type with
      | .ok merged => joinItems span merged types
      | .error reason => mismatch reason merged type span

/-- The type of an array with elements of these types. -/
def arrayType (span : Span) : List Ty → Check (Option Ty)
  | [] => fail (.cannotInferType "[]") span
  | first :: others => do
      match ← joinItems span first others with
      | some item => return some (.array item)
      | none => return none

def indexType (object position : Ty) (positionSpan span : Span) : Check (Option Ty) := do
  match object with
  | .array item => do
      let int := (← get).builtin .int
      match ← expectType position int positionSpan with
      | some () => return some item
      | none => return none
  | .tuple _ | .spread _ => fail (.unimplemented "Tuple indexing") span
  | .object .. => do
      match ← callMember object "[]" [position] span with
      | some (_, type) => return some type
      | none => return none
  | other => fail (.notAnObject other.text) span

def spreadType (value : Ty) (span : Span) : Check (Option Ty) :=
  match value.toSpread? with
  | some type => return some type
  | none => fail (.typeMismatch "tuple" value.text) span

/-- The type of a tuple with elements of these types. -/
def tupleType (types : List Ty) : Check (Option Ty) := do
  let items ← Ty.collect types
  return some (.tuple items)

/-- The overload an operator calls and the type it gives. A compound assignment gives
what its variable holds, which the result must stand for; the overload is known even if
it does not. -/
def binaryType (operator : Token) (left right : Ty) (leftSpan rightSpan span : Span) :
    Check (Option Nat × Option Ty) := do
  match operator.kind with
  | .and | .or =>
      let leftOk ← checkCondition left leftSpan
      let rightOk ← checkCondition right rightSpan
      match leftOk, rightOk with
      | some (), some () => return (none, some ((← get).builtin .bool))
      | _, _ => return (none, none)
  | kind =>
      match ← callMember left operator.operatorField [right] span with
      | none => return (none, none)
      | some (index, result) =>
          if kind.isCompoundAssignment then
            match ← expectType result left span with
            | some () => return (some index, some left)
            | none => return (some index, none)
          else return (some index, some result)

/-- The type of a function from its parameters, what it was declared to return and what
its body returns on every path. -/
def functionType (params : List Ty) (declared returned : Option Ty) (span : Span) :
    Check (Option Ty) := do
  let give (result : Ty) : Check (Option Ty) := do
    let overloads : List Overload := [⟨[], params, result⟩]
    registerFunction overloads
    return some (.func overloads)
  match declared, returned with
  | some declared, none =>
      if declared.isNone then give declared else fail (.missingReturn declared.text) span
  | some declared, some _ => give declared
  | none, some returned => give returned
  | none, none => give .noneType

/-- What a function was declared to return; an annotation that fails fails the function. -/
def resolveResult : Option TypeTerm → Check (Option (Option Ty))
  | none => return some none
  | some term => do
      match ← resolveTerm term with
      | some type => return some (some type)
      | none => return none

/-- Binds the parameters of a function in its frame. -/
def bindParams (params : List Param) (types : List Ty) : Check Unit :=
  (params.zip types).forM fun (p, type) => shadow p.name type p.term.span

/-- Whether a type pattern takes values of the subject's type: it narrows the subject, or
what an optional subject may hold. -/
def narrows (pattern subject : Ty) : Check Bool := do
  let t := (← get).classes
  match ← t.compare pattern subject with
  | .ok () => return true
  | .error _ =>
      match subject with
      | .maybe inner =>
          match ← t.compare pattern inner with
          | .ok () => return true
          | .error _ => return false
      | _ => return false

/-- Checks a type pattern and binds its name in the arm. -/
def typePattern (subject : Ty) (name : String) (term : TypeTerm) (span : Span) :
    Check Bool := do
  match ← resolveTerm term with
  | none => return false
  | some pattern =>
      if ← narrows pattern subject then
        shadow name pattern span
        return true
      else
        let _ ← fail (α := Unit) (.typeMismatch subject.text pattern.text) term.span
        return false

/-- Checks that the subject can be compared with a value. -/
def valuePattern (subject value : Ty) (span : Span) : Check Bool := do
  match ← callMember subject "==" [value] span with
  | none => return false
  | some (_, result) =>
      if (← get).builtins.is result .bool then return true
      else
        let _ ← fail (α := Unit) (.typeMismatch Builtin.bool.name result.text) span
        return false

def conditionType (type : Option Ty) (span : Span) : Check Bool := do
  match type with
  | none => return false
  | some type => return (← checkCondition type span).isSome

/-- The result of a statement that has no value. -/
def done (ok : Bool) : Option Ty := if ok then some .noneType else none

mutual

def checkExpr : Expr → Check (Expr × Option Ty)
  | .literal value note => do
      let type := some (literalType (← get).builtins value)
      return (.literal value { note with type }, type)
  | .symbol name note => do
      let type ← read name note.span
      return (.symbol name { note with type }, type)
  | .member object name note => do
      let (object, receiver) ← checkExpr object
      let type ← match receiver with
        | some receiver => member receiver name note.span
        | none => pure none
      return (.member object name { note with type }, type)
  | .call callee args note => do
      let (callee, value) ← checkExpr callee
      let (args, types) ← checkExprs args
      let chosen ← match value, types with
        | some value, some types => callValue callee.calleeName value (Ty.expand types) note.span
        | _, _ => pure none
      let type := chosen.map (·.2)
      return (.call callee args { note with type, overload := chosen.bind (·.1) }, type)
  | .index object position note => do
      let (object, receiver) ← checkExpr object
      let (position, place) ← checkExpr position
      let type ← match receiver, place with
        | some receiver, some place => indexType receiver place position.span note.span
        | _, _ => pure none
      return (.index object position { note with type }, type)
  | .construct name args note => do
      let value ← read name note.span
      let (args, types) ← checkExprs args
      let chosen ← match value, types with
        | some value, some types => constructValue value (Ty.expand types) note.span
        | _, _ => pure none
      let type := chosen.map (·.2)
      return (.construct name args { note with type, overload := chosen.bind (·.1) }, type)
  | .cast value target note => do
      let (value, source) ← checkExpr value
      let wanted ← resolveTerm target
      let chosen ← match source, wanted with
        | some source, some wanted => castTo source wanted note.span
        | _, _ => pure none
      let type := chosen.map (·.2)
      return (.cast value target { note with type, overload := chosen.map (·.1) }, type)
  | .tuple items note => do
      let (items, types) ← checkExprs items
      let type ← match types with
        | some types => tupleType types
        | none => pure none
      return (.tuple items { note with type }, type)
  | .spread value note => do
      let (value, inner) ← checkExpr value
      let type ← match inner with
        | some inner => spreadType inner note.span
        | none => pure none
      return (.spread value { note with type }, type)
  | .array items note => do
      let (items, types) ← checkExprs items
      let type ← match types with
        | some types => arrayType note.span types
        | none => pure none
      return (.array items { note with type }, type)
  | .binary left operator right note => do
      let (left, leftType) ← checkExpr left
      let (right, rightType) ← checkExpr right
      let (overload, type) ← match leftType, rightType with
        | some leftType, some rightType =>
            binaryType operator leftType rightType left.span right.span note.span
        | _, _ => pure (none, none)
      return (.binary left operator right { note with type, overload }, type)
  | .function generics params result body note => do
      let failed (body : Block) : Expr × Option Ty :=
        (.function generics params result body { note with type := none }, none)
      if !generics.isEmpty then
        let _ ← fail (α := Unit) (.unimplemented "Generic functions") note.span
        return failed body
      else
        let types ← resolveTerms (params.map (·.term))
        let declared ← resolveResult result
        match types, declared with
        | some types, some declared =>
            enterFunction declared
            bindParams params types
            let (body, ok) ← checkBlock body
            let returned ← exitFunction
            if ok then
              let type ← functionType types declared returned note.span
              return (.function generics params result body { note with type }, type)
            else return failed body
        | _, _ => return failed body

/-- Checks all expressions; their types if every one has one. -/
def checkExprs : List Expr → Check (List Expr × Option (List Ty))
  | [] => return ([], some [])
  | e :: es => do
      let (e, type) ← checkExpr e
      let (es, types) ← checkExprs es
      match type, types with
      | some type, some types => return (e :: es, some (type :: types))
      | _, _ => return (e :: es, none)

def checkStmt : Stmt → Check (Stmt × Option Ty)
  | .expr value span => do
      let (value, type) ← checkExpr value
      return (.expr value span, type)
  | .define names value constant span => do
      let (value, type) ← checkExpr value
      let bound ← match type with
        | some type => defineNames names type constant span
        | none => do
            defineAllUnresolved names span
            pure none
      return (.define names value constant span, bound)
  | .declare name term none constant span => do
      let stmt : Stmt := .declare name term none constant span
      match ← resolveTerm term with
      | none => do
          defineUnresolved name span
          return (stmt, none)
      | some type => do
          match ← define name type .never constant span with
          | some () => return (stmt, some type)
          | none => return (stmt, none)
  | .declare name term (some value) constant span => do
      let declared ← resolveTerm term
      let (value, received) ← checkExpr value
      let stmt : Stmt := .declare name term (some value) constant span
      match declared with
      | none => do
          defineUnresolved name span
          return (stmt, none)
      | some type => do
          let fitting ← match received with
            | some received => expectType received type value.span
            | none => pure none
          match ← define name type .always constant span, fitting with
          | some (), some () => return (stmt, some type)
          | _, _ => return (stmt, none)
  | .classDecl decl span => do
      let type ← declareClass decl span
      return (.classDecl decl span, type)
  | .methods name body span => do
      let result ← fail (.unimplemented "Impl blocks") span
      return (.methods name body span, result)
  | .ifElse condition yes none span => do
      let (condition, type) ← checkExpr condition
      let conditionOk ← conditionType type condition.span
      enterBranch
      let (yes, yesOk) ← checkBlock yes
      let yesArm ← exitBranch
      let merged ← mergeArms [yesArm] false span
      return (.ifElse condition yes none span, done (conditionOk && yesOk && merged.isSome))
  | .ifElse condition yes (some no) span => do
      let (condition, type) ← checkExpr condition
      let conditionOk ← conditionType type condition.span
      enterBranch
      let (yes, yesOk) ← checkBlock yes
      let yesArm ← exitBranch
      enterBranch
      let (no, noOk) ← checkBlock no
      let noArm ← exitBranch
      let merged ← mergeArms [yesArm, noArm] true span
      return (.ifElse condition yes (some no) span,
        done (conditionOk && yesOk && noOk && merged.isSome))
  | .whileLoop condition body span => do
      let (condition, type) ← checkExpr condition
      let conditionOk ← conditionType type condition.span
      enterBranch
      let (body, bodyOk) ← checkBlock body
      let arm ← exitBranch
      let merged ← mergeArms [arm] false span
      return (.whileLoop condition body span, done (conditionOk && bodyOk && merged.isSome))
  | .doWhile body condition span => do
      enterBranch
      let (body, bodyOk) ← checkBlock body
      let (condition, type) ← checkExpr condition
      let conditionOk ← conditionType type condition.span
      let arm ← exitBranch
      let merged ← mergeArms [arm] false span
      return (.doWhile body condition span, done (bodyOk && conditionOk && merged.isSome))
  | .switch subject cases none span => do
      let (subject, type) ← checkExpr subject
      match type with
      | none => return (.switch subject cases none span, none)
      | some type => do
          let (cases, arms, casesOk) ← checkCases type cases
          let merged ← mergeArms arms false span
          return (.switch subject cases none span, done (casesOk && merged.isSome))
  | .switch subject cases (some otherwise) span => do
      let (subject, type) ← checkExpr subject
      match type with
      | none => return (.switch subject cases (some otherwise) span, none)
      | some type => do
          let (cases, arms, casesOk) ← checkCases type cases
          enterBranch
          let (otherwise, otherwiseOk) ← checkBlock otherwise
          let arm ← exitBranch
          let merged ← mergeArms (arms ++ [arm]) true span
          return (.switch subject cases (some otherwise) span,
            done (casesOk && otherwiseOk && merged.isSome))
  | .return none span => do
      let recorded ← recordReturn .noneType span
      return (.return none span, recorded.map fun () => .noneType)
  | .return (some value) span => do
      let (value, type) ← checkExpr value
      match type with
      | none => return (.return (some value) span, none)
      | some type => do
          let recorded ← recordReturn type span
          return (.return (some value) span, recorded.map fun () => type)

/-- Checks all statements; whether every one went well. -/
def checkStmts : List Stmt → Check (List Stmt × Bool)
  | [] => return ([], true)
  | s :: ss => do
      let (s, type) ← checkStmt s
      let (ss, ok) ← checkStmts ss
      return (s :: ss, type.isSome && ok)

def checkBlock : Block → Check (Block × Bool)
  | ⟨body, span⟩ => do
      let (body, ok) ← checkStmts body
      return (⟨body, span⟩, ok)

/-- Checks each case in a branch of its own: the arms, and whether all went well. -/
def checkCases (subject : Ty) : List Case → Check (List Case × List Arm × Bool)
  | [] => return ([], [], true)
  | ⟨pattern, body, span⟩ :: cases => do
      enterBranch
      let (pattern, patternOk) ← checkPattern subject span pattern
      let (body, bodyOk) ← checkBlock body
      let arm ← exitBranch
      let (cases, arms, ok) ← checkCases subject cases
      return (⟨pattern, body, span⟩ :: cases, arm.forget pattern :: arms,
        patternOk && bodyOk && ok)

def checkPattern (subject : Ty) (span : Span) : Pattern → Check (Pattern × Bool)
  | .type name term => do
      let ok ← typePattern subject name term span
      return (.type name term, ok)
  | .value value => do
      let (value, type) ← checkExpr value
      let ok ← match type with
        | some type => valuePattern subject type value.span
        | none => pure false
      return (.value value, ok)

end

end Check

end ShapeLang
