import ShapeLang.TypeTerm
import ShapeLang.Token

/-!
# Program trees

Expressions and statements with their places. Every expression has a note with
slots for its type and for the overload it selected; the parser leaves them empty
and a check fills them.
-/

namespace ShapeLang

inductive Literal where
  | int (value : Int)
  | double (value : Float)
  | string (value : String)
  | bool (value : Bool)
  | noneValue
deriving Repr, Inhabited

/-- The place of an expression and what a check found out about it. -/
structure Note where
  span : Span
  type : Option Ty := none
  overload : Option Nat := none
deriving Inhabited

structure Param where
  name : String
  term : TypeTerm
deriving Inhabited

structure FieldGroup where
  names : List String
  term : TypeTerm
  span : Span
deriving Inhabited

structure ClassDecl where
  name : String
  generics : List String
  supers : List String
  constructors : List (List TypeTerm)
  fields : List FieldGroup
deriving Inhabited

mutual

inductive Expr where
  | literal (value : Literal) (note : Note)
  | symbol (name : String) (note : Note)
  | member (object : Expr) (name : String) (note : Note)
  | call (callee : Expr) (args : List Expr) (note : Note)
  | index (object position : Expr) (note : Note)
  /-- A new instance of the named class. -/
  | construct (className : String) (args : List Expr) (note : Note)
  | cast (value : Expr) (target : TypeTerm) (note : Note)
  | tuple (items : List Expr) (note : Note)
  | spread (value : Expr) (note : Note)
  | array (items : List Expr) (note : Note)
  | binary (left : Expr) (operator : Token) (right : Expr) (note : Note)
  | function (generics : List String) (params : List Param) (result : Option TypeTerm)
      (body : Block) (note : Note)

inductive Stmt where
  | expr (value : Expr) (span : Span)
  | define (names : List String) (value : Expr) (constant : Bool) (span : Span)
  | declare (name : String) (term : TypeTerm) (value : Option Expr) (constant : Bool)
      (span : Span)
  | classDecl (decl : ClassDecl) (span : Span)
  /-- Methods for the named class. -/
  | methods (name : String) (body : Block) (span : Span)
  | ifElse (condition : Expr) (yes : Block) (no : Option Block) (span : Span)
  | whileLoop (condition : Expr) (body : Block) (span : Span)
  | doWhile (body : Block) (condition : Expr) (span : Span)
  | switch (subject : Expr) (cases : List Case) (otherwise : Option Block) (span : Span)
  | return (value : Option Expr) (span : Span)

structure Block where
  body : List Stmt
  span : Span

structure Case where
  pattern : Pattern
  body : Block
  span : Span

inductive Pattern where
  /-- Takes values of the type and binds them to the name. -/
  | type (name : String) (term : TypeTerm)
  /-- Takes what equals the value. -/
  | value (value : Expr)

end

instance : Inhabited Expr := ⟨.literal .noneValue default⟩
instance : Inhabited Block := ⟨⟨[], .null⟩⟩
instance : Inhabited Stmt := ⟨.expr default .null⟩
instance : Inhabited Pattern := ⟨.value default⟩
instance : Inhabited Case := ⟨⟨default, default, .null⟩⟩

structure Program where
  body : List Stmt
  span : Span
deriving Inhabited

namespace Expr

def note : Expr → Note
  | literal _ n | symbol _ n | member _ _ n | call _ _ n | index _ _ n | construct _ _ n
  | cast _ _ n | tuple _ n | spread _ n | array _ n | binary _ _ _ n
  | function _ _ _ _ n => n

def span (e : Expr) : Span := e.note.span

def isSymbol : Expr → Bool
  | symbol .. => true
  | _ => false

/-- The name a callee is reported under. -/
def calleeName : Expr → String
  | symbol name _ | member _ name _ => name
  | _ => "<expression>"

end Expr

/-- The class field an operator calls: inequality asks for equality. -/
def Token.operatorField (operator : Token) : String :=
  match operator.kind with
  | .notEquals => "=="
  | _ => operator.text

def Stmt.span : Stmt → Span
  | .expr _ s | .define _ _ _ s | .declare _ _ _ _ s | .classDecl _ s | .methods _ _ s
  | .ifElse _ _ _ s | .whileLoop _ _ s | .doWhile _ _ s | .switch _ _ _ s | .return _ s => s

end ShapeLang
