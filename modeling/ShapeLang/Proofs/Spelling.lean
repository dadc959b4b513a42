import ShapeLang.Numeral
import ShapeLang.Token.Rule
import ShapeLang.Proofs.Annotation

/-!
# How programs are written

A tree is written as a sequence of lexemes in which parentheses show how it hangs
together: each part of an expression and each part of an annotation stands in a pair of
its own, and every statement and every part of a class ends with a semicolon. The
syntax can write the trees that meet a few conditions on their shape, and it says
nothing about places, so trees are compared with all places blank.
-/

namespace ShapeLang

/-- A token without its place. -/
structure Lexeme where
  kind : Token.Kind
  text : String
deriving DecidableEq, Repr

def Token.lexeme (t : Token) : Lexeme := ⟨t.kind, t.text⟩

/-- How a mark or a reserved word is written. -/
def Token.Kind.spelling (kind : Token.Kind) : String :=
  ((Token.marks ++ Token.reserved.map Prod.swap).lookup kind).getD ""

namespace Lexeme

def mark (kind : Token.Kind) : Lexeme := ⟨kind, kind.spelling⟩

def name (text : String) : Lexeme := ⟨.identifier, text⟩

def parens (ls : List Lexeme) : List Lexeme := mark .openParen :: ls ++ [mark .closeParen]

def brackets (ls : List Lexeme) : List Lexeme := mark .openBracket :: ls ++ [mark .closeBracket]

def braces (ls : List Lexeme) : List Lexeme := mark .openCurly :: ls ++ [mark .closeCurly]

def separated (kind : Token.Kind) : List (List Lexeme) → List Lexeme
  | [] => []
  | piece :: pieces => piece ++ pieces.flatMap (mark kind :: ·)

/-- The pieces between parentheses; a comma after a piece that stands alone tells the list
from a grouping. -/
def tupled : List (List Lexeme) → List Lexeme
  | [piece] => parens (piece ++ [mark .comma])
  | pieces => parens (separated .comma pieces)

/-- The pieces between angle brackets, which are left out with them when there are none. -/
def angled : List (List Lexeme) → List Lexeme
  | [] => []
  | pieces => mark .less :: separated .comma pieces ++ [mark .greater]

def ended (pieces : List (List Lexeme)) : List Lexeme := pieces.flatMap (· ++ [mark .semicolon])

/-- Something that may be missing, with what stands before it when it is there. -/
def optional (before : List Lexeme) : Option (List Lexeme) → List Lexeme
  | none => []
  | some ls => before ++ ls

end Lexeme

open Lexeme

/-- What the tree leaves open about how it is written. -/
structure Style where
  /-- Whether an expression or annotation that is no part of another is in parentheses too. -/
  wrapped : Bool
  /-- Which names of fields are written as strings. -/
  quoted : String → Bool
  /-- Whether an else block that holds just a conditional is written without its braces. -/
  chained : Bool

/-- An expression or annotation that is no part of another. -/
def Style.whole (style : Style) (ls : List Lexeme) : List Lexeme :=
  if style.wrapped then parens ls else ls

/-! ## Annotations -/

mutual

def TypeTerm.lexemes : TypeTerm → List Lexeme
  | .named name generics _ => .name name :: angled (TypeTerm.pieces generics)
  | .noneType _ => [mark .noneWord]
  | .tuple items _ => tupled (TypeTerm.pieces items)
  | .function signature => signature.lexemes
  | .overloads members _ => separated .ampersand (Signature.pieces members)
  | .array item _ => parens item.lexemes ++ brackets []
  | .maybe item _ => parens item.lexemes ++ [mark .question]

/-- The annotations as parts of another. -/
def TypeTerm.pieces : List TypeTerm → List (List Lexeme)
  | [] => []
  | a :: as => parens a.lexemes :: TypeTerm.pieces as

def Signature.lexemes : Signature → List Lexeme
  | ⟨params, result, _⟩ =>
      parens (separated .comma (TypeTerm.pieces params)) ++ mark .arrow :: parens result.lexemes

def Signature.pieces : List Signature → List (List Lexeme)
  | [] => []
  | s :: ss => parens s.lexemes :: Signature.pieces ss

end

mutual

/-- An annotation with overloads has at least two of them. -/
def TypeTerm.wellFormed : TypeTerm → Bool
  | .named _ generics _ => TypeTerm.wellFormedAll generics
  | .noneType _ => true
  | .tuple items _ => TypeTerm.wellFormedAll items
  | .function signature => signature.wellFormed
  | .overloads members _ => decide (2 ≤ members.length) && Signature.wellFormedAll members
  | .array item _ => item.wellFormed
  | .maybe item _ => item.wellFormed

def TypeTerm.wellFormedAll : List TypeTerm → Bool
  | [] => true
  | a :: as => a.wellFormed && TypeTerm.wellFormedAll as

def Signature.wellFormed : Signature → Bool
  | ⟨params, result, _⟩ => TypeTerm.wellFormedAll params && result.wellFormed

def Signature.wellFormedAll : List Signature → Bool
  | [] => true
  | s :: ss => s.wellFormed && Signature.wellFormedAll ss

end

mutual

def TypeTerm.unplaced : TypeTerm → TypeTerm
  | .named name generics _ => .named name (TypeTerm.unplacedAll generics) .null
  | .noneType _ => .noneType .null
  | .tuple items _ => .tuple (TypeTerm.unplacedAll items) .null
  | .function signature => .function signature.unplaced
  | .overloads members _ => .overloads (Signature.unplacedAll members) .null
  | .array item _ => .array item.unplaced .null
  | .maybe item _ => .maybe item.unplaced .null

def TypeTerm.unplacedAll : List TypeTerm → List TypeTerm
  | [] => []
  | a :: as => a.unplaced :: TypeTerm.unplacedAll as

def Signature.unplaced : Signature → Signature
  | ⟨params, result, _⟩ => ⟨TypeTerm.unplacedAll params, result.unplaced, .null⟩

def Signature.unplacedAll : List Signature → List Signature
  | [] => []
  | s :: ss => s.unplaced :: Signature.unplacedAll ss

end

/-! ## Parameters and classes -/

namespace Param

def lexemes (style : Style) (p : Param) : List Lexeme :=
  .name p.name :: mark .colon :: style.whole p.term.lexemes

def wellFormed (p : Param) : Bool := p.term.wellFormed

def unplaced (p : Param) : Param := ⟨p.name, p.term.unplaced⟩

end Param

namespace FieldGroup

/-- A name of a field, as a string where the style asks for it. -/
def fieldName (style : Style) (name : String) : Lexeme :=
  ⟨if style.quoted name then .string else .identifier, name⟩

def lexemes (style : Style) (g : FieldGroup) : List Lexeme :=
  separated .comma (g.names.map ([fieldName style ·])) ++
    mark .colon :: style.whole g.term.lexemes

def wellFormed (g : FieldGroup) : Bool := !g.names.isEmpty && g.term.wellFormed

def unplaced (g : FieldGroup) : FieldGroup := ⟨g.names, g.term.unplaced, .null⟩

end FieldGroup

namespace ClassDecl

def constructorLexemes (style : Style) (params : List TypeTerm) : List Lexeme :=
  mark .newWord :: parens (separated .comma (params.map fun a => style.whole a.lexemes))

def supersLexemes : List String → List Lexeme
  | [] => []
  | supers => mark .colon :: separated .comma (supers.map ([.name ·]))

def lexemes (style : Style) (d : ClassDecl) : List Lexeme :=
  mark .classWord :: .name d.name :: angled (d.generics.map ([.name ·])) ++
    supersLexemes d.supers ++
    braces (ended (d.constructors.map (constructorLexemes style) ++
      d.fields.map (FieldGroup.lexemes style)))

def wellFormed (d : ClassDecl) : Bool :=
  d.constructors.all (·.all TypeTerm.wellFormed) && d.fields.all FieldGroup.wellFormed

def unplaced (d : ClassDecl) : ClassDecl :=
  { d with
    constructors := d.constructors.map (·.map TypeTerm.unplaced)
    fields := d.fields.map FieldGroup.unplaced }

end ClassDecl

/-! ## Expressions and statements -/

namespace Literal

def lexeme : Literal → Lexeme
  | .int value => ⟨.number, toString value⟩
  | .double value => ⟨.number, toString value⟩
  | .string value => ⟨.string, value⟩
  | .bool true => mark .trueWord
  | .bool false => mark .falseWord
  | .noneValue => mark .noneWord

/-- Whole numbers are not negative and fit 64 bits with a sign. -/
def wellFormed : Literal → Bool
  | .int value => decide (0 ≤ value ∧ value < Numeral.limit)
  | .double _ => false
  | _ => true

end Literal

/-- Whether the statements are those that can follow `else` without braces. -/
def Stmt.isConditional : List Stmt → Bool
  | [.ifElse ..] => true
  | _ => false

mutual

def Expr.lexemes (style : Style) : Expr → List Lexeme
  | .literal value _ => [value.lexeme]
  | .symbol name _ => [.name name]
  | .member object name _ => parens (object.lexemes style) ++ [mark .dot, .name name]
  | .call callee args _ =>
      parens (callee.lexemes style) ++ parens (separated .comma (Expr.pieces style args))
  | .index object position _ =>
      parens (object.lexemes style) ++ brackets (parens (position.lexemes style))
  | .construct name args _ =>
      mark .newWord :: .name name :: parens (separated .comma (Expr.pieces style args))
  | .cast value target _ =>
      parens (value.lexemes style) ++ mark .cast :: parens target.lexemes
  | .tuple items _ => tupled (Expr.pieces style items)
  | .spread value _ => mark .ellipsis :: parens (value.lexemes style)
  | .array items _ => brackets (separated .comma (Expr.pieces style items))
  | .binary left operator right _ =>
      parens (left.lexemes style) ++ operator.lexeme :: parens (right.lexemes style)
  | .function generics params result body _ =>
      mark .fnWord :: angled (generics.map ([.name ·])) ++
        parens (separated .comma (params.map (Param.lexemes style))) ++
        optional [mark .arrow] (result.map fun a => style.whole a.lexemes) ++
        body.lexemes style

/-- The expressions as parts of another. -/
def Expr.pieces (style : Style) : List Expr → List (List Lexeme)
  | [] => []
  | e :: es => parens (e.lexemes style) :: Expr.pieces style es

def Expr.lexemesAny (style : Style) : Option Expr → Option (List Lexeme)
  | none => none
  | some e => some (style.whole (e.lexemes style))

/-- A statement without the semicolon that ends it. -/
def Stmt.lexemes (style : Style) : Stmt → List Lexeme
  | .expr value _ => style.whole (value.lexemes style)
  | .define names value constant _ =>
      (if constant then [mark .constWord] else []) ++
        separated .comma (names.map ([.name ·])) ++
        mark .assignment :: style.whole (value.lexemes style)
  | .declare name term value constant _ =>
      (if constant then [mark .constWord] else []) ++
        .name name :: mark .colon :: style.whole term.lexemes ++
        optional [mark .assignment] (Expr.lexemesAny style value)
  | .classDecl decl _ => decl.lexemes style
  | .methods name body _ => mark .implWord :: .name name :: body.lexemes style
  | .ifElse condition yes no _ =>
      mark .ifWord :: style.whole (condition.lexemes style) ++ yes.lexemes style ++
        optional [mark .elseWord] (Block.elseAny style no)
  | .whileLoop condition body _ =>
      mark .whileWord :: style.whole (condition.lexemes style) ++ body.lexemes style
  | .doWhile body condition _ =>
      mark .doWord :: body.lexemes style ++
        mark .whileWord :: style.whole (condition.lexemes style)
  | .switch subject cases otherwise _ =>
      mark .switchWord :: style.whole (subject.lexemes style) ++
        braces ((Case.pieces style cases).flatten ++
          optional [mark .defaultWord] (Block.lexemesAny style otherwise))
  | .return value _ => mark .returnWord :: optional [] (Expr.lexemesAny style value)

def Stmt.pieces (style : Style) : List Stmt → List (List Lexeme)
  | [] => []
  | stmt :: stmts => stmt.lexemes style :: Stmt.pieces style stmts

def Block.lexemes (style : Style) : Block → List Lexeme
  | ⟨body, _⟩ => braces (ended (Stmt.pieces style body))

def Block.lexemesAny (style : Style) : Option Block → Option (List Lexeme)
  | none => none
  | some block => some (block.lexemes style)

def Block.elseAny (style : Style) : Option Block → Option (List Lexeme)
  | none => none
  | some ⟨body, _⟩ =>
      some (if style.chained && Stmt.isConditional body then (Stmt.pieces style body).flatten
        else braces (ended (Stmt.pieces style body)))

def Case.pieces (style : Style) : List Case → List (List Lexeme)
  | [] => []
  | ⟨pattern, body, _⟩ :: cases =>
      (mark .caseWord :: pattern.lexemes style ++ body.lexemes style) :: Case.pieces style cases

def Pattern.lexemes (style : Style) : Pattern → List Lexeme
  | .type name term => .name name :: mark .colon :: style.whole term.lexemes
  | .value value => style.whole (value.lexemes style)

end

mutual

/-- An operator is one that stands between two expressions, with a variable on its left when
it assigns to it; what is written in between is well-formed too. -/
def Expr.wellFormed : Expr → Bool
  | .literal value _ => value.wellFormed
  | .symbol _ _ => true
  | .member object _ _ => object.wellFormed
  | .call callee args _ => callee.wellFormed && Expr.wellFormedAll args
  | .index object position _ => object.wellFormed && position.wellFormed
  | .construct _ args _ => Expr.wellFormedAll args
  | .cast value target _ => value.wellFormed && target.wellFormed
  | .tuple items _ => Expr.wellFormedAll items
  | .spread value _ => value.wellFormed
  | .array items _ => Expr.wellFormedAll items
  | .binary left operator right _ =>
      (operator.kind.isOperator || operator.kind.isCompoundAssignment && left.isSymbol) &&
        left.wellFormed && right.wellFormed
  | .function _ params result body _ =>
      params.all Param.wellFormed && result.all TypeTerm.wellFormed && body.wellFormed

def Expr.wellFormedAll : List Expr → Bool
  | [] => true
  | e :: es => e.wellFormed && Expr.wellFormedAll es

def Expr.wellFormedAny : Option Expr → Bool
  | none => true
  | some e => e.wellFormed

/-- A definition has a name to define. -/
def Stmt.wellFormed : Stmt → Bool
  | .expr value _ => value.wellFormed
  | .define names value _ _ => !names.isEmpty && value.wellFormed
  | .declare _ term value _ _ => term.wellFormed && Expr.wellFormedAny value
  | .classDecl decl _ => decl.wellFormed
  | .methods _ body _ => body.wellFormed
  | .ifElse condition yes no _ =>
      condition.wellFormed && yes.wellFormed && Block.wellFormedAny no
  | .whileLoop condition body _ => condition.wellFormed && body.wellFormed
  | .doWhile body condition _ => body.wellFormed && condition.wellFormed
  | .switch subject cases otherwise _ =>
      subject.wellFormed && Case.wellFormedAll cases && Block.wellFormedAny otherwise
  | .return value _ => Expr.wellFormedAny value

def Stmt.wellFormedAll : List Stmt → Bool
  | [] => true
  | stmt :: stmts => stmt.wellFormed && Stmt.wellFormedAll stmts

def Block.wellFormed : Block → Bool
  | ⟨body, _⟩ => Stmt.wellFormedAll body

def Block.wellFormedAny : Option Block → Bool
  | none => true
  | some block => block.wellFormed

def Case.wellFormedAll : List Case → Bool
  | [] => true
  | ⟨pattern, body, _⟩ :: cases =>
      pattern.wellFormed && body.wellFormed && Case.wellFormedAll cases

def Pattern.wellFormed : Pattern → Bool
  | .type _ term => term.wellFormed
  | .value value => value.wellFormed

end

def Token.unplaced (t : Token) : Token := { t with span := .null }

def Note.unplaced (note : Note) : Note := { note with span := .null }

mutual

/-- The expression with blank places, that of an operator included. -/
def Expr.unplaced : Expr → Expr
  | .literal value note => .literal value note.unplaced
  | .symbol name note => .symbol name note.unplaced
  | .member object name note => .member object.unplaced name note.unplaced
  | .call callee args note => .call callee.unplaced (Expr.unplacedAll args) note.unplaced
  | .index object position note => .index object.unplaced position.unplaced note.unplaced
  | .construct name args note => .construct name (Expr.unplacedAll args) note.unplaced
  | .cast value target note => .cast value.unplaced target.unplaced note.unplaced
  | .tuple items note => .tuple (Expr.unplacedAll items) note.unplaced
  | .spread value note => .spread value.unplaced note.unplaced
  | .array items note => .array (Expr.unplacedAll items) note.unplaced
  | .binary left operator right note =>
      .binary left.unplaced operator.unplaced right.unplaced note.unplaced
  | .function generics params result body note =>
      .function generics (params.map Param.unplaced) (result.map TypeTerm.unplaced)
        body.unplaced note.unplaced

def Expr.unplacedAll : List Expr → List Expr
  | [] => []
  | e :: es => e.unplaced :: Expr.unplacedAll es

def Expr.unplacedAny : Option Expr → Option Expr
  | none => none
  | some e => some e.unplaced

def Stmt.unplaced : Stmt → Stmt
  | .expr value _ => .expr value.unplaced .null
  | .define names value constant _ => .define names value.unplaced constant .null
  | .declare name term value constant _ =>
      .declare name term.unplaced (Expr.unplacedAny value) constant .null
  | .classDecl decl _ => .classDecl decl.unplaced .null
  | .methods name body _ => .methods name body.unplaced .null
  | .ifElse condition yes no _ =>
      .ifElse condition.unplaced yes.unplaced (Block.unplacedAny no) .null
  | .whileLoop condition body _ => .whileLoop condition.unplaced body.unplaced .null
  | .doWhile body condition _ => .doWhile body.unplaced condition.unplaced .null
  | .switch subject cases otherwise _ =>
      .switch subject.unplaced (Case.unplacedAll cases) (Block.unplacedAny otherwise) .null
  | .return value _ => .return (Expr.unplacedAny value) .null

def Stmt.unplacedAll : List Stmt → List Stmt
  | [] => []
  | stmt :: stmts => stmt.unplaced :: Stmt.unplacedAll stmts

def Block.unplaced : Block → Block
  | ⟨body, _⟩ => ⟨Stmt.unplacedAll body, .null⟩

def Block.unplacedAny : Option Block → Option Block
  | none => none
  | some block => some block.unplaced

def Case.unplacedAll : List Case → List Case
  | [] => []
  | ⟨pattern, body, _⟩ :: cases =>
      ⟨pattern.unplaced, body.unplaced, .null⟩ :: Case.unplacedAll cases

def Pattern.unplaced : Pattern → Pattern
  | .type name term => .type name term.unplaced
  | .value value => .value value.unplaced

end

/-! ## Lists of trees, element by element -/

def Case.lexemes (style : Style) (c : Case) : List Lexeme :=
  mark .caseWord :: c.pattern.lexemes style ++ c.body.lexemes style

def Case.wellFormed (c : Case) : Bool := c.pattern.wellFormed && c.body.wellFormed

def Case.unplaced (c : Case) : Case := ⟨c.pattern.unplaced, c.body.unplaced, .null⟩

def Block.elseLexemes (style : Style) (block : Block) : List Lexeme :=
  if style.chained && Stmt.isConditional block.body then (Stmt.pieces style block.body).flatten
  else block.lexemes style

section

variable {α : Type} {style : Style}

theorem eq_all_of_cons {f : List α → Bool} {g : α → Bool} (nil : f [] = true)
    (cons : ∀ a as, f (a :: as) = (g a && f as)) (as : List α) : f as = as.all g := by
  induction as with
  | nil => exact nil
  | cons a as ih => rw [cons, ih, List.all_cons]

@[simp] theorem TypeTerm.pieces_eq (as : List TypeTerm) :
    TypeTerm.pieces as = as.map fun a => parens a.lexemes :=
  eq_map_of_cons rfl (fun _ _ => rfl) as

@[simp] theorem TypeTerm.wellFormedAll_eq (as : List TypeTerm) :
    TypeTerm.wellFormedAll as = as.all TypeTerm.wellFormed :=
  eq_all_of_cons rfl (fun _ _ => rfl) as

@[simp] theorem TypeTerm.unplacedAll_eq (as : List TypeTerm) :
    TypeTerm.unplacedAll as = as.map TypeTerm.unplaced :=
  eq_map_of_cons rfl (fun _ _ => rfl) as

@[simp] theorem Signature.pieces_eq (ss : List Signature) :
    Signature.pieces ss = ss.map fun s => parens s.lexemes :=
  eq_map_of_cons rfl (fun _ _ => rfl) ss

@[simp] theorem Signature.wellFormedAll_eq (ss : List Signature) :
    Signature.wellFormedAll ss = ss.all Signature.wellFormed :=
  eq_all_of_cons rfl (fun _ _ => rfl) ss

@[simp] theorem Signature.unplacedAll_eq (ss : List Signature) :
    Signature.unplacedAll ss = ss.map Signature.unplaced :=
  eq_map_of_cons rfl (fun _ _ => rfl) ss

@[simp] theorem Expr.pieces_eq (es : List Expr) :
    Expr.pieces style es = es.map fun e => parens (e.lexemes style) :=
  eq_map_of_cons rfl (fun _ _ => rfl) es

@[simp] theorem Expr.wellFormedAll_eq (es : List Expr) :
    Expr.wellFormedAll es = es.all Expr.wellFormed :=
  eq_all_of_cons rfl (fun _ _ => rfl) es

@[simp] theorem Expr.unplacedAll_eq (es : List Expr) :
    Expr.unplacedAll es = es.map Expr.unplaced :=
  eq_map_of_cons rfl (fun _ _ => rfl) es

@[simp] theorem Expr.lexemesAny_eq (e : Option Expr) :
    Expr.lexemesAny style e = e.map fun e => style.whole (e.lexemes style) := by
  cases e <;> rfl

@[simp] theorem Expr.wellFormedAny_eq (e : Option Expr) :
    Expr.wellFormedAny e = e.all Expr.wellFormed := by
  cases e <;> rfl

@[simp] theorem Expr.unplacedAny_eq (e : Option Expr) :
    Expr.unplacedAny e = e.map Expr.unplaced := by
  cases e <;> rfl

@[simp] theorem Stmt.pieces_eq (stmts : List Stmt) :
    Stmt.pieces style stmts = stmts.map (Stmt.lexemes style) :=
  eq_map_of_cons rfl (fun _ _ => rfl) stmts

@[simp] theorem Stmt.wellFormedAll_eq (stmts : List Stmt) :
    Stmt.wellFormedAll stmts = stmts.all Stmt.wellFormed :=
  eq_all_of_cons rfl (fun _ _ => rfl) stmts

@[simp] theorem Stmt.unplacedAll_eq (stmts : List Stmt) :
    Stmt.unplacedAll stmts = stmts.map Stmt.unplaced :=
  eq_map_of_cons rfl (fun _ _ => rfl) stmts

@[simp] theorem Block.lexemesAny_eq (block : Option Block) :
    Block.lexemesAny style block = block.map (Block.lexemes style) := by
  cases block <;> rfl

@[simp] theorem Block.elseAny_eq (block : Option Block) :
    Block.elseAny style block = block.map (Block.elseLexemes style) := by
  rcases block with _ | ⟨_, _⟩ <;> rfl

@[simp] theorem Block.wellFormedAny_eq (block : Option Block) :
    Block.wellFormedAny block = block.all Block.wellFormed := by
  cases block <;> rfl

@[simp] theorem Block.unplacedAny_eq (block : Option Block) :
    Block.unplacedAny block = block.map Block.unplaced := by
  cases block <;> rfl

@[simp] theorem Case.pieces_eq (cases : List Case) :
    Case.pieces style cases = cases.map (Case.lexemes style) :=
  eq_map_of_cons rfl (by rintro ⟨_, _, _⟩ _; rfl) cases

@[simp] theorem Case.wellFormedAll_eq (cases : List Case) :
    Case.wellFormedAll cases = cases.all Case.wellFormed :=
  eq_all_of_cons rfl (by rintro ⟨_, _, _⟩ _; rfl) cases

@[simp] theorem Case.unplacedAll_eq (cases : List Case) :
    Case.unplacedAll cases = cases.map Case.unplaced :=
  eq_map_of_cons rfl (by rintro ⟨_, _, _⟩ _; rfl) cases

end

namespace Program

def lexemes (style : Style) (p : Program) : List Lexeme := ended (Stmt.pieces style p.body)

def wellFormed (p : Program) : Bool := Stmt.wellFormedAll p.body

def unplaced (p : Program) : Program := ⟨Stmt.unplacedAll p.body, .null⟩

end Program

/-! ## Blank places -/

@[simp] theorem TypeTerm.span_unplaced (a : TypeTerm) : a.unplaced.span = .null := by
  rcases a with _ | _ | _ | ⟨_, _, _⟩ | _ | _ | _ <;>
    simp [TypeTerm.unplaced, Signature.unplaced, TypeTerm.span]

@[simp] theorem Expr.span_unplaced (e : Expr) : e.unplaced.span = .null := by
  cases e <;> simp [Expr.unplaced, Note.unplaced, Expr.span, Expr.note]

@[simp] theorem Stmt.span_unplaced (stmt : Stmt) : stmt.unplaced.span = .null := by
  cases stmt <;> simp [Stmt.unplaced, Stmt.span]

/-- Whether an annotation is one of functions does not hang on its places. -/
theorem TypeTerm.signatures?_unplaced (a : TypeTerm) :
    a.unplaced.signatures? = a.signatures?.map (·.map Signature.unplaced) := by
  cases a <;> simp [TypeTerm.unplaced, TypeTerm.signatures?]

theorem Expr.isSymbol_unplaced (e : Expr) : e.unplaced.isSymbol = e.isSymbol := by
  cases e <;> simp [Expr.unplaced, Expr.isSymbol]

/-! ## No end mark among the lexemes -/

namespace Lexeme

variable {l : Lexeme} {ls ls' before : List Lexeme} {pieces : List (List Lexeme)}

def Inner (ls : List Lexeme) : Prop := ∀ l ∈ ls, l.kind ≠ .eof

@[simp] theorem inner_nil : Inner [] := by simp [Inner]

@[simp] theorem inner_cons : Inner (l :: ls) ↔ l.kind ≠ .eof ∧ Inner ls := List.forall_mem_cons

@[simp] theorem inner_append : Inner (ls ++ ls') ↔ Inner ls ∧ Inner ls' := List.forall_mem_append

@[simp] theorem kind_mark (kind : Token.Kind) : (mark kind).kind = kind := rfl

@[simp] theorem kind_name (text : String) : (name text).kind = .identifier := rfl

@[simp] theorem inner_parens : Inner (parens ls) ↔ Inner ls := by simp [parens]

@[simp] theorem inner_brackets : Inner (brackets ls) ↔ Inner ls := by simp [brackets]

@[simp] theorem inner_braces : Inner (braces ls) ↔ Inner ls := by simp [braces]

@[simp] theorem inner_whole (style : Style) : Inner (style.whole ls) ↔ Inner ls := by
  unfold Style.whole
  split <;> simp

theorem inner_flatten (each : ∀ piece ∈ pieces, Inner piece) : Inner pieces.flatten := by
  intro l among
  obtain ⟨piece, listed, inside⟩ := List.mem_flatten.mp among
  exact each piece listed l inside

theorem inner_separated {kind : Token.Kind} (inner : kind ≠ .eof)
    (each : ∀ piece ∈ pieces, Inner piece) : Inner (separated kind pieces) := by
  cases pieces with
  | nil => exact inner_nil
  | cons piece pieces =>
    obtain ⟨first, rest⟩ := List.forall_mem_cons.mp each
    refine inner_append.mpr ⟨first, fun l among => ?_⟩
    obtain ⟨other, listed, inside⟩ := List.mem_flatMap.mp among
    exact inner_cons.mpr ⟨inner, rest other listed⟩ l inside

theorem inner_tupled (each : ∀ piece ∈ pieces, Inner piece) : Inner (tupled pieces) := by
  unfold tupled
  split
  · simpa using each
  · exact inner_parens.mpr (inner_separated (by decide) each)

theorem inner_angled (each : ∀ piece ∈ pieces, Inner piece) : Inner (angled pieces) := by
  unfold angled
  split
  · exact inner_nil
  · simpa using inner_separated (by decide) each

theorem inner_ended (each : ∀ piece ∈ pieces, Inner piece) : Inner (ended pieces) := by
  intro l among
  obtain ⟨piece, listed, inside⟩ := List.mem_flatMap.mp among
  exact inner_append.mpr ⟨each piece listed, by simp⟩ l inside

theorem inner_optional {piece : Option (List Lexeme)} (before_ : Inner before)
    (each : ∀ ls ∈ piece, Inner ls) : Inner (optional before piece) := by
  cases piece with
  | none => exact inner_nil
  | some ls => exact inner_append.mpr ⟨before_, each ls rfl⟩

theorem inner_names (names : List String) : ∀ piece ∈ names.map ([name ·]), Inner piece := by
  simp

end Lexeme

mutual

/-- By structural induction: an annotation is written without an end mark. -/
theorem TypeTerm.inner : (a : TypeTerm) → Inner a.lexemes
  | .named _ generics _ =>
      inner_cons.mpr ⟨by simp, inner_angled (TypeTerm.innerAll generics)⟩
  | .noneType _ => by simp [TypeTerm.lexemes]
  | .tuple items _ => inner_tupled (TypeTerm.innerAll items)
  | .function signature => Signature.inner signature
  | .overloads members _ => inner_separated (by decide) (Signature.innerAll members)
  | .array item _ => by simpa [TypeTerm.lexemes] using TypeTerm.inner item
  | .maybe item _ => by simpa [TypeTerm.lexemes] using TypeTerm.inner item
termination_by structural a => a

theorem TypeTerm.innerAll : (as : List TypeTerm) → ∀ piece ∈ TypeTerm.pieces as, Inner piece
  | [] => by simp
  | a :: as => List.forall_mem_cons.mpr ⟨inner_parens.mpr (TypeTerm.inner a), TypeTerm.innerAll as⟩
termination_by structural as => as

theorem Signature.inner : (s : Signature) → Inner s.lexemes
  | ⟨params, result, _⟩ => inner_append.mpr
      ⟨inner_parens.mpr (inner_separated (by decide) (TypeTerm.innerAll params)),
        inner_cons.mpr ⟨by simp, inner_parens.mpr (TypeTerm.inner result)⟩⟩
termination_by structural s => s

theorem Signature.innerAll : (ss : List Signature) → ∀ piece ∈ Signature.pieces ss, Inner piece
  | [] => by simp
  | s :: ss =>
      List.forall_mem_cons.mpr ⟨inner_parens.mpr (Signature.inner s), Signature.innerAll ss⟩
termination_by structural ss => ss

end

theorem Param.inner (style : Style) (p : Param) : Inner (p.lexemes style) := by
  simpa [Param.lexemes] using p.term.inner

theorem FieldGroup.inner (style : Style) (g : FieldGroup) : Inner (g.lexemes style) := by
  have named : ∀ name, (fieldName style name).kind ≠ .eof := by
    intro name
    unfold fieldName
    split <;> simp
  refine inner_append.mpr ⟨inner_separated (by decide) ?_, by simpa using g.term.inner⟩
  simpa using fun name _ => named name

namespace ClassDecl

theorem inner_constructor (style : Style) (params : List TypeTerm) :
    Inner (constructorLexemes style params) := by
  refine inner_cons.mpr ⟨by simp, inner_parens.mpr (inner_separated (by decide) ?_)⟩
  simpa using fun a _ => a.inner

theorem inner (style : Style) (d : ClassDecl) : Inner (d.lexemes style) := by
  have supers : Inner (supersLexemes d.supers) := by
    unfold supersLexemes
    split
    · exact inner_nil
    · exact inner_cons.mpr ⟨by simp, inner_separated (by decide) (inner_names _)⟩
  have parts : Inner (ended (d.constructors.map (constructorLexemes style) ++
      d.fields.map (FieldGroup.lexemes style))) := by
    refine inner_ended (List.forall_mem_append.mpr ⟨?_, ?_⟩)
    · simpa using fun params _ => inner_constructor style params
    · simpa using fun g _ => g.inner style
  simpa [lexemes, parts, supers] using inner_angled (inner_names d.generics)

end ClassDecl

theorem Literal.inner (value : Literal) : value.lexeme.kind ≠ .eof := by
  rcases value with _ | _ | _ | (_ | _) | _ <;> simp [Literal.lexeme]

mutual

/-- By structural induction: a well-formed expression is written without an end mark. -/
theorem Expr.inner (style : Style) : (e : Expr) → e.wellFormed = true → Inner (e.lexemes style)
  | .literal value _, _ => by simpa [Expr.lexemes] using value.inner
  | .symbol _ _, _ => by simp [Expr.lexemes]
  | .member object _ _, fine => by
    simpa [Expr.lexemes] using Expr.inner style object fine
  | .call callee args _, fine => by
    rw [Expr.wellFormed, Bool.and_eq_true] at fine
    exact inner_append.mpr ⟨inner_parens.mpr (Expr.inner style callee fine.1),
      inner_parens.mpr (inner_separated (by decide) (Expr.innerAll style args fine.2))⟩
  | .index object position _, fine => by
    rw [Expr.wellFormed, Bool.and_eq_true] at fine
    simpa [Expr.lexemes] using
      And.intro (Expr.inner style object fine.1) (Expr.inner style position fine.2)
  | .construct _ args _, fine => by
    simpa [Expr.lexemes] using inner_separated (by decide) (Expr.innerAll style args fine)
  | .cast value target _, fine => by
    rw [Expr.wellFormed, Bool.and_eq_true] at fine
    simpa [Expr.lexemes] using And.intro (Expr.inner style value fine.1) target.inner
  | .tuple items _, fine => inner_tupled (Expr.innerAll style items fine)
  | .spread value _, fine => by simpa [Expr.lexemes] using Expr.inner style value fine
  | .array items _, fine =>
      inner_brackets.mpr (inner_separated (by decide) (Expr.innerAll style items fine))
  | .binary left operator right _, fine => by
    rw [Expr.wellFormed, Bool.and_eq_true, Bool.and_eq_true] at fine
    have kind : operator.kind ≠ .eof := by
      intro eof
      simp [eof, Token.Kind.isOperator, Token.Kind.isCompoundAssignment] at fine
    simpa [Expr.lexemes, Token.lexeme, kind] using
      And.intro (Expr.inner style left fine.1.2) (Expr.inner style right fine.2)
  | .function generics params result body _, fine => by
    rw [Expr.wellFormed, Bool.and_eq_true] at fine
    have params_ : Inner (separated .comma (params.map (Param.lexemes style))) :=
      inner_separated (by decide) (by simpa using fun p _ => p.inner style)
    have result_ : Inner (optional [mark .arrow] (result.map fun a => style.whole a.lexemes)) :=
      inner_optional (by simp) (by simpa using fun a _ => a.inner)
    simpa [Expr.lexemes, params_, result_, inner_angled (inner_names generics)] using
      Block.inner style body fine.2
termination_by structural e => e

theorem Expr.innerAll (style : Style) : (es : List Expr) → Expr.wellFormedAll es = true →
    ∀ piece ∈ Expr.pieces style es, Inner piece
  | [], _ => by simp
  | e :: es, fine => by
    rw [Expr.wellFormedAll, Bool.and_eq_true] at fine
    exact List.forall_mem_cons.mpr
      ⟨inner_parens.mpr (Expr.inner style e fine.1), Expr.innerAll style es fine.2⟩
termination_by structural es => es

theorem Expr.innerAny (style : Style) : (e : Option Expr) → Expr.wellFormedAny e = true →
    ∀ ls ∈ Expr.lexemesAny style e, Inner ls
  | none, _ => by simp
  | some e, fine => by
    rintro _ ⟨⟩
    exact (inner_whole style).mpr (Expr.inner style e fine)
termination_by structural e => e

theorem Stmt.inner (style : Style) : (stmt : Stmt) → stmt.wellFormed = true →
    Inner (stmt.lexemes style)
  | .expr value _, fine => (inner_whole style).mpr (Expr.inner style value fine)
  | .define names value constant _, fine => by
    rw [Stmt.wellFormed, Bool.and_eq_true] at fine
    have value_ := Expr.inner style value fine.2
    cases constant <;>
      simpa [Stmt.lexemes, value_] using inner_separated (by decide) (inner_names names)
  | .declare _ term value constant _, fine => by
    rw [Stmt.wellFormed, Bool.and_eq_true] at fine
    have value_ : Inner (optional [mark .assignment] (Expr.lexemesAny style value)) :=
      inner_optional (by simp) (Expr.innerAny style value fine.2)
    rw [Expr.lexemesAny_eq] at value_
    cases constant <;> simpa [Stmt.lexemes, value_] using term.inner
  | .classDecl decl _, _ => decl.inner style
  | .methods _ body _, fine => by
    simpa [Stmt.lexemes] using Block.inner style body fine
  | .ifElse condition yes no _, fine => by
    rw [Stmt.wellFormed, Bool.and_eq_true, Bool.and_eq_true] at fine
    have no_ : Inner (optional [mark .elseWord] (Block.elseAny style no)) :=
      inner_optional (by simp) (Block.innerElse style no fine.2)
    rw [Block.elseAny_eq] at no_
    simpa [Stmt.lexemes, no_] using
      And.intro (Expr.inner style condition fine.1.1) (Block.inner style yes fine.1.2)
  | .whileLoop condition body _, fine => by
    rw [Stmt.wellFormed, Bool.and_eq_true] at fine
    simpa [Stmt.lexemes] using
      And.intro (Expr.inner style condition fine.1) (Block.inner style body fine.2)
  | .doWhile body condition _, fine => by
    rw [Stmt.wellFormed, Bool.and_eq_true] at fine
    simpa [Stmt.lexemes] using
      And.intro (Block.inner style body fine.1) (Expr.inner style condition fine.2)
  | .switch subject cases otherwise _, fine => by
    rw [Stmt.wellFormed, Bool.and_eq_true, Bool.and_eq_true] at fine
    have cases_ := inner_flatten (Case.innerAll style cases fine.1.2)
    have otherwise_ : Inner (optional [mark .defaultWord] (Block.lexemesAny style otherwise)) :=
      inner_optional (by simp) (Block.innerAny style otherwise fine.2)
    rw [Case.pieces_eq] at cases_
    rw [Block.lexemesAny_eq] at otherwise_
    simpa [Stmt.lexemes, cases_, otherwise_] using Expr.inner style subject fine.1.1
  | .return value _, fine =>
      inner_cons.mpr ⟨by simp, inner_optional inner_nil (Expr.innerAny style value fine)⟩
termination_by structural stmt => stmt

theorem Stmt.innerAll (style : Style) : (stmts : List Stmt) → Stmt.wellFormedAll stmts = true →
    ∀ piece ∈ Stmt.pieces style stmts, Inner piece
  | [], _ => by simp
  | stmt :: stmts, fine => by
    rw [Stmt.wellFormedAll, Bool.and_eq_true] at fine
    exact List.forall_mem_cons.mpr
      ⟨Stmt.inner style stmt fine.1, Stmt.innerAll style stmts fine.2⟩
termination_by structural stmts => stmts

theorem Block.inner (style : Style) : (block : Block) → block.wellFormed = true →
    Inner (block.lexemes style)
  | ⟨body, _⟩, fine => inner_braces.mpr (inner_ended (Stmt.innerAll style body fine))
termination_by structural block => block

theorem Block.innerAny (style : Style) : (block : Option Block) →
    Block.wellFormedAny block = true → ∀ ls ∈ Block.lexemesAny style block, Inner ls
  | none, _ => by simp
  | some block, fine => by
    rintro _ ⟨⟩
    exact Block.inner style block fine
termination_by structural block => block

theorem Block.innerElse (style : Style) : (block : Option Block) →
    Block.wellFormedAny block = true → ∀ ls ∈ Block.elseAny style block, Inner ls
  | none, _ => by simp
  | some ⟨body, _⟩, fine => by
    have each := Stmt.innerAll style body fine
    rintro _ ⟨⟩
    split
    · exact inner_flatten each
    · exact inner_braces.mpr (inner_ended each)
termination_by structural block => block

theorem Case.innerAll (style : Style) : (cases : List Case) → Case.wellFormedAll cases = true →
    ∀ piece ∈ Case.pieces style cases, Inner piece
  | [], _ => by simp
  | ⟨pattern, body, _⟩ :: cases, fine => by
    rw [Case.wellFormedAll, Bool.and_eq_true, Bool.and_eq_true] at fine
    refine List.forall_mem_cons.mpr ⟨?_, Case.innerAll style cases fine.2⟩
    simpa using And.intro (Pattern.inner style pattern fine.1.1) (Block.inner style body fine.1.2)
termination_by structural cases => cases

theorem Pattern.inner (style : Style) : (pattern : Pattern) → pattern.wellFormed = true →
    Inner (pattern.lexemes style)
  | .type _ term, _ => by simpa [Pattern.lexemes] using term.inner
  | .value value, fine => (inner_whole style).mpr (Expr.inner style value fine)
termination_by structural pattern => pattern

end

/-- The lexemes of a program can stand before an end mark. -/
theorem Program.inner {style : Style} {p : Program} (fine : p.wellFormed = true) :
    Inner (p.lexemes style) :=
  inner_ended (Stmt.innerAll style p.body fine)

end ShapeLang
