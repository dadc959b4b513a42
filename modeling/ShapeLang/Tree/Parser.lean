import ShapeLang.Numeral
import ShapeLang.Tree
import ShapeLang.TypeTerm.Parser

/-!
# Reading programs

Expressions are read by precedence: an operand, then operators as long as they
bind tighter than the power asked for. A statement is known by its first token,
or by what follows a name. A semicolon after a statement is optional.
-/

namespace ShapeLang

open Cursor

/-- Reads one or more names with commas between them. -/
def Cursor.readNames (refuse : Cursor → Rejection) (c : Cursor) : Reads (List String) c.size := do
  let ⟨name, c₁, h₁⟩ ← c.takeOr .identifier (refuse c)
  match c₁.take? .comma with
  | none => return ⟨[name.text], c₁, h₁⟩
  | some ⟨_, c₂, h₂⟩ => do
      let ⟨others, c₃, h₃⟩ ← readNames refuse c₂
      return ⟨name.text :: others, c₃, fewer₃ h₁ h₂ h₃⟩
termination_by c.size
decreasing_by simp only [size] at *; omega

/-- Reads names between angle brackets, if there is an opening one. -/
def Cursor.readGenericNames (c : Cursor) : Reads (List String) (c.size + 1) :=
  match c.take? .less with
  | none => return ⟨[], c, c.fewer_self⟩
  | some ⟨_, c₁, h₁⟩ => do
      let ⟨names, c₂, h₂⟩ ← c₁.readNames unexpected
      let ⟨_, c₃, h₃⟩ ← c₂.take .greater
      return .loosen ⟨names, c₃, fewer₃ h₁ h₂ h₃⟩

/-- Reads parameters up to and including a closing parenthesis. -/
def Param.readList (c : Cursor) : Reads (List Param) c.size :=
  match c.take? .closeParen with
  | some ⟨_, c₁, h₁⟩ => return ⟨[], c₁, h₁⟩
  | none => do
      let ⟨name, c₁, h₁⟩ ← c.takeOr .identifier (c.unexpectedFor "expected parameter name")
      let ⟨_, c₂, h₂⟩ ← c₁.take .colon
      let ⟨term, c₃, h₃⟩ ← TypeTerm.read .default c₂
      match c₃.take? .comma with
      | none => do
          let ⟨_, c₄, h₄⟩ ← c₃.take .closeParen
          return ⟨[⟨name.text, term⟩], c₄, fewer₄ h₁ h₂ h₃ h₄⟩
      | some ⟨_, c₄, h₄⟩ => do
          let ⟨others, c₅, h₅⟩ ← readList c₄
          return ⟨⟨name.text, term⟩ :: others, c₅, fewer₅ h₁ h₂ h₃ h₄ h₅⟩
termination_by c.size
decreasing_by simp only [size] at *; omega

namespace ClassDecl

/-- Reads the names of a field group; operators are written as strings. -/
def readFieldNames (c : Cursor) : Reads (List String) c.size :=
  match c.next? with
  | none => .error (c.unexpectedFor "expected field name")
  | some ⟨t, c₁, h₁⟩ =>
      if t.kind = .identifier ∨ t.kind = .string then
        match c₁.take? .comma with
        | none => return ⟨[t.text], c₁, h₁⟩
        | some ⟨_, c₂, h₂⟩ => do
            let ⟨others, c₃, h₃⟩ ← readFieldNames c₂
            return ⟨t.text :: others, c₃, fewer₃ h₁ h₂ h₃⟩
      else .error (c.unexpectedFor "expected field name")
termination_by c.size
decreasing_by simp only [size] at *; omega

/-- What a class body is made of. -/
inductive Part where
  | constructor (params : List TypeTerm)
  | fields (group : FieldGroup)

def readPart (c : Cursor) : Reads Part c.size :=
  match c.kind with
  | .newWord => do
      let ⟨_, c₁, h₁⟩ ← c.take .newWord
      let ⟨_, c₂, h₂⟩ ← c₁.take .openParen
      let ⟨(params, _), c₃, h₃⟩ ← TypeTerm.readItems false c₂
      return ⟨.constructor params, c₃, fewer₃ h₁ h₂ h₃⟩
  | .identifier | .string => do
      let ⟨names, c₁, h₁⟩ ← readFieldNames c
      let ⟨_, c₂, h₂⟩ ← c₁.take .colon
      let ⟨term, c₃, h₃⟩ ← TypeTerm.read .default c₂
      return ⟨.fields ⟨names, term, c₃.spanFrom c.current.span.start⟩, c₃, fewer₃ h₁ h₂ h₃⟩
  | _ => .error (c.unexpectedFor "expected `new` or a field in class body")

/-- Reads the parts of a class up to and including the closing brace. A comma or a
semicolon may follow each. -/
def readParts (c : Cursor) : Reads (List Part) c.size :=
  match c.take? .closeCurly with
  | some ⟨_, c₁, h₁⟩ => return ⟨[], c₁, h₁⟩
  | none => do
      let ⟨part, c₁, h₁⟩ ← readPart c
      match c₁.take? .comma with
      | some ⟨_, c₂, h₂⟩ => do
          let ⟨others, c₃, h₃⟩ ← readParts c₂
          return ⟨part :: others, c₃, fewer₃ h₁ h₂ h₃⟩
      | none =>
          match c₁.take? .semicolon with
          | some ⟨_, c₂, h₂⟩ => do
              let ⟨others, c₃, h₃⟩ ← readParts c₂
              return ⟨part :: others, c₃, fewer₃ h₁ h₂ h₃⟩
          | none => do
              let ⟨others, c₂, h₂⟩ ← readParts c₁
              return ⟨part :: others, c₂, fewer₂ h₁ h₂⟩
termination_by c.size
decreasing_by all_goals (simp only [size] at *; omega)

def readSupers (c : Cursor) : Reads (List String) (c.size + 1) :=
  match c.take? .colon with
  | none => return ⟨[], c, c.fewer_self⟩
  | some ⟨_, c₁, h₁⟩ => do
      let ⟨names, c₂, h₂⟩ ← c₁.readNames unexpected
      return .loosen ⟨names, c₂, fewer₂ h₁ h₂⟩

/-- Reads a class declaration after the word `class`. -/
def read (c : Cursor) : Reads ClassDecl c.size := do
  let ⟨name, c₁, h₁⟩ ← c.takeOr .identifier (c.unexpectedFor "expected class name")
  let ⟨generics, c₂, h₂⟩ ← c₁.readGenericNames
  have h₂ := fewer_after h₁ h₂
  let ⟨supers, c₃, h₃⟩ ← readSupers c₂
  have h₃ := fewer_after h₂ h₃
  let ⟨_, c₄, h₄⟩ ← c₃.take .openCurly
  let ⟨parts, c₅, h₅⟩ ← readParts c₄
  let constructors := parts.filterMap fun part => match part with
    | .constructor params => some params
    | .fields _ => none
  let fields := parts.filterMap fun part => match part with
    | .constructor _ => none
    | .fields group => some group
  return ⟨⟨name.text, generics, supers, constructors, fields⟩, c₅, fewer₃ h₃ h₄ h₅⟩

end ClassDecl

/-- The literal that a token is, if it is one; a number that cannot be read is an error. -/
def Literal.ofToken? (t : Token) : Except Diagnostic (Option Literal) :=
  match t.kind with
  | .number =>
      let text := t.text.toList
      let value :=
        if text.contains '.' then (Numeral.decimal? text).map Literal.double
        else (Numeral.integer? text).map Literal.int
      match value with
      | some value => .ok (some value)
      | none => .error (.error (.numberParseError t.text) t.span)
  | .string => .ok (some (.string t.text))
  | .trueWord => .ok (some (.bool true))
  | .falseWord => .ok (some (.bool false))
  | .noneWord => .ok (some .noneValue)
  | _ => .ok none

mutual

/-- Reads an expression whose operators all bind tighter than `power`. -/
def Expr.read (power : Power) (c : Cursor) : Reads Expr c.size := do
  let ⟨left, c₁, h₁⟩ ← Expr.readOperand c
  let ⟨whole, c₂, h₂⟩ ← Expr.readOperators power left c₁
  return ⟨whole, c₂, fewer_after h₁ h₂⟩
termination_by 8 * c.size + 1
decreasing_by all_goals (simp only [size] at *; omega)

def Expr.readOperand (c : Cursor) : Reads Expr c.size :=
  match c.next? with
  | none => .error c.unexpected
  | some ⟨t, c₁, h₁⟩ =>
      match t.kind with
      | .identifier => return ⟨.symbol t.text ⟨t.span, none, none⟩, c₁, h₁⟩
      | .openParen => do
          let ⟨(items, trailing), c₂, h₂⟩ ← Expr.readItems .closeParen false c₁
          match items, trailing with
          | [inner], false => return ⟨inner, c₂, fewer₂ h₁ h₂⟩
          | _, _ =>
              return ⟨.tuple items ⟨c₂.spanFrom t.span.start, none, none⟩, c₂, fewer₂ h₁ h₂⟩
      | .openBracket => do
          let ⟨(items, _), c₂, h₂⟩ ← Expr.readItems .closeBracket false c₁
          return ⟨.array items ⟨c₂.spanFrom t.span.start, none, none⟩, c₂, fewer₂ h₁ h₂⟩
      | .ellipsis => do
          let ⟨value, c₂, h₂⟩ ← Expr.read .unary c₁
          return ⟨.spread value ⟨c₂.spanFrom t.span.start, none, none⟩, c₂, fewer₂ h₁ h₂⟩
      | .newWord => do
          let ⟨name, c₂, h₂⟩ ←
            c₁.takeOr .identifier (c₁.unexpectedFor "expected class name after `new`")
          let ⟨_, c₃, h₃⟩ ← c₂.take .openParen
          let ⟨(args, _), c₄, h₄⟩ ← Expr.readItems .closeParen false c₃
          return ⟨.construct name.text args ⟨c₄.spanFrom t.span.start, none, none⟩, c₄,
            fewer₄ h₁ h₂ h₃ h₄⟩
      | .fnWord => do
          let ⟨generics, c₂, h₂⟩ ← c₁.readGenericNames
          have h₂ := fewer_after h₁ h₂
          let ⟨_, c₃, h₃⟩ ← c₂.take .openParen
          let ⟨params, c₄, h₄⟩ ← Param.readList c₃
          have h₄ := fewer₃ h₂ h₃ h₄
          match c₄.take? .arrow with
          | none => do
              let ⟨body, c₅, h₅⟩ ← Block.read c₄
              return ⟨.function generics params none body ⟨c₅.spanFrom t.span.start, none, none⟩,
                c₅, fewer₂ h₄ h₅⟩
          | some ⟨_, c₅, h₅⟩ => do
              let ⟨result, c₆, h₆⟩ ← TypeTerm.read .default c₅
              let ⟨body, c₇, h₇⟩ ← Block.read c₆
              return ⟨.function generics params (some result) body
                ⟨c₇.spanFrom t.span.start, none, none⟩, c₇, fewer₄ h₄ h₅ h₆ h₇⟩
      | _ =>
          match Literal.ofToken? t with
          | .error problem => .error ⟨problem, c₁⟩
          | .ok none => .error c.unexpected
          | .ok (some value) => return ⟨.literal value ⟨t.span, none, none⟩, c₁, h₁⟩
termination_by 8 * c.size
decreasing_by all_goals (simp only [size] at *; omega)

/-- Reads operators after `left` while they bind tighter than `power`. -/
def Expr.readOperators (power : Power) (left : Expr) (c : Cursor) : Reads Expr (c.size + 1) :=
  match c.kind.power? with
  | none => return ⟨left, c, c.fewer_self⟩
  | some tightness =>
      if tightness.rank ≤ power.rank then return ⟨left, c, c.fewer_self⟩
      else do
        let ⟨longer, c₁, h₁⟩ ← Expr.readOperator tightness left c
        let ⟨whole, c₂, h₂⟩ ← Expr.readOperators power longer c₁
        return .loosen ⟨whole, c₂, fewer_after h₁ h₂⟩
termination_by 8 * c.size + 1
decreasing_by all_goals (simp only [size] at *; omega)

/-- Reads one operator and what stands on its right. Operators of one power group from
the left. -/
def Expr.readOperator (power : Power) (left : Expr) (c : Cursor) : Reads Expr c.size :=
  match c.next? with
  | none => .error c.unexpected
  | some ⟨t, c₁, h₁⟩ =>
      match t.kind with
      | .cast => do
          let ⟨target, c₂, h₂⟩ ← TypeTerm.read power c₁
          return ⟨.cast left target ⟨left.span.join target.span, none, none⟩, c₂,
            fewer₂ h₁ h₂⟩
      | .openParen => do
          let ⟨(args, _), c₂, h₂⟩ ← Expr.readItems .closeParen false c₁
          return ⟨.call left args ⟨c₂.spanFrom left.span.start, none, none⟩, c₂,
            fewer₂ h₁ h₂⟩
      | .openBracket => do
          let ⟨position, c₂, h₂⟩ ← Expr.read .default c₁
          let ⟨_, c₃, h₃⟩ ← c₂.take .closeBracket
          return ⟨.index left position ⟨c₃.spanFrom left.span.start, none, none⟩, c₃,
            fewer₃ h₁ h₂ h₃⟩
      | .dot => do
          let ⟨name, c₂, h₂⟩ ←
            c₁.takeOr .identifier (c₁.unexpectedFor "expected member name after `.`")
          return ⟨.member left name.text ⟨left.span.join name.span, none, none⟩, c₂,
            fewer₂ h₁ h₂⟩
      | kind =>
          if kind.isCompoundAssignment && !left.isSymbol then
            .error (c.unexpectedFor "only variables can be assigned to")
          else do
            let ⟨right, c₂, h₂⟩ ← Expr.read power c₁
            return ⟨.binary left t right ⟨left.span.join right.span, none, none⟩, c₂,
              fewer₂ h₁ h₂⟩
termination_by 8 * c.size
decreasing_by all_goals (simp only [size] at *; omega)

/-- Reads expressions up to and including `close`, and whether a comma stood before it. -/
def Expr.readItems (close : Token.Kind) (afterComma : Bool) (c : Cursor) :
    Reads (List Expr × Bool) c.size :=
  match c.take? close with
  | some ⟨_, c₁, h₁⟩ => return ⟨([], afterComma), c₁, h₁⟩
  | none => do
      let ⟨first, c₁, h₁⟩ ← Expr.read .default c
      match c₁.take? .comma with
      | none => do
          let ⟨_, c₂, h₂⟩ ← c₁.take close
          return ⟨([first], false), c₂, fewer₂ h₁ h₂⟩
      | some ⟨_, c₂, h₂⟩ => do
          let ⟨(others, trailing), c₃, h₃⟩ ← Expr.readItems close true c₂
          return ⟨(first :: others, trailing), c₃, fewer₃ h₁ h₂ h₃⟩
termination_by 8 * c.size + 2
decreasing_by all_goals (simp only [size] at *; omega)

def Block.read (c : Cursor) : Reads Block c.size := do
  let ⟨brace, c₁, h₁⟩ ← c.take .openCurly
  let ⟨body, c₂, h₂⟩ ← Block.readBody c₁
  return ⟨⟨body, c₂.spanFrom brace.span.start⟩, c₂, fewer₂ h₁ h₂⟩
termination_by 8 * c.size
decreasing_by all_goals (simp only [size] at *; omega)

/-- Reads statements up to and including the closing brace. -/
def Block.readBody (c : Cursor) : Reads (List Stmt) c.size :=
  match c.take? .closeCurly with
  | some ⟨_, c₁, h₁⟩ => return ⟨[], c₁, h₁⟩
  | none =>
      if c.rest.isEmpty then .error (c.unexpectedFor "expected `\x7d`")
      else do
        let ⟨first, c₁, h₁⟩ ← Stmt.read c
        let ⟨others, c₂, h₂⟩ ← Block.readBody c₁
        return ⟨first :: others, c₂, fewer₂ h₁ h₂⟩
termination_by 8 * c.size + 4
decreasing_by all_goals (simp only [size] at *; omega)

/-- Reads a statement and a semicolon if one follows. -/
def Stmt.read (c : Cursor) : Reads Stmt c.size := do
  let ⟨stmt, c₁, h₁⟩ ← Stmt.readBare c
  match c₁.take? .semicolon with
  | some ⟨_, c₂, h₂⟩ => return ⟨stmt, c₂, fewer₂ h₁ h₂⟩
  | none => return ⟨stmt, c₁, h₁⟩
termination_by 8 * c.size + 3
decreasing_by all_goals (simp only [size] at *; omega)

/-- Reads a statement by its first token. A name followed by an equals sign or a comma
starts a definition, one followed by a colon a declaration. -/
def Stmt.readBare (c : Cursor) : Reads Stmt c.size :=
  match c.kind with
  | .constWord => do
      let ⟨_, c₁, h₁⟩ ← c.take .constWord
      match c₁.kind, c₁.peek 1 with
      | .identifier, .colon => do
          let ⟨stmt, c₂, h₂⟩ ← Stmt.readDeclaration true c₁
          return ⟨stmt, c₂, fewer₂ h₁ h₂⟩
      | .identifier, _ => do
          let ⟨stmt, c₂, h₂⟩ ← Stmt.readDefinition true c₁
          return ⟨stmt, c₂, fewer₂ h₁ h₂⟩
      | _, _ => .error (c₁.unexpectedFor "expected identifier during constant definition")
  | .classWord => do
      let ⟨word, c₁, h₁⟩ ← c.take .classWord
      let ⟨decl, c₂, h₂⟩ ← ClassDecl.read c₁
      return ⟨.classDecl decl (c₂.spanFrom word.span.start), c₂, fewer₂ h₁ h₂⟩
  | .implWord => do
      let ⟨word, c₁, h₁⟩ ← c.take .implWord
      let ⟨name, c₂, h₂⟩ ← c₁.take .identifier
      let ⟨body, c₃, h₃⟩ ← Block.read c₂
      return ⟨.methods name.text body (c₃.spanFrom word.span.start), c₃, fewer₃ h₁ h₂ h₃⟩
  | .ifWord => Stmt.readIf c
  | .whileWord => do
      let ⟨word, c₁, h₁⟩ ← c.take .whileWord
      let ⟨condition, c₂, h₂⟩ ← Expr.read .default c₁
      let ⟨body, c₃, h₃⟩ ← Block.read c₂
      return ⟨.whileLoop condition body (c₃.spanFrom word.span.start), c₃, fewer₃ h₁ h₂ h₃⟩
  | .doWord => do
      let ⟨word, c₁, h₁⟩ ← c.take .doWord
      let ⟨body, c₂, h₂⟩ ← Block.read c₁
      let ⟨_, c₃, h₃⟩ ← c₂.take .whileWord
      let ⟨condition, c₄, h₄⟩ ← Expr.read .default c₃
      return ⟨.doWhile body condition (c₄.spanFrom word.span.start), c₄, fewer₄ h₁ h₂ h₃ h₄⟩
  | .switchWord => do
      let ⟨word, c₁, h₁⟩ ← c.take .switchWord
      let ⟨subject, c₂, h₂⟩ ← Expr.read .default c₁
      let ⟨_, c₃, h₃⟩ ← c₂.take .openCurly
      let ⟨(cases, otherwise), c₄, h₄⟩ ← Stmt.readCases none c₃
      return ⟨.switch subject cases otherwise (c₄.spanFrom word.span.start), c₄,
        fewer₄ h₁ h₂ h₃ h₄⟩
  | .returnWord => do
      let ⟨word, c₁, h₁⟩ ← c.take .returnWord
      match c₁.kind with
      | .semicolon | .closeCurly | .eof =>
          return ⟨.return none (c₁.spanFrom word.span.start), c₁, h₁⟩
      | _ => do
          let ⟨value, c₂, h₂⟩ ← Expr.read .default c₁
          return ⟨.return (some value) (c₂.spanFrom word.span.start), c₂, fewer₂ h₁ h₂⟩
  | kind =>
      match kind, c.peek 1 with
      | .identifier, .assignment => Stmt.readDefinition false c
      | .identifier, .comma => Stmt.readDefinition false c
      | .identifier, .colon => Stmt.readDeclaration false c
      | _, _ => do
          let ⟨value, c₁, h₁⟩ ← Expr.read .default c
          return ⟨.expr value value.span, c₁, h₁⟩
termination_by 8 * c.size + 2
decreasing_by all_goals (simp only [size] at *; omega)

/-- Reads names, an equals sign and the value they all get. -/
def Stmt.readDefinition (constant : Bool) (c : Cursor) : Reads Stmt c.size := do
  let ⟨names, c₁, h₁⟩ ← c.readNames (·.unexpectedFor "expected a name to define")
  let ⟨_, c₂, h₂⟩ ← c₁.take .assignment
  let ⟨value, c₃, h₃⟩ ← Expr.read .default c₂
  return ⟨.define names value constant (c₃.spanFrom c.current.span.start), c₃, fewer₃ h₁ h₂ h₃⟩
termination_by 8 * c.size
decreasing_by all_goals (simp only [size] at *; omega)

/-- Reads a name with its type, and a value if an equals sign follows. -/
def Stmt.readDeclaration (constant : Bool) (c : Cursor) : Reads Stmt c.size := do
  let ⟨name, c₁, h₁⟩ ← c.take .identifier
  let ⟨_, c₂, h₂⟩ ← c₁.take .colon
  let ⟨term, c₃, h₃⟩ ← TypeTerm.read .default c₂
  match c₃.take? .assignment with
  | none =>
      return ⟨.declare name.text term none constant (c₃.spanFrom name.span.start), c₃,
        fewer₃ h₁ h₂ h₃⟩
  | some ⟨_, c₄, h₄⟩ => do
      let ⟨value, c₅, h₅⟩ ← Expr.read .default c₄
      return ⟨.declare name.text term (some value) constant (c₅.spanFrom name.span.start), c₅,
        fewer₅ h₁ h₂ h₃ h₄ h₅⟩
termination_by 8 * c.size
decreasing_by all_goals (simp only [size] at *; omega)

/-- Reads a conditional. One that follows `else` becomes the only statement of a block
of its own. -/
def Stmt.readIf (c : Cursor) : Reads Stmt c.size := do
  let ⟨word, c₁, h₁⟩ ← c.take .ifWord
  let ⟨condition, c₂, h₂⟩ ← Expr.read .default c₁
  let ⟨yes, c₃, h₃⟩ ← Block.read c₂
  match c₃.take? .elseWord with
  | none =>
      return ⟨.ifElse condition yes none (c₃.spanFrom word.span.start), c₃, fewer₃ h₁ h₂ h₃⟩
  | some ⟨_, c₄, h₄⟩ =>
      if c₄.kind = .ifWord then do
        let ⟨nested, c₅, h₅⟩ ← Stmt.readIf c₄
        return ⟨.ifElse condition yes (some ⟨[nested], nested.span⟩)
          (c₅.spanFrom word.span.start), c₅, fewer₅ h₁ h₂ h₃ h₄ h₅⟩
      else do
        let ⟨no, c₅, h₅⟩ ← Block.read c₄
        return ⟨.ifElse condition yes (some no) (c₅.spanFrom word.span.start), c₅,
          fewer₅ h₁ h₂ h₃ h₄ h₅⟩
termination_by 8 * c.size
decreasing_by all_goals (simp only [size] at *; omega)

/-- Reads the arms of a switch up to and including the closing brace. At most one of
them is a default. -/
def Stmt.readCases (otherwise : Option Block) (c : Cursor) :
    Reads (List Case × Option Block) c.size :=
  match c.take? .closeCurly with
  | some ⟨_, c₁, h₁⟩ => return ⟨([], otherwise), c₁, h₁⟩
  | none =>
      match c.kind, otherwise with
      | .caseWord, _ => do
          let ⟨word, c₁, h₁⟩ ← c.take .caseWord
          let ⟨pattern, c₂, h₂⟩ ← Stmt.readPattern c₁
          let ⟨body, c₃, h₃⟩ ← Block.read c₂
          let case : Case := ⟨pattern, body, c₃.spanFrom word.span.start⟩
          let ⟨(others, otherwise), c₄, h₄⟩ ← Stmt.readCases otherwise c₃
          return ⟨(case :: others, otherwise), c₄, fewer₄ h₁ h₂ h₃ h₄⟩
      | .defaultWord, none => do
          let ⟨_, c₁, h₁⟩ ← c.take .defaultWord
          let ⟨body, c₂, h₂⟩ ← Block.read c₁
          let ⟨result, c₃, h₃⟩ ← Stmt.readCases (some body) c₂
          return ⟨result, c₃, fewer₃ h₁ h₂ h₃⟩
      | _, _ => .error (c.unexpectedFor "expected `case` or `default` in switch")
termination_by 8 * c.size + 2
decreasing_by all_goals (simp only [size] at *; omega)

/-- Reads a pattern: a name with a type, or a value. -/
def Stmt.readPattern (c : Cursor) : Reads Pattern c.size :=
  match c.kind, c.peek 1 with
  | .identifier, .colon => do
      let ⟨name, c₁, h₁⟩ ← c.take .identifier
      let ⟨_, c₂, h₂⟩ ← c₁.take .colon
      let ⟨term, c₃, h₃⟩ ← TypeTerm.read .default c₂
      return ⟨.type name.text term, c₃, fewer₃ h₁ h₂ h₃⟩
  | _, _ => do
      let ⟨value, c₁, h₁⟩ ← Expr.read .default c
      return ⟨.value value, c₁, h₁⟩
termination_by 8 * c.size + 2
decreasing_by all_goals (simp only [size] at *; omega)

end

def Stmt.readAll (c : Cursor) : Except Rejection (List Stmt × Cursor) :=
  if c.rest.isEmpty then .ok ([], c)
  else do
    let ⟨first, c₁, _⟩ ← Stmt.read c
    let (others, c₂) ← Stmt.readAll c₁
    return (first :: others, c₂)
termination_by c.size
decreasing_by simp only [size] at *; omega

/-- The program that a token stream is, with the cursor at its end. -/
def Program.read (file : String) (tokens : List Token) : Except Rejection (Program × Cursor) := do
  let (body, c) ← Stmt.readAll (.ofTokens file tokens)
  return (⟨body, c.spanFrom ⟨0, file⟩⟩, c)

end ShapeLang
