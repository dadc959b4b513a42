import ShapeLang.Text.Blank
import ShapeLang.Token
import ShapeLang.Token.StringLiteral

/-!
# Lexeme rules

Each rule says how much of the text ahead it takes. The rules are tried in the
order of `rules` and the first that takes something wins; a mark stands before
every mark it starts with.
-/

namespace ShapeLang.Token

/-- What a stretch of source can be. -/
inductive Rule where
  | word
  | number
  | blank
  | text
  | comment
  | mark (kind : Kind) (spelling : List Char)
deriving DecidableEq, Repr

def isLetter (c : Char) : Bool :=
  ('a' ≤ c && c ≤ 'z') || ('A' ≤ c && c ≤ 'Z') || c == '_'

def isDigit (c : Char) : Bool := '0' ≤ c && c ≤ '9'

def isWordChar (c : Char) : Bool := isLetter c || isDigit c

/-- The length of the longest beginning of the text whose characters are all in the class. -/
def spanLength (p : Char → Bool) (cs : List Char) : Nat := (cs.takeWhile p).length

/-- A fraction is a point with at least one digit after it. -/
def fractionLength : List Char → Nat
  | '.' :: c :: cs => if isDigit c then 2 + spanLength isDigit cs else 0
  | _ => 0

/-- How many characters after `c` the rule takes when the text goes on with `c :: cs`,
or nothing when it does not apply there. -/
def Rule.tail? (rule : Rule) (c : Char) (cs : List Char) : Option Nat :=
  match rule with
  | .word => if isLetter c then some (spanLength isWordChar cs) else none
  | .number =>
      if isDigit c then
        let whole := spanLength isDigit cs
        some (whole + fractionLength (cs.drop whole))
      else none
  | .blank => if Text.isBlank c then some (spanLength Text.isBlank cs) else none
  | .text => if c = '"' then StringLiteral.tail? cs else none
  | .comment =>
      match cs with
      | '/' :: rest => if c = '/' then some (1 + spanLength (· != '\n') rest) else none
      | _ => none
  | .mark _ spelling =>
      match spelling with
      | [] => none
      | m :: ms => if c = m && ms.isPrefixOf cs then some ms.length else none

/-- Marks with their kinds, longer ones before their beginnings. -/
def marks : List (Kind × String) :=
  [(.openBracket, "["), (.closeBracket, "]"), (.openCurly, "\x7b"), (.closeCurly, "\x7d"),
   (.openParen, "("), (.closeParen, ")"), (.cast, "=>"), (.equals, "=="), (.notEquals, "!="),
   (.assignment, "="), (.lessEquals, "<="), (.less, "<"), (.greaterEquals, ">="),
   (.greater, ">"), (.or, "||"), (.and, "&&"), (.ampersand, "&"), (.ellipsis, "..."),
   (.dot, "."), (.semicolon, ";"), (.colon, ":"), (.question, "?"), (.comma, ","),
   (.arrow, "->"), (.plusEquals, "+="), (.minusEquals, "-="), (.starEquals, "*="),
   (.slashEquals, "/="), (.percentEquals, "%="), (.plus, "+"), (.dash, "-"), (.slash, "/"),
   (.star, "*"), (.percent, "%")]

def rules : List Rule :=
  [.word, .number, .blank, .text, .comment] ++
    marks.map fun (kind, spelling) => .mark kind spelling.toList

/-- The first rule that applies, with how many characters it takes after the first. -/
def firstRule? (c : Char) (cs : List Char) : Option (Rule × Nat) :=
  rules.findSome? fun rule => (rule.tail? c cs).map (rule, ·)

/-- The kind and text of the token a rule makes of the characters it took, if it makes one. -/
def Rule.token? (rule : Rule) (lexeme : List Char) : Option (Kind × String) :=
  match rule with
  | .word => some (wordKind (String.ofList lexeme), String.ofList lexeme)
  | .number => some (.number, String.ofList lexeme)
  | .blank | .comment => none
  | .text => some (.string, String.ofList (StringLiteral.decode (lexeme.drop 1).dropLast))
  | .mark kind _ => some (kind, String.ofList lexeme)

end ShapeLang.Token
