import ShapeLang.Span

/-!
# Tokens

The kinds of token, the words and marks they are written with, and a token with
its place in the source.
-/

namespace ShapeLang

namespace Token

inductive Kind where
  | eof | number | string | identifier
  | openBracket | closeBracket | openCurly | closeCurly | openParen | closeParen
  | assignment | equals | notEquals | cast | less | lessEquals | greater | greaterEquals
  | or | and | ampersand | dot | ellipsis | semicolon | colon | question | comma | arrow
  | plusEquals | minusEquals | starEquals | slashEquals | percentEquals
  | plus | dash | slash | star | percent
  | classWord | implWord | fnWord | ifWord | elseWord | whileWord | doWord | switchWord
  | caseWord | defaultWord | returnWord | newWord | constWord | trueWord | falseWord | noneWord
deriving DecidableEq, Repr, Inhabited

namespace Kind

def name : Kind → String
  | eof => "EOF" | number => "Number" | string => "String" | identifier => "Identifier"
  | openBracket => "OpenBracket" | closeBracket => "CloseBracket"
  | openCurly => "OpenCurly" | closeCurly => "CloseCurly"
  | openParen => "OpenParen" | closeParen => "CloseParen"
  | assignment => "Assignment" | equals => "Equals" | notEquals => "NotEquals"
  | cast => "Cast" | less => "Less" | lessEquals => "LessEquals"
  | greater => "Greater" | greaterEquals => "GreaterEquals"
  | or => "Or" | and => "And" | ampersand => "Ampersand" | dot => "Dot"
  | ellipsis => "Ellipsis" | semicolon => "Semicolon" | colon => "Colon"
  | question => "Question" | comma => "Comma" | arrow => "Arrow"
  | plusEquals => "PlusEquals" | minusEquals => "MinusEquals" | starEquals => "StarEquals"
  | slashEquals => "SlashEquals" | percentEquals => "PercentEquals"
  | plus => "Plus" | dash => "Dash" | slash => "Slash" | star => "Star" | percent => "Percent"
  | classWord => "Class" | implWord => "Impl" | fnWord => "Fn" | ifWord => "If"
  | elseWord => "Else" | whileWord => "While" | doWord => "Do" | switchWord => "Switch"
  | caseWord => "Case" | defaultWord => "Default" | returnWord => "Return" | newWord => "New"
  | constWord => "Const" | trueWord => "True" | falseWord => "False" | noneWord => "None"

def isOperator : Kind → Bool
  | plus | dash | star | slash | percent | equals | notEquals | less | lessEquals
  | greater | greaterEquals | and | or => true
  | _ => false

/-- Operators that store their result in the variable on their left. -/
def isCompoundAssignment : Kind → Bool
  | plusEquals | minusEquals | starEquals | slashEquals | percentEquals => true
  | _ => false

end Kind

/-- Words that are not names. -/
def reserved : List (String × Kind) :=
  [("class", .classWord), ("impl", .implWord), ("fn", .fnWord), ("if", .ifWord),
   ("else", .elseWord), ("while", .whileWord), ("do", .doWord), ("switch", .switchWord),
   ("case", .caseWord), ("default", .defaultWord), ("return", .returnWord), ("new", .newWord),
   ("const", .constWord), ("true", .trueWord), ("false", .falseWord), ("none", .noneWord)]

def wordKind (word : String) : Kind :=
  (reserved.lookup word).getD .identifier

end Token

/-- One token; `text` is its spelling, or for a string the characters it denotes. -/
structure Token where
  kind : Token.Kind
  text : String
  span : Span
deriving DecidableEq, Repr, Inhabited

namespace Token

/-- The kind, with the text where the kind alone does not tell it. -/
def shown (t : Token) : String :=
  match t.kind with
  | .string | .identifier | .number => t.kind.name ++ " (" ++ t.text ++ ")"
  | _ => t.kind.name

end Token

end ShapeLang
