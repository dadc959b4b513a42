import ShapeLang.Token

/-!
# Binding powers

How tightly operators hold their operands, and which tokens can start a
statement, an operand or an annotation, or go on with one.
-/

namespace ShapeLang

/-- From loose to tight. -/
inductive Power where
  | default | comma | assignment | logical | relational | additive | multiplicative
  | unary | call | member | primary
deriving DecidableEq, Repr, Inhabited

def Power.rank : Power → Nat
  | default => 0 | comma => 1 | assignment => 2 | logical => 3 | relational => 4
  | additive => 5 | multiplicative => 6 | unary => 7 | call => 8 | member => 9 | primary => 10

namespace Token.Kind

/-- Words that only start a statement. -/
def startsStatement : Kind → Bool
  | constWord | classWord | implWord | ifWord | whileWord | doWord | switchWord
  | returnWord => true
  | _ => false

def startsOperand : Kind → Bool
  | number | identifier | string | trueWord | falseWord | noneWord | openParen | openBracket
  | ellipsis | newWord | fnWord => true
  | _ => false

/-- The power with which a token goes on with the expression before it. -/
def power? : Kind → Option Power
  | plusEquals | minusEquals | starEquals | slashEquals | percentEquals => some .assignment
  | and | or => some .logical
  | less | lessEquals | greater | greaterEquals | equals | notEquals => some .relational
  | plus | dash => some .additive
  | star | slash | percent => some .multiplicative
  | cast => some .unary
  | openParen | openBracket => some .call
  | dot => some .member
  | _ => none

def startsTypeTerm : Kind → Bool
  | identifier | noneWord | openParen => true
  | _ => false

/-- The power with which a token goes on with the annotation before it. -/
def suffixPower? : Kind → Option Power
  | openBracket | question => some .call
  | ampersand => some .logical
  | _ => none

end Token.Kind

end ShapeLang
