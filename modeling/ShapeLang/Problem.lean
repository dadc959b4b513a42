import ShapeLang.Text.Quoted

/-!
# Problems

What can be wrong with a program, apart from where. Every problem has a name, a
one-line message and, except for a character no token starts with, a tip that
says what was expected.
-/

namespace ShapeLang

inductive Problem where
  | unrecognisedToken (token : String)
  | unexpectedToken (token : String)
  | unexpectedTokenDetailed (token message : String)
  | numberParseError (token : String)
  | unknownSymbol (name : String)
  | useBeforeInit (name : String) (conditional : Bool)
  | redefinition (name old new : String)
  | arityMismatch (expected received : Nat)
  | typeMismatch (expected received : String)
  | notAnObject (type : String)
  | noSuchMember (className member : String)
  | noSuchCast (source target : String)
  | noMatchingOverload (callee arguments : String)
  | unimplemented (feature : String)
  | returnOutsideFunction
  | missingReturn (expected : String)
  | cannotInferType (expression : String)
deriving DecidableEq, Repr, Inhabited

namespace Problem

open Text (quote)

def name : Problem → String
  | unrecognisedToken .. => "UnrecognisedToken"
  | unexpectedToken .. => "UnexpectedToken"
  | unexpectedTokenDetailed .. => "UnexpectedTokenDetailed"
  | numberParseError .. => "NumberParseError"
  | unknownSymbol .. => "UnknownSymbol"
  | useBeforeInit .. => "UseBeforeInit"
  | redefinition .. => "Redefinition"
  | arityMismatch .. => "ArityMismatch"
  | typeMismatch .. => "TypeMismatch"
  | notAnObject .. => "NotAnObject"
  | noSuchMember .. => "NoSuchMember"
  | noSuchCast .. => "NoSuchCast"
  | noMatchingOverload .. => "NoMatchingOverload"
  | unimplemented .. => "Unimplemented"
  | returnOutsideFunction => "ReturnOutsideFunction"
  | missingReturn .. => "MissingReturn"
  | cannotInferType .. => "CannotInferType"

def message : Problem → String
  | unrecognisedToken token => "unrecognised token: " ++ quote token
  | unexpectedToken token => "unexpected token: " ++ quote token
  | unexpectedTokenDetailed token detail =>
      "unexpected token (" ++ detail ++ "): " ++ quote token
  | numberParseError token => "error parsing number: " ++ quote token
  | unknownSymbol name => "unknown symbol `" ++ name ++ "`"
  | useBeforeInit name _ => "`" ++ name ++ "` used before initialization"
  | redefinition name old new =>
      "`" ++ name ++ "` redefined: `" ++ old ++ "` is incompatible with `" ++ new ++ "`"
  | arityMismatch expected received =>
      s!"arity mismatch: expected {expected}, received {received}"
  | typeMismatch expected received =>
      "types do not match: expected `" ++ expected ++ "`, received `" ++ received ++ "`"
  | notAnObject type => "`" ++ type ++ "` is not an object"
  | noSuchMember className member =>
      "class `" ++ className ++ "` has no member `" ++ member ++ "`"
  | noSuchCast source target => "no cast from `" ++ source ++ "` to `" ++ target ++ "`"
  | noMatchingOverload callee arguments =>
      "no matching overload of `" ++ callee ++ "` for " ++ arguments
  | unimplemented feature => feature ++ " are not implemented"
  | returnOutsideFunction => "return outside of a function"
  | missingReturn expected => "missing return of type `" ++ expected ++ "`"
  | cannotInferType expression => "cannot infer the type of " ++ expression

/-- What was expected, or what to look at. -/
def tip : Problem → Option String
  | unrecognisedToken _ => none
  | unexpectedToken token => some ("Unexpected token: `" ++ token ++ "`")
  | unexpectedTokenDetailed token detail =>
      some ("Unexpected token: `" ++ token ++ "`, " ++ detail)
  | numberParseError token =>
      some ("Invalid number: `" ++ token ++ "`, is it above the integer limit?")
  | unknownSymbol name => some ("`" ++ name ++ "` is not declared in this scope")
  | useBeforeInit name true =>
      some ("`" ++ name ++ "` is only assigned on some paths reaching this use")
  | useBeforeInit name false => some ("`" ++ name ++ "` is declared but never assigned")
  | redefinition name old new =>
      some ("`" ++ name ++ "` already has type `" ++ old ++ "`, cannot rebind it as `" ++
        new ++ "`")
  | arityMismatch expected received =>
      some s!"Expected {expected} values, received {received}"
  | typeMismatch expected received =>
      some ("Expected type `" ++ expected ++ "`, received `" ++ received ++ "`")
  | notAnObject type =>
      some ("Members can only be read from class instances, found `" ++ type ++ "`")
  | noSuchMember className member =>
      some ("Class `" ++ className ++ "` has no member `" ++ member ++ "`")
  | noSuchCast source target =>
      some ("`" ++ source ++ "` does not declare a `=>` cast to `" ++ target ++ "`")
  | noMatchingOverload callee arguments =>
      some ("No overload of `" ++ callee ++ "` accepts " ++ arguments)
  | unimplemented feature => some (feature ++ " are not supported yet")
  | returnOutsideFunction => some "`return` may only appear inside `fn`"
  | missingReturn expected =>
      some ("Not every path returns a value of type `" ++ expected ++ "`")
  | cannotInferType expression => some ("Cannot infer a type for " ++ expression)

end Problem

end ShapeLang
