/-!
# Command-line arguments

One input file and flags in any order. The first argument that makes no sense is
reported.
-/

namespace ShapeLang.Command

structure Arguments where
  path : String
  color : Bool
  warningsAsErrors : Bool
deriving DecidableEq, Repr, Inhabited

inductive ArgumentError where
  | unknownFlag (flag : String)
  | severalFiles
  | noFile
deriving DecidableEq, Repr, Inhabited

def ArgumentError.message : ArgumentError → String
  | unknownFlag flag => "unknown flag `" ++ flag ++ "`"
  | severalFiles => "expected a single input file"
  | noFile => "no input file"

namespace Arguments

/-- Reads the rest of the arguments, the path being what was found so far. -/
def readFrom (path : Option String) (color warningsAsErrors : Bool) :
    List String → Except ArgumentError Arguments
  | [] =>
      match path with
      | some path => .ok ⟨path, color, warningsAsErrors⟩
      | none => .error .noFile
  | arg :: args =>
      if arg = "--no-color" then readFrom path false warningsAsErrors args
      else if arg = "--werror" then readFrom path color true args
      else if "--".isPrefixOf arg then .error (.unknownFlag arg)
      else if path.isSome then .error .severalFiles
      else readFrom (some arg) color warningsAsErrors args

/-- Reads the arguments; `color` is what holds without a flag. -/
def read (color : Bool) (args : List String) : Except ArgumentError Arguments :=
  readFrom none color false args

end Arguments

end ShapeLang.Command
