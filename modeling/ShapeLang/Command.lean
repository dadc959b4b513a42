import ShapeLang.Checked
import ShapeLang.Command.Arguments
import ShapeLang.Command.Folder
import ShapeLang.Diagnostic.Render
import ShapeLang.Token.Scan
import ShapeLang.Tree.Parser

/-!
# The command line

Checks one file and reports what is wrong with it. The exit code is 0 if no error
was found, 1 if one was, and 2 if there was nothing to check.
-/

namespace ShapeLang.Command

structure Outcome where
  code : UInt32
  errors : String
deriving DecidableEq, Repr, Inhabited

def usage : String := "usage: spreadc <file> [--no-color] [--werror]"

/-- The rendered diagnostics, an empty line after each. -/
def report (source : String) (color : Bool) (diagnostics : List Diagnostic) : String :=
  String.join (diagnostics.map fun d => d.render source color ++ "\n")

def checkText (source file : String) (color warningsAsErrors : Bool) : Outcome :=
  match Token.tokenize source file with
  | .error d => ⟨1, report source color [d]⟩
  | .ok tokens =>
      match Program.read file tokens with
      | .error rejection => ⟨1, report source color [rejection.diagnostic]⟩
      | .ok (program, _) =>
          match program.check warningsAsErrors with
          | .error fault => ⟨101, renderInternal fault.message color⟩
          | .ok (_, checked) =>
              ⟨if checked.isOk then 0 else 1, report source color checked.diagnostics⟩

/-- Runs the command; `read` gives the text of a file and `color` is what holds without
a flag. -/
def run {m : Type → Type} [Monad m] (read : String → m (Except ReadError String)) (color : Bool)
    (args : List String) : m Outcome := do
  match Arguments.read color args with
  | .error e => return ⟨2, "spreadc: " ++ e.message ++ "\n" ++ usage ++ "\n"⟩
  | .ok arguments =>
      match ← read arguments.path with
      | .error e =>
          return ⟨2, "spreadc: cannot read `" ++ arguments.path ++ "`: " ++ e.message ++ "\n"⟩
      | .ok source =>
          return checkText source (fileName arguments.path) arguments.color
            arguments.warningsAsErrors

end ShapeLang.Command
