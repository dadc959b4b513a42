import ShapeLang.Diagnostic
import ShapeLang.Text.Line

/-!
# Showing diagnostics

A diagnostic is shown as its severity, name and tip, its place, and the source
line without its indentation with carets under the span. A span that goes on
past the line is marked to the end of the line.
-/

namespace ShapeLang

/-- Terminal codes around a text, or the bare text without colour. -/
def paint (color : Bool) (code text : String) : String :=
  if color then code ++ text ++ "\x1b[0m" else text

def Severity.color : Severity → String
  | warning => "\x1b[1;33m"
  | error => "\x1b[1;31m"
  | internal => "\x1b[1;35m"

def Severity.painted (severity : Severity) (color : Bool) (text : String) : String :=
  paint color severity.color text

def spaces (n : Nat) : String := String.ofList (List.replicate n ' ')

namespace Diagnostic

/-- The first line: severity, name, and the tip or else the message. -/
def heading (d : Diagnostic) (color : Bool) : String :=
  let severity := d.severity.painted color d.severity.name
  let name := paint color "\x1b[1m" d.problem.name
  match d.problem.tip with
  | some tip => severity ++ ": " ++ name ++ " (" ++ tip ++ ")"
  | none => severity ++ ": " ++ name ++ ": " ++ d.problem.message

/-- How many carets mark `length` bytes from `column` on in a line of `width` bytes. -/
def caretCount (length column width : Nat) : Nat := max (min length (width - column)) 1

/-- The diagnostic against the text of the file it points into. -/
def render (d : Diagnostic) (source : String) (color : Bool) : String :=
  let line := Text.lineAt source.toList d.span.first
  let number := toString line.number
  let gutter := paint color "\x1b[34m" "|"
  let margin := spaces (number.length + 1) ++ gutter
  let visible := Text.trim line.text
  let indent := byteLength line.text - byteLength (Text.trimStart line.text)
  let column := line.column - indent
  let carets := caretCount (d.span.last - d.span.first) column (byteLength visible)
  d.heading color ++ "\n" ++
    "-> " ++ d.span.file ++ ":" ++ number ++ ":" ++ toString (line.column + 1) ++ "\n" ++
    margin ++ "\n" ++
    number ++ " " ++ gutter ++ " " ++ String.ofList visible ++ "\n" ++
    margin ++ " " ++ spaces column ++
      d.severity.painted color (String.ofList (List.replicate carets '^')) ++ "\n"

end Diagnostic

/-- A broken invariant has no place in the source. -/
def renderInternal (message : String) (color : Bool) : String :=
  Severity.internal.painted color Severity.internal.name ++ ": " ++ message ++
    "\nThis is a bug in spreadc, please report it.\n"

end ShapeLang
