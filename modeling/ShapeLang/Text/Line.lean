import ShapeLang.Span
import ShapeLang.Text.Blank

/-!
# Lines of a source text

The line that holds a byte, for showing it to a reader. A place past the end is
shown after the last character of the last line.
-/

namespace ShapeLang.Text

/-- The text cut after every line feed; only the last piece may lack one. -/
def pieces : List Char → List (List Char)
  | [] => []
  | c :: cs =>
      if c = '\n' then [c] :: pieces cs
      else match pieces cs with
        | [] => [[c]]
        | piece :: others => (c :: piece) :: others

/-- A piece without its line feed and one carriage return before that. -/
def dropLineEnd (piece : List Char) : List Char :=
  match piece.reverse with
  | '\n' :: '\r' :: cs => cs.reverse
  | '\n' :: cs => cs.reverse
  | _ => piece

/-- A line as shown: its number from one, its text, and a column in bytes from zero. -/
structure Line where
  number : Nat
  text : List Char
  column : Nat
deriving DecidableEq, Repr, Inhabited

/-- The line among the pieces that holds byte `position`, the first piece being line
`number` and starting at byte `start`. -/
def findLine? (position number start : Nat) : List (List Char) → Option Line
  | [] => none
  | piece :: others =>
      let stop := start + byteLength piece
      if start ≤ position ∧ position < stop then
        some ⟨number, dropEndWhile (fun c => c == '\n' || c == '\r') piece, position - start⟩
      else findLine? position (number + 1) stop others

/-- The line of the source that holds byte `position`. -/
def lineAt (source : List Char) (position : Nat) : Line :=
  let lines := pieces source
  match findLine? position 1 0 lines with
  | some line => line
  | none =>
      let last := ((lines.map dropLineEnd).getLast?).getD []
      ⟨max lines.length 1, last, byteLength last⟩

end ShapeLang.Text
