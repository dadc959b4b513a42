/-!
# String literals

A literal runs to the first quote that no backslash precedes. Its value replaces
the escapes `\n \t \r \0 \\ \"` and `\x` with one or two hexadecimal digits; any
other backslash stands for itself.
-/

namespace ShapeLang.Token.StringLiteral

/-- How many characters follow an opening quote up to and including the closing one.
A backslash takes the next character with it, which may not be a line feed. -/
def tail? : List Char → Option Nat
  | [] => none
  | '"' :: _ => some 1
  | ['\\'] => none
  | '\\' :: c :: cs => if c = '\n' then none else (tail? cs).map (· + 2)
  | _ :: cs => (tail? cs).map (· + 1)

def hexValue? (c : Char) : Option Nat :=
  if '0' ≤ c ∧ c ≤ '9' then some (c.toNat - '0'.toNat)
  else if 'a' ≤ c ∧ c ≤ 'f' then some (c.toNat - 'a'.toNat + 10)
  else if 'A' ≤ c ∧ c ≤ 'F' then some (c.toNat - 'A'.toNat + 10)
  else none

/-- The characters that the text between the quotes denotes. -/
def decode : List Char → List Char
  | [] => []
  | '\\' :: 'n' :: cs => '\n' :: decode cs
  | '\\' :: 't' :: cs => '\t' :: decode cs
  | '\\' :: 'r' :: cs => '\r' :: decode cs
  | '\\' :: '0' :: cs => Char.ofNat 0 :: decode cs
  | '\\' :: '\\' :: cs => '\\' :: decode cs
  | '\\' :: '"' :: cs => '"' :: decode cs
  | '\\' :: 'x' :: a :: b :: cs =>
      match hexValue? a, hexValue? b with
      | some m, some n => Char.ofNat (16 * m + n) :: decode cs
      | some m, none => Char.ofNat m :: decode (b :: cs)
      | none, _ => '\\' :: 'x' :: decode (a :: b :: cs)
  | ['\\', 'x', a] =>
      match hexValue? a with
      | some m => [Char.ofNat m]
      | none => '\\' :: 'x' :: decode [a]
  | c :: cs => c :: decode cs

end ShapeLang.Token.StringLiteral
