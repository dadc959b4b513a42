/-!
# Number texts

Texts without a point are whole numbers of 64 bits; texts with one are decimals,
read as the nearest double.
-/

namespace ShapeLang.Numeral

def digitValue? (c : Char) : Option Nat :=
  if '0' ≤ c ∧ c ≤ '9' then some (c.toNat - '0'.toNat) else none

/-- The number a text of digits denotes; nothing if another character is among them. -/
def natural? (digits : List Char) : Option Nat :=
  digits.foldlM (fun n c => (digitValue? c).map (10 * n + ·)) 0

/-- A text without its sign, and whether the sign was a minus. -/
def splitSign : List Char → Bool × List Char
  | '+' :: cs => (false, cs)
  | '-' :: cs => (true, cs)
  | cs => (false, cs)

/-- The least number that has no positive place in 64 bits. -/
def limit : Nat := 0x8000000000000000

/-- A signed whole number of at least one digit, within 64 bits. -/
def integer? (text : List Char) : Option Int := do
  let (negative, digits) := splitSign text
  guard (!digits.isEmpty)
  let n ← natural? digits
  if negative then
    if n ≤ limit then some (-n) else none
  else
    if n < limit then some n else none

/-- The text up to the first character of the class, and what follows that character. -/
def splitAt? (p : Char → Bool) : List Char → List Char × Option (List Char)
  | [] => ([], none)
  | c :: cs =>
      if p c then ([], some cs)
      else let (before, after) := splitAt? p cs; (c :: before, after)

/-- Powers of ten beyond this take every mantissa that a source can hold out of range. -/
def exponentLimit : Int := 400

/-- The double nearest to `mantissa` times ten to the `exponent`, the mantissa
having `digits` digits. -/
def double (mantissa digits : Nat) (exponent : Int) : Float :=
  if mantissa = 0 then 0
  else if exponentLimit < digits + exponent then 1 / 0
  else if digits + exponent < -exponentLimit then 0
  else if 0 ≤ exponent then Float.ofScientific mantissa false exponent.toNat
  else Float.ofScientific mantissa true (-exponent).toNat

/-- A decimal: an optional sign, digits around a point with at least one digit in all,
and optionally a signed power of ten. -/
def decimal? (text : List Char) : Option Float := do
  let (negative, unsigned) := splitSign text
  let (mantissa, power) := splitAt? (fun c => c == 'e' || c == 'E') unsigned
  let (whole, fraction) := splitAt? (· == '.') mantissa
  let fraction := fraction.getD []
  guard (!(whole.isEmpty && fraction.isEmpty))
  let value ← natural? (whole ++ fraction)
  let shift ← match power with
    | none => some 0
    | some power => do
        let (down, digits) := splitSign power
        guard (!digits.isEmpty)
        let n ← natural? digits
        some (if down then -(n : Int) else n)
  let magnitude := double value (Nat.toDigits 10 value).length (shift - fraction.length)
  some (if negative then -magnitude else magnitude)

end ShapeLang.Numeral
