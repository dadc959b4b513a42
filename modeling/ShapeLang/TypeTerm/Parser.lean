import ShapeLang.TypeTerm
import ShapeLang.Cursor
import ShapeLang.Power

/-!
# Reading annotations

An annotation is a name, `none` or a parenthesised form, followed by suffixes as
long as they bind tighter than the power asked for. Parentheses group one
annotation, list the elements of a tuple, or with an arrow behind them the
parameters of a function.
-/

namespace ShapeLang.TypeTerm

open Cursor

mutual

/-- Reads an annotation whose suffixes all bind tighter than `power`. -/
def read (power : Power) (c : Cursor) : Reads TypeTerm c.size := do
  let ⟨left, c₁, h₁⟩ ← readHead c
  let ⟨whole, c₂, h₂⟩ ← readSuffixes power left c₁
  return ⟨whole, c₂, fewer_after h₁ h₂⟩
termination_by 4 * c.size + 1
decreasing_by all_goals (simp only [size] at *; omega)

def readHead (c : Cursor) : Reads TypeTerm c.size :=
  match c.next? with
  | none => .error c.unexpected
  | some ⟨t, c₁, h₁⟩ =>
      match t.kind with
      | .identifier =>
          match c₁.take? .less with
          | none => return ⟨.named t.text [] (c₁.spanFrom t.span.start), c₁, h₁⟩
          | some ⟨_, c₂, h₂⟩ => do
              let ⟨generics, c₃, h₃⟩ ← readGenerics c₂
              let ⟨_, c₄, h₄⟩ ← c₃.take .greater
              return ⟨.named t.text generics (c₄.spanFrom t.span.start), c₄, fewer₄ h₁ h₂ h₃ h₄⟩
      | .noneWord => return ⟨.noneType t.span, c₁, h₁⟩
      | .openParen => do
          let ⟨(items, trailing), c₂, h₂⟩ ← readItems false c₁
          match c₂.take? .arrow with
          | some ⟨_, c₃, h₃⟩ => do
              let ⟨result, c₄, h₄⟩ ← read .logical c₃
              return ⟨.function ⟨items, result, c₄.spanFrom t.span.start⟩, c₄, fewer₄ h₁ h₂ h₃ h₄⟩
          | none =>
              match items, trailing with
              | [inner], false => return ⟨inner, c₂, fewer₂ h₁ h₂⟩
              | _, _ => return ⟨.tuple items (c₂.spanFrom t.span.start), c₂, fewer₂ h₁ h₂⟩
      | _ => .error c.unexpected
termination_by 4 * c.size
decreasing_by all_goals (simp only [size] at *; omega)

/-- Reads suffixes after `left` while they bind tighter than `power`. -/
def readSuffixes (power : Power) (left : TypeTerm) (c : Cursor) :
    Reads TypeTerm (c.size + 1) :=
  match c.kind.suffixPower? with
  | none => return ⟨left, c, c.fewer_self⟩
  | some tightness =>
      if tightness.rank ≤ power.rank then return ⟨left, c, c.fewer_self⟩
      else do
        let ⟨longer, c₁, h₁⟩ ← readSuffix tightness left c
        let ⟨whole, c₂, h₂⟩ ← readSuffixes power longer c₁
        return .loosen ⟨whole, c₂, fewer_after h₁ h₂⟩
termination_by 4 * c.size + 1
decreasing_by all_goals (simp only [size] at *; omega)

/-- Reads one suffix. An ampersand joins function types into one list of overloads. -/
def readSuffix (power : Power) (left : TypeTerm) (c : Cursor) : Reads TypeTerm c.size :=
  match c.next? with
  | none => .error c.unexpected
  | some ⟨t, c₁, h₁⟩ =>
      match t.kind with
      | .openBracket => do
          let ⟨_, c₂, h₂⟩ ← c₁.take .closeBracket
          return ⟨.array left (c₂.spanFrom left.span.start), c₂, fewer₂ h₁ h₂⟩
      | .question => return ⟨.maybe left (c₁.spanFrom left.span.start), c₁, h₁⟩
      | .ampersand =>
          match left.signatures? with
          | none => .error (c.unexpectedFor "only function types can be overloaded")
          | some mine => do
              let ⟨right, c₂, h₂⟩ ← read power c₁
              match right.signatures? with
              | none => .error (c₂.unexpectedFor "only function types can be overloaded")
              | some others =>
                  return ⟨.overloads (mine ++ others) (c₂.spanFrom left.span.start), c₂,
                    fewer₂ h₁ h₂⟩
      | _ => .error c.unexpected
termination_by 4 * c.size
decreasing_by all_goals (simp only [size] at *; omega)

/-- Reads one or more annotations with commas between them. -/
def readGenerics (c : Cursor) : Reads (List TypeTerm) c.size := do
  let ⟨first, c₁, h₁⟩ ← read .default c
  match c₁.take? .comma with
  | none => return ⟨[first], c₁, h₁⟩
  | some ⟨_, c₂, h₂⟩ => do
      let ⟨others, c₃, h₃⟩ ← readGenerics c₂
      return ⟨first :: others, c₃, fewer₃ h₁ h₂ h₃⟩
termination_by 4 * c.size + 2
decreasing_by all_goals (simp only [size] at *; omega)

/-- Reads annotations up to and including a closing parenthesis, and whether a comma
stood before it. -/
def readItems (afterComma : Bool) (c : Cursor) : Reads (List TypeTerm × Bool) c.size :=
  match c.take? .closeParen with
  | some ⟨_, c₁, h₁⟩ => return ⟨([], afterComma), c₁, h₁⟩
  | none => do
      let ⟨first, c₁, h₁⟩ ← read .default c
      match c₁.take? .comma with
      | none => do
          let ⟨_, c₂, h₂⟩ ← c₁.take .closeParen
          return ⟨([first], false), c₂, fewer₂ h₁ h₂⟩
      | some ⟨_, c₂, h₂⟩ => do
          let ⟨(others, trailing), c₃, h₃⟩ ← readItems true c₂
          return ⟨(first :: others, trailing), c₃, fewer₃ h₁ h₂ h₃⟩
termination_by 4 * c.size + 2
decreasing_by all_goals (simp only [size] at *; omega)

end

end ShapeLang.TypeTerm
