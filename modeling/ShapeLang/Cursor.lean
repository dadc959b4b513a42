import ShapeLang.Diagnostic
import ShapeLang.Token

/-!
# A place in a token stream

A cursor holds the tokens that are still to be read, up to the first end mark,
which it never passes. Reading functions return how far they came together with
the proof that they came far enough, so loops over a cursor end.
-/

namespace ShapeLang

/-- Where a token stream ends, with the text that stands for the end in messages. -/
structure EndMark where
  text : String
  span : Span
deriving DecidableEq, Repr, Inhabited

structure Cursor where
  file : String
  /-- Where the last token that was read ended. -/
  last : Option Position
  /-- The tokens ahead, the current one first. -/
  rest : List Token
  stop : EndMark
  /-- What was given after the end mark. It can be looked at but is never read. -/
  beyond : List Token
deriving Inhabited

/-- Why reading stopped, and where the cursor stood then. -/
structure Rejection where
  diagnostic : Diagnostic
  cursor : Cursor
deriving Inhabited

/-- Something read, leaving fewer than `bound` tokens. -/
structure Parsed (α : Type) (bound : Nat) where
  value : α
  cursor : Cursor
  fewer : cursor.rest.length < bound

/-- What leaves fewer than `n` tokens leaves at most `n`. -/
def Parsed.loosen {α : Type} {n : Nat} (p : Parsed α n) : Parsed α (n + 1) :=
  ⟨p.value, p.cursor, Nat.lt_succ_of_lt p.fewer⟩

/-- Reading gives a value and leaves fewer than `bound` tokens, or is rejected. -/
abbrev Reads (α : Type) (bound : Nat) := Except Rejection (Parsed α bound)

namespace Cursor

/-- A cursor at the start of a stream. A stream without an end mark ends after its last token. -/
def ofTokens (file : String) (tokens : List Token) : Cursor :=
  let isEnd (t : Token) : Bool := t.kind == .eof
  let ahead := tokens.takeWhile (!isEnd ·)
  match tokens.dropWhile (!isEnd ·) with
  | mark :: beyond => ⟨file, none, ahead, ⟨mark.text, mark.span⟩, beyond⟩
  | [] =>
      let offset := (tokens.getLast?.map (·.span.stop.offset)).getD 0
      ⟨file, none, ahead, ⟨"EOF", .point ⟨offset, file⟩⟩, []⟩

def size (c : Cursor) : Nat := c.rest.length

/-- The token ahead; at the end, the end mark. -/
def current (c : Cursor) : Token :=
  match c.rest with
  | t :: _ => t
  | [] => ⟨.eof, c.stop.text, c.stop.span⟩

def kind (c : Cursor) : Token.Kind := c.current.kind

def peek (c : Cursor) (n : Nat) : Token.Kind :=
  ((c.rest ++ ⟨.eof, c.stop.text, c.stop.span⟩ :: c.beyond)[n]?.map (·.kind)).getD .eof

/-- Reads the current token, unless the stream has ended. -/
def next? (c : Cursor) : Option (Parsed Token c.size) :=
  match h : c.rest with
  | t :: ts => some ⟨t, { c with last := some t.span.stop, rest := ts }, by simp [size, h]⟩
  | [] => none

def take? (kind : Token.Kind) (c : Cursor) : Option (Parsed Token c.size) :=
  match c.next? with
  | some read => if read.value.kind = kind then some read else none
  | none => none

/-- The cursor after the current token; at the end it stays. -/
def advance (c : Cursor) : Cursor :=
  match c.next? with
  | some read => read.cursor
  | none => c

def unexpected (c : Cursor) : Rejection :=
  ⟨.error (.unexpectedToken c.current.text) c.current.span, c⟩

/-- Refuses the current token, saying what should have stood there. -/
def unexpectedFor (c : Cursor) (detail : String) : Rejection :=
  ⟨.error (.unexpectedTokenDetailed c.current.text detail) c.current.span, c⟩

/-- Reads a token of the kind or is rejected as `otherwise` says. -/
def takeOr (kind : Token.Kind) (c : Cursor) (otherwise : Rejection) : Reads Token c.size :=
  match c.take? kind with
  | some read => .ok read
  | none => .error otherwise

/-- Reads a token of the kind or refuses the current one. -/
def take (kind : Token.Kind) (c : Cursor) : Reads Token c.size := c.takeOr kind c.unexpected

section

variable {c c₁ c₂ c₃ c₄ c₅ : Cursor}

theorem fewer_self (c : Cursor) : c.rest.length < c.size + 1 := Nat.lt_succ_self _

/-- Reading one thing after another leaves fewer tokens than there were. -/
theorem fewer₂ (h₁ : c₁.rest.length < c.size) (h₂ : c₂.rest.length < c₁.size) :
    c₂.rest.length < c.size := Nat.lt_trans h₂ h₁

theorem fewer₃ (h₁ : c₁.rest.length < c.size) (h₂ : c₂.rest.length < c₁.size)
    (h₃ : c₃.rest.length < c₂.size) : c₃.rest.length < c.size := fewer₂ h₁ (fewer₂ h₂ h₃)

theorem fewer₄ (h₁ : c₁.rest.length < c.size) (h₂ : c₂.rest.length < c₁.size)
    (h₃ : c₃.rest.length < c₂.size) (h₄ : c₄.rest.length < c₃.size) :
    c₄.rest.length < c.size := fewer₂ h₁ (fewer₃ h₂ h₃ h₄)

theorem fewer₅ (h₁ : c₁.rest.length < c.size) (h₂ : c₂.rest.length < c₁.size)
    (h₃ : c₃.rest.length < c₂.size) (h₄ : c₄.rest.length < c₃.size)
    (h₅ : c₅.rest.length < c₄.size) : c₅.rest.length < c.size := fewer₂ h₁ (fewer₄ h₂ h₃ h₄ h₅)

/-- What may read nothing leaves fewer tokens too after something was read. -/
theorem fewer_after (h₁ : c₁.rest.length < c.size) (h₂ : c₂.rest.length < c₁.size + 1) :
    c₂.rest.length < c.size := Nat.lt_of_le_of_lt (Nat.le_of_lt_succ h₂) h₁

end

/-- From `start` to the end of the last token that was read. -/
def spanFrom (c : Cursor) (start : Position) : Span :=
  ⟨start, c.last.getD ⟨start.offset, c.file⟩⟩

/-- The current token with the cursor after it if it is of the kind, the end included. -/
def expect (kind : Token.Kind) (c : Cursor) (otherwise : Rejection) :
    Except Rejection (Token × Cursor) :=
  if c.kind = kind then .ok (c.current, c.advance) else .error otherwise

end Cursor

end ShapeLang
