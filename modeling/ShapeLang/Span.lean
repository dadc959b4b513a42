/-!
# Places in a source text

Offsets count the bytes of the UTF-8 text, so a span cuts the text at the same
places whatever characters it holds. They are machine words of 32 bits: of a text
that is longer than such a word counts, the offsets start again from zero.
-/

namespace ShapeLang

/-- A byte of the named file. -/
structure Position where
  offset : UInt32
  file : String
deriving DecidableEq, Repr, Inhabited

/-- The position of the byte with this number, as far as a word holds it. -/
def Position.of (file : String) (offset : Nat) : Position := ⟨.ofNat offset, file⟩

/-- The bytes from `start` up to `stop`. -/
structure Span where
  start : Position
  stop : Position
deriving DecidableEq, Repr, Inhabited

namespace Span

def file (s : Span) : String := s.start.file

def first (s : Span) : Nat := s.start.offset.toNat

def last (s : Span) : Nat := s.stop.offset.toNat

def point (p : Position) : Span := ⟨p, p⟩

/-- The place of things that no source text wrote. -/
def null : Span := point ⟨0, "<null>"⟩

/-- From the start of the first span to the end of the second. -/
def join (a b : Span) : Span := ⟨a.start, b.stop⟩

end Span

/-- The number of bytes that a list of characters takes in UTF-8. -/
def byteLength : List Char → Nat
  | [] => 0
  | c :: cs => c.utf8Size + byteLength cs

@[simp] theorem byteLength_append (a b : List Char) :
    byteLength (a ++ b) = byteLength a + byteLength b := by
  induction a with
  | nil => simp [byteLength]
  | cons c cs ih => simp [byteLength, ih, Nat.add_assoc]

end ShapeLang
