import ShapeLang.Proofs.Rescan

/-!
# Every text has a literal

A text is written as a literal by putting a backslash before each backslash and each quote in
it, and quotes around it. The literal ends where it should, whatever follows it, and its value
is the text: the rule that looks for the closing quote and the one that replaces escapes go
through it in the same steps. What follows the literal is cut as it would be without it; if
that cannot be cut, there are no tokens at all.
-/

namespace ShapeLang

namespace Token.StringLiteral

/-- The text with a backslash before each backslash and each quote. -/
def escape : List Char → List Char
  | [] => []
  | c :: cs => if c = '\\' ∨ c = '"' then '\\' :: c :: escape cs else c :: escape cs

/-- An escaped text is the body of a literal: it has no bare quote in it. -/
theorem body_escape (cs : List Char) : Body (escape cs) := by
  induction cs with
  | nil => exact .nil
  | cons c cs ih =>
    rw [escape]
    split
    · rename_i special
      refine .escaped ?_ ih
      rintro rfl
      revert special
      decide
    · rename_i plain
      obtain ⟨backslash, quote⟩ := not_or.mp plain
      exact .plain quote backslash ih

theorem decode_plain {c : Char} (plain : c ≠ '\\') (cs : List Char) :
    decode (c :: cs) = c :: decode cs := by
  rw [decode] <;> simp [plain]

/-- Decoding undoes escaping. -/
theorem decode_escape (cs : List Char) : decode (escape cs) = cs := by
  induction cs with
  | nil => rfl
  | cons c cs ih =>
    rw [escape]
    split
    · rename_i special
      rcases special with rfl | rfl <;> rw [decode, ih]
    · rename_i plain
      rw [decode_plain (not_or.mp plain).1, ih]

end Token.StringLiteral

/-! ## Moving to another place -/

def Position.moved (bytes : Nat) (p : Position) : Position :=
  { p with offset := .ofNat bytes + p.offset }

theorem Position.moved_of (bytes : Nat) (file : String) (offset : Nat) :
    (Position.of file offset).moved bytes = .of file (bytes + offset) := by
  rw [Position.of, Position.moved, Position.of, UInt32.ofNat_add]

def Span.moved (bytes : Nat) (span : Span) : Span :=
  ⟨span.start.moved bytes, span.stop.moved bytes⟩

def Token.moved (bytes : Nat) (t : Token) : Token := { t with span := t.span.moved bytes }

def Diagnostic.moved (bytes : Nat) (d : Diagnostic) : Diagnostic :=
  { d with span := d.span.moved bytes }

namespace Token

def movedResult (bytes : Nat) : Except Diagnostic (List Token) → Except Diagnostic (List Token)
  | .ok tokens => .ok (tokens.map (moved bytes))
  | .error d => .error (d.moved bytes)

/-- What a rule makes of a lexeme does not hang on where it stands, but for the places. -/
theorem Rule.tokens_moved (rule : Rule) (file : String) (bytes offset : Nat) (lexeme : List Char) :
    rule.tokens file (bytes + offset) lexeme =
      (rule.tokens file offset lexeme).map (moved bytes) := by
  unfold Rule.tokens
  cases rule.token? lexeme with
  | none => rfl
  | some made => simp [moved, Span.moved, Position.moved_of, Nat.add_assoc]

/-- Only places depend on where a text begins. -/
theorem scan_moved (file : String) (bytes offset : Nat) (cs : List Char) :
    scan file (bytes + offset) cs = movedResult bytes (scan file offset cs) := by
  match cs with
  | [] =>
    rw [scan, scan, ← Position.moved_of]
    rfl
  | c :: cs =>
    cases found : firstRule? c cs with
    | none =>
      rw [scan, scan, found, ← Position.moved_of]
      rfl
    | some first =>
      obtain ⟨rule, n⟩ := first
      rw [scan_cons file _ found, scan_cons file _ found, Nat.add_assoc,
        scan_moved file bytes (offset + byteLength (c :: cs.take n)) (cs.drop n),
        Rule.tokens_moved]
      cases scan file (offset + byteLength (c :: cs.take n)) (cs.drop n) with
      | error d => rfl
      | ok tokens => simp [movedResult, Except.map]
termination_by cs.length
decreasing_by simp only [List.length_drop, List.length_cons]; omega

/-! ## Literals -/

def quote (text : String) : String :=
  String.ofList ('"' :: StringLiteral.escape text.toList ++ ['"'])

theorem toList_quote (text : String) :
    (quote text).toList = '"' :: (StringLiteral.escape text.toList ++ ['"']) := by
  rw [quote, String.toList_ofList, List.cons_append]

theorem firstRule?_text {cs : List Char} {n : Nat} (closed : StringLiteral.tail? cs = some n) :
    firstRule? '"' cs = some (.text, n) := by
  have letter : isLetter '"' = false := by decide
  have digit : isDigit '"' = false := by decide
  have blank : Text.isBlank '"' = false := by decide
  simp [firstRule?, rules, Rule.tail?, letter, digit, blank, closed]

def literal (text file : String) : Token :=
  ⟨.string, text, ⟨.of file 0, .of file (quote text).utf8ByteSize⟩⟩

/-- A literal is one token, and what follows it is cut on its own. -/
theorem scan_quote (text file : String) (rest : List Char) :
    scan file 0 ((quote text).toList ++ rest) =
      (scan file (quote text).utf8ByteSize rest).map (literal text file :: ·) := by
  have inside := StringLiteral.body_escape text.toList
  have closed := StringLiteral.tail?_body inside rest
  have taken : (StringLiteral.escape text.toList ++ '"' :: rest).take
      ((StringLiteral.escape text.toList).length + 1) =
        StringLiteral.escape text.toList ++ ['"'] := by
    rw [List.take_length_add_append]
    rfl
  have left : (StringLiteral.escape text.toList ++ '"' :: rest).drop
      ((StringLiteral.escape text.toList).length + 1) = rest := by
    rw [List.drop_length_add_append]
    rfl
  have value : Rule.text.token? (quote text).toList = some (.string, text) := by
    simp [Rule.token?, toList_quote, StringLiteral.decode_escape]
  have ahead : (quote text).toList ++ rest =
      '"' :: (StringLiteral.escape text.toList ++ '"' :: rest) := by
    simp [toList_quote]
  have cut : Rule.text.tokens file 0 (quote text).toList = [literal text file] := by
    rw [Rule.tokens, value, Nat.zero_add, byteLength_toList, literal]
  rw [ahead, scan_cons file 0 (firstRule?_text closed), taken, left, ← toList_quote, Nat.zero_add,
    byteLength_toList, cut]
  rfl

/-- A quoted text in front of a source becomes one token, and the rest is scanned from behind
it. -/
theorem tokenize_quote_append (text rest file : String) :
    tokenize (quote text ++ rest) file =
      (scan file (quote text).utf8ByteSize rest.toList).map (literal text file :: ·) := by
  rw [tokenize, String.toList_append, scan_quote]

/-- A literal that is not too long is the first token of every text that begins with it and whose
rest is cut into tokens; these follow, moved behind the literal. If the rest cannot be cut, this is
all that is said of the text, at the place where it is then. -/
theorem tokenize_quote {text : String} (short : (quote text).utf8ByteSize < UInt32.size)
    (rest file : String) :
    match tokenize rest file with
    | .ok tokens => ∃ span, span.file = file ∧ span.first = 0 ∧
        span.last = (quote text).utf8ByteSize ∧
        tokenize (quote text ++ rest) file =
          .ok (⟨.string, text, span⟩ :: tokens.map (moved (quote text).utf8ByteSize))
    | .error d => tokenize (quote text ++ rest) file =
        .error (d.moved (quote text).utf8ByteSize) := by
  have later := scan_moved file (quote text).utf8ByteSize 0 rest.toList
  rw [Nat.add_zero, ← tokenize] at later
  rw [tokenize_quote_append, later]
  cases tokenize rest file with
  | ok tokens => exact ⟨(literal text file).span, rfl, rfl, Position.offset_of short, rfl⟩
  | error d => rfl

theorem tokenize_quote_backslash : (quote "\\").utf8ByteSize < UInt32.size ∧
    ∃ tokens span, tokenize "x" "main.sp" = .ok tokens ∧
      span.first = 0 ∧ span.last = 4 ∧ tokenize (quote "\\" ++ "x") "main.sp" =
        .ok (⟨.string, "\\", span⟩ :: tokens.map (moved 4)) := by
  have short : (quote "\\").utf8ByteSize < UInt32.size := by decide
  have size : (quote "\\").utf8ByteSize = 4 := by decide
  have cut := tokenize_quote short "x" "main.sp"
  have computed : (tokenize "x" "main.sp").toBool = true := by decide +kernel
  cases scanned : tokenize "x" "main.sp" with
  | error d =>
    rw [scanned] at computed
    cases computed
  | ok tokens =>
    rw [scanned, size] at cut
    obtain ⟨span, _, first, last, ran⟩ := cut
    exact ⟨short, tokens, span, rfl, first, last, ran⟩

/-- One character that is no lexeme leaves a text without tokens, also behind a literal. -/
theorem quote_stuck : ¬ ∀ text rest file : String, ∃ span tokens,
    tokenize (quote text ++ rest) file = .ok (⟨.string, text, span⟩ :: tokens) := by
  intro every
  obtain ⟨span, tokens, ran⟩ := every "a" "@" "main.sp"
  have stuck : firstRule? '@' [] = none := by decide
  rw [tokenize_quote_append, String.toList_ofList, scan, stuck] at ran
  cases ran

end Token

end ShapeLang
