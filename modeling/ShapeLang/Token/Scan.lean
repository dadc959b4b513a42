import ShapeLang.Diagnostic
import ShapeLang.Token.Rule

/-!
# From source text to tokens

The text is cut from the left, one lexeme at a time. The tokens end with one of
kind `eof`, empty, at the end of the text.
-/

namespace ShapeLang.Token

/-- The tokens of `cs`, the rest of the file from `offset` on. -/
def scan (file : String) (offset : Nat) : List Char → Except Diagnostic (List Token)
  | [] => .ok [⟨.eof, "EOF", .point (.of file offset)⟩]
  | c :: cs =>
      match firstRule? c cs with
      | none =>
          .error (.error (.unrecognisedToken (String.singleton c)) (.point (.of file offset)))
      | some (rule, n) =>
          let lexeme := c :: cs.take n
          let stop := offset + byteLength lexeme
          match scan file stop (cs.drop n) with
          | .error d => .error d
          | .ok tokens =>
              match rule.token? lexeme with
              | none => .ok tokens
              | some (kind, text) =>
                  .ok (⟨kind, text, ⟨.of file offset, .of file stop⟩⟩ :: tokens)
termination_by cs => cs.length
decreasing_by simp only [List.length_drop, List.length_cons]; omega

/-- The name of the file that text without a file belongs to. -/
def shellFile : String := "shell"

def tokenize (source : String) (file : String) : Except Diagnostic (List Token) :=
  scan file 0 source.toList

end ShapeLang.Token
