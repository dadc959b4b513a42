import ShapeLang.Proofs.Spelling
import ShapeLang.Proofs.Tiling

/-!
# Scanning what was written

A lexeme is cut from the text ahead by the first rule that applies, which takes as much as it
can. Words and marks therefore come back from a text that spells them one after the other,
if none of them could take the first character of what follows it.
-/

namespace ShapeLang.Token

/-- A word that is not reserved. -/
structure IsName (text : String) : Prop where
  word : Rule.word.Matches text.toList
  free : wordKind text = .identifier

/-- The text is cut into the lexemes, up to its end. -/
def Scans (cs : List Char) (ls : List Lexeme) : Prop :=
  ∀ (file : String) (offset : Nat), ∃ tokens, scan file offset cs = .ok tokens ∧
    tokens.map lexeme = ls ++ [⟨.eof, "EOF"⟩]

/-- Nothing that could lengthen a word or a mark stands first. -/
def Clear (cs : List Char) : Prop :=
  ∀ c ∈ cs.head?, isWordChar c = false ∧ c ≠ '=' ∧ c ≠ '&'

/-! ## One lexeme -/

/-- The lexeme that a rule makes of the characters it took, if it makes one. -/
def Rule.lexemes (rule : Rule) (taken : List Char) : List Lexeme :=
  (rule.token? taken).toList.map fun made => ⟨made.1, made.2⟩

namespace Scans

variable {cs : List Char} {ls : List Lexeme}

theorem nil : Scans [] [] := by
  intro file offset
  exact ⟨_, by rw [scan], rfl⟩

/-- The first lexeme is what the first rule makes of what it takes. -/
theorem step {c : Char} {rule : Rule} {n : Nat} (found : firstRule? c cs = some (rule, n))
    (rest : Scans (cs.drop n) ls) : Scans (c :: cs) (rule.lexemes (c :: cs.take n) ++ ls) := by
  intro file offset
  obtain ⟨tokens, scanned, same⟩ := rest file (offset + byteLength (c :: cs.take n))
  rw [scan_cons file offset found, scanned]
  refine ⟨_, rfl, ?_⟩
  rw [List.map_append, same, Rule.tokens, Rule.lexemes, List.append_assoc]
  cases rule.token? (c :: cs.take n) <;> rfl

end Scans

theorem firstRule?_word {c : Char} {cs : List Char} (letter : isLetter c = true) :
    firstRule? c cs = some (.word, spanLength isWordChar cs) := by
  simp [firstRule?, rules, Rule.tail?, letter]

theorem Scans.word {text : String} {cs : List Char} {ls : List Lexeme}
    (word : Rule.word.Matches text.toList) (stops : ∀ c ∈ cs.head?, isWordChar c = false)
    (rest : Scans cs ls) : Scans (text.toList ++ cs) (⟨wordKind text, text⟩ :: ls) := by
  obtain ⟨spelled, same⟩ : ∃ spelled, text.toList = spelled := ⟨_, rfl⟩
  have again : String.ofList spelled = text := by rw [← same, String.ofList_toList]
  rw [same] at word ⊢
  cases word with
  | @word c tail first others =>
    have length := spanLength_append others stops
    have found : firstRule? c (tail ++ cs) = some (.word, tail.length) :=
      length ▸ firstRule?_word first
    have scans := Scans.step found (by simpa using rest)
    simpa [Rule.lexemes, Rule.token?, again] using scans

theorem Rule.comment_tail?_of_ne {c : Char} (other : c ≠ '/') (cs : List Char) :
    Rule.comment.tail? c cs = none := by
  simp only [Rule.tail?]
  split
  · exact if_neg other
  · rfl

/-- The character starts no word, number, blank, string or comment. -/
def startsMark (c : Char) : Bool :=
  !isLetter c && !isDigit c && !Text.isBlank c && c != '"' && c != '/'

theorem firstRule?_of_startsMark {c : Char} (starts : startsMark c = true) (cs : List Char) :
    firstRule? c cs = marks.findSome? fun entry =>
      ((Rule.mark entry.1 entry.2.toList).tail? c cs).map
        (Rule.mark entry.1 entry.2.toList, ·) := by
  simp only [startsMark, Bool.and_eq_true, Bool.not_eq_true', bne_iff_ne] at starts
  obtain ⟨⟨⟨⟨letter, digit⟩, blank⟩, quote⟩, slash⟩ := starts
  have others : ∀ rule ∈ [Rule.word, .number, .blank, .text, .comment],
      (rule.tail? c cs).map (rule, ·) = none := by
    simp only [List.forall_mem_cons, Option.map_eq_none_iff]
    exact ⟨by simp [Rule.tail?, letter], by simp [Rule.tail?, digit], by simp [Rule.tail?, blank],
      by simp [Rule.tail?, quote], Rule.comment_tail?_of_ne slash cs, by simp⟩
  rw [firstRule?, rules, List.findSome?_append, List.findSome?_eq_none_iff.mpr others,
    Option.none_or, List.findSome?_map]
  rfl

theorem Rule.tail?_mark (kind : Kind) (c m : Char) (ms cs : List Char) :
    (Rule.mark kind (m :: ms)).tail? c cs =
      if c = m && ms.isPrefixOf cs then some ms.length else none := rfl

/-- The marks that annotations are written with. -/
def annotationMarks : List (Kind × List Char) :=
  [(.openBracket, ['[']), (.closeBracket, [']']), (.openParen, ['(']), (.closeParen, [')']),
   (.less, ['<']), (.greater, ['>']), (.ampersand, ['&']), (.question, ['?']), (.comma, [',']),
   (.arrow, ['-', '>'])]

/-- A mark that annotations are written with is taken, unless what follows makes a longer
one of it. -/
theorem firstRule?_mark {kind : Kind} {c : Char} {ms cs : List Char}
    (listed : (kind, c :: ms) ∈ annotationMarks) (clear : ∀ d ∈ cs.head?, d ≠ '=' ∧ d ≠ '&') :
    firstRule? c (ms ++ cs) = some (.mark kind (c :: ms), ms.length) := by
  have noEquals : ¬ ['='] <+: cs := by
    rintro ⟨ds, rfl⟩
    exact (clear '=' rfl).1 rfl
  have noAmpersand : ¬ ['&'] <+: cs := by
    rintro ⟨ds, rfl⟩
    exact (clear '&' rfl).2 rfl
  have starts : (annotationMarks.all fun entry => entry.2.head?.all startsMark) = true := by
    decide
  rw [firstRule?_of_startsMark (List.all_eq_true.mp starts _ listed)]
  simp only [annotationMarks, List.mem_cons, Prod.mk.injEq, List.cons.injEq, List.not_mem_nil,
    or_false] at listed
  rcases listed with ⟨rfl, rfl, rfl⟩ | ⟨rfl, rfl, rfl⟩ | ⟨rfl, rfl, rfl⟩ | ⟨rfl, rfl, rfl⟩ |
    ⟨rfl, rfl, rfl⟩ | ⟨rfl, rfl, rfl⟩ | ⟨rfl, rfl, rfl⟩ | ⟨rfl, rfl, rfl⟩ | ⟨rfl, rfl, rfl⟩ |
    ⟨rfl, rfl, rfl⟩
  all_goals simp [marks, Rule.tail?_mark, noEquals, noAmpersand]

/-- A mark of annotations is scanned as itself if nothing follows that would make it longer. -/
theorem Scans.mark {kind : Kind} {spelling cs : List Char} {ls : List Lexeme}
    (listed : (kind, spelling) ∈ annotationMarks) (clear : ∀ d ∈ cs.head?, d ≠ '=' ∧ d ≠ '&')
    (rest : Scans cs ls) : Scans (spelling ++ cs) (.mark kind :: ls) := by
  have spelled : ∀ entry ∈ annotationMarks, entry.2 ≠ [] ∧
      Lexeme.mark entry.1 = ⟨entry.1, String.ofList entry.2⟩ := by decide
  obtain ⟨some_, same⟩ := spelled _ listed
  obtain ⟨c, ms, rfl⟩ := List.exists_cons_of_ne_nil some_
  have scans := Scans.step (firstRule?_mark listed clear) (by simpa using rest)
  simpa [Rule.lexemes, Rule.token?, same] using scans

theorem range_of_isLetter {c : Char} (letter : isLetter c = true) :
    65 ≤ c.toNat ∧ c.toNat ≤ 122 := by
  simp only [isLetter, Bool.or_eq_true, Bool.and_eq_true, decide_eq_true_eq, beq_iff_eq] at letter
  rcases letter with (⟨low, high⟩ | ⟨low, high⟩) | rfl
  · have low : 97 ≤ c.toNat := UInt32.le_iff_toNat_le.mp low
    have high : c.toNat ≤ 122 := UInt32.le_iff_toNat_le.mp high
    omega
  · have low : 65 ≤ c.toNat := UInt32.le_iff_toNat_le.mp low
    have high : c.toNat ≤ 90 := UInt32.le_iff_toNat_le.mp high
    omega
  · decide

theorem range_of_isDigit {c : Char} (digit : isDigit c = true) : 48 ≤ c.toNat ∧ c.toNat ≤ 57 := by
  simp only [isDigit, Bool.and_eq_true, decide_eq_true_eq] at digit
  exact ⟨UInt32.le_iff_toNat_le.mp digit.1, UInt32.le_iff_toNat_le.mp digit.2⟩

/-- Of the characters up to the tilde only the space and those before it are blank. -/
theorem isBlank_of_range {c : Char} (low : 33 ≤ c.toNat) (high : c.toNat ≤ 126) :
    Text.isBlank c = false := by
  simp only [Text.isBlank, Bool.or_eq_false_iff, Bool.and_eq_false_iff, decide_eq_false_iff_not,
    beq_eq_false_iff_ne]
  omega

theorem isBlank_of_isLetter {c : Char} (letter : isLetter c = true) : Text.isBlank c = false := by
  obtain ⟨low, high⟩ := range_of_isLetter letter
  exact isBlank_of_range (by omega) (by omega)

theorem Scans.space {cs : List Char} {ls : List Lexeme}
    (stops : ∀ d ∈ cs.head?, Text.isBlank d = false) (rest : Scans cs ls) :
    Scans (' ' :: cs) ls := by
  have none_ : spanLength Text.isBlank cs = 0 := by
    cases cs with
    | nil => rfl
    | cons d cs => simp [spanLength, stops d rfl]
  have found : firstRule? ' ' cs = some (.blank, 0) := none_ ▸ firstRule?_space cs
  exact Scans.step found rest

/-! ## Texts with other texts in them -/

/-- Nothing that could lengthen a mark or a blank stands first. -/
def Opens (cs : List Char) : Prop :=
  ∀ c ∈ cs.head?, (c ≠ '=' ∧ c ≠ '&') ∧ Text.isBlank c = false

theorem Clear.nil : Clear [] := by simp [Clear]

theorem Clear.cons {c : Char} {cs : List Char}
    (is : (!isWordChar c && c != '=' && c != '&') = true) : Clear (c :: cs) := by
  intro d first
  obtain rfl := Option.some.inj first
  simp only [Bool.and_eq_true, Bool.not_eq_true', bne_iff_ne] at is
  exact ⟨is.1.1, is.1.2, is.2⟩

theorem Opens.cons {c : Char} {cs : List Char}
    (is : (c != '=' && c != '&' && !Text.isBlank c) = true) : Opens (c :: cs) := by
  intro d first
  obtain rfl := Option.some.inj first
  simp only [Bool.and_eq_true, Bool.not_eq_true', bne_iff_ne] at is
  exact is

namespace Scans

variable {kind : Kind} {c : Char} {cs : List Char} {ls : List Lexeme}

/-- A mark of one character is scanned as itself in front of a text that opens. -/
theorem mark_opens (listed : (kind, [c]) ∈ annotationMarks) (opens : Opens cs)
    (rest : Scans cs ls) : Scans (c :: cs) (.mark kind :: ls) :=
  .mark listed (fun d head => (opens d head).1) rest

theorem mark_clear (listed : (kind, [c]) ∈ annotationMarks) (clear : Clear cs)
    (rest : Scans cs ls) : Scans (c :: cs) (.mark kind :: ls) :=
  .mark listed (fun d head => (clear d head).2) rest

theorem space_opens (opens : Opens cs) (rest : Scans cs ls) : Scans (' ' :: cs) ls :=
  .space (fun d head => (opens d head).2) rest

end Scans

/-- The text is cut into the lexemes wherever what follows lengthens none of them. -/
structure Lexes (text : String) (ls : List Lexeme) : Prop where
  opens : ∀ cs, Opens (text.toList ++ cs)
  scans : ∀ {cs : List Char} {more : List Lexeme}, Clear cs → Scans cs more →
    Scans (text.toList ++ cs) (ls ++ more)

/-- The separator is cut into the mark wherever what follows does not lengthen it, and it
lengthens nothing before it. -/
structure Separates (sep : String) (kind : Kind) : Prop where
  clear : ∀ cs, Clear (sep.toList ++ cs)
  scans : ∀ {cs : List Char} {more : List Lexeme}, Opens cs → Scans cs more →
    Scans (sep.toList ++ cs) (.mark kind :: more)

theorem separates_comma : Separates ", " .comma where
  clear _ := .cons (by decide)
  scans opens rest := .mark_clear (by decide) (.cons (by decide)) (.space_opens opens rest)

theorem separates_ampersand : Separates " & " .ampersand where
  clear _ := .cons (by decide)
  scans {cs more} opens rest := by
    have marked : Scans ('&' :: ' ' :: cs) (.mark .ampersand :: more) :=
      .mark_clear (by decide) (.cons (by decide)) (.space_opens opens rest)
    have spaced : Scans (' ' :: '&' :: ' ' :: cs) (.mark .ampersand :: more) :=
      .space (by simp [Text.isBlank]) marked
    exact spaced

namespace Lexes

open Lexeme

variable {α : Type} {text : String} {ls more : List Lexeme} {as : List α} {cs : List Char}
  {t : α → String} {f : α → List Lexeme}

theorem name {text : String} (is : IsName text) : Lexes text [.name text] := by
  refine ⟨fun cs => ?_, fun clear rest => ?_⟩
  · obtain ⟨spelled, same⟩ : ∃ spelled, text.toList = spelled := ⟨_, rfl⟩
    have word := is.word
    rw [same] at word ⊢
    cases word with
    | @word c tail first others =>
      intro d head
      obtain rfl := Option.some.inj head
      refine ⟨⟨?_, ?_⟩, isBlank_of_isLetter first⟩ <;> rintro rfl <;> revert first <;> decide
  · have scans := Scans.word is.word (fun c head => (clear c head).1) rest
    rwa [is.free] at scans

theorem noneWord : Lexes "none" [.mark .noneWord] := by
  refine ⟨fun cs => .cons (by decide), fun clear rest => ?_⟩
  have word : Rule.word.Matches "none".toList := .word (by decide) (List.all_eq_true.mp (by decide))
  exact Scans.word word (fun c head => (clear c head).1) rest

section

variable {sep : String} {kind : Kind}

theorem opens_cons {a : α} (first : Lexes (t a) (f a)) (as : List α) (cs : List Char) :
    Opens ((sep.intercalate ((a :: as).map t)).toList ++ cs) := by
  cases as with
  | nil => simpa using first.opens cs
  | cons b as => simpa [String.toList_intercalate] using first.opens _

theorem opens_list (each : ∀ a ∈ as, Lexes (t a) (f a)) (opens : Opens cs) :
    Opens ((sep.intercalate (as.map t)).toList ++ cs) := by
  cases as with
  | nil => simpa using opens
  | cons a as => exact opens_cons (each a (by simp)) as cs

/-- Texts with separators between them are scanned one after the other. -/
theorem scans_list (separates : Separates sep kind) (each : ∀ a ∈ as, Lexes (t a) (f a))
    (clear : Clear cs) (rest : Scans cs more) :
    Scans ((sep.intercalate (as.map t)).toList ++ cs) (separated kind (as.map f) ++ more) := by
  induction as with
  | nil => simpa [separated] using rest
  | cons a as ih =>
    obtain ⟨first, others⟩ := List.forall_mem_cons.mp each
    cases as with
    | nil => simpa [separated] using first.scans clear rest
    | cons b as =>
      have second : Opens ((sep.intercalate ((b :: as).map t)).toList ++ cs) :=
        opens_cons (others b (by simp)) as cs
      have scans := first.scans (separates.clear _) (separates.scans second (ih others))
      simpa [separated, String.toList_intercalate] using scans

end

theorem generic (is : IsName text) (some_ : as ≠ []) (each : ∀ a ∈ as, Lexes (t a) (f a)) :
    Lexes (text ++ "<" ++ commaList (as.map t) ++ ">") (.name text :: angled (as.map f)) := by
  have brackets : angled (as.map f) =
      mark .less :: separated .comma (as.map f) ++ [mark .greater] := by
    cases as with
    | nil => exact absurd rfl some_
    | cons a as => rfl
  refine ⟨fun cs => ?_, fun {cs more} clear rest => ?_⟩
  · simpa using (name is).opens ('<' :: ((commaList (as.map t)).toList ++ '>' :: cs))
  · have closed : Scans ('>' :: cs) (mark .greater :: more) := .mark_clear (by decide) clear rest
    have items := scans_list separates_comma each (.cons (by decide)) closed
    have opens : Opens ((commaList (as.map t)).toList ++ '>' :: cs) :=
      opens_list each (.cons (by decide))
    have opened : Scans ('<' :: ((commaList (as.map t)).toList ++ '>' :: cs))
        (mark .less :: (separated .comma (as.map f) ++ mark .greater :: more)) :=
      .mark_opens (by decide) opens items
    simpa [brackets] using (name is).scans (.cons (by decide)) opened

/-- The text between parentheses. -/
theorem scans_parens {inner : List Char} (opens : ∀ cs, Opens (inner ++ ')' :: cs))
    (scans : ∀ {cs : List Char} {more : List Lexeme}, Scans (')' :: cs) more →
      Scans (inner ++ ')' :: cs) (ls ++ more))
    (clear : Clear cs) (rest : Scans cs more) :
    Scans ('(' :: inner ++ ')' :: cs) (parens ls ++ more) := by
  have closed : Scans (')' :: cs) (mark .closeParen :: more) := .mark_clear (by decide) clear rest
  have opened : Scans ('(' :: (inner ++ ')' :: cs))
      (mark .openParen :: (ls ++ mark .closeParen :: more)) :=
    .mark_opens (by decide) (opens cs) (scans closed)
  simpa [parens] using opened

theorem scans_items (each : ∀ a ∈ as, Lexes (t a) (f a)) (clear : Clear cs)
    (rest : Scans cs more) :
    Scans ('(' :: (commaList (as.map t)).toList ++ ')' :: cs)
      (parens (separated .comma (as.map f)) ++ more) :=
  scans_parens (fun _ => opens_list each (.cons (by decide)))
    (fun rest => scans_list separates_comma each (.cons (by decide)) rest) clear rest

theorem tuple (each : ∀ a ∈ as, Lexes (t a) (f a)) :
    Lexes ("(" ++ commaList (as.map t) ++ (if as.length = 1 then "," else "") ++ ")")
      (tupled (as.map f)) := by
  refine ⟨fun cs => by simpa using .cons (by decide), fun {cs more} clear rest => ?_⟩
  rcases as with _ | ⟨a, _ | ⟨b, as⟩⟩
  · simpa [tupled] using scans_items each clear rest
  · have only := each a (by simp)
    have inside {cs : List Char} {more : List Lexeme} (rest : Scans (')' :: cs) more) :
        Scans ((t a).toList ++ [','] ++ ')' :: cs) (f a ++ [mark .comma] ++ more) := by
      have comma : Scans (',' :: ')' :: cs) (mark .comma :: more) :=
        .mark_opens (by decide) (.cons (by decide)) rest
      simpa using only.scans (.cons (by decide)) comma
    have opens (cs : List Char) : Opens ((t a).toList ++ [','] ++ ')' :: cs) := by
      simpa using only.opens (',' :: ')' :: cs)
    simpa [tupled, commaList] using scans_parens opens inside clear rest
  · simpa [tupled] using scans_items each clear rest

/-- A signature is scanned as its parameters, an arrow and its result. -/
theorem arrow {result : String} {rs : List Lexeme} (each : ∀ a ∈ as, Lexes (t a) (f a))
    (result_ : Lexes result rs) :
    Lexes ("(" ++ commaList (as.map t) ++ ") -> " ++ result)
      (parens (separated .comma (as.map f)) ++ mark .arrow :: rs) := by
  refine ⟨fun cs => by simpa using .cons (by decide), fun {cs more} clear rest => ?_⟩
  have spaced := Scans.space_opens (result_.opens cs) (result_.scans clear rest)
  have listed : (Kind.arrow, ['-', '>']) ∈ annotationMarks := by decide
  have marked : Scans ('-' :: '>' :: ' ' :: (result.toList ++ cs)) (mark .arrow :: (rs ++ more)) :=
    .mark listed (by simp) spaced
  have behind := Scans.space (by simp [Text.isBlank]) marked
  simpa using scans_items each (.cons (by decide)) behind

theorem joined (some_ : as ≠ []) (each : ∀ a ∈ as, Lexes (t a) (f a)) :
    Lexes (String.intercalate " & " (as.map t)) (separated .ampersand (as.map f)) := by
  refine ⟨fun cs => ?_, fun clear rest => scans_list separates_ampersand each clear rest⟩
  obtain ⟨a, as, rfl⟩ := List.exists_cons_of_ne_nil some_
  exact opens_cons (each a (by simp)) as cs

theorem array (is : Lexes text ls) : Lexes (text ++ "[]") (ls ++ brackets []) := by
  refine ⟨fun cs => by simpa using is.opens _, fun {cs more} clear rest => ?_⟩
  have closed : Scans (']' :: cs) (mark .closeBracket :: more) := .mark_clear (by decide) clear rest
  have opened : Scans ('[' :: ']' :: cs) (brackets [] ++ more) :=
    .mark_clear (by decide) (.cons (by decide)) closed
  simpa using is.scans (.cons (by decide)) opened

theorem maybe (is : Lexes text ls) : Lexes (text ++ "?") (ls ++ [mark .question]) := by
  refine ⟨fun cs => by simpa using is.opens _, fun {cs more} clear rest => ?_⟩
  have closed : Scans ('?' :: cs) (mark .question :: more) := .mark_clear (by decide) clear rest
  simpa using is.scans (.cons (by decide)) closed

end Lexes

/-! ## Identifiers -/

theorem mark_ne_identifier {kind : Kind} {spelling : List Char}
    (listed : Rule.mark kind spelling ∈ rules) : kind ≠ .identifier := by
  have each : ∀ entry ∈ marks, entry.1 ≠ .identifier := by decide
  obtain ⟨entry, member, rfl, _⟩ := mem_marks listed
  exact each entry member

/-- Only the rule for words makes identifiers. -/
theorem Rule.isName_of_token? {rule : Rule} {lexeme : List Char} {text : String}
    (listed : rule ∈ rules) (matched : rule.Matches lexeme)
    (made : rule.token? lexeme = some (.identifier, text)) : IsName text := by
  cases rule with
  | word =>
    obtain ⟨free, rfl⟩ := Prod.mk.inj (Option.some.inj made)
    exact ⟨by rwa [String.toList_ofList], free⟩
  | mark kind spelling =>
    obtain ⟨rfl, _⟩ := Prod.mk.inj (Option.some.inj made)
    exact absurd rfl (mark_ne_identifier listed)
  | number => cases made
  | blank => cases made
  | text => cases made
  | comment => cases made

/-- What is scanned as an identifier is a name. -/
theorem Scanned.isName {file : String} {rest text : List Char} {offset : Nat}
    {tokens : List Token} (scanned : Scanned file rest offset text tokens) :
    ∀ t ∈ tokens, t.kind = .identifier → IsName t.text := by
  induction scanned with
  | done => simp
  | @lexeme offset rule lexeme text tokens listed matched _ _ ih =>
    refine List.forall_mem_append.mpr ⟨?_, ih⟩
    rw [Rule.tokens]
    cases made : rule.token? lexeme with
    | none => simp
    | some token =>
      obtain ⟨kind, value⟩ := token
      refine List.forall_mem_singleton.mpr ?_
      rintro rfl
      exact Rule.isName_of_token? listed matched made

/-- The identifiers among the tokens of a source are names. -/
theorem isName_of_tokenize {source file : String} {tokens : List Token}
    (scanned : tokenize source file = .ok tokens) {t : Token} (among : t ∈ tokens)
    (identifier : t.kind = .identifier) : IsName t.text := by
  have outcome := scan_outcome file 0 source.toList
  rw [← tokenize, scanned] at outcome
  cases outcome with
  | finished cut =>
    rcases List.mem_append.mp among with among | last
    · exact cut.isName t among identifier
    · obtain rfl := List.mem_singleton.mp last
      cases identifier

/-- A text that is cut into the lexemes gives their tokens and an end mark. -/
theorem Scans.tokenize {text : String} {ls : List Lexeme} (scans : Scans text.toList ls)
    (file : String) : ∃ tokens mark, tokenize text file = .ok (tokens ++ [mark]) ∧
      tokens.map lexeme = ls ∧ (∀ t ∈ tokens, t.kind ≠ .eof) ∧ mark.kind = .eof := by
  obtain ⟨all, scanned, same⟩ := scans file 0
  have outcome := scan_outcome file 0 text.toList
  rw [scanned] at outcome
  cases outcome with
  | @finished tokens cut =>
    rw [List.map_append] at same
    exact ⟨tokens, _, scanned, (List.append_inj' same rfl).1, cut.kinds, rfl⟩

end ShapeLang.Token
