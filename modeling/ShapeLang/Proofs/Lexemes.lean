import ShapeLang.Proofs.NameMap
import ShapeLang.Token.Rule

/-!
# The texts that lexemes can be

Each rule stands for a set of texts. What a rule takes from the text ahead is one
of them, and where it takes nothing the text ahead begins with none of them.
-/

namespace ShapeLang.Token

/-- What may stand between the quotes of a literal: no quote or backslash, except that a
backslash hides the character after it, which may not be a line feed. -/
inductive StringLiteral.Body : List Char → Prop where
  | nil : Body []
  | escaped {c : Char} {cs : List Char} (line : c ≠ '\n') (rest : Body cs) : Body ('\\' :: c :: cs)
  | plain {c : Char} {cs : List Char} (quote : c ≠ '"') (backslash : c ≠ '\\') (rest : Body cs) :
      Body (c :: cs)

/-- The texts that a rule stands for. -/
inductive Rule.Matches : Rule → List Char → Prop where
  | word {c : Char} {cs : List Char} (first : isLetter c = true)
      (rest : ∀ d ∈ cs, isWordChar d = true) : Matches .word (c :: cs)
  | whole {c : Char} {cs : List Char} (digits : ∀ d ∈ c :: cs, isDigit d = true) :
      Matches .number (c :: cs)
  | fraction {c c' : Char} {cs cs' : List Char} (digits : ∀ d ∈ c :: cs, isDigit d = true)
      (digits' : ∀ d ∈ c' :: cs', isDigit d = true) :
      Matches .number (c :: cs ++ '.' :: c' :: cs')
  | blank {c : Char} {cs : List Char} (blanks : ∀ d ∈ c :: cs, Text.isBlank d = true) :
      Matches .blank (c :: cs)
  | text {body : List Char} (inside : StringLiteral.Body body) :
      Matches .text ('"' :: body ++ ['"'])
  | comment {line : List Char} (inside : '\n' ∉ line) : Matches .comment ('/' :: '/' :: line)
  | mark {kind : Kind} {c : Char} {cs : List Char} : Matches (.mark kind (c :: cs)) (c :: cs)

/-! ## What a rule takes -/

section

variable (p : Char → Bool) (cs : List Char)

theorem take_spanLength : cs.take (spanLength p cs) = cs.takeWhile p :=
  (List.prefix_iff_eq_take.mp (List.takeWhile_prefix p)).symm

theorem drop_spanLength : cs.drop (spanLength p cs) = cs.dropWhile p := by
  have whole : cs.takeWhile p ++ cs.drop (spanLength p cs) = cs.takeWhile p ++ cs.dropWhile p := by
    rw [← take_spanLength, List.take_append_drop, take_spanLength, List.takeWhile_append_dropWhile]
  exact List.append_cancel_left whole

variable {p cs}

/-- A run of characters is as long as they fit, and the next one decides that. -/
theorem spanLength_append {rest : List Char} (inside : ∀ c ∈ cs, p c = true)
    (stops : ∀ c ∈ rest.head?, p c = false) : spanLength p (cs ++ rest) = cs.length := by
  rw [spanLength, List.takeWhile_append_of_pos inside]
  cases rest with
  | nil => simp
  | cons c rest => simp [stops c rfl]

theorem le_spanLength (inside : ∀ c ∈ cs, p c = true) (rest : List Char) :
    cs.length ≤ spanLength p (cs ++ rest) := by
  rw [spanLength, List.takeWhile_append_of_pos inside, List.length_append]
  exact Nat.le_add_right _ _

theorem all_take_spanLength {d : Char} (listed : d ∈ cs.take (spanLength p cs)) : p d = true := by
  rw [take_spanLength] at listed
  exact List.all_eq_true.mp List.all_takeWhile d listed

end

/-- A fraction takes nothing, or a point and digits. -/
theorem take_fractionLength (cs : List Char) : cs.take (fractionLength cs) = [] ∨
    ∃ c ds, cs.take (fractionLength cs) = '.' :: c :: ds ∧ ∀ d ∈ c :: ds, isDigit d = true := by
  unfold fractionLength
  split
  · rename_i c cs
    split
    · rename_i first
      refine .inr ⟨c, cs.take (spanLength isDigit cs), ?_, ?_⟩
      · rw [Nat.add_comm]
        rfl
      · exact List.forall_mem_cons.mpr ⟨first, fun d listed => all_take_spanLength listed⟩
    · exact .inl rfl
  · exact .inl rfl

/-- A string literal that was taken is its body with the quote that ends it. -/
theorem StringLiteral.take_tail? {cs : List Char} {n : Nat} (taken : tail? cs = some n) :
    ∃ body, Body body ∧ cs.take n = body ++ ['"'] := by
  fun_induction tail? cs generalizing n with
  | case1 => cases taken
  | case2 cs =>
    cases taken
    exact ⟨[], .nil, rfl⟩
  | case3 => cases taken
  | case4 => cases taken
  | case5 c cs line ih =>
    obtain ⟨m, inner, rfl⟩ := Option.map_eq_some_iff.mp taken
    obtain ⟨body, inside, same⟩ := ih inner
    exact ⟨'\\' :: c :: body, .escaped line inside, by rw [List.take_succ_cons]; simp [same]⟩
  | case6 c cs quote alone hidden ih =>
    obtain ⟨m, inner, rfl⟩ := Option.map_eq_some_iff.mp taken
    obtain ⟨body, inside, same⟩ := ih inner
    have backslash : c ≠ '\\' := by
      intro escape
      cases cs with
      | nil => exact alone escape rfl
      | cons d ds => exact hidden d ds escape rfl
    exact ⟨c :: body, .plain quote backslash inside, by rw [List.take_succ_cons, same]; rfl⟩

theorem Rule.comment_tail? {c : Char} {cs : List Char} {n : Nat}
    (taken : Rule.comment.tail? c cs = some n) :
    ∃ rest, c = '/' ∧ cs = '/' :: rest ∧ n = spanLength (· != '\n') rest + 1 := by
  simp only [tail?] at taken
  split at taken
  · rename_i rest
    obtain ⟨first, same⟩ := Option.ite_none_right_eq_some.mp taken
    cases same
    exact ⟨rest, first, rfl, Nat.add_comm ..⟩
  · cases taken

/-- A comment goes to the end of its line. -/
theorem Rule.comment_ends {c : Char} {cs : List Char} {n : Nat}
    (taken : Rule.comment.tail? c cs = some n) : ∀ d ∈ (cs.drop n).head?, d = '\n' := by
  obtain ⟨rest, _, rfl, rfl⟩ := comment_tail? taken
  intro d next
  rw [List.drop_succ_cons, drop_spanLength] at next
  have stopped := List.head?_dropWhile_not (· != '\n') rest
  rw [Option.mem_def.mp next] at stopped
  simpa using stopped

/-- What a rule takes is a text that it stands for. -/
theorem Rule.matches_of_tail? {rule : Rule} {c : Char} {cs : List Char} {n : Nat}
    (taken : rule.tail? c cs = some n) : rule.Matches (c :: cs.take n) := by
  cases rule with
  | word =>
    obtain ⟨first, same⟩ := Option.ite_none_right_eq_some.mp taken
    cases same
    exact .word first fun d listed => all_take_spanLength listed
  | number =>
    obtain ⟨first, same⟩ := Option.ite_none_right_eq_some.mp taken
    cases same
    have digits : ∀ d ∈ c :: cs.take (spanLength isDigit cs), isDigit d = true :=
      List.forall_mem_cons.mpr ⟨first, fun d listed => all_take_spanLength listed⟩
    rw [List.take_add]
    rcases take_fractionLength (cs.drop (spanLength isDigit cs)) with none | ⟨c', ds, some, digits'⟩
    · rw [none, List.append_nil]
      exact .whole digits
    · rw [some]
      exact .fraction digits digits'
  | blank =>
    obtain ⟨first, same⟩ := Option.ite_none_right_eq_some.mp taken
    cases same
    exact .blank (List.forall_mem_cons.mpr ⟨first, fun d listed => all_take_spanLength listed⟩)
  | text =>
    obtain ⟨rfl, inner⟩ := Option.ite_none_right_eq_some.mp taken
    obtain ⟨body, inside, same⟩ := StringLiteral.take_tail? inner
    rw [same]
    exact .text inside
  | comment =>
    obtain ⟨rest, rfl, rfl, rfl⟩ := comment_tail? taken
    rw [List.take_succ_cons]
    refine .comment fun listed => ?_
    have other := all_take_spanLength listed
    simp at other
  | mark kind spelling =>
    cases spelling with
    | nil => cases taken
    | cons m ms =>
      obtain ⟨ahead, same⟩ := Option.ite_none_right_eq_some.mp taken
      cases same
      simp only [Bool.and_eq_true, decide_eq_true_eq, List.isPrefixOf_iff_prefix] at ahead
      obtain ⟨rfl, begins⟩ := ahead
      rw [← List.prefix_iff_eq_take.mp begins]
      exact .mark

theorem StringLiteral.tail?_body {body : List Char} (inside : Body body) (rest : List Char) :
    tail? (body ++ '"' :: rest) = some (body.length + 1) := by
  induction inside with
  | nil => rfl
  | escaped line _ ih => simp [tail?, line, ih]
  | @plain c cs quote backslash _ ih =>
    rw [List.cons_append, tail?, ih]
    · rfl
    · exact quote
    · intro same
      exact absurd same backslash
    · intro _ _ same
      exact absurd same backslash

/-- A rule takes at least as much as any of its texts that the text ahead begins with. -/
theorem Rule.le_tail? {rule : Rule} {lexeme rest : List Char} (matched : rule.Matches lexeme)
    {c : Char} {cs : List Char} (ahead : c :: cs = lexeme ++ rest) :
    ∃ n, rule.tail? c cs = some n ∧ lexeme.length ≤ n + 1 := by
  cases matched with
  | word first others =>
    cases ahead
    exact ⟨_, if_pos first, Nat.succ_le_succ (le_spanLength others rest)⟩
  | whole digits =>
    cases ahead
    obtain ⟨first, others⟩ := List.forall_mem_cons.mp digits
    have := le_spanLength others rest
    exact ⟨_, if_pos first, Nat.succ_le_succ (Nat.le_add_right_of_le this)⟩
  | @fraction c c' ds ds' digits digits' =>
    rw [List.cons_append, List.cons_append, List.append_assoc] at ahead
    obtain ⟨rfl, rfl⟩ := List.cons.inj ahead
    obtain ⟨first, others⟩ := List.forall_mem_cons.mp digits
    obtain ⟨first', others'⟩ := List.forall_mem_cons.mp digits'
    have point : isDigit '.' = false := by decide
    have whole : spanLength isDigit (ds ++ '.' :: c' :: (ds' ++ rest)) = ds.length :=
      spanLength_append others (by simp [point])
    have := le_spanLength others' rest
    refine ⟨ds.length + (2 + spanLength isDigit (ds' ++ rest)), ?_, ?_⟩
    · simp [tail?, first, whole, fractionLength, first']
    · simp only [List.length_append, List.length_cons]
      omega
  | blank blanks =>
    cases ahead
    obtain ⟨first, others⟩ := List.forall_mem_cons.mp blanks
    exact ⟨_, if_pos first, Nat.succ_le_succ (le_spanLength others rest)⟩
  | @text body inside =>
    rw [List.cons_append, List.cons_append, List.append_assoc] at ahead
    obtain ⟨rfl, rfl⟩ := List.cons.inj ahead
    exact ⟨body.length + 1, StringLiteral.tail?_body inside rest, by simp⟩
  | @comment line inside =>
    cases ahead
    have ordinary : ∀ d ∈ line, (d != '\n') = true := by
      intro d listed
      rw [bne_iff_ne]
      rintro rfl
      exact inside listed
    have := le_spanLength ordinary rest
    refine ⟨1 + spanLength (· != '\n') (line ++ rest), rfl, ?_⟩
    simp only [List.length_cons]
    omega
  | mark =>
    cases ahead
    exact ⟨_, by simp [tail?], Nat.le_refl _⟩

/-- The rule that is found first is a rule of the list and takes what it says. -/
theorem firstRule?_eq_some {c : Char} {cs : List Char} {rule : Rule} {n : Nat}
    (found : firstRule? c cs = some (rule, n)) : rule ∈ rules ∧ rule.tail? c cs = some n := by
  obtain ⟨rule', listed, taken⟩ := List.exists_of_findSome?_eq_some found
  obtain ⟨m, taken, same⟩ := Option.map_eq_some_iff.mp taken
  cases same
  exact ⟨listed, taken⟩

theorem firstRule?_space (cs : List Char) :
    firstRule? ' ' cs = some (.blank, spanLength Text.isBlank cs) := by
  have letter : isLetter ' ' = false := by decide
  have digit : isDigit ' ' = false := by decide
  have blank : Text.isBlank ' ' = true := by decide
  simp [firstRule?, rules, Rule.tail?, letter, digit, blank]

/-- Where no rule applies, the text ahead begins with no text of any rule. -/
theorem not_matches_of_firstRule? {c : Char} {cs : List Char} (stuck : firstRule? c cs = none) :
    ∀ rule ∈ rules, ∀ lexeme rest, c :: cs = lexeme ++ rest → ¬ rule.Matches lexeme := by
  intro rule listed lexeme rest ahead matched
  have none := List.findSome?_eq_none_iff.mp stuck rule listed
  obtain ⟨n, taken, _⟩ := Rule.le_tail? matched ahead
  cases (Option.map_eq_none_iff.mp none).symm.trans taken

/-! ## What becomes of a lexeme -/

theorem wordKind_plain (word : String) : wordKind word ≠ .string ∧ wordKind word ≠ .eof := by
  have each : ∀ entry ∈ reserved, entry.2 ≠ .string ∧ entry.2 ≠ .eof := by decide
  unfold wordKind
  cases found : reserved.lookup word with
  | none => decide
  | some kind => exact each _ (NameMap.mem_of_lookup found)

theorem mem_marks {kind : Kind} {spelling : List Char} (listed : Rule.mark kind spelling ∈ rules) :
    ∃ entry ∈ marks, entry.1 = kind ∧ entry.2.toList = spelling := by
  rcases List.mem_append.mp listed with first | later
  · simp at first
  · obtain ⟨entry, member, same⟩ := List.mem_map.mp later
    cases same
    exact ⟨entry, member, rfl, rfl⟩

theorem marks_plain {kind : Kind} {spelling : List Char}
    (listed : Rule.mark kind spelling ∈ rules) : kind ≠ .string ∧ kind ≠ .eof := by
  have each : ∀ entry ∈ marks, entry.1 ≠ .string ∧ entry.1 ≠ .eof := by decide
  obtain ⟨entry, member, rfl, _⟩ := mem_marks listed
  exact each entry member

/-- Only the rule for strings makes strings, and what any other rule makes spells the lexeme. -/
theorem Rule.token?_plain {rule : Rule} (listed : rule ∈ rules) (other : rule ≠ .text)
    {lexeme : List Char} {kind : Kind} {text : String}
    (made : rule.token? lexeme = some (kind, text)) :
    kind ≠ .string ∧ kind ≠ .eof ∧ text = String.ofList lexeme := by
  cases rule with
  | word =>
    cases made
    exact ⟨(wordKind_plain _).1, (wordKind_plain _).2, rfl⟩
  | number =>
    cases made
    exact ⟨by decide, by decide, rfl⟩
  | blank => cases made
  | text => exact absurd rfl other
  | comment => cases made
  | mark kind spelling =>
    cases made
    exact ⟨(marks_plain listed).1, (marks_plain listed).2, rfl⟩

end ShapeLang.Token
