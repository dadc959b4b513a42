import ShapeLang.Proofs.Rescan

/-!
# The first rule takes the most

The rules are tried in a fixed order, and the first that applies is taken. It is also the one
that takes the most: wherever two rules apply, the earlier of them takes more. So the tokens of
a source are those that come of always cutting off the longest lexeme. Where a lexeme ends does
not depend on what follows it as long as that is a space, and writing the lexemes of a source
with single spaces between them gives the same tokens again.
-/

namespace ShapeLang.Token

/-! ## How much a rule takes -/

theorem spanLength_le (p : Char → Bool) (cs : List Char) : spanLength p cs ≤ cs.length :=
  (List.takeWhile_prefix p).length_le

theorem fractionLength_le (cs : List Char) : fractionLength cs ≤ cs.length := by
  unfold fractionLength
  split
  · rename_i c cs
    have := spanLength_le isDigit cs
    split <;> simp only [List.length_cons] <;> omega
  · exact Nat.zero_le _

theorem StringLiteral.tail?_le {cs : List Char} {n : Nat} (taken : tail? cs = some n) :
    n ≤ cs.length := by
  fun_induction tail? cs generalizing n with
  | case1 => cases taken
  | case2 cs =>
    cases taken
    simp
  | case3 => cases taken
  | case4 => cases taken
  | case5 c cs line ih =>
    obtain ⟨m, inner, rfl⟩ := Option.map_eq_some_iff.mp taken
    have := ih inner
    simp only [List.length_cons]
    omega
  | case6 c cs quote alone hidden ih =>
    obtain ⟨m, inner, rfl⟩ := Option.map_eq_some_iff.mp taken
    have := ih inner
    simp only [List.length_cons]
    omega

theorem Rule.mark_tail? {kind : Kind} {spelling : List Char} {c : Char} {cs : List Char} {n : Nat}
    (taken : (Rule.mark kind spelling).tail? c cs = some n) :
    spelling <+: c :: cs ∧ spelling.length = n + 1 := by
  cases spelling with
  | nil => cases taken
  | cons m ms =>
    obtain ⟨ahead, same⟩ := Option.ite_none_right_eq_some.mp taken
    cases same
    simp only [Bool.and_eq_true, decide_eq_true_eq, List.isPrefixOf_iff_prefix] at ahead
    exact ⟨List.cons_prefix_cons.mpr ⟨ahead.1.symm, ahead.2⟩, rfl⟩

/-- A rule takes no more than there is. -/
theorem Rule.tail?_le {rule : Rule} {c : Char} {cs : List Char} {n : Nat}
    (taken : rule.tail? c cs = some n) : n ≤ cs.length := by
  cases rule with
  | word =>
    obtain ⟨_, same⟩ := Option.ite_none_right_eq_some.mp taken
    cases same
    exact spanLength_le isWordChar cs
  | number =>
    obtain ⟨_, same⟩ := Option.ite_none_right_eq_some.mp taken
    cases same
    have whole := spanLength_le isDigit cs
    have fraction := fractionLength_le (cs.drop (spanLength isDigit cs))
    rw [List.length_drop] at fraction
    omega
  | blank =>
    obtain ⟨_, same⟩ := Option.ite_none_right_eq_some.mp taken
    cases same
    exact spanLength_le Text.isBlank cs
  | text =>
    obtain ⟨_, inner⟩ := Option.ite_none_right_eq_some.mp taken
    exact StringLiteral.tail?_le inner
  | comment =>
    obtain ⟨rest, _, rfl, rfl⟩ := comment_tail? taken
    have := spanLength_le (· != '\n') rest
    simp only [List.length_cons]
    omega
  | mark kind spelling =>
    obtain ⟨begins, length⟩ := mark_tail? taken
    have := begins.length_le
    simp only [List.length_cons] at this
    omega

/-! ## The order of the rules -/

/-- What can begin with a character: the class of words, numbers, blanks and strings that it
opens, or the marks and comments that have it first. -/
inductive Lead where
  | letter
  | digit
  | blank
  | quote
  | mark (c : Char)
deriving DecidableEq

def lead (c : Char) : Lead :=
  if isLetter c then .letter
  else if isDigit c then .digit
  else if Text.isBlank c then .blank
  else if c = '"' then .quote
  else .mark c

def Rule.lead : Rule → Lead
  | .word => .letter
  | .number => .digit
  | .blank => .blank
  | .text => .quote
  | .comment => .mark '/'
  | .mark _ spelling => .mark (spelling.headD '/')

theorem lead_of_isDigit {c : Char} (digit : isDigit c = true) : lead c = .digit := by
  have letter : isLetter c = false := Bool.eq_false_iff.mpr fun letter => by
    have := range_of_isDigit digit
    have := range_of_isLetter letter
    omega
  simp [lead, letter, digit]

theorem lead_of_isBlank {c : Char} (blank : Text.isBlank c = true) : lead c = .blank := by
  have letter : isLetter c = false := Bool.eq_false_iff.mpr fun letter => by
    simp [isBlank_of_isLetter letter] at blank
  have digit : isDigit c = false := Bool.eq_false_iff.mpr fun digit => by
    have range := range_of_isDigit digit
    simp [isBlank_of_range (c := c) (by omega) (by omega)] at blank
  simp [lead, letter, digit, blank]

/-- The first character tells what can be there. -/
theorem lead_of_tail? {rule : Rule} {c : Char} {cs : List Char} {n : Nat} (listed : rule ∈ rules)
    (taken : rule.tail? c cs = some n) : lead c = rule.lead := by
  cases rule with
  | word =>
    obtain ⟨letter, _⟩ := Option.ite_none_right_eq_some.mp taken
    simp [lead, letter, Rule.lead]
  | number =>
    obtain ⟨digit, _⟩ := Option.ite_none_right_eq_some.mp taken
    exact lead_of_isDigit digit
  | blank =>
    obtain ⟨blank, _⟩ := Option.ite_none_right_eq_some.mp taken
    exact lead_of_isBlank blank
  | text =>
    obtain ⟨rfl, _⟩ := Option.ite_none_right_eq_some.mp taken
    decide
  | comment =>
    obtain ⟨rest, rfl, _⟩ := Rule.comment_tail? taken
    decide
  | mark kind spelling =>
    have each : ∀ entry ∈ marks, lead (entry.2.toList.headD '/') =
        .mark (entry.2.toList.headD '/') := by decide
    obtain ⟨entry, member, _, same⟩ := mem_marks listed
    obtain ⟨⟨rest, begins⟩, length⟩ := Rule.mark_tail? taken
    have first := each entry member
    rw [same] at first
    cases spelling with
    | nil => cases length
    | cons m ms =>
      obtain ⟨rfl, _⟩ := List.cons.inj begins
      exact first

/-- Only marks and comments share what they begin with. -/
theorem Rule.eq_of_lead {a b : Rule} (same : a.lead = b.lead) (plain : ∀ c, b.lead ≠ .mark c) :
    a = b := by
  cases a <;> cases b <;> simp_all [Rule.lead]

/-- Characters that every text of the rule begins with; a mark has no others. -/
def Rule.opening : Rule → List Char
  | .comment => ['/', '/']
  | .mark _ spelling => spelling
  | .word | .number | .blank | .text => []

/-- Whatever a rule takes begins with its opening. -/
theorem Rule.opening_begins {rule : Rule} {c : Char} {cs : List Char} {n : Nat}
    (taken : rule.tail? c cs = some n) :
    rule.opening <+: c :: cs ∧ rule.opening.length ≤ n + 1 := by
  cases rule with
  | comment =>
    obtain ⟨rest, rfl, rfl, rfl⟩ := comment_tail? taken
    exact ⟨⟨rest, rfl⟩, by simp [opening]⟩
  | mark kind spelling =>
    obtain ⟨begins, length⟩ := mark_tail? taken
    exact ⟨begins, Nat.le_of_eq length⟩
  | word => exact ⟨List.nil_prefix, Nat.zero_le _⟩
  | number => exact ⟨List.nil_prefix, Nat.zero_le _⟩
  | blank => exact ⟨List.nil_prefix, Nat.zero_le _⟩
  | text => exact ⟨List.nil_prefix, Nat.zero_le _⟩

/-- Wherever both rules apply, the first takes more. -/
def Rule.Outranks (a b : Rule) : Prop :=
  ∀ c cs m n, a.tail? c cs = some m → b.tail? c cs = some n → n < m

/-- The two rules begin with different characters, or the second is a mark that the first is no
beginning of. -/
def Rule.clears (a b : Rule) : Bool :=
  a.lead != b.lead || match b with
    | .mark _ spelling => !a.opening.isPrefixOf spelling
    | _ => false

/-- Of two beginnings of one text, one is a beginning of the other; so a rule that clears
another takes more. -/
theorem Rule.outranks_of_clears {a b : Rule} (first : a ∈ rules) (second : b ∈ rules)
    (clears : a.clears b = true) : a.Outranks b := by
  intro c cs m n taken taken'
  have same : a.lead = b.lead :=
    (lead_of_tail? first taken).symm.trans (lead_of_tail? second taken')
  cases b with
  | mark kind spelling =>
    have apart : ¬ a.opening <+: spelling := by
      intro begins
      simp [Rule.clears, same, List.isPrefixOf_iff_prefix.mpr begins] at clears
    obtain ⟨begins, length⟩ := opening_begins taken
    obtain ⟨begins', length'⟩ := mark_tail? taken'
    -- of two beginnings of one text one begins with the other
    have shorter : spelling.length < a.opening.length := by
      refine Nat.lt_of_not_le fun le => apart ?_
      exact List.prefix_of_prefix_length_le begins begins' le
    omega
  | _ => simp [Rule.clears, same] at clears

theorem rules_outrank : rules.Pairwise Rule.Outranks := by
  have clears : rules.Pairwise fun a b => a.clears b = true := by decide +kernel
  exact clears.imp_of_mem fun first second => Rule.outranks_of_clears first second

/-- The first rule that applies takes more than any other. -/
theorem firstRule?_most {c : Char} {cs : List Char} {rule rule' : Rule} {n m : Nat}
    (found : firstRule? c cs = some (rule, n)) (listed : rule' ∈ rules)
    (taken : rule'.tail? c cs = some m) : m < n ∨ rule' = rule ∧ m = n := by
  obtain ⟨before, first, after, split, here, none⟩ := List.findSome?_eq_some_iff.mp found
  obtain ⟨n, here, same⟩ := Option.map_eq_some_iff.mp here
  cases same
  have ranked := rules_outrank
  rw [split] at listed ranked
  rcases List.mem_append.mp listed with earlier | rest
  · have nothing := none rule' earlier
    rw [taken] at nothing
    cases nothing
  · rcases List.mem_cons.mp rest with rfl | later
    · exact .inr ⟨rfl, Option.some.inj (taken.symm.trans here)⟩
    · have outranks := (List.pairwise_cons.mp (List.pairwise_append.mp ranked).2.1).1 rule' later
      exact .inl (outranks c cs n m here taken)

/-! ## The longest lexeme -/

/-- The lexeme is the longest of all texts that some rule stands for and that the text ahead
begins with, and this rule stands for it. -/
structure Longest (ahead : List Char) (rule : Rule) (lexeme : List Char) : Prop where
  listed : rule ∈ rules
  matched : rule.Matches lexeme
  begins : lexeme <+: ahead
  longest : ∀ rule' ∈ rules, ∀ lexeme', rule'.Matches lexeme' → lexeme' <+: ahead →
    lexeme'.length ≤ lexeme.length

section

variable {c : Char} {cs : List Char} {rule : Rule} {n : Nat}

/-- The rule found first takes the longest lexeme that any rule could take. -/
theorem Longest.of_firstRule? (found : firstRule? c cs = some (rule, n)) :
    Longest (c :: cs) rule (c :: cs.take n) := by
  obtain ⟨listed, taken⟩ := firstRule?_eq_some found
  refine ⟨listed, Rule.matches_of_tail? taken, ?_, ?_⟩
  · exact List.cons_prefix_cons.mpr ⟨rfl, List.take_prefix n cs⟩
  · rintro rule' listed' lexeme' matched' ⟨rest, ahead⟩
    obtain ⟨m, taken', le⟩ := Rule.le_tail? matched' ahead.symm
    have fits := Rule.tail?_le taken
    have most : m ≤ n := by
      rcases firstRule?_most found listed' taken' with less | ⟨_, same⟩
      · exact Nat.le_of_lt less
      · exact Nat.le_of_eq same
    rw [List.length_cons, List.length_take, Nat.min_eq_left fits]
    omega

/-- There is one such rule at most, and it is the first that applies. -/
theorem Longest.firstRule? {ms rest : List Char}
    (longest : Longest (c :: ms ++ rest) rule (c :: ms)) :
    firstRule? c (ms ++ rest) = some (rule, ms.length) := by
  obtain ⟨m, taken, le⟩ := Rule.le_tail? longest.matched (List.cons_append ..).symm
  cases found : Token.firstRule? c (ms ++ rest) with
  | none =>
    have stuck := not_matches_of_firstRule? found rule longest.listed (c :: ms) rest rfl
    exact absurd longest.matched stuck
  | some first =>
    obtain ⟨rule', n⟩ := first
    have other := Longest.of_firstRule? found
    have fits := Rule.tail?_le (firstRule?_eq_some found).2
    have shorter := longest.longest rule' other.listed _ other.matched other.begins
    rw [List.length_cons, List.length_take, Nat.min_eq_left fits, List.length_cons] at shorter
    rw [List.length_cons] at le
    rcases firstRule?_most found longest.listed taken with less | ⟨rfl, rfl⟩
    · omega
    · rw [Nat.le_antisymm (Nat.le_of_succ_le_succ le) (Nat.le_of_succ_le_succ shorter)]

end

/-- The tokens of the text ahead, or where it cannot be cut, if the longest lexeme is cut off each
time. -/
inductive LongestCut (file : String) : Nat → List Char → Except Diagnostic (List Token) → Prop where
  | done {offset : Nat} : LongestCut file offset [] (.ok [⟨.eof, "EOF", .point (.of file offset)⟩])
  | stuck {offset : Nat} {c : Char} {cs : List Char}
      (none : ∀ rule ∈ rules, ∀ lexeme, rule.Matches lexeme → ¬ lexeme <+: c :: cs) :
      LongestCut file offset (c :: cs)
        (.error (.error (.unrecognisedToken (String.singleton c)) (.point (.of file offset))))
  | lexeme {offset : Nat} {rule : Rule} {lexeme rest : List Char}
      {result : Except Diagnostic (List Token)} (longest : Longest (lexeme ++ rest) rule lexeme)
      (later : LongestCut file (offset + byteLength lexeme) rest result) :
      LongestCut file offset (lexeme ++ rest)
        (result.map (rule.tokens file offset lexeme ++ ·))

/-- The scanner cuts the source at the longest lexemes, all the way to the end or to what no
rule takes. -/
theorem LongestCut.of_scan (file : String) (offset : Nat) (cs : List Char) :
    LongestCut file offset cs (scan file offset cs) := by
  match cs with
  | [] =>
    rw [scan]
    exact .done
  | c :: cs =>
    cases found : firstRule? c cs with
    | none =>
      rw [scan, found]
      refine .stuck ?_
      rintro rule listed lexeme matched ⟨rest, ahead⟩
      exact not_matches_of_firstRule? found rule listed lexeme rest ahead.symm matched
    | some first =>
      obtain ⟨rule, n⟩ := first
      have longest := Longest.of_firstRule? found
      have whole : c :: cs = c :: cs.take n ++ cs.drop n := by
        rw [List.cons_append, List.take_append_drop]
      rw [scan_cons file offset found]
      rw [whole] at longest ⊢
      exact .lexeme longest (of_scan file _ (cs.drop n))
termination_by cs.length
decreasing_by simp only [List.length_drop, List.length_cons]; omega

/-- There is only one way to cut the source at the longest lexemes. -/
theorem LongestCut.scan {file : String} {offset : Nat} {cs : List Char}
    {result : Except Diagnostic (List Token)} (cut : LongestCut file offset cs result) :
    Token.scan file offset cs = result := by
  induction cut with
  | done => rw [Token.scan]
  | @stuck offset c cs none =>
    cases found : firstRule? c cs with
    | none => rw [Token.scan, found]
    | some first =>
      obtain ⟨rule, n⟩ := first
      have longest := Longest.of_firstRule? found
      exact absurd longest.begins (none rule longest.listed _ longest.matched)
  | @lexeme offset rule lexeme rest result longest _ ih =>
    cases lexeme with
    | nil =>
      have nonempty := longest.matched.nonempty
      cases nonempty
    | cons c ms =>
      rw [List.cons_append, scan_cons file offset longest.firstRule?, List.take_left,
        List.drop_left, ih]

/-! ## Lexemes with spaces between them -/

/-- What makes a token is taken as a whole, and nothing more, if a space follows. -/
theorem Rule.tail?_spaced {rule : Rule} {c : Char} {ms rest : List Char}
    (matched : rule.Matches (c :: ms)) (visible : (rule.token? (c :: ms)).isSome = true)
    (spaced : ∀ d ∈ rest.head?, d = ' ') : rule.tail? c (ms ++ rest) = some ms.length := by
  obtain ⟨lexeme, same⟩ : ∃ lexeme, c :: ms = lexeme := ⟨_, rfl⟩
  have digit : ∀ d ∈ rest.head?, isDigit d = false := by
    intro d first
    rw [spaced d first]
    decide
  rw [same] at matched
  cases matched with
  | word first others =>
    cases same
    have stops : ∀ d ∈ rest.head?, isWordChar d = false := by
      intro d first
      rw [spaced d first]
      decide
    simp [tail?, first, spanLength_append others stops]
  | whole digits =>
    cases same
    obtain ⟨first, others⟩ := List.forall_mem_cons.mp digits
    have none : fractionLength rest = 0 := by
      unfold fractionLength
      split
      · cases spaced '.' rfl
      · rfl
    simp [tail?, first, spanLength_append others digit, none]
  | @fraction c c' ds ds' digits digits' =>
    rw [List.cons_append] at same
    obtain ⟨rfl, rfl⟩ := List.cons.inj same
    obtain ⟨first, others⟩ := List.forall_mem_cons.mp digits
    obtain ⟨first', others'⟩ := List.forall_mem_cons.mp digits'
    have point : isDigit '.' = false := by decide
    have whole : spanLength isDigit (ds ++ '.' :: c' :: (ds' ++ rest)) = ds.length :=
      spanLength_append others (by simp [point])
    simp [tail?, first, whole, fractionLength, first', spanLength_append others' digit]
    omega
  | blank => cases visible
  | @text body inside =>
    rw [List.cons_append] at same
    obtain ⟨rfl, rfl⟩ := List.cons.inj same
    rw [List.append_assoc, List.length_append]
    exact StringLiteral.tail?_body inside rest
  | comment => cases visible
  | mark =>
    cases same
    simp [tail?]

/-- What begins a text up to a space and goes beyond has the space in it. -/
theorem prefix_of_spaced {a b rest : List Char} (begins : a <+: b ++ rest)
    (spaced : ∀ d ∈ rest.head?, d = ' ') (spaceless : ' ' ∉ a) : a <+: b := by
  rcases List.prefix_or_prefix_of_prefix begins (List.prefix_append b rest) with
    within | ⟨more, rfl⟩
  · exact within
  · rw [List.prefix_append_right_inj] at begins
    cases more with
    | nil => exact List.prefix_rfl.trans (by simp)
    | cons d more =>
      obtain ⟨after, rfl⟩ := begins
      rw [spaced d rfl] at spaceless
      simp at spaceless

theorem Rule.spaceless {rule : Rule} (listed : rule ∈ rules) : ' ' ∉ rule.opening := by
  cases rule with
  | comment => decide
  | mark kind spelling =>
    have each : ∀ entry ∈ marks, ' ' ∉ entry.2.toList := by decide
    obtain ⟨entry, member, _, rfl⟩ := mem_marks listed
    exact each entry member
  | _ => exact List.not_mem_nil

/-- No other rule applies there: what it takes would have to go beyond the lexeme, and the space
is in its way. -/
theorem firstRule?_spaced {rule : Rule} {c : Char} {ms rest : List Char} (listed : rule ∈ rules)
    (matched : rule.Matches (c :: ms)) (visible : (rule.token? (c :: ms)).isSome = true)
    (spaced : ∀ d ∈ rest.head?, d = ' ') :
    firstRule? c (ms ++ rest) = some (rule, ms.length) := by
  have taken := Rule.tail?_spaced matched visible spaced
  cases found : firstRule? c (ms ++ rest) with
  | none =>
    have stuck := not_matches_of_firstRule? found rule listed (c :: ms) rest rfl
    exact absurd matched stuck
  | some first =>
    obtain ⟨other, n⟩ := first
    obtain ⟨listed', taken'⟩ := firstRule?_eq_some found
    rcases firstRule?_most found listed taken with less | ⟨rfl, rfl⟩
    · have leads : other.lead = rule.lead :=
        (lead_of_tail? listed' taken').symm.trans (lead_of_tail? listed taken)
      have apart : other ≠ rule := by
        rintro rfl
        exact Nat.ne_of_lt less (Option.some.inj (taken.symm.trans taken'))
      have opens : other.opening <+: c :: ms :=
        prefix_of_spaced (Rule.opening_begins taken').1 spaced (Rule.spaceless listed')
      cases rule with
      | mark kind spelling =>
        have uncommented : ∀ entry ∈ marks, ¬ ['/', '/'] <+: entry.2.toList := by decide
        obtain ⟨entry, member, _, spelled⟩ := mem_marks listed
        cases matched
        cases other with
        | comment => exact absurd (spelled ▸ opens) (uncommented entry member)
        | mark kind' spelling' =>
          have length := (Rule.mark_tail? taken').2
          have le : spelling'.length ≤ (c :: ms).length := opens.length_le
          rw [List.length_cons] at le
          omega
        | _ => cases leads
      | blank => cases visible
      | comment => cases visible
      | word => exact absurd (Rule.eq_of_lead leads (by simp [Rule.lead])) apart
      | number => exact absurd (Rule.eq_of_lead leads (by simp [Rule.lead])) apart
      | text => exact absurd (Rule.eq_of_lead leads (by simp [Rule.lead])) apart
    · rfl

/-- A lexeme with a space behind it is scanned as itself, and the rest is scanned on its own. -/
theorem Scans.spaced {rule : Rule} {lexeme rest : List Char} {ls : List Lexeme}
    {kind : Kind} {text : String} (listed : rule ∈ rules) (matched : rule.Matches lexeme)
    (made : rule.token? lexeme = some (kind, text)) (spaced : ∀ d ∈ rest.head?, d = ' ')
    (later : Scans rest ls) : Scans (lexeme ++ rest) (⟨kind, text⟩ :: ls) := by
  cases lexeme with
  | nil =>
    have nonempty := matched.nonempty
    cases nonempty
  | cons c ms =>
    have found := firstRule?_spaced listed matched (by rw [made]; rfl) spaced
    have scans := Scans.step found (by rwa [List.drop_left])
    rw [List.take_left, Rule.lexemes, made] at scans
    exact scans

/-- What makes a token does not begin with a blank. -/
theorem Rule.Matches.not_blank {rule : Rule} {lexeme : List Char} (listed : rule ∈ rules)
    (matched : rule.Matches lexeme) (visible : (rule.token? lexeme).isSome = true) :
    ∀ d ∈ lexeme.head?, Text.isBlank d = false := by
  intro d first
  cases lexeme with
  | nil => cases first
  | cons c ms =>
    obtain rfl := Option.some.inj first
    obtain ⟨n, taken, _⟩ := Rule.le_tail? matched (List.append_nil (c :: ms)).symm
    refine Bool.eq_false_iff.mpr fun blank => ?_
    have leads := (lead_of_tail? listed taken).symm.trans (lead_of_isBlank blank)
    obtain rfl : rule = .blank := Rule.eq_of_lead leads (by simp [Rule.lead])
    cases visible

end ShapeLang.Token

namespace ShapeLang

def dropBytes : Nat → List Char → List Char
  | 0, cs => cs
  | _ + 1, [] => []
  | n + 1, c :: cs => dropBytes (n + 1 - c.utf8Size) cs

def takeBytes : Nat → List Char → List Char
  | 0, _ => []
  | _ + 1, [] => []
  | n + 1, c :: cs => c :: takeBytes (n + 1 - c.utf8Size) cs

theorem dropBytes_append (a b : List Char) : dropBytes (byteLength a) (a ++ b) = b := by
  induction a with
  | nil => rw [byteLength, List.nil_append, dropBytes]
  | cons c a ih =>
    obtain ⟨n, size⟩ := Nat.exists_eq_add_of_lt (Nat.add_pos_left c.utf8Size_pos (byteLength a))
    have left : n + 1 - c.utf8Size = byteLength a := by omega
    rw [byteLength, size, Nat.zero_add, List.cons_append, dropBytes, left, ih]

theorem takeBytes_append (a b : List Char) : takeBytes (byteLength a) (a ++ b) = a := by
  induction a with
  | nil => rw [byteLength, List.nil_append, takeBytes]
  | cons c a ih =>
    obtain ⟨n, size⟩ := Nat.exists_eq_add_of_lt (Nat.add_pos_left c.utf8Size_pos (byteLength a))
    have left : n + 1 - c.utf8Size = byteLength a := by omega
    rw [byteLength, size, Nat.zero_add, List.cons_append, takeBytes, left, ih]

def Span.cut (span : Span) (source : List Char) : List Char :=
  takeBytes (span.last - span.first) (dropBytes span.first source)

theorem Slice.cut {source text : List Char} {span : Span}
    (slice : Slice source span.first span.last text) : span.cut source = text := by
  obtain ⟨before, after, whole, start, stop⟩ := slice
  rw [byteLength_append] at stop
  have length : span.last - span.first = byteLength text := by omega
  rw [Span.cut, length, ← start, whole, List.append_assoc, dropBytes_append, takeBytes_append]

namespace Token

/-- The source has a lexeme at the place of the token, and the token is what its rule makes
of it. -/
def Written (source : List Char) (t : Token) : Prop :=
  ∃ rule ∈ rules, rule.Matches (t.span.cut source) ∧
    rule.token? (t.span.cut source) = some (t.kind, t.text)

/-- What a token says is what stands in the source at its place, as long as the offsets can be
counted. -/
theorem Scanned.written {file : String} {source before text rest : List Char} {offset : Nat}
    {tokens : List Token} (short : byteLength source < UInt32.size)
    (scanned : Scanned file rest offset text tokens)
    (whole : source = before ++ text ++ rest) (place : byteLength before = offset) :
    ∀ t ∈ tokens, t.Written source := by
  induction scanned generalizing before with
  | done => simp
  | @lexeme offset rule lexeme text tokens listed matched _ _ ih =>
    have whole' : source = before ++ lexeme ++ text ++ rest := by simpa using whole
    have place' : byteLength (before ++ lexeme) = offset + byteLength lexeme := by
      rw [byteLength_append, place]
    refine List.forall_mem_append.mpr ⟨?_, ih whole' place'⟩
    rw [Rule.tokens]
    cases made : rule.token? lexeme with
    | none => simp
    | some token =>
      obtain ⟨kind, value⟩ := token
      refine List.forall_mem_singleton.mpr ?_
      have reaches : offset + byteLength lexeme < UInt32.size := by
        rw [whole'] at short
        simp only [byteLength_append] at short place'
        omega
      have slice : Slice source (Position.of file offset).offset.toNat
          (Position.of file (offset + byteLength lexeme)).offset.toNat lexeme := by
        rw [Position.offset_of reaches, Position.offset_of (by omega)]
        exact ⟨before, text ++ rest, by simpa using whole', place, place'⟩
      have cut : (⟨.of file offset, .of file (offset + byteLength lexeme)⟩ : Span).cut source =
          lexeme := slice.cut
      exact ⟨rule, listed, by rwa [cut], by rwa [cut]⟩


/-- What the source has at the tokens, with a space between any two. -/
def respaced (source : String) (tokens : List Token) : String :=
  " ".intercalate (tokens.map fun t => String.ofList (t.span.cut source.toList))

theorem Scans.respaced {source : String} {tokens : List Token}
    (written : ∀ t ∈ tokens, t.Written source.toList) :
    Scans (respaced source tokens).toList (tokens.map lexeme) := by
  induction tokens with
  | nil => simpa [Token.respaced] using Scans.nil
  | cons t tokens ih =>
    obtain ⟨⟨rule, listed, matched, made⟩, others⟩ := List.forall_mem_cons.mp written
    cases tokens with
    | nil =>
      have scans := Scans.spaced listed matched made (by simp) Scans.nil
      simpa [Token.respaced, lexeme] using scans
    | cons u tokens =>
      obtain ⟨⟨rule', listed', matched', made'⟩, _⟩ := List.forall_mem_cons.mp others
      have nonempty : u.span.cut source.toList ≠ [] := by
        intro empty
        have size := matched'.nonempty
        rw [empty] at size
        cases size
      obtain ⟨more, begins⟩ : ∃ more, (Token.respaced source (u :: tokens)).toList =
          u.span.cut source.toList ++ more := by
        cases tokens with
        | nil => exact ⟨[], by simp [Token.respaced]⟩
        | cons v tokens => simp [Token.respaced, String.toList_intercalate]
      have opens : ∀ d ∈ (Token.respaced source (u :: tokens)).toList.head?,
          Text.isBlank d = false := by
        intro d first
        refine matched'.not_blank listed' (by rw [made']; rfl) d ?_
        obtain ⟨c, ms, cut⟩ := List.exists_cons_of_ne_nil nonempty
        rw [begins, cut] at first
        rw [cut]
        exact first
      have scans := Scans.spaced listed matched made (by simp) (Scans.space opens (ih others))
      simpa [Token.respaced, lexeme, String.toList_intercalate] using scans

/-- Cutting off what the first rule takes is cutting off the longest lexeme, for every source. And
the lexemes of a source that is not too long, with a space between any two, are cut into the same
tokens again. -/
theorem tokenize_longest (source file : String) :
    (∀ result, tokenize source file = result ↔ LongestCut file 0 source.toList result) ∧
    (source.utf8ByteSize < UInt32.size → ∀ tokens, tokenize source file = .ok tokens →
      ∀ file', ∃ again,
        tokenize (respaced source (tokens.filter (·.kind != .eof))) file' = .ok again ∧
          again.map lexeme = tokens.map lexeme) := by
  refine ⟨fun result => ⟨?_, LongestCut.scan⟩, ?_⟩
  · rintro rfl
    exact .of_scan file 0 source.toList
  · intro short all scanned file'
    have outcome := scan_outcome file 0 source.toList
    rw [← tokenize, scanned] at outcome
    cases outcome with
    | @finished tokens cut =>
      have whole : source.toList = [] ++ source.toList ++ [] := (List.append_nil _).symm
      have written := cut.written (byteLength_toList source ▸ short) whole rfl
      have body : tokens.filter (·.kind != .eof) = tokens :=
        List.filter_eq_self.mpr fun t among => by simpa using cut.kinds t among
      rw [List.filter_append, body, List.filter_cons_of_neg (by simp), List.filter_nil,
        List.append_nil, List.map_append]
      exact Scans.respaced written file' 0

theorem tokenize_longest_closeMarks :
    LongestCut "main.sp" 0 "a<=b=>c".toList (tokenize "a<=b=>c" "main.sp") ∧
    ∃ tokens again, tokenize "a<=b=>c" "main.sp" = .ok tokens ∧
      respaced "a<=b=>c" (tokens.filter (·.kind != .eof)) = "a <= b => c" ∧
      tokenize "a <= b => c" "again.sp" = .ok again ∧ again.map lexeme = tokens.map lexeme := by
  obtain ⟨longest, again⟩ := tokenize_longest "a<=b=>c" "main.sp"
  refine ⟨(longest _).mp rfl, ?_⟩
  have computed : ((tokenize "a<=b=>c" "main.sp").toOption.map fun tokens =>
      respaced "a<=b=>c" (tokens.filter (·.kind != .eof))) = some "a <= b => c" := by
    decide +kernel
  cases scanned : tokenize "a<=b=>c" "main.sp" with
  | error d =>
    rw [scanned] at computed
    cases computed
  | ok tokens =>
    rw [scanned] at computed
    have same : respaced "a<=b=>c" (tokens.filter (·.kind != .eof)) = "a <= b => c" :=
      Option.some.inj computed
    obtain ⟨others, scanned', lexemes⟩ := again (by decide) tokens scanned "again.sp"
    rw [same] at scanned'
    exact ⟨tokens, others, rfl, same, scanned', lexemes⟩

/-- What a source that is too long has at the place of its only token may be a blank. -/
theorem respaced_wraps : ∃ tokens again,
    tokenize (farName UInt32.size) "main.sp" = .ok tokens ∧
      tokenize (respaced (farName UInt32.size) (tokens.filter (·.kind != .eof))) "main.sp" =
        .ok again ∧
      again.map lexeme ≠ tokens.map lexeme := by
  have blank (n : Nat) : (⟨⟨0, "main.sp"⟩, ⟨1, "main.sp"⟩⟩ : Span).cut (farName (n + 1)).toList =
      [' '] := by
    rw [farName, String.toList_ofList]
    show takeBytes 1 (dropBytes 0 (' ' :: (List.replicate n ' ' ++ ['a']))) = [' ']
    rw [dropBytes, takeBytes]
    exact congrArg (' ' :: ·) (takeBytes.eq_1 _)
  have spaced : respaced (farName UInt32.size)
      [⟨.identifier, "a", ⟨⟨0, "main.sp"⟩, ⟨1, "main.sp"⟩⟩⟩] = " " := by
    rw [respaced, List.map_singleton, blank 4294967295]
    rfl
  have ended : tokenize " " "main.sp" = .ok [⟨.eof, "EOF", .point (.of "main.sp" 1)⟩] := by
    refine (scan_blanks "main.sp" 0 1 (by simp)).trans ?_
    rw [scan]
  exact ⟨_, _, tokenize_farName _ _, (congrArg (tokenize · "main.sp") spaced).trans ended,
    by decide⟩

end Token

end ShapeLang
