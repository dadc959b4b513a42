import ShapeLang.Proofs.ReadBack
import ShapeLang.Proofs.Reading
import ShapeLang.Proofs.Recheck

/-!
# Reading programs back

A program is read back from the lexemes it is written with. As for annotations, each rule
of the syntax becomes a lemma about lexemes that are read as the parts of a tree; the
induction over the tree then only puts the rules together.
-/

namespace ShapeLang

open Lexeme

open Reads (Finds)

/-! ## Literals -/

namespace Numeral

theorem digitValue?_of_isDigit {c : Char} (digit : c.isDigit = true) :
    digitValue? c = some (c.toNat - '0'.toNat) := by
  rw [Char.isDigit, Bool.and_eq_true, decide_eq_true_eq, decide_eq_true_eq] at digit
  exact if_pos digit

theorem natural?_of_digits {digits : List Char} (all : ∀ c ∈ digits, c.isDigit = true) :
    natural? digits = some (Nat.ofDigitChars 10 digits 0) := by
  have from_ : ∀ n, digits.foldlM (fun n c => (digitValue? c).map (10 * n + ·)) n =
      some (Nat.ofDigitChars 10 digits n) := by
    induction digits with
    | nil => exact fun n => rfl
    | cons c digits ih =>
      obtain ⟨first, rest⟩ := List.forall_mem_cons.mp all
      intro n
      rw [List.foldlM_cons, digitValue?_of_isDigit first, Nat.ofDigitChars_cons]
      exact ih rest _
  exact from_ 0

theorem splitSign_of_digits {digits : List Char} (all : ∀ c ∈ digits, c.isDigit = true) :
    splitSign digits = (false, digits) := by
  unfold splitSign
  split
  · exact absurd (all '+' (by simp)) (by decide)
  · exact absurd (all '-' (by simp)) (by decide)
  · rfl

/-- A number that fits is read back from its digits. -/
theorem integer?_toDigits {n : Nat} (small : n < limit) :
    integer? (Nat.toDigits 10 n) = some (n : Int) := by
  have all : ∀ c ∈ Nat.toDigits 10 n, c.isDigit = true :=
    fun c among => Nat.isDigit_of_mem_toDigits (by decide) (by decide) among
  have some_ : (Nat.toDigits 10 n).isEmpty = false := by simp
  have fits : (if n < limit then some (n : Int) else none) = some (n : Int) := if_pos small
  rw [integer?, splitSign_of_digits all]
  dsimp only
  rw [some_, natural?_of_digits all, Nat.ofDigitChars_ten_toDigits]
  exact fits

end Numeral

theorem Literal.ofToken?_lexeme {value : Literal} (fine : value.wellFormed = true) {t : Token}
    (kind : t.kind = value.lexeme.kind) (text : t.text = value.lexeme.text) :
    Literal.ofToken? t = .ok (some value) := by
  rw [Literal.ofToken?, kind, text]
  cases value with
  | int value =>
    obtain ⟨nonnegative, small⟩ := of_decide_eq_true fine
    obtain ⟨n, rfl⟩ := Int.eq_ofNat_of_zero_le nonnegative
    have digits : (toString (n : Int)).toList = Nat.toDigits 10 n := by
      rw [show toString (n : Int) = toString n from rfl, Nat.toString_eq_ofList_toDigits,
        String.toList_ofList]
    have noPoint : (Nat.toDigits 10 n).contains '.' = false := by
      rw [List.contains_eq_mem, decide_eq_false_iff_not]
      intro among
      exact absurd (Nat.isDigit_of_mem_toDigits (by decide) (by decide) among) (by decide)
    simp only [Literal.lexeme, digits, noPoint, Numeral.integer?_toDigits (Int.ofNat_lt.mp small)]
    rfl
  | double value => cases fine
  | string value => rfl
  | bool value => cases value <;> rfl
  | noneValue => rfl

/-! ## Expressions -/

/-- An operator that stands between two operands has a power, and begins no suffix. -/
theorem Token.Kind.power?_of_binary {kind : Token.Kind}
    (binary : kind.isOperator = true ∨ kind.isCompoundAssignment = true) :
    ∃ tightness, kind.power? = some tightness ∧ kind ≠ .cast ∧ kind ≠ .openParen ∧
      kind ≠ .openBracket ∧ kind ≠ .dot := by
  revert binary
  cases kind <;> simp [isOperator, isCompoundAssignment, power?]

theorem Token.Kind.not_compound {kind : Token.Kind} (operator : kind.isOperator = true) :
    kind.isCompoundAssignment = false := by
  revert operator
  cases kind <;> simp [isOperator, isCompoundAssignment]

@[simp] theorem Note.unplaced_bare (note : Note) : note.bare.unplaced = ⟨.null, none, none⟩ := rfl

@[simp] theorem Note.unplaced_fresh (span : Span) :
    (⟨span, none, none⟩ : Note).unplaced = ⟨.null, none, none⟩ := rfl

namespace Expr

/-- The lexemes do not go on with an expression before them, nor with an annotation at its
end. -/
structure Ends (more : List Lexeme) : Prop where
  operator : (leading more).power? = none
  suffix : (leading more).suffixPower? = none
  result : leading more ≠ .arrow

/-- Reading operators that bind tighter than the power stops before the lexemes. -/
def Stops (power : Power) (more : List Lexeme) : Prop :=
  ∀ tightness, (leading more).power? = some tightness → tightness.rank ≤ power.rank

/-- The lexemes are read as the expression wherever nothing after them goes on with it. -/
structure ReadsAs (ls : List Lexeme) (e : Expr) : Prop where
  starts : (leading ls).startsOperand = true
  /-- A name that starts an expression is all of it. -/
  alone : leading ls = .identifier → ls.length = 1
  reads : ∀ {c : Cursor} {more : List Lexeme}, c.ahead = ls ++ more → Ends more →
    Finds (read .default c) (·.unplaced = e.bare.unplaced) more

variable {ls mid more : List Lexeme} {e left : Expr} {es : List Expr} {c : Cursor}
  {power : Power} {good fine : Expr → Prop} {f : Expr → List Lexeme} {note : Note}

theorem ReadsAs.leading_append (is : ReadsAs ls e) (more : List Lexeme) :
    leading (ls ++ more) = leading ls :=
  leading_append_of is.starts rfl more

theorem ReadsAs.leading_ne (is : ReadsAs ls e) {kind : Token.Kind}
    (other : kind.startsOperand = false) (more : List Lexeme) : leading (ls ++ more) ≠ kind :=
  leading_ne_of is.starts rfl other more

theorem Ends.of_mark {kind : Token.Kind} (operator : kind.power? = none)
    (suffix : kind.suffixPower? = none) (result : kind ≠ .arrow) : Ends (mark kind :: more) :=
  ⟨operator, suffix, result⟩

theorem Ends.stops (ends : Ends more) : Stops power more := by
  simp [Stops, ends.operator]

theorem readOperators_finds (is : good left) (stops : Stops power c.ahead) :
    Finds (readOperators power left c) good c.ahead := by
  rw [readOperators, c.kind_eq_leading]
  cases next : (leading c.ahead).power? with
  | none => exact .pure is rfl
  | some tightness =>
    dsimp only
    rw [if_pos (stops tightness next)]
    exact .pure is rfl

theorem readOperators_step {tightness : Power}
    (next : (leading c.ahead).power? = some tightness) (tighter : power.rank < tightness.rank)
    (step : Finds (readOperator tightness left c) good more) (stops : Stops power more) :
    Finds (readOperators power left c) good more := by
  rw [readOperators, c.kind_eq_leading, next]
  dsimp only
  rw [if_neg (Nat.not_le.mpr tighter)]
  refine step.bind ?_
  rintro longer d _ is rfl
  refine (readOperators_finds is stops).bind ?_
  intro whole e _ is ahead
  exact .pure is ahead

theorem read_operated (operand : Finds (readOperand c) good mid)
    (rest : ∀ {left : Expr} {d : Cursor}, good left → d.ahead = mid →
      Finds (readOperators power left d) fine more) :
    Finds (read power c) fine more := by
  rw [read]
  refine operand.bind ?_
  intro left d _ is ahead
  refine (rest is ahead).bind ?_
  intro whole e _ is ahead
  exact .pure is ahead

theorem read_finds (operand : Finds (readOperand c) good more) (stops : Stops power more) :
    Finds (read power c) good more :=
  read_operated operand fun is ahead => ahead ▸ readOperators_finds is (ahead ▸ stops)

section

variable {close : Token.Kind} (closes : close = .closeParen ∨ close = .closeBracket)
include closes

theorem Ends.of_close : Ends (mark close :: more) := by
  rcases closes with rfl | rfl <;> exact .of_mark rfl rfl (by decide)

theorem ReadsAs.take?_close (is : ReadsAs ls e) (ahead : c.ahead = ls ++ more) :
    c.take? close = none := by
  refine Cursor.take?_eq_none (ahead ▸ is.leading_ne ?_ more)
  rcases closes with rfl | rfl <;> rfl

theorem readItems_finds : ∀ {afterComma : Bool} {c : Cursor}, es ≠ [] →
    (∀ e ∈ es, ReadsAs (f e) e) →
    c.ahead = separated .comma (es.map f) ++ mark close :: more →
    Finds (readItems close afterComma c)
      (fun found => found.1.map unplaced = (es.map bare).map unplaced ∧ found.2 = false) more := by
  induction es with
  | nil => exact fun some_ => absurd rfl some_
  | cons e es ih =>
    intro afterComma c _ each ahead
    obtain ⟨behind, split, follows⟩ := separated_cons .comma f e es (mark close :: more)
    rw [split] at ahead
    have first := each e (by simp)
    have ends : Ends behind := by
      rcases follows with ⟨_, rfl⟩ | ⟨_, rfl⟩
      · exact .of_close closes
      · exact .of_mark rfl rfl (by decide)
    rw [readItems, first.take?_close closes ahead]
    refine (first.reads ahead ends).bind ?_
    intro value d _ same rest
    dsimp only
    rcases follows with ⟨rfl, rfl⟩ | ⟨some_, rfl⟩
    · have other : close ≠ .comma := by rcases closes with rfl | rfl <;> decide
      rw [Cursor.take?_eq_none (by rw [rest]; exact other)]
      refine (Cursor.take_finds rest).bind ?_
      intro _ g _ _ rest
      exact .pure ⟨by simpa using same, rfl⟩ rest
    · obtain ⟨_, g, _, taken, rest⟩ := Cursor.take?_mark rest
      rw [taken]
      refine (ih some_ (fun b among => each b (List.mem_cons_of_mem e among)) rest).bind ?_
      rintro ⟨others, trailing⟩ h _ ⟨sameOthers, no⟩ rest
      exact .pure ⟨by simpa [same] using sameOthers, no⟩ rest

/-- Expressions with commas between them are read as a list. -/
theorem readItems_separated (each : ∀ e ∈ es, ReadsAs (f e) e)
    (ahead : c.ahead = separated .comma (es.map f) ++ mark close :: more) :
    Finds (readItems close false c)
      (fun found => found.1.map unplaced = (es.map bare).map unplaced ∧ found.2 = false) more := by
  cases es with
  | nil =>
    obtain ⟨_, d, _, taken, rest⟩ := Cursor.take?_mark ahead
    rw [readItems, taken]
    exact .pure ⟨rfl, rfl⟩ rest
  | cons e es => exact readItems_finds closes (by simp) each ahead

end

theorem readItems_trailing (first : ReadsAs ls e)
    (ahead : c.ahead = ls ++ mark .comma :: mark .closeParen :: more) :
    Finds (readItems .closeParen false c)
      (fun found => found.1.map unplaced = [e.bare.unplaced] ∧ found.2 = true) more := by
  rw [readItems, first.take?_close (.inl rfl) ahead]
  refine (first.reads ahead (.of_mark rfl rfl (by decide))).bind ?_
  intro value d _ same rest
  obtain ⟨_, g, _, taken, rest⟩ := Cursor.take?_mark rest
  dsimp only
  rw [taken]
  dsimp only
  obtain ⟨_, h, _, closed, rest⟩ := Cursor.take?_mark rest
  rw [readItems, closed]
  exact .pure ⟨by simpa using same, rfl⟩ rest

/-- What is written as a tuple is read as one, with a comma if it has one item. -/
theorem readItems_tupled (each : ∀ e ∈ es, ReadsAs (f e) e)
    (is : mark .openParen :: c.ahead = tupled (es.map f) ++ more) :
    Finds (readItems .closeParen false c)
      (fun found => found.1.map unplaced = (es.map bare).map unplaced ∧
        (es.length = 1 → found.2 = true)) more := by
  rcases es with _ | ⟨e, _ | ⟨b, es⟩⟩
  · refine (readItems_separated (.inl rfl) each (List.cons.inj is).2).imp ?_
    exact fun found is => ⟨is.1, by simp⟩
  · have ahead : c.ahead = f e ++ mark .comma :: mark .closeParen :: more := by
      simpa [tupled, parens] using is
    refine (readItems_trailing (each e (by simp)) ahead).imp ?_
    exact fun found is => ⟨is.1, fun _ => is.2⟩
  · have ahead : c.ahead =
        separated .comma ((e :: b :: es).map f) ++ mark .closeParen :: more := by
      simpa [tupled, parens] using is
    refine (readItems_separated (.inl rfl) each ahead).imp ?_
    exact fun found is => ⟨is.1, by simp⟩

/-- Parentheses around an expression only group it. -/
theorem readOperand_parens (is : ReadsAs ls e) (ahead : c.ahead = parens ls ++ more) :
    Finds (readOperand c) (·.unplaced = e.bare.unplaced) more := by
  obtain ⟨t, d, _, next, kind, _, rest⟩ := Cursor.next?_of_ahead ahead
  rw [readOperand, next]
  dsimp only
  rw [kind]
  have items : Finds (readItems .closeParen false d)
      (fun found => found.1.map unplaced = ([e].map bare).map unplaced ∧ found.2 = false) more :=
    readItems_separated (.inl rfl) (f := fun _ => ls) (by simpa using is)
      (by simpa [separated] using rest)
  refine items.bind ?_
  rintro ⟨items, trailing⟩ g _ ⟨same, rfl⟩ rest
  obtain ⟨inner, rfl⟩ := List.length_eq_one_iff.mp (by simpa using congrArg List.length same)
  exact .pure (by simpa using same) rest

theorem read_parens (is : ReadsAs ls e) (ahead : c.ahead = parens ls ++ more)
    (stops : Stops power more) : Finds (read power c) (·.unplaced = e.bare.unplaced) more :=
  read_finds (readOperand_parens is ahead) stops

theorem isSymbol_of_unplaced (same : left.unplaced = e.bare.unplaced) :
    left.isSymbol = e.isSymbol := by
  rw [← left.isSymbol_unplaced, same, isSymbol_unplaced]
  cases e <;> rfl

namespace ReadsAs

theorem of_operand (starts : (leading ls).startsOperand = true)
    (alone : leading ls = .identifier → ls.length = 1)
    (operand : ∀ {c : Cursor} {more : List Lexeme}, c.ahead = ls ++ more → Ends more →
      Finds (readOperand c) (·.unplaced = e.bare.unplaced) more) : ReadsAs ls e :=
  ⟨starts, alone, fun ahead ends => read_finds (operand ahead ends) ends.stops⟩

theorem parens (is : ReadsAs ls e) : ReadsAs (parens ls) e :=
  .of_operand rfl (by simp [Lexeme.parens]) fun ahead _ => readOperand_parens is ahead

theorem whole (style : Style) (is : ReadsAs ls e) : ReadsAs (style.whole ls) e := by
  unfold Style.whole
  split
  · exact is.parens
  · exact is

theorem literal {value : Literal} (fine : value.wellFormed = true) :
    ReadsAs [value.lexeme] (.literal value note) := by
  have kinds : value.lexeme.kind = .number ∨ value.lexeme.kind = .string ∨
      value.lexeme.kind = .trueWord ∨ value.lexeme.kind = .falseWord ∨
      value.lexeme.kind = .noneWord := by
    rcases value with _ | _ | _ | (_ | _) | _ <;> simp [Literal.lexeme]
  refine .of_operand ?_ (fun _ => rfl) fun {c more} ahead _ => ?_
  · rcases kinds with is | is | is | is | is <;> simp [is, Token.Kind.startsOperand]
  obtain ⟨t, d, _, next, kind, text, rest⟩ := Cursor.next?_of_ahead ahead
  have read := Literal.ofToken?_lexeme fine kind text
  rw [readOperand, next]
  dsimp only
  rcases kinds with is | is | is | is | is
  all_goals
    rw [kind, is]
    dsimp only
    rw [read]
    exact .pure (by simp [unplaced, bare]) rest

theorem symbol (name : String) : ReadsAs [.name name] (.symbol name note) := by
  refine .of_operand rfl (fun _ => rfl) fun {c more} ahead _ => ?_
  obtain ⟨t, d, _, next, kind, text, rest⟩ := Cursor.next?_of_ahead ahead
  rw [readOperand, next]
  dsimp only
  rw [kind]
  exact .pure (by rw [text]; simp [unplaced, bare, Lexeme.name]) rest

theorem tuple (each : ∀ e ∈ es, ReadsAs (f e) e) :
    ReadsAs (tupled (es.map f)) (.tuple es note) := by
  obtain ⟨body, opens⟩ := tupled_opens (es.map f)
  refine .of_operand (by rw [opens]; rfl) (by simp [opens]) fun {c more} ahead _ => ?_
  obtain ⟨t, d, _, next, kind, _, rest⟩ := Cursor.next?_of_ahead (opens ▸ ahead)
  rw [readOperand, next]
  dsimp only
  rw [kind]
  have inside : mark .openParen :: d.ahead = tupled (es.map f) ++ more := by
    rw [opens, rest]
    rfl
  refine (readItems_tupled each inside).bind ?_
  rintro ⟨items, trailing⟩ g _ ⟨same, one⟩ rest
  -- Only one item without a comma behind it is taken for a grouping.
  have length : items.length = es.length := by simpa using congrArg List.length same
  have is : ∀ span, (Expr.tuple items ⟨span, none, none⟩).unplaced =
      (Expr.tuple es note).bare.unplaced := by
    intro span
    rw [unplaced, bare, unplaced, unplacedAll_eq, unplacedAll_eq, bareAll_eq, same]
    rfl
  rcases items with _ | ⟨x, _ | ⟨y, items⟩⟩
  · exact .pure (is _) rest
  · rw [show trailing = true from one length.symm]
    exact .pure (is _) rest
  · exact .pure (is _) rest

theorem array (each : ∀ e ∈ es, ReadsAs (f e) e) :
    ReadsAs (brackets (separated .comma (es.map f))) (.array es note) := by
  refine .of_operand rfl (by simp [brackets]) fun {c more} ahead _ => ?_
  obtain ⟨t, d, _, next, kind, _, rest⟩ := Cursor.next?_of_ahead ahead
  rw [readOperand, next]
  dsimp only
  rw [kind]
  refine (readItems_separated (.inr rfl) each (by simpa using rest)).bind ?_
  rintro ⟨items, trailing⟩ g _ ⟨same, _⟩ rest
  exact .pure (by simp only [unplaced, bare, unplacedAll_eq, bareAll_eq, same]; rfl) rest

theorem spread (is : ReadsAs ls e) :
    ReadsAs (mark .ellipsis :: Lexeme.parens ls) (.spread e note) := by
  refine .of_operand rfl (by simp) fun {c more} ahead ends => ?_
  obtain ⟨t, d, _, next, kind, _, rest⟩ := Cursor.next?_of_ahead ahead
  rw [readOperand, next]
  dsimp only
  rw [kind]
  refine (read_parens is rest ends.stops).bind ?_
  intro value g _ same rest
  exact .pure (by simp [unplaced, bare, same]) rest

theorem construct (name : String) (each : ∀ e ∈ es, ReadsAs (f e) e) :
    ReadsAs (mark .newWord :: .name name :: Lexeme.parens (separated .comma (es.map f)))
      (.construct name es note) := by
  refine .of_operand rfl (by simp) fun {c more} ahead ends => ?_
  obtain ⟨t, d, _, next, kind, _, rest⟩ := Cursor.next?_of_ahead ahead
  rw [readOperand, next]
  dsimp only
  rw [kind]
  refine (Cursor.takeName_finds _ rest).bind ?_
  intro found g _ text rest
  refine (Cursor.take_finds rest).bind ?_
  intro _ h _ _ rest
  refine (readItems_separated (.inl rfl) each (by simpa using rest)).bind ?_
  rintro ⟨items, trailing⟩ i _ ⟨same, _⟩ rest
  exact .pure (by simp only [unplaced, bare, unplacedAll_eq, bareAll_eq, same, text]; rfl) rest

/-- One operator after an expression in parentheses. -/
theorem operated {suffix : List Lexeme} {b : Expr} (is : ReadsAs ls e) (tightness : Power)
    (next : (leading suffix).power? = some tightness)
    (step : ∀ {left : Expr} {d : Cursor} {more : List Lexeme},
      left.unplaced = e.bare.unplaced → d.ahead = suffix ++ more → Ends more →
      Finds (readOperator tightness left d) (·.unplaced = b.bare.unplaced) more) :
    ReadsAs (Lexeme.parens ls ++ suffix) b := by
  have some_ : leading suffix ≠ .eof := fun eof => by simp [eof, Token.Kind.power?] at next
  have looser : Power.default.rank < tightness.rank := by
    revert next
    cases leading suffix <;> simp [Token.Kind.power?] <;> rintro rfl <;> decide
  refine ⟨rfl, by simp [Lexeme.parens], fun {c more} ahead ends => ?_⟩
  rw [List.append_assoc] at ahead
  refine read_operated (readOperand_parens is ahead) fun {left d} same rest => ?_
  refine readOperators_step ?_ looser (step same rest ends) ends.stops
  rw [rest, Lexeme.leading_append some_, next]

theorem member (name : String) (is : ReadsAs ls e) :
    ReadsAs (Lexeme.parens ls ++ [mark .dot, .name name]) (.member e name note) := by
  refine is.operated .member rfl fun {left d more} same ahead _ => ?_
  obtain ⟨t, g, _, next, kind, _, rest⟩ := Cursor.next?_of_ahead ahead
  rw [readOperator, next]
  dsimp only
  rw [kind]
  refine (Cursor.takeName_finds _ rest).bind ?_
  intro found h _ text rest
  exact .pure (by simp [unplaced, bare, same, text]) rest

theorem call (is : ReadsAs ls e) (each : ∀ e ∈ es, ReadsAs (f e) e) :
    ReadsAs (Lexeme.parens ls ++ Lexeme.parens (separated .comma (es.map f)))
      (.call e es note) := by
  refine is.operated .call rfl fun {left d more} same ahead _ => ?_
  obtain ⟨t, g, _, next, kind, _, rest⟩ := Cursor.next?_of_ahead ahead
  rw [readOperator, next]
  dsimp only
  rw [kind]
  refine (readItems_separated (.inl rfl) each (by simpa using rest)).bind ?_
  rintro ⟨items, trailing⟩ h _ ⟨sameItems, _⟩ rest
  exact .pure (by simp only [unplaced, bare, unplacedAll_eq, bareAll_eq, same, sameItems]; rfl) rest

theorem index {position : Expr} {ls' : List Lexeme} (is : ReadsAs ls e)
    (position_ : ReadsAs ls' position) :
    ReadsAs (Lexeme.parens ls ++ brackets (Lexeme.parens ls')) (.index e position note) := by
  refine is.operated .call rfl fun {left d more} same ahead _ => ?_
  obtain ⟨t, g, _, next, kind, _, rest⟩ := Cursor.next?_of_ahead ahead
  rw [readOperator, next]
  dsimp only
  rw [kind]
  have ends : Ends (mark .closeBracket :: more) := .of_close (.inr rfl)
  refine (position_.parens.reads (by simpa using rest) ends).bind ?_
  intro value h _ sameValue rest
  refine (Cursor.take_finds rest).bind ?_
  intro _ i _ _ rest
  exact .pure (by simp [unplaced, bare, same, sameValue]) rest

theorem cast {target : TypeTerm} {ls' : List Lexeme} (is : ReadsAs ls e)
    (target_ : TypeTerm.ReadsAs ls' target) :
    ReadsAs (Lexeme.parens ls ++ mark .cast :: Lexeme.parens ls') (.cast e target note) := by
  refine is.operated .unary rfl fun {left d more} same ahead ends => ?_
  obtain ⟨t, g, _, next, kind, _, rest⟩ := Cursor.next?_of_ahead ahead
  rw [readOperator, next]
  dsimp only
  rw [kind]
  have stops : TypeTerm.Stops .unary more := by simp [TypeTerm.Stops, ends.suffix]
  refine (TypeTerm.read_parens target_ rest ends.result stops).bind ?_
  intro value h _ sameTarget rest
  exact .pure (by simp [unplaced, bare, same, sameTarget]) rest

/-- An operator is read with both of its sides, in parentheses. On the left of an assignment
there is a name. -/
theorem binary {right : Expr} {ls' : List Lexeme} {operator : Token} (is : ReadsAs ls e)
    (right_ : ReadsAs ls' right)
    (allowed : operator.kind.isOperator = true ∨
      operator.kind.isCompoundAssignment = true ∧ e.isSymbol = true) :
    ReadsAs (Lexeme.parens ls ++ operator.lexeme :: Lexeme.parens ls')
      (.binary e operator right note) := by
  obtain ⟨tightness, next, notCast, notCall, notIndex, notMember⟩ :=
    Token.Kind.power?_of_binary (allowed.imp_right And.left)
  refine is.operated tightness next fun {left d more} same ahead ends => ?_
  obtain ⟨t, g, _, taken, kind, text, rest⟩ := Cursor.next?_of_ahead ahead
  replace kind : t.kind = operator.kind := kind
  have assigns : (t.kind.isCompoundAssignment && !left.isSymbol) = false := by
    rw [kind, isSymbol_of_unplaced same]
    rcases allowed with two | ⟨_, symbol⟩
    · rw [Token.Kind.not_compound two, Bool.false_and]
    · rw [symbol, Bool.not_true, Bool.and_false]
  have sameOperator : t.unplaced = operator.unplaced := by
    rw [Token.unplaced, Token.unplaced, kind, show t.text = operator.text from text]
  rw [readOperator, taken]
  dsimp only
  split
  · exact absurd (kind.symm.trans ‹_›) notCast
  · exact absurd (kind.symm.trans ‹_›) notCall
  · exact absurd (kind.symm.trans ‹_›) notIndex
  · exact absurd (kind.symm.trans ‹_›) notMember
  · rw [assigns]
    refine (read_parens right_ rest ends.stops).bind ?_
    intro value h _ sameRight rest
    exact .pure (by simp [unplaced, bare, same, sameRight, sameOperator]) rest

end ReadsAs

end Expr

/-! ## Blocks and statements -/

/-- The lexemes are read as the block whatever follows them. -/
structure Block.ReadsAs (ls : List Lexeme) (block : Block) : Prop where
  starts : leading ls = .openCurly
  reads : ∀ {c : Cursor} {more : List Lexeme}, c.ahead = ls ++ more →
    Finds (Block.read c) (·.unplaced = block.bare.unplaced) more

/-- The lexemes are read as the statement where a semicolon follows. -/
structure Stmt.ReadsAs (ls : List Lexeme) (stmt : Stmt) : Prop where
  starts : (leading ls).startsStatement = true ∨ (leading ls).startsOperand = true
  reads : ∀ {c : Cursor} {more : List Lexeme}, c.ahead = ls ++ mark .semicolon :: more →
    Finds (Stmt.readBare c) (·.unplaced = stmt.bare.unplaced) (mark .semicolon :: more)

theorem Cursor.isEmpty_rest {c : Cursor} (some_ : leading c.ahead ≠ .eof) :
    c.rest.isEmpty = false := by
  obtain ⟨file, last, rest, stop, beyond⟩ := c
  cases rest with
  | nil => exact absurd rfl some_
  | cons t ts => rfl

theorem Stmt.ReadsAs.leading_ne {ls : List Lexeme} {stmt : Stmt} (is : ReadsAs ls stmt)
    {kind : Token.Kind} (notStatement : kind.startsStatement = false)
    (notOperand : kind.startsOperand = false) (more : List Lexeme) :
    leading (ls ++ more) ≠ kind := by
  rcases is.starts with starts | starts
  · exact leading_ne_of starts rfl notStatement more
  · exact leading_ne_of starts rfl notOperand more

namespace Block

variable {ls more : List Lexeme} {block : Block} {stmts : List Stmt} {f : Stmt → List Lexeme}
  {span : Span}

theorem ReadsAs.leading_append (is : ReadsAs ls block) (more : List Lexeme) :
    leading (ls ++ more) = .openCurly := by
  rw [Lexeme.leading_append (by simp [is.starts]), is.starts]

theorem ReadsAs.ends (is : ReadsAs ls block) : Expr.Ends (ls ++ more) := by
  have starts := is.leading_append more
  exact ⟨by simp [starts, Token.Kind.power?], by simp [starts, Token.Kind.suffixPower?],
    by simp [starts]⟩

theorem ReadsAs.endsTerm (is : ReadsAs ls block) : TypeTerm.Ends (ls ++ more) := by
  have starts := is.leading_append more
  exact ⟨by simp [starts, Token.Kind.suffixPower?], by simp [starts], by simp [starts]⟩

/-- A statement with its semicolon is read as the statement. -/
theorem read_ended {stmt : Stmt} (is : Stmt.ReadsAs ls stmt) {c : Cursor}
    (ahead : c.ahead = ls ++ mark .semicolon :: more) :
    Finds (Stmt.read c) (·.unplaced = stmt.bare.unplaced) more := by
  rw [Stmt.read]
  refine (is.reads ahead).bind ?_
  intro value d _ same rest
  obtain ⟨_, e, _, taken, rest⟩ := Cursor.take?_mark rest
  dsimp only
  rw [taken]
  exact .pure same rest

/-- Statements with a semicolon after each are read up to the brace that closes the block. -/
theorem readBody_finds : ∀ {c : Cursor}, (∀ stmt ∈ stmts, Stmt.ReadsAs (f stmt) stmt) →
    c.ahead = ended (stmts.map f) ++ mark .closeCurly :: more →
    Finds (readBody c) (·.map Stmt.unplaced = (stmts.map Stmt.bare).map Stmt.unplaced) more := by
  induction stmts with
  | nil =>
    intro c _ ahead
    obtain ⟨_, d, _, taken, rest⟩ := Cursor.take?_mark ahead
    rw [readBody, taken]
    exact .pure rfl rest
  | cons stmt stmts ih =>
    intro c each ahead
    have first := each stmt (by simp)
    replace ahead : c.ahead = f stmt ++ mark .semicolon ::
        (ended (stmts.map f) ++ mark .closeCurly :: more) := by
      simpa [ended] using ahead
    have other : leading c.ahead ≠ .closeCurly := ahead ▸ first.leading_ne rfl rfl _
    have some_ : leading c.ahead ≠ .eof := ahead ▸ first.leading_ne rfl rfl _
    rw [readBody, Cursor.take?_eq_none other]
    dsimp only
    rw [Cursor.isEmpty_rest some_]
    refine (read_ended first ahead).bind ?_
    intro value d _ same rest
    refine (ih (fun s among => each s (List.mem_cons_of_mem stmt among)) rest).bind ?_
    intro others e _ sameOthers rest
    exact .pure (by simp [same, sameOthers]) rest

theorem ReadsAs.braces (each : ∀ stmt ∈ stmts, Stmt.ReadsAs (f stmt) stmt) :
    ReadsAs (braces (ended (stmts.map f))) ⟨stmts, span⟩ := by
  refine ⟨rfl, fun {c more} ahead => ?_⟩
  rw [Block.read]
  refine (Cursor.take_finds ahead).bind ?_
  intro _ d _ _ rest
  refine (readBody_finds each (by simpa using rest)).bind ?_
  intro body e _ same rest
  refine .pure ?_ rest
  rw [unplaced, bare, unplaced, Stmt.unplacedAll_eq, Stmt.unplacedAll_eq, Stmt.bareAll_eq, same]

end Block

/-- A function literal is read back from its parts. -/
theorem Expr.ReadsAs.function {generics : List String} {params : List Param}
    {result : Option TypeTerm} {body : Block} {note : Note} {ls : List Lexeme}
    {f : Param → List Lexeme} {g : TypeTerm → List Lexeme}
    (each : ∀ p ∈ params, TypeTerm.ReadsAs (f p) p.term)
    (result_ : ∀ a ∈ result, TypeTerm.ReadsAs (g a) a) (body_ : Block.ReadsAs ls body) :
    ReadsAs (mark .fnWord :: angled (generics.map ([.name ·])) ++
        Lexeme.parens (separated .comma (params.map fun p => .name p.name :: mark .colon :: f p)) ++
        optional [mark .arrow] (result.map g) ++ ls)
      (.function generics params result body note) := by
  refine .of_operand rfl (by simp) fun {c more} ahead ends => ?_
  obtain ⟨t, d, _, next, kind, _, rest⟩ := Cursor.next?_of_ahead ahead
  replace rest : d.ahead = angled (generics.map ([.name ·])) ++ (mark .openParen ::
      (separated .comma (params.map fun p => .name p.name :: mark .colon :: f p) ++
        mark .closeParen :: (optional [mark .arrow] (result.map g) ++ (ls ++ more)))) := by
    simpa [Lexeme.parens] using rest
  rw [readOperand, next]
  dsimp only
  rw [kind]
  refine (Cursor.readGenericNames_finds (by simp) rest).bind ?_
  intro names c₂ _ sameGenerics rest
  refine (Cursor.take_finds rest).bind ?_
  intro _ c₃ _ _ rest
  refine (Param.readList_finds each rest).bind ?_
  intro found c₄ _ sameParams rest
  dsimp only
  cases result with
  | none =>
    replace rest : c₄.ahead = ls ++ more := rest
    rw [Cursor.take?_eq_none (by rw [rest, body_.leading_append]; simp)]
    refine (body_.reads rest).bind ?_
    intro block c₅ _ same rest
    exact .pure (by simp [unplaced, bare, sameGenerics, sameParams, same]) rest
  | some result =>
    obtain ⟨_, c₅, _, taken, rest⟩ := Cursor.take?_mark rest
    rw [taken]
    refine ((result_ result rfl).reads rest body_.endsTerm).bind ?_
    intro term c₆ _ sameResult rest
    refine (body_.reads rest).bind ?_
    intro block c₇ _ same rest
    exact .pure (by simp [unplaced, bare, sameGenerics, sameParams, sameResult, same]) rest

namespace Stmt

variable {ls ls' more : List Lexeme} {e : Expr} {c : Cursor} {term : TypeTerm} {span : Span}
  {constant : Bool} {block : Block}

theorem endsExpr : Expr.Ends (mark .semicolon :: more) := .of_mark rfl rfl (by decide)

theorem endsTerm : TypeTerm.Ends (mark .semicolon :: more) := .of_mark rfl (by decide) (by decide)

theorem readDefinition_finds (span : Span) {names : List String} (some_ : names ≠ [])
    (is : Expr.ReadsAs ls e)
    (ahead : c.ahead = separated .comma (names.map ([.name ·])) ++
      mark .assignment :: (ls ++ mark .semicolon :: more)) :
    Finds (readDefinition constant c)
      (·.unplaced = (Stmt.define names e constant span).bare.unplaced)
      (mark .semicolon :: more) := by
  rw [readDefinition]
  refine (Cursor.readNames_finds _ _ some_ (by simp) ahead).bind ?_
  intro found d _ sameNames rest
  refine (Cursor.take_finds rest).bind ?_
  intro _ g _ _ rest
  refine (is.reads rest endsExpr).bind ?_
  intro value h _ same rest
  exact .pure (by simp [unplaced, bare, sameNames, same]) rest

/-- A declaration is read from its name, its annotation and its value, if it has one. -/
theorem readDeclaration_finds (span : Span) {name : String} {value : Option Expr}
    {f : Expr → List Lexeme} (is : TypeTerm.ReadsAs ls term)
    (value_ : ∀ e ∈ value, Expr.ReadsAs (f e) e)
    (ahead : c.ahead = .name name :: mark .colon ::
      (ls ++ (optional [mark .assignment] (value.map f) ++ mark .semicolon :: more))) :
    Finds (readDeclaration constant c)
      (·.unplaced = (Stmt.declare name term value constant span).bare.unplaced)
      (mark .semicolon :: more) := by
  rw [readDeclaration]
  refine (Cursor.takeName_finds _ ahead).bind ?_
  intro found d _ text rest
  refine (Cursor.take_finds rest).bind ?_
  intro _ g _ _ rest
  cases value with
  | none =>
    replace rest : g.ahead = ls ++ mark .semicolon :: more := rest
    refine (is.reads rest endsTerm).bind ?_
    intro annotation h _ sameTerm rest
    dsimp only
    rw [Cursor.take?_eq_none (by rw [rest]; simp)]
    exact .pure (by simp [unplaced, bare, text, sameTerm]) rest
  | some value =>
    refine (is.reads rest (.of_mark rfl (by decide) (by decide))).bind ?_
    intro annotation h _ sameTerm rest
    obtain ⟨_, i, _, taken, rest⟩ := Cursor.take?_mark rest
    dsimp only
    rw [taken]
    refine ((value_ value rfl).reads rest endsExpr).bind ?_
    intro found j _ same rest
    exact .pure (by simp [unplaced, bare, text, sameTerm, same]) rest

namespace ReadsAs

theorem expr (is : Expr.ReadsAs ls e) : ReadsAs ls (.expr e span) := by
  refine ⟨.inr is.starts, fun {c more} ahead => ?_⟩
  have kind : c.kind = leading ls := by rw [c.kind_eq_leading, ahead, is.leading_append]
  have starts : c.kind.startsOperand = true := kind ▸ is.starts
  -- A name would start a definition or a declaration, were it not followed by the semicolon.
  have peek : c.kind = .identifier → c.peek 1 = .semicolon := by
    intro name
    obtain ⟨l, rfl⟩ := List.length_eq_one_iff.mp (is.alone (kind ▸ name))
    exact Cursor.peek_one _ ahead
  rw [readBare]
  split
  case h_9 =>
    split
    case h_4 =>
      refine (is.reads ahead (.of_mark rfl rfl (by decide))).bind ?_
      intro value d _ same rest
      exact .pure (by simp [unplaced, bare, same]) rest
    all_goals
      rename_i name next
      simp [peek name] at next
  all_goals
    rename_i other
    simp [other, Token.Kind.startsOperand] at starts

theorem define {names : List String} (some_ : names ≠ []) (is : Expr.ReadsAs ls e) :
    ReadsAs ((if constant then [mark .constWord] else []) ++
        separated .comma (names.map ([.name ·])) ++ mark .assignment :: ls)
      (.define names e constant span) := by
  obtain ⟨name, names, rfl⟩ := List.exists_cons_of_ne_nil some_
  -- What follows the first name tells the definition from a declaration.
  have second : ∀ more, ∃ kind rest, (kind = .assignment ∨ kind = .comma) ∧
      separated .comma ((name :: names).map ([.name ·])) ++ mark .assignment :: more =
        .name name :: mark kind :: rest := by
    intro more
    obtain ⟨behind, split, follows⟩ :=
      separated_cons .comma ([.name ·]) name names (mark .assignment :: more)
    rcases follows with ⟨_, rfl⟩ | ⟨_, rfl⟩
    · exact ⟨_, _, .inl rfl, split⟩
    · exact ⟨_, _, .inr rfl, split⟩
  cases constant with
  | false =>
    refine ⟨.inr rfl, fun {c more} ahead => ?_⟩
    replace ahead : c.ahead = separated .comma ((name :: names).map ([.name ·])) ++
        mark .assignment :: (ls ++ mark .semicolon :: more) := by
      simpa using ahead
    obtain ⟨kind, rest, kinds, second⟩ := second (ls ++ mark .semicolon :: more)
    have peek := Cursor.peek_one _ (ahead.trans second)
    rw [readBare, c.kind_eq_leading, ahead, second]
    dsimp only [leading_cons, Lexeme.name]
    rw [peek]
    rcases kinds with rfl | rfl <;> exact readDefinition_finds span some_ is ahead
  | true =>
    refine ⟨.inl rfl, fun {c more} ahead => ?_⟩
    replace ahead : c.ahead = mark .constWord ::
        (separated .comma ((name :: names).map ([.name ·])) ++
          mark .assignment :: (ls ++ mark .semicolon :: more)) := by
      simpa using ahead
    obtain ⟨kind, rest, kinds, second⟩ := second (ls ++ mark .semicolon :: more)
    rw [readBare, c.kind_eq_leading, ahead]
    refine (Cursor.take_finds ahead).bind ?_
    intro _ d _ _ inside
    have peek := Cursor.peek_one _ (inside.trans second)
    dsimp only
    rw [d.kind_eq_leading, inside, second]
    dsimp only [leading_cons, Lexeme.name]
    rw [peek]
    rcases kinds with rfl | rfl
    all_goals
      refine (readDefinition_finds span some_ is inside).bind ?_
      intro stmt g _ same rest
      exact .pure same rest

theorem declare {name : String} {value : Option Expr} {f : Expr → List Lexeme}
    (is : TypeTerm.ReadsAs ls term) (value_ : ∀ e ∈ value, Expr.ReadsAs (f e) e) :
    ReadsAs ((if constant then [mark .constWord] else []) ++
        .name name :: mark .colon :: ls ++ optional [mark .assignment] (value.map f))
      (.declare name term value constant span) := by
  cases constant with
  | false =>
    refine ⟨.inr rfl, fun {c more} ahead => ?_⟩
    replace ahead : c.ahead = .name name :: mark .colon ::
        (ls ++ (optional [mark .assignment] (value.map f) ++ mark .semicolon :: more)) := by
      simpa using ahead
    rw [readBare, c.kind_eq_leading, ahead]
    dsimp only [leading_cons, Lexeme.name]
    rw [Cursor.peek_one _ ahead]
    exact readDeclaration_finds span is value_ ahead
  | true =>
    refine ⟨.inl rfl, fun {c more} ahead => ?_⟩
    replace ahead : c.ahead = mark .constWord :: .name name :: mark .colon ::
        (ls ++ (optional [mark .assignment] (value.map f) ++ mark .semicolon :: more)) := by
      simpa using ahead
    rw [readBare, c.kind_eq_leading, ahead]
    refine (Cursor.take_finds ahead).bind ?_
    intro _ d _ _ inside
    dsimp only
    rw [Cursor.peek_one _ inside, d.kind_eq_leading, inside]
    refine (readDeclaration_finds span is value_ inside).bind ?_
    intro stmt g _ same rest
    exact .pure same rest

theorem classDecl {style : Style} {decl : ClassDecl} (fine : decl.wellFormed = true) :
    ReadsAs (decl.lexemes style) (.classDecl decl span) := by
  refine ⟨.inl rfl, fun {c more} ahead => ?_⟩
  rw [readBare, c.kind_eq_leading, ahead]
  refine (Cursor.take_finds ahead).bind ?_
  intro _ d _ _ rest
  refine (ClassDecl.read_finds fine rfl rest).bind ?_
  intro found g _ same rest
  exact .pure (by simp [unplaced, bare, same]) rest

theorem methods {name : String} (body : Block.ReadsAs ls block) :
    ReadsAs (mark .implWord :: .name name :: ls) (.methods name block span) := by
  refine ⟨.inl rfl, fun {c more} ahead => ?_⟩
  rw [readBare, c.kind_eq_leading, ahead]
  refine (Cursor.take_finds ahead).bind ?_
  intro _ d _ _ rest
  refine (Cursor.takeName_finds _ rest).bind ?_
  intro found g _ text rest
  refine (body.reads rest).bind ?_
  intro value h _ same rest
  exact .pure (by simp [unplaced, bare, same, text]) rest

theorem whileLoop (is : Expr.ReadsAs ls e) (body : Block.ReadsAs ls' block) :
    ReadsAs (mark .whileWord :: ls ++ ls') (.whileLoop e block span) := by
  refine ⟨.inl rfl, fun {c more} ahead => ?_⟩
  replace ahead : c.ahead = mark .whileWord :: (ls ++ (ls' ++ mark .semicolon :: more)) := by
    simpa using ahead
  rw [readBare, c.kind_eq_leading, ahead]
  refine (Cursor.take_finds ahead).bind ?_
  intro _ d _ _ rest
  refine (is.reads rest body.ends).bind ?_
  intro condition g _ sameCondition rest
  refine (body.reads rest).bind ?_
  intro value h _ same rest
  exact .pure (by simp [unplaced, bare, sameCondition, same]) rest

theorem doWhile (body : Block.ReadsAs ls' block) (is : Expr.ReadsAs ls e) :
    ReadsAs (mark .doWord :: ls' ++ mark .whileWord :: ls) (.doWhile block e span) := by
  refine ⟨.inl rfl, fun {c more} ahead => ?_⟩
  replace ahead : c.ahead = mark .doWord ::
      (ls' ++ mark .whileWord :: (ls ++ mark .semicolon :: more)) := by
    simpa using ahead
  rw [readBare, c.kind_eq_leading, ahead]
  refine (Cursor.take_finds ahead).bind ?_
  intro _ d _ _ rest
  refine (body.reads rest).bind ?_
  intro value g _ same rest
  refine (Cursor.take_finds rest).bind ?_
  intro _ h _ _ rest
  refine (is.reads rest endsExpr).bind ?_
  intro condition i _ sameCondition rest
  exact .pure (by simp [unplaced, bare, sameCondition, same]) rest

theorem returned {value : Option Expr} {f : Expr → List Lexeme}
    (value_ : ∀ e ∈ value, Expr.ReadsAs (f e) e) :
    ReadsAs (mark .returnWord :: optional [] (value.map f)) (.return value span) := by
  refine ⟨.inl rfl, fun {c more} ahead => ?_⟩
  rw [readBare, c.kind_eq_leading, ahead]
  refine (Cursor.take_finds ahead).bind ?_
  intro _ d _ _ rest
  dsimp only
  cases value with
  | none =>
    replace rest : d.ahead = mark .semicolon :: more := rest
    rw [d.kind_eq_leading, rest]
    exact .pure rfl rest
  | some value =>
    replace rest : d.ahead = f value ++ mark .semicolon :: more := rest
    have is := value_ value rfl
    have kind : d.kind = leading (f value ++ mark .semicolon :: more) := rest ▸ d.kind_eq_leading
    split
    · exact absurd (kind.symm.trans ‹_›) (is.leading_ne rfl _)
    · exact absurd (kind.symm.trans ‹_›) (is.leading_ne rfl _)
    · exact absurd (kind.symm.trans ‹_›) (is.leading_ne rfl _)
    · refine (is.reads rest endsExpr).bind ?_
      intro found g _ same rest
      exact .pure (by simp [unplaced, bare, same]) rest

end ReadsAs

/-- The lexemes are read as the block after `else`: as a block, or as the conditional that is
all of it. -/
def ReadsAsElse (ls : List Lexeme) (block : Block) : Prop :=
  Block.ReadsAs ls block ∨
    ∃ nested span, block = ⟨[nested], span⟩ ∧ leading ls = .ifWord ∧ ReadsAs ls nested

theorem readBare_if (kind : c.kind = .ifWord) : readBare c = readIf c := by
  rw [readBare, kind]

/-- An `if` is read with its branches, the `else` either a block or another `if`. -/
theorem ReadsAs.ifElse {no : Option Block} {f : Block → List Lexeme} (is : Expr.ReadsAs ls e)
    (yes : Block.ReadsAs ls' block) (no_ : ∀ b ∈ no, ReadsAsElse (f b) b) :
    ReadsAs (mark .ifWord :: ls ++ ls' ++ optional [mark .elseWord] (no.map f))
      (.ifElse e block no span) := by
  refine ⟨.inl rfl, fun {c more} ahead => ?_⟩
  replace ahead : c.ahead = mark .ifWord :: (ls ++ (ls' ++
      (optional [mark .elseWord] (no.map f) ++ mark .semicolon :: more))) := by
    simpa using ahead
  rw [readBare_if (by rw [c.kind_eq_leading, ahead]; rfl), readIf]
  refine (Cursor.take_finds ahead).bind ?_
  intro _ c₁ _ _ rest
  refine (is.reads rest yes.ends).bind ?_
  intro condition c₂ _ sameCondition rest
  refine (yes.reads rest).bind ?_
  intro found c₃ _ sameYes rest
  dsimp only
  cases no with
  | none =>
    replace rest : c₃.ahead = mark .semicolon :: more := rest
    rw [Cursor.take?_eq_none (by rw [rest]; simp)]
    exact .pure (by simp [unplaced, bare, sameCondition, sameYes]) rest
  | some other =>
    obtain ⟨_, c₄, _, taken, rest⟩ := Cursor.take?_mark rest
    replace rest : c₄.ahead = f other ++ mark .semicolon :: more := rest
    rw [taken]
    dsimp only
    rcases no_ other rfl with block | ⟨nested, place, rfl, kind, nested_⟩
    · rw [if_neg (by rw [c₄.kind_eq_leading, rest, block.leading_append]; simp)]
      refine (block.reads rest).bind ?_
      intro value c₅ _ same rest
      exact .pure (by simp [unplaced, bare, sameCondition, sameYes, same]) rest
    · have word : c₄.kind = .ifWord := by
        rw [c₄.kind_eq_leading, rest, leading_append (by simp [kind]), kind]
      rw [if_pos word, ← readBare_if word]
      refine (nested_.reads rest).bind ?_
      intro value c₅ _ same rest
      refine .pure ?_ rest
      simp [unplaced, bare, Block.unplaced, Block.bare, sameCondition, sameYes, same]

end Stmt

/-- The lexemes are read as the pattern before a block. -/
structure Pattern.ReadsAs (ls : List Lexeme) (pattern : Pattern) : Prop where
  reads : ∀ {c : Cursor} {more : List Lexeme}, c.ahead = ls ++ more → leading more = .openCurly →
    Finds (Stmt.readPattern c) (·.unplaced = pattern.bare.unplaced) more

namespace Pattern.ReadsAs

variable {ls : List Lexeme}

theorem type {name : String} {term : TypeTerm} (is : TypeTerm.ReadsAs ls term) :
    ReadsAs (.name name :: mark .colon :: ls) (.type name term) := by
  refine ⟨fun {c more} ahead opens => ?_⟩
  have ends : TypeTerm.Ends more :=
    ⟨by rw [opens]; rfl, by rw [opens]; decide, by rw [opens]; decide⟩
  rw [Stmt.readPattern, Cursor.peek_one _ ahead, c.kind_eq_leading, ahead]
  refine (Cursor.takeName_finds _ ahead).bind ?_
  intro found d _ text rest
  refine (Cursor.take_finds rest).bind ?_
  intro _ g _ _ rest
  refine (is.reads rest ends).bind ?_
  intro annotation h _ same rest
  exact .pure (by simp [unplaced, bare, text, same]) rest

theorem value {e : Expr} (is : Expr.ReadsAs ls e) : ReadsAs ls (.value e) := by
  refine ⟨fun {c more} ahead opens => ?_⟩
  have ends : Expr.Ends more := ⟨by rw [opens]; rfl, by rw [opens]; rfl, by rw [opens]; decide⟩
  have peek : c.kind = .identifier → c.peek 1 = .openCurly := by
    intro name
    rw [c.kind_eq_leading, ahead, is.leading_append] at name
    obtain ⟨l, rfl⟩ := List.length_eq_one_iff.mp (is.alone name)
    cases more with
    | nil => cases opens
    | cons m more => exact (Cursor.peek_one m ahead).trans opens
  rw [Stmt.readPattern]
  split
  · rename_i name colon
    rw [peek name] at colon
    cases colon
  · refine (is.reads ahead ends).bind ?_
    intro found d _ same rest
    exact .pure (by simp [unplaced, bare, same]) rest

end Pattern.ReadsAs

namespace Stmt

variable {ls more : List Lexeme} {cases : List Case} {otherwise : Option Block}
  {p : Pattern → List Lexeme} {b : Block → List Lexeme}

/-- The arms of a switch are read up to the brace that closes it. -/
theorem readCases_finds (each : ∀ arm ∈ cases, Pattern.ReadsAs (p arm.pattern) arm.pattern ∧
      Block.ReadsAs (b arm.body) arm.body)
    (otherwise_ : ∀ block ∈ otherwise, Block.ReadsAs (b block) block) : ∀ {c : Cursor},
    c.ahead = (cases.map fun arm => mark .caseWord :: p arm.pattern ++ b arm.body).flatten ++
      (optional [mark .defaultWord] (otherwise.map b) ++ mark .closeCurly :: more) →
    Finds (readCases none c)
      (fun found => found.1.map Case.unplaced = (cases.map Case.bare).map Case.unplaced ∧
        found.2.map Block.unplaced = (otherwise.map Block.bare).map Block.unplaced) more := by
  induction cases with
  | nil =>
    intro c ahead
    cases otherwise with
    | none =>
      obtain ⟨_, d, _, taken, rest⟩ := Cursor.take?_mark ahead
      rw [readCases.eq_def, taken]
      exact .pure ⟨rfl, rfl⟩ rest
    | some block =>
      replace ahead : c.ahead = mark .defaultWord :: (b block ++ mark .closeCurly :: more) := ahead
      rw [readCases.eq_def, Cursor.take?_eq_none (by rw [ahead]; simp), c.kind_eq_leading, ahead]
      refine (Cursor.take_finds ahead).bind ?_
      intro _ d _ _ rest
      refine ((otherwise_ block rfl).reads rest).bind ?_
      intro body g _ same rest
      obtain ⟨_, h, _, taken, rest⟩ := Cursor.take?_mark rest
      dsimp only
      rw [readCases.eq_def, taken]
      exact .pure ⟨rfl, by simp [same]⟩ rest
  | cons arm cases ih =>
    intro c ahead
    obtain ⟨pattern, body⟩ := each arm (by simp)
    replace ahead : c.ahead = mark .caseWord :: (p arm.pattern ++ (b arm.body ++
        ((cases.map fun arm => mark .caseWord :: p arm.pattern ++ b arm.body).flatten ++
          (optional [mark .defaultWord] (otherwise.map b) ++ mark .closeCurly :: more)))) := by
      simpa using ahead
    rw [readCases.eq_def, Cursor.take?_eq_none (by rw [ahead]; simp), c.kind_eq_leading, ahead]
    refine (Cursor.take_finds ahead).bind ?_
    intro _ d _ _ rest
    refine (pattern.reads rest (body.leading_append _)).bind ?_
    intro found g _ samePattern rest
    refine (body.reads rest).bind ?_
    intro block h _ sameBody rest
    refine (ih (fun a among => each a (List.mem_cons_of_mem arm among)) rest).bind ?_
    rintro ⟨others, other⟩ i _ ⟨sameOthers, sameOther⟩ rest
    exact .pure ⟨by simp [Case.unplaced, Case.bare, samePattern, sameBody, sameOthers], sameOther⟩
      rest

theorem ReadsAs.switch {e : Expr} {span : Span} (is : Expr.ReadsAs ls e)
    (each : ∀ arm ∈ cases, Pattern.ReadsAs (p arm.pattern) arm.pattern ∧
      Block.ReadsAs (b arm.body) arm.body)
    (otherwise_ : ∀ block ∈ otherwise, Block.ReadsAs (b block) block) :
    ReadsAs (mark .switchWord :: ls ++ braces
        ((cases.map fun arm => mark .caseWord :: p arm.pattern ++ b arm.body).flatten ++
          optional [mark .defaultWord] (otherwise.map b)))
      (.switch e cases otherwise span) := by
  refine ⟨.inl rfl, fun {c more} ahead => ?_⟩
  replace ahead : c.ahead = mark .switchWord :: (ls ++ mark .openCurly ::
      ((cases.map fun arm => mark .caseWord :: p arm.pattern ++ b arm.body).flatten ++
        (optional [mark .defaultWord] (otherwise.map b) ++
          mark .closeCurly :: mark .semicolon :: more))) := by
    simpa [braces] using ahead
  rw [readBare, c.kind_eq_leading, ahead]
  refine (Cursor.take_finds ahead).bind ?_
  intro _ d _ _ rest
  refine (is.reads rest (.of_mark rfl rfl (by decide))).bind ?_
  intro subject g _ sameSubject rest
  refine (Cursor.take_finds rest).bind ?_
  intro _ h _ _ rest
  refine (readCases_finds each otherwise_ rest).bind ?_
  rintro ⟨found, other⟩ i _ ⟨sameCases, sameOther⟩ rest
  refine .pure ?_ rest
  simp only [unplaced, bare, Case.unplacedAll_eq, Case.bareAll_eq, Block.unplacedAny_eq,
    Block.bareAny_eq, sameSubject, sameCases, sameOther]

end Stmt

/-! ## The induction over the tree -/

theorem Stmt.eq_of_isConditional {stmts : List Stmt} (is : Stmt.isConditional stmts = true) :
    ∃ condition yes no span, stmts = [.ifElse condition yes no span] := by
  unfold Stmt.isConditional at is
  split at is
  · exact ⟨_, _, _, _, rfl⟩
  · cases is

section

variable {style : Style} {block : Block}

theorem Block.readsAs (each : ∀ stmt ∈ block.body, Stmt.ReadsAs (stmt.lexemes style) stmt) :
    Block.ReadsAs (block.lexemes style) block := by
  obtain ⟨body, span⟩ := block
  rw [Block.lexemes, Stmt.pieces_eq]
  exact .braces each

theorem Block.readsAsElse (each : ∀ stmt ∈ block.body, Stmt.ReadsAs (stmt.lexemes style) stmt) :
    Stmt.ReadsAsElse (block.elseLexemes style) block := by
  unfold Block.elseLexemes
  split
  · rename_i chained
    obtain ⟨body, span⟩ := block
    obtain ⟨_, _, _, _, rfl⟩ := Stmt.eq_of_isConditional (Bool.and_eq_true_iff.mp chained).2
    refine .inr ⟨_, span, rfl, ?_, ?_⟩
    · simp [Stmt.lexemes]
    · simpa using each _ (by simp)
  · exact .inl (Block.readsAs each)

end

mutual

/-- By structural induction: an expression is read back from what was written, in either style. -/
theorem Expr.readsAs (style : Style) : (e : Expr) → e.wellFormed = true →
    Expr.ReadsAs (e.lexemes style) e
  | .literal _ _, fine => .literal fine
  | .symbol name _, _ => .symbol name
  | .member object name _, fine => (Expr.readsAs style object fine).member name
  | .call callee args _, fine => by
    rw [Expr.wellFormed, Bool.and_eq_true] at fine
    rw [Expr.lexemes, Expr.pieces_eq]
    exact (Expr.readsAs style callee fine.1).call fun e among =>
      (Expr.readAsAll style args fine.2 e among).parens
  | .index object position _, fine => by
    rw [Expr.wellFormed, Bool.and_eq_true] at fine
    exact (Expr.readsAs style object fine.1).index (Expr.readsAs style position fine.2)
  | .construct name args _, fine => by
    rw [Expr.lexemes, Expr.pieces_eq]
    exact .construct name fun e among => (Expr.readAsAll style args fine e among).parens
  | .cast value target _, fine => by
    rw [Expr.wellFormed, Bool.and_eq_true] at fine
    exact (Expr.readsAs style value fine.1).cast (target.readsAs fine.2)
  | .tuple items _, fine => by
    rw [Expr.lexemes, Expr.pieces_eq]
    exact .tuple fun e among => (Expr.readAsAll style items fine e among).parens
  | .spread value _, fine => (Expr.readsAs style value fine).spread
  | .array items _, fine => by
    rw [Expr.lexemes, Expr.pieces_eq]
    exact .array fun e among => (Expr.readAsAll style items fine e among).parens
  | .binary left operator right _, fine => by
    rw [Expr.wellFormed, Bool.and_eq_true, Bool.and_eq_true, Bool.or_eq_true,
      Bool.and_eq_true] at fine
    exact (Expr.readsAs style left fine.1.2).binary (Expr.readsAs style right fine.2) fine.1.1
  | .function generics params result body _, fine => by
    rw [Expr.wellFormed, Bool.and_eq_true, Bool.and_eq_true, List.all_eq_true] at fine
    refine .function (fun p among => (p.term.readsAs (fine.1.1 p among)).whole style)
      (fun a is => (a.readsAs ?_).whole style) (Block.readsAs (Block.readAsAll style body fine.2))
    exact (Option.all_eq_true _ _).mp fine.1.2 a is
termination_by structural e => e

theorem Expr.readAsAll (style : Style) : (es : List Expr) → Expr.wellFormedAll es = true →
    ∀ e ∈ es, Expr.ReadsAs (e.lexemes style) e
  | [], _ => by simp
  | e :: es, fine => by
    rw [Expr.wellFormedAll, Bool.and_eq_true] at fine
    exact List.forall_mem_cons.mpr ⟨Expr.readsAs style e fine.1, Expr.readAsAll style es fine.2⟩
termination_by structural es => es

theorem Expr.readAsAny (style : Style) : (e : Option Expr) → Expr.wellFormedAny e = true →
    ∀ a ∈ e, Expr.ReadsAs (a.lexemes style) a
  | none, _ => by simp
  | some e, fine => by
    rintro _ ⟨⟩
    exact Expr.readsAs style e fine
termination_by structural e => e

theorem Stmt.readsAs (style : Style) : (stmt : Stmt) → stmt.wellFormed = true →
    Stmt.ReadsAs (stmt.lexemes style) stmt
  | .expr value _, fine => .expr ((Expr.readsAs style value fine).whole style)
  | .define names value constant _, fine => by
    rw [Stmt.wellFormed, Bool.and_eq_true] at fine
    exact .define (by simpa using fine.1) ((Expr.readsAs style value fine.2).whole style)
  | .declare name term value constant _, fine => by
    rw [Stmt.wellFormed, Bool.and_eq_true] at fine
    rw [Stmt.lexemes, Expr.lexemesAny_eq]
    exact .declare ((term.readsAs fine.1).whole style)
      fun e is => (Expr.readAsAny style value fine.2 e is).whole style
  | .classDecl decl _, fine => .classDecl fine
  | .methods name body _, fine => .methods (Block.readsAs (Block.readAsAll style body fine))
  | .ifElse condition yes no _, fine => by
    rw [Stmt.wellFormed, Bool.and_eq_true, Bool.and_eq_true] at fine
    rw [Stmt.lexemes, Block.elseAny_eq]
    exact .ifElse ((Expr.readsAs style condition fine.1.1).whole style)
      (Block.readsAs (Block.readAsAll style yes fine.1.2))
      fun block is => Block.readsAsElse (Block.readAsAny style no fine.2 block is)
  | .whileLoop condition body _, fine => by
    rw [Stmt.wellFormed, Bool.and_eq_true] at fine
    exact .whileLoop ((Expr.readsAs style condition fine.1).whole style)
      (Block.readsAs (Block.readAsAll style body fine.2))
  | .doWhile body condition _, fine => by
    rw [Stmt.wellFormed, Bool.and_eq_true] at fine
    exact .doWhile (Block.readsAs (Block.readAsAll style body fine.1))
      ((Expr.readsAs style condition fine.2).whole style)
  | .switch subject cases otherwise _, fine => by
    rw [Stmt.wellFormed, Bool.and_eq_true, Bool.and_eq_true] at fine
    rw [Stmt.lexemes, Case.pieces_eq, Block.lexemesAny_eq]
    exact .switch ((Expr.readsAs style subject fine.1.1).whole style)
      (Case.readAsAll style cases fine.1.2)
      fun block is => Block.readsAs (Block.readAsAny style otherwise fine.2 block is)
  | .return value _, fine => by
    rw [Stmt.lexemes, Expr.lexemesAny_eq]
    exact .returned fun e is => (Expr.readAsAny style value fine e is).whole style
termination_by structural stmt => stmt

theorem Stmt.readAsAll (style : Style) : (stmts : List Stmt) → Stmt.wellFormedAll stmts = true →
    ∀ stmt ∈ stmts, Stmt.ReadsAs (stmt.lexemes style) stmt
  | [], _ => by simp
  | stmt :: stmts, fine => by
    rw [Stmt.wellFormedAll, Bool.and_eq_true] at fine
    exact List.forall_mem_cons.mpr
      ⟨Stmt.readsAs style stmt fine.1, Stmt.readAsAll style stmts fine.2⟩
termination_by structural stmts => stmts

theorem Block.readAsAll (style : Style) : (block : Block) → block.wellFormed = true →
    ∀ stmt ∈ block.body, Stmt.ReadsAs (stmt.lexemes style) stmt
  | ⟨body, _⟩, fine => Stmt.readAsAll style body fine
termination_by structural block => block

theorem Block.readAsAny (style : Style) : (block : Option Block) →
    Block.wellFormedAny block = true →
    ∀ b ∈ block, ∀ stmt ∈ b.body, Stmt.ReadsAs (stmt.lexemes style) stmt
  | none, _ => by simp
  | some block, fine => by
    rintro _ ⟨⟩
    exact Block.readAsAll style block fine
termination_by structural block => block

theorem Case.readAsAll (style : Style) : (cases : List Case) → Case.wellFormedAll cases = true →
    ∀ arm ∈ cases, Pattern.ReadsAs (arm.pattern.lexemes style) arm.pattern ∧
      Block.ReadsAs (arm.body.lexemes style) arm.body
  | [], _ => by simp
  | ⟨pattern, body, _⟩ :: cases, fine => by
    rw [Case.wellFormedAll, Bool.and_eq_true, Bool.and_eq_true] at fine
    exact List.forall_mem_cons.mpr ⟨⟨Pattern.readsAs style pattern fine.1.1,
      Block.readsAs (Block.readAsAll style body fine.1.2)⟩, Case.readAsAll style cases fine.2⟩
termination_by structural cases => cases

theorem Pattern.readsAs (style : Style) : (pattern : Pattern) → pattern.wellFormed = true →
    Pattern.ReadsAs (pattern.lexemes style) pattern
  | .type _ term, fine => .type ((term.readsAs fine).whole style)
  | .value value, fine => .value ((Expr.readsAs style value fine).whole style)
termination_by structural pattern => pattern

end

/-- Statements with a semicolon after each are read to the end. -/
theorem Stmt.readAll_ended {f : Stmt → List Lexeme} {stmts : List Stmt} :
    ∀ {c : Cursor}, (∀ stmt ∈ stmts, Stmt.ReadsAs (f stmt) stmt) →
      c.ahead = ended (stmts.map f) →
      ∃ body d, Stmt.readAll c = .ok (body, d) ∧
        body.map Stmt.unplaced = (stmts.map Stmt.bare).map Stmt.unplaced := by
  induction stmts with
  | nil =>
    intro c _ ahead
    have none_ : c.rest = [] := List.map_eq_nil_iff.mp ahead
    refine ⟨[], c, ?_, rfl⟩
    rw [Stmt.readAll, none_]
    rfl
  | cons stmt stmts ih =>
    intro c each ahead
    have first := each stmt (by simp)
    replace ahead : c.ahead = f stmt ++ mark .semicolon :: ended (stmts.map f) := by
      simpa [ended] using ahead
    have some_ : leading c.ahead ≠ .eof := ahead ▸ first.leading_ne rfl rfl _
    obtain ⟨⟨value, d, fewer⟩, read, same, rest⟩ := Block.read_ended first ahead
    obtain ⟨body, e, readRest, sameRest⟩ :=
      ih (fun s among => each s (List.mem_cons_of_mem stmt among)) rest
    refine ⟨value :: body, e, ?_, by rw [List.map_cons, same, sameRest]; rfl⟩
    rw [Stmt.readAll, Cursor.isEmpty_rest some_, read]
    change (Stmt.readAll d >>= _) = _
    rw [readRest]
    rfl

/-- Every well-formed program is read back, up to places, from tokens that spell it, whether the
end mark is there or not and whatever follows it. -/
theorem Program.read_spelled (style : Style) (p : Program) (fine : p.wellFormed = true)
    (file : String) (tokens ending : List Token)
    (spells : tokens.map Token.lexeme = p.lexemes style)
    (ends : ∀ t ∈ ending.head?, t.kind = .eof) :
    ∃ q c, Program.read file (tokens ++ ending) = .ok (q, c) ∧ q.unplaced = p.bare.unplaced := by
  have inside : ∀ t ∈ tokens, (t.kind != .eof) = true := by
    intro t among
    have inner := Program.inner fine t.lexeme (spells ▸ List.mem_map_of_mem among)
    simpa [Token.lexeme] using inner
  have beyond : ending.takeWhile (·.kind != .eof) = [] := by
    cases ending with
    | nil => rfl
    | cons t ts => simp [ends t rfl]
  have ahead : (Cursor.ofTokens file (tokens ++ ending)).ahead =
      ended (p.body.map (Stmt.lexemes style)) := by
    rw [Cursor.ahead, Cursor.rest_ofTokens, List.takeWhile_append_of_pos inside, beyond,
      List.append_nil, spells, Program.lexemes, Stmt.pieces_eq]
  obtain ⟨body, d, read, same⟩ := Stmt.readAll_ended (Stmt.readAsAll style p.body fine) ahead
  refine ⟨⟨body, d.spanFrom ⟨0, file⟩⟩, d, ?_, ?_⟩
  · rw [Program.read, read]
    rfl
  · simp [Program.unplaced, Program.bare, same]

/-- A generic class with a field that is an operator, a declaration with overloads, names for a
tuple of one number, an assignment, and a chain of conditionals. -/
def Program.mixed : Program :=
  let note : Note := ⟨.null, none, none⟩
  let cell : TypeTerm := .named "Cell" [.named "T" [] .null] .null
  ⟨[.classDecl ⟨"Cell", ["T"], [], [[.named "T" [] .null]],
      [⟨["==", "item"], .maybe cell .null, .null⟩]⟩ .null,
    .declare "f" (.overloads [⟨[], .noneType .null, .null⟩, ⟨[cell], .noneType .null, .null⟩] .null)
      none false .null,
    .define ["a", "b"] (.tuple [.literal (.int 9223372036854775807) note] note) true .null,
    .expr (.binary (.symbol "a" note) ⟨.plusEquals, "+=", .null⟩
      (.call (.symbol "f" note) [] note) note) .null,
    .ifElse (.symbol "a" note) ⟨[], .null⟩
      (some ⟨[.ifElse (.symbol "b" note) ⟨[.return none .null], .null⟩ none .null], .null⟩) .null],
    .null⟩

def Lexeme.unplacedTokens (ls : List Lexeme) : List Token := ls.map fun l => ⟨l.kind, l.text, .null⟩

/-- The program is read back with its operator in quotes and its conditionals in a chain. -/
theorem Program.read_spelled_mixed : Program.mixed.wellFormed = true ∧
    ∃ q c, Program.read "f" (unplacedTokens
        (Program.mixed.lexemes ⟨false, (· == "=="), true⟩) ++ [⟨.eof, "EOF", .null⟩]) =
      .ok (q, c) ∧ q.unplaced = Program.mixed.bare.unplaced :=
  ⟨by decide +kernel, Program.read_spelled ⟨false, (· == "=="), true⟩ Program.mixed
    (by decide +kernel) "f" _ [⟨.eof, "EOF", .null⟩]
    (by simp [unplacedTokens, Function.comp_def, Token.lexeme])
    (by simp)⟩

end ShapeLang
