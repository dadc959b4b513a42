import ShapeLang.Proofs.RoundTrip

/-!
# Operators and their operands

Operands that are one token each, with operators between them, can be grouped in many ways.
The parser finds the one in which an operator's left operand holds together at least as
tightly as the operator, and its right operand more tightly: tight operators are applied
first, and operators of one power from the left. No other grouping of the same tokens has
this property, so the powers of the operators say all about how a row of them is read.
-/

namespace ShapeLang

/-! ## Rows of operands and operators -/

/-- The operand that a token is by itself. A number must be a whole one that fits. -/
def Token.operand? (t : Token) : Option Expr :=
  match t.kind with
  | .identifier => some (.symbol t.text ⟨t.span, none, none⟩)
  | .string => some (.literal (.string t.text) ⟨t.span, none, none⟩)
  | .trueWord => some (.literal (.bool true) ⟨t.span, none, none⟩)
  | .falseWord => some (.literal (.bool false) ⟨t.span, none, none⟩)
  | .noneWord => some (.literal .noneValue ⟨t.span, none, none⟩)
  | .number =>
      (Numeral.integer? t.text.toList).map fun n => .literal (.int n) ⟨t.span, none, none⟩
  | _ => none

/-- Operands with operators between them. -/
def Token.isRow : List Token → Bool
  | [] => false
  | [t] => t.operand?.isSome
  | t :: op :: ts => t.operand?.isSome && op.kind.isOperator && isRow ts

/-- The token is not an operator, or one that binds tighter than the power. -/
def Token.within (power : Power) (t : Token) : Bool :=
  t.kind.power?.all fun tightness => power.rank < tightness.rank

/-- The tokens are what the expression reads as from left to right, and give it its places. -/
inductive Expr.InOrder : Expr → List Token → Prop where
  | operand {e : Expr} {t : Token} (is : t.operand? = some e) : InOrder e [t]
  | binary {left right : Expr} {op : Token} {ts us : List Token} (first : InOrder left ts)
      (operator : op.kind.isOperator = true) (second : InOrder right us) :
      InOrder (.binary left op right ⟨left.span.join right.span, none, none⟩) (ts ++ op :: us)

/-- The power of the operator that is applied last, if there is one. -/
def Expr.power? : Expr → Option Power
  | .binary _ op _ _ => op.kind.power?
  | _ => none

/-- Every operator has a left operand that holds together at least as tightly as it does, and
a right one that holds together more tightly. -/
def Expr.Grouped : Expr → Prop
  | .binary left op right _ =>
      left.Grouped ∧ right.Grouped ∧ ∀ p ∈ op.kind.power?,
        (∀ q ∈ left.power?, p.rank ≤ q.rank) ∧ ∀ q ∈ right.power?, p.rank < q.rank
  | _ => True

/-- An operator is grouped well if its left side is at least as tight and its right side is
tighter. -/
theorem Expr.grouped_binary {left right : Expr} {op : Token} {note : Note} :
    (Expr.binary left op right note).Grouped ↔
      left.Grouped ∧ right.Grouped ∧ ∀ p ∈ op.kind.power?,
        (∀ q ∈ left.power?, p.rank ≤ q.rank) ∧ ∀ q ∈ right.power?, p.rank < q.rank := by
  rw [Expr.Grouped]

theorem Token.power?_operand {t : Token} {e : Expr} (is : t.operand? = some e) :
    t.kind.power? = none ∧ e.power? = none ∧ e.Grouped := by
  unfold operand? at is
  split at is
  case h_6 kind =>
    obtain ⟨n, _, rfl⟩ := Option.map_eq_some_iff.mp is
    exact ⟨by rw [kind]; rfl, rfl, by simp [Expr.Grouped]⟩
  case h_7 => cases is
  all_goals
    rename_i kind
    obtain rfl := Option.some.inj is
    exact ⟨by rw [kind]; rfl, rfl, by simp [Expr.Grouped]⟩

/-! ## One grouping -/

namespace Expr

variable {e left right left' right' : Expr} {op op' t : Token} {ts us ts' us' : List Token}
  {note note' : Note} {p q : Power}

/-- No operator in the tree is looser than the one applied last. -/
theorem InOrder.last_loosest (is : InOrder e ts) (grouped : e.Grouped) (among : t ∈ ts)
    (tight : t.kind.power? = some q) : ∃ p, e.power? = some p ∧ p.rank ≤ q.rank := by
  induction is with
  | operand is =>
    obtain rfl := List.mem_singleton.mp among
    rw [(Token.power?_operand is).1] at tight
    cases tight
  | @binary left right op ts us _ operator _ first second =>
    obtain ⟨p, power, _⟩ := Token.Kind.power?_of_binary (.inl operator)
    obtain ⟨groupedLeft, groupedRight, here⟩ := grouped_binary.mp grouped
    obtain ⟨looser, tighter⟩ := here p power
    refine ⟨p, power, ?_⟩
    rcases List.mem_append.mp among with among | among
    · obtain ⟨inner, powerLeft, le⟩ := first groupedLeft among
      exact Nat.le_trans (looser inner powerLeft) le
    · rcases List.mem_cons.mp among with rfl | among
      · exact Nat.le_of_eq (congrArg Power.rank (Option.some.inj (power.symm.trans tight)))
      · obtain ⟨inner, powerRight, le⟩ := second groupedRight among
        exact Nat.le_trans (Nat.le_of_lt (tighter inner powerRight)) le

/-- An operator on the left is no looser than the one between. -/
theorem InOrder.rank_left (first : InOrder left ts)
    (grouped : (Expr.binary left op right note).Grouped) (power : op.kind.power? = some p)
    (among : t ∈ ts) (tight : t.kind.power? = some q) : p.rank ≤ q.rank := by
  rw [grouped_binary] at grouped
  obtain ⟨inner, powerLeft, le⟩ := first.last_loosest grouped.1 among tight
  exact Nat.le_trans ((grouped.2.2 p power).1 inner powerLeft) le

/-- An operator on the right is tighter than the one between. -/
theorem InOrder.rank_right (second : InOrder right us)
    (grouped : (Expr.binary left op right note).Grouped) (power : op.kind.power? = some p)
    (among : t ∈ us) (tight : t.kind.power? = some q) : p.rank < q.rank := by
  rw [grouped_binary] at grouped
  obtain ⟨inner, powerRight, le⟩ := second.last_loosest grouped.2.1 among tight
  exact Nat.lt_of_lt_of_le ((grouped.2.2 p power).2 inner powerRight) le

/-- Of two operators in a row the earlier cannot be applied last in one grouping and the later
in another. -/
theorem InOrder.not_earlier (grouped : (Expr.binary left op right note).Grouped)
    (grouped' : (Expr.binary left' op' right' note').Grouped)
    (operator : op.kind.isOperator = true) (operator' : op'.kind.isOperator = true)
    (second : InOrder right us) (first' : InOrder left' ts') (later : op' ∈ us) :
    op ∉ ts' := by
  intro earlier
  obtain ⟨p, power, _⟩ := Token.Kind.power?_of_binary (.inl operator)
  obtain ⟨q, power', _⟩ := Token.Kind.power?_of_binary (.inl operator')
  have tighter := second.rank_right grouped power later power'
  have looser := first'.rank_left grouped' power' earlier power
  omega

theorem InOrder.ne_nil (is : InOrder e ts) : ts ≠ [] := by
  cases is <;> simp

theorem InOrder.operand_of_singleton (is : InOrder e [t]) : t.operand? = some e := by
  generalize row : [t] = ts at is
  cases is with
  | operand is => exact List.singleton_inj.mp row ▸ is
  | binary first operator second =>
    have length := congrArg List.length row
    have some_ := List.length_pos_iff.mpr second.ne_nil
    simp only [List.length_append, List.length_cons, List.length_nil] at length
    omega

/-- A row of operands and operators has one grouping at most. -/
theorem InOrder.grouping_unique (is : InOrder e ts) (grouped : e.Grouped) :
    ∀ {e' : Expr}, InOrder e' ts → e'.Grouped → e' = e := by
  induction is with
  | operand is =>
    intro e' is' _
    exact Option.some.inj (is'.operand_of_singleton.symm.trans is)
  | @binary left right op ts us first operator second ihLeft ihRight =>
    intro e' is' grouped'
    generalize row : ts ++ op :: us = vs at is'
    cases is' with
    | operand is' =>
      have alone := (row ▸ InOrder.binary first operator second).operand_of_singleton
      obtain ⟨p, power, _⟩ := Token.Kind.power?_of_binary (.inl operator)
      exact absurd ((Token.power?_operand alone).2.1.symm.trans power) (by simp)
    | @binary left' right' op' ts' us' first' operator' second' =>
      -- the two operators stand at one place, since neither can come before the other
      have aligned : ts' = ts ∧ op' :: us' = op :: us := by
        rcases List.append_eq_append_iff.mp row with
          ⟨_ | ⟨t, between⟩, before, after⟩ | ⟨_ | ⟨t, between⟩, before, after⟩
        · exact ⟨by simpa using before, after.symm⟩
        · obtain ⟨rfl, rfl⟩ := List.cons.inj after
          exact absurd (by simp [before])
            (InOrder.not_earlier grouped grouped' operator operator' second first' (by simp))
        · exact ⟨by simpa using before.symm, after⟩
        · obtain ⟨rfl, rfl⟩ := List.cons.inj after
          exact absurd (by simp [before])
            (InOrder.not_earlier grouped' grouped operator' operator second' first (by simp))
      obtain ⟨rfl, same⟩ := aligned
      obtain ⟨rfl, rfl⟩ := List.cons.inj same
      rw [grouped_binary] at grouped grouped'
      rw [ihLeft grouped.1 first' grouped'.1, ihRight grouped.2.1 second' grouped'.2.1]

end Expr

/-! ## Reading a row -/

namespace Numeral

theorem digits_of_natural? {digits : List Char} {n : Nat} (is : natural? digits = some n)
    {c : Char} (among : c ∈ digits) : (digitValue? c).isSome = true := by
  have from_ : ∀ m, digits.foldlM (fun n c => (digitValue? c).map (10 * n + ·)) m = some n →
      (digitValue? c).isSome = true := by
    clear is
    induction digits with
    | nil => cases among
    | cons d digits ih =>
      intro m is
      rw [List.foldlM_cons] at is
      obtain ⟨next, first, rest⟩ := Option.bind_eq_some_iff.mp is
      rcases List.mem_cons.mp among with rfl | among
      · obtain ⟨value, digit, _⟩ := Option.map_eq_some_iff.mp first
        simp [digit]
      · exact ih among next rest
  exact from_ 0 is

theorem mem_splitSign {text : List Char} {c : Char} (among : c ∈ text) (plus : c ≠ '+')
    (minus : c ≠ '-') : c ∈ (splitSign text).2 := by
  unfold splitSign
  split
  · exact (List.mem_cons.mp among).resolve_left plus
  · exact (List.mem_cons.mp among).resolve_left minus
  · exact among

/-- There is no point in a whole number. -/
theorem no_point_of_integer? {text : List Char} {n : Int} (is : integer? text = some n) :
    text.contains '.' = false := by
  rw [List.contains_eq_mem, decide_eq_false_iff_not]
  intro among
  have inDigits := mem_splitSign among (by decide) (by decide)
  obtain ⟨_, _, is⟩ := Option.bind_eq_some_iff.mp is
  obtain ⟨_, digits, _⟩ := Option.bind_eq_some_iff.mp is
  exact absurd (digits_of_natural? digits inDigits) (by decide)

end Numeral

namespace Reads

variable {α β : Type} {n m : Nat} {x : Reads α n} {good : α → Prop} {mid more : List Token}

/-- Reading succeeds with a value that is as it should be, and leaves exactly these tokens. -/
def Leaves (x : Reads α n) (good : α → Prop) (more : List Token) : Prop :=
  ∃ p, x = .ok p ∧ good p.value ∧ p.cursor.rest = more

namespace Leaves

theorem pure {value : α} {d : Cursor} {fewer : d.rest.length < n} (is : good value)
    (rest : d.rest = more) : Leaves (n := n) (Pure.pure ⟨value, d, fewer⟩) good more :=
  ⟨_, rfl, is, rest⟩

theorem bind {f : Parsed α n → Reads β m} {fine : β → Prop} (first : Leaves x good mid)
    (rest : ∀ value d (fewer : d.rest.length < n), good value → d.rest = mid →
      Leaves (f ⟨value, d, fewer⟩) fine more) : Leaves (x >>= f) fine more := by
  obtain ⟨⟨value, d, fewer⟩, rfl, is, left⟩ := first
  exact rest value d fewer is left

end Leaves

end Reads

theorem Cursor.next?_of_rest {c : Cursor} {t : Token} {ts : List Token} (is : c.rest = t :: ts) :
    ∃ (d : Cursor) (fewer : d.rest.length < c.size),
      c.next? = some ⟨t, d, fewer⟩ ∧ d.rest = ts := by
  obtain ⟨file, last, rest, stop, beyond⟩ := c
  cases is
  exact ⟨_, _, rfl, rfl⟩

theorem Literal.ofToken?_number {t : Token} {n : Int} (kind : t.kind = .number)
    (is : Numeral.integer? t.text.toList = some n) : Literal.ofToken? t = .ok (some (.int n)) := by
  rw [Literal.ofToken?, kind]
  dsimp only
  rw [Numeral.no_point_of_integer? is, is]
  rfl

namespace Expr

open Reads (Leaves)

theorem readOperand_leaves {c : Cursor} {t : Token} {ts : List Token} {e : Expr}
    (ahead : c.rest = t :: ts) (is : t.operand? = some e) :
    Leaves (readOperand c) (· = e) ts := by
  obtain ⟨d, _, next, rest⟩ := Cursor.next?_of_rest ahead
  rw [readOperand, next]
  dsimp only
  unfold Token.operand? at is
  split at is
  case h_6 kind =>
    obtain ⟨n, number, rfl⟩ := Option.map_eq_some_iff.mp is
    rw [kind]
    dsimp only
    rw [Literal.ofToken?_number kind number]
    exact .pure rfl rest
  case h_7 => cases is
  all_goals
    rename_i kind
    obtain rfl := Option.some.inj is
    rw [kind]
    simp only [Literal.ofToken?, kind]
    exact .pure rfl rest

/-- An operator is read with its right side, which leaves what is looser. -/
theorem readOperator_leaves {power : Power} {left : Expr} {c : Cursor} {op : Token}
    {us rest : List Token} {good : Expr → Prop} (ahead : c.rest = op :: us)
    (operator : op.kind.isOperator = true)
    (operand : ∀ d : Cursor, d.rest = us → Leaves (read power d) good rest) :
    Leaves (readOperator power left c) (fun whole => ∃ right, good right ∧
      whole = .binary left op right ⟨left.span.join right.span, none, none⟩) rest := by
  obtain ⟨d, _, next, behind⟩ := Cursor.next?_of_rest ahead
  obtain ⟨_, _, notCast, notCall, notIndex, notMember⟩ :=
    Token.Kind.power?_of_binary (.inl operator)
  rw [readOperator, next]
  dsimp only
  split
  · contradiction
  · contradiction
  · contradiction
  · contradiction
  · rw [Token.Kind.not_compound operator]
    refine (operand d behind).bind ?_
    intro right _ _ is rest
    exact .pure ⟨right, is, rfl⟩ rest

end Expr

namespace Token

variable {t : Token} {ts : List Token} {power : Power}

/-- Nothing, or an operator and a row. -/
def isTail : List Token → Bool
  | [] => true
  | op :: ts => op.kind.isOperator && isRow ts

theorem isRow_cons (t : Token) (ts : List Token) :
    isRow (t :: ts) = (t.operand?.isSome && isTail ts) := by
  cases ts <;> simp [isRow, isTail, Bool.and_assoc]

theorem within_of_operand? (is : t.operand?.isSome = true) : t.within power = true := by
  obtain ⟨e, is⟩ := Option.isSome_iff_exists.mp is
  simp [within, (power?_operand is).1]

/-- What the power leaves of a row starts with an operator. -/
theorem isTail_dropWhile (row : isRow ts = true) : isTail (ts.dropWhile (within power)) = true := by
  fun_induction isRow ts with
  | case1 => cases row
  | case2 t => simp [within_of_operand? row, isTail]
  | case3 t op ts ih =>
    simp only [Bool.and_eq_true] at row
    rw [List.dropWhile_cons_of_pos (within_of_operand? row.1.1), List.dropWhile_cons]
    split
    · exact ih row.2
    · simp [isTail, row]

theorem within_of_le {p : Power} (le : power.rank ≤ p.rank) (is : t.within p = true) :
    t.within power = true := by
  simp only [within, Option.all_eq_true, decide_eq_true_eq] at *
  exact fun tightness tight => Nat.lt_of_le_of_lt le (is tightness tight)

/-- A tighter power stops earlier, and a looser one goes on from there. -/
theorem takeWhile_within {p : Power} (le : power.rank ≤ p.rank) (ts : List Token) :
    ts.takeWhile (within power) =
        ts.takeWhile (within p) ++ (ts.dropWhile (within p)).takeWhile (within power) ∧
      ts.dropWhile (within power) = (ts.dropWhile (within p)).dropWhile (within power) := by
  induction ts with
  | nil => exact ⟨rfl, rfl⟩
  | cons t ts ih =>
    by_cases inner : t.within p = true
    · simp [inner, within_of_le le inner, ih.1, ih.2]
    · simp [inner]

theorem not_within_of_dropWhile {op : Token} {us : List Token}
    (is : ts.dropWhile (within power) = op :: us) : op.within power = false := by
  have first := List.head?_dropWhile_not (within power) ts
  rwa [is] at first

end Token

namespace Expr

open Reads (Leaves)

/-- The expression is a grouping of the tokens that the power does not break up. -/
structure Groups (power : Power) (ts : List Token) (e : Expr) : Prop where
  inOrder : e.InOrder ts
  grouped : e.Grouped
  tighter : ∀ p, e.power? = some p → power.rank < p.rank

variable {power p : Power} {e left right : Expr} {op t : Token} {ts us : List Token}

theorem Groups.of_operand (is : t.operand? = some e) : Groups power [t] e := by
  obtain ⟨_, none_, grouped⟩ := Token.power?_operand is
  exact ⟨.operand is, grouped, by simp [none_]⟩

/-- A grouping that is at least as tight, an operator and a grouping that is tighter make one
grouping. -/
theorem Groups.binary (first : Groups power ts left) (operator : op.kind.isOperator = true)
    (tight : op.kind.power? = some p) (tighter : power.rank < p.rank)
    (looser : ∀ q, left.power? = some q → p.rank ≤ q.rank) (second : Groups p us right) :
    Groups power (ts ++ op :: us)
      (.binary left op right ⟨left.span.join right.span, none, none⟩) := by
  refine ⟨.binary first.inOrder operator second.inOrder, ?_, ?_⟩
  · refine grouped_binary.mpr ⟨first.grouped, second.grouped, fun q is => ?_⟩
    obtain rfl := Option.some.inj (tight.symm.trans is)
    exact ⟨looser, second.tighter⟩
  · intro q is
    obtain rfl := Option.some.inj (tight.symm.trans is)
    exact tighter

mutual

/-- A row is read as a grouping of all that is tight enough, and the rest is left. -/
theorem read_leaves (power : Power) (c : Cursor) (row : Token.isRow c.rest = true) :
    Leaves (read power c) (Groups power (c.rest.takeWhile (Token.within power)))
      (c.rest.dropWhile (Token.within power)) := by
  cases ahead : c.rest with
  | nil => rw [ahead] at row; cases row
  | cons t ts =>
    rw [ahead, Token.isRow_cons, Bool.and_eq_true] at row
    obtain ⟨operand, tail⟩ := row
    obtain ⟨e, is⟩ := Option.isSome_iff_exists.mp operand
    rw [List.takeWhile_cons_of_pos (Token.within_of_operand? operand),
      List.dropWhile_cons_of_pos (Token.within_of_operand? operand), read]
    refine (readOperand_leaves ahead is).bind ?_
    rintro _ d fewer rfl rfl
    have alone := (Token.power?_operand is).2.1
    refine (readOperators_leaves power [t] _ d tail (.of_operand is) (by simp [alone])).bind ?_
    intro whole _ _ groups rest
    exact .pure groups rest
termination_by c.size

/-- What was read so far is a grouping, and the operator ahead is no tighter than the one
applied last in it. -/
theorem readOperators_leaves (power : Power) (ts : List Token) (left : Expr) (c : Cursor)
    (tail : Token.isTail c.rest = true) (first : Groups power ts left)
    (looser : ∀ op us p q, c.rest = op :: us → op.kind.power? = some p →
      left.power? = some q → p.rank ≤ q.rank) :
    Leaves (readOperators power left c)
      (Groups power (ts ++ c.rest.takeWhile (Token.within power)))
      (c.rest.dropWhile (Token.within power)) := by
  rw [readOperators, Cursor.kind, Cursor.current]
  cases ahead : c.rest with
  | nil => exact .pure (by simpa using first) ahead
  | cons op us =>
    rw [ahead, Token.isTail, Bool.and_eq_true] at tail
    obtain ⟨operator, row⟩ := tail
    obtain ⟨p, tight, _⟩ := Token.Kind.power?_of_binary (.inl operator)
    dsimp only
    rw [tight]
    dsimp only
    by_cases loose : p.rank ≤ power.rank
    · have outside : ¬ op.within power = true := by
        simp [Token.within, tight, loose]
      rw [if_pos loose, List.takeWhile_cons_of_neg outside, List.dropWhile_cons_of_neg outside]
      exact .pure (by simpa using first) ahead
    · have inside : op.within power = true := by
        simpa [Token.within, tight] using loose
      obtain ⟨taken, dropped⟩ := Token.takeWhile_within (Nat.le_of_not_le loose) us
      rw [if_neg loose, List.takeWhile_cons_of_pos inside, List.dropWhile_cons_of_pos inside,
        taken, dropped]
      have operand : ∀ d : Cursor, d.rest = us → Leaves (read p d)
          (Groups p (us.takeWhile (Token.within p))) (us.dropWhile (Token.within p)) := by
        rintro d rfl
        have shorter : d.size < c.size := by simp [Cursor.size, ahead]
        exact read_leaves p d row
      refine (readOperator_leaves ahead operator operand).bind ?_
      rintro _ d fewer ⟨right, second, rfl⟩ behind
      have longer := first.binary operator tight (Nat.lt_of_not_le loose)
        (fun q => looser op us p q ahead tight) second
      have next : ∀ op' us' p' q, d.rest = op' :: us' → op'.kind.power? = some p' →
          op.kind.power? = some q → p'.rank ≤ q.rank := by
        intro op' us' p' q rest tight' is
        obtain rfl := Option.some.inj (tight.symm.trans is)
        simpa [Token.within, tight'] using Token.not_within_of_dropWhile (behind.symm.trans rest)
      refine (readOperators_leaves power _ _ d (behind ▸ Token.isTail_dropWhile row) longer
        next).bind ?_
      intro whole _ _ groups rest
      rw [behind] at groups rest
      exact .pure (by simpa using groups) rest
termination_by c.size

end

/-- A row is read up to the first operator that the power holds off, as the one grouping of
the tokens before it. -/
theorem read_only_grouping (power : Power) (c : Cursor) (row : Token.isRow c.rest = true) :
    ∃ (e : Expr) (d : Cursor) (fewer : d.rest.length < c.size),
      read power c = .ok ⟨e, d, fewer⟩ ∧ d.rest = c.rest.dropWhile (Token.within power) ∧
        ∀ e' : Expr,
          e'.InOrder (c.rest.takeWhile (Token.within power)) ∧ e'.Grouped ↔ e' = e := by
  obtain ⟨⟨e, d, fewer⟩, read, groups, rest⟩ := read_leaves power c row
  refine ⟨e, d, fewer, read, rest, fun e' => ⟨?_, ?_⟩⟩
  · rintro ⟨inOrder, grouped⟩
    exact groups.inOrder.grouping_unique groups.grouped inOrder grouped
  · rintro rfl
    exact ⟨groups.inOrder, groups.grouped⟩

/-- Operators of four powers, two of them twice: `a - b * 2 - c < 1 && d`. -/
def mixedRow : Cursor :=
  let place (first last : UInt32) : Span := ⟨⟨first, ""⟩, ⟨last, ""⟩⟩
  .ofTokens "" [⟨.identifier, "a", place 0 1⟩, ⟨.dash, "-", place 2 3⟩,
    ⟨.identifier, "b", place 4 5⟩, ⟨.star, "*", place 6 7⟩, ⟨.number, "2", place 8 9⟩,
    ⟨.dash, "-", place 10 11⟩, ⟨.identifier, "c", place 12 13⟩, ⟨.less, "<", place 14 15⟩,
    ⟨.number, "1", place 16 17⟩, ⟨.and, "&&", place 18 20⟩, ⟨.identifier, "d", place 21 22⟩,
    ⟨.eof, "EOF", place 22 22⟩]

theorem read_only_grouping_mixedRow :
    Token.isRow mixedRow.rest = true ∧
      ∃ (e : Expr) (d : Cursor) (fewer : d.rest.length < mixedRow.size),
        read .logical mixedRow = .ok ⟨e, d, fewer⟩ ∧
          d.rest = mixedRow.rest.dropWhile (Token.within .logical) ∧
          ∀ e' : Expr,
            e'.InOrder (mixedRow.rest.takeWhile (Token.within .logical)) ∧ e'.Grouped ↔ e' = e :=
  ⟨by decide +kernel, read_only_grouping .logical mixedRow (by decide +kernel)⟩

end Expr

end ShapeLang
