import ShapeLang.Tree.Parser
import ShapeLang.Proofs.Spelling

/-!
# Reading annotations and classes back

Reading depends on the kinds and texts of the tokens ahead only. Each rule of the syntax
becomes a lemma: lexemes that are read as the parts of a tree, put together as the rule
says, are read as the tree. The parser is shown to stop after them by what follows.
-/

namespace ShapeLang

open Lexeme

namespace Lexeme

variable {ls : List Lexeme}

def leading : List Lexeme → Token.Kind
  | [] => .eof
  | l :: _ => l.kind

@[simp] theorem leading_cons (l : Lexeme) (ls : List Lexeme) : leading (l :: ls) = l.kind := rfl

theorem leading_append (some_ : leading ls ≠ .eof) (more : List Lexeme) :
    leading (ls ++ more) = leading ls := by
  cases ls with
  | nil => exact absurd rfl some_
  | cons l ls => rfl

section

variable {p : Token.Kind → Bool} (starts : p (leading ls) = true) (inner : p .eof = false)
include starts inner

/-- Lexemes that start with a kind of some class start so before others too. -/
theorem leading_append_of (more : List Lexeme) : leading (ls ++ more) = leading ls := by
  refine leading_append (fun eof => ?_) more
  rw [eof, inner] at starts
  cases starts

theorem leading_ne_of {kind : Token.Kind} (other : p kind = false) (more : List Lexeme) :
    leading (ls ++ more) ≠ kind := by
  intro same
  rw [← leading_append_of starts inner more, same, other] at starts
  cases starts

end

/-- What stands behind the first piece: the mark with the other pieces, or what follows them. -/
theorem separated_cons {α : Type} (kind : Token.Kind) (f : α → List Lexeme) (a : α) (as : List α)
    (more : List Lexeme) : ∃ behind,
      separated kind ((a :: as).map f) ++ more = f a ++ behind ∧
        (as = [] ∧ behind = more ∨
          as ≠ [] ∧ behind = mark kind :: (separated kind (as.map f) ++ more)) := by
  cases as with
  | nil => exact ⟨more, by simp [separated], .inl ⟨rfl, rfl⟩⟩
  | cons b as => exact ⟨_, by simp [separated], .inr ⟨by simp, rfl⟩⟩

theorem tupled_opens (pieces : List (List Lexeme)) :
    ∃ body, tupled pieces = mark .openParen :: body := by
  unfold tupled
  split <;> exact ⟨_, rfl⟩

end Lexeme

namespace Cursor

variable {c : Cursor} {l : Lexeme} {more : List Lexeme} {kind : Token.Kind}

def ahead (c : Cursor) : List Lexeme := c.rest.map Token.lexeme

theorem kind_eq_leading (c : Cursor) : c.kind = leading c.ahead := by
  obtain ⟨file, last, rest, stop, beyond⟩ := c
  cases rest <;> rfl

theorem next?_of_ahead (is : c.ahead = l :: more) :
    ∃ (t : Token) (d : Cursor) (fewer : d.rest.length < c.size),
      c.next? = some ⟨t, d, fewer⟩ ∧ t.kind = l.kind ∧ t.text = l.text ∧ d.ahead = more := by
  obtain ⟨file, last, rest, stop, beyond⟩ := c
  cases rest with
  | nil => cases is
  | cons t ts =>
    obtain ⟨rfl, rfl⟩ := List.cons.inj is
    exact ⟨t, _, _, rfl, rfl, rfl, rfl⟩

theorem take?_mark (is : c.ahead = mark kind :: more) :
    ∃ (t : Token) (d : Cursor) (fewer : d.rest.length < c.size),
      c.take? kind = some ⟨t, d, fewer⟩ ∧ d.ahead = more := by
  obtain ⟨t, d, fewer, next, same, _, rest⟩ := next?_of_ahead is
  refine ⟨t, d, fewer, ?_, rest⟩
  rw [take?, next]
  exact if_pos same

theorem take?_eq_none (other : leading c.ahead ≠ kind) : c.take? kind = none := by
  cases ahead : c.ahead with
  | nil =>
    have none_ : c.next? = none := by
      obtain ⟨file, last, rest, stop, beyond⟩ := c
      cases rest with
      | nil => rfl
      | cons t ts => cases ahead
    rw [take?, none_]
  | cons l more =>
    obtain ⟨t, d, fewer, next, same, _, _⟩ := next?_of_ahead ahead
    rw [take?, next]
    rw [ahead] at other
    exact if_neg (fun is => other (same.symm.trans is))

theorem peek_one (m : Lexeme) (is : c.ahead = l :: m :: more) : c.peek 1 = m.kind := by
  obtain ⟨file, last, rest, stop, beyond⟩ := c
  rcases rest with _ | ⟨t, _ | ⟨u, us⟩⟩
  · cases is
  · cases is
  · obtain ⟨rfl, rest⟩ := List.cons.inj is
    obtain ⟨rfl, rfl⟩ := List.cons.inj rest
    rfl

end Cursor

namespace Reads

variable {α β : Type} {n m : Nat} {x : Reads α n} {good fine : α → Prop}
  {mid more : List Lexeme}

/-- Reading succeeds with a value that is as it should be, up to where `more` is ahead. -/
def Finds (x : Reads α n) (good : α → Prop) (more : List Lexeme) : Prop :=
  ∃ p, x = .ok p ∧ good p.value ∧ p.cursor.ahead = more

namespace Finds

theorem pure {value : α} {d : Cursor} {fewer : d.rest.length < n} (is : good value)
    (rest : d.ahead = more) : Finds (n := n) (Pure.pure ⟨value, d, fewer⟩) good more :=
  ⟨_, rfl, is, rest⟩

/-- What is found first leads to a cursor from which the rest is found. -/
theorem bind {f : Parsed α n → Reads β m} {fine : β → Prop} (first : Finds x good mid)
    (rest : ∀ value d (fewer : d.rest.length < n), good value → d.ahead = mid →
      Finds (f ⟨value, d, fewer⟩) fine more) : Finds (x >>= f) fine more := by
  obtain ⟨⟨value, d, fewer⟩, rfl, is, ahead⟩ := first
  exact rest value d fewer is ahead

theorem imp (found : Finds x good more) (weaker : ∀ value, good value → fine value) :
    Finds x fine more := by
  obtain ⟨p, read, is, ahead⟩ := found
  exact ⟨p, read, weaker _ is, ahead⟩

end Finds

end Reads

open Reads (Finds)

namespace Cursor

variable {c : Cursor} {l : Lexeme} {more : List Lexeme} {kind : Token.Kind}

theorem take_finds (is : c.ahead = mark kind :: more) :
    Finds (c.take kind) (fun _ => True) more := by
  obtain ⟨t, d, fewer, taken, rest⟩ := take?_mark is
  rw [take, takeOr, taken]
  exact .pure trivial rest

theorem takeName_finds (r : Rejection) {text : String} (is : c.ahead = .name text :: more) :
    Finds (c.takeOr .identifier r) (·.text = text) more := by
  obtain ⟨t, d, fewer, next, same, text, rest⟩ := next?_of_ahead is
  rw [takeOr, take?, next]
  dsimp only
  rw [if_pos (show t.kind = .identifier from same)]
  exact .pure text rest

/-- Names with commas between them are read as the list of the names. -/
theorem readNames_finds (refuse : Cursor → Rejection) (names : List String) :
    ∀ {c : Cursor} {more : List Lexeme}, names ≠ [] → leading more ≠ .comma →
      c.ahead = separated .comma (names.map ([.name ·])) ++ more →
      Finds (c.readNames refuse) (· = names) more := by
  induction names with
  | nil => exact fun some_ => absurd rfl some_
  | cons name names ih =>
    intro c more _ stops is
    obtain ⟨behind, split, follows⟩ := separated_cons .comma ([.name ·]) name names more
    rw [readNames]
    refine (takeName_finds _ (is.trans split)).bind ?_
    intro first d _ text rest
    dsimp only
    rcases follows with ⟨rfl, rfl⟩ | ⟨some_, rfl⟩
    · rw [take?_eq_none (rest ▸ stops)]
      exact .pure (by rw [text]) rest
    · obtain ⟨_, e, _, taken, rest⟩ := take?_mark rest
      rw [taken]
      refine (ih some_ stops rest).bind ?_
      intro others f _ same rest
      exact .pure (by rw [text, same]) rest

/-- The names of generics, or nothing where there are none. -/
theorem readGenericNames_finds {names : List String} (other : leading more ≠ .less)
    (is : c.ahead = angled (names.map ([.name ·])) ++ more) :
    Finds c.readGenericNames (· = names) more := by
  rw [readGenericNames]
  cases names with
  | nil =>
    replace is : c.ahead = more := is
    rw [take?_eq_none (is ▸ other)]
    exact .pure rfl is
  | cons name names =>
    replace is : c.ahead = mark .less ::
        (separated .comma ((name :: names).map ([.name ·])) ++ mark .greater :: more) := by
      simpa [angled] using is
    obtain ⟨_, d, _, taken, rest⟩ := take?_mark is
    rw [taken]
    refine (readNames_finds _ _ (by simp) (by simp) rest).bind ?_
    intro found e _ same rest
    refine (take_finds rest).bind ?_
    intro _ g _ _ rest
    exact .pure same rest

end Cursor

namespace TypeTerm

/-- The lexemes do not go on with an annotation before them. -/
structure Ends (more : List Lexeme) : Prop where
  suffix : (leading more).suffixPower? = none
  generics : leading more ≠ .less
  result : leading more ≠ .arrow

/-- The lexemes are read as the annotation wherever nothing after them goes on with it. -/
structure ReadsAs (ls : List Lexeme) (a : TypeTerm) : Prop where
  starts : (leading ls).startsTypeTerm = true
  reads : ∀ {c : Cursor} {more : List Lexeme}, c.ahead = ls ++ more → Ends more →
    Finds (read .default c) (·.unplaced = a.unplaced) more

variable {ls mid more : List Lexeme} {a left : TypeTerm} {as : List TypeTerm} {c : Cursor}
  {power : Power} {good fine : TypeTerm → Prop} {f : TypeTerm → List Lexeme} {span : Span}

/-- An annotation begins with a lexeme that no other construct waits for. -/
theorem ReadsAs.take?_eq_none (is : ReadsAs ls a) {kind : Token.Kind}
    (other : kind.startsTypeTerm = false) (ahead : c.ahead = ls ++ more) :
    c.take? kind = none :=
  Cursor.take?_eq_none (ahead ▸ leading_ne_of is.starts rfl other more)

theorem Ends.of_mark {kind : Token.Kind} (suffix : kind.suffixPower? = none)
    (generics : kind ≠ .less) (result : kind ≠ .arrow) : Ends (mark kind :: more) :=
  ⟨suffix, generics, result⟩

/-- Reading suffixes that bind tighter than the power stops before the lexemes. -/
def Stops (power : Power) (more : List Lexeme) : Prop :=
  ∀ tightness, (leading more).suffixPower? = some tightness → tightness.rank ≤ power.rank

theorem Ends.stops (ends : Ends more) : Stops power more := by
  simp [Stops, ends.suffix]

/-- The lexemes do not go on with an annotation that is read at the power. -/
structure EndsAt (power : Power) (more : List Lexeme) : Prop where
  stops : Stops power more
  generics : leading more ≠ .less
  result : leading more ≠ .arrow

theorem Ends.at (ends : Ends more) : EndsAt power more :=
  ⟨ends.stops, ends.generics, ends.result⟩

theorem EndsAt.of_ampersand : EndsAt .logical (mark .ampersand :: more) :=
  ⟨by simp [Stops, Token.Kind.suffixPower?], by simp, by simp⟩

/-- The lexemes are read as the annotation at the power wherever nothing after them goes on
with it there. -/
def ReadsAt (power : Power) (ls : List Lexeme) (a : TypeTerm) : Prop :=
  ∀ {c : Cursor} {more : List Lexeme}, c.ahead = ls ++ more → EndsAt power more →
    Finds (read power c) (·.unplaced = a.unplaced) more

theorem readSuffixes_finds (is : good left) (stops : Stops power c.ahead) :
    Finds (readSuffixes power left c) good c.ahead := by
  rw [readSuffixes, c.kind_eq_leading]
  cases next : (leading c.ahead).suffixPower? with
  | none => exact .pure is rfl
  | some tightness =>
    dsimp only
    rw [if_pos (stops tightness next)]
    exact .pure is rfl

/-- A suffix that is tight enough is read, and then the ones behind it. -/
theorem readSuffixes_step {tightness : Power}
    (next : (leading c.ahead).suffixPower? = some tightness) (tighter : power.rank < tightness.rank)
    (step : Finds (readSuffix tightness left c) good mid)
    (rest : ∀ {longer : TypeTerm} {d : Cursor}, good longer → d.ahead = mid →
      Finds (readSuffixes power longer d) fine more) :
    Finds (readSuffixes power left c) fine more := by
  rw [readSuffixes, c.kind_eq_leading, next]
  dsimp only
  rw [if_neg (Nat.not_le.mpr tighter)]
  refine step.bind ?_
  intro longer d _ is ahead
  refine (rest is ahead).bind ?_
  intro whole e _ is ahead
  exact .pure is ahead

theorem read_suffixed (head : Finds (readHead c) good mid)
    (rest : ∀ {left : TypeTerm} {d : Cursor}, good left → d.ahead = mid →
      Finds (readSuffixes power left d) fine more) :
    Finds (read power c) fine more := by
  rw [read]
  refine head.bind ?_
  intro left d _ is ahead
  refine (rest is ahead).bind ?_
  intro whole e _ is ahead
  exact .pure is ahead

theorem read_finds (head : Finds (readHead c) good more) (stops : Stops power more) :
    Finds (read power c) good more :=
  read_suffixed head fun is ahead => ahead ▸ readSuffixes_finds is (ahead ▸ stops)

/-- The items up to the closing parenthesis are read one after the other. -/
theorem readItems_finds : ∀ {afterComma : Bool} {c : Cursor}, as ≠ [] →
    (∀ b ∈ as, ReadsAs (f b) b) →
    c.ahead = separated .comma (as.map f) ++ mark .closeParen :: more →
    Finds (readItems afterComma c)
      (fun found => found.1.map unplaced = as.map unplaced ∧ found.2 = false) more := by
  induction as with
  | nil => exact fun some_ => absurd rfl some_
  | cons a as ih =>
    intro afterComma c _ each ahead
    obtain ⟨behind, split, follows⟩ := separated_cons .comma f a as (mark .closeParen :: more)
    rw [split] at ahead
    have first := each a (by simp)
    have ends : Ends behind := by
      rcases follows with ⟨_, rfl⟩ | ⟨_, rfl⟩ <;> exact .of_mark rfl (by decide) (by decide)
    rw [readItems, first.take?_eq_none rfl ahead]
    refine (first.reads ahead ends).bind ?_
    intro value d _ same rest
    dsimp only
    rcases follows with ⟨rfl, rfl⟩ | ⟨some_, rfl⟩
    · rw [Cursor.take?_eq_none (by rw [rest]; simp)]
      refine (Cursor.take_finds rest).bind ?_
      intro _ e _ _ rest
      exact .pure ⟨by simpa using same, rfl⟩ rest
    · obtain ⟨_, e, _, taken, rest⟩ := Cursor.take?_mark rest
      rw [taken]
      refine (ih some_ (fun b among => each b (List.mem_cons_of_mem a among)) rest).bind ?_
      rintro ⟨others, trailing⟩ g _ ⟨sameOthers, no⟩ rest
      exact .pure ⟨by simpa [same] using sameOthers, no⟩ rest

/-- Annotations with commas between them are read as a list. -/
theorem readItems_separated (each : ∀ b ∈ as, ReadsAs (f b) b)
    (is : c.ahead = separated .comma (as.map f) ++ mark .closeParen :: more) :
    Finds (readItems false c)
      (fun found => found.1.map unplaced = as.map unplaced ∧ found.2 = false) more := by
  cases as with
  | nil =>
    obtain ⟨_, d, _, taken, rest⟩ := Cursor.take?_mark is
    rw [readItems, taken]
    exact .pure ⟨rfl, rfl⟩ rest
  | cons a as => exact readItems_finds (by simp) each is

theorem readItems_trailing (first : ReadsAs ls a)
    (is : c.ahead = ls ++ mark .comma :: mark .closeParen :: more) :
    Finds (readItems false c)
      (fun found => found.1.map unplaced = [a.unplaced] ∧ found.2 = true) more := by
  rw [readItems, first.take?_eq_none rfl is]
  refine (first.reads is (.of_mark rfl (by decide) (by decide))).bind ?_
  intro value d _ same rest
  obtain ⟨_, e, _, taken, rest⟩ := Cursor.take?_mark rest
  dsimp only
  rw [taken]
  dsimp only
  obtain ⟨_, g, _, closed, rest⟩ := Cursor.take?_mark rest
  rw [readItems, closed]
  exact .pure ⟨by simpa using same, rfl⟩ rest

/-- What is written as a tuple is read as one, with a comma if it has one item. -/
theorem readItems_tupled (each : ∀ b ∈ as, ReadsAs (f b) b)
    (is : mark .openParen :: c.ahead = tupled (as.map f) ++ more) :
    Finds (readItems false c)
      (fun found => found.1.map unplaced = as.map unplaced ∧
        (as.length = 1 → found.2 = true)) more := by
  rcases as with _ | ⟨a, _ | ⟨b, as⟩⟩
  · refine (readItems_separated each (List.cons.inj is).2).imp ?_
    exact fun found is => ⟨is.1, by simp⟩
  · have first := each a (by simp)
    have ahead : c.ahead = f a ++ mark .comma :: mark .closeParen :: more := by
      simpa [tupled, parens] using is
    refine (readItems_trailing first ahead).imp ?_
    exact fun found is => ⟨is.1, fun _ => is.2⟩
  · have ahead : c.ahead =
        separated .comma ((a :: b :: as).map f) ++ mark .closeParen :: more := by
      simpa [tupled, parens] using is
    refine (readItems_separated each ahead).imp ?_
    exact fun found is => ⟨is.1, by simp⟩

/-- Parentheses around an annotation only group it. -/
theorem readHead_parens (is : ReadsAs ls a) (ahead : c.ahead = parens ls ++ more)
    (other : leading more ≠ .arrow) : Finds (readHead c) (·.unplaced = a.unplaced) more := by
  obtain ⟨t, d, _, next, kind, _, rest⟩ := Cursor.next?_of_ahead ahead
  rw [readHead, next]
  dsimp only
  rw [kind]
  have items : Finds (readItems false d)
      (fun found => found.1.map unplaced = [a].map unplaced ∧ found.2 = false) more :=
    readItems_separated (f := fun _ => ls) (by simpa using is)
      (by simpa [parens, separated] using rest)
  refine items.bind ?_
  rintro ⟨items, trailing⟩ e _ ⟨same, rfl⟩ rest
  dsimp only
  rw [Cursor.take?_eq_none (rest ▸ other)]
  obtain ⟨inner, rfl⟩ := List.length_eq_one_iff.mp (by simpa using congrArg List.length same)
  exact .pure (by simpa using same) rest

/-- Generics are read one after the other, up to a lexeme that is no comma. -/
theorem readGenerics_finds (stops : leading more ≠ .comma) (ends : Ends more) :
    ∀ {c : Cursor}, as ≠ [] → (∀ b ∈ as, ReadsAs (f b) b) →
      c.ahead = separated .comma (as.map f) ++ more →
      Finds (readGenerics c) (·.map unplaced = as.map unplaced) more := by
  induction as with
  | nil => exact fun some_ => absurd rfl some_
  | cons a as ih =>
    intro c _ each ahead
    obtain ⟨behind, split, follows⟩ := separated_cons .comma f a as more
    have ends : Ends behind := by
      rcases follows with ⟨_, rfl⟩ | ⟨_, rfl⟩
      · exact ends
      · exact .of_mark rfl (by decide) (by decide)
    rw [readGenerics]
    refine ((each a (by simp)).reads (ahead.trans split) ends).bind ?_
    intro value d _ same rest
    dsimp only
    rcases follows with ⟨rfl, rfl⟩ | ⟨some_, rfl⟩
    · rw [Cursor.take?_eq_none (rest ▸ stops)]
      exact .pure (by simpa using same) rest
    · obtain ⟨_, e, _, taken, rest⟩ := Cursor.take?_mark rest
      rw [taken]
      refine (ih some_ (fun b among => each b (List.mem_cons_of_mem a among)) rest).bind ?_
      intro others g _ sameOthers rest
      exact .pure (by simpa [same] using sameOthers) rest

theorem readHead_noneType (ahead : c.ahead = mark .noneWord :: more) :
    Finds (readHead c) (·.unplaced = (TypeTerm.noneType span).unplaced) more := by
  obtain ⟨t, d, _, next, kind, _, rest⟩ := Cursor.next?_of_ahead ahead
  rw [readHead, next]
  dsimp only
  rw [kind]
  exact .pure rfl rest

/-- A tuple is read as one unless an arrow follows, which would make it the parameters of a
function. -/
theorem readHead_tuple (each : ∀ b ∈ as, ReadsAs (f b) b)
    (ahead : c.ahead = tupled (as.map f) ++ more) (other : leading more ≠ .arrow) :
    Finds (readHead c) (·.unplaced = (TypeTerm.tuple as span).unplaced) more := by
  obtain ⟨body, opens⟩ := tupled_opens (as.map f)
  obtain ⟨t, d, _, next, kind, _, rest⟩ := Cursor.next?_of_ahead (opens ▸ ahead)
  rw [readHead, next]
  dsimp only
  rw [kind]
  have inside : mark .openParen :: d.ahead = tupled (as.map f) ++ more := by
    rw [opens, rest]
    rfl
  refine (readItems_tupled each inside).bind ?_
  rintro ⟨items, trailing⟩ e _ ⟨same, one⟩ rest
  dsimp only
  rw [Cursor.take?_eq_none (rest ▸ other)]
  have length : items.length = as.length := by simpa using congrArg List.length same
  rcases items with _ | ⟨x, _ | ⟨y, items⟩⟩
  · exact .pure (by simp [unplaced, ← same]) rest
  · rw [show trailing = true from one length.symm]
    exact .pure (by simp [unplaced, ← same]) rest
  · exact .pure (by simp [unplaced, ← same]) rest

theorem readHead_named (name : String) (each : ∀ b ∈ as, ReadsAs (f b) b)
    (ahead : c.ahead = .name name :: angled (as.map f) ++ more) (other : leading more ≠ .less) :
    Finds (readHead c) (·.unplaced = (TypeTerm.named name as span).unplaced) more := by
  obtain ⟨t, d, _, next, kind, text, rest⟩ := Cursor.next?_of_ahead ahead
  rw [readHead, next]
  dsimp only
  rw [kind]
  cases as with
  | nil =>
    replace rest : d.ahead = more := rest
    dsimp only [Lexeme.name]
    rw [Cursor.take?_eq_none (rest ▸ other)]
    exact .pure (by rw [text]; rfl) rest
  | cons a as =>
    replace rest : d.ahead =
        mark .less :: (separated .comma ((a :: as).map f) ++ mark .greater :: more) := by
      simpa [angled] using rest
    obtain ⟨_, e, _, taken, rest⟩ := Cursor.take?_mark rest
    dsimp only [Lexeme.name]
    rw [taken]
    have ends : Ends (mark .greater :: more) := .of_mark rfl (by decide) (by decide)
    refine (readGenerics_finds (by simp) ends (by simp) each rest).bind ?_
    intro generics g _ same rest
    refine (Cursor.take_finds rest).bind ?_
    intro _ h _ _ rest
    exact .pure (by simp [unplaced, same, text]; rfl) rest

/-- A parameter list with an arrow and a result behind it. -/
theorem readHead_function {result : TypeTerm} (each : ∀ b ∈ as, ReadsAs (f b) b)
    (result_ : ∀ {d : Cursor}, d.ahead = ls ++ more →
      Finds (read .logical d) (·.unplaced = result.unplaced) more)
    (ahead : c.ahead = Lexeme.parens (separated .comma (as.map f)) ++ mark .arrow :: ls ++ more) :
    Finds (readHead c) (·.unplaced = (TypeTerm.function ⟨as, result, span⟩).unplaced) more := by
  obtain ⟨t, d, _, next, kind, _, rest⟩ := Cursor.next?_of_ahead ahead
  rw [readHead, next]
  dsimp only
  rw [kind]
  have inside : d.ahead = separated .comma (as.map f) ++
      mark .closeParen :: mark .arrow :: (ls ++ more) := by
    simpa using rest
  refine (readItems_separated each inside).bind ?_
  rintro ⟨items, trailing⟩ e _ ⟨same, _⟩ rest
  obtain ⟨_, g, _, taken, rest⟩ := Cursor.take?_mark rest
  dsimp only
  rw [taken]
  refine (result_ rest).bind ?_
  intro value h _ sameResult rest
  exact .pure (by simp [unplaced, Signature.unplaced, same, sameResult]) rest

theorem readSuffix_array (same : left.unplaced = a.unplaced)
    (ahead : c.ahead = brackets [] ++ more) :
    Finds (readSuffix power left c) (·.unplaced = (TypeTerm.array a span).unplaced) more := by
  obtain ⟨t, d, _, next, kind, _, rest⟩ := Cursor.next?_of_ahead ahead
  rw [readSuffix, next]
  dsimp only
  rw [kind]
  refine (Cursor.take_finds rest).bind ?_
  intro _ g _ _ rest
  exact .pure (by simp [unplaced, same]) rest

theorem readSuffix_maybe (same : left.unplaced = a.unplaced)
    (ahead : c.ahead = [mark .question] ++ more) :
    Finds (readSuffix power left c) (·.unplaced = (TypeTerm.maybe a span).unplaced) more := by
  obtain ⟨t, d, _, next, kind, _, rest⟩ := Cursor.next?_of_ahead ahead
  rw [readSuffix, next]
  dsimp only
  rw [kind]
  exact .pure (by simp [unplaced, same]) rest

/-- Parentheses around an annotation are no part of it. -/
theorem read_parens (is : ReadsAs ls a) (ahead : c.ahead = parens ls ++ more)
    (other : leading more ≠ .arrow) (stops : Stops power more) :
    Finds (read power c) (·.unplaced = a.unplaced) more :=
  read_finds (readHead_parens is ahead other) stops

theorem ReadsAs.parens_at (is : ReadsAs ls a) : ReadsAt power (parens ls) a :=
  fun ahead ends => read_parens is ahead ends.result ends.stops

namespace ReadsAs

theorem of_head (starts : (leading ls).startsTypeTerm = true)
    (head : ∀ {c : Cursor} {more : List Lexeme}, c.ahead = ls ++ more → Ends more →
      Finds (readHead c) (·.unplaced = a.unplaced) more) : ReadsAs ls a :=
  ⟨starts, fun ahead ends => read_finds (head ahead ends) ends.stops⟩

theorem parens (is : ReadsAs ls a) : ReadsAs (parens ls) a :=
  .of_head rfl fun ahead ends => readHead_parens is ahead ends.result

theorem whole (style : Style) (is : ReadsAs ls a) : ReadsAs (style.whole ls) a := by
  unfold Style.whole
  split
  · exact is.parens
  · exact is

theorem noneType : ReadsAs [mark .noneWord] (.noneType span) :=
  .of_head rfl fun ahead _ => readHead_noneType ahead

theorem tuple (each : ∀ b ∈ as, ReadsAs (f b) b) :
    ReadsAs (tupled (as.map f)) (.tuple as span) := by
  obtain ⟨body, opens⟩ := tupled_opens (as.map f)
  exact .of_head (by rw [opens]; rfl) fun ahead ends => readHead_tuple each ahead ends.result

theorem named (name : String) (each : ∀ b ∈ as, ReadsAs (f b) b) :
    ReadsAs (.name name :: angled (as.map f)) (.named name as span) :=
  .of_head rfl fun ahead ends => readHead_named name each ahead ends.generics

theorem function {result : TypeTerm} (each : ∀ b ∈ as, ReadsAs (f b) b)
    (result_ : ReadsAs ls result) :
    ReadsAs (Lexeme.parens (separated .comma (as.map f)) ++ mark .arrow :: Lexeme.parens ls)
      (.function ⟨as, result, span⟩) :=
  .of_head rfl fun ahead ends =>
    readHead_function each (fun rest => read_parens result_ rest ends.result ends.stops) ahead

/-- One suffix after an annotation in parentheses. -/
theorem suffixed {suffix : List Lexeme} {b : TypeTerm} (is : ReadsAs ls a) (tightness : Power)
    (next : (leading suffix).suffixPower? = some tightness)
    (step : ∀ {left : TypeTerm} {d : Cursor} {more : List Lexeme},
      left.unplaced = a.unplaced → d.ahead = suffix ++ more →
      Finds (readSuffix tightness left d) (·.unplaced = b.unplaced) more) :
    ReadsAs (Lexeme.parens ls ++ suffix) b := by
  have some_ : leading suffix ≠ .eof := fun eof => by simp [eof, Token.Kind.suffixPower?] at next
  have other : leading suffix ≠ .arrow := fun is => by simp [is, Token.Kind.suffixPower?] at next
  have looser : Power.default.rank < tightness.rank := by
    revert next
    cases leading suffix <;> simp [Token.Kind.suffixPower?] <;> rintro rfl <;> decide
  refine ⟨rfl, fun {c more} ahead ends => ?_⟩
  rw [List.append_assoc] at ahead
  have follows := Lexeme.leading_append some_ more
  refine read_suffixed (readHead_parens is ahead (follows ▸ other)) fun {left d} same rest => ?_
  refine readSuffixes_step (by rw [rest, follows, next]) looser (step same rest) ?_
  exact fun is ahead => ahead ▸ readSuffixes_finds is (ahead ▸ ends.stops)

theorem array (is : ReadsAs ls a) :
    ReadsAs (Lexeme.parens ls ++ brackets []) (.array a span) :=
  is.suffixed .call rfl readSuffix_array

theorem maybe (is : ReadsAs ls a) :
    ReadsAs (Lexeme.parens ls ++ [mark .question]) (.maybe a span) :=
  is.suffixed .call rfl readSuffix_maybe

end ReadsAs

/-- Whether an annotation is one of functions does not hang on its places. -/
theorem signatures?_of_unplaced {b : TypeTerm} {members : List Signature}
    (same : a.unplaced = b.unplaced) (is : b.signatures? = some members) :
    ∃ mine, a.signatures? = some mine ∧
      mine.map Signature.unplaced = members.map Signature.unplaced := by
  have both := a.signatures?_unplaced
  rw [same, b.signatures?_unplaced, is] at both
  obtain ⟨mine, is, same⟩ := Option.map_eq_some_iff.mp both.symm
  exact ⟨mine, is, same⟩

section

variable {members mine before : List Signature}

/-- An ampersand with a function type behind it adds to the overloads before it. -/
theorem readSuffix_overload {s : Signature} (leftIs : left.signatures? = some mine)
    (same : mine.map Signature.unplaced = before.map Signature.unplaced)
    (is : ReadsAt .logical ls (.function s)) (ahead : c.ahead = mark .ampersand :: ls ++ more)
    (ends : EndsAt .logical more) :
    Finds (readSuffix .logical left c)
      (fun longer => ∃ all span, longer = .overloads all span ∧
        all.map Signature.unplaced = (before ++ [s]).map Signature.unplaced) more := by
  obtain ⟨t, d, _, next, kind, _, rest⟩ := Cursor.next?_of_ahead ahead
  rw [readSuffix, next]
  dsimp only
  rw [kind]
  rw [leftIs]
  refine (is rest ends).bind ?_
  intro right e _ sameRight rest
  obtain ⟨others, rightIs, sameOthers⟩ := signatures?_of_unplaced sameRight rfl
  dsimp only
  rw [rightIs]
  exact .pure ⟨_, _, rfl, by simp [same, sameOthers]⟩ rest

/-- Each further signature behind an ampersand is added to those read so far. -/
theorem readSuffixes_overloads {f : Signature → List Lexeme} (ends : Ends more) :
    ∀ {left : TypeTerm} {c : Cursor} {mine before : List Signature},
      left.signatures? = some mine →
      mine.map Signature.unplaced = before.map Signature.unplaced → members ≠ [] →
      (∀ s ∈ members, ReadsAt .logical (f s) (.function s)) →
      c.ahead = members.flatMap (fun s => mark .ampersand :: f s) ++ more →
      Finds (readSuffixes .default left c)
        (·.unplaced = (TypeTerm.overloads (before ++ members) span).unplaced) more := by
  -- What is read so far brings the members in `before`; each round moves one member there.
  induction members with
  | nil => exact fun _ _ some_ => absurd rfl some_
  | cons s members ih =>
    intro left c mine before leftIs same _ each ahead
    rw [List.flatMap_cons, List.append_assoc] at ahead
    have first : ReadsAt .logical (f s) (.function s) := each s (by simp)
    cases members with
    | nil =>
      refine readSuffixes_step (by rw [ahead]; rfl) (by decide)
        (readSuffix_overload leftIs same first ahead ends.at) ?_
      rintro _ d ⟨all, span, rfl, same⟩ rfl
      exact readSuffixes_finds (by simp [unplaced, same]) ends.stops
    | cons next members =>
      -- The member is read with the power of the ampersand, so the next ampersand ends it.
      refine readSuffixes_step (by rw [ahead]; rfl) (by decide)
        (readSuffix_overload leftIs same first ahead .of_ampersand) ?_
      rintro _ d ⟨all, span, rfl, same⟩ ahead
      refine (ih rfl same (by simp) (fun s among => each s (by simp [among])) ahead).imp ?_
      simp

theorem ReadsAs.overloads {f : Signature → List Lexeme} (two : 2 ≤ members.length)
    (each : ∀ s ∈ members, ReadsAs (f s) (.function s)) :
    ReadsAs (separated .ampersand (members.map fun s => Lexeme.parens (f s)))
      (.overloads members span) := by
  rcases members with _ | ⟨s, _ | ⟨next, members⟩⟩
  · simp at two
  · simp at two
  refine ⟨rfl, fun {c more} ahead ends => ?_⟩
  rw [List.map_cons, separated, List.append_assoc, List.flatMap_map] at ahead
  refine read_suffixed (readHead_parens (each s (by simp)) ahead (by simp)) ?_
  intro left d same rest
  obtain ⟨mine, leftIs, same⟩ := signatures?_of_unplaced same rfl
  refine (readSuffixes_overloads ends leftIs same (by simp) ?_ rest).imp fun _ is => is
  exact fun s among => (each s (List.mem_cons_of_mem _ among)).parens_at

end

end TypeTerm

mutual

/-- An annotation is read back from its lexemes. -/
theorem TypeTerm.readsAs : (a : TypeTerm) → a.wellFormed = true → TypeTerm.ReadsAs a.lexemes a
  | .named name generics _, fine => by
    rw [TypeTerm.wellFormed] at fine
    rw [TypeTerm.lexemes, TypeTerm.pieces_eq]
    exact .named name fun b among => (TypeTerm.readAsAll generics fine b among).parens
  | .noneType _, _ => .noneType
  | .tuple items _, fine => by
    rw [TypeTerm.wellFormed] at fine
    rw [TypeTerm.lexemes, TypeTerm.pieces_eq]
    exact .tuple fun b among => (TypeTerm.readAsAll items fine b among).parens
  | .function signature, fine => Signature.readsAs signature fine
  | .overloads members _, fine => by
    rw [TypeTerm.wellFormed, Bool.and_eq_true, decide_eq_true_eq] at fine
    rw [TypeTerm.lexemes, Signature.pieces_eq]
    exact .overloads fine.1 (Signature.readAsAll members fine.2)
  | .array item _, fine => (TypeTerm.readsAs item fine).array
  | .maybe item _, fine => (TypeTerm.readsAs item fine).maybe
termination_by structural a => a

theorem TypeTerm.readAsAll : (as : List TypeTerm) → TypeTerm.wellFormedAll as = true →
    ∀ a ∈ as, TypeTerm.ReadsAs a.lexemes a
  | [], _ => by simp
  | a :: as, fine => by
    rw [TypeTerm.wellFormedAll, Bool.and_eq_true] at fine
    exact List.forall_mem_cons.mpr ⟨TypeTerm.readsAs a fine.1, TypeTerm.readAsAll as fine.2⟩
termination_by structural as => as

theorem Signature.readsAs : (s : Signature) → s.wellFormed = true →
    TypeTerm.ReadsAs s.lexemes (.function s)
  | ⟨params, result, _⟩, fine => by
    rw [Signature.wellFormed, Bool.and_eq_true] at fine
    rw [Signature.lexemes, TypeTerm.pieces_eq]
    exact .function (fun b among => (TypeTerm.readAsAll params fine.1 b among).parens)
      (TypeTerm.readsAs result fine.2)
termination_by structural s => s

theorem Signature.readAsAll : (ss : List Signature) → Signature.wellFormedAll ss = true →
    ∀ s ∈ ss, TypeTerm.ReadsAs s.lexemes (.function s)
  | [], _ => by simp
  | s :: ss, fine => by
    rw [Signature.wellFormedAll, Bool.and_eq_true] at fine
    exact List.forall_mem_cons.mpr ⟨Signature.readsAs s fine.1, Signature.readAsAll ss fine.2⟩
termination_by structural ss => ss

end

/-! ## Parameters and classes -/

/-- Parameters with commas between them are read as a list. -/
theorem Param.readList_finds {f : Param → List Lexeme} {more : List Lexeme} {params : List Param} :
    ∀ {c : Cursor}, (∀ p ∈ params, TypeTerm.ReadsAs (f p) p.term) →
      c.ahead = separated .comma (params.map fun p => .name p.name :: mark .colon :: f p) ++
        mark .closeParen :: more →
      Finds (Param.readList c) (·.map Param.unplaced = params.map Param.unplaced) more := by
  induction params with
  | nil =>
    intro c _ ahead
    obtain ⟨_, d, _, taken, rest⟩ := Cursor.take?_mark ahead
    rw [Param.readList, taken]
    exact .pure rfl rest
  | cons p params ih =>
    intro c each ahead
    obtain ⟨behind, split, follows⟩ := separated_cons .comma
      (fun p : Param => .name p.name :: mark .colon :: f p) p params (mark .closeParen :: more)
    replace ahead : c.ahead = .name p.name :: mark .colon :: (f p ++ behind) := ahead.trans split
    have ends : TypeTerm.Ends behind := by
      rcases follows with ⟨_, rfl⟩ | ⟨_, rfl⟩ <;> exact .of_mark rfl (by decide) (by decide)
    rw [Param.readList, Cursor.take?_eq_none (by rw [ahead]; simp [Lexeme.name])]
    refine (Cursor.takeName_finds _ ahead).bind ?_
    intro name d _ text rest
    refine (Cursor.take_finds rest).bind ?_
    intro _ e _ _ rest
    refine ((each p (by simp)).reads rest ends).bind ?_
    intro term g _ same rest
    dsimp only
    rcases follows with ⟨rfl, rfl⟩ | ⟨_, rfl⟩
    · rw [Cursor.take?_eq_none (by rw [rest]; simp)]
      refine (Cursor.take_finds rest).bind ?_
      intro _ h _ _ rest
      exact .pure (by simp [Param.unplaced, text, same]) rest
    · obtain ⟨_, h, _, taken, rest⟩ := Cursor.take?_mark rest
      rw [taken]
      refine (ih (fun q among => each q (List.mem_cons_of_mem p among)) rest).bind ?_
      intro others i _ sameOthers rest
      exact .pure (by simp [Param.unplaced, text, same, sameOthers]) rest

namespace ClassDecl

variable {style : Style} {ls more : List Lexeme} {c : Cursor}

/-- A constructor or a group of fields, as it is written. -/
def Part.lexemes (style : Style) : Part → List Lexeme
  | .constructor params => constructorLexemes style params
  | .fields group => group.lexemes style

def Part.wellFormed : Part → Bool
  | .constructor params => params.all TypeTerm.wellFormed
  | .fields group => group.wellFormed

def Part.unplaced : Part → Part
  | .constructor params => .constructor (params.map TypeTerm.unplaced)
  | .fields group => .fields group.unplaced

/-- The parts of a class in the order they are written in. -/
def parts (d : ClassDecl) : List Part :=
  d.constructors.map Part.constructor ++ d.fields.map Part.fields

/-- The names of fields are read one after the other, as names or as strings. -/
theorem readFieldNames_finds {names : List String} (stops : leading more ≠ .comma) :
    ∀ {c : Cursor}, names ≠ [] →
      c.ahead = separated .comma (names.map ([FieldGroup.fieldName style ·])) ++ more →
      Finds (readFieldNames c) (· = names) more := by
  induction names with
  | nil => exact fun some_ => absurd rfl some_
  | cons name names ih =>
    intro c _ ahead
    obtain ⟨behind, split, follows⟩ :=
      separated_cons .comma ([FieldGroup.fieldName style ·]) name names more
    obtain ⟨t, d, _, next, kind, text, rest⟩ := Cursor.next?_of_ahead (ahead.trans split)
    have named : t.kind = .identifier ∨ t.kind = .string := by
      rw [kind, FieldGroup.fieldName]
      split <;> simp
    rw [readFieldNames, next]
    dsimp only
    rw [if_pos named]
    rcases follows with ⟨rfl, rfl⟩ | ⟨some_, rfl⟩
    · rw [Cursor.take?_eq_none (rest ▸ stops)]
      exact .pure (by rw [text]; rfl) rest
    · obtain ⟨_, e, _, taken, rest⟩ := Cursor.take?_mark rest
      rw [taken]
      refine (ih some_ rest).bind ?_
      intro others g _ same rest
      exact .pure (by rw [text, same]; rfl) rest

/-- The lexemes are read as the part where a semicolon follows. -/
structure Part.ReadsAs (ls : List Lexeme) (part : Part) : Prop where
  starts : leading ls = .newWord ∨ leading ls = .identifier ∨ leading ls = .string
  reads : ∀ {c : Cursor} {more : List Lexeme}, c.ahead = ls ++ mark .semicolon :: more →
    Finds (readPart c) (·.unplaced = part.unplaced) (mark .semicolon :: more)

theorem Part.ReadsAs.constructor {params : List TypeTerm} {f : TypeTerm → List Lexeme}
    (each : ∀ a ∈ params, TypeTerm.ReadsAs (f a) a) :
    ReadsAs (mark .newWord :: parens (separated .comma (params.map f))) (.constructor params) := by
  refine ⟨.inl rfl, fun {c more} ahead => ?_⟩
  rw [readPart, c.kind_eq_leading, ahead]
  refine (Cursor.take_finds ahead).bind ?_
  intro _ d _ _ rest
  refine (Cursor.take_finds rest).bind ?_
  intro _ e _ _ rest
  refine (TypeTerm.readItems_separated each (by simpa using rest)).bind ?_
  rintro ⟨items, trailing⟩ g _ ⟨same, _⟩ rest
  exact .pure (by simp [Part.unplaced, same]) rest

theorem leading_fieldNames (style : Style) {names : List String} (some_ : names ≠ [])
    (more : List Lexeme) :
    leading (separated .comma (names.map ([FieldGroup.fieldName style ·])) ++ more) =
        .identifier ∨
      leading (separated .comma (names.map ([FieldGroup.fieldName style ·])) ++ more) =
        .string := by
  obtain ⟨name, names, rfl⟩ := List.exists_cons_of_ne_nil some_
  change (FieldGroup.fieldName style name).kind = .identifier ∨
    (FieldGroup.fieldName style name).kind = .string
  rw [FieldGroup.fieldName]
  split <;> simp

theorem Part.ReadsAs.fields {group : FieldGroup} (some_ : group.names ≠ [])
    (is : TypeTerm.ReadsAs ls group.term) :
    ReadsAs (separated .comma (group.names.map ([FieldGroup.fieldName style ·])) ++
      mark .colon :: ls) (.fields group) := by
  refine ⟨.inr (leading_fieldNames style some_ _), fun {c more} ahead => ?_⟩
  rw [List.append_assoc] at ahead
  have kind := leading_fieldNames style some_ (mark .colon :: ls ++ mark .semicolon :: more)
  rw [← ahead, ← c.kind_eq_leading] at kind
  rcases kind with kind | kind
  all_goals
    rw [readPart, kind]
    refine (readFieldNames_finds (by simp) some_ ahead).bind ?_
    intro names d _ sameNames rest
    refine (Cursor.take_finds rest).bind ?_
    intro _ e _ _ rest
    refine (is.reads rest (.of_mark rfl (by decide) (by decide))).bind ?_
    intro term g _ same rest
    exact .pure (by simp [Part.unplaced, FieldGroup.unplaced, sameNames, same]) rest

theorem Part.readsAs {part : Part} (fine : part.wellFormed = true) :
    ReadsAs (part.lexemes style) part := by
  cases part with
  | constructor params =>
    refine .constructor fun a among => (TypeTerm.readsAs a ?_).whole style
    exact List.all_eq_true.mp fine a among
  | fields group =>
    rw [Part.wellFormed, FieldGroup.wellFormed, Bool.and_eq_true] at fine
    exact .fields (by simpa using fine.1) ((TypeTerm.readsAs _ fine.2).whole style)

/-- Parts with a semicolon after each are read up to the brace that closes the class. -/
theorem readParts_finds {parts : List Part} {f : Part → List Lexeme} :
    ∀ {c : Cursor}, (∀ part ∈ parts, Part.ReadsAs (f part) part) →
      c.ahead = ended (parts.map f) ++ mark .closeCurly :: more →
      Finds (readParts c) (·.map Part.unplaced = parts.map Part.unplaced) more := by
  induction parts with
  | nil =>
    intro c _ ahead
    obtain ⟨_, d, _, taken, rest⟩ := Cursor.take?_mark ahead
    rw [readParts, taken]
    exact .pure rfl rest
  | cons part parts ih =>
    intro c each ahead
    have first := each part (by simp)
    replace ahead : c.ahead = f part ++ mark .semicolon ::
        (ended (parts.map f) ++ mark .closeCurly :: more) := by
      simpa [ended] using ahead
    have other : leading c.ahead ≠ .closeCurly := by
      rw [ahead]
      rcases first.starts with kind | kind | kind <;>
        rw [leading_append (by simp [kind]), kind] <;> simp
    rw [readParts, Cursor.take?_eq_none other]
    refine (first.reads ahead).bind ?_
    intro value d _ same rest
    obtain ⟨_, e, _, taken, behind⟩ := Cursor.take?_mark rest
    dsimp only
    rw [Cursor.take?_eq_none (by rw [rest]; simp)]
    dsimp only
    rw [taken]
    refine (ih (fun p among => each p (List.mem_cons_of_mem part among)) behind).bind ?_
    intro others g _ sameOthers rest
    exact .pure (by simp [same, sameOthers]) rest

/-- The classes that a class names as its supers are read one after the other. -/
theorem readSupers_finds {supers : List String} (colon : leading more ≠ .colon)
    (comma : leading more ≠ .comma) (ahead : c.ahead = supersLexemes supers ++ more) :
    Finds (readSupers c) (· = supers) more := by
  rw [readSupers]
  cases supers with
  | nil =>
    replace ahead : c.ahead = more := ahead
    rw [Cursor.take?_eq_none (ahead ▸ colon)]
    exact .pure rfl ahead
  | cons name names =>
    obtain ⟨_, d, _, taken, rest⟩ := Cursor.take?_mark ahead
    rw [taken]
    refine (Cursor.readNames_finds _ _ (by simp) comma rest).bind ?_
    intro found e _ same rest
    exact .pure same rest

theorem filterMap_of_unplaced {β : Type} {k : Part → Option β} {u : β → β}
    {found parts : List Part} (commutes : ∀ part, k part.unplaced = (k part).map u)
    (same : found.map Part.unplaced = parts.map Part.unplaced) :
    (found.filterMap k).map u = (parts.filterMap k).map u := by
  have each : ∀ ps : List Part, (ps.filterMap k).map u = (ps.map Part.unplaced).filterMap k := by
    intro ps
    rw [List.map_filterMap, List.filterMap_map]
    exact congrArg (List.filterMap · ps) (funext fun part => (commutes part).symm)
  rw [each, each, same]

theorem filterMap_parts {β : Type} (k : Part → Option β) (d : ClassDecl) :
    d.parts.filterMap k = d.constructors.filterMap (fun params => k (.constructor params)) ++
      d.fields.filterMap (fun group => k (.fields group)) := by
  rw [parts, List.filterMap_append, List.filterMap_map, List.filterMap_map]
  rfl

/-- A class is read back from what stands after the word `class`. -/
theorem read_finds {d : ClassDecl} {body : List Lexeme} (fine : d.wellFormed = true)
    (is : d.lexemes style = mark .classWord :: body) (ahead : c.ahead = body ++ more) :
    Finds (read c) (·.unplaced = d.unplaced) more := by
  have each : ∀ part ∈ d.parts, Part.ReadsAs (part.lexemes style) part := by
    rw [wellFormed, Bool.and_eq_true, List.all_eq_true, List.all_eq_true] at fine
    intro part among
    refine Part.readsAs ?_
    rcases List.mem_append.mp among with among | among
    · obtain ⟨params, listed, rfl⟩ := List.mem_map.mp among
      exact fine.1 params listed
    · obtain ⟨group, listed, rfl⟩ := List.mem_map.mp among
      exact fine.2 group listed
  replace ahead : c.ahead = .name d.name :: (angled (d.generics.map ([.name ·])) ++
      (supersLexemes d.supers ++ (mark .openCurly :: (ended (d.parts.map (Part.lexemes style)) ++
        mark .closeCurly :: more)))) := by
    rw [ahead, ← (List.cons.inj is).2]
    simp [parts, braces, Function.comp_def, Part.lexemes]
  have less : leading (supersLexemes d.supers ++ (mark .openCurly ::
      (ended (d.parts.map (Part.lexemes style)) ++ mark .closeCurly :: more))) ≠ .less := by
    unfold supersLexemes
    split <;> simp
  rw [read]
  refine (Cursor.takeName_finds _ ahead).bind ?_
  intro name c₁ _ sameName rest
  refine (Cursor.readGenericNames_finds less rest).bind ?_
  intro generics c₂ _ sameGenerics rest
  refine (readSupers_finds (by simp) (by simp) rest).bind ?_
  intro supers c₃ _ sameSupers rest
  refine (Cursor.take_finds rest).bind ?_
  intro _ c₄ _ _ rest
  refine (readParts_finds each rest).bind ?_
  intro found c₅ _ sameParts rest
  refine .pure ?_ rest
  simp only [unplaced, mk.injEq]
  refine ⟨sameName, sameGenerics, sameSupers, ?_, ?_⟩
  · rw [filterMap_of_unplaced (by rintro (_ | _) <;> rfl) sameParts, filterMap_parts]
    simp
  · rw [filterMap_of_unplaced (by rintro (_ | _) <;> rfl) sameParts, filterMap_parts]
    simp

end ClassDecl

end ShapeLang
