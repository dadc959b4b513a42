import ShapeLang.Proofs.Reading
import ShapeLang.Proofs.Shown

/-!
# Reading shown annotations back

What is shown of an annotation has no parentheses but those of tuples and of parameter lists.
It is read as the same annotation if it does not need any others: a suffix behind a function
type goes to its result, and so do overloads that follow it.
-/

namespace ShapeLang

open Lexeme

open Reads (Finds)

/-! ## Annotations that need no other parentheses -/

def TypeTerm.isOverloads : TypeTerm → Bool
  | .overloads .. => true
  | _ => false

mutual

/-- No function type stands under a suffix, and no overloads are the result of a function. -/
def TypeTerm.showable : TypeTerm → Bool
  | .named _ generics _ => TypeTerm.showableAll generics
  | .noneType _ => true
  | .tuple items _ => TypeTerm.showableAll items
  | .function signature => signature.showable
  | .overloads members _ => Signature.showableAll members
  | .array item _ => !item.isFunction && item.showable
  | .maybe item _ => !item.isFunction && item.showable

def TypeTerm.showableAll : List TypeTerm → Bool
  | [] => true
  | a :: as => a.showable && TypeTerm.showableAll as

def Signature.showable : Signature → Bool
  | ⟨params, result, _⟩ =>
      TypeTerm.showableAll params && !result.isOverloads && result.showable

def Signature.showableAll : List Signature → Bool
  | [] => true
  | s :: ss => s.showable && Signature.showableAll ss

end

theorem TypeTerm.showableAll_iff {as : List TypeTerm} :
    TypeTerm.showableAll as = true ↔ ∀ a ∈ as, a.showable = true := by
  induction as with
  | nil => simp [TypeTerm.showableAll]
  | cons a as ih => simp [TypeTerm.showableAll, ih]

theorem Signature.showableAll_iff {ss : List Signature} :
    Signature.showableAll ss = true ↔ ∀ s ∈ ss, s.showable = true := by
  induction ss with
  | nil => simp [Signature.showableAll]
  | cons s ss ih => simp [Signature.showableAll, ih]

/-! ## Reading what is shown -/

namespace TypeTerm

variable {ls : List Lexeme} {a : TypeTerm} {power inner : Power} {span : Span}

/-- Reading the lexemes comes to the suffixes behind them with the annotation on the left,
wherever nothing goes on with the end of the annotation at the inner power. -/
structure LeadsTo (inner : Power) (ls : List Lexeme) (a : TypeTerm) : Prop where
  starts : (leading ls).startsTypeTerm = true
  reads : ∀ {power : Power} {c : Cursor} {mid more : List Lexeme} {fine : TypeTerm → Prop},
    power.rank ≤ Power.logical.rank → c.ahead = ls ++ mid → EndsAt inner mid →
    (∀ {left : TypeTerm} {d : Cursor}, left.unplaced = a.unplaced → d.ahead = mid →
      Finds (readSuffixes power left d) fine more) →
    Finds (read power c) fine more

theorem EndsAt.mono {more : List Lexeme} (le : power.rank ≤ inner.rank)
    (ends : EndsAt power more) : EndsAt inner more :=
  ⟨fun tightness next => Nat.le_trans (ends.stops tightness next) le, ends.generics, ends.result⟩

/-- No suffix binds tighter than a call. -/
theorem EndsAt.of_call {more : List Lexeme} (ends : EndsAt power more) : EndsAt .call more := by
  refine ⟨fun tightness next => ?_, ends.generics, ends.result⟩
  revert next
  cases leading more <;> simp [Token.Kind.suffixPower?] <;> rintro rfl <;> decide

namespace LeadsTo

theorem of_head (starts : (leading ls).startsTypeTerm = true)
    (head : ∀ {c : Cursor} {more : List Lexeme}, c.ahead = ls ++ more → EndsAt inner more →
      Finds (readHead c) (·.unplaced = a.unplaced) more) : LeadsTo inner ls a :=
  ⟨starts, fun _ ahead ends rest => read_suffixed (head ahead ends) rest⟩

theorem logical (leads : LeadsTo .call ls a) : LeadsTo .logical ls a :=
  ⟨leads.starts, fun le ahead ends rest => leads.reads le ahead ends.of_call rest⟩

/-- What leads to an annotation is read as the annotation where no tighter suffix follows. -/
theorem readsAt (leads : LeadsTo .logical ls a) (le : power.rank ≤ Power.logical.rank) :
    ReadsAt power ls a :=
  fun ahead ends => leads.reads le ahead (ends.mono le) fun same rest =>
    rest ▸ readSuffixes_finds same (rest ▸ ends.stops)

/-- A suffix that binds as tightly as a call belongs to the annotation before it. -/
theorem suffixed {suffix : List Lexeme} {b : TypeTerm} (is : LeadsTo .call ls a)
    (next : (leading suffix).suffixPower? = some .call)
    (step : ∀ {left : TypeTerm} {d : Cursor} {more : List Lexeme},
      left.unplaced = a.unplaced → d.ahead = suffix ++ more →
      Finds (readSuffix .call left d) (·.unplaced = b.unplaced) more) :
    LeadsTo .call (ls ++ suffix) b := by
  refine ⟨by rw [leading_append_of is.starts rfl, is.starts], ?_⟩
  intro power c mid more fine le ahead ends rest
  have follows : leading (suffix ++ mid) = leading suffix :=
    leading_append (fun eof => by simp [eof, Token.Kind.suffixPower?] at next) mid
  have ends : EndsAt .call (suffix ++ mid) := by
    refine ⟨fun tightness is => ?_, ?_, ?_⟩
    · rw [follows, next] at is
      exact Nat.le_of_eq (congrArg Power.rank (Option.some.inj is).symm)
    · exact fun less => by simp [← follows, less, Token.Kind.suffixPower?] at next
    · exact fun arrow => by simp [← follows, arrow, Token.Kind.suffixPower?] at next
  rw [List.append_assoc] at ahead
  refine is.reads le ahead ends fun {left d} same behind => ?_
  have tighter : power.rank < Power.call.rank := Nat.lt_of_le_of_lt le (by decide)
  exact readSuffixes_step (by rw [behind, follows, next]) tighter (step same behind) rest

end LeadsTo

/-- What is shown of the annotation is read as it. Overloads are read only where nothing binds
tighter, and only what is no function type can stand before a suffix. -/
structure ReadsBack (a : TypeTerm) : Prop where
  whole : ReadsAs a.shown a
  single : a.isOverloads = false → LeadsTo .logical a.shown a
  operand : a.isFunction = false → LeadsTo .call a.shown a

namespace ReadsBack

theorem of_single (leads : LeadsTo .logical a.shown a)
    (operand : a.isFunction = false → LeadsTo .call a.shown a) : a.ReadsBack :=
  ⟨⟨leads.starts, fun ahead ends => leads.readsAt (by decide) ahead ends.at⟩, fun _ => leads,
    operand⟩

theorem of_operand (leads : LeadsTo .call a.shown a) : a.ReadsBack :=
  .of_single leads.logical fun _ => leads

/-- Overloads are shown with ampersands between them, and no parentheses are needed to read
them. -/
theorem overloads {members : List Signature} (two : 2 ≤ members.length)
    (each : ∀ s ∈ members, (function s).ReadsBack) : (overloads members span).ReadsBack := by
  rcases members with _ | ⟨s, _ | ⟨next, members⟩⟩
  · simp at two
  · simp at two
  have first := (each s (by simp)).single rfl
  have lexemes : (TypeTerm.overloads (s :: next :: members) span).shown =
      (function s).shown ++ (next :: members).flatMap fun s => mark .ampersand :: s.shown := by
    simp [shown, separated, List.flatMap_map]
  refine ⟨⟨?_, fun {c more} ahead ends => ?_⟩, fun no => absurd no (by simp [isOverloads]),
    fun no => absurd no (by simp [isFunction, signatures?])⟩
  · rw [lexemes, leading_append_of first.starts rfl, first.starts]
  · rw [lexemes, List.append_assoc] at ahead
    refine first.reads (by decide) ahead .of_ampersand fun {left d} same rest => ?_
    obtain ⟨mine, leftIs, same⟩ := signatures?_of_unplaced same rfl
    refine (readSuffixes_overloads ends leftIs same (by simp) ?_ rest).imp fun _ is => is
    exact fun s among => ((each s (List.mem_cons_of_mem _ among)).single rfl).readsAt (by decide)

end ReadsBack

/-- An annotation that needs no other parentheses is read back from what is shown of it. -/
theorem Legible.readsBack (legible : a.Legible) (showable : a.showable = true) : a.ReadsBack := by
  induction legible with
  | @named name generics span _ _ ih =>
    rw [TypeTerm.showable, showableAll_iff] at showable
    have each (g : TypeTerm) (among : g ∈ generics) : ReadsAs g.shown g :=
      (ih g among (showable g among)).whole
    refine .of_operand (.of_head rfl fun {c more} ahead ends => ?_)
    rw [shown, shownAll_eq] at ahead
    exact readHead_named name each ahead ends.generics
  | noneType => exact .of_operand (.of_head rfl fun ahead _ => readHead_noneType ahead)
  | @tuple items span _ ih =>
    rw [TypeTerm.showable, showableAll_iff] at showable
    have each (b : TypeTerm) (among : b ∈ items) : ReadsAs b.shown b :=
      (ih b among (showable b among)).whole
    obtain ⟨body, opens⟩ := tupled_opens (items.map shown)
    have lexemes : (TypeTerm.tuple items span).shown = tupled (items.map shown) := by
      rw [shown, shownAll_eq]
    refine .of_operand (.of_head (by rw [lexemes, opens]; rfl) fun {c more} ahead ends => ?_)
    exact readHead_tuple each (lexemes ▸ ahead) ends.result
  | @function params result span _ _ ih last =>
    simp only [TypeTerm.showable, Signature.showable, Bool.and_eq_true, showableAll_iff,
      Bool.not_eq_true'] at showable
    obtain ⟨⟨showable, single⟩, showable'⟩ := showable
    have each (p : TypeTerm) (among : p ∈ params) : ReadsAs p.shown p :=
      (ih p among (showable p among)).whole
    have result_ : ReadsAt .logical result.shown result :=
      ((last showable').single single).readsAt (by decide)
    have lexemes : (TypeTerm.function ⟨params, result, span⟩).shown =
        parens (separated .comma (params.map shown)) ++ mark .arrow :: result.shown := by
      rw [shown, Signature.shown, shownAll_eq]
    refine .of_single (.of_head (by rw [lexemes]; rfl) fun {c more} ahead ends => ?_)
      fun no => absurd no (by simp [isFunction, signatures?])
    exact readHead_function each (fun rest => result_ rest ends) (lexemes ▸ ahead)
  | @overloads members span two _ ih =>
    rw [TypeTerm.showable, Signature.showableAll_iff] at showable
    exact .overloads two fun s among => ih s among (showable s among)
  | @array item span _ ih =>
    simp only [TypeTerm.showable, Bool.and_eq_true, Bool.not_eq_true'] at showable
    exact .of_operand (((ih showable.2).operand showable.1).suffixed rfl readSuffix_array)
  | @maybe item span _ ih =>
    simp only [TypeTerm.showable, Bool.and_eq_true, Bool.not_eq_true'] at showable
    exact .of_operand (((ih showable.2).operand showable.1).suffixed rfl readSuffix_maybe)

end TypeTerm

/-! ## What is read is legible -/

def Cursor.Spelled (c : Cursor) : Prop :=
  ∀ t ∈ c.rest, t.kind = .identifier → Token.IsName t.text

namespace Cursor.Spelled

variable {c d : Cursor} {t : Token} {fewer : d.rest.length < c.size}

/-- The next token of a spelled cursor is a name if it is an identifier. -/
theorem next? (spelled : c.Spelled) (next : c.next? = some ⟨t, d, fewer⟩) :
    d.Spelled ∧ (t.kind = .identifier → Token.IsName t.text) := by
  obtain ⟨file, last, rest, stop, beyond⟩ := c
  cases rest with
  | nil => cases next
  | cons u us =>
    cases next
    exact ⟨fun v among => spelled v (List.mem_cons_of_mem _ among), spelled _ List.mem_cons_self⟩

theorem take? {kind : Token.Kind} (spelled : c.Spelled)
    (taken : c.take? kind = some ⟨t, d, fewer⟩) : d.Spelled := by
  unfold Cursor.take? at taken
  split at taken
  · rename_i read next
    split at taken
    · cases taken
      exact (spelled.next? next).1
    · cases taken
  · cases taken

end Cursor.Spelled

namespace Reads

variable {α β : Type} {n m : Nat} {x : Reads α n}

/-- What is read, if anything is, is as it should be, and the identifiers ahead are names. -/
def Makes (good : α → Prop) (x : Reads α n) : Prop :=
  ∀ p, x = .ok p → good p.value ∧ p.cursor.Spelled

namespace Makes

theorem pure {good : α → Prop} {value : α} {d : Cursor} {fewer : d.rest.length < n}
    (is : good value) (spelled : d.Spelled) :
    Makes (n := n) good (Pure.pure ⟨value, d, fewer⟩) := by
  rintro _ ⟨⟩
  exact ⟨is, spelled⟩

theorem error {good : α → Prop} {r : Rejection} : Makes (n := n) good (.error r) := by
  rintro _ ⟨⟩

/-- What is made first leads to a spelled cursor, from which the rest is made. -/
theorem bind {mid : α → Prop} {good : β → Prop} {f : Parsed α n → Reads β m}
    (first : Makes mid x) (rest : ∀ value d (fewer : d.size < n), mid value → d.Spelled →
      Makes good (f ⟨value, d, fewer⟩)) : Makes good (x >>= f) := by
  cases x with
  | error r => exact .error
  | ok p => exact rest p.value p.cursor p.fewer (first p rfl).1 (first p rfl).2

end Makes

end Reads

open Reads (Makes)

theorem Cursor.Spelled.take {c : Cursor} (spelled : c.Spelled) (kind : Token.Kind) :
    Makes (fun _ => True) (c.take kind) := by
  unfold Cursor.take Cursor.takeOr
  cases taken : c.take? kind with
  | none => exact .error
  | some p =>
    obtain ⟨t, d, fewer⟩ := p
    rintro _ ⟨⟩
    exact ⟨trivial, spelled.take? taken⟩

namespace TypeTerm

/-- The signatures of a legible annotation are legible, and there is at least one. -/
theorem Legible.signatures? {a : TypeTerm} {members : List Signature} (legible : a.Legible)
    (is : a.signatures? = some members) :
    members ≠ [] ∧ ∀ s ∈ members, (TypeTerm.function s).Legible := by
  cases legible with
  | @function params result span each last =>
    cases is
    exact ⟨by simp, by simpa using Legible.function each last⟩
  | @overloads members span two each =>
    cases is
    exact ⟨List.ne_nil_of_length_pos (by omega), each⟩
  | _ => cases is

mutual

/-- By induction on what is left to read: an annotation that is read is legible. -/
theorem read_legible (power : Power) (c : Cursor) (spelled : c.Spelled) :
    Makes Legible (read power c) := by
  rw [read]
  refine (readHead_legible c spelled).bind ?_
  intro left c₁ h₁ legible₁ spelled₁
  refine (readSuffixes_legible power left c₁ legible₁ spelled₁).bind ?_
  intro whole c₂ h₂ legible₂ spelled₂
  exact .pure legible₂ spelled₂
termination_by 4 * c.size + 1
decreasing_by all_goals omega

theorem readHead_legible (c : Cursor) (spelled : c.Spelled) : Makes Legible (readHead c) := by
  rw [readHead]
  cases next : c.next? with
  | none => exact .error
  | some p =>
    obtain ⟨t, c₁, h₁⟩ := p
    have less₁ : c₁.size < c.size := h₁
    obtain ⟨spelled₁, word⟩ := spelled.next? next
    dsimp only
    cases kind : t.kind with
    | identifier =>
      dsimp only
      cases less : c₁.take? .less with
      | none => exact .pure (.named (word kind) (by simp)) spelled₁
      | some p =>
        obtain ⟨_, c₂, h₂⟩ := p
        have less₂ : c₂.size < c₁.size := h₂
        refine (readGenerics_legible c₂ (spelled₁.take? less)).bind ?_
        intro generics c₃ h₃ each spelled₃
        refine (spelled₃.take .greater).bind ?_
        intro _ c₄ h₄ _ spelled₄
        exact .pure (.named (word kind) each) spelled₄
    | noneWord => exact .pure .noneType spelled₁
    | openParen =>
      refine (readItems_legible false c₁ spelled₁).bind ?_
      rintro ⟨items, trailing⟩ c₂ h₂ each spelled₂
      dsimp only at each ⊢
      cases arrow : c₂.take? .arrow with
      | none =>
        dsimp only
        split
        · exact .pure (each _ (by simp)) spelled₂
        · exact .pure (.tuple each) spelled₂
      | some p =>
        obtain ⟨_, c₃, h₃⟩ := p
        have less₃ : c₃.size < c₂.size := h₃
        refine (read_legible .logical c₃ (spelled₂.take? arrow)).bind ?_
        intro result c₄ h₄ last spelled₄
        exact .pure (.function each last) spelled₄
    | _ => exact .error
termination_by 4 * c.size
decreasing_by all_goals omega

theorem readSuffixes_legible (power : Power) (left : TypeTerm) (c : Cursor) (legible : left.Legible)
    (spelled : c.Spelled) : Makes Legible (readSuffixes power left c) := by
  rw [readSuffixes]
  cases c.kind.suffixPower? with
  | none => exact .pure legible spelled
  | some tightness =>
    dsimp only
    split
    · exact .pure legible spelled
    · refine (readSuffix_legible tightness left c legible spelled).bind ?_
      intro longer c₁ h₁ legible₁ spelled₁
      refine (readSuffixes_legible power longer c₁ legible₁ spelled₁).bind ?_
      intro whole c₂ h₂ legible₂ spelled₂
      exact .pure legible₂ spelled₂
termination_by 4 * c.size + 1
decreasing_by all_goals omega

theorem readSuffix_legible (power : Power) (left : TypeTerm) (c : Cursor) (legible : left.Legible)
    (spelled : c.Spelled) : Makes Legible (readSuffix power left c) := by
  rw [readSuffix]
  cases next : c.next? with
  | none => exact .error
  | some p =>
    obtain ⟨t, c₁, h₁⟩ := p
    have less₁ : c₁.size < c.size := h₁
    have spelled₁ := (spelled.next? next).1
    dsimp only
    cases t.kind with
    | openBracket =>
      refine (spelled₁.take .closeBracket).bind ?_
      intro _ c₂ h₂ _ spelled₂
      exact .pure (.array legible) spelled₂
    | question => exact .pure (.maybe legible) spelled₁
    | ampersand =>
      dsimp only
      cases mine : left.signatures? with
      | none => exact .error
      | some firsts =>
        refine (read_legible power c₁ spelled₁).bind ?_
        intro right c₂ h₂ legible₂ spelled₂
        dsimp only
        cases others : right.signatures? with
        | none => exact .error
        | some seconds =>
          obtain ⟨some₁, each₁⟩ := legible.signatures? mine
          obtain ⟨some₂, each₂⟩ := legible₂.signatures? others
          have two : 2 ≤ (firsts ++ seconds).length := by
            have one₁ := List.length_pos_iff.mpr some₁
            have one₂ := List.length_pos_iff.mpr some₂
            simp only [List.length_append]
            omega
          exact .pure (.overloads two (List.forall_mem_append.mpr ⟨each₁, each₂⟩)) spelled₂
    | _ => exact .error
termination_by 4 * c.size
decreasing_by all_goals omega

theorem readGenerics_legible (c : Cursor) (spelled : c.Spelled) :
    Makes (fun as => ∀ a ∈ as, a.Legible) (readGenerics c) := by
  rw [readGenerics]
  refine (read_legible .default c spelled).bind ?_
  intro first c₁ h₁ legible₁ spelled₁
  dsimp only
  cases comma : c₁.take? .comma with
  | none => exact .pure (by simpa using legible₁) spelled₁
  | some p =>
    obtain ⟨_, c₂, h₂⟩ := p
    have less₂ : c₂.size < c₁.size := h₂
    refine (readGenerics_legible c₂ (spelled₁.take? comma)).bind ?_
    intro others c₃ h₃ each spelled₃
    exact .pure (List.forall_mem_cons.mpr ⟨legible₁, each⟩) spelled₃
termination_by 4 * c.size + 2
decreasing_by all_goals omega

theorem readItems_legible (afterComma : Bool) (c : Cursor) (spelled : c.Spelled) :
    Makes (fun found => ∀ a ∈ found.1, a.Legible) (readItems afterComma c) := by
  rw [readItems]
  cases close : c.take? .closeParen with
  | some p => exact .pure (by simp) (spelled.take? close)
  | none =>
    refine (read_legible .default c spelled).bind ?_
    intro first c₁ h₁ legible₁ spelled₁
    dsimp only
    cases comma : c₁.take? .comma with
    | none =>
      refine (spelled₁.take .closeParen).bind ?_
      intro _ c₂ h₂ _ spelled₂
      exact .pure (by simpa using legible₁) spelled₂
    | some p =>
      obtain ⟨_, c₂, h₂⟩ := p
      have less₂ : c₂.size < c₁.size := h₂
      refine (readItems_legible true c₂ (spelled₁.take? comma)).bind ?_
      rintro ⟨others, trailing⟩ c₃ h₃ each spelled₃
      exact .pure (List.forall_mem_cons.mpr ⟨legible₁, each⟩) spelled₃
termination_by 4 * c.size + 2
decreasing_by all_goals omega

end

end TypeTerm

/-! ## From one source to the next -/

mutual

/-- What an annotation denotes does not depend on its place. -/
theorem TypeTerm.lower_unplaced : (a : TypeTerm) → a.unplaced.lower = a.lower
  | .named _ generics _ => by
      simp only [TypeTerm.unplaced, TypeTerm.lower, TypeTerm.lowerList_unplaced generics]
  | .noneType _ => rfl
  | .tuple items _ => by
      simp only [TypeTerm.unplaced, TypeTerm.lower, TypeTerm.lowerList_unplaced items]
  | .function signature => by
      simp only [TypeTerm.unplaced, TypeTerm.lower, Signature.lower_unplaced signature]
  | .overloads members _ => by
      simp only [TypeTerm.unplaced, TypeTerm.lower, Signature.lowerAll_unplaced members]
  | .array item _ => by
      simp only [TypeTerm.unplaced, TypeTerm.lower, TypeTerm.lower_unplaced item]
  | .maybe item _ => by
      simp only [TypeTerm.unplaced, TypeTerm.lower, TypeTerm.lower_unplaced item]
termination_by structural a => a

/-- An annotation comes to the same type wherever it stands. -/
theorem TypeTerm.lowerList_unplaced : (as : List TypeTerm) →
    TypeTerm.lowerList (TypeTerm.unplacedAll as) = TypeTerm.lowerList as
  | [] => rfl
  | a :: as => by
      rw [TypeTerm.unplacedAll, TypeTerm.lowerList, TypeTerm.lowerList,
        TypeTerm.lower_unplaced a, TypeTerm.lowerList_unplaced as]
termination_by structural as => as

theorem Signature.lower_unplaced : (s : Signature) → s.unplaced.lower = s.lower
  | ⟨params, result, _⟩ => by
      rw [Signature.unplaced, Signature.lower, Signature.lower,
        TypeTerm.lowerList_unplaced params, TypeTerm.lower_unplaced result]
termination_by structural s => s

theorem Signature.lowerAll_unplaced : (ss : List Signature) →
    TypeTerm.lowerSignatures (Signature.unplacedAll ss) = TypeTerm.lowerSignatures ss
  | [] => rfl
  | s :: ss => by
      rw [Signature.unplacedAll, TypeTerm.lowerSignatures, TypeTerm.lowerSignatures,
        Signature.lower_unplaced s, Signature.lowerAll_unplaced ss]
termination_by structural ss => ss

end

namespace TypeTerm

variable {source file : String} {tokens : List Token} {c d : Cursor} {a : TypeTerm}
  {fewer : d.rest.length < c.size}

/-- An annotation that was read from a source, wherever in it, and needs no parentheses but those
that are shown is read again from what is shown of it, to the end of the text. -/
theorem shown_read_again (scanned : Token.tokenize source file = .ok tokens)
    (within : c.rest ⊆ tokens) (found : read .default c = .ok ⟨a, d, fewer⟩)
    (showable : a.showable = true) (file' : String) :
    ∃ (tokens' : List Token) (b : TypeTerm) (e : Cursor)
        (fewer' : e.rest.length < (Cursor.ofTokens file' tokens').size),
      Token.tokenize a.text file' = .ok tokens' ∧
        read .default (Cursor.ofTokens file' tokens') = .ok ⟨b, e, fewer'⟩ ∧ e.rest = [] ∧
        b.lower = a.lower ∧ b.text = a.text := by
  have spelled : c.Spelled := fun t among => Token.isName_of_tokenize scanned (within among)
  have legible : a.Legible := (read_legible .default c spelled _ found).1
  have scans : Token.Scans a.text.toList a.shown := by
    simpa using legible.lexes.scans .nil .nil
  obtain ⟨tokens', mark, scanned', lexemes, unmarked, marked⟩ := scans.tokenize file'
  have ahead : (Cursor.ofTokens file' (tokens' ++ [mark])).ahead = a.shown ++ [] := by
    rw [Cursor.ofTokens_marked unmarked marked, List.append_nil]
    exact lexemes
  have ends : Ends [] := ⟨rfl, by simp [leading], by simp [leading]⟩
  obtain ⟨⟨b, e, fewer'⟩, again, same, rest⟩ := (legible.readsBack showable).whole.reads ahead ends
  have lowered : b.lower = a.lower := by
    rw [← b.lower_unplaced, same, a.lower_unplaced]
  exact ⟨_, b, e, fewer', scanned', again, List.map_eq_nil_iff.mp rest, lowered,
    congrArg Ty.text lowered⟩

/-- Declares `f` with overloads inside of a class with type parameters. -/
def nestedSource : String := "f: Map<(int, int,), (((A?[],)) -> (() -> B<C>)) & () -> (none)> = g"

theorem shown_read_again_nestedSource : ∃ tokens c a d fewer,
    Token.tokenize nestedSource "" = .ok tokens ∧ c = (Cursor.ofTokens "" tokens).advance.advance ∧
    c.rest ⊆ tokens ∧ read .default c = .ok ⟨a, d, fewer⟩ ∧ a.showable = true ∧
    a.text = "Map<(int, int), ((A?[],)) -> () -> B<C> & () -> none>" ∧
    ∃ tokens' b e fewer', Token.tokenize a.text "again" = .ok tokens' ∧
      read .default (Cursor.ofTokens "again" tokens') = .ok ⟨b, e, fewer'⟩ ∧ e.rest = [] ∧
      b.lower = a.lower ∧ b.text = a.text := by
  obtain ⟨tokens, scanned, computed⟩ : ∃ tokens, Token.tokenize nestedSource "" = .ok tokens ∧
      ((Cursor.ofTokens "" tokens).advance.advance.rest.all (tokens.contains ·) &&
        (read .default (Cursor.ofTokens "" tokens).advance.advance).toOption.any fun p =>
          p.value.showable &&
            p.value.text == "Map<(int, int), ((A?[],)) -> () -> B<C> & () -> none>") = true :=
    exists_ok_of_any (by decide +kernel)
  obtain ⟨within, computed⟩ := Bool.and_eq_true_iff.mp computed
  obtain ⟨⟨a, d, fewer⟩, found, computed⟩ := exists_ok_of_any computed
  simp only [Bool.and_eq_true, beq_iff_eq] at computed
  replace within : (Cursor.ofTokens "" tokens).advance.advance.rest ⊆ tokens := by
    intro t among
    simpa using List.all_eq_true.mp within t among
  exact ⟨tokens, _, a, d, fewer, scanned, rfl, within, found, computed.1, computed.2,
    shown_read_again scanned within found computed.1 "again"⟩

end TypeTerm

end ShapeLang
