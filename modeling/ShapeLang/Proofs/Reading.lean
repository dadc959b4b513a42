import Mathlib.Data.List.TakeWhile
import ShapeLang.Tree.Parser

/-!
# How far reading looks

Every reading function goes forward through the tokens ahead, and what was given
after the end mark has no part in what it finds. Both are shown at once, by running it
next to a second cursor that differs in what is given there: the two runs end alike,
at places that differ in nothing else.
-/

namespace ShapeLang

namespace Cursor

/-- The cursor with something else after the end mark. -/
def past (b : List Token) (c : Cursor) : Cursor := { c with beyond := b }

/-- The second cursor is in the same stream, as far as the first or further. -/
structure Leads (c d : Cursor) : Prop where
  rest : d.rest <:+ c.rest
  file : d.file = c.file
  stop : d.stop = c.stop
  beyond : d.beyond = c.beyond

namespace Leads

theorem refl (c : Cursor) : c.Leads c := ⟨List.suffix_rfl, rfl, rfl, rfl⟩

theorem trans {c d e : Cursor} (first : c.Leads d) (second : d.Leads e) : c.Leads e :=
  ⟨second.rest.trans first.rest, second.file.trans first.file, second.stop.trans first.stop,
    second.beyond.trans first.beyond⟩

end Leads

end Cursor

/-- The rejection with something else after the end mark. -/
@[reducible] def Rejection.past (b : List Token) (r : Rejection) : Rejection :=
  ⟨r.diagnostic, r.cursor.past b⟩

@[reducible] def Parsed.past {α : Type} {n : Nat} (b : List Token) (p : Parsed α n) :
    Parsed α n :=
  ⟨p.value, p.cursor.past b, p.fewer⟩

namespace Reads

variable {α β : Type} {n m : Nat} {b : List Token} {c d : Cursor} {x y : Reads α n}

/-- The two runs end alike, ahead of `c`, but for what is given after the end mark. -/
inductive Alike (b : List Token) (c : Cursor) : Reads α n → Reads α n → Prop where
  | ok (p : Parsed α n) (leads : c.Leads p.cursor) : Alike b c (.ok p) (.ok (p.past b))
  | error (r : Rejection) (leads : c.Leads r.cursor) : Alike b c (.error r) (.error (r.past b))

namespace Alike

/-- Readings that are alike from a later cursor are so from an earlier one. -/
theorem after (leads : c.Leads d) (alike : Alike b d x y) : Alike b c x y := by
  cases alike with
  | ok p further => exact .ok p (leads.trans further)
  | error r further => exact .error r (leads.trans further)

/-- What is read alike first leads to cursors from which the rest is read alike. -/
theorem bind {f g : Parsed α n → Reads β m} (first : Alike b c x y)
    (rest : ∀ value d (fewer : d.size < n), c.Leads d →
      Alike b c (f ⟨value, d, fewer⟩) (g ⟨value, d.past b, fewer⟩)) :
    Alike b c (x >>= f) (y >>= g) := by
  cases first with
  | ok p leads => exact rest p.value p.cursor p.fewer leads
  | error r leads => exact .error r leads

theorem ahead {p : Parsed α n} (alike : Alike b c (.ok p) y) : c.Leads p.cursor := by
  cases alike with
  | ok _ leads => exact leads

/-- What is read well without the tokens beyond is read well with them. -/
theorem eq_ok {p : Parsed α n} (alike : Alike b c (.ok p) y) : y = .ok (p.past b) := by
  cases alike with
  | ok _ _ => rfl

theorem eq_error {r : Rejection} (alike : Alike b c (.error r : Reads α n) y) :
    y = .error (r.past b) := by
  cases alike with
  | error _ _ => rfl

end Alike

end Reads

open Reads (Alike)

namespace Cursor

variable {b : List Token} {c : Cursor} {kind : Token.Kind}

/-- Tokens beyond the end do not change which token comes next. -/
theorem next?_past : (c.past b).next? = c.next?.map (Parsed.past b) := by
  obtain ⟨file, last, rest, stop, beyond⟩ := c
  cases rest <;> rfl

theorem leads_next? {p : Parsed Token c.size} (next : c.next? = some p) : c.Leads p.cursor := by
  obtain ⟨file, last, rest, stop, beyond⟩ := c
  cases rest with
  | nil => cases next
  | cons t ts =>
    cases next
    exact ⟨List.suffix_cons t ts, rfl, rfl, rfl⟩

theorem take?_past : (c.past b).take? kind = (c.take? kind).map (Parsed.past b) := by
  unfold take?
  rw [next?_past]
  cases c.next? with
  | none => rfl
  | some read =>
    simp only [Option.map_some]
    split <;> rfl

theorem leads_take? {p : Parsed Token c.size} (taken : c.take? kind = some p) :
    c.Leads p.cursor := by
  unfold take? at taken
  split at taken
  · rename_i read next
    split at taken
    · cases taken
      exact leads_next? next
    · cases taken
  · cases taken

theorem takeOr_alike (c : Cursor) (b : List Token) (kind : Token.Kind) {r : Rejection}
    (leads : c.Leads r.cursor) :
    Alike b c (c.takeOr kind r) ((c.past b).takeOr kind (r.past b)) := by
  unfold takeOr
  rw [take?_past]
  cases taken : c.take? kind with
  | none => exact .error r leads
  | some read => exact .ok read (leads_take? taken)

theorem take_alike (c : Cursor) (b : List Token) (kind : Token.Kind) :
    Alike b c (c.take kind) ((c.past b).take kind) :=
  c.takeOr_alike b kind (r := c.unexpected) (.refl c)

theorem kind_past : (c.past b).kind = c.kind := rfl

theorem rest_past : (c.past b).rest = c.rest := rfl

/-- The token after the current one is never looked for after the end mark, if there is a
current one. -/
theorem peek_past (ahead : c.kind ≠ .eof) : (c.past b).peek 1 = c.peek 1 := by
  obtain ⟨file, last, rest, stop, beyond⟩ := c
  cases rest with
  | nil => exact absurd rfl ahead
  | cons t ts => cases ts <;> rfl

end Cursor

/-! ## Annotations -/

namespace TypeTerm

open Cursor

variable (b : List Token)

mutual

/-- By induction on what is left to read: an annotation is read alike, whatever stands beyond
the end. -/
theorem read_alike (power : Power) (c : Cursor) :
    Alike b c (read power c) (read power (c.past b)) := by
  rw [read, read]
  refine (readHead_alike c).bind ?_
  rintro left c₁ h₁ leads₁
  refine ((readSuffixes_alike power left c₁).after leads₁).bind ?_
  rintro whole c₂ h₂ leads₂
  exact .ok _ leads₂
termination_by 4 * c.size + 1
decreasing_by all_goals omega

theorem readHead_alike (c : Cursor) : Alike b c (readHead c) (readHead (c.past b)) := by
  rw [readHead, readHead, next?_past]
  cases next : c.next? with
  | none => exact .error c.unexpected (.refl c)
  | some p =>
    obtain ⟨t, c₁, h₁⟩ := p
    have leads₁ : c.Leads c₁ := leads_next? next
    have less₁ : c₁.size < c.size := h₁
    dsimp only [Option.map_some]
    generalize t.kind = kind
    cases kind with
    | identifier =>
      dsimp only
      rw [take?_past]
      cases less : c₁.take? .less with
      | none => exact .ok _ leads₁
      | some p =>
        obtain ⟨_, c₂, h₂⟩ := p
        have leads₂ := leads₁.trans (leads_take? less)
        have less₂ : c₂.size < c₁.size := h₂
        refine ((readGenerics_alike c₂).after leads₂).bind ?_
        rintro generics c₃ h₃ leads₃
        refine ((c₃.take_alike b .greater).after leads₃).bind ?_
        rintro _ c₄ h₄ leads₄
        exact .ok _ leads₄
    | noneWord => exact .ok _ leads₁
    | openParen =>
      refine ((readItems_alike false c₁).after leads₁).bind ?_
      rintro ⟨items, trailing⟩ c₂ h₂ leads₂
      dsimp only
      rw [take?_past]
      cases arrow : c₂.take? .arrow with
      | none =>
        dsimp only [Option.map_none]
        split <;> exact .ok _ leads₂
      | some p =>
        obtain ⟨_, c₃, h₃⟩ := p
        have leads₃ := leads₂.trans (leads_take? arrow)
        have less₃ : c₃.size < c₂.size := h₃
        refine ((read_alike .logical c₃).after leads₃).bind ?_
        rintro result c₄ h₄ leads₄
        exact .ok _ leads₄
    | _ => exact .error c.unexpected (.refl c)
termination_by 4 * c.size
decreasing_by all_goals omega

theorem readSuffixes_alike (power : Power) (left : TypeTerm) (c : Cursor) :
    Alike b c (readSuffixes power left c) (readSuffixes power left (c.past b)) := by
  rw [readSuffixes, readSuffixes, kind_past]
  cases c.kind.suffixPower? with
  | none => exact .ok _ (.refl c)
  | some tightness =>
    dsimp only
    split
    · exact .ok _ (.refl c)
    · refine (readSuffix_alike tightness left c).bind ?_
      rintro longer c₁ h₁ leads₁
      refine ((readSuffixes_alike power longer c₁).after leads₁).bind ?_
      rintro whole c₂ h₂ leads₂
      exact .ok _ leads₂
termination_by 4 * c.size + 1
decreasing_by all_goals omega

theorem readSuffix_alike (power : Power) (left : TypeTerm) (c : Cursor) :
    Alike b c (readSuffix power left c) (readSuffix power left (c.past b)) := by
  rw [readSuffix, readSuffix, next?_past]
  cases next : c.next? with
  | none => exact .error c.unexpected (.refl c)
  | some p =>
    obtain ⟨t, c₁, h₁⟩ := p
    have leads₁ : c.Leads c₁ := leads_next? next
    have less₁ : c₁.size < c.size := h₁
    dsimp only [Option.map_some]
    generalize t.kind = kind
    cases kind with
    | openBracket =>
      refine ((c₁.take_alike b .closeBracket).after leads₁).bind ?_
      rintro _ c₂ h₂ leads₂
      exact .ok _ leads₂
    | question => exact .ok _ leads₁
    | ampersand =>
      dsimp only
      cases left.signatures? with
      | none => exact .error (c.unexpectedFor _) (.refl c)
      | some mine =>
        refine ((read_alike power c₁).after leads₁).bind ?_
        rintro right c₂ h₂ leads₂
        dsimp only
        cases right.signatures? with
        | none => exact .error (c₂.unexpectedFor _) leads₂
        | some others => exact .ok _ leads₂
    | _ => exact .error c.unexpected (.refl c)
termination_by 4 * c.size
decreasing_by all_goals omega

theorem readGenerics_alike (c : Cursor) :
    Alike b c (readGenerics c) (readGenerics (c.past b)) := by
  rw [readGenerics, readGenerics]
  refine (read_alike .default c).bind ?_
  rintro first c₁ h₁ leads₁
  dsimp only
  rw [take?_past]
  cases comma : c₁.take? .comma with
  | none => exact .ok _ leads₁
  | some p =>
    obtain ⟨_, c₂, h₂⟩ := p
    have leads₂ := leads₁.trans (leads_take? comma)
    have less₂ : c₂.size < c₁.size := h₂
    refine ((readGenerics_alike c₂).after leads₂).bind ?_
    rintro others c₃ h₃ leads₃
    exact .ok _ leads₃
termination_by 4 * c.size + 2
decreasing_by all_goals omega

theorem readItems_alike (afterComma : Bool) (c : Cursor) :
    Alike b c (readItems afterComma c) (readItems afterComma (c.past b)) := by
  rw [readItems, readItems, take?_past]
  cases close : c.take? .closeParen with
  | some p => exact .ok _ (leads_take? close)
  | none =>
    refine (read_alike .default c).bind ?_
    rintro first c₁ h₁ leads₁
    dsimp only
    rw [take?_past]
    cases comma : c₁.take? .comma with
    | none =>
      refine ((c₁.take_alike b .closeParen).after leads₁).bind ?_
      rintro _ c₂ h₂ leads₂
      exact .ok _ leads₂
    | some p =>
      obtain ⟨_, c₂, h₂⟩ := p
      have leads₂ := leads₁.trans (leads_take? comma)
      have less₂ : c₂.size < c₁.size := h₂
      refine ((readItems_alike true c₂).after leads₂).bind ?_
      rintro ⟨others, trailing⟩ c₃ h₃ leads₃
      exact .ok _ leads₃
termination_by 4 * c.size + 2
decreasing_by all_goals omega

end

end TypeTerm

/-! ## Names and classes -/

section

open Cursor

variable (b : List Token)

/-- Names are read alike, if the rejection is blind to what stands beyond the end. -/
theorem Cursor.readNames_alike {refuse : Cursor → Rejection} {c : Cursor}
    (here : ∀ c, (refuse c).cursor = c) (blind : ∀ c, refuse (c.past b) = (refuse c).past b) :
    Alike b c (c.readNames refuse) ((c.past b).readNames refuse) := by
  have leads : c.Leads (refuse c).cursor := by rw [here]; exact .refl c
  rw [readNames, readNames, blind]
  refine (c.takeOr_alike b .identifier leads).bind ?_
  intro name c₁ h₁ leads₁
  dsimp only
  rw [take?_past]
  cases comma : c₁.take? .comma with
  | none => exact .ok _ leads₁
  | some p =>
    obtain ⟨_, c₂, h₂⟩ := p
    have leads₂ := leads₁.trans (leads_take? comma)
    have less₂ : c₂.size < c₁.size := h₂
    refine ((readNames_alike here blind).after leads₂).bind ?_
    intro others c₃ h₃ leads₃
    exact .ok _ leads₃
termination_by c.size
decreasing_by omega

theorem Cursor.readGenericNames_alike (c : Cursor) :
    Alike b c c.readGenericNames (c.past b).readGenericNames := by
  unfold readGenericNames
  rw [take?_past]
  cases less : c.take? .less with
  | none => exact .ok _ (.refl c)
  | some p =>
    obtain ⟨_, c₁, h₁⟩ := p
    have leads₁ := leads_take? less
    have names : Alike b c₁ (c₁.readNames unexpected) _ :=
      readNames_alike b (fun _ => rfl) fun _ => rfl
    refine (names.after leads₁).bind ?_
    intro names c₂ h₂ leads₂
    refine ((c₂.take_alike b .greater).after leads₂).bind ?_
    intro _ c₃ h₃ leads₃
    exact .ok _ leads₃

theorem Param.readList_alike (c : Cursor) :
    Alike b c (Param.readList c) (Param.readList (c.past b)) := by
  rw [Param.readList, Param.readList, take?_past]
  cases close : c.take? .closeParen with
  | some p => exact .ok _ (leads_take? close)
  | none =>
    refine (c.takeOr_alike b .identifier (r := c.unexpectedFor _) (.refl c)).bind ?_
    intro name c₁ h₁ leads₁
    refine ((c₁.take_alike b .colon).after leads₁).bind ?_
    intro _ c₂ h₂ leads₂
    refine ((TypeTerm.read_alike b .default c₂).after leads₂).bind ?_
    intro term c₃ h₃ leads₃
    dsimp only
    rw [take?_past]
    cases comma : c₃.take? .comma with
    | none =>
      refine ((c₃.take_alike b .closeParen).after leads₃).bind ?_
      intro _ c₄ h₄ leads₄
      exact .ok _ leads₄
    | some p =>
      obtain ⟨_, c₄, h₄⟩ := p
      have leads₄ := leads₃.trans (leads_take? comma)
      have less₄ : c₄.size < c₃.size := h₄
      refine ((Param.readList_alike c₄).after leads₄).bind ?_
      intro others c₅ h₅ leads₅
      exact .ok _ leads₅
termination_by c.size
decreasing_by omega

namespace ClassDecl

theorem readFieldNames_alike (c : Cursor) :
    Alike b c (readFieldNames c) (readFieldNames (c.past b)) := by
  rw [readFieldNames, readFieldNames, next?_past]
  cases next : c.next? with
  | none => exact .error (c.unexpectedFor _) (.refl c)
  | some p =>
    obtain ⟨t, c₁, h₁⟩ := p
    have leads₁ : c.Leads c₁ := leads_next? next
    have less₁ : c₁.size < c.size := h₁
    dsimp only [Option.map_some]
    split
    · rw [take?_past]
      cases comma : c₁.take? .comma with
      | none => exact .ok _ leads₁
      | some p =>
        obtain ⟨_, c₂, h₂⟩ := p
        have leads₂ := leads₁.trans (leads_take? comma)
        have less₂ : c₂.size < c₁.size := h₂
        refine ((readFieldNames_alike c₂).after leads₂).bind ?_
        intro others c₃ h₃ leads₃
        exact .ok _ leads₃
    · exact .error (c.unexpectedFor _) (.refl c)
termination_by c.size
decreasing_by omega

theorem readPart_alike (c : Cursor) : Alike b c (readPart c) (readPart (c.past b)) := by
  unfold readPart
  rw [kind_past]
  generalize c.kind = kind
  cases kind
  case newWord =>
    refine (c.take_alike b .newWord).bind ?_
    intro _ c₁ h₁ leads₁
    refine ((c₁.take_alike b .openParen).after leads₁).bind ?_
    intro _ c₂ h₂ leads₂
    refine ((TypeTerm.readItems_alike b false c₂).after leads₂).bind ?_
    rintro ⟨params, _⟩ c₃ h₃ leads₃
    exact .ok _ leads₃
  case identifier | string =>
    refine (readFieldNames_alike b c).bind ?_
    intro names c₁ h₁ leads₁
    refine ((c₁.take_alike b .colon).after leads₁).bind ?_
    intro _ c₂ h₂ leads₂
    refine ((TypeTerm.read_alike b .default c₂).after leads₂).bind ?_
    intro term c₃ h₃ leads₃
    exact .ok _ leads₃
  all_goals exact .error (c.unexpectedFor _) (.refl c)

theorem readParts_alike (c : Cursor) : Alike b c (readParts c) (readParts (c.past b)) := by
  rw [readParts, readParts, take?_past]
  cases close : c.take? .closeCurly with
  | some p => exact .ok _ (leads_take? close)
  | none =>
    refine (readPart_alike b c).bind ?_
    intro part c₁ h₁ leads₁
    dsimp only
    rw [take?_past, take?_past]
    cases comma : c₁.take? .comma with
    | some p =>
      obtain ⟨_, c₂, h₂⟩ := p
      have leads₂ := leads₁.trans (leads_take? comma)
      have less₂ : c₂.size < c₁.size := h₂
      refine ((readParts_alike c₂).after leads₂).bind ?_
      intro others c₃ h₃ leads₃
      exact .ok _ leads₃
    | none =>
      cases semicolon : c₁.take? .semicolon with
      | some p =>
        obtain ⟨_, c₂, h₂⟩ := p
        have leads₂ := leads₁.trans (leads_take? semicolon)
        have less₂ : c₂.size < c₁.size := h₂
        refine ((readParts_alike c₂).after leads₂).bind ?_
        intro others c₃ h₃ leads₃
        exact .ok _ leads₃
      | none =>
        refine ((readParts_alike c₁).after leads₁).bind ?_
        intro others c₂ h₂ leads₂
        exact .ok _ leads₂
termination_by c.size
decreasing_by all_goals omega

theorem readSupers_alike (c : Cursor) : Alike b c (readSupers c) (readSupers (c.past b)) := by
  unfold readSupers
  rw [take?_past]
  cases colon : c.take? .colon with
  | none => exact .ok _ (.refl c)
  | some p =>
    obtain ⟨_, c₁, h₁⟩ := p
    have names : Alike b c₁ (c₁.readNames unexpected) _ :=
      readNames_alike b (fun _ => rfl) fun _ => rfl
    refine (names.after (leads_take? colon)).bind ?_
    intro names c₂ h₂ leads₂
    exact .ok _ leads₂

theorem read_alike (c : Cursor) : Alike b c (read c) (read (c.past b)) := by
  unfold read
  refine (c.takeOr_alike b .identifier (r := c.unexpectedFor _) (.refl c)).bind ?_
  intro name c₁ h₁ leads₁
  refine ((c₁.readGenericNames_alike b).after leads₁).bind ?_
  intro generics c₂ h₂ leads₂
  refine ((readSupers_alike b c₂).after leads₂).bind ?_
  intro supers c₃ h₃ leads₃
  refine ((c₃.take_alike b .openCurly).after leads₃).bind ?_
  intro _ c₄ h₄ leads₄
  refine ((readParts_alike b c₄).after leads₄).bind ?_
  intro parts c₅ h₅ leads₅
  exact .ok _ leads₅

end ClassDecl

end

/-! ## Expressions and statements -/

section

open Cursor

variable (b : List Token)

mutual

/-- By induction on what is left to read: an expression is read alike, whatever stands beyond
the end. -/
theorem Expr.read_alike (power : Power) (c : Cursor) :
    Alike b c (Expr.read power c) (Expr.read power (c.past b)) := by
  rw [Expr.read, Expr.read]
  refine (Expr.readOperand_alike c).bind ?_
  intro left c₁ h₁ leads₁
  refine ((Expr.readOperators_alike power left c₁).after leads₁).bind ?_
  intro whole c₂ h₂ leads₂
  exact .ok _ leads₂
termination_by 8 * c.size + 1
decreasing_by all_goals omega

theorem Expr.readOperand_alike (c : Cursor) :
    Alike b c (Expr.readOperand c) (Expr.readOperand (c.past b)) := by
  rw [Expr.readOperand, Expr.readOperand, next?_past]
  cases next : c.next? with
  | none => exact .error c.unexpected (.refl c)
  | some p =>
    obtain ⟨t, c₁, h₁⟩ := p
    have leads₁ : c.Leads c₁ := leads_next? next
    have less₁ : c₁.size < c.size := h₁
    dsimp only [Option.map_some]
    generalize t.kind = kind
    cases kind with
    | identifier => exact .ok _ leads₁
    | openParen =>
      refine ((Expr.readItems_alike .closeParen false c₁).after leads₁).bind ?_
      rintro ⟨items, trailing⟩ c₂ h₂ leads₂
      dsimp only
      split <;> exact .ok _ leads₂
    | openBracket =>
      refine ((Expr.readItems_alike .closeBracket false c₁).after leads₁).bind ?_
      rintro ⟨items, trailing⟩ c₂ h₂ leads₂
      exact .ok _ leads₂
    | ellipsis =>
      refine ((Expr.read_alike .unary c₁).after leads₁).bind ?_
      intro value c₂ h₂ leads₂
      exact .ok _ leads₂
    | newWord =>
      refine ((c₁.takeOr_alike b .identifier (r := c₁.unexpectedFor _) (.refl c₁)).after
        leads₁).bind ?_
      intro name c₂ h₂ leads₂
      refine ((c₂.take_alike b .openParen).after leads₂).bind ?_
      intro _ c₃ h₃ leads₃
      refine ((Expr.readItems_alike .closeParen false c₃).after leads₃).bind ?_
      rintro ⟨args, _⟩ c₄ h₄ leads₄
      exact .ok _ leads₄
    | fnWord =>
      refine ((c₁.readGenericNames_alike b).after leads₁).bind ?_
      intro generics c₂ h₂ leads₂
      refine ((c₂.take_alike b .openParen).after leads₂).bind ?_
      intro _ c₃ h₃ leads₃
      refine ((Param.readList_alike b c₃).after leads₃).bind ?_
      intro params c₄ h₄ leads₄
      dsimp only
      rw [take?_past]
      cases arrow : c₄.take? .arrow with
      | none =>
        refine ((Block.read_alike c₄).after leads₄).bind ?_
        intro body c₅ h₅ leads₅
        exact .ok _ leads₅
      | some p =>
        obtain ⟨_, c₅, h₅⟩ := p
        have leads₅ := leads₄.trans (leads_take? arrow)
        have less₅ : c₅.size < c₄.size := h₅
        refine ((TypeTerm.read_alike b .default c₅).after leads₅).bind ?_
        intro result c₆ h₆ leads₆
        refine ((Block.read_alike c₆).after leads₆).bind ?_
        intro body c₇ h₇ leads₇
        exact .ok _ leads₇
    | _ =>
      dsimp only
      rcases Literal.ofToken? t with problem | _ | value
      · exact .error ⟨problem, c₁⟩ leads₁
      · exact .error c.unexpected (.refl c)
      · exact .ok _ leads₁
termination_by 8 * c.size
decreasing_by all_goals omega

theorem Expr.readOperators_alike (power : Power) (left : Expr) (c : Cursor) :
    Alike b c (Expr.readOperators power left c) (Expr.readOperators power left (c.past b)) := by
  rw [Expr.readOperators, Expr.readOperators, kind_past]
  cases c.kind.power? with
  | none => exact .ok _ (.refl c)
  | some tightness =>
    dsimp only
    split
    · exact .ok _ (.refl c)
    · refine (Expr.readOperator_alike tightness left c).bind ?_
      intro longer c₁ h₁ leads₁
      refine ((Expr.readOperators_alike power longer c₁).after leads₁).bind ?_
      intro whole c₂ h₂ leads₂
      exact .ok _ leads₂
termination_by 8 * c.size + 1
decreasing_by all_goals omega

theorem Expr.readOperator_alike (power : Power) (left : Expr) (c : Cursor) :
    Alike b c (Expr.readOperator power left c) (Expr.readOperator power left (c.past b)) := by
  rw [Expr.readOperator, Expr.readOperator, next?_past]
  cases next : c.next? with
  | none => exact .error c.unexpected (.refl c)
  | some p =>
    obtain ⟨t, c₁, h₁⟩ := p
    have leads₁ : c.Leads c₁ := leads_next? next
    have less₁ : c₁.size < c.size := h₁
    dsimp only [Option.map_some]
    generalize t.kind = kind
    cases kind with
    | cast =>
      refine ((TypeTerm.read_alike b power c₁).after leads₁).bind ?_
      intro target c₂ h₂ leads₂
      exact .ok _ leads₂
    | openParen =>
      refine ((Expr.readItems_alike .closeParen false c₁).after leads₁).bind ?_
      rintro ⟨args, _⟩ c₂ h₂ leads₂
      exact .ok _ leads₂
    | openBracket =>
      refine ((Expr.read_alike .default c₁).after leads₁).bind ?_
      intro position c₂ h₂ leads₂
      refine ((c₂.take_alike b .closeBracket).after leads₂).bind ?_
      intro _ c₃ h₃ leads₃
      exact .ok _ leads₃
    | dot =>
      refine ((c₁.takeOr_alike b .identifier (r := c₁.unexpectedFor _) (.refl c₁)).after
        leads₁).bind ?_
      intro name c₂ h₂ leads₂
      exact .ok _ leads₂
    | _ =>
      dsimp only
      split
      · exact .error (c.unexpectedFor _) (.refl c)
      · refine ((Expr.read_alike power c₁).after leads₁).bind ?_
        intro right c₂ h₂ leads₂
        exact .ok _ leads₂
termination_by 8 * c.size
decreasing_by all_goals omega

theorem Expr.readItems_alike (close : Token.Kind) (afterComma : Bool) (c : Cursor) :
    Alike b c (Expr.readItems close afterComma c) (Expr.readItems close afterComma (c.past b)) := by
  rw [Expr.readItems, Expr.readItems, take?_past]
  cases closed : c.take? close with
  | some p => exact .ok _ (leads_take? closed)
  | none =>
    refine (Expr.read_alike .default c).bind ?_
    intro first c₁ h₁ leads₁
    dsimp only
    rw [take?_past]
    cases comma : c₁.take? .comma with
    | none =>
      refine ((c₁.take_alike b close).after leads₁).bind ?_
      intro _ c₂ h₂ leads₂
      exact .ok _ leads₂
    | some p =>
      obtain ⟨_, c₂, h₂⟩ := p
      have leads₂ := leads₁.trans (leads_take? comma)
      have less₂ : c₂.size < c₁.size := h₂
      refine ((Expr.readItems_alike close true c₂).after leads₂).bind ?_
      rintro ⟨others, trailing⟩ c₃ h₃ leads₃
      exact .ok _ leads₃
termination_by 8 * c.size + 2
decreasing_by all_goals omega

theorem Block.read_alike (c : Cursor) : Alike b c (Block.read c) (Block.read (c.past b)) := by
  rw [Block.read, Block.read]
  refine (c.take_alike b .openCurly).bind ?_
  intro brace c₁ h₁ leads₁
  refine ((Block.readBody_alike c₁).after leads₁).bind ?_
  intro body c₂ h₂ leads₂
  exact .ok _ leads₂
termination_by 8 * c.size
decreasing_by all_goals omega

theorem Block.readBody_alike (c : Cursor) :
    Alike b c (Block.readBody c) (Block.readBody (c.past b)) := by
  rw [Block.readBody, Block.readBody, take?_past, rest_past]
  cases close : c.take? .closeCurly with
  | some p => exact .ok _ (leads_take? close)
  | none =>
    dsimp only [Option.map_none]
    split
    · exact .error (c.unexpectedFor _) (.refl c)
    · refine (Stmt.read_alike c).bind ?_
      intro first c₁ h₁ leads₁
      refine ((Block.readBody_alike c₁).after leads₁).bind ?_
      intro others c₂ h₂ leads₂
      exact .ok _ leads₂
termination_by 8 * c.size + 4
decreasing_by all_goals omega

/-- By induction on what is left to read: a statement is read alike, whatever stands beyond the
end. -/
theorem Stmt.read_alike (c : Cursor) : Alike b c (Stmt.read c) (Stmt.read (c.past b)) := by
  rw [Stmt.read, Stmt.read]
  refine (Stmt.readBare_alike c).bind ?_
  intro stmt c₁ h₁ leads₁
  dsimp only
  rw [take?_past]
  cases semicolon : c₁.take? .semicolon with
  | some p => exact .ok _ (leads₁.trans (leads_take? semicolon))
  | none => exact .ok _ leads₁
termination_by 8 * c.size + 3
decreasing_by all_goals omega

theorem Stmt.readBare_alike (c : Cursor) :
    Alike b c (Stmt.readBare c) (Stmt.readBare (c.past b)) := by
  -- past the first token nothing is known of the stream unless that token is a name
  have value : Alike b c (do
      let p ← Expr.read .default c
      return (⟨.expr p.value p.value.span, p.cursor, p.fewer⟩ : Parsed Stmt c.size)) (do
      let p ← Expr.read .default (c.past b)
      return (⟨.expr p.value p.value.span, p.cursor, p.fewer⟩ : Parsed Stmt c.size)) := by
    refine (Expr.read_alike .default c).bind ?_
    intro value c₁ h₁ leads₁
    exact .ok _ leads₁
  rw [Stmt.readBare, Stmt.readBare, kind_past]
  cases kind : c.kind with
  | constWord =>
    refine (c.take_alike b .constWord).bind ?_
    intro _ c₁ h₁ leads₁
    dsimp only
    rw [kind_past]
    cases kind₁ : c₁.kind with
    | identifier =>
      rw [peek_past (by rw [kind₁]; decide)]
      cases c₁.peek 1 with
      | colon =>
        refine ((Stmt.readDeclaration_alike true c₁).after leads₁).bind ?_
        intro stmt c₂ h₂ leads₂
        exact .ok _ leads₂
      | _ =>
        refine ((Stmt.readDefinition_alike true c₁).after leads₁).bind ?_
        intro stmt c₂ h₂ leads₂
        exact .ok _ leads₂
    | _ => exact .error (c₁.unexpectedFor _) leads₁
  | classWord =>
    refine (c.take_alike b .classWord).bind ?_
    intro word c₁ h₁ leads₁
    refine ((ClassDecl.read_alike b c₁).after leads₁).bind ?_
    intro decl c₂ h₂ leads₂
    exact .ok _ leads₂
  | implWord =>
    refine (c.take_alike b .implWord).bind ?_
    intro word c₁ h₁ leads₁
    refine ((c₁.take_alike b .identifier).after leads₁).bind ?_
    intro name c₂ h₂ leads₂
    refine ((Block.read_alike c₂).after leads₂).bind ?_
    intro body c₃ h₃ leads₃
    exact .ok _ leads₃
  | ifWord => exact Stmt.readIf_alike c
  | whileWord =>
    refine (c.take_alike b .whileWord).bind ?_
    intro word c₁ h₁ leads₁
    refine ((Expr.read_alike .default c₁).after leads₁).bind ?_
    intro condition c₂ h₂ leads₂
    refine ((Block.read_alike c₂).after leads₂).bind ?_
    intro body c₃ h₃ leads₃
    exact .ok _ leads₃
  | doWord =>
    refine (c.take_alike b .doWord).bind ?_
    intro word c₁ h₁ leads₁
    refine ((Block.read_alike c₁).after leads₁).bind ?_
    intro body c₂ h₂ leads₂
    refine ((c₂.take_alike b .whileWord).after leads₂).bind ?_
    intro _ c₃ h₃ leads₃
    refine ((Expr.read_alike .default c₃).after leads₃).bind ?_
    intro condition c₄ h₄ leads₄
    exact .ok _ leads₄
  | switchWord =>
    refine (c.take_alike b .switchWord).bind ?_
    intro word c₁ h₁ leads₁
    refine ((Expr.read_alike .default c₁).after leads₁).bind ?_
    intro subject c₂ h₂ leads₂
    refine ((c₂.take_alike b .openCurly).after leads₂).bind ?_
    intro _ c₃ h₃ leads₃
    refine ((Stmt.readCases_alike none c₃).after leads₃).bind ?_
    rintro ⟨cases, otherwise⟩ c₄ h₄ leads₄
    exact .ok _ leads₄
  | returnWord =>
    refine (c.take_alike b .returnWord).bind ?_
    intro word c₁ h₁ leads₁
    dsimp only
    rw [kind_past]
    cases c₁.kind
    case semicolon | closeCurly | eof => exact .ok _ leads₁
    all_goals
      refine ((Expr.read_alike .default c₁).after leads₁).bind ?_
      intro value c₂ h₂ leads₂
      exact .ok _ leads₂
  | identifier =>
    dsimp only
    rw [peek_past (by rw [kind]; decide)]
    cases c.peek 1 with
    | assignment => exact Stmt.readDefinition_alike false c
    | comma => exact Stmt.readDefinition_alike false c
    | colon => exact Stmt.readDeclaration_alike false c
    | _ => exact value
  | _ => exact value
termination_by 8 * c.size + 2
decreasing_by all_goals omega

theorem Stmt.readDefinition_alike (constant : Bool) (c : Cursor) :
    Alike b c (Stmt.readDefinition constant c) (Stmt.readDefinition constant (c.past b)) := by
  rw [Stmt.readDefinition, Stmt.readDefinition]
  have names : Alike b c (c.readNames (·.unexpectedFor "expected a name to define")) _ :=
    readNames_alike b (fun _ => rfl) fun _ => rfl
  refine names.bind ?_
  intro names c₁ h₁ leads₁
  refine ((c₁.take_alike b .assignment).after leads₁).bind ?_
  intro _ c₂ h₂ leads₂
  refine ((Expr.read_alike .default c₂).after leads₂).bind ?_
  intro value c₃ h₃ leads₃
  exact .ok _ leads₃
termination_by 8 * c.size
decreasing_by all_goals omega

theorem Stmt.readDeclaration_alike (constant : Bool) (c : Cursor) :
    Alike b c (Stmt.readDeclaration constant c) (Stmt.readDeclaration constant (c.past b)) := by
  rw [Stmt.readDeclaration, Stmt.readDeclaration]
  refine (c.take_alike b .identifier).bind ?_
  intro name c₁ h₁ leads₁
  refine ((c₁.take_alike b .colon).after leads₁).bind ?_
  intro _ c₂ h₂ leads₂
  refine ((TypeTerm.read_alike b .default c₂).after leads₂).bind ?_
  intro term c₃ h₃ leads₃
  dsimp only
  rw [take?_past]
  cases assignment : c₃.take? .assignment with
  | none => exact .ok _ leads₃
  | some p =>
    obtain ⟨_, c₄, h₄⟩ := p
    have leads₄ := leads₃.trans (leads_take? assignment)
    have less₄ : c₄.size < c₃.size := h₄
    refine ((Expr.read_alike .default c₄).after leads₄).bind ?_
    intro value c₅ h₅ leads₅
    exact .ok _ leads₅
termination_by 8 * c.size
decreasing_by all_goals omega

theorem Stmt.readIf_alike (c : Cursor) : Alike b c (Stmt.readIf c) (Stmt.readIf (c.past b)) := by
  rw [Stmt.readIf, Stmt.readIf]
  refine (c.take_alike b .ifWord).bind ?_
  intro word c₁ h₁ leads₁
  refine ((Expr.read_alike .default c₁).after leads₁).bind ?_
  intro condition c₂ h₂ leads₂
  refine ((Block.read_alike c₂).after leads₂).bind ?_
  intro yes c₃ h₃ leads₃
  dsimp only
  rw [take?_past]
  cases else_ : c₃.take? .elseWord with
  | none => exact .ok _ leads₃
  | some p =>
    obtain ⟨_, c₄, h₄⟩ := p
    have leads₄ := leads₃.trans (leads_take? else_)
    have less₄ : c₄.size < c₃.size := h₄
    dsimp only [Option.map_some]
    rw [kind_past]
    split
    · refine ((Stmt.readIf_alike c₄).after leads₄).bind ?_
      intro nested c₅ h₅ leads₅
      exact .ok _ leads₅
    · refine ((Block.read_alike c₄).after leads₄).bind ?_
      intro no c₅ h₅ leads₅
      exact .ok _ leads₅
termination_by 8 * c.size
decreasing_by all_goals omega

theorem Stmt.readCases_alike (otherwise : Option Block) (c : Cursor) :
    Alike b c (Stmt.readCases otherwise c) (Stmt.readCases otherwise (c.past b)) := by
  rw [Stmt.readCases.eq_def, Stmt.readCases.eq_def _ (c.past b), take?_past, kind_past]
  cases close : c.take? .closeCurly with
  | some p => exact .ok _ (leads_take? close)
  | none =>
    generalize c.kind = kind
    dsimp only [Option.map_none]
    cases kind
    case caseWord =>
      refine (c.take_alike b .caseWord).bind ?_
      intro word c₁ h₁ leads₁
      refine ((Stmt.readPattern_alike c₁).after leads₁).bind ?_
      intro pattern c₂ h₂ leads₂
      refine ((Block.read_alike c₂).after leads₂).bind ?_
      intro body c₃ h₃ leads₃
      refine ((Stmt.readCases_alike otherwise c₃).after leads₃).bind ?_
      rintro ⟨others, otherwise⟩ c₄ h₄ leads₄
      exact .ok _ leads₄
    case defaultWord =>
      cases otherwise with
      | none =>
        refine (c.take_alike b .defaultWord).bind ?_
        intro _ c₁ h₁ leads₁
        refine ((Block.read_alike c₁).after leads₁).bind ?_
        intro body c₂ h₂ leads₂
        refine ((Stmt.readCases_alike (some body) c₂).after leads₂).bind ?_
        intro result c₃ h₃ leads₃
        exact .ok _ leads₃
      | some _ => exact .error (c.unexpectedFor _) (.refl c)
    all_goals exact .error (c.unexpectedFor _) (.refl c)
termination_by 8 * c.size + 2
decreasing_by all_goals omega

theorem Stmt.readPattern_alike (c : Cursor) :
    Alike b c (Stmt.readPattern c) (Stmt.readPattern (c.past b)) := by
  have value : Alike b c (do
      let p ← Expr.read .default c
      return (⟨.value p.value, p.cursor, p.fewer⟩ : Parsed Pattern c.size)) (do
      let p ← Expr.read .default (c.past b)
      return (⟨.value p.value, p.cursor, p.fewer⟩ : Parsed Pattern c.size)) := by
    refine (Expr.read_alike .default c).bind ?_
    intro value c₁ h₁ leads₁
    exact .ok _ leads₁
  rw [Stmt.readPattern, Stmt.readPattern, kind_past]
  cases kind : c.kind with
  | identifier =>
    dsimp only
    rw [peek_past (by rw [kind]; decide)]
    cases c.peek 1 with
    | colon =>
      refine (c.take_alike b .identifier).bind ?_
      intro name c₁ h₁ leads₁
      refine ((c₁.take_alike b .colon).after leads₁).bind ?_
      intro _ c₂ h₂ leads₂
      refine ((TypeTerm.read_alike b .default c₂).after leads₂).bind ?_
      intro term c₃ h₃ leads₃
      exact .ok _ leads₃
    | _ => exact value
  | _ => exact value
termination_by 8 * c.size + 2
decreasing_by all_goals omega

end

end

/-! ## Programs -/

/-- Statements read one after the other, from the first cursor to the second. -/
inductive Stmt.Sequence : Cursor → List Stmt → Cursor → Prop where
  | done (c : Cursor) : Sequence c [] c
  | next {c d : Cursor} {stmts : List Stmt} (p : Parsed Stmt c.size) (read : Stmt.read c = .ok p)
      (rest : Sequence p.cursor stmts d) : Sequence c (p.value :: stmts) d

namespace Stmt

variable {c d : Cursor} {stmts : List Stmt} {b : List Token}

theorem leads_read {p : Parsed Stmt c.size} (read : Stmt.read c = .ok p) : c.Leads p.cursor := by
  have alike := Stmt.read_alike [] c
  rw [read] at alike
  exact alike.ahead

/-- Statements in sequence lead from where the first begins to where the last ends. -/
theorem Sequence.leads (sequence : Sequence c stmts d) : c.Leads d := by
  induction sequence with
  | done c => exact .refl c
  | next p read _ ih => exact (leads_read read).trans ih

/-- Every statement takes a token. -/
theorem Sequence.size_le (sequence : Sequence c stmts d) : d.size + stmts.length ≤ c.size := by
  induction sequence with
  | done c => exact Nat.le_refl _
  | @next c d stmts p read _ ih =>
    have fewer : p.cursor.size < c.size := p.fewer
    rw [List.length_cons]
    omega

/-- Reading on leads to the end of the tokens or to a statement that is refused. -/
theorem readAll_outcome (c : Cursor) : ∃ stmts d, Sequence c stmts d ∧
    ((d.rest = [] ∧ readAll c = .ok (stmts, d)) ∨
      ∃ r, Stmt.read d = .error r ∧ readAll c = .error r) := by
  rw [readAll]
  by_cases ended : c.rest.isEmpty = true
  · refine ⟨[], c, .done c, .inl ⟨List.isEmpty_iff.mp ended, ?_⟩⟩
    rw [if_pos ended]
  · rw [if_neg ended]
    cases read : Stmt.read c with
    | error r => exact ⟨[], c, .done c, .inr ⟨r, read, rfl⟩⟩
    | ok p =>
      have fewer : p.cursor.size < c.size := p.fewer
      obtain ⟨stmts, d, sequence, outcome⟩ := readAll_outcome p.cursor
      refine ⟨p.value :: stmts, d, .next p read sequence, ?_⟩
      rcases outcome with ⟨ended, rest⟩ | ⟨r, refused, rest⟩
      · refine .inl ⟨ended, ?_⟩
        show (readAll p.cursor >>= _) = _
        rw [rest]
        rfl
      · refine .inr ⟨r, refused, ?_⟩
        show (readAll p.cursor >>= _) = _
        rw [rest]
        rfl
termination_by c.size

/-- What is read does not depend on what is given after the end mark. -/
theorem readAll_past (c : Cursor) (b : List Token) :
    readAll (c.past b) =
      ((readAll c).map fun result => (result.1, result.2.past b)).mapError (.past b) := by
  have alike := Stmt.read_alike b c
  rw [readAll, readAll, Cursor.rest_past]
  by_cases ended : c.rest.isEmpty = true
  · rw [if_pos ended, if_pos ended]
    rfl
  · rw [if_neg ended, if_neg ended]
    cases read : Stmt.read c with
    | error r =>
      rw [read] at alike
      rw [alike.eq_error]
      rfl
    | ok p =>
      have fewer : p.cursor.size < c.size := p.fewer
      rw [read] at alike
      rw [alike.eq_ok]
      show (readAll (p.cursor.past b) >>= _) = _
      rw [readAll_past p.cursor b]
      show _ = Except.mapError _ (Except.map _ (readAll p.cursor >>= _))
      cases readAll p.cursor <;> rfl
termination_by c.size

end Stmt

/-- The tokens up to the first end mark, which is included. -/
def Token.throughEnd : List Token → List Token
  | [] => []
  | t :: ts => if t.kind = .eof then [t] else t :: Token.throughEnd ts

/-- The first end mark, or the one that stands for the end of tokens that have none. -/
def Token.endOf (file : String) (tokens : List Token) : Token :=
  (tokens.find? (·.kind == .eof)).getD
    ⟨.eof, "EOF", .point ⟨(tokens.getLast?.map (·.span.stop.offset)).getD 0, file⟩⟩

/-- The program that the tokens are, or what is wrong with them. -/
def Program.parse (file : String) (tokens : List Token) : Except Diagnostic Program :=
  ((Program.read file tokens).map (·.1)).mapError (·.diagnostic)

section

variable {file : String} {tokens ahead beyond : List Token} {mark : Token}

theorem Token.marked_or_not (tokens : List Token) : (∀ t ∈ tokens, t.kind ≠ .eof) ∨
    ∃ ahead mark beyond, tokens = ahead ++ mark :: beyond ∧ (∀ t ∈ ahead, t.kind ≠ .eof) ∧
      mark.kind = .eof := by
  induction tokens with
  | nil => exact .inl nofun
  | cons t ts ih =>
    by_cases mark : t.kind = .eof
    · exact .inr ⟨[], t, ts, rfl, nofun, mark⟩
    · rcases ih with none_ | ⟨ahead, found, beyond, rfl, before, marked⟩
      · exact .inl (List.forall_mem_cons.mpr ⟨mark, none_⟩)
      · exact .inr ⟨t :: ahead, found, beyond, rfl, List.forall_mem_cons.mpr ⟨mark, before⟩, marked⟩

section

variable (before : ∀ t ∈ ahead, t.kind ≠ .eof) (marked : mark.kind = .eof)
include before marked

theorem Cursor.ofTokens_marked : ofTokens file (ahead ++ mark :: beyond) =
    ⟨file, none, ahead, ⟨mark.text, mark.span⟩, beyond⟩ := by
  have each : ∀ t ∈ ahead, (!(t.kind == .eof)) = true := by simpa using before
  simp [ofTokens, List.takeWhile_append_of_pos each, List.dropWhile_append_of_pos each, marked]

theorem Token.throughEnd_marked :
    Token.throughEnd (ahead ++ mark :: beyond) = ahead ++ [mark] := by
  induction ahead with
  | nil => simp [Token.throughEnd, marked]
  | cons t ts ih =>
    obtain ⟨first, rest⟩ := List.forall_mem_cons.mp before
    simp [Token.throughEnd, first, ih rest]

theorem Token.endOf_marked : Token.endOf file (ahead ++ mark :: beyond) = mark := by
  have none_ : ahead.find? (·.kind == .eof) = none := by simpa using before
  simp [Token.endOf, List.find?_append, none_, marked]

end

section

variable (unmarked : ∀ t ∈ tokens, t.kind ≠ .eof)
include unmarked

theorem Cursor.ofTokens_unmarked : ofTokens file tokens =
    ⟨file, none, tokens, ⟨"EOF", (Token.endOf file tokens).span⟩, []⟩ := by
  have each : ∀ t ∈ tokens, (!(t.kind == .eof)) = true := by simpa using unmarked
  have none_ : tokens.find? (·.kind == .eof) = none := by simpa using unmarked
  simp [ofTokens, List.takeWhile_eq_self_iff.mpr each, List.dropWhile_eq_nil_iff.mpr each,
    Token.endOf, none_]

theorem Token.throughEnd_unmarked : Token.throughEnd tokens = tokens := by
  induction tokens with
  | nil => rfl
  | cons t ts ih =>
    obtain ⟨first, rest⟩ := List.forall_mem_cons.mp unmarked
    simp [Token.throughEnd, first, ih rest]

end

end

/-- The cursor sees the tokens before the first end mark. -/
theorem Cursor.rest_ofTokens (file : String) (tokens : List Token) :
    (ofTokens file tokens).rest = tokens.takeWhile (·.kind != .eof) := by
  unfold ofTokens
  dsimp only
  split <;> rfl

/-- Cutting the tokens off behind the first end mark is leaving nothing beyond it. -/
theorem Cursor.ofTokens_throughEnd (file : String) (tokens : List Token) :
    ofTokens file (Token.throughEnd tokens) = (ofTokens file tokens).past [] := by
  rcases Token.marked_or_not tokens with unmarked | ⟨ahead, mark, beyond, rfl, before, marked⟩
  · rw [Token.throughEnd_unmarked unmarked, ofTokens_unmarked unmarked]
    rfl
  · rw [Token.throughEnd_marked before marked, ofTokens_marked before marked,
      ofTokens_marked before marked]
    rfl

/-- At the end of the tokens the cursor stands on their end mark. -/
theorem Cursor.current_of_leads {file : String} {tokens : List Token} {d : Cursor}
    (leads : (ofTokens file tokens).Leads d) (ended : d.rest = []) :
    d.current = Token.endOf file tokens := by
  have here : d.current =
      ⟨.eof, (ofTokens file tokens).stop.text, (ofTokens file tokens).stop.span⟩ := by
    rw [← leads.stop, current, ended]
  rcases Token.marked_or_not tokens with unmarked | ⟨ahead, mark, beyond, rfl, before, marked⟩
  · have none_ : tokens.find? (·.kind == .eof) = none := by simpa using unmarked
    rw [here, ofTokens_unmarked unmarked]
    simp [Token.endOf, none_]
  · rw [here, ofTokens_marked before marked, Token.endOf_marked before marked, ← marked]

/-- Reading a program ends: at the first end mark, after statements that took a token each, or
with the first statement that is refused. What is given after the end mark plays no part. -/
theorem Program.read_to_end (file : String) (tokens : List Token) :
    (∀ c p, Stmt.read c = .ok p → ∃ taken, taken ≠ [] ∧ c.rest = taken ++ p.cursor.rest) ∧
    (∃ stmts d, Stmt.Sequence (.ofTokens file tokens) stmts d ∧
      stmts.length ≤ (tokens.takeWhile (·.kind != .eof)).length ∧
      ((d.rest = [] ∧ d.current = Token.endOf file tokens ∧
          Program.read file tokens = .ok (⟨stmts, d.spanFrom ⟨0, file⟩⟩, d)) ∨
        ∃ r, Stmt.read d = .error r ∧ Program.read file tokens = .error r)) ∧
    Program.parse file (Token.throughEnd tokens) = Program.parse file tokens := by
  refine ⟨fun c p read => ?_, ?_, ?_⟩
  · obtain ⟨taken, rest⟩ := (Stmt.leads_read read).rest
    refine ⟨taken, ?_, rest.symm⟩
    rintro rfl
    have fewer : p.cursor.rest.length < c.rest.length := p.fewer
    rw [← rest] at fewer
    simp at fewer
  · obtain ⟨stmts, d, sequence, outcome⟩ := Stmt.readAll_outcome (.ofTokens file tokens)
    refine ⟨stmts, d, sequence, ?_, ?_⟩
    · have most := sequence.size_le
      have ahead : (Cursor.ofTokens file tokens).size =
          (tokens.takeWhile (·.kind != .eof)).length := by
        rw [Cursor.size, Cursor.rest_ofTokens]
      omega
    · rcases outcome with ⟨ended, all⟩ | ⟨r, refused, all⟩
      · refine .inl ⟨ended, Cursor.current_of_leads sequence.leads ended, ?_⟩
        rw [Program.read, all]
        rfl
      · refine .inr ⟨r, refused, ?_⟩
        rw [Program.read, all]
        rfl
  · unfold Program.parse Program.read
    rw [Cursor.ofTokens_throughEnd, Stmt.readAll_past]
    cases Stmt.readAll (.ofTokens file tokens) <;> rfl

def Token.markInside : List Token :=
  [⟨.identifier, "a", .null⟩, ⟨.eof, "EOF", .null⟩, ⟨.identifier, "b", .null⟩]

/-- Reading ends at the mark. -/
theorem Program.read_to_end_markInside : ∃ stmts d,
    Stmt.Sequence (.ofTokens "f" Token.markInside) stmts d ∧ stmts.length ≤ 1 ∧ d.rest = [] ∧
      d.current = ⟨.eof, "EOF", .null⟩ ∧
      Program.read "f" Token.markInside = .ok (⟨stmts, d.spanFrom ⟨0, "f"⟩⟩, d) ∧
      Program.parse "f" (Token.throughEnd Token.markInside) =
        Program.parse "f" Token.markInside := by
  have accepted : (Program.read "f" Token.markInside).toOption.isSome = true := by decide +kernel
  obtain ⟨_, ⟨stmts, d, sequence, most, outcome⟩, same⟩ :=
    Program.read_to_end "f" Token.markInside
  rcases outcome with ⟨ended, here, read⟩ | ⟨r, _, refused⟩
  · exact ⟨stmts, d, sequence, most, ended, here, read, same⟩
  · rw [refused] at accepted
    cases accepted

end ShapeLang
