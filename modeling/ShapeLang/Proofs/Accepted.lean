import Mathlib.Data.List.Forall2
import ShapeLang.Proofs.Annotation
import ShapeLang.Proofs.Comparison
import ShapeLang.Proofs.Scoping

/-!
# What goes well, part by part

A node goes well only if its parts do. For every kind of node this is said of the
parts that a path can lead through: which names have a value where they start, and
which names can have one after the node that had none before it.
-/

namespace ShapeLang

theorem Assigned.max_eq_always {a b : Assigned} :
    a.max b = .always ↔ a = .always ∨ b = .always := by
  cases a <;> cases b <;> decide

section

variable {α β : Type} {R : α → β → Prop} {as : List α} {bs : List β}

/-- Lists related element by element: each element of the first has its partner in the second. -/
theorem exists_right_of_forall₂ (each : List.Forall₂ R as bs) {a : α} (listed : a ∈ as) :
    ∃ b ∈ bs, R a b := by
  obtain ⟨i, bound, rfl⟩ := List.getElem_of_mem listed
  have bound' : i < bs.length := each.length_eq ▸ bound
  exact ⟨bs[i], List.getElem_mem bound', each.get bound bound'⟩

theorem exists_left_of_forall₂ (each : List.Forall₂ R as bs) {b : β} (listed : b ∈ bs) :
    ∃ a ∈ as, R a b :=
  exists_right_of_forall₂ each.flip listed

end

/-- The name has a value here, whatever path was taken. -/
def Checker.HasValue (s : Checker) (name : String) : Prop :=
  ∃ b, s.lookup? name = some b ∧ b.assigned = .always

def Arm.HasValue (arm : Arm) (name : String) : Prop :=
  ∃ b, arm.bindings.find? name = some b ∧ b.assigned = .always

/-- A name an arm hands on after its pattern's names are dropped has a value in the arm itself. -/
theorem Arm.HasValue.of_forget {arm : Arm} {pattern : Pattern} {name : String}
    (has : (arm.forget pattern).HasValue name) :
    arm.HasValue name ∧ name ∉ pattern.binds := by
  obtain ⟨b, found, always⟩ := has
  cases pattern with
  | value _ => exact ⟨⟨b, found, always⟩, List.not_mem_nil⟩
  | type bound _ =>
    have kept : (arm.bindings.erase bound).find? name = some b := found
    rw [NameMap.find?_erase] at kept
    split at kept
    · cases kept
    · rename_i other
      exact ⟨⟨b, kept, always⟩, by simpa [Pattern.binds] using other⟩

namespace Checker

/-- Only the listed names may have a value in the second checker and none in the first. -/
def Gains (s : Checker) (names : List String) (s' : Checker) : Prop :=
  ∀ name, s'.HasValue name → s.HasValue name ∨ name ∈ names

variable {s s₁ s₂ : Checker} {names more : List String}

namespace Gains

theorem refl (s : Checker) (names : List String) : s.Gains names s := fun _ => .inl

theorem trans (first : s.Gains names s₁) (second : s₁.Gains names s₂) : s.Gains names s₂ := by
  intro name has
  rcases second name has with has | listed
  · exact first name has
  · exact .inr listed

theorem mono (gains : s.Gains names s₁) (subset : names ⊆ more) : s.Gains more s₁ :=
  fun name has => (gains name has).imp_right (subset ·)

theorem of_lookup (same : ∀ name, s₁.lookup? name = s.lookup? name) : s.Gains names s₁ := by
  rintro name ⟨b, found, always⟩
  exact .inl ⟨b, same name ▸ found, always⟩

theorem of_noted (noted : s.Noted s₁) : s.Gains names s₁ := of_lookup noted.lookup?

/-- Where nothing may be gained, a name with a value afterwards had it before. -/
theorem hasValue (gains : s.Gains [] s₁) {name : String} (has : s₁.HasValue name) :
    s.HasValue name :=
  (gains name has).resolve_right List.not_mem_nil

theorem bind {name : String} {b : Binding}
    (value : b.assigned = .always → s.HasValue name ∨ name ∈ names) :
    s.Gains names (s.bind name b) := by
  rintro other ⟨found, bound, always⟩
  rw [lookup?_bind] at bound
  split at bound
  · rename_i same
    cases bound
    exact same ▸ value always
  · exact .inl ⟨found, bound, always⟩

/-- Entering a function gives its parameters values and no other name. -/
theorem bound (s : Checker) (params : List Param) (types : List Ty) :
    s.Gains (params.map (·.name)) (Check.bound s params types) := by
  rintro name ⟨b, found, always⟩
  by_cases param : name ∈ params.map (·.name)
  · exact .inr param
  · rw [Check.lookup?_bound s params types param] at found
    exact .inl ⟨b, found, always⟩

end Gains

/-- The expression has a type where no other names have a value. -/
def Types (s : Checker) (e : Expr) : Prop :=
  ∃ s₁ a s₂, s.Gains [] s₁ ∧ Check.checkExpr e s₁ = .ok (a, s₂) ∧ a.2.isSome = true

/-- With the notes left before it, the expression is checked to the other and has a type. -/
def Checks (s : Checker) (e e' : Expr) : Prop :=
  ∃ s₁ type s₂, s.Noted s₁ ∧ Check.checkExpr e s₁ = .ok ((e', some type), s₂)

/-- The block goes well where only the listed names may have a value besides, and ends in
the second checker. -/
def Enters (s : Checker) (names : List String) (body : Block) (s' : Checker) : Prop :=
  ∃ s₁ a, s.Gains names s₁ ∧ Check.checkBlock body s₁ = .ok (a, s') ∧ a.2 = true

/-- The block is one of the ways from the first checker to the second: what has a value then
has one after the block. The listed names are bound inside it only. -/
def Through (s : Checker) (names : List String) (body : Block) (s' : Checker) : Prop :=
  ∃ s₁, s.Enters names body s₁ ∧
    ∀ name, s'.HasValue name → s.HasValue name ∨ (s₁.HasValue name ∧ name ∉ names)

/-- What is known of a statement that went well, and of the checker after it. -/
def Passes (s : Checker) (stmt : Stmt) (s' : Checker) : Prop :=
  match stmt with
  | .expr value _ => s.Types value ∧ s.Gains [] s'
  | .define names value _ _ => s.Types value ∧ s.Gains (names.filter (· != "_")) s'
  | .declare _ _ none _ _ => s.Gains [] s'
  | .declare name _ (some value) _ _ => s.Types value ∧ s.Gains [name] s'
  | .classDecl decl _ => s.Gains [decl.name] s'
  | .methods .. => False
  | .ifElse condition yes no _ => s.Types condition ∧
      (∀ arm ∈ yes :: no.toList, s.Through [] arm s') ∧ (no = none → s.Gains [] s')
  | .whileLoop condition body _ => s.Types condition ∧ s.Through [] body s' ∧ s.Gains [] s'
  | .doWhile body condition _ =>
      (∃ s₁, s.Enters [] body s₁ ∧ s₁.Types condition) ∧ s.Gains [] s'
  | .switch subject cases otherwise _ => s.Types subject ∧
      (∀ c ∈ cases, (∀ e ∈ c.pattern.parts, s.Types e) ∧ s.Through c.pattern.binds c.body s') ∧
      (∀ arm ∈ otherwise, s.Through [] arm s') ∧ (otherwise = none → s.Gains [] s')
  | .return none _ => s.Gains [] s'
  | .return (some value) _ => s.Types value ∧ s.Gains [] s'

/-- An expression that has a type where no names were gained has one before that too. -/
theorem Types.of_gains {e : Expr} (gains : s.Gains [] s₁) (typed : s₁.Types e) : s.Types e := by
  obtain ⟨s₂, a, s₃, later, run, some⟩ := typed
  exact ⟨s₂, a, s₃, gains.trans later, run, some⟩

theorem Checks.types {e e' : Expr} (checks : s.Checks e e') : s.Types e := by
  obtain ⟨s₁, type, s₂, noted, run⟩ := checks
  exact ⟨s₁, _, s₂, .of_noted noted, run, rfl⟩

theorem Checks.of_noted {e e' : Expr} (noted : s.Noted s₁) (checks : s₁.Checks e e') :
    s.Checks e e' := by
  obtain ⟨s₂, type, s₃, later, run⟩ := checks
  exact ⟨s₂, type, s₃, noted.trans later, run⟩

/-- A block that goes well where no names were gained goes well before that too. -/
theorem Enters.of_gains {body : Block} (gains : s.Gains [] s₁)
    (enters : s₁.Enters names body s₂) : s.Enters names body s₂ := by
  obtain ⟨s₃, a, later, run, ok⟩ := enters
  exact ⟨s₃, a, (gains.mono (List.nil_subset _)).trans later, run, ok⟩

end Checker

namespace Check

open Checker (Gains)

variable {s : Checker}

/-- A name is read with success only where it has a value. -/
theorem read_hasValue (name : String) (span : Span) :
    Gives (read name span) s fun result s' => s.Noted s' ∧
      (result.isSome = true → s.HasValue name) := by
  refine .and (read_notes name span s) ?_
  refine (read_outcome name span).imp fun _ s' outcome typed => ?_
  cases outcome with
  | assigned found _ always => exact ⟨_, found, always⟩
  | silent => cases typed
  | refused => cases typed

theorem checkExpr_types (e : Expr) : Gives (checkExpr e) s fun result s' =>
    s.Noted s' ∧ (result.2.isSome = true → s.Types e) :=
  .and (checkExpr_notes e s) fun a s' run typed => ⟨s, a, s', .refl s [], run, typed⟩

theorem checkExpr_checks (e : Expr) : Gives (checkExpr e) s fun result s' =>
    s.Noted s' ∧ (result.2.isSome = true → s.Checks e result.1) := by
  refine .and (checkExpr_notes e s) fun result s' run typed => ?_
  obtain ⟨type, same⟩ := Option.isSome_iff_exists.mp typed
  exact ⟨s, type, s', .refl s, same ▸ run⟩

/-- The items of a list are checked one after the other, each on its own. -/
theorem checkExprs_checks (es : List Expr) : Gives (checkExprs es) s fun result s' =>
    s.Noted s' ∧ (result.2.isSome = true → List.Forall₂ s.Checks es result.1) := by
  refine .and (checkExprs_notes es s) ?_
  induction es generalizing s with
  | nil =>
    rw [checkExprs]
    exact .pure fun _ => .nil
  | cons e es ih =>
    rw [checkExprs]
    refine (checkExpr_checks e).bind fun (e', type) s₁ ⟨noted, first⟩ => ?_
    refine ih.bind fun (es', types) s₂ others => ?_
    cases type with
    | none => exact .pure (by simp)
    | some type =>
      cases types with
      | none => exact .pure (by simp)
      | some types =>
        refine .pure fun _ => .cons (first rfl) ((others rfl).imp fun _ _ checks => ?_)
        exact .of_noted noted checks

/-- A check notes the type that it finds. -/
theorem checkExpr_note (e : Expr) (s : Checker) :
    Gives (checkExpr e) s fun checked _ => checked.1.note.type = checked.2 := by
  cases e with
  | literal value note =>
    rw [checkExpr]
    exact .after_get (.pure rfl)
  | symbol name note =>
    rw [checkExpr]
    exact Gives.any.bind fun _ _ _ => .pure rfl
  | member object name note =>
    rw [checkExpr]
    refine Gives.any.bind ?_
    rintro ⟨object, receiver⟩ _ _
    cases receiver <;> exact Gives.any.bind fun _ _ _ => .pure rfl
  | call callee args note =>
    rw [checkExpr]
    refine Gives.any.bind ?_
    rintro ⟨callee, value⟩ _ _
    refine Gives.any.bind ?_
    rintro ⟨args, types⟩ _ _
    cases value <;> cases types <;> exact Gives.any.bind fun _ _ _ => .pure rfl
  | index object position note =>
    rw [checkExpr]
    refine Gives.any.bind ?_
    rintro ⟨object, receiver⟩ _ _
    refine Gives.any.bind ?_
    rintro ⟨position, place⟩ _ _
    cases receiver <;> cases place <;> exact Gives.any.bind fun _ _ _ => .pure rfl
  | construct name args note =>
    rw [checkExpr]
    refine Gives.any.bind fun value _ _ => Gives.any.bind ?_
    rintro ⟨args, types⟩ _ _
    cases value <;> cases types <;> exact Gives.any.bind fun _ _ _ => .pure rfl
  | cast value target note =>
    rw [checkExpr]
    refine Gives.any.bind ?_
    rintro ⟨value, source⟩ _ _
    refine Gives.any.bind fun wanted _ _ => ?_
    cases source <;> cases wanted <;> exact Gives.any.bind fun _ _ _ => .pure rfl
  | tuple items note =>
    rw [checkExpr]
    refine Gives.any.bind ?_
    rintro ⟨items, types⟩ _ _
    cases types <;> exact Gives.any.bind fun _ _ _ => .pure rfl
  | spread value note =>
    rw [checkExpr]
    refine Gives.any.bind ?_
    rintro ⟨value, inner⟩ _ _
    cases inner <;> exact Gives.any.bind fun _ _ _ => .pure rfl
  | array items note =>
    rw [checkExpr]
    refine Gives.any.bind ?_
    rintro ⟨items, types⟩ _ _
    cases types <;> exact Gives.any.bind fun _ _ _ => .pure rfl
  | binary left operator right note =>
    rw [checkExpr]
    refine Gives.any.bind ?_
    rintro ⟨left, leftType⟩ _ _
    refine Gives.any.bind ?_
    rintro ⟨right, rightType⟩ _ _
    cases leftType <;> cases rightType <;> exact Gives.any.bind fun _ _ _ => .pure rfl
  | function generics params result body note =>
    rw [checkExpr]
    split
    · exact Gives.any.bind fun _ _ _ => .pure rfl
    · refine Gives.any.bind fun types _ _ => Gives.any.bind fun declared _ _ => ?_
      cases types with
      | none => cases declared <;> exact .pure rfl
      | some types =>
        cases declared with
        | none => exact .pure rfl
        | some declared =>
          refine Gives.any.bind fun _ _ _ => Gives.any.bind fun _ _ _ => ?_
          refine Gives.any.bind ?_
          rintro ⟨body, ok⟩ _ _
          refine Gives.any.bind fun returned _ _ => ?_
          cases ok with
          | false => exact .pure rfl
          | true => exact Gives.any.bind fun _ _ _ => .pure rfl

/-- An expression that has a type reads names that have a value, and its parts have types. -/
theorem checkExpr_parts (e : Expr) : Gives (checkExpr e) s fun result _ =>
    result.2.isSome = true →
      (∀ name ∈ e.names, s.HasValue name) ∧ List.Forall₂ s.Checks e.parts result.1.parts := by
  cases e with
  | literal value note =>
    rw [checkExpr]
    exact .after_get (.pure fun _ => ⟨by simp [Expr.names], .nil⟩)
  | symbol name note =>
    rw [checkExpr]
    refine (read_hasValue name note.span).bind fun type s₁ ⟨_, has⟩ => .pure fun typed => ?_
    exact ⟨by simpa [Expr.names] using has typed, .nil⟩
  | member object name note =>
    rw [checkExpr]
    refine (checkExpr_checks object).bind fun (object', receiver) s₁ ⟨_, typed⟩ => ?_
    cases receiver with
    | none => exact .pure (by simp)
    | some receiver =>
      refine Gives.any.bind fun _ _ _ => .pure fun _ => ⟨by simp [Expr.names], ?_⟩
      exact .cons (typed rfl) .nil
  | call callee args note =>
    rw [checkExpr]
    refine (checkExpr_checks callee).bind fun (callee', value) s₁ ⟨noted, typed⟩ => ?_
    refine (checkExprs_checks args).bind fun (args', types) s₂ ⟨_, others⟩ => ?_
    rcases value with _ | value <;> rcases types with _ | types
    case some.some =>
      refine Gives.any.bind fun _ _ _ => .pure fun _ => ⟨by simp [Expr.names], ?_⟩
      exact .cons (typed rfl) ((others rfl).imp fun _ _ checks => .of_noted noted checks)
    all_goals exact .pure (by simp)
  | index object position note =>
    rw [checkExpr]
    refine (checkExpr_checks object).bind fun (object', receiver) s₁ ⟨noted, typed⟩ => ?_
    refine (checkExpr_checks position).bind fun (position', place) s₂ ⟨_, typed'⟩ => ?_
    rcases receiver with _ | receiver <;> rcases place with _ | place
    case some.some =>
      refine Gives.any.bind fun _ _ _ => .pure fun _ => ⟨by simp [Expr.names], ?_⟩
      exact .cons (typed rfl) (.cons (.of_noted noted (typed' rfl)) .nil)
    all_goals exact .pure (by simp)
  | construct name args note =>
    rw [checkExpr]
    refine (read_hasValue name note.span).bind fun value s₁ ⟨noted, has⟩ => ?_
    refine (checkExprs_checks args).bind fun (args', types) s₂ ⟨_, others⟩ => ?_
    rcases value with _ | value <;> rcases types with _ | types
    case some.some =>
      refine Gives.any.bind fun _ _ _ => .pure fun _ => ⟨?_, ?_⟩
      · exact List.forall_mem_singleton.mpr (has rfl)
      · exact (others rfl).imp fun _ _ checks => .of_noted noted checks
    all_goals exact .pure (by simp)
  | cast value target note =>
    rw [checkExpr]
    refine (checkExpr_checks value).bind fun (value', source) s₁ ⟨_, typed⟩ => ?_
    refine Gives.any.bind fun wanted _ _ => ?_
    rcases source with _ | source <;> rcases wanted with _ | wanted
    case some.some =>
      refine Gives.any.bind fun _ _ _ => .pure fun _ => ⟨by simp [Expr.names], ?_⟩
      exact .cons (typed rfl) .nil
    all_goals exact .pure (by simp)
  | tuple items note =>
    rw [checkExpr]
    refine (checkExprs_checks items).bind fun (items', types) s₁ ⟨_, typed⟩ => ?_
    cases types with
    | none => exact .pure (by simp)
    | some types =>
      exact Gives.any.bind fun _ _ _ => .pure fun _ => ⟨by simp [Expr.names], typed rfl⟩
  | spread value note =>
    rw [checkExpr]
    refine (checkExpr_checks value).bind fun (value', inner) s₁ ⟨_, typed⟩ => ?_
    cases inner with
    | none => exact .pure (by simp)
    | some inner =>
      refine Gives.any.bind fun _ _ _ => .pure fun _ => ⟨by simp [Expr.names], ?_⟩
      exact .cons (typed rfl) .nil
  | array items note =>
    rw [checkExpr]
    refine (checkExprs_checks items).bind fun (items', types) s₁ ⟨_, typed⟩ => ?_
    cases types with
    | none => exact .pure (by simp)
    | some types =>
      exact Gives.any.bind fun _ _ _ => .pure fun _ => ⟨by simp [Expr.names], typed rfl⟩
  | binary left operator right note =>
    rw [checkExpr]
    refine (checkExpr_checks left).bind fun (left', leftType) s₁ ⟨noted, typed⟩ => ?_
    refine (checkExpr_checks right).bind fun (right', rightType) s₂ ⟨_, typed'⟩ => ?_
    rcases leftType with _ | leftType <;> rcases rightType with _ | rightType
    case some.some =>
      refine Gives.any.bind fun _ _ _ => .pure fun _ => ⟨by simp [Expr.names], ?_⟩
      exact .cons (typed rfl) (.cons (.of_noted noted (typed' rfl)) .nil)
    all_goals exact .pure (by simp)
  | function =>
    refine (checkExpr_bare _ s).imp fun checked _ same _ => ⟨by simp [Expr.names], ?_⟩
    obtain ⟨_, _, function, _⟩ := Expr.bare_eq_function same
    rw [function]
    exact .nil

/-- How a function of the type was checked: first its annotations, then its body where the
parameters are bound. -/
structure Made (s : Checker) (params : List Param) (result : Option TypeTerm) (body : Block)
    (span : Span) (types : List Ty) (declared : Option Ty) (before : Checker) (body' : Block)
    (last : Checker) (type : Ty) : Prop where
  annotated : ∃ s₁, resolveTerms (params.map (·.term)) s = .ok (some types, s₁) ∧
    resolveResult result s₁ = .ok (some declared, before)
  noted : s.Noted before
  ran : checkBlock body (bound (before.enter (.function declared)) params types) =
    .ok ((body', true), last)
  left : before.Noted { last with frame := before.frame, outer := before.outer }
  typed : ∃ s', functionType types declared last.frame.returns span
    { last with frame := before.frame, outer := before.outer } = .ok (some type, s')

/-- An accepted function was given by the types of its parameters, its declared result and a
check of its body, from which its own type is put together. -/
theorem checkExpr_made (generics : List String) (params : List Param) (result : Option TypeTerm)
    (body : Block) (note : Note) :
    Gives (checkExpr (.function generics params result body note)) s fun checked _ =>
      ∀ type, checked.2 = some type → ∃ types declared before body' last,
        checked.1 = .function generics params result body' { note with type := some type } ∧
          Made s params result body note.span types declared before body' last type := by
  rw [checkExpr]
  split
  · exact Gives.any.bind fun _ _ _ => .pure (by simp)
  · refine Gives.bind (fun _ _ run => run) fun types s₁ taken => ?_
    refine Gives.bind (fun _ _ run => run) fun declared s₂ promised => ?_
    have noted := (scoping.resolveTerms (fun _ _ => trivial) s _ _ taken).trans
      (scoping.resolveResult (fun _ _ => trivial) s₁ _ _ promised)
    rcases types with _ | types <;> rcases declared with _ | declared
    case some.some =>
      refine inFunction_gives (checkBlock_advances body) (fun _ _ run => run) ?_
      rintro ⟨body', ok⟩ last ran left
      cases ok with
      | false => exact .pure (by simp)
      | true =>
        refine Gives.bind (fun _ _ run => run) fun found s₃ typed => .pure fun type same => ?_
        obtain rfl : found = some type := same
        exact ⟨types, declared, s₂, body', last, rfl, ⟨s₁, taken, promised⟩, noted, ran, left, s₃,
          typed⟩
    all_goals exact .pure (by simp)

/-- The body of a function that has a type goes well where its parameters have a value. -/
theorem checkExpr_body (generics : List String) (params : List Param) (result : Option TypeTerm)
    (body : Block) (note : Note) :
    Gives (checkExpr (.function generics params result body note)) s fun checked _ =>
      checked.2.isSome = true → ∃ s', s.Enters (params.map (·.name)) body s' := by
  refine (checkExpr_made generics params result body note).imp fun checked _ made some_ => ?_
  obtain ⟨type, same⟩ := Option.isSome_iff_exists.mp some_
  obtain ⟨types, declared, before, body', last, _, made⟩ := made type same
  have opened : s.Gains (params.map (·.name)) (before.enter (.function declared)) :=
    .of_lookup made.noted.lookup?
  exact ⟨last, _, _, opened.trans (.bound _ params types), made.ran, rfl⟩

/-! ## Binding names -/

theorem define_gains (name : String) (type : Ty) (assigned : Assigned) (constant : Bool)
    (span : Span) (names : List String) (listed : assigned = .always → name ∈ names) :
    Gives (define name type assigned constant span) s fun _ s' => s.Gains names s' := by
  refine (define_outcome name type assigned constant span).imp fun _ s' outcome => ?_
  cases outcome with
  | fresh => exact .bind fun always => .inr (listed always)
  | @rebound old merged found =>
    refine .bind fun always => ?_
    rcases Assigned.max_eq_always.mp always with before | now
    · exact .inl ⟨old, found, before⟩
    · exact .inr (listed now)
  | refused => exact .of_lookup fun _ => rfl

/-- Naming the parts of a tuple gives values to these names alone; an underscore names nothing. -/
theorem defineEach_gains (constant : Bool) (span : Span) {names : List String}
    (pairs : List (String × Ty)) (listed : ∀ pair ∈ pairs, pair.1 ∈ names) :
    Gives (defineEach constant span pairs) s fun _ s' =>
      s.Gains (names.filter (· != "_")) s' := by
  induction pairs generalizing s with
  | nil => exact .pure (.refl s _)
  | cons pair pairs ih =>
    obtain ⟨name, type⟩ := pair
    obtain ⟨here, others⟩ := List.forall_mem_cons.mp listed
    rw [defineEach]
    split
    · exact .after_pure ((ih others).bind fun _ _ gains => .pure gains)
    · rename_i named
      have kept : name ∈ names.filter (· != "_") := List.mem_filter.mpr ⟨here, by simpa using named⟩
      refine (define_gains name type _ constant span _ fun _ => kept).bind fun _ s₁ gains => ?_
      exact (ih others).bind fun _ _ later => .pure (gains.trans later)

theorem defineNames_gains (names : List String) (type : Ty) (constant : Bool) (span : Span) :
    Gives (defineNames names type constant span) s fun result s' =>
      result.isSome = true → s.Gains (names.filter (· != "_")) s' := by
  have each (pairs : List (String × Ty)) (listed : ∀ pair ∈ pairs, pair.1 ∈ names) : Gives (do
      let bound ← defineEach constant span pairs
      return if bound then some type else none : Check (Option Ty)) s fun _ s' =>
        s.Gains (names.filter (· != "_")) s' :=
    (defineEach_gains constant span pairs listed).bind fun _ _ gains => .pure gains
  have plain := each (names.map (·, type)) (by simp)
  cases type with
  | spread items =>
    rw [defineNames]
    split
    · exact Gives.any.bind fun _ _ _ => Gives.after_modify (.pure (by simp))
    · exact (each _ fun pair listed => (List.of_mem_zip listed).1).imp fun _ _ gains _ => gains
  | _ => exact plain.imp fun _ _ gains _ => gains

theorem declareClass_gains (decl : ClassDecl) (span : Span) :
    Gives (declareClass decl span) s fun result s' =>
      result.isSome = true → s.Gains [decl.name] s' := by
  have named (s : Checker) : Gives (declareNamed decl span) s fun _ s' =>
      s.Gains [decl.name] s' := by
    refine (claimClass_outcome decl.name).bind fun result s₁ outcome => ?_
    cases outcome with
    | taken => exact Gives.after_modify (.pure (.of_lookup fun _ => rfl))
    | @claimed id classes =>
      refine .after_get (.after_lift fun type _ => ?_)
      refine (define_gains _ type .always _ _ _ fun _ => List.mem_singleton_self _).bind
        fun bound s₂ gains => ?_
      have defined : s.Gains [decl.name] s₂ := .trans (.of_lookup fun _ => rfl) gains
      cases bound with
      | none => exact .pure defined
      | some bound =>
        refine (collectFields_notes _ _ s₂).bind fun (_, fields) s₃ noted => ?_
        refine (collectConstructors_notes _ s₃).bind fun (_, constructors) s₄ noted' => ?_
        refine .after_get (.after_lift fun _ _ => .after_lift fun _ _ => .after_set (.pure ?_))
        exact defined.trans (.of_lookup (noted.trans noted').lookup?)
  cases root : s.atRoot with
  | false =>
    refine .of_run (declareClass_inside decl span root) ?_
    exact Gives.any.bind fun _ _ _ => Gives.after_modify (.pure (by simp))
  | true =>
    refine .of_run (declareClass_root decl span root) ?_
    refine (warnIf_notes _ _ _ s).bind fun _ s₁ first => ?_
    refine (warnIf_notes _ _ _ s₁).bind fun _ s₂ second => ?_
    have same : s.Gains [decl.name] s₂ := .of_noted (first.trans second)
    exact (named s₂).imp fun _ _ gains _ => same.trans gains

theorem recordReturn_gains (value : Ty) (span : Span) :
    Gives (recordReturn value span) s fun _ s' => s.Gains [] s' := by
  refine (recordReturn_outcome value span).imp fun _ s' outcome => ?_
  cases outcome with
  | recorded => exact .of_lookup fun _ => rfl
  | refused => exact .of_lookup fun _ => rfl

/-! ## Merging arms -/

/-- Joining the types of the arms leaves open what is said about assignment. -/
theorem joinBindings_assigned (t : ClassTable) {merged result : Binding} {others : List Binding}
    {failure : Option JoinFailure} (joined : t.joinBindings merged others = .ok (result, failure)) :
    result.assigned = merged.assigned := by
  induction others generalizing merged with
  | nil =>
    cases joined
    rfl
  | cons other others ih =>
    rw [ClassTable.joinBindings] at joined
    split at joined
    · cases joined
      rfl
    · obtain ⟨verdict, _, joined⟩ := bind_eq_ok.mp joined
      cases verdict with
      | ok type =>
        have kept := ih joined
        exact kept
      | error reason =>
        cases joined
        rfl

/-- What arms can give a name: a value if exactly one of them runs and all of them do. -/
def AllGive (arms : List Arm) (exhaustive : Bool) (name : String) : Prop :=
  exhaustive = true ∧ ∀ arm ∈ arms, arm.HasValue name

/-- A name is assigned after the arms only if every arm assigns it and no way leads past them. -/
theorem AllGive.of_afterArms {arms : List Arm} {exhaustive : Bool} {name : String}
    (always : Assigned.afterArms exhaustive (Arm.states arms name) = .always) :
    AllGive arms exhaustive name := by
  unfold Assigned.afterArms at always
  split at always
  · rename_i all
    obtain ⟨exhaustive, states⟩ := Bool.and_eq_true_iff.mp all
    refine ⟨exhaustive, fun arm listed => ?_⟩
    have state := List.all_eq_true.mp states _ (List.mem_map_of_mem listed)
    split at state
    · rename_i b found
      exact ⟨b, found, by simpa using state⟩
    · cases state
  · split at always <;> cases always

/-- Merging one name gives no value to a name, unless all arms give it one. -/
theorem mergeName_hasValue (arms : List Arm) (exhaustive : Bool) (span : Span) (name : String) :
    Gives (mergeName arms exhaustive span name) s fun _ s' => ∀ other, s'.HasValue other →
      s.HasValue other ∨ AllGive arms exhaustive other := by
  have bind {s : Checker} {b : Binding}
      (value : b.assigned = .always → s.HasValue name ∨ AllGive arms exhaustive name)
      (other : String) (has : (s.bind name b).HasValue other) :
      s.HasValue other ∨ AllGive arms exhaustive other := by
    obtain ⟨found, bound, always⟩ := has
    rw [Checker.lookup?_bind] at bound
    split at bound
    · rename_i same
      cases bound
      exact same ▸ value always
    · exact .inl ⟨found, bound, always⟩
  refine (mergeName_outcome arms exhaustive span name).imp fun _ s' outcome => ?_
  cases outcome with
  | @outer b type found =>
    refine bind fun always => ?_
    rcases Assigned.max_eq_always.mp always with before | after
    · exact .inl ⟨b, found, before⟩
    · exact .inr (.of_afterArms after)
  | absent => exact fun _ => .inl
  | introduced _ _ joined =>
    refine bind fun always => .inr (.of_afterArms ?_)
    rw [← always, joinBindings_assigned _ joined]
  | conflict _ _ joined =>
    refine bind fun always => .inr (.of_afterArms ?_)
    rw [← always, joinBindings_assigned _ joined]

theorem mergeNames_hasValue (arms : List Arm) (exhaustive : Bool) (span : Span)
    (names : List String) :
    Gives (mergeNames arms exhaustive span names) s fun _ s' => ∀ name, s'.HasValue name →
      s.HasValue name ∨ AllGive arms exhaustive name := by
  induction names generalizing s with
  | nil => exact .pure fun _ => .inl
  | cons name names ih =>
    refine (mergeName_hasValue arms exhaustive span name).bind fun _ s₁ first => ?_
    refine ih.bind fun _ s₂ rest => .pure fun other has => ?_
    rcases rest other has with has | given
    · exact first other has
    · exact .inr given

/-- After the arms of a statement a name has a value only if it had one before or all arms give
it one. -/
theorem mergeArms_hasValue (arms : List Arm) (exhaustive : Bool) (span : Span) {s₀ : Checker}
    (same : s.Noted s₀) :
    Gives (mergeArms arms exhaustive span) s₀ fun _ s' => ∀ name, s'.HasValue name →
      s.HasValue name ∨ AllGive arms exhaustive name := by
  have start {name : String} (has : s₀.HasValue name) : s.HasValue name :=
    (Gains.of_noted same).hasValue has
  refine (mergeNames_hasValue arms exhaustive span _).bind fun bindings s₁ merged => ?_
  simp only
  split
  · refine .after_get ((scoping.mergeReturns trivial _ _ s₁).bind fun result s₂ noted => ?_)
    refine .after_modify (.pure fun name has => (merged name ?_).imp_left start)
    exact (Gains.of_lookup noted.lookup?).hasValue has
  · exact .pure fun name has => (merged name has).imp_left start

/-- Where no arm has to run, the arms give nothing a value. -/
theorem gains_of_partial {arms : List Arm} {s' : Checker}
    (given : ∀ name, s'.HasValue name → s.HasValue name ∨ AllGive arms false name) :
    s.Gains [] s' := by
  intro name has
  rcases given name has with has | ⟨impossible, _⟩
  · exact .inl has
  · cases impossible

/-! ## Statements -/

theorem conditionType_isSome (type : Option Ty) (span : Span) :
    Gives (conditionType type span) s fun ok s' =>
      s.Noted s' ∧ (ok = true → type.isSome = true) := by
  refine .and (scoping.conditionType type trivial s) ?_
  cases type with
  | none => exact .pure (by simp)
  | some type => exact fun _ _ _ _ => rfl

theorem typePattern_gains (subject : Ty) (name : String) (term : TypeTerm) (span : Span) :
    Gives (typePattern subject name term span) s fun _ s' => s.Gains [name] s' := by
  refine (scoping.resolveTerm trivial s).bind fun pattern s₁ noted => ?_
  cases pattern with
  | none => exact .pure (.of_noted noted)
  | some pattern =>
    refine (scoping.narrows pattern subject s₁).bind fun accepted s₂ noted' => ?_
    have same : s.Gains [name] s₂ := .of_noted (noted.trans noted')
    cases accepted with
    | false => exact .after_fail (.pure (same.trans (.of_lookup fun _ => rfl)))
    | true =>
      refine .after_modify (.pure (same.trans (.bind fun _ => .inr ?_)))
      exact List.mem_singleton_self name

/-- A pattern gives values to the names it binds, and succeeds only if its parts have types. -/
theorem checkPattern_gains (subject : Ty) (span : Span) (pattern : Pattern) :
    Gives (checkPattern subject span pattern) s fun checked s' =>
      checked.1.binds = pattern.binds ∧ s.Gains pattern.binds s' ∧
        (checked.2 = true → ∀ e ∈ pattern.parts, s.Types e) := by
  cases pattern with
  | type name term =>
    rw [checkPattern]
    refine (typePattern_gains subject name term span).bind fun ok s₁ gains => .pure ?_
    exact ⟨rfl, gains, by simp [Pattern.parts]⟩
  | value e =>
    rw [checkPattern]
    refine (checkExpr_types e).bind fun checked s₁ types => ?_
    obtain ⟨e', type⟩ := checked
    obtain ⟨noted, typed⟩ := types
    cases type with
    | none => exact .pure ⟨rfl, .of_noted noted, by simp⟩
    | some type =>
      refine (scoping.valuePattern subject type trivial s₁).bind fun ok s₂ noted' => .pure ?_
      refine ⟨rfl, .of_noted (noted.trans noted'), fun _ => ?_⟩
      exact List.forall_mem_singleton.mpr (typed rfl)

theorem checkCaseBody_enters (subject : Ty) (span : Span) (pattern : Pattern) (body : Block) :
    Gives (checkCaseBody subject span pattern body) (s.enter .branch) fun checked s' =>
      checked.1.1.binds = pattern.binds ∧ ((checked.1.2 && checked.2.2) = true →
        (∀ e ∈ pattern.parts, s.Types e) ∧ s.Enters pattern.binds body s') := by
  have opened {names : List String} : s.Gains names (s.enter .branch) := .of_lookup fun _ => rfl
  refine (checkPattern_gains subject span pattern).bind fun checked s₁ ⟨binds, gains, typed⟩ => ?_
  refine Gives.bind (fun _ _ run => run) fun block s₂ run => .pure ⟨binds, fun ok => ?_⟩
  obtain ⟨patternOk, bodyOk⟩ := Bool.and_eq_true_iff.mp ok
  exact ⟨fun e listed => .of_gains opened (typed patternOk e listed),
    s₁, block, opened.trans gains, run, bodyOk⟩

/-- The condition of a `do` loop is checked behind the body, in the body's own scope. -/
theorem checkDoBody_enters (body : Block) (condition : Expr) :
    Gives (checkDoBody body condition) (s.enter .branch) fun checked _ =>
      (checked.1.2 && checked.2.2) = true → ∃ s', s.Enters [] body s' ∧ s'.Types condition := by
  refine Gives.bind (fun _ _ run => run) fun block s₁ run => ?_
  refine (checkExpr_types condition).bind fun value s₂ ⟨_, typed⟩ => ?_
  refine (conditionType_isSome value.2 _).bind fun ok s₃ ⟨_, isSome⟩ => .pure fun both => ?_
  obtain ⟨blockOk, conditionOk⟩ := Bool.and_eq_true_iff.mp both
  have opened : s.Gains [] (s.enter .branch) := .of_lookup fun _ => rfl
  exact ⟨s₁, ⟨_, block, opened, run, blockOk⟩, typed (isSome conditionOk)⟩

/-- Every case goes well where its pattern binds its name, and has an arm. -/
theorem checkCases_enters (subject : Ty) (cases : List Case) :
    Gives (checkCases subject cases) s fun checked s' => s.Noted s' ∧ (checked.2.2 = true →
      ∀ c ∈ cases, (∀ e ∈ c.pattern.parts, s.Types e) ∧ ∃ s₁,
        s.Enters c.pattern.binds c.body s₁ ∧ ∃ arm ∈ checked.2.1, ∀ name, arm.HasValue name →
          s₁.HasValue name ∧ name ∉ c.pattern.binds) := by
  induction cases generalizing s with
  | nil =>
    rw [checkCases]
    exact .pure ⟨.refl s, by simp⟩
  | cons c cases ih =>
    obtain ⟨pattern, body, span⟩ := c
    rw [checkCases_cons]
    refine inBranch_gives (checkCaseBody_advances subject span pattern body)
      (checkCaseBody_enters subject span pattern body)
      fun checked s₁ body noted => ?_
    obtain ⟨binds, entered⟩ := body
    refine ih.bind fun checked' s₂ given => ?_
    obtain ⟨cases', arms, ok⟩ := checked'
    obtain ⟨noted', others⟩ := given
    refine .pure ⟨noted.trans noted', fun all => ?_⟩
    obtain ⟨here, rest⟩ := Bool.and_eq_true_iff.mp all
    refine List.forall_mem_cons.mpr ⟨?_, fun c listed => ?_⟩
    · obtain ⟨typed, enters⟩ := entered here
      refine ⟨typed, s₁, enters, _, List.mem_cons_self, fun name has => ?_⟩
      exact binds ▸ Arm.HasValue.of_forget has
    · obtain ⟨typed, s₃, enters, arm, member, given⟩ := others rest c listed
      have same : s.Gains [] _ := .of_noted noted
      exact ⟨fun e part => .of_gains same (typed e part), s₃, .of_gains same enters, arm,
        List.mem_cons_of_mem _ member, given⟩

/-- A block that went well in a branch is a way to wherever its values are kept. -/
theorem through_of_branch {body : Block} {checked : Block × Bool} {s₀ s₁ s' : Checker}
    (same : s.Noted s₀) (run : checkBlock body (s₀.enter .branch) = .ok (checked, s₁))
    (ok : checked.2 = true)
    (kept : ∀ name, s'.HasValue name → s.HasValue name ∨ s₁.HasValue name) :
    s.Through [] body s' := by
  have opened : s.Gains [] (s₀.enter .branch) := .of_lookup same.lookup?
  refine ⟨s₁, ⟨_, checked, opened, run, ok⟩, fun name has => ?_⟩
  exact (kept name has).imp_right fun has => ⟨has, List.not_mem_nil⟩

/-- An accepted statement passes: its values have types, its blocks were entered and went well,
and it gives values to no names but those it assigns. -/
theorem checkStmt_passes (stmt : Stmt) : Gives (checkStmt stmt) s fun checked s' =>
    checked.2.isSome = true → s.Passes stmt s' := by
  match stmt with
  | .expr value span =>
    rw [checkStmt]
    refine (checkExpr_types value).bind fun _ s₁ ⟨noted, typed⟩ => .pure fun ok => ?_
    exact ⟨typed ok, .of_noted noted⟩
  | .define names value constant span =>
    rw [checkStmt]
    refine (checkExpr_types value).bind fun (value', type) s₁ ⟨noted, typed⟩ => ?_
    cases type with
    | none => exact Gives.any.bind fun _ _ _ => .pure (by simp)
    | some type =>
      refine (defineNames_gains names type constant span).bind fun bound s₂ gains => .pure ?_
      exact fun ok => ⟨typed rfl, .trans (.of_noted noted) (gains ok)⟩
  | .declare name term none constant span =>
    rw [checkStmt]
    refine (scoping.resolveTerm trivial s).bind fun type s₁ noted => ?_
    cases type with
    | none => exact Gives.any.bind fun _ _ _ => .pure (by simp)
    | some type =>
      refine (define_gains name type .never constant span [] nofun).bind fun bound s₂ gains => ?_
      have gains : s.Gains [] s₂ := .trans (.of_noted noted) gains
      cases bound <;> exact .pure fun _ => gains
  | .declare name term (some value) constant span =>
    rw [checkStmt]
    refine (scoping.resolveTerm trivial s).bind fun declared s₁ noted => ?_
    refine (checkExpr_types value).bind fun (value', received) s₂ ⟨noted', typed⟩ => ?_
    cases declared with
    | none => exact Gives.any.bind fun _ _ _ => .pure (by simp)
    | some type =>
      cases received with
      | none =>
        refine .after_pure (Gives.any.bind fun bound _ _ => ?_)
        cases bound <;> exact .pure (by simp)
      | some received =>
        refine (scoping.expectType _ _ trivial s₂).bind fun fits s₃ noted'' => ?_
        refine (define_gains name type .always constant span _
          fun _ => List.mem_singleton_self _).bind fun bound s₄ gains => ?_
        have known : s.Types value := .of_gains (.of_noted noted) (typed rfl)
        have gains : s.Gains [name] s₄ :=
          .trans (.of_noted ((noted.trans noted').trans noted'')) gains
        cases bound <;> cases fits <;> exact .pure fun _ => ⟨known, gains⟩
  | .classDecl decl span =>
    rw [checkStmt]
    exact (declareClass_gains decl span).bind fun _ _ gains => .pure gains
  | .methods name body span =>
    rw [checkStmt]
    exact .after_fail (.pure (by simp))
  | .return none span =>
    rw [checkStmt]
    refine (recordReturn_gains _ span).bind fun _ s₁ gains => .pure fun _ => gains
  | .return (some value) span =>
    rw [checkStmt]
    refine (checkExpr_types value).bind fun (value', type) s₁ ⟨noted, typed⟩ => ?_
    cases type with
    | none => exact .pure (by simp)
    | some type =>
      refine (recordReturn_gains type span).bind fun _ s₂ gains => .pure fun _ => ?_
      exact ⟨typed rfl, .trans (.of_noted noted) gains⟩
  | .ifElse condition yes none span =>
    rw [checkStmt]
    refine (checkExpr_types condition).bind fun (condition', type) s₁ ⟨noted, typed⟩ => ?_
    refine (conditionType_isSome type _).bind fun conditionOk s₂ ⟨noted', isSome⟩ => ?_
    have before := noted.trans noted'
    refine inBranch_gives (checkBlock_advances yes) (fun _ _ run => run)
      fun (yes', yesOk) s₃ run left => ?_
    refine (mergeArms_hasValue _ _ _ (before.trans left)).bind fun merged s₄ given => .pure ?_
    intro ok
    simp only [isSome_done, Bool.and_eq_true] at ok
    obtain ⟨⟨conditionOk, yesOk⟩, _⟩ := ok
    have gains := gains_of_partial given
    refine ⟨typed (isSome conditionOk), ?_, fun _ => gains⟩
    refine List.forall_mem_singleton.mpr (through_of_branch before run yesOk fun name has => ?_)
    exact .inl (gains.hasValue has)
  | .ifElse condition yes (some no) span =>
    rw [checkStmt]
    refine (checkExpr_types condition).bind fun (condition', type) s₁ ⟨noted, typed⟩ => ?_
    refine (conditionType_isSome type _).bind fun conditionOk s₂ ⟨noted', isSome⟩ => ?_
    have before := noted.trans noted'
    refine inBranch_gives (checkBlock_advances yes) (fun _ _ run => run)
      fun (yes', yesOk) s₃ run left => ?_
    have between := before.trans left
    refine inBranch_gives (checkBlock_advances no) (fun _ _ run => run)
      fun (no', noOk) s₄ run' left' => ?_
    refine (mergeArms_hasValue _ _ _ (between.trans left')).bind fun merged s₅ given => .pure ?_
    intro ok
    simp only [isSome_done, Bool.and_eq_true] at ok
    obtain ⟨⟨⟨conditionOk, yesOk⟩, noOk⟩, _⟩ := ok
    refine ⟨typed (isSome conditionOk), ?_, nofun⟩
    refine List.forall_mem_cons.mpr ⟨?_, List.forall_mem_singleton.mpr ?_⟩
    · refine through_of_branch before run yesOk fun name has => (given name has).imp_right ?_
      exact fun all => all.2 _ List.mem_cons_self
    · refine through_of_branch between run' noOk fun name has => (given name has).imp_right ?_
      exact fun all => all.2 _ (List.mem_cons_of_mem _ (List.mem_singleton_self _))
  | .whileLoop condition body span =>
    rw [checkStmt]
    refine (checkExpr_types condition).bind fun (condition', type) s₁ ⟨noted, typed⟩ => ?_
    refine (conditionType_isSome type _).bind fun conditionOk s₂ ⟨noted', isSome⟩ => ?_
    have before := noted.trans noted'
    refine inBranch_gives (checkBlock_advances body) (fun _ _ run => run)
      fun (body', bodyOk) s₃ run left => ?_
    refine (mergeArms_hasValue _ _ _ (before.trans left)).bind fun merged s₄ given => .pure ?_
    intro ok
    simp only [isSome_done, Bool.and_eq_true] at ok
    obtain ⟨⟨conditionOk, bodyOk⟩, _⟩ := ok
    have gains := gains_of_partial given
    refine ⟨typed (isSome conditionOk), ?_, gains⟩
    exact through_of_branch before run bodyOk fun name has => .inl (gains.hasValue has)
  | .doWhile body condition span =>
    rw [checkStmt_doWhile]
    refine inBranch_gives (checkDoBody_advances body condition) (checkDoBody_enters body condition)
      fun checked s₁ entered left => ?_
    refine (mergeArms_hasValue _ _ _ left).bind fun merged s₂ given => .pure fun ok => ?_
    simp only [isSome_done, Bool.and_eq_true] at ok
    exact ⟨entered (Bool.and_eq_true_iff.mpr ok.1), gains_of_partial given⟩
  | .switch subject cases none span =>
    rw [checkStmt]
    refine (checkExpr_types subject).bind fun (subject', type) s₁ ⟨noted, typed⟩ => ?_
    cases type with
    | none => exact .pure (by simp)
    | some type =>
      refine (checkCases_enters type cases).bind
        fun (cases', arms, casesOk) s₂ ⟨noted', entered⟩ => ?_
      refine (mergeArms_hasValue _ _ _ (noted.trans noted')).bind fun merged s₃ given => .pure ?_
      intro ok
      simp only [isSome_done, Bool.and_eq_true] at ok
      have gains := gains_of_partial given
      refine ⟨typed rfl, fun c listed => ?_, nofun, fun _ => gains⟩
      obtain ⟨parts, s₄, enters, _⟩ := entered ok.1 c listed
      have same : s.Gains [] s₁ := .of_noted noted
      refine ⟨fun e part => .of_gains same (parts e part), s₄, .of_gains same enters, ?_⟩
      exact fun name has => .inl (gains.hasValue has)
  | .switch subject cases (some otherwise) span =>
    rw [checkStmt]
    refine (checkExpr_types subject).bind fun (subject', type) s₁ ⟨noted, typed⟩ => ?_
    cases type with
    | none => exact .pure (by simp)
    | some type =>
      refine (checkCases_enters type cases).bind
        fun (cases', arms, casesOk) s₂ ⟨noted', entered⟩ => ?_
      have before := noted.trans noted'
      refine inBranch_gives (checkBlock_advances otherwise) (fun _ _ run => run)
        fun (otherwise', otherwiseOk) s₃ run left => ?_
      refine (mergeArms_hasValue _ _ _ (before.trans left)).bind fun merged s₄ given => .pure ?_
      intro ok
      simp only [isSome_done, Bool.and_eq_true] at ok
      obtain ⟨⟨casesOk, otherwiseOk⟩, _⟩ := ok
      refine ⟨typed rfl, fun c listed => ?_, ?_, nofun⟩
      · obtain ⟨parts, s₅, enters, arm, member, values⟩ := entered casesOk c listed
        have same : s.Gains [] s₁ := .of_noted noted
        refine ⟨fun e part => .of_gains same (parts e part), s₅, .of_gains same enters, ?_⟩
        refine fun name has => (given name has).imp_right fun all => values name ?_
        exact all.2 arm (List.mem_append_left _ member)
      · rintro _ ⟨⟩
        refine through_of_branch before run otherwiseOk fun name has =>
          (given name has).imp_right fun all => ?_
        exact all.2 _ (List.mem_append_right _ (List.mem_singleton_self _))

theorem checkStmts_cons_passes (stmt : Stmt) (stmts : List Stmt) :
    Gives (checkStmts (stmt :: stmts)) s fun checked s' => checked.2 = true → ∃ s₁ rest,
      s.Passes stmt s₁ ∧ checkStmts stmts s₁ = .ok (rest, s') ∧ rest.2 = true := by
  rw [checkStmts]
  refine (checkStmt_passes stmt).bind fun (stmt', type) s₁ passes => ?_
  refine Gives.bind (fun _ _ run => run) fun (stmts', ok) s₂ run => .pure fun both => ?_
  obtain ⟨first, others⟩ := Bool.and_eq_true_iff.mp both
  exact ⟨s₁, _, passes first, run, others⟩

theorem checkBlock_stmts (block : Block) : Gives (checkBlock block) s fun checked s' =>
    checkStmts block.body s = .ok ((checked.1.body, checked.2), s') := by
  obtain ⟨stmts, span⟩ := block
  rw [checkBlock]
  exact Gives.bind (fun _ _ run => run) fun (body, ok) s₁ run => .pure run

theorem checkProgram_stmts (p : Program) : Gives (checkProgram p) s fun checked s' =>
    checkStmts p.body s = .ok ((checked.1.body, checked.2), s') :=
  Gives.bind (fun _ _ run => run) fun (_, _) _ run => .pure run

end Check

end ShapeLang
