import ShapeLang.Proofs.FlowTyping
import ShapeLang.Proofs.Recheck
import ShapeLang.Proofs.Selection

/-!
# What an accepted program is annotated with

In an accepted program no expression was left out: each has a type, wherever it
stands, and the type mentions classes of the program only. Where something had to be
selected, the note says what: the first overload or constructor that takes the
arguments, or the first that casts to the target. The classes are those at the end of
the program, which is as good as those at the place. What a name stands for is looked
up at the place, in the checker that the expression is checked with.
-/

namespace ShapeLang

namespace Expr

/-- The types noted of the arguments, spread tuples taken apart. -/
def Passed (args : List Expr) (passed : List Ty) : Prop :=
  ∃ types, args.map (·.note.type) = types.map some ∧ passed = Ty.expand types

end Expr

namespace ClassTable

/-- The recorded overload is the first that takes the arguments, and gives the result. -/
def Applies (t : ClassTable) (overloads : List Overload) (passed : List Ty)
    (recorded : Option Nat) (result : Ty) : Prop :=
  ∃ index o, recorded = some index ∧
    FirstOf (fun o => t.Takes o.params passed) overloads index o ∧ o.result = result

/-- The recorded constructor is the first that takes the arguments. None is recorded if the
class has none and there are no arguments, and only then. -/
def Constructs (t : ClassTable) (id : ClassId) (passed : List Ty) (recorded : Option Nat) : Prop :=
  ∃ c, t.get id = .ok c ∧ (recorded = none ↔ c.constructors = [] ∧ passed = []) ∧
    ∀ index, recorded = some index →
      ∃ params, FirstOf (t.Takes · passed) c.constructors index params

/-- What is called is a function or a class. -/
def Invokes (t : ClassTable) (value : Ty) (passed : List Ty) (recorded : Option Nat)
    (result : Ty) : Prop :=
  match value with
  | .func overloads => t.Applies overloads passed recorded result
  | .classValue id name => result = .instanceOf id name ∧ t.Constructs id passed recorded
  | _ => False

/-- The class of the receiver has the field, a function with these overloads. -/
def Offers (t : ClassTable) (receiver : Ty) (field : String) (overloads : List Overload) : Prop :=
  ∃ id c, receiver.objectClass? = some id ∧ t.get id = .ok c ∧
    c.fields.find? field = some (.func overloads)

end ClassTable

/-- The overload takes no arguments and gives the target. -/
def Overload.CastsTo (target : Ty) (o : Overload) : Prop :=
  o.generics = [] ∧ o.params = [] ∧ (o.result == target) = true

namespace Expr

/-- What the note of an expression, checked with `s`, says about the selection that was made
there. An instance is constructed of the class that the name holds in `s`. A compound assignment
has the type of its variable. -/
def Resolved (s : Checker) (t : ClassTable) : Expr → Prop
  | call callee args note => ∃ value passed type, callee.note.type = some value ∧
      Passed args passed ∧ note.type = some type ∧ t.Invokes value passed note.overload type
  | construct name args note => ∃ b id class_ passed, s.lookup? name = some b ∧
      b.type = .classValue id class_ ∧ Passed args passed ∧
        note.type = some (.instanceOf id class_) ∧ t.Constructs id passed note.overload
  | cast value target note => ∃ source wanted overloads index o,
      value.note.type = some source ∧ t.Denotes target wanted ∧ t.Offers source "=>" overloads ∧
        FirstOf (Overload.CastsTo wanted) overloads index o ∧
        note.overload = some index ∧ note.type = some wanted
  | binary left operator right note => operator.kind ≠ .and → operator.kind ≠ .or →
      ∃ receiver operand overloads result, left.note.type = some receiver ∧
        right.note.type = some operand ∧ t.Offers receiver operator.operatorField overloads ∧
        t.Applies overloads [operand] note.overload result ∧
        note.type = some (if operator.kind.isCompoundAssignment then receiver else result)
  | _ => True

/-- The expression, checked with `s`, has a type that mentions classes of the table only, and
what it selects is recorded. -/
def Annotated (s : Checker) (t : ClassTable) (e : Expr) : Prop :=
  (∃ type, e.note.type = some type ∧ type.Known t.classes.length) ∧ e.Resolved s t

end Expr

/-- The check of the program looks at some expression with the checker, and makes this one
of it. -/
def Program.Makes (p : Program) (w : Bool) (s : Checker) (e : Expr) : Prop :=
  ∃ source type s', p.Meets w (.expr source) s ∧
    Check.checkExpr source s = .ok ((e, some type), s')

/-! ## More classes -/

namespace ClassTable

variable {t t' : ClassTable} {passed : List Ty} {recorded : Option Nat} {result : Ty}
  {overloads : List Overload}

theorem Offers.later {receiver : Ty} {field : String} (precedes : t.Precedes t')
    (offers : t.Offers receiver field overloads) : t'.Offers receiver field overloads := by
  obtain ⟨id, c, object, got, found⟩ := offers
  exact ⟨id, c, object, get_prolonged precedes.classes got, found⟩

theorem get_over (coherent : t.Coherent) {id : ClassId} {c : Class} (got : t.get id = .ok c) :
    c.Over (· < t.classes.length) := by
  obtain ⟨below, _⟩ := List.getElem?_eq_some_iff.mp (get_eq_ok.mp got)
  obtain ⟨_, got', limited⟩ := coherent.get_ok below
  cases got.symm.trans got'
  exact limited

theorem Offers.known {receiver : Ty} {field : String} (coherent : t.Coherent)
    (offers : t.Offers receiver field overloads) : ∀ o ∈ overloads, o.Known t.classes.length := by
  obtain ⟨_, _, _, got, found⟩ := offers
  exact Ty.over_func.mp ((get_over coherent got).field found)

section

variable (precedes : t.Precedes t') (coherent : t.Coherent)
  (known : ∀ a ∈ passed, a.Known t.classes.length)
include precedes coherent known

/-- Which overload is chosen does not change when classes are added. -/
theorem Applies.later (left : ∀ o ∈ overloads, o.Known t.classes.length)
    (applies : t.Applies overloads passed recorded result) :
    t'.Applies overloads passed recorded result := by
  obtain ⟨index, o, same, first, gives⟩ := applies
  have params : ∀ o ∈ overloads, ∀ p ∈ o.params, p.Known t.classes.length :=
    fun o listed => (left o listed).1
  exact ⟨index, o, same, precedes.firstOf coherent params known first, gives⟩

/-- Which constructor is chosen does not change when classes are added. -/
theorem Constructs.later {id : ClassId} (constructs : t.Constructs id passed recorded) :
    t'.Constructs id passed recorded := by
  obtain ⟨c, got, none_iff, selected⟩ := constructs
  have constructors := (get_over coherent got).constructor
  refine ⟨c, get_prolonged precedes.classes got, none_iff, fun index same => ?_⟩
  obtain ⟨params, first⟩ := selected index same
  exact ⟨params, precedes.firstOf coherent constructors known first⟩

theorem Invokes.later {value : Ty} (left : value.Known t.classes.length)
    (invokes : t.Invokes value passed recorded result) :
    t'.Invokes value passed recorded result := by
  cases value with
  | func overloads => exact Applies.later precedes coherent known (Ty.over_func.mp left) invokes
  | classValue id name => exact ⟨invokes.1, .later precedes coherent known invokes.2⟩
  | _ => exact invokes

end

end ClassTable

/-! ## Steps that select -/

namespace Check

variable {s : Checker}

/-- A call records the first overload that takes the arguments, and gives its result. -/
theorem call_applies (callee : String) (overloads : List Overload) (arguments : List Ty)
    (span : Span) : Gives (call callee overloads arguments span) s fun result _ =>
      ∀ chosen ∈ result, s.classes.Applies overloads arguments (some chosen.1) chosen.2 := by
  refine (selectOverload_selects callee Overload.params overloads arguments span).bind ?_
  intro result _ selected
  cases result with
  | none => exact .pure nofun
  | some found =>
    refine .pure ?_
    rintro _ ⟨⟩
    exact ⟨found.1, found.2, rfl, selected found rfl, rfl⟩

/-- A construction records the first constructor that takes the arguments, if the class has any. -/
theorem construct_constructs (id : ClassId) (arguments : List Ty) (span : Span) :
    Gives (construct id arguments span) s fun result _ =>
      ∀ recorded ∈ result, s.classes.Constructs id arguments recorded := by
  refine .after_get (.after_lift fun c got => ?_)
  split
  · rename_i empty
    refine .pure ?_
    rintro _ ⟨⟩
    exact ⟨c, got, by simpa using empty, nofun⟩
  · rename_i some_
    refine (selectOverload_selects c.name _ c.constructors arguments span).bind ?_
    intro result _ selected
    cases result with
    | none => exact .pure nofun
    | some found =>
      refine .pure ?_
      rintro _ ⟨⟩
      refine ⟨c, got, by simpa using some_, ?_⟩
      rintro _ ⟨⟩
      exact ⟨found.2, selected found rfl⟩

theorem callMember_applies (receiver : Ty) (name : String) (arguments : List Ty) (span : Span) :
    Gives (callMember receiver name arguments span) s fun result _ => ∀ chosen ∈ result,
      ∃ overloads, s.classes.Offers receiver name overloads ∧
        s.classes.Applies overloads arguments (some chosen.1) chosen.2 := by
  have notes : Notes (member receiver name span) :=
    .of_reports fun _ => member_reports receiver name trivial
  refine ((member_found receiver name span).and (notes s)).bind ?_
  rintro field s₁ ⟨known, noted⟩
  cases field with
  | none => exact .pure nofun
  | some field =>
    obtain ⟨id, c, object, got, found⟩ := known field rfl
    cases field with
    | func overloads =>
      rw [← noted.classes] at got ⊢
      refine (call_applies name overloads arguments span).imp fun result _ applies => ?_
      intro chosen given
      exact ⟨overloads, ⟨id, c, object, got, found⟩, applies chosen given⟩
    | _ => exact .after_modify (.pure nofun)

theorem callValue_invokes (callee : String) (value : Ty) (arguments : List Ty) (span : Span) :
    Gives (callValue callee value arguments span) s fun result _ => ∀ chosen ∈ result,
      s.classes.Invokes value arguments chosen.1 chosen.2 := by
  cases value with
  | func overloads =>
    refine (call_applies callee overloads arguments span).bind fun result _ applies => ?_
    cases result with
    | none => exact .pure nofun
    | some chosen =>
      refine .pure ?_
      rintro _ ⟨⟩
      exact applies chosen rfl
  | classValue id name =>
    refine (construct_constructs id arguments span).bind fun result _ constructs => ?_
    cases result with
    | none => exact .pure nofun
    | some recorded =>
      refine .pure ?_
      rintro _ ⟨⟩
      exact ⟨rfl, constructs recorded rfl⟩
  | _ => exact .after_modify (.pure nofun)

theorem constructValue_constructs (value : Ty) (arguments : List Ty) (span : Span) :
    Gives (constructValue value arguments span) s fun result _ => ∀ chosen ∈ result,
      ∃ id name, value = .classValue id name ∧ chosen.2 = .instanceOf id name ∧
        s.classes.Constructs id arguments chosen.1 := by
  cases value with
  | classValue id name =>
    refine (construct_constructs id arguments span).bind fun result _ constructs => ?_
    cases result with
    | none => exact .pure nofun
    | some recorded =>
      refine .pure ?_
      rintro _ ⟨⟩
      exact ⟨id, name, rfl, rfl, constructs recorded rfl⟩
  | _ => exact .after_modify (.pure nofun)

/-- A cast records the first overload that casts to the target. -/
theorem castBy_first (value target : Ty) (span : Span) (overloads : List Overload) :
    Gives (castBy value target span overloads) s fun result _ => ∀ chosen ∈ result,
      chosen.2 = target ∧ ∃ o, FirstOf (Overload.CastsTo target) overloads chosen.1 o := by
  unfold castBy
  split
  · rename_i index found
    refine .pure ?_
    rintro _ ⟨⟩
    obtain ⟨o, first⟩ := FirstOf.of_findIdx? found
    exact ⟨rfl, o, first.congr fun o _ => by simp [Overload.CastsTo, and_assoc]⟩
  · exact .after_modify (.pure nofun)

theorem castTo_first (value target : Ty) (span : Span) :
    Gives (castTo value target span) s fun result _ => ∀ chosen ∈ result, chosen.2 = target ∧
      ∃ overloads o, s.classes.Offers value "=>" overloads ∧
        FirstOf (Overload.CastsTo target) overloads chosen.1 o := by
  -- an empty list has no first member
  have nonempty {overloads : List Overload} {index : Nat} {o : Overload}
      (first : FirstOf (Overload.CastsTo target) overloads index o) : overloads ≠ [] := by
    rintro rfl
    cases first.listed
  refine .after_get ?_
  split
  · refine (castBy_first value target span []).imp fun result _ first chosen given => ?_
    obtain ⟨_, o, first⟩ := first chosen given
    exact absurd rfl (nonempty first)
  · rename_i id object
    refine .after_lift fun c got => ?_
    refine (castBy_first value target span _).imp fun result _ first chosen given => ?_
    obtain ⟨same, o, first⟩ := first chosen given
    refine ⟨same, _, o, ⟨id, c, object, got, ?_⟩, first⟩
    cases found : c.fields.find? "=>" with
    | none => simp [found] at first; exact absurd rfl (nonempty first)
    | some field =>
      cases field with
      | func overloads => simp [Ty.overloads?]
      | _ => simp [found, Ty.overloads?] at first; exact absurd rfl (nonempty first)

/-- How an operator that is not logical comes by its overload and its type. -/
theorem binaryType_applies (operator : Token) (left right : Ty)
    (leftSpan rightSpan span : Span) (notAnd : operator.kind ≠ .and)
    (notOr : operator.kind ≠ .or) :
    Gives (binaryType operator left right leftSpan rightSpan span) s fun result _ =>
      result.2.isSome = true → ∃ overloads given,
        s.classes.Offers left operator.operatorField overloads ∧
        s.classes.Applies overloads [right] result.1 given ∧
        result.2 = some (if operator.kind.isCompoundAssignment then left else given) := by
  unfold binaryType
  split
  · exact absurd ‹_› notAnd
  · exact absurd ‹_› notOr
  · refine (callMember_applies left _ [right] span).bind fun result s₁ applies => ?_
    cases result with
    | none => exact .pure (by simp)
    | some chosen =>
      obtain ⟨overloads, offers, applies⟩ := applies chosen rfl
      simp only
      split
      · refine Gives.any.bind fun fitting _ _ => ?_
        cases fitting with
        | none => exact .pure (by simp)
        | some fits => exact .pure fun _ => ⟨overloads, chosen.2, offers, applies, rfl⟩
      · exact .pure fun _ => ⟨overloads, chosen.2, offers, applies, rfl⟩

/-! ## Expressions -/

section

variable {n : Nat} (sound : s.Sound n)
include sound

/-- An expression is noted with its type, which mentions classes of the table only. -/
theorem checkExpr_typed (e : Expr) : Gives (checkExpr e) s fun checked s' =>
    s.Noted s' ∧ checked.1.note.type = checked.2 ∧ ∀ type ∈ checked.2, type.Known n :=
  .and (checkExpr_notes e s) (.and (checkExpr_note e s) fun _ _ ran =>
    ((checkExpr_delivers n e).of_ran sound ran).2)

theorem checkExprs_typed (es : List Expr) : Gives (checkExprs es) s fun checked s' =>
    s.Noted s' ∧ ∀ types ∈ checked.2,
      checked.1.map (·.note.type) = types.map some ∧ ∀ type ∈ types, type.Known n := by
  refine .and (checkExprs_notes es s) ?_
  induction es generalizing s with
  | nil =>
    rw [checkExprs]
    refine .pure ?_
    rintro _ ⟨⟩
    simp
  | cons e es ih =>
    rw [checkExprs]
    refine (checkExpr_typed sound e).bind ?_
    rintro ⟨e', type⟩ s₁ ⟨noted, filled, known⟩
    refine (ih (sound.noted noted)).bind ?_
    rintro ⟨es', types⟩ s₂ others
    rcases type with _ | type <;> rcases types with _ | types
    case some.some =>
      refine .pure ?_
      rintro _ ⟨⟩
      obtain ⟨filled', known'⟩ := others types rfl
      exact ⟨congrArg₂ List.cons filled filled',
        List.forall_mem_cons.mpr ⟨known type rfl, known'⟩⟩
    all_goals exact .pure (by simp)

/-- What is selected where an expression is checked is the first of its kind, also when there
are more classes. -/
theorem checkExpr_resolved (e : Expr) : Gives (checkExpr e) s fun checked _ =>
    checked.2.isSome = true → ∀ t, s.classes.Grows t → checked.1.Resolved s t := by
  have coherent := sound.coherent
  obtain rfl := sound.size
  cases e with
  | call callee args note =>
    rw [checkExpr]
    refine (checkExpr_typed sound callee).bind ?_
    rintro ⟨callee', value⟩ s₁ ⟨noted, filled, known⟩
    refine (checkExprs_typed (sound.noted noted) args).bind ?_
    rintro ⟨args', types⟩ s₂ ⟨noted', others⟩
    rcases value with _ | value <;> rcases types with _ | types
    case some.some =>
      obtain ⟨filled', known'⟩ := others types rfl
      refine (callValue_invokes _ value (Ty.expand types) note.span).bind ?_
      intro chosen s₃ invokes
      rw [(noted.trans noted').classes] at invokes
      cases chosen with
      | none => exact .pure nofun
      | some chosen =>
        refine .pure fun _ t grows => ?_
        refine ⟨value, Ty.expand types, chosen.2, filled, ⟨types, filled', rfl⟩, rfl, ?_⟩
        exact .later grows.toPrecedes coherent (Ty.over_expand known') (known value rfl)
          (invokes chosen rfl)
    all_goals exact .pure nofun
  | construct name args note =>
    rw [checkExpr]
    refine ((read_outcome name note.span).and (read_notes name note.span s)).bind
      fun value s₁ ⟨outcome, noted⟩ => ?_
    refine (checkExprs_typed (sound.noted noted) args).bind ?_
    rintro ⟨args', types⟩ s₂ ⟨noted', others⟩
    rcases value with _ | value <;> rcases types with _ | types
    case some.some =>
      obtain ⟨filled, known⟩ := others types rfl
      obtain ⟨b, found, rfl⟩ : ∃ b, s.lookup? name = some b ∧ value = b.type := by
        cases outcome with
        | assigned found => exact ⟨_, found, rfl⟩
      refine (constructValue_constructs b.type (Ty.expand types) note.span).bind ?_
      intro chosen s₃ constructs
      rw [(noted.trans noted').classes] at constructs
      cases chosen with
      | none => exact .pure nofun
      | some chosen =>
        obtain ⟨id, class_, held, same, constructs⟩ := constructs chosen rfl
        refine .pure fun _ t grows => ?_
        refine ⟨b, id, class_, Ty.expand types, found, held, ⟨types, filled, rfl⟩,
          congrArg some same, ?_⟩
        exact .later grows.toPrecedes coherent (Ty.over_expand known) constructs
    all_goals exact .pure nofun
  | cast value target note =>
    rw [checkExpr]
    refine (checkExpr_typed sound value).bind ?_
    rintro ⟨value', source⟩ s₁ ⟨noted, filled, known⟩
    refine ((resolveTerm_denotes target).and (scoping.resolveTerm trivial s₁)).bind ?_
    rintro wanted s₂ ⟨denotes, noted'⟩
    rcases source with _ | source <;> rcases wanted with _ | wanted
    case some.some =>
      have denoted := denotes wanted rfl
      rw [noted.classes] at denoted
      refine (castTo_first source wanted note.span).bind fun chosen s₃ first => ?_
      rw [(noted.trans noted').classes] at first
      cases chosen with
      | none => exact .pure nofun
      | some chosen =>
        obtain ⟨same, overloads, o, offers, first⟩ := first chosen rfl
        refine .pure fun _ t grows => ?_
        exact ⟨source, wanted, overloads, chosen.1, o, filled, grows.denotes denoted,
          offers.later grows.toPrecedes, first, rfl, congrArg some same⟩
    all_goals exact .pure nofun
  | binary left operator right note =>
    rw [checkExpr]
    refine (checkExpr_typed sound left).bind ?_
    rintro ⟨left', leftType⟩ s₁ ⟨noted, filled, known⟩
    refine (checkExpr_typed (sound.noted noted) right).bind ?_
    rintro ⟨right', rightType⟩ s₂ ⟨noted', filled', known'⟩
    rcases leftType with _ | leftType <;> rcases rightType with _ | rightType
    case some.some =>
      refine Gives.bind (fun _ _ run => run) ?_
      rintro ⟨overload, type⟩ s₃ ran
      refine .pure fun typed t grows notAnd notOr => ?_
      obtain ⟨overloads, given, offers, applies, same⟩ :=
        binaryType_applies operator leftType rightType _ _ _ notAnd notOr _ _ ran typed
      rw [(noted.trans noted').classes] at offers applies
      have operand := List.forall_mem_singleton.mpr (known' rightType rfl)
      exact ⟨leftType, rightType, overloads, given, filled, filled',
        offers.later grows.toPrecedes,
        .later grows.toPrecedes coherent operand (offers.known coherent) applies, same⟩
    all_goals exact .pure nofun
  | _ =>
    -- nothing is selected here, and the check leaves the kind of the expression as it is
    refine (checkExpr_bare _ s).imp fun (checked, _) _ same _ t _ => ?_
    cases checked <;> trivial

end

/-- A function with generics is not accepted. -/
theorem checkExpr_generics (generics : List String) (params : List Param)
    (result : Option TypeTerm) (body : Block) (note : Note) :
    Gives (checkExpr (.function generics params result body note)) s fun checked _ =>
      checked.2.isSome = true → generics = [] := by
  rw [checkExpr]
  split
  · exact Gives.any.bind fun _ _ _ => .pure (by simp)
  · rename_i plain
    exact fun _ _ _ _ => by simpa using plain

end Check

namespace Program.Makes

variable {p : Program} {w : Bool} {s : Checker} {e : Expr}

/-- What was made during a check is annotated as it was then, and stays so when classes are
added. -/
theorem annotated {t : ClassTable} (makes : p.Makes w s e) (grows : s.classes.Grows t) :
    e.Annotated s t := by
  obtain ⟨source, type, s', met, ran⟩ := makes
  obtain ⟨_, filled, known⟩ := Check.checkExpr_typed met.sound source _ _ ran
  refine ⟨⟨type, filled, (known type rfl).mono grows.classes.length_le⟩, ?_⟩
  exact Check.checkExpr_resolved met.sound source _ _ ran rfl t grows

/-- The parts of an expression that was made were made too, with the same classes. -/
theorem part {part : Expr} (makes : p.Makes w s e) (listed : part ∈ e.parts) :
    ∃ s₁ : Checker, s₁.classes = s.classes ∧ p.Makes w s₁ part := by
  obtain ⟨source, type, s', met, ran⟩ := makes
  have each := (Check.checkExpr_parts source _ s' ran rfl).2
  obtain ⟨own, inSource, s₁, type', s₂, noted, ran'⟩ := exists_left_of_forall₂ each listed
  exact ⟨s₁, noted.classes, own, type', s₂, met.part inSource noted, ran'⟩

/-- The body of a function is checked where the function is. -/
theorem body {generics : List String} {params : List Param} {result : Option TypeTerm}
    {body : Block} {note : Note}
    (makes : p.Makes w s (.function generics params result body note)) :
    ∃ source start last, p.Meets w (.stmts source.body) start ∧
      Check.checkBlock source start = .ok ((body, true), last) ∧ last.classes = s.classes := by
  obtain ⟨function, type, s', met, ran⟩ := makes
  obtain ⟨source, _, rfl, _⟩ :=
    Expr.bare_eq_function (Check.checkExpr_bare function s _ _ ran).symm
  obtain rfl := Check.checkExpr_generics _ _ _ _ _ _ _ ran rfl
  obtain ⟨types, declared, before, _, last, whole, made⟩ :=
    Check.checkExpr_made _ _ _ _ _ _ _ ran type rfl
  cases whole
  obtain ⟨s₁, taken, promised⟩ := made.annotated
  exact ⟨source, _, last, met.body taken promised, made.ran,
    made.left.classes.trans made.noted.classes⟩

end Program.Makes

/-! ## Where expressions stand -/

namespace Stmt

/-- The expressions that belong to the statement itself. -/
def exprs : Stmt → List Expr
  | expr value _ | define _ value _ _ => [value]
  | declare _ _ value _ _ | .return value _ => value.toList
  | ifElse condition _ _ _ | whileLoop condition _ _ | doWhile _ condition _ => [condition]
  | switch subject cases _ _ => subject :: cases.flatMap (·.pattern.parts)
  | classDecl .. | methods .. => []

def blocks : Stmt → List Block
  | ifElse _ yes no _ => yes :: no.toList
  | methods _ body _ | whileLoop _ body _ | doWhile body _ _ => [body]
  | switch _ cases otherwise _ => cases.map (·.body) ++ otherwise.toList
  | expr .. | define .. | declare .. | classDecl .. | .return .. => []

end Stmt

/-- Only methods would have a block, and they are not accepted. -/
theorem Check.PlainOutcome.blocks {stmt : Stmt} {checked : Stmt × Option Ty} {s s' : Checker}
    (outcome : PlainOutcome s stmt checked s') (accepted : checked.2.isSome = true) :
    checked.1.blocks = [] := by
  cases outcome with
  | methods => cases accepted
  | _ => rfl

/-- The expression stands somewhere in the code, at whatever depth. -/
inductive Code.Has : Code → Expr → Prop where
  | self {e : Expr} : Has (.expr e) e
  | part {e part inner : Expr} (listed : part ∈ e.parts) (inside : Has (.expr part) inner) :
      Has (.expr e) inner
  | body {generics : List String} {params : List Param} {result : Option TypeTerm} {body : Block}
      {note : Note} {inner : Expr} (inside : Has (.stmts body.body) inner) :
      Has (.expr (.function generics params result body note)) inner
  | listedExpr {es : List Expr} {e inner : Expr} (listed : e ∈ es)
      (inside : Has (.expr e) inner) : Has (.exprs es) inner
  | own {stmt : Stmt} {inner : Expr} (inside : Has (.exprs stmt.exprs) inner) :
      Has (.stmt stmt) inner
  | block {stmt : Stmt} {block : Block} {inner : Expr} (listed : block ∈ stmt.blocks)
      (inside : Has (.stmts block.body) inner) : Has (.stmt stmt) inner
  | first {stmt : Stmt} {stmts : List Stmt} {inner : Expr} (inside : Has (.stmt stmt) inner) :
      Has (.stmts (stmt :: stmts)) inner
  | later {stmt : Stmt} {stmts : List Stmt} {inner : Expr} (inside : Has (.stmts stmts) inner) :
      Has (.stmts (stmt :: stmts)) inner

section

variable {s s' : Checker} {source node : Stmt} {type : Ty} {block : Block}
  (ran : Check.checkStmt source s = .ok ((node, some type), s'))
include ran

/-- The expressions of an accepted statement were made while it was checked, with the classes
that there were when it began. -/
theorem Check.checkStmt_makes : ∀ e ∈ node.exprs, ∃ s₁ : Checker,
    s₁.classes = s.classes ∧ source.Makes s s₁ e := by
  intro e listed
  cases branching : node.branching with
  | false =>
    have plain := (checkStmt_branching ran).symm.trans branching
    refine ⟨s, rfl, (checkStmt_plain plain _ _ ran).makes rfl e ?_⟩
    cases node <;> first | exact listed | cases branching
  | true =>
    obtain ⟨ends, s₁, merged, walks⟩ := walks_of_branching ran branching
    have tests := walks.tests rfl e
    cases node with
    | doWhile body condition span =>
      -- the condition of this loop is looked at after its body
      obtain ⟨ways, _, _⟩ := walks.passed rfl
      obtain ⟨arm, member, _⟩ : ∃ arm ∈ ends, arm.way = ([], body) := by
        rw [← List.mem_map, ← ways]
        exact List.mem_singleton_self _
      obtain ⟨_, _, _, _, _, _, armRan⟩ := walks.source member
      exact ⟨arm.last, armRan.classes.2.2, walks.closing rfl arm member e listed⟩
    | ifElse => exact ⟨s, rfl, tests listed⟩
    | whileLoop => exact ⟨s, rfl, tests listed⟩
    | switch => exact ⟨s, rfl, tests listed⟩
    | _ => cases branching

/-- The blocks of an accepted statement were checked with the classes that there were when it
began, and accepted. -/
theorem Check.checkStmt_blocks (listed : block ∈ node.blocks) : ∃ inner start mid,
    source.Leads s (.stmts inner.body) start ∧
      Check.checkBlock inner start = .ok ((block, true), mid) ∧ mid.classes = s.classes := by
  cases branching : node.branching with
  | false =>
    have plain := (checkStmt_branching ran).symm.trans branching
    have none := (checkStmt_plain plain _ _ ran).blocks rfl
    rw [none] at listed
    cases listed
  | true =>
    obtain ⟨ends, s₁, merged, walks⟩ := walks_of_branching ran branching
    have arm : block ∈ node.arms := by cases node <;> first | exact listed | cases branching
    rw [walks.arms rfl] at arm
    obtain ⟨e, member, rfl⟩ := List.mem_map.mp arm
    obtain ⟨inner, _, base, start, mid, ok, leads, armRan⟩ := walks.end_source member
    obtain rfl := armRan.passed ((walks.passed rfl).2.2 e member)
    exact ⟨inner, start, mid, leads, armRan.ran, armRan.classes.2.1⟩

end

/-- Where the check of the program looks at code, and goes well, it makes the expressions that
stand in what comes of it, and they are annotated. -/
def Code.Annotates (p : Program) (w : Bool) (t : ClassTable) (code : Code) (inner : Expr) : Prop :=
  match code with
  | .expr e => ∀ s : Checker, s.classes.Grows t → p.Makes w s e →
      ∃ s, p.Makes w s inner ∧ inner.Annotated s t
  | .exprs es => (∀ e ∈ es, ∃ s : Checker, s.classes.Grows t ∧ p.Makes w s e) →
      ∃ s, p.Makes w s inner ∧ inner.Annotated s t
  | .stmt node => ∀ (source : Stmt) (s s' : Checker) (type : Ty), p.Meets w (.stmt source) s →
      Check.checkStmt source s = .ok ((node, some type), s') → s.classes.Grows t →
        ∃ s, p.Makes w s inner ∧ inner.Annotated s t
  | .stmts nodes => ∀ (sources : List Stmt) (s s' : Checker), p.Meets w (.stmts sources) s →
      Check.checkStmts sources s = .ok ((nodes, true), s') → s'.classes.Grows t →
        ∃ s, p.Makes w s inner ∧ inner.Annotated s t

/-- By induction on where the expression stands: it was made by the check and is annotated. -/
theorem Code.Has.annotates {p : Program} {w : Bool} {t : ClassTable} {code : Code} {inner : Expr}
    (has : code.Has inner) : code.Annotates p w t inner := by
  induction has with
  | self => exact fun s grows makes => ⟨s, makes, makes.annotated grows⟩
  | part listed _ ih =>
    intro s grows makes
    obtain ⟨s₁, same, part⟩ := makes.part listed
    exact ih s₁ (same ▸ grows) part
  | body _ ih =>
    intro s grows makes
    obtain ⟨source, start, last, met, ran, same⟩ := makes.body
    exact ih source.body start last met (Check.checkBlock_stmts source _ _ ran) (same ▸ grows)
  | listedExpr listed _ ih =>
    intro each
    obtain ⟨s, grows, makes⟩ := each _ listed
    exact ih s grows makes
  | own _ ih =>
    intro source s s' type met ran grows
    refine ih fun e listed => ?_
    obtain ⟨s₁, same, e₀, s₂, type', s₃, leads, alike, looked⟩ := Check.checkStmt_makes ran e listed
    exact ⟨s₂, (alike.classes.trans same) ▸ grows, e₀, type', s₃, met.inside leads, looked⟩
  | block listed _ ih =>
    intro source s s' type met ran grows
    obtain ⟨inner, start, mid, leads, blockRan, same⟩ := Check.checkStmt_blocks ran listed
    exact ih inner.body start mid (met.inside leads) (Check.checkBlock_stmts inner _ _ blockRan)
      (same ▸ grows)
  | first _ ih =>
    intro sources s s' met ran grows
    obtain ⟨source, rest, type, s₁, rfl, here, later⟩ := Check.checkStmts_cons ran
    have before := (Check.checkStmt_grows source s _ _ here).trans
      (Check.checkStmts_grows rest s₁ _ _ later)
    exact ih source s s₁ type met.first here (before.trans grows)
  | later _ ih =>
    intro sources s s' met ran grows
    obtain ⟨source, rest, type, s₁, rfl, here, later⟩ := Check.checkStmts_cons ran
    exact ih rest s₁ s' (met.next here) later grows

/-- An accepted program is annotated throughout: it is the program that was checked, and every
expression in it has a type and says what it selected where the check came to it. -/
theorem Program.annotated_throughout {p q : Program} {w : Bool} {c : Checked}
    (checked : p.check w = .ok (q, c)) (accepted : c.isOk = true) :
    q.bare = p.bare ∧ ∀ e, (Code.stmts q.body).Has e →
      ∃ s, p.Makes w s e ∧ e.Annotated s c.classes := by
  obtain ⟨start, s, ran⟩ := Program.ran_of_accepted checked accepted
  obtain rfl := Checker.finish_eq_ok ran.finished
  refine ⟨Check.checkProgram_bare p start _ _ ran.walked, fun e has => ?_⟩
  have walked := Check.checkProgram_stmts p _ s ran.walked
  exact has.annotates p.body start s (.start ran.initial) walked (.refl _)

/-- A class with two constructors, and a function that constructs an instance with the
second. -/
def Program.constructing : Program :=
  let note : Note := ⟨.null, none, none⟩
  let int : TypeTerm := .named "int" [] .null
  let bool : TypeTerm := .named "bool" [] .null
  let made : Expr := .construct "A" [.literal (.bool true) note] note
  ⟨[.classDecl ⟨"A", [], [], [[int], [bool]], []⟩ .null,
    .define ["f"] (.function [] [⟨"x", int⟩] none ⟨[.return (some made) .null], .null⟩ note)
      false .null], .null⟩

/-- In a checked program of this shape, what the function constructs. -/
def Program.constructed? (q : Program) : Option Expr :=
  match q.body with
  | [.classDecl .., .define _ (.function _ _ _ ⟨[.return (some made) _], _⟩ _) _ _] => some made
  | _ => none

theorem Program.has_constructed {q : Program} {made : Expr}
    (shape : q.constructed? = some made) : (Code.stmts q.body).Has made := by
  unfold Program.constructed? at shape
  split at shape
  · rename_i body
    cases shape
    rw [body]
    refine .later (.first (.own (.listedExpr List.mem_cons_self (.body ?_))))
    exact .first (.own (.listedExpr List.mem_cons_self .self))
  · cases shape

/-- The second constructor, which has index 1, is recorded. -/
theorem Program.annotated_throughout_constructing : ∃ q c,
    Program.constructing.check true = .ok (q, c) ∧ c.isOk = true ∧
      q.bare = Program.constructing.bare ∧ ∃ made, (Code.stmts q.body).Has made ∧
        made.note.overload = some 1 ∧
          ∃ s, Program.constructing.Makes true s made ∧ made.Annotated s c.classes := by
  obtain ⟨q, c, checked, computed⟩ := Program.check_of_any (p := .constructing) (w := true)
    (P := fun q c => c.isOk && q.constructed?.any fun made => made.note.overload == some 1)
    (by decide +kernel)
  simp only [Bool.and_eq_true, Option.any_eq_true, beq_iff_eq] at computed
  obtain ⟨accepted, made, shape, recorded⟩ := computed
  have has := Program.has_constructed shape
  obtain ⟨same, annotated⟩ := Program.annotated_throughout checked accepted
  exact ⟨q, c, checked, accepted, same, made, has, recorded, annotated made has⟩

end ShapeLang
