import ShapeLang.Proofs.Discipline

/-!
# No check faults

From a sound checker that obeys a discipline the walk ends in such a checker again, whatever the
tree, unless it comes to a tuple with more elements than can be counted. That no discipline is
asked for is one discipline. A fresh checker is sound, and after the walk its root frame is the
only one open. Hence every program without such a tuple has a verdict.
-/

namespace ShapeLang

/-- The checker is sound and obeys the discipline. -/
structure Checker.Orderly (d : Discipline) (t : ClassTable) (B : Nat) (s : Checker) : Prop where
  sound : s.Sound t.classes.length
  obeys : s.Obeys d t B

structure Arm.Orderly (d : Discipline) (t : ClassTable) (B : Nat) (arm : Arm) : Prop where
  known : arm.Known t.classes.length
  holds : arm.All (d.bound t B) (d.given t B)

namespace Checker.Orderly

variable {d : Discipline} {t : ClassTable} {B : Nat} {s s' : Checker} (orderly : s.Orderly d t B)
include orderly

theorem own : s.Orderly d s.classes B := orderly.obeys.classes.symm ▸ orderly

theorem noted (noted : s.Noted s') : s'.Orderly d t B :=
  ⟨orderly.sound.noted noted, orderly.obeys.noted noted⟩

theorem enterBranch : (s.enter .branch).Orderly d t B :=
  ⟨orderly.sound.enter nofun, orderly.obeys.enterBranch⟩

/-- A function is entered in order if its parameters and its result are as the annotations say. -/
theorem enterFunction {declared : Option Ty} {types : List Ty}
    (promised : ∀ type ∈ declared, type.Known t.classes.length ∧ d.spelled B type)
    (params : List Param)
    (accepted : ∀ type ∈ types, type.Known t.classes.length ∧ d.spelled B type) :
    (Check.bound (s.enter (.function declared)) params types).Orderly d t B := by
  refine ⟨(orderly.sound.enter ?_).bound params fun type listed => (accepted type listed).1,
    orderly.obeys.enterFunction (fun type given => (promised type given).2) params
      fun type listed => (accepted type listed).2⟩
  rintro type ⟨⟩
  exact (promised type rfl).1

end Checker.Orderly

theorem Discipline.given_of_finds {d : Discipline} {t : ClassTable} {B : Nat} {es : List Expr}
    {types : List Ty} (found : List.Forall₂ (d.Finds t B) es types) :
    ∀ type ∈ types, d.given t B type :=
  ((List.forall₂_and_left _ _).mp found.flip).1

namespace Check

open Checker (Sound Orderly)

variable {α β : Type} {d : Discipline} {t : ClassTable} {B C M : Nat} {excess : Prop}

/-- A step that only notes something, with what the discipline says of its result. -/
theorem Delivers.noting {m : Check α} {Q R : α → Prop}
    (delivers : Delivers excess (Sound t.classes.length) Q m) (notes : Notes m)
    (law : ∀ s, s.Obeys d t B → Gives m s fun a _ => R a) :
    Delivers excess (Orderly d t B) (fun a => Q a ∧ R a) m := by
  intro s orderly
  refine ((delivers s orderly.sound).and ((notes s).and (law s orderly.obeys))).imp ?_
  rintro a s' ⟨⟨sound', holds⟩, noted, given⟩
  exact ⟨⟨sound', orderly.obeys.noted noted⟩, holds, given⟩

/-- A step that delivers under soundness and upholds the discipline delivers under both. -/
theorem Delivers.upholding {m : Check α} {Q : α → Prop}
    (delivers : Delivers excess (Sound t.classes.length) Q m) (upholds : Upholds d t B m) :
    Delivers excess (Orderly d t B) Q m := by
  intro s orderly
  refine ((delivers s orderly.sound).and (upholds s orderly.obeys)).imp ?_
  rintro a s' ⟨⟨sound', holds⟩, obeys'⟩
  exact ⟨⟨sound', obeys'⟩, holds⟩

/-- A step that finds a type, with something noted of it. -/
theorem Delivers.finding {I : Checker → Prop} {m : Check (Option α)} {type : α → Ty}
    {f : Option α → Expr × Option Ty} {P : Ty → Prop}
    (given : ∀ result, (f result).2 = result.map type)
    (delivers : Delivers excess I (fun result => ∀ a ∈ result, P (type a)) m) :
    Delivers excess I (fun result => ∀ t ∈ result.2, P t) (m >>= fun a => Pure.pure (f a)) := by
  refine .bind delivers fun result holds => .pure ?_
  intro t member
  rw [given] at member
  obtain ⟨a, found, rfl⟩ := Option.map_eq_some_iff.mp member
  exact holds a found

/-- From an orderly checker within `B` the step ends in one within `C`, which may have more
classes. -/
def Carries (d : Discipline) (t : ClassTable) (B C : Nat) (m : Check α) : Prop :=
  ∀ s, s.Orderly d t B → Ends (d.excess C) m s fun _ s' => s'.Orderly d s'.classes C

namespace Carries

variable {m : Check α} {f : α → Check β} {Q : α → Prop}

theorem of_delivers (delivers : Delivers (d.excess C) (Orderly d t C) Q m) (le : B ≤ C) :
    Carries d t B C m := by
  intro s orderly
  refine (delivers s ⟨orderly.sound, orderly.obeys.mono le⟩).imp fun _ s' ⟨orderly', _⟩ => ?_
  have own := orderly'.obeys.classes
  subst own
  exact orderly'

theorem pure (a : α) (le : B ≤ C) : Carries d t B C (Pure.pure a : Check α) :=
  of_delivers (Q := fun _ => True) (.pure trivial) le

theorem after (first : Delivers (d.excess C) (Orderly d t B) Q m)
    (rest : ∀ a, Q a → Carries d t B C (f a)) : Carries d t B C (m >>= f) :=
  fun s orderly => (first s orderly).bind fun a s₁ ⟨orderly₁, holds⟩ => rest a holds s₁ orderly₁

/-- Steps that carry the discipline along can be put one behind the other, the bound rising from
step to step. -/
theorem bind (first : Carries d t B M m) (le : M ≤ C) (rest : ∀ a t', Carries d t' M C (f a)) :
    Carries d t B C (m >>= f) :=
  fun s orderly => ((first s orderly).mono (d.excess_mono le)).bind
    fun a s₁ orderly₁ => rest a _ s₁ orderly₁

end Carries

/-- A body that is checked in a branch of its own adds no classes. What follows it starts from
what was there before it, with the arm that it came to. -/
theorem inBranch_ends {body : Check α} {f : α → Arm → Check β} {post : β → Checker → Prop}
    {s : Checker} (inside : Carries d t B C body) (framed : Advances body)
    (orderly : s.Orderly d t B)
    (rest : ∀ a arm s', arm.Orderly d t C → s'.Orderly d t B →
      Ends (d.excess C) (f a arm) s' post) :
    Ends (d.excess C) (do
      enterBranch
      let a ← body
      let arm ← exitBranch
      f a arm) s post := by
  refine .after_modify ?_
  refine ((inside _ orderly.enterBranch).and (framed _)).bind fun a s₁ ⟨orderly₁, advanced⟩ => ?_
  have same : s₁.classes = t := (advanced.classes rfl).trans orderly.obeys.classes
  subst same
  refine .after_run (exitBranch_run advanced) ?_
  exact rest a _ _ ⟨⟨orderly₁.sound.frame.bindings, orderly₁.sound.frame.returns⟩,
      orderly₁.obeys.frame.bindings, orderly₁.obeys.frame.returns⟩ (orderly.noted advanced.leave)

/-- A function whose body ends is left in order, with what it returned. -/
theorem inFunction_ends {body : Check α} {f : α → Option Ty → Check β}
    {post : β → Checker → Prop} {s : Checker} {declared : Option Ty} {types : List Ty}
    (params : List Param)
    (promised : ∀ type ∈ declared, type.Known t.classes.length ∧ d.spelled B type)
    (accepted : ∀ type ∈ types, type.Known t.classes.length ∧ d.spelled B type)
    (inside : Carries d t B C body) (framed : Advances body) (orderly : s.Orderly d t B)
    (rest : ∀ a returned s', (∀ type ∈ returned, type.Known t.classes.length ∧ d.given t C type) →
      s'.Orderly d t B → Ends (d.excess C) (f a returned) s' post) :
    Ends (d.excess C) (do
      enterFunction declared
      bindParams params types
      let a ← body
      let returned ← exitFunction
      f a returned) s post := by
  have entered := orderly.enterFunction promised params accepted
  have start := Checker.Advanced.bound (s.enter (.function declared)) params types
  refine .after_modify (.after_run (bindParams_run params types) ?_)
  refine ((inside _ entered).and (framed _)).bind fun a s₁ ⟨orderly₁, later⟩ => ?_
  have advanced := start.trans later
  have same : s₁.classes = t := (advanced.classes rfl).trans orderly.obeys.classes
  subst same
  refine .after_run (exitFunction_run advanced) ?_
  refine rest a _ _ (fun type given => ?_) (orderly.noted advanced.leave)
  exact ⟨orderly₁.sound.frame.returns type given, orderly₁.obeys.frame.returns type given⟩

/-- An annotation comes to a type as it is written, no longer than the bound. -/
theorem resolveTerm_orderly {term : TypeTerm} (le : term.longest ≤ B) :
    Delivers excess (Orderly d t B) (fun result => ∀ type ∈ result,
      type.Known t.classes.length ∧ d.spelled B type) (resolveTerm term) := by
  refine ((resolveTerm_delivers sound_informed term).noting (notesParts.resolveTerm trivial)
    fun s _ => resolveTerm_spelled d le).imp ?_
  rintro result ⟨known, spelled⟩ type given
  exact ⟨(known type given).known, spelled type given⟩

theorem resolveTerms_orderly {terms : List TypeTerm} (le : TypeTerm.longestOf terms ≤ B) :
    Delivers excess (Orderly d t B) (fun result => ∀ types ∈ result, ∀ type ∈ types,
      type.Known t.classes.length ∧ d.spelled B type) (resolveTerms terms) := by
  refine ((resolveTerms_delivers sound_informed terms).noting
    (notesParts.resolveTerms fun _ _ => trivial)
    fun s _ => resolveTerms_spelled d le).imp ?_
  rintro result ⟨known, spelled⟩ types given type listed
  exact ⟨(known types given type listed).known, spelled types given type listed⟩

theorem resolveResult_orderly {result : Option TypeTerm}
    (le : TypeTerm.longestOf result.toList ≤ B) :
    Delivers excess (Orderly d t B) (fun resolved => ∀ declared ∈ resolved, ∀ type ∈ declared,
      type.Known t.classes.length ∧ d.spelled B type) (resolveResult result) := by
  refine ((resolveResult_delivers result).noting (notesParts.resolveResult (fun _ _ => trivial))
    fun s _ => resolveResult_spelled d le).imp ?_
  rintro resolved ⟨known, spelled⟩ declared given type listed
  exact ⟨known declared given type listed, spelled declared given type listed⟩

theorem mergeArms_carries {arms : List Arm} (inArms : ∀ arm ∈ arms, arm.Orderly d t C)
    (le : B ≤ C) {exhaustive : Bool} {span : Span} {f : Option Unit → β} :
    Carries d t B C (mergeArms arms exhaustive span >>= fun merged => Pure.pure (f merged)) := by
  refine .of_delivers (Q := fun _ => True) (.bind (Delivers.upholding
    (mergeArms_delivers (fun arm listed => (inArms arm listed).known) exhaustive span)
    (mergeArms_upholds (fun arm listed => (inArms arm listed).holds) exhaustive span)) ?_) le
  exact fun _ _ => .pure trivial

theorem conditionType_orderly {type : Option Ty}
    (known : ∀ found ∈ type, found.Known t.classes.length) (span : Span) :
    Delivers excess (Orderly d t B) (fun _ => True) (conditionType type span) :=
  ((conditionType_delivers known span).upholding
    (.of_notes (notesParts.conditionType type trivial))).imp fun _ _ => trivial

mutual

/-- The walk, by structural induction: in an orderly checker an expression comes to an end,
unless a tuple within its extent is too long to be counted, and its type is as the discipline
wants it. -/
theorem checkExpr_orderly {t : ClassTable} {B C : Nat} : (e : Expr) → e.extent.Leads B C →
    Delivers (d.excess C) (Orderly d t B) (fun result => ∀ type ∈ result.2,
      type.Known t.classes.length ∧ d.Finds t C e type) (checkExpr e)
  | .literal value note, leads => by
      rw [checkExpr]
      refine fun s orderly => .after_get (.pure ⟨orderly, ?_⟩)
      rintro _ ⟨⟩
      cases value with
      | noneValue => exact ⟨Ty.over_noneType, Discipline.finds_of_bound d.noneType⟩
      | _ => exact ⟨orderly.sound.builtin _, Discipline.finds_of_bound d.instanceOf⟩
  | .symbol name note, leads => by
      rw [checkExpr]
      refine .bind ((read_delivers name note.span).noting (notesParts.read name trivial)
        fun s obeys => read_bound obeys name note.span) fun type ⟨known, bound⟩ => .pure ?_
      intro found given
      have later := d.bound_mono (.refl t) leads.le (bound found given)
      exact ⟨known found given, Discipline.finds_of_bound later⟩
  | .member object name note, leads => by
      rw [checkExpr]
      rw [Expr.extent] at leads
      refine .bind (checkExpr_orderly object leads) fun (object, receiver) found => ?_
      cases receiver with
      | none => exact .pure nofun
      | some receiver =>
        refine .bind ((member_delivers (found receiver rfl).1 name note.span).noting
          (.of_reports fun _ => member_reports _ _ trivial)
          fun s obeys => member_spelled obeys receiver name note.span)
          fun type ⟨known, spelled⟩ => .pure ?_
        intro field given
        have later := d.spelled_mono leads.le (spelled field given).1
        exact ⟨known field given, Discipline.finds_of_bound (d.bound_of_spelled later)⟩
  | .call callee args note, leads => by
      rw [checkExpr]
      rw [Expr.extent] at leads
      refine .bind (checkExpr_orderly callee leads.left) fun (callee, value) found => ?_
      refine .bind (checkExprs_orderly args leads.right) fun (args, types) listed => ?_
      rcases value with _ | value <;> rcases types with _ | types
      case some.some =>
        obtain ⟨known, finds⟩ := found value rfl
        refine .finding (fun _ => rfl) (((callValue_delivers _ known
          (Ty.over_expand (listed types rfl).1) note.span).noting
          (.of_reports fun _ => callValue_reports _ _ _ trivial)
          fun s _ => callValue_given _ finds.1 _ note.span).imp ?_)
        rintro result ⟨known, holds⟩ chosen given
        exact ⟨known chosen given, Discipline.finds_of_opens rfl (holds chosen given)⟩
      all_goals exact .pure nofun
  | .index object position note, leads => by
      rw [checkExpr]
      rw [Expr.extent] at leads
      refine .bind (checkExpr_orderly object leads.left) fun (object, receiver) found => ?_
      refine .bind (checkExpr_orderly position leads.right) fun (position, place) found' => ?_
      rcases receiver with _ | receiver <;> rcases place with _ | place
      case some.some =>
        obtain ⟨known, finds⟩ := found receiver rfl
        refine .bind ((indexType_delivers known (found' place rfl).1 position.span note.span).noting
          (.of_reports fun _ => indexType_reports _ _ trivial trivial)
          fun s obeys => indexType_given obeys leads.le finds.1 place position.span note.span)
          fun type ⟨known, holds⟩ => .pure ?_
        exact fun item given =>
          ⟨known item given, Discipline.finds_of_opens rfl (holds item given)⟩
      all_goals exact .pure nofun
  | .construct name args note, leads => by
      rw [checkExpr]
      rw [Expr.extent] at leads
      refine .bind ((read_delivers name note.span).upholding
        (.of_notes (notesParts.read _ trivial))) fun value known => ?_
      refine .bind (checkExprs_orderly args leads) fun (args, types) listed => ?_
      rcases value with _ | value <;> rcases types with _ | types
      case some.some =>
        refine .finding (fun _ => rfl) (((constructValue_delivers (known value rfl)
          (Ty.over_expand (listed types rfl).1) note.span).noting
          (.of_reports fun _ => constructValue_reports _ _ trivial)
          fun s _ => constructValue_instance value _ note.span).imp ?_)
        rintro result ⟨known, made⟩ chosen given
        obtain ⟨_, _, same⟩ := made chosen given
        exact ⟨known chosen given, Discipline.finds_of_bound (same ▸ d.instanceOf)⟩
      all_goals exact .pure nofun
  | .cast value target note, leads => by
      rw [checkExpr]
      rw [Expr.extent] at leads
      refine .bind (checkExpr_orderly value leads.left) fun (value, source) found => ?_
      refine .bind (resolveTerm_orderly leads.right.longest) fun wanted spelled => ?_
      rcases source with _ | source <;> rcases wanted with _ | wanted
      case some.some =>
        obtain ⟨known, holds⟩ := spelled wanted rfl
        refine .finding (fun _ => rfl) (((castTo_delivers (found source rfl).1 known
          note.span).noting (.of_reports fun _ => castTo_reports _ _ trivial)
          fun s _ => castTo_spelled source holds note.span).imp ?_)
        rintro result ⟨known, holds⟩ chosen given
        have later := d.spelled_mono leads.le (holds chosen given)
        exact ⟨known chosen given, Discipline.finds_of_bound (d.bound_of_spelled later)⟩
      all_goals exact .pure nofun
  | .tuple items note, leads => by
      rw [checkExpr]
      rw [Expr.extent] at leads
      obtain ⟨M, before, widened⟩ := leads.through
      refine .bind ((checkExprs_orderly items before).mono (d.excess_mono widened.le))
        fun (checked, types) listed => ?_
      cases types with
      | none => exact .pure nofun
      | some types =>
        obtain ⟨known, found⟩ := listed types rfl
        obtain ⟨bound, counted⟩ := d.tuple found widened
        refine .bind ((tupleType_delivers known counted).noting
          (.of_reports fun _ => tupleType_reports _)
          fun s _ => tupleType_gathered types) fun type ⟨known, gathered⟩ => .pure ?_
        intro tuple given
        exact ⟨known tuple given, Discipline.finds_of_bound (gathered tuple given ▸ bound)⟩
  | .spread value note, leads => by
      rw [checkExpr]
      rw [Expr.extent] at leads
      refine .bind (checkExpr_orderly value leads) fun (value, inner) found => ?_
      cases inner with
      | none => exact .pure nofun
      | some inner =>
        obtain ⟨known, finds⟩ := found inner rfl
        refine .bind ((spreadType_delivers known note.span).noting
          (.of_reports fun _ => spreadType_reports _ trivial)
          fun s _ => spreadType_given finds.1 note.span) fun type ⟨known, holds⟩ => .pure ?_
        exact fun spread given =>
          ⟨known spread given, Discipline.finds_of_opens rfl (holds spread given)⟩
  | .array items note, leads => by
      rw [checkExpr]
      rw [Expr.extent] at leads
      refine .bind (checkExprs_orderly items leads) fun (items, types) listed => ?_
      cases types with
      | none => exact .pure nofun
      | some types =>
        obtain ⟨known, found⟩ := listed types rfl
        refine .bind ((arrayType_delivers note.span known).noting
          (.of_reports fun _ => arrayType_reports trivial _)
          fun s _ => arrayType_bound note.span (Discipline.given_of_finds found))
          fun type ⟨known, holds⟩ => .pure ?_
        exact fun item given => ⟨known item given, Discipline.finds_of_bound (holds item given)⟩
  | .binary left operator right note, leads => by
      rw [checkExpr]
      rw [Expr.extent] at leads
      refine .bind (checkExpr_orderly left leads.left) fun (left, leftType) found => ?_
      refine .bind (checkExpr_orderly right leads.right) fun (right, rightType) found' => ?_
      rcases leftType with _ | leftType <;> rcases rightType with _ | rightType
      case some.some =>
        obtain ⟨known, finds⟩ := found leftType rfl
        refine .bind ((binaryType_delivers operator known (found' rightType rfl).1 _ _ _).noting
          (notesParts.binaryType _ _ _ trivial trivial trivial)
          fun s obeys => binaryType_bound obeys leads.le operator finds.1 rightType _ _ _)
          fun (overload, type) ⟨known, holds⟩ => .pure ?_
        exact fun result given =>
          ⟨known result given, Discipline.finds_of_bound (holds result given)⟩
      all_goals exact .pure nofun
  | .function generics params result body note, leads => by
      rw [checkExpr]
      rw [Expr.extent] at leads
      have terms := leads.left
      split
      · exact .bind ((Delivers.fail (Q := fun _ => True) _ _ trivial).upholding
          (.of_notes (notesParts.fail (α := Unit) _ trivial))) fun _ _ => .pure nofun
      · refine .bind (resolveTerms_orderly terms.left.longest) fun types spelled => ?_
        refine .bind (resolveResult_orderly terms.right.longest) fun declared spelled' => ?_
        rcases types with _ | types <;> rcases declared with _ | declared
        case some.some =>
          have accepted := spelled types rfl
          have promised := spelled' declared rfl
          have later {type : Ty} (spelled : d.spelled B type) : d.given t C type :=
            d.given_of_bound (d.bound_of_spelled (d.spelled_mono leads.le spelled))
          intro s orderly
          refine inFunction_ends params promised accepted (checkBlock_carries body leads.right)
            (checkBlock_advances body) orderly fun (body, ok) returned s₁ given orderly₁ => ?_
          cases ok with
          | false => exact .pure ⟨orderly₁, nofun⟩
          | true =>
            refine Delivers.bind ((functionType_delivers
              (fun type listed => (accepted type listed).1)
              (fun type given => (promised type given).1)
              (fun type back => (given type back).1) note.span).noting
              (notesParts.functionType _ _ _ trivial)
              fun s _ => functionType_bound (fun type listed => later (accepted type listed).2)
                (fun type given => later (promised type given).2)
                (fun type back => (given type back).2) note.span)
              (fun type ⟨known, holds⟩ => .pure ?_) s₁ orderly₁
            exact fun function given =>
              ⟨known function given, Discipline.finds_of_bound (holds function given)⟩
        all_goals exact .pure nofun

theorem checkExprs_orderly {t : ClassTable} {B C : Nat} : (es : List Expr) →
    (Expr.extents es).Leads B C →
    Delivers (d.excess C) (Orderly d t B) (fun result => ∀ types ∈ result.2,
      (∀ type ∈ types, type.Known t.classes.length) ∧ List.Forall₂ (d.Finds t C) es types)
      (checkExprs es)
  | [], leads => by
      rw [checkExprs]
      refine .pure ?_
      rintro _ ⟨⟩
      exact ⟨nofun, .nil⟩
  | e :: es, leads => by
      rw [checkExprs]
      rw [Expr.extents] at leads
      refine .bind (checkExpr_orderly e leads.left) fun (checked, type) found => ?_
      refine .bind (checkExprs_orderly es leads.right) fun (others, types) listed => ?_
      rcases type with _ | type <;> rcases types with _ | types
      case some.some =>
        refine .pure ?_
        rintro _ ⟨⟩
        obtain ⟨known, finds⟩ := found type rfl
        obtain ⟨knowns, found⟩ := listed types rfl
        exact ⟨List.forall_mem_cons.mpr ⟨known, knowns⟩, .cons finds found⟩
      all_goals exact .pure nofun

/-- A statement comes to an end and carries the discipline along, up to the bound of its extent. -/
theorem checkStmt_carries {t : ClassTable} {B C : Nat} : (stmt : Stmt) →
    stmt.extent.Leads B C → Carries d t B C (checkStmt stmt)
  | .expr value span, leads => by
      rw [checkStmt]
      rw [Stmt.extent] at leads
      exact .after (checkExpr_orderly value leads) fun _ _ => .pure _ leads.le
  | .define names value constant span, leads => by
      rw [checkStmt]
      rw [Stmt.extent] at leads
      refine .after (checkExpr_orderly value leads) fun (value, type) found => ?_
      refine .of_delivers (Q := fun _ => True) ?_ leads.le
      cases type with
      | none =>
        exact .bind ((defineAllUnresolved_delivers names span).upholding
          (defineAllUnresolved_upholds names span)) fun _ _ => .pure trivial
      | some type =>
        obtain ⟨known, finds⟩ := found type rfl
        exact .bind ((defineNames_delivers names known constant span).upholding
          (defineNames_upholds names finds.1 constant span)) fun _ _ => .pure trivial
  | .declare name term none constant span, leads => by
      rw [checkStmt]
      rw [Stmt.extent] at leads
      refine .of_delivers (Q := fun _ => True) ?_ leads.le
      refine .bind (resolveTerm_orderly (Nat.le_trans leads.longest leads.le))
        fun type spelled => ?_
      cases type with
      | none =>
        exact .bind ((defineUnresolved_delivers name span).upholding
          (defineUnresolved_upholds name span)) fun _ _ => .pure trivial
      | some type =>
        obtain ⟨known, holds⟩ := spelled type rfl
        refine .bind ((define_delivers name known _ _ _).upholding
          (define_upholds name (d.bound_of_spelled holds) _ _ _)) fun bound _ => ?_
        cases bound <;> exact .pure trivial
  | .declare name term (some value) constant span, leads => by
      rw [checkStmt]
      rw [Stmt.extent] at leads
      refine .after (resolveTerm_orderly leads.left.longest) fun declared spelled => ?_
      refine .after (checkExpr_orderly value leads.right) fun (value, received) found => ?_
      refine .of_delivers (Q := fun _ => True) ?_ leads.le
      cases declared with
      | none =>
        exact .bind ((defineUnresolved_delivers name span).upholding
          (defineUnresolved_upholds name span)) fun _ _ => .pure trivial
      | some type =>
        obtain ⟨known, holds⟩ := spelled type rfl
        have wanted := d.bound_of_spelled (d.spelled_mono leads.le holds) (t := t)
        have bind (fitting : Option Unit) :
            Delivers (d.excess C) (Orderly d t C) (fun _ => True) (do
            match ← define name type .always constant span, fitting with
            | some (), some () => return (.declare name term (some value) constant span, some type)
            | _, _ => return (.declare name term (some value) constant span, none) :
            Check (Stmt × Option Ty)) := by
          refine .bind ((define_delivers name known _ _ _).upholding
            (define_upholds name wanted _ _ _)) fun bound _ => ?_
          cases bound <;> cases fitting <;> exact .pure trivial
        cases received with
        | none => exact bind none
        | some received =>
          exact .bind ((expectType_delivers (found received rfl).1 known _).upholding
            (.of_notes (notesParts.expectType _ _ trivial))) fun fits _ => bind fits
  | .classDecl decl span, leads => by
      rw [checkStmt]
      rw [Stmt.extent] at leads
      refine fun s orderly => ((declareClass_proceeds decl span s orderly.sound).and
        (declareClass_obeys leads.longest span orderly.obeys)).bind ?_
      rintro _ s' ⟨sound, obeys⟩
      exact .pure ⟨sound, obeys.mono leads.le⟩
  | .methods name body span, leads => by
      rw [checkStmt]
      exact .after ((Delivers.fail (Q := fun _ => True) _ _ trivial).upholding
        (.of_notes (notesParts.fail _ trivial))) fun _ _ => .pure _ leads.le
  | .ifElse condition yes none span, leads => by
      rw [checkStmt]
      rw [Stmt.extent] at leads
      refine .after (checkExpr_orderly condition leads.left) fun (condition, type) found => ?_
      refine .after (conditionType_orderly (fun type given => (found type given).1) _)
        fun conditionOk _ s orderly => ?_
      refine inBranch_ends (checkBlock_carries yes leads.right) (checkBlock_advances yes) orderly
        fun (yes, yesOk) arm s₁ inArm orderly₁ => ?_
      exact mergeArms_carries (List.forall_mem_singleton.mpr inArm) leads.le s₁ orderly₁
  | .ifElse condition yes (some no) span, leads => by
      rw [checkStmt]
      rw [Stmt.extent] at leads
      have arms := leads.right
      refine .after (checkExpr_orderly condition leads.left) fun (condition, type) found => ?_
      refine .after (conditionType_orderly (fun type given => (found type given).1) _)
        fun conditionOk _ s orderly => ?_
      refine inBranch_ends (checkBlock_carries yes arms.left) (checkBlock_advances yes) orderly
        fun (yes, yesOk) yesArm s₁ inYes orderly₁ => ?_
      refine inBranch_ends (checkBlock_carries no arms.right) (checkBlock_advances no) orderly₁
        fun (no, noOk) noArm s₂ inNo orderly₂ => ?_
      have both : ∀ arm ∈ [yesArm, noArm], arm.Orderly d t C :=
        List.forall_mem_cons.mpr ⟨inYes, List.forall_mem_singleton.mpr inNo⟩
      exact mergeArms_carries both leads.le s₂ orderly₂
  | .whileLoop condition body span, leads => by
      rw [checkStmt]
      rw [Stmt.extent] at leads
      refine .after (checkExpr_orderly condition leads.left) fun (condition, type) found => ?_
      refine .after (conditionType_orderly (fun type given => (found type given).1) _)
        fun conditionOk _ s orderly => ?_
      refine inBranch_ends (checkBlock_carries body leads.right) (checkBlock_advances body) orderly
        fun (body, bodyOk) arm s₁ inArm orderly₁ => ?_
      exact mergeArms_carries (List.forall_mem_singleton.mpr inArm) leads.le s₁ orderly₁
  | .doWhile body condition span, leads => by
      rw [Stmt.extent] at leads
      have inside : Carries d t B C (checkDoBody body condition) := by
        obtain ⟨M, before, later⟩ := leads.through
        refine .bind (checkBlock_carries body before) later.le fun block t' => ?_
        refine .after (checkExpr_orderly condition later) fun value found => ?_
        exact .after (conditionType_orderly (fun type given => (found type given).1) _)
          fun _ _ => .pure _ later.le
      rw [checkStmt_doWhile]
      intro s orderly
      refine inBranch_ends inside
        (checkDoBody_advances body condition) orderly
        fun checked arm s₁ inArm orderly₁ => ?_
      exact mergeArms_carries (List.forall_mem_singleton.mpr inArm) leads.le s₁ orderly₁
  | .switch subject cases none span, leads => by
      rw [checkStmt]
      rw [Stmt.extent] at leads
      refine .after (checkExpr_orderly subject leads.left) fun (subject, type) found => ?_
      cases type with
      | none => exact .pure _ leads.le
      | some type =>
        refine .after (checkCases_orderly (found type rfl).1 cases leads.right)
          fun (cases, arms, casesOk) inArms => ?_
        exact mergeArms_carries inArms leads.le
  | .switch subject cases (some otherwise) span, leads => by
      rw [checkStmt]
      rw [Stmt.extent] at leads
      have later := leads.right
      refine .after (checkExpr_orderly subject leads.left) fun (subject, type) found => ?_
      cases type with
      | none => exact .pure _ leads.le
      | some type =>
        refine .after (checkCases_orderly (found type rfl).1 cases later.left)
          fun (cases, arms, casesOk) inArms s orderly => ?_
        refine inBranch_ends (checkBlock_carries otherwise later.right)
          (checkBlock_advances otherwise) orderly
          fun (otherwise, otherwiseOk) arm s₁ inArm orderly₁ => ?_
        have all : ∀ other ∈ arms ++ [arm], other.Orderly d t C :=
          List.forall_mem_append.mpr ⟨inArms, List.forall_mem_singleton.mpr inArm⟩
        exact mergeArms_carries all leads.le s₁ orderly₁
  | .return none span, leads => by
      rw [checkStmt]
      refine .of_delivers (Q := fun _ => True) ?_ leads.le
      exact .bind ((recordReturn_delivers Ty.over_noneType span).upholding
        (recordReturn_upholds (d.given_of_bound d.noneType) span)) fun _ _ => .pure trivial
  | .return (some value) span, leads => by
      rw [checkStmt]
      rw [Stmt.extent] at leads
      refine .after (checkExpr_orderly value leads) fun (value, type) found => ?_
      cases type with
      | none => exact .pure _ leads.le
      | some type =>
        obtain ⟨known, finds⟩ := found type rfl
        refine .of_delivers (Q := fun _ => True) ?_ leads.le
        exact .bind ((recordReturn_delivers known span).upholding
          (recordReturn_upholds finds.1 span)) fun _ _ => .pure trivial

theorem checkStmts_carries {t : ClassTable} {B C : Nat} : (stmts : List Stmt) →
    (Stmt.extents stmts).Leads B C → Carries d t B C (checkStmts stmts)
  | [], leads => by
      rw [checkStmts]
      exact .pure _ leads.le
  | stmt :: stmts, leads => by
      rw [checkStmts]
      rw [Stmt.extents] at leads
      obtain ⟨M, before, later⟩ := leads.through
      refine .bind (checkStmt_carries stmt before) later.le fun _ t' => ?_
      exact .bind (checkStmts_carries stmts later) (Nat.le_refl C) fun _ _ =>
        .pure _ (Nat.le_refl C)

theorem checkBlock_carries {t : ClassTable} {B C : Nat} : (block : Block) →
    block.extent.Leads B C → Carries d t B C (checkBlock block)
  | ⟨body, span⟩, leads => by
      rw [checkBlock]
      rw [Block.extent] at leads
      exact .bind (checkStmts_carries body leads) (Nat.le_refl C) fun _ _ =>
        .pure _ (Nat.le_refl C)

/-- The cases come to an end one after the other, and their arms are orderly. -/
theorem checkCases_orderly {t : ClassTable} {B C : Nat} {subject : Ty}
    (known : subject.Known t.classes.length) : (cases : List Case) →
    (Case.extents cases).Leads B C → Delivers (d.excess C) (Orderly d t B)
      (fun result => ∀ arm ∈ result.2.1, arm.Orderly d t C) (checkCases subject cases)
  | [], leads => by
      rw [checkCases]
      exact .pure nofun
  | ⟨pattern, body, span⟩ :: cases, leads => by
      rw [Case.extents] at leads
      have here := leads.left
      have inside : Carries d t B C (checkCaseBody subject span pattern body) := by
        refine .after (checkPattern_orderly known span pattern here.left) fun checked _ => ?_
        exact .bind (checkBlock_carries body here.right) (Nat.le_refl C) fun _ _ =>
          .pure _ (Nat.le_refl C)
      rw [checkCases_cons]
      intro s orderly
      refine inBranch_ends inside (checkCaseBody_advances subject span pattern body) orderly
        fun checked arm s₁ inArm orderly₁ => ?_
      refine (checkCases_orderly known cases leads.right s₁ orderly₁).bind
        fun (cases, arms, ok) s₂ ⟨orderly₂, inArms⟩ => .pure ⟨orderly₂, ?_⟩
      have forgotten : (arm.forget checked.1.1).Orderly d t C :=
        ⟨inArm.known.forget checked.1.1, inArm.holds.forget checked.1.1⟩
      exact List.forall_mem_cons.mpr ⟨forgotten, inArms⟩

theorem checkPattern_orderly {t : ClassTable} {B C : Nat} {subject : Ty}
    (known : subject.Known t.classes.length) (span : Span) : (pattern : Pattern) →
    pattern.extent.Leads B C →
    Delivers (d.excess C) (Orderly d t B) (fun _ => True) (checkPattern subject span pattern)
  | .type name term, leads => by
      rw [checkPattern]
      rw [Pattern.extent] at leads
      exact .bind ((typePattern_delivers known name term span).upholding
        (typePattern_upholds subject name leads.longest span)) fun _ _ => .pure trivial
  | .value value, leads => by
      rw [checkPattern]
      rw [Pattern.extent] at leads
      refine .bind (checkExpr_orderly value leads) fun (value, type) found => ?_
      cases type with
      | none => exact .pure trivial
      | some type =>
        exact .bind ((valuePattern_delivers known (found type rfl).1 _).upholding
          (.of_notes (notesParts.valuePattern _ _ trivial))) fun _ _ => .pure trivial

end

/-! ## Without a discipline -/

/-- Every type will do. -/
def lax : Discipline where
  spelled _ _ := True
  bound _ _ _ := True
  given _ _ _ := True
  excess _ := True
  excess_mono _ _ := trivial
  spelled_mono _ _ := trivial
  bound_mono _ _ _ := trivial
  given_mono _ _ _ := trivial
  bound_of_spelled _ := trivial
  given_of_bound _ := trivial
  bound_of_given _ _ := trivial
  denoted _ _ := trivial
  classValue _ := trivial
  instanceOf := trivial
  noneType := trivial
  func := ⟨fun _ _ _ => ⟨fun _ _ => trivial, trivial⟩, fun _ => trivial⟩
  result _ _ _ := trivial
  array := ⟨fun _ => trivial, fun _ => trivial⟩
  spread _ _ := trivial
  elements _ _ _ := trivial
  tuple _ _ := ⟨trivial, .inr trivial⟩

variable {n : Nat}

theorem lax_orderly {s : Checker} (sound : s.Sound n) (B : Nat) : s.Orderly lax s.classes B where
  sound := sound.size.symm ▸ sound
  obeys :=
    { sound.toAll.imp (fun _ _ => trivial) fun _ _ => trivial with
      classes := rfl
      declared := fun _ _ => ⟨fun _ _ => trivial, fun _ _ _ _ => trivial⟩ }

/-- Some bound will do for any code. -/
theorem exists_leads (x : Extent) : ∃ B C, x.Leads B C :=
  ⟨_, _, .self x (Nat.lt_of_lt_of_le Nat.one_pos (Nat.le_max_left 1 x.longest))
    (Nat.le_max_right 1 x.longest)⟩

/-- What is delivered under the lax discipline is delivered under soundness alone. -/
theorem delivers_of_lax {α : Type} {m : Check α} (B C : Nat) {Q : α → Prop}
    (delivers : ∀ t : ClassTable, t.classes.length = n →
      Delivers (lax.excess C) (Orderly lax t B) Q m) :
    Delivers True (Sound n) Q m := by
  intro s sound
  obtain rfl := sound.size
  refine (delivers s.classes rfl s (lax_orderly sound B)).imp fun _ _ ⟨orderly, holds⟩ => ?_
  exact ⟨orderly.sound, holds⟩

theorem proceeds_of_lax {α : Type} {m : Check α} {B C : Nat}
    (carries : ∀ t : ClassTable, Carries lax t B C m) : Proceeds True n m :=
  fun s sound => (carries s.classes s (lax_orderly sound B)).imp fun _ _ orderly => orderly.sound

/-- An expression comes to a known type, to a report or to a tuple that cannot be counted. -/
theorem checkExpr_delivers (n : Nat) (e : Expr) :
    Delivers True (Sound n) (fun result => ∀ type ∈ result.2, type.Known n) (checkExpr e) := by
  obtain ⟨B, C, leads⟩ := exists_leads e.extent
  refine delivers_of_lax B C fun t size => ?_
  subst size
  exact (checkExpr_orderly e leads).imp fun result found type given => (found type given).1

theorem checkPattern_delivers (n : Nat) {subject : Ty} (known : subject.Known n) (span : Span)
    (pattern : Pattern) :
    Delivers True (Sound n) (fun _ => True) (checkPattern subject span pattern) := by
  obtain ⟨B, C, leads⟩ := exists_leads pattern.extent
  refine delivers_of_lax B C fun t size => ?_
  subst size
  exact checkPattern_orderly known span pattern leads

/-- A statement leaves a sound checker, unless a tuple cannot be counted. -/
theorem checkStmt_proceeds (n : Nat) (stmt : Stmt) : Proceeds True n (checkStmt stmt) := by
  obtain ⟨B, C, leads⟩ := exists_leads stmt.extent
  exact proceeds_of_lax fun t => checkStmt_carries stmt leads

theorem checkStmts_proceeds (n : Nat) (stmts : List Stmt) :
    Proceeds True n (checkStmts stmts) := by
  obtain ⟨B, C, leads⟩ := exists_leads (Stmt.extents stmts)
  exact proceeds_of_lax fun t => checkStmts_carries stmts leads

theorem checkBlock_proceeds (n : Nat) (block : Block) : Proceeds True n (checkBlock block) := by
  obtain ⟨B, C, leads⟩ := exists_leads block.extent
  exact proceeds_of_lax fun t => checkBlock_carries block leads

end Check

/-! ## Whole programs -/

/-- Only the builtin classes are bound, and nothing has been reported. -/
structure Checker.Fresh (w : Bool) (s : Checker) : Prop where
  outer : s.outer = []
  diagnostics : s.diagnostics = []
  warningsAsErrors : s.warningsAsErrors = w
  bindings : ∀ name b, s.lookup? name = some b → b.unresolved = false ∧
    (Builtin.named? name).isSome

theorem Builtins.first_get_lt (kind : Builtin) : Builtins.first.get kind < 4 := by
  cases kind <;> decide

/-- A check starts in a sound and fresh checker. -/
theorem Checker.initial_ok (w : Bool) :
    ∃ s, Checker.initial w = .ok s ∧ s.Sound 4 ∧ s.Fresh w := by
  obtain ⟨t, ran, coherent, size⟩ := addBuiltins_ok
  -- every builtin class can be bound, one after the other
  have bound (kinds : List Builtin) (m : NameMap Binding)
      (known : ∀ name b, m.find? name = some b → b.type.Known 4)
      (fresh : ∀ name b, m.find? name = some b → b.unresolved = false ∧
        (Builtin.named? name).isSome) :
      ∃ m', kinds.foldlM (fun (m : NameMap Binding) kind => do
          let type ← t.classValue (Builtins.first.get kind)
          return m.insert kind.name ⟨type, .always, true, false, .null⟩) m = .ok m' ∧
        (∀ name b, m'.find? name = some b → b.type.Known 4) ∧
        ∀ name b, m'.find? name = some b → b.unresolved = false ∧
          (Builtin.named? name).isSome := by
    induction kinds generalizing m with
    | nil => exact ⟨m, rfl, known, fresh⟩
    | cons kind kinds ih =>
      have below := Builtins.first_get_lt kind
      obtain ⟨c, got, _⟩ := coherent.get_ok (size ▸ below)
      have value : t.classValue (Builtins.first.get kind) =
          .ok (.classValue (Builtins.first.get kind) c.name) := by
        rw [ClassTable.classValue, got]
        rfl
      rw [List.foldlM_cons, value]
      refine ih _ (fun name b found => ?_) (fun name b found => ?_)
      · rw [NameMap.find?_insert] at found
        split at found
        · cases found
          exact Ty.over_classValue.mpr below
        · exact known name b found
      · rw [NameMap.find?_insert] at found
        split at found
        · rename_i same
          cases found
          subst same
          exact ⟨rfl, by cases kind <;> decide⟩
        · exact fresh name b found
  obtain ⟨bindings, folded, known, fresh⟩ := bound Builtin.all .empty (by simp) (by simp)
  refine ⟨_, by rw [Checker.initial, ran, ok_bind]; simp only [folded, ok_bind]; rfl, ?_, ?_⟩
  · exact ⟨⟨⟨known, by simp, by simp⟩, by simp⟩, size, coherent, rfl⟩
  · exact ⟨rfl, rfl, rfl, fresh⟩

/-- A check of the program, from a fresh checker to what it hands on. -/
structure Program.Ran (p : Program) (w : Bool) (start : Checker) (q : Program) (ok : Bool)
    (s : Checker) (c : Checked) : Prop where
  initial : Checker.initial w = .ok start
  walked : Check.checkProgram p start = .ok ((q, ok), s)
  finished : s.finish = .ok c

theorem Checker.finish_eq_ok {s : Checker} {c : Checked} (finished : s.finish = .ok c) :
    c = ⟨s.classes, s.builtins, s.functions, s.frame.bindings, s.diagnostics⟩ := by
  unfold Checker.finish at finished
  split at finished
  · cases finished
    rfl
  · cases finished

theorem Program.check_eq_ok {p q : Program} {w : Bool} {c : Checked} :
    p.check w = .ok (q, c) ↔ ∃ start ok s, p.Ran w start q ok s c := by
  unfold Program.check
  simp only [bind_eq_ok]
  constructor
  · rintro ⟨start, initial, ⟨⟨tree, ok⟩, s⟩, walked, c', finished, same⟩
    cases same
    exact ⟨start, ok, s, initial, walked, finished⟩
  · rintro ⟨start, ok, s, initial, walked, finished⟩
    exact ⟨start, initial, ((q, ok), s), walked, c, finished, rfl⟩

/-- What a check comes to, as far as it can be computed. -/
theorem Program.check_of_any {p : Program} {w : Bool} {P : Program → Checked → Bool}
    (computed : ((p.check w).toOption.any fun r => P r.1 r.2) = true) :
    ∃ q c, p.check w = .ok (q, c) ∧ P q c = true := by
  cases run : p.check w with
  | error fault =>
    rw [run] at computed
    cases computed
  | ok result =>
    rw [run] at computed
    exact ⟨result.1, result.2, rfl, computed⟩

theorem Checker.initial_lax {w : Bool} {start : Checker}
    (initial : Checker.initial w = .ok start) : start.Obeys Check.lax start.classes 1 := by
  obtain ⟨_, initial', sound, _⟩ := Checker.initial_ok w
  cases initial'.symm.trans initial
  exact (Check.lax_orderly sound 1).obeys

/-- Every check runs to its end from a fresh checker, or a tuple is too long to be counted; and
what a fresh checker obeys the last one obeys, within the capacity of the program. -/
theorem Program.ran_orderly {d : Discipline} {w : Bool}
    (begins : ∀ start, Checker.initial w = .ok start → start.Obeys d start.classes 1)
    (p : Program) : (∃ start q ok s c, p.Ran w start q ok s c ∧ start.Fresh w ∧
        start.Advanced s ∧ s.Orderly d s.classes p.capacity) ∨
      d.excess p.capacity ∧ p.check w = .error .countOverflow := by
  obtain ⟨start, initial, sound, fresh⟩ := Checker.initial_ok w
  have orderly : start.Orderly d start.classes _ :=
    ⟨sound.size.symm ▸ sound, (begins start initial).mono p.leads.start⟩
  have carries : Check.Carries d start.classes _ p.capacity (Check.checkProgram p) :=
    .bind (Check.checkStmts_carries p.body p.leads) (Nat.le_refl _) fun _ _ =>
      .pure _ (Nat.le_refl _)
  rcases (carries start orderly).and (Check.checkProgram_advances p start) with
    ⟨⟨q, ok⟩, s, walked, orderly', advanced⟩ | ⟨excess, overflow⟩
  case inr =>
    refine .inr ⟨excess, ?_⟩
    rw [Program.check, initial, ok_bind, StateT.run, overflow]
    rfl
  left
  have root : s.atRoot = true := by
    rw [advanced.atRoot, Checker.atRoot, fresh.outer]
    rfl
  have finished : s.finish = .ok
      ⟨s.classes, s.builtins, s.functions, s.frame.bindings, s.diagnostics⟩ := by
    rw [Checker.finish, if_pos root]
  exact ⟨start, q, ok, s, _, ⟨initial, walked, finished⟩, fresh, advanced, orderly'⟩

/-- Every program is checked to its end, unless a tuple cannot be counted. -/
theorem Program.ran (p : Program) (w : Bool) :
    (∃ start q ok s c, p.Ran w start q ok s c ∧ start.Fresh w ∧ start.Advanced s ∧
      s.Sound s.classes.classes.length) ∨ p.check w = .error .countOverflow := by
  rcases p.ran_orderly fun _ => Checker.initial_lax with
    ⟨start, q, ok, s, c, ran, fresh, advanced, orderly⟩ | ⟨_, overflow⟩
  · exact .inl ⟨start, q, ok, s, c, ran, fresh, advanced, orderly.sound⟩
  · exact .inr overflow

/-- Every program can be checked, unless it has a tuple that is too long to be counted: the
classes are registered once each, in the order of their declaration, and no type that is left
mentions any other class. A call never takes an overload that is not there. -/
theorem Program.check_total (p : Program) (w : Bool) :
    ((∃ q c, p.check w = .ok (q, c) ∧
      c.classes.registered = List.range c.classes.classes.length ∧
      (∀ id class_, c.classes.get id = .ok class_ → class_.Over (· < c.classes.classes.length)) ∧
      ∀ name b, c.globals.find? name = some b → b.type.Known c.classes.classes.length) ∨
      p.check w = .error .countOverflow) ∧
    ∀ callee overloads arguments span s index type s',
      Check.call callee overloads arguments span s = .ok (some (index, type), s') →
        ∃ o, overloads[index]? = some o ∧ o.result = type := by
  refine ⟨?_, fun callee overloads arguments span s index type s' run =>
    Check.call_index callee overloads arguments span s _ _ run _ rfl⟩
  refine (p.ran w).imp_left ?_
  rintro ⟨start, q, ok, s, c, ran, _, _, sound⟩
  obtain rfl := Checker.finish_eq_ok ran.finished
  refine ⟨q, _, Program.check_eq_ok.mpr ⟨start, ok, s, ran⟩, sound.coherent.registered,
    fun id class_ got => ?_, sound.frame.bindings⟩
  have found := List.getElem?_eq_some_iff.mp (ClassTable.get_eq_ok.mp got)
  exact (sound.coherent.mentions id class_ got).mono fun _ => sound.coherent.below found.1

end ShapeLang
