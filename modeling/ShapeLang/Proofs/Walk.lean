import ShapeLang.Checked
import ShapeLang.Proofs.Annotation
import ShapeLang.Proofs.Layout
import ShapeLang.Proofs.Reports

/-!
# What the walk inherits from its parts

A property of steps that the parts of the walk have and that sequences keep is a
property of the walk. There are two such properties at a time, `E` of what an
expression does and `S` of what a statement does, since a statement may do more.

How a step comes out may matter: `E sofar ok m` is about a step `m` before which all
went well or not, as `sofar` says, and after which it still did or not, as `ok` says of the
result. In `S given sofar ok m`, moreover, `given` may be taken for granted as long as all
goes well. So may the place of the tree matter: a step reports at the spans of the tree only,
and if these have the property `P`, so has every place where something is reported.
-/

namespace ShapeLang.Check

variable {α β : Type}

/-- What is checked in the branch of a `do` loop: its condition is part of it. -/
def checkDoBody (body : Block) (condition : Expr) :
    Check ((Block × Bool) × (Expr × Option Ty) × Bool) := do
  let block ← checkBlock body
  let value ← checkExpr condition
  let ok ← conditionType value.2 value.1.span
  return (block, value, ok)

theorem checkStmt_doWhile (body : Block) (condition : Expr) (span : Span) :
    checkStmt (.doWhile body condition span) = (do
      enterBranch
      let checked ← checkDoBody body condition
      let arm ← exitBranch
      let merged ← mergeArms [arm] false span
      return (.doWhile checked.1.1 checked.2.1.1 span,
        done (checked.1.2 && checked.2.2 && merged.isSome))) := by
  rw [checkStmt]
  simp only [checkDoBody, bind_assoc, pure_bind]

/-- What a logical operator comes to: its operands are conditions. -/
def logicalType (left right : Ty) (leftSpan rightSpan : Span) :
    Check (Option Nat × Option Ty) := do
  let leftOk ← checkCondition left leftSpan
  let rightOk ← checkCondition right rightSpan
  match leftOk, rightOk with
  | some (), some () => return (none, some ((← get).builtin .bool))
  | _, _ => return (none, none)

/-- What is checked in the branch of a case: its pattern is part of it. -/
def checkCaseBody (subject : Ty) (span : Span) (pattern : Pattern) (body : Block) :
    Check ((Pattern × Bool) × Block × Bool) := do
  let pattern ← checkPattern subject span pattern
  let body ← checkBlock body
  return (pattern, body)

theorem checkCases_cons (subject : Ty) (pattern : Pattern) (body : Block) (span : Span)
    (cases : List Case) :
    checkCases subject (⟨pattern, body, span⟩ :: cases) = (do
      enterBranch
      let checked ← checkCaseBody subject span pattern body
      let arm ← exitBranch
      let (cases, arms, ok) ← checkCases subject cases
      return (⟨checked.1.1, checked.2.1, span⟩ :: cases, arm.forget checked.1.1 :: arms,
        checked.1.2 && checked.2.2 && ok)) := by
  rw [checkCases]
  simp only [checkCaseBody, bind_assoc, pure_bind]

@[simp] theorem isSome_done (ok : Bool) : (done ok).isSome = ok := by
  cases ok <;> rfl

/-! ## Parts -/

/-- From some checker the step comes to `a`. -/
def Yields (m : Check α) (a : α) : Prop := ∃ s s', m s = .ok (a, s')

/-- What has been checked is where it was. -/
theorem Yields.place {P : Span → Prop} {e : Expr} {checked : Expr × Option Ty}
    (came : Yields (checkExpr e) checked) (all : e.layout.All P) : P checked.1.span := by
  obtain ⟨s, s', ran⟩ := came
  rw [Expr.span_of_bare (checkExpr_bare e s checked s' ran), ← e.span_layout]
  exact all.here

/-- A property of expressions that does not depend on how the step comes out. -/
abbrev Always (E : ∀ {α : Type}, Check α → Prop) {α : Type} (_ : Bool) (_ : α → Bool)
    (m : Check α) : Prop := E m

/-- A property of statements that does not depend on how the step comes out. -/
abbrev Throughout (S : ∀ {α : Type}, Check α → Prop) {α : Type} (_ : Prop) (_ : Bool)
    (_ : α → Bool) (m : Check α) : Prop := S m

/-- What every step is made of has the property `E`, and sequences keep it. -/
structure StepParts (P : Span → Prop)
    (E : ∀ {α : Type}, Bool → (α → Bool) → Check α → Prop) : Prop where
  pure : ∀ {α : Type} {sofar : Bool} {ok : α → Bool} {a : α}, ok a = sofar →
    E sofar ok (Pure.pure a)
  bind : ∀ {α β : Type} {sofar : Bool} {ok : α → Bool} {ok' : β → Bool} {m : Check α}
    {f : α → Check β}, E sofar ok m → (∀ a, Yields m a → E (ok a) ok' (f a)) →
    E sofar ok' (m >>= f)
  /-- What went wrong earlier is not made good. -/
  resume : ∀ {α : Type} {sofar : Bool} {ok : α → Bool} {m : Check α} (before : Bool),
    E sofar ok m → E (before && sofar) (fun a => before && ok a) m
  lift : ∀ {α : Type} (x : Except Fault α), E true (fun _ => true) (liftM x : Check α)
  /-- A step may look at the checker, except at what was reported. -/
  asks : ∀ {α : Type} {sofar : Bool} {ok : α → Bool} {f : Checker → Check α},
    (∀ s diagnostics warningsAsErrors, f { s with diagnostics, warningsAsErrors } = f s) →
      (∀ s, E sofar ok (f s)) → E sofar ok (get >>= f)
  reports : ∀ {α : Type} {m : Check (Option α)}, (∀ s, Reports P m s) → E true (·.isSome) m
  read : ∀ name {span}, P span → E true (·.isSome) (read name span)

/-- What expressions are made of has the property `E`. -/
structure ExprParts (P : Span → Prop)
    (E : ∀ {α : Type}, Bool → (α → Bool) → Check α → Prop) : Prop extends StepParts P @E where
  registerFunction : ∀ overloads, E true (fun _ => true) (registerFunction overloads)

/-- What statements do to the innermost frame has the property `S`. If all went well in a branch,
its arm is one of the `arms`. -/
structure FrameParts (P : Span → Prop) (arms : Arm → Prop)
    (E : ∀ {α : Type}, Bool → (α → Bool) → Check α → Prop)
    (S : ∀ {α : Type}, Prop → Bool → (α → Bool) → Check α → Prop) : Prop
    extends StepParts P @E where
  statement : ∀ {α : Type} {given : Prop} {sofar : Bool} {ok : α → Bool} {m : Check α},
    E sofar ok m → S given sofar ok m
  sequence : ∀ {α β : Type} {given : Prop} {sofar : Bool} {ok : α → Bool} {ok' : β → Bool}
    {m : Check α} {f : α → Check β}, S given sofar ok m →
    (∀ a, Yields m a → S given (ok a) ok' (f a)) → S given sofar ok' (m >>= f)
  continues : ∀ {α : Type} {given : Prop} {sofar : Bool} {ok : α → Bool} {m : Check α}
    (before : Bool), S given sofar ok m → S given (before && sofar) (fun a => before && ok a) m
  weaken : ∀ {α : Type} {given given' : Prop} {sofar : Bool} {ok : α → Bool} {m : Check α},
    (given' → given) → S given sofar ok m → S given' sofar ok m
  /-- Names may be given up before the error is reported. -/
  refuses : ∀ {α β : Type} {given : Prop} {sofar : Bool} {ok : α → Bool} {m : Check α}
    (problem : Problem) {span : Span}, S given sofar ok m → P span →
    S given true (·.isSome) (m >>= fun _ => (fail problem span : Check (Option β)))
  define : ∀ {given} name type assigned constant {span}, P span →
    S given true (·.isSome) (define name type assigned constant span)
  defineUnresolved : ∀ {given} name span,
    S given false (fun _ => false) (defineUnresolved name span)
  shadow : ∀ {given} name type span, S given true (fun _ => true) (shadow name type span)
  declareClass : ∀ {given decl span}, P span → Layout.AllRows P decl.rows →
    S given true (·.isSome) (declareClass decl span)
  mergeName : ∀ merged exhaustive {span} name, P span →
    S (∀ arm ∈ merged, arms arm) true (·.isSome) (mergeName merged exhaustive span name)
  setReturns : ∀ {given} returns,
    S given true (fun _ => true) (modify (·.setReturns returns) : Check PUnit)
  recordReturn : ∀ {given} value {span}, P span →
    S given true (·.isSome) (recordReturn value span)
  forget : ∀ {arm} pattern, arms arm → arms (arm.forget pattern)

/-- What the walk is made of has the properties `E` and `S`. A frame is opened and closed
around a body, so the three together are one part. -/
structure WalkParts (P : Span → Prop) (arms : Arm → Prop)
    (E : ∀ {α : Type}, Bool → (α → Bool) → Check α → Prop)
    (S : ∀ {α : Type}, Prop → Bool → (α → Bool) → Check α → Prop) : Prop
    extends ExprParts P @E, FrameParts P arms @E @S where
  inFunction : ∀ {α β : Type} {ok : α → Bool} {ok' : β → Bool} {body : Check α}
    {f : α → Option Ty → Check β} declared params types,
    S True true ok body → (∀ a returned, E (ok a) ok' (f a returned)) →
    E true ok' (do
      enterFunction declared
      bindParams params types
      let a ← body
      let returned ← exitFunction
      f a returned)
  inBranch : ∀ {α β : Type} {given : Prop} {sofar : Bool} {ok : α → Bool} {ok' : β → Bool}
    {body : Check α} {f : α → Arm → Check β}, S True true ok body →
    (∀ a arm, S (given ∧ arms arm) (sofar && ok a) ok' (f a arm)) →
    S given sofar ok' (do
      enterBranch
      let a ← body
      let arm ← exitBranch
      f a arm)

variable {P : Span → Prop} {arms : Arm → Prop} {given : Prop} {sofar : Bool} {ok : α → Bool}
  {ok' : β → Bool} {m : Check α} {f : α → Check β} {span : Span}

namespace StepParts

variable {E : ∀ {α : Type}, Bool → (α → Bool) → Check α → Prop} (part : StepParts P @E)
include part

/-- A step that is judged by itself, whatever went before. -/
theorem after (first : E true ok m) (rest : ∀ a, Yields m a → E (sofar && ok a) ok' (f a)) :
    E sofar ok' (m >>= f) := by
  have resumed := part.resume sofar first
  rw [Bool.and_true] at resumed
  exact part.bind resumed rest

theorem fail (problem : Problem) (here : P span) :
    E true (·.isSome) (Check.fail problem span : Check (Option α)) :=
  part.reports fun _ => .fail problem here

/-- After an error is reported nothing is well any more. -/
theorem refused {f : Option α → Check β} (problem : Problem) (here : P span)
    (rest : E false ok' (f none)) : E true ok' (Check.fail problem span >>= f) := by
  refine part.bind (part.fail problem here) fun a came => ?_
  obtain ⟨_, _, ran⟩ := came
  cases ran
  exact rest

/-- A step that only reports, with something noted of what it came to. -/
theorem reported {m : Check (Option α)} {note : Option α → β} (reports : ∀ s, Reports P m s)
    (same : ∀ a, ok' (note a) = (sofar && a.isSome)) :
    E sofar ok' (m >>= fun a => Pure.pure (note a)) :=
  part.after (part.reports reports) fun a _ => part.pure (same a)

theorem resolveTerm {term : TypeTerm} (here : P term.span) :
    E true (·.isSome) (Check.resolveTerm term) :=
  part.reports fun _ => resolveTerm_reports here

/-- Annotations are resolved one after the other, each at its own place. -/
theorem resolveTerms {terms : List TypeTerm} (each : ∀ term ∈ terms, P term.span) :
    E true (·.isSome) (Check.resolveTerms terms) := by
  induction terms with
  | nil => exact part.pure rfl
  | cons term terms ih =>
    obtain ⟨here, others⟩ := List.forall_mem_cons.mp each
    refine part.after (part.resolveTerm here) fun first _ => ?_
    refine part.after (ih others) fun rest _ => ?_
    cases first <;> cases rest <;> exact part.pure rfl

theorem resolveResult {result : Option TypeTerm} (each : ∀ term ∈ result, P term.span) :
    E true (·.isSome) (Check.resolveResult result) :=
  part.reports fun _ => resolveResult_reports each

theorem checkCondition (type : Ty) (here : P span) :
    E true (·.isSome) (Check.checkCondition type span) :=
  part.reports fun _ => checkCondition_reports type here

/-- A condition that has no type has failed before. -/
theorem conditionType (type : Option Ty) (here : P span) :
    E type.isSome id (Check.conditionType type span) := by
  cases type with
  | none => exact part.pure rfl
  | some type => exact part.bind (part.checkCondition type here) fun _ _ => part.pure rfl

theorem callMember (receiver : Ty) (name : String) (arguments : List Ty) (here : P span) :
    E true (·.isSome) (Check.callMember receiver name arguments span) :=
  part.reports fun _ => callMember_reports receiver name arguments here

theorem expectType (received expected : Ty) (here : P span) :
    E true (·.isSome) (Check.expectType received expected span) :=
  part.reports fun _ => expectType_reports received expected here

theorem logicalType (left right : Ty) {leftSpan rightSpan : Span} (leftHere : P leftSpan)
    (rightHere : P rightSpan) :
    E true (·.2.isSome) (Check.logicalType left right leftSpan rightSpan) := by
  refine part.after (part.checkCondition left leftHere) fun leftOk _ => ?_
  refine part.after (part.checkCondition right rightHere) fun rightOk _ => ?_
  cases leftOk <;> cases rightOk
  case some.some => exact part.asks (fun _ _ _ => rfl) fun _ => part.pure rfl
  all_goals exact part.pure rfl

theorem binaryType (operator : Token) (left right : Ty) {leftSpan rightSpan : Span}
    (leftHere : P leftSpan) (rightHere : P rightSpan) (here : P span) :
    E true (·.2.isSome) (Check.binaryType operator left right leftSpan rightSpan span) := by
  unfold Check.binaryType
  split
  · exact part.logicalType left right leftHere rightHere
  · exact part.logicalType left right leftHere rightHere
  · refine part.after (part.callMember _ _ _ here) fun result _ => ?_
    cases result with
    | none => exact part.pure rfl
    | some result =>
      simp only
      split
      · refine part.after (part.expectType _ _ here) fun fits _ => ?_
        cases fits <;> exact part.pure rfl
      · exact part.pure rfl

theorem valuePattern (subject value : Ty) (here : P span) :
    E true id (Check.valuePattern subject value span) := by
  refine part.after (part.callMember _ _ _ here) fun result _ => ?_
  cases result with
  | none => exact part.pure rfl
  | some result =>
    refine part.asks (fun _ _ _ => rfl) fun s => ?_
    split
    · exact part.pure rfl
    · exact part.refused _ here (part.pure rfl)

theorem narrows (pattern subject : Ty) :
    E true (fun _ => true) (Check.narrows pattern subject) := by
  refine part.asks (fun _ _ _ => rfl) fun s => part.bind (part.lift _) fun verdict _ => ?_
  cases verdict with
  | ok fits => exact part.pure rfl
  | error reason =>
    cases subject with
    | maybe inner =>
      refine part.bind (part.lift _) fun verdict _ => ?_
      cases verdict <;> exact part.pure rfl
    | _ => exact part.pure rfl

theorem mergeReturns (here : P span) (returned : Option Ty) (types : List Ty) :
    E true (·.1) (Check.mergeReturns span returned types) := by
  induction types generalizing returned with
  | nil => exact part.pure rfl
  | cons type types ih =>
    cases returned with
    | none => exact ih (some type)
    | some previous =>
      refine part.asks (fun _ _ _ => rfl) fun s => part.bind (part.lift _) fun joined _ => ?_
      cases joined with
      | ok merged => exact ih (some merged)
      | error reason =>
        have refused (problem : Problem) : E true (·.1) (do
            let _ ← Check.fail (α := Unit) problem span
            let rest ← Check.mergeReturns span (some previous) types
            return (false, rest.2)) :=
          part.refused problem here (part.after (ih (some previous)) fun _ _ => part.pure rfl)
        cases reason <;> exact refused _

theorem addFields (type : Ty) (here : P span) (fields : NameMap Ty) (names : List String) :
    E true (·.1) (Check.addFields type span fields names) := by
  induction names generalizing fields with
  | nil => exact part.pure rfl
  | cons name names ih =>
    rw [Check.addFields]
    split
    · exact ih _
    · exact part.refused _ here (part.after (ih _) fun _ _ => part.pure rfl)

theorem collectFields (fields : NameMap Ty) {groups : List FieldGroup}
    (each : ∀ group ∈ groups, group.layout.All P) :
    E true (·.1) (Check.collectFields fields groups) := by
  induction groups generalizing fields with
  | nil => exact part.pure rfl
  | cons group groups ih =>
    obtain ⟨⟨here, ⟨term, _⟩, _⟩, others⟩ := List.forall_mem_cons.mp each
    have there : P group.term.span := TypeTerm.all_span term
    refine part.after (part.resolveTerm there) fun type _ => ?_
    cases type with
    | none => exact part.after (ih _ others) fun _ _ => part.pure rfl
    | some type =>
      exact part.after (part.addFields _ here _ _) fun _ _ =>
        part.after (ih _ others) fun _ _ => part.pure rfl

theorem collectConstructors {constructors : List (List TypeTerm)}
    (each : ∀ terms ∈ constructors, ∀ term ∈ terms, P term.span) :
    E true (·.1) (Check.collectConstructors constructors) := by
  induction constructors with
  | nil => exact part.pure rfl
  | cons terms rest ih =>
    obtain ⟨here, others⟩ := List.forall_mem_cons.mp each
    refine part.after (part.resolveTerms here) fun params _ => ?_
    refine part.after (ih others) fun rest _ => ?_
    cases params <;> exact part.pure rfl

end StepParts

theorem ExprParts.functionType {E : ∀ {α : Type}, Bool → (α → Bool) → Check α → Prop}
    (part : ExprParts P @E) (params : List Ty) (declared returned : Option Ty) (here : P span) :
    E true (·.isSome) (Check.functionType params declared returned span) := by
  have give (overloads : List Overload) : E true (·.isSome) (do
      Check.registerFunction overloads
      return some (.func overloads) : Check (Option Ty)) :=
    part.bind (part.registerFunction overloads) fun _ _ => part.pure rfl
  cases declared with
  | none => cases returned <;> exact give _
  | some declared =>
    cases returned with
    | some returned => exact give _
    | none =>
      unfold Check.functionType
      simp only
      split
      · exact give _
      · exact part.fail _ here

namespace FrameParts

variable {E : ∀ {α : Type}, Bool → (α → Bool) → Check α → Prop}
  {S : ∀ {α : Type}, Prop → Bool → (α → Bool) → Check α → Prop} (part : FrameParts P arms @E @S)
include part

theorem return_ {a : α} (same : ok a = sofar) : S given sofar ok (Pure.pure a) :=
  part.statement (part.pure same)

/-- A step that is judged by itself, whatever went before. -/
theorem next (first : S given true ok m)
    (rest : ∀ a, Yields m a → S given (sofar && ok a) ok' (f a)) :
    S given sofar ok' (m >>= f) := by
  have continued := part.continues sofar first
  rw [Bool.and_true] at continued
  exact part.sequence continued rest

theorem defineAllUnresolved (names : List String) (span : Span) :
    S True false (fun _ => false) (Check.defineAllUnresolved names span) := by
  unfold Check.defineAllUnresolved
  induction names.filter (· != "_") with
  | nil => exact part.return_ rfl
  | cons name names ih => exact part.sequence (part.defineUnresolved name span) fun _ _ => ih

theorem defineEach (constant : Bool) (here : P span) (pairs : List (String × Ty)) :
    S True true id (Check.defineEach constant span pairs) := by
  induction pairs with
  | nil => exact part.return_ rfl
  | cons pair pairs ih =>
    obtain ⟨name, type⟩ := pair
    have rest (bound : Option Unit) : S True bound.isSome id (do
        let others ← Check.defineEach constant span pairs
        return bound.isSome && others) := part.next ih fun _ _ => part.return_ rfl
    rw [Check.defineEach]
    split
    · exact part.sequence (part.return_ rfl) fun bound _ => rest bound
    · exact part.sequence (part.define _ _ _ _ here) fun bound _ => rest bound

theorem defineNames (names : List String) (type : Ty) (constant : Bool) (here : P span) :
    S True true (·.isSome) (Check.defineNames names type constant span) := by
  have each (pairs : List (String × Ty)) : S True true (·.isSome) (do
      let bound ← Check.defineEach constant span pairs
      return if bound then some type else none : Check (Option Ty)) := by
    refine part.sequence (part.defineEach constant here pairs) fun bound _ => ?_
    cases bound <;> exact part.return_ rfl
  cases type with
  | spread items =>
    rw [Check.defineNames]
    split
    · exact part.refuses _ (part.defineAllUnresolved names span) here
    · exact each _
  | _ => exact each _

theorem typePattern (subject : Ty) (name : String) {term : TypeTerm} (here : P term.span)
    (span : Span) : S True true id (Check.typePattern subject name term span) := by
  refine part.sequence (part.statement (part.resolveTerm here)) fun pattern _ => ?_
  cases pattern with
  | none => exact part.return_ rfl
  | some pattern =>
    refine part.sequence (part.statement (part.narrows pattern subject)) fun accepted _ => ?_
    cases accepted with
    | true => exact part.sequence (part.shadow _ _ _) fun _ _ => part.return_ rfl
    | false => exact part.statement (part.refused _ here (part.pure rfl))

theorem mergeNames (merged : List Arm) (exhaustive : Bool) (here : P span) (names : List String) :
    S (∀ arm ∈ merged, arms arm) true id (Check.mergeNames merged exhaustive span names) := by
  induction names with
  | nil => exact part.return_ rfl
  | cons name names ih =>
    refine part.sequence (part.mergeName merged exhaustive name here) fun first _ => ?_
    exact part.next ih fun others _ => part.return_ rfl

/-- A merge comes to the names first, then to the returns. -/
theorem mergeArms (merged : List Arm) (exhaustive : Bool) (here : P span) :
    S (∀ arm ∈ merged, arms arm) true (·.isSome) (Check.mergeArms merged exhaustive span) := by
  have outcome (ok : Bool) : (if ok then some () else none).isSome = ok := by cases ok <;> rfl
  refine part.sequence (part.mergeNames merged exhaustive here _) fun bindings _ => ?_
  simp only
  split
  · have joined := part.asks (fun _ _ _ => rfl)
      fun s => part.mergeReturns here s.frame.returns (merged.filterMap (·.returns))
    have settle (result : Bool × Option Ty) : S (∀ arm ∈ merged, arms arm)
        (bindings && result.1) (·.isSome) (do
          modify (·.setReturns result.2)
          return if bindings && result.1 then some () else none) :=
      part.next (part.setReturns result.2) fun _ _ =>
        part.return_ ((outcome _).trans (Bool.and_true _).symm)
    have whole := part.next (part.statement joined) fun result _ => settle result
    simp only [bind_assoc] at whole
    exact whole
  · exact part.return_ (outcome bindings)

/-- Arms are merged, with something noted of whether they agree. -/
theorem merged {merged : List Arm} {exhaustive : Bool} {note : Option Unit → β} (here : P span)
    (good : given → ∀ arm ∈ merged, arms arm)
    (same : ∀ result, ok' (note result) = (sofar && result.isSome)) :
    S given sofar ok' (Check.mergeArms merged exhaustive span >>= fun result =>
      Pure.pure (note result)) :=
  part.next (part.weaken good (part.mergeArms merged exhaustive here)) fun result _ =>
    part.return_ (same result)

/-- The condition of a `do` loop is checked behind the body, whether or not that went well. -/
theorem checkDoBody {body : Block} {condition : Expr} (all : condition.layout.All P)
    (block : S True true (·.2) (Check.checkBlock body))
    (value : E true (·.2.isSome) (Check.checkExpr condition)) :
    S True true (fun checked => checked.1.2 && checked.2.2)
      (Check.checkDoBody body condition) := by
  refine part.sequence block fun checked _ => part.next (part.statement value) fun value came => ?_
  have test := part.conditionType value.2 (came.place all)
  exact part.sequence (part.continues checked.2 (part.statement test)) fun _ _ => part.return_ rfl

theorem checkCaseBody {subject : Ty} {span : Span} {pattern : Pattern} {body : Block}
    (matched : S True true (·.2) (Check.checkPattern subject span pattern))
    (block : S True true (·.2) (Check.checkBlock body)) :
    S True true (fun checked => checked.1.2 && checked.2.2)
      (Check.checkCaseBody subject span pattern body) :=
  part.sequence matched fun _ _ => part.next block fun _ _ => part.return_ rfl

end FrameParts

/-! ## The walk -/

namespace WalkParts

variable {E : ∀ {α : Type}, Bool → (α → Bool) → Check α → Prop}
  {S : ∀ {α : Type}, Prop → Bool → (α → Bool) → Check α → Prop} (part : WalkParts P arms @E @S)
include part

mutual

/-- The walk over expressions, by structural induction: each node puts together the steps that
it takes, with the places of its layout. -/
theorem checkExpr : (e : Expr) → e.layout.All P → E true (·.2.isSome) (Check.checkExpr e)
  | .literal value note, _ => by
      rw [Check.checkExpr]
      exact part.asks (fun _ _ _ => rfl) fun _ => part.pure rfl
  | .symbol name note, all => by
      rw [Check.checkExpr]
      exact part.bind (part.read name all.1) fun _ _ => part.pure rfl
  | .member object name note, all => by
      rw [Check.checkExpr]
      obtain ⟨here, ⟨object', _⟩, _⟩ := all
      refine part.bind (checkExpr object object') fun (object, receiver) _ => ?_
      cases receiver with
      | none => exact part.pure rfl
      | some receiver => exact part.reported (fun _ => member_reports _ _ here) fun _ => rfl
  | .call callee args note, all => by
      rw [Check.checkExpr]
      obtain ⟨here, ⟨callee', args'⟩, _⟩ := all
      refine part.bind (checkExpr callee callee') fun (callee, value) _ => ?_
      refine part.after (checkExprs args args') fun (args, types) _ => ?_
      rcases value with _ | value <;> rcases types with _ | types
      case some.some =>
        exact part.reported (fun _ => callValue_reports _ _ _ here) fun _ => by simp
      all_goals exact part.pure rfl
  | .index object position note, all => by
      rw [Check.checkExpr]
      obtain ⟨here, ⟨object', position', _⟩, _⟩ := all
      refine part.bind (checkExpr object object') fun (object, receiver) _ => ?_
      refine part.after (checkExpr position position') fun (position, place) came => ?_
      have there : P position.span := came.place position'
      rcases receiver with _ | receiver <;> rcases place with _ | place
      case some.some => exact part.reported (fun _ => indexType_reports _ _ there here) fun _ => rfl
      all_goals exact part.pure rfl
  | .construct name args note, all => by
      rw [Check.checkExpr]
      obtain ⟨here, args', _⟩ := all
      refine part.bind (part.read name here) fun value _ => ?_
      refine part.after (checkExprs args args') fun (args, types) _ => ?_
      rcases value with _ | value <;> rcases types with _ | types
      case some.some =>
        exact part.reported (fun _ => constructValue_reports _ _ here) fun _ => by simp
      all_goals exact part.pure rfl
  | .cast value target note, all => by
      rw [Check.checkExpr]
      obtain ⟨here, ⟨value', target', _⟩, _⟩ := all
      refine part.bind (checkExpr value value') fun (value, source) _ => ?_
      refine part.after (part.resolveTerm (TypeTerm.all_span target')) fun wanted _ => ?_
      rcases source with _ | source <;> rcases wanted with _ | wanted
      case some.some => exact part.reported (fun _ => castTo_reports _ _ here) fun _ => by simp
      all_goals exact part.pure rfl
  | .tuple items note, all => by
      rw [Check.checkExpr]
      obtain ⟨_, items', _⟩ := all
      refine part.bind (checkExprs items items') fun (items, types) _ => ?_
      cases types with
      | none => exact part.pure rfl
      | some types => exact part.reported (fun _ => tupleType_reports _) fun _ => rfl
  | .spread value note, all => by
      rw [Check.checkExpr]
      obtain ⟨here, ⟨value', _⟩, _⟩ := all
      refine part.bind (checkExpr value value') fun (value, inner) _ => ?_
      cases inner with
      | none => exact part.pure rfl
      | some inner => exact part.reported (fun _ => spreadType_reports _ here) fun _ => rfl
  | .array items note, all => by
      rw [Check.checkExpr]
      obtain ⟨here, items', _⟩ := all
      refine part.bind (checkExprs items items') fun (items, types) _ => ?_
      cases types with
      | none => exact part.pure rfl
      | some types => exact part.reported (fun _ => arrayType_reports here _) fun _ => rfl
  | .binary left operator right note, all => by
      rw [Check.checkExpr]
      obtain ⟨here, ⟨left', _, right', _⟩, _⟩ := all
      refine part.bind (checkExpr left left') fun (left, leftType) leftCame => ?_
      refine part.after (checkExpr right right') fun (right, rightType) rightCame => ?_
      have leftHere : P left.span := leftCame.place left'
      have rightHere : P right.span := rightCame.place right'
      rcases leftType with _ | leftType <;> rcases rightType with _ | rightType
      case some.some =>
        exact part.bind (part.binaryType _ _ _ leftHere rightHere here) fun _ _ => part.pure rfl
      all_goals exact part.pure rfl
  | .function generics params result body note, all => by
      rw [Check.checkExpr]
      obtain ⟨here, terms, term, body'⟩ := Expr.all_function all
      split
      · exact part.refused _ here (part.pure rfl)
      · refine part.bind (part.resolveTerms terms) fun types _ => ?_
        refine part.after (part.resolveResult term) fun declared _ => ?_
        rcases types with _ | types <;> rcases declared with _ | declared
        case some.some =>
          refine part.inFunction declared params types (checkBlock body body')
            fun (body, ok) returned => ?_
          cases ok with
          | false => exact part.pure rfl
          | true => exact part.bind (part.functionType _ _ _ here) fun _ _ => part.pure rfl
        all_goals exact part.pure rfl

theorem checkExprs : (es : List Expr) → Layout.AllRow P (Expr.layouts es) →
    E true (·.2.isSome) (Check.checkExprs es)
  | [], _ => by
      rw [Check.checkExprs]
      exact part.pure rfl
  | e :: es, all => by
      rw [Check.checkExprs]
      refine part.bind (checkExpr e all.1) fun (e, type) _ => ?_
      refine part.after (checkExprs es all.2) fun (es, types) _ => ?_
      cases type <;> cases types <;> exact part.pure rfl

/-- The walk over statements: values are expressions, blocks are branches, and functions have
frames of their own. -/
theorem checkStmt : (stmt : Stmt) → stmt.layout.All P →
    S True true (·.2.isSome) (Check.checkStmt stmt)
  | .expr value span, all => by
      rw [Check.checkStmt]
      obtain ⟨_, ⟨value', _⟩, _⟩ := all
      exact part.sequence (part.statement (checkExpr value value')) fun _ _ => part.return_ rfl
  | .define names value constant span, all => by
      rw [Check.checkStmt]
      obtain ⟨here, ⟨value', _⟩, _⟩ := all
      refine part.sequence (part.statement (checkExpr value value')) fun (value, type) _ => ?_
      cases type with
      | none => exact part.sequence (part.defineAllUnresolved _ _) fun _ _ => part.return_ rfl
      | some type => exact part.sequence (part.defineNames _ _ _ here) fun _ _ => part.return_ rfl
  | .declare name term none constant span, all => by
      rw [Check.checkStmt]
      obtain ⟨here, ⟨term', _⟩, _⟩ := all
      refine part.sequence (part.statement (part.resolveTerm (TypeTerm.all_span term')))
        fun type _ => ?_
      cases type with
      | none => exact part.sequence (part.defineUnresolved _ _) fun _ _ => part.return_ rfl
      | some type =>
        refine part.sequence (part.define _ _ _ _ here) fun bound _ => ?_
        cases bound <;> exact part.return_ rfl
  | .declare name term (some value) constant span, all => by
      rw [Check.checkStmt]
      obtain ⟨here, ⟨term', value', _⟩, _⟩ := all
      refine part.sequence (part.statement (part.resolveTerm (TypeTerm.all_span term')))
        fun declared _ => ?_
      refine part.next (part.statement (checkExpr value value')) fun (value, received) came => ?_
      have place : P value.span := came.place value'
      cases declared with
      | none => exact part.sequence (part.defineUnresolved _ _) fun _ _ => part.return_ rfl
      | some type =>
        have bind (fitting : Option Unit) : S True fitting.isSome (·.2.isSome) (do
            match ← Check.define name type .always constant span, fitting with
            | some (), some () => return (.declare name term (some value) constant span, some type)
            | _, _ => return (.declare name term (some value) constant span, none) :
            Check (Stmt × Option Ty)) := by
          refine part.next (part.define _ _ _ _ here) fun bound _ => ?_
          cases bound <;> cases fitting <;> exact part.return_ rfl
        cases received with
        | none => exact bind none
        | some received =>
          exact part.sequence (part.statement (part.expectType _ _ place)) fun fits _ => bind fits
  | .classDecl decl span, all => by
      rw [Check.checkStmt]
      exact part.sequence (part.declareClass all.1 all.2) fun _ _ => part.return_ rfl
  | .methods name body span, all => by
      rw [Check.checkStmt]
      exact part.statement (part.refused _ all.1 (part.pure rfl))
  | .ifElse condition yes none span, all => by
      rw [Check.checkStmt]
      obtain ⟨here, ⟨condition', yes', _⟩, _⟩ := all
      refine part.sequence (part.statement (checkExpr condition condition'))
        fun (condition, type) came => ?_
      refine part.sequence (part.statement (part.conditionType type (came.place condition')))
        fun conditionOk _ => ?_
      refine part.inBranch (checkBlock yes yes') fun (yes, yesOk) yesArm => ?_
      exact part.merged here (fun known => List.forall_mem_singleton.mpr known.2)
        fun _ => isSome_done _
  | .ifElse condition yes (some no) span, all => by
      rw [Check.checkStmt]
      obtain ⟨here, ⟨condition', yes', no', _⟩, _⟩ := all
      refine part.sequence (part.statement (checkExpr condition condition'))
        fun (condition, type) came => ?_
      refine part.sequence (part.statement (part.conditionType type (came.place condition')))
        fun conditionOk _ => ?_
      refine part.inBranch (checkBlock yes yes') fun (yes, yesOk) yesArm => ?_
      refine part.inBranch (checkBlock no no') fun (no, noOk) noArm => ?_
      refine part.merged here (fun ⟨⟨_, yesGood⟩, noGood⟩ => ?_) fun _ => isSome_done _
      exact List.forall_mem_cons.mpr ⟨yesGood, List.forall_mem_singleton.mpr noGood⟩
  | .whileLoop condition body span, all => by
      rw [Check.checkStmt]
      obtain ⟨here, ⟨condition', body', _⟩, _⟩ := all
      refine part.sequence (part.statement (checkExpr condition condition'))
        fun (condition, type) came => ?_
      refine part.sequence (part.statement (part.conditionType type (came.place condition')))
        fun conditionOk _ => ?_
      refine part.inBranch (checkBlock body body') fun (body, bodyOk) arm => ?_
      exact part.merged here (fun known => List.forall_mem_singleton.mpr known.2)
        fun _ => isSome_done _
  | .doWhile body condition span, all => by
      rw [checkStmt_doWhile]
      obtain ⟨here, ⟨body', condition', _⟩, _⟩ := all
      refine part.inBranch (part.checkDoBody condition' (checkBlock body body')
        (checkExpr condition condition')) fun checked arm => ?_
      exact part.merged here (fun known => List.forall_mem_singleton.mpr known.2)
        fun _ => isSome_done _
  | .switch subject cases none span, all => by
      rw [Check.checkStmt]
      obtain ⟨here, ⟨subject', cases'⟩, _⟩ := all
      refine part.sequence (part.statement (checkExpr subject subject')) fun (subject, type) _ => ?_
      cases type with
      | none => exact part.return_ rfl
      | some type =>
        refine checkCases type cases cases' fun (cases, others, casesOk) => ?_
        exact part.merged here And.right fun _ => isSome_done _
  | .switch subject cases (some otherwise) span, all => by
      rw [Check.checkStmt]
      obtain ⟨here, ⟨subject', cases'⟩, ⟨otherwise', _⟩, _⟩ := all
      refine part.sequence (part.statement (checkExpr subject subject')) fun (subject, type) _ => ?_
      cases type with
      | none => exact part.return_ rfl
      | some type =>
        refine checkCases type cases cases' fun (cases, others, casesOk) => ?_
        refine part.inBranch (checkBlock otherwise otherwise')
          fun (otherwise, otherwiseOk) arm => ?_
        refine part.merged here (fun ⟨⟨_, good⟩, last⟩ => ?_) fun _ => isSome_done _
        exact List.forall_mem_append.mpr ⟨good, List.forall_mem_singleton.mpr last⟩
  | .return none span, all => by
      rw [Check.checkStmt]
      exact part.sequence (part.recordReturn _ all.1) fun _ _ => part.return_ (by simp)
  | .return (some value) span, all => by
      rw [Check.checkStmt]
      obtain ⟨here, ⟨value', _⟩, _⟩ := all
      refine part.sequence (part.statement (checkExpr value value')) fun (value, type) _ => ?_
      cases type with
      | none => exact part.return_ rfl
      | some type =>
        exact part.sequence (part.recordReturn _ here) fun _ _ => part.return_ (by simp)

theorem checkStmts : (stmts : List Stmt) → Layout.AllRow P (Stmt.layouts stmts) →
    S True true (·.2) (Check.checkStmts stmts)
  | [], _ => by
      rw [Check.checkStmts]
      exact part.return_ rfl
  | stmt :: stmts, all => by
      rw [Check.checkStmts]
      exact part.sequence (checkStmt stmt all.1) fun _ _ =>
        part.next (checkStmts stmts all.2) fun _ _ => part.return_ rfl

theorem checkBlock : (block : Block) → block.layout.All P →
    S True true (·.2) (Check.checkBlock block)
  | ⟨body, span⟩, all => by
      rw [Check.checkBlock]
      exact part.sequence (checkStmts body all.2.1) fun _ _ => part.return_ rfl

/-- The arms of the cases are merged by what follows, so it is part of the statement. -/
theorem checkCases (subject : Ty) : (cases : List Case) → Layout.AllRow P (Case.layouts cases) →
    {β : Type} → {given : Prop} → {sofar : Bool} → {ok : β → Bool} →
    {f : List Case × List Arm × Bool → Check β} →
    (∀ result, S (given ∧ ∀ arm ∈ result.2.1, arms arm) (sofar && result.2.2) ok (f result)) →
    S given sofar ok (Check.checkCases subject cases >>= f)
  | [], _, _, given, sofar, ok, f, rest => by
      rw [Check.checkCases, pure_bind]
      have last : S given (sofar && true) ok (f ([], [], true)) :=
        part.weaken (fun known => ⟨known, by simp⟩) (rest ([], [], true))
      rwa [Bool.and_true] at last
  | ⟨pattern, body, span⟩ :: cases, all, _, given, sofar, ok, f, rest => by
      rw [checkCases_cons]
      obtain ⟨⟨_, ⟨pattern', body', _⟩, _⟩, cases'⟩ := all
      simp only [bind_assoc, pure_bind]
      refine part.inBranch (part.checkCaseBody (checkPattern subject span pattern pattern')
        (checkBlock body body')) fun checked arm => ?_
      refine checkCases subject cases cases' fun (cases, others, casesOk) => ?_
      rw [Bool.and_assoc]
      refine part.weaken (fun ⟨⟨known, first⟩, good⟩ => ⟨known, ?_⟩)
        (rest (⟨checked.1.1, checked.2.1, span⟩ :: cases, arm.forget checked.1.1 :: others,
          checked.1.2 && checked.2.2 && casesOk))
      exact List.forall_mem_cons.mpr ⟨part.forget _ first, good⟩

theorem checkPattern (subject : Ty) (span : Span) : (pattern : Pattern) →
    pattern.layout.All P → S True true (·.2) (Check.checkPattern subject span pattern)
  | .type name term, all => by
      rw [Check.checkPattern]
      exact part.sequence (part.typePattern _ _ (TypeTerm.all_span all) _) fun _ _ =>
        part.return_ rfl
  | .value value, all => by
      rw [Check.checkPattern]
      refine part.statement (part.bind (checkExpr value all) fun (value, type) came => ?_)
      cases type with
      | none => exact part.pure rfl
      | some type =>
        exact part.bind (part.valuePattern _ _ (came.place all)) fun _ _ => part.pure rfl

end

/-- What holds of the steps holds of the check of a whole program. -/
theorem checkProgram (p : Program) (all : p.layout.All P) :
    S True true (·.2) (Check.checkProgram p) :=
  part.sequence (part.checkStmts p.body all.2.1) fun _ _ => part.return_ rfl

end WalkParts

end ShapeLang.Check
