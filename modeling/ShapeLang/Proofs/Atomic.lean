import ShapeLang.Proofs.Effects

/-!
# Operations that fail change nothing

The walk over a tree asks the checker to read, bind and return, to resolve annotations, and to
find overloads and members. An operation that fails, at whichever point, leaves the frames, the
classes and the functions as they were and adds one error to the diagnostics. The one failure
that is not reported is reading a name whose value failed before: that was reported then.
-/

namespace ShapeLang

/-- What the checker is asked to do, by the type of what a success gives. -/
inductive Operation : Type → Type where
  | define (name : String) (type : Ty) (assigned : Assigned) (constant : Bool) (span : Span) :
      Operation Unit
  | read (name : String) (span : Span) : Operation Ty
  | recordReturn (value : Ty) (span : Span) : Operation Unit
  | resolveTerm (term : TypeTerm) : Operation Ty
  | checkCondition (type : Ty) (span : Span) : Operation Unit
  | expectType (received expected : Ty) (span : Span) : Operation Unit
  | selectOverload (callee : String) (candidates : List (List Ty)) (arguments : List Ty)
      (span : Span) : Operation (Nat × List Ty)
  | call (callee : String) (overloads : List Overload) (arguments : List Ty) (span : Span) :
      Operation (Nat × Ty)
  | construct (id : ClassId) (arguments : List Ty) (span : Span) : Operation (Option Nat)
  | member (receiver : Ty) (name : String) (span : Span) : Operation Ty
  | callMember (receiver : Ty) (name : String) (arguments : List Ty) (span : Span) :
      Operation (Nat × Ty)

namespace Operation

variable {α : Type}

def run : {α : Type} → Operation α → Check (Option α)
  | _, define name type assigned constant span => Check.define name type assigned constant span
  | _, read name span => Check.read name span
  | _, recordReturn value span => Check.recordReturn value span
  | _, resolveTerm term => Check.resolveTerm term
  | _, checkCondition type span => Check.checkCondition type span
  | _, expectType received expected span => Check.expectType received expected span
  | _, selectOverload callee candidates arguments span =>
      Check.selectOverload callee (fun params => params) candidates arguments span
  | _, call callee overloads arguments span => Check.call callee overloads arguments span
  | _, construct id arguments span => Check.construct id arguments span
  | _, member receiver name span => Check.member receiver name span
  | _, callMember receiver name arguments span => Check.callMember receiver name arguments span

/-- It reads a name whose value failed to check. -/
def Silent (s : Checker) : {α : Type} → Operation α → Prop
  | _, read name _ => ∃ b, s.lookup? name = some b ∧ b.unresolved = true
  | _, _ => False

def Adds (s : Checker) (op : Operation α) (added : List Diagnostic) : Prop :=
  (op.Silent s ∧ added = []) ∨
    (¬ op.Silent s ∧ ∃ d : Diagnostic, added = [d] ∧ d.severity = .error)

end Operation

namespace Check

variable {α : Type} {s : Checker}

/-- If the step fails, it has reported one error and done nothing else. -/
def FailsOnce (m : Check (Option α)) (s : Checker) : Prop :=
  Gives m s fun result s' => result = none →
    ∃ problem span, s' = s.addDiagnostic (.error problem span)

/-- A step that fails only with a report fails with one diagnostic and changes nothing else. -/
theorem FailsOnce.of_reports {m : Check (Option α)} (reports : Reports anywhere m s) :
    FailsOnce m s := by
  refine reports.gives.imp fun result s' outcome failed => ?_
  rcases outcome with ⟨succeeded, -⟩ | ⟨-, problem, span, -, reported⟩
  · rw [failed] at succeeded
    cases succeeded
  · exact ⟨problem, span, reported⟩

/-- The overloads that were merged before one of them fails are not kept. -/
theorem define_failsOnce (name : String) (type : Ty) (assigned : Assigned) (constant : Bool)
    (span : Span) : FailsOnce (define name type assigned constant span) s := by
  refine (define_outcome name type assigned constant span).imp fun result s' outcome failed => ?_
  cases outcome with
  | fresh => cases failed
  | rebound => cases failed
  | refused _ _ problem => exact ⟨problem, span, rfl⟩

/-- Recording a return fails at most once: the type that was recorded before stays. -/
theorem recordReturn_failsOnce (value : Ty) (span : Span) :
    FailsOnce (recordReturn value span) s := by
  refine (recordReturn_outcome value span).imp fun result s' outcome failed => ?_
  cases outcome with
  | recorded => cases failed
  | refused problem place => exact ⟨problem, place, rfl⟩

/-- A name whose declaration has failed is refused in silence. -/
theorem read_unresolved {name : String} {b : Binding} (found : s.lookup? name = some b)
    (unresolved : b.unresolved = true) (span : Span) : read name span s = .ok (none, s) := by
  rw [read, get_bind, found]
  simp only [unresolved, if_true]
  rfl

/-- Any other name fails with one diagnostic when it cannot be read. -/
theorem read_failsOnce {name : String}
    (resolved : ¬ ∃ b, s.lookup? name = some b ∧ b.unresolved = true) (span : Span) :
    FailsOnce (read name span) s := by
  refine (read_outcome name span).imp fun result s' outcome failed => ?_
  cases outcome with
  | assigned => cases failed
  | silent found unresolved => exact absurd ⟨_, found, unresolved⟩ resolved
  | refused problem place => exact ⟨problem, place, rfl⟩

end Check

namespace Operation

variable {α : Type}

open Check in
/-- An operation that is not silent reports its failure once and leaves the state as it was. -/
theorem failsOnce (op : Operation α) {s : Checker} (loud : ¬ op.Silent s) :
    FailsOnce op.run s := by
  cases op with
  | define => exact define_failsOnce _ _ _ _ _
  | read name span => exact read_failsOnce loud span
  | recordReturn => exact recordReturn_failsOnce _ _
  | resolveTerm => exact .of_reports (resolveTerm_reports trivial)
  | checkCondition => exact .of_reports (checkCondition_reports _ trivial)
  | expectType => exact .of_reports (expectType_reports _ _ trivial)
  | selectOverload => exact .of_reports (selectOverload_reports _ _ _ _ trivial)
  | call => exact .of_reports (call_reports _ _ _ trivial)
  | construct => exact .of_reports (construct_reports _ _ trivial)
  | member => exact .of_reports (member_reports _ _ trivial)
  | callMember => exact .of_reports (callMember_reports _ _ _ trivial)

/-- An operation that is silent leaves no trace at all. -/
theorem unchanged_of_silent (op : Operation α) {s s' : Checker} {result : Option α}
    (silent : op.Silent s) (ran : op.run s = .ok (result, s')) : s' = s := by
  cases op with
  | read name span =>
    obtain ⟨b, found, unresolved⟩ := silent
    have unread := Check.read_unresolved found unresolved span
    cases unread.symm.trans ran
    rfl
  | _ => exact silent.elim

/-- An operation that fails, in whatever state of the checker, has changed nothing but the
diagnostics. To them it has added one error, and none if it reads a name whose value failed. -/
theorem failure_atomic (op : Operation α) {s s' : Checker} (failed : op.run s = .ok (none, s')) :
    ∃ added, s' = { s with diagnostics := s.diagnostics ++ added } ∧ op.Adds s added := by
  by_cases silent : op.Silent s
  · refine ⟨[], ?_, .inl ⟨silent, rfl⟩⟩
    rw [op.unchanged_of_silent silent failed, List.append_nil]
  · obtain ⟨problem, span, rfl⟩ := op.failsOnce silent none s' failed rfl
    exact ⟨[.error problem span], rfl, .inr ⟨silent, _, rfl, rfl⟩⟩

/-- A second overload is taken up before the third fails, and is not there afterwards. -/
theorem failure_atomic_merging :
    let int : Ty := .instanceOf 0 "int"
    let string : Ty := .instanceOf 3 "string"
    let op := define "f" (.func [⟨[], [string], string⟩, ⟨[], [int], string⟩]) .always false .null
    ∃ s s' added, (s.lookup? "f").map (·.type.text) = some "(int) -> int" ∧
      op.run s = .ok (none, s') ∧
      s' = { s with diagnostics := s.diagnostics ++ added } ∧ op.Adds s added ∧
      (s'.lookup? "f").map (·.type.text) = some "(int) -> int" := by
  intro int string op
  let before (s : Checker) : Checker := s.bind "f" (.plain (.function [int] int) .null)
  have computed : ((Checker.initial false).toOption.any fun s =>
      ((before s).lookup? "f").map (·.type.text) == some "(int) -> int" &&
        (op.run (before s)).toOption.any fun result => result.1.isNone) = true := by
    decide +kernel
  obtain ⟨s, -, holds⟩ := exists_ok_of_any computed
  obtain ⟨bound, later⟩ := Bool.and_eq_true_iff.mp holds
  obtain ⟨⟨result, s'⟩, ran, none_⟩ := exists_ok_of_any later
  obtain rfl : result = none := Option.isNone_iff_eq_none.mp none_
  obtain ⟨added, rfl, adds⟩ := op.failure_atomic ran
  exact ⟨before s, _, added, eq_of_beq bound, ran, rfl, adds, eq_of_beq bound⟩

end Operation

end ShapeLang
