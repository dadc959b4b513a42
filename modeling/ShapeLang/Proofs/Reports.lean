import ShapeLang.Checker.Walk
import ShapeLang.Proofs.Steps

/-!
# Steps that only report

The steps that resolve an annotation, compare types, or look for a member, an
overload, a constructor or a cast. Each leaves the checker as it is, or reports
one error at a place that it was given and fails.
-/

namespace ShapeLang.Check

variable {α : Type} {P : Span → Prop} {s : Checker} {span : Span}

theorem mismatch_reports (reason : Mismatch) (expected received : Ty) (here : P span) :
    Reports P (mismatch reason expected received span : Check (Option α)) s := by
  cases reason <;> exact .fail _ here

theorem expectType_reports (received expected : Ty) (here : P span) :
    Reports P (expectType received expected span) s := by
  refine .after_get (fun _ _ => rfl) (.after_lift fun verdict => ?_)
  cases verdict with
  | ok fits => exact .some
  | error reason => exact mismatch_reports _ _ _ here

/-- An annotation that cannot be resolved is reported at its own place. -/
theorem resolveTerm_reports {term : TypeTerm} (here : P term.span) :
    Reports P (resolveTerm term) s := by
  refine .after_get (fun _ _ => rfl) ?_
  split
  · exact .some
  · exact .fail _ here
  · exact .fail _ here

theorem selectOverload_reports (callee : String) (params : α → List Ty) (candidates : List α)
    (arguments : List Ty) (here : P span) :
    Reports P (selectOverload callee params candidates arguments span) s := by
  refine .after_get (fun _ _ => rfl) (.after_lift fun found => ?_)
  split
  · exact mismatch_reports _ _ _ here
  · exact .some
  · split
    · split
      · exact .fail _ here
      · exact .fail _ here
    · exact .fail _ here

theorem call_reports (callee : String) (overloads : List Overload) (arguments : List Ty)
    (here : P span) : Reports P (call callee overloads arguments span) s :=
  (selectOverload_reports _ _ _ _ here).bind (fun _ => .some) rfl

theorem construct_reports (id : ClassId) (arguments : List Ty) (here : P span) :
    Reports P (construct id arguments span) s := by
  refine .after_get (fun _ _ => rfl) (.after_lift fun c => ?_)
  split
  · exact .some
  · exact (selectOverload_reports _ _ _ _ here).bind (fun _ => .some) rfl

theorem member_reports (receiver : Ty) (name : String) (here : P span) :
    Reports P (member receiver name span) s := by
  unfold member
  split
  · exact .fail _ here
  · refine .after_get (fun _ _ => rfl) (.after_lift fun c => ?_)
    split
    · exact .some
    · exact .fail _ here

theorem callMember_reports (receiver : Ty) (name : String) (arguments : List Ty)
    (here : P span) : Reports P (callMember receiver name arguments span) s := by
  refine (member_reports _ _ here).bind (fun type => ?_) rfl
  cases type with
  | func overloads => exact call_reports _ _ _ here
  | _ => exact .fail _ here

theorem callValue_reports (callee : String) (value : Ty) (arguments : List Ty) (here : P span) :
    Reports P (callValue callee value arguments span) s := by
  cases value with
  | func overloads => exact (call_reports _ _ _ here).bind (fun _ => .some) rfl
  | classValue id name => exact (construct_reports _ _ here).bind (fun _ => .some) rfl
  | _ => exact .fail _ here

theorem constructValue_reports (value : Ty) (arguments : List Ty) (here : P span) :
    Reports P (constructValue value arguments span) s := by
  cases value with
  | classValue id name => exact (construct_reports _ _ here).bind (fun _ => .some) rfl
  | _ => exact .fail _ here

theorem checkCondition_reports (type : Ty) (here : P span) :
    Reports P (checkCondition type span) s := by
  have verdict (accepted : Bool) : Reports P (if accepted then pure (some ())
      else fail (.typeMismatch Builtin.bool.name type.text) span : Check (Option Unit)) s := by
    cases accepted
    · exact .fail _ here
    · exact .some
  refine .after_get (fun _ _ => rfl) ?_
  split
  · exact verdict false
  · exact .after_lift fun c => verdict _

/-- What is left of a cast once the casts of the value's class are known. -/
def castBy (value target : Ty) (span : Span) (overloads : List Overload) :
    Check (Option (Nat × Ty)) :=
  match overloads.findIdx? fun o =>
      o.generics.isEmpty && o.params.isEmpty && o.result == target with
  | some index => return some (index, target)
  | none => fail (.noSuchCast value.text target.text) span

theorem castBy_reports (value target : Ty) (here : P span) (overloads : List Overload) :
    Reports P (castBy value target span overloads) s := by
  unfold castBy
  split
  · exact .some
  · exact .fail _ here

theorem castTo_reports (value target : Ty) (here : P span) :
    Reports P (castTo value target span) s := by
  refine .after_get (fun _ _ => rfl) ?_
  split
  · exact castBy_reports value target here []
  · exact .after_lift fun c => castBy_reports value target here _

theorem joinItems_reports (here : P span) (merged : Ty) (types : List Ty) :
    Reports P (joinItems span merged types) s := by
  induction types generalizing merged with
  | nil => exact .some
  | cons type types ih =>
    refine .after_get (fun _ _ => rfl) (.after_lift fun joined => ?_)
    cases joined with
    | ok merged => exact ih merged
    | error reason => exact mismatch_reports _ _ _ here

theorem arrayType_reports (here : P span) (types : List Ty) :
    Reports P (arrayType span types) s := by
  cases types with
  | nil => exact .fail _ here
  | cons first others => exact (joinItems_reports here _ _).bind (fun _ => .some) rfl

/-- An index is reported at its own place if it is not an integer, and otherwise at the access. -/
theorem indexType_reports (object position : Ty) {positionSpan : Span} (there : P positionSpan)
    (here : P span) : Reports P (indexType object position positionSpan span) s := by
  cases object with
  | array item =>
    exact .after_get (fun _ _ => rfl) ((expectType_reports _ _ there).bind (fun _ => .some) rfl)
  | object name id generics => exact (callMember_reports _ _ _ here).bind (fun _ => .some) rfl
  | _ => exact .fail _ here

theorem spreadType_reports (value : Ty) (here : P span) :
    Reports P (spreadType value span) s := by
  unfold spreadType
  split
  · exact .some
  · exact .fail _ here

theorem tupleType_reports (types : List Ty) : Reports P (tupleType types) s :=
  .after_lift fun _ => .some

/-- A declared result that cannot be resolved is reported at its annotation. -/
theorem resolveResult_reports {result : Option TypeTerm} (each : ∀ term ∈ result, P term.span) :
    Reports P (resolveResult result) s := by
  cases result with
  | none => exact .some
  | some term => exact (resolveTerm_reports (each term rfl)).bind (fun _ => .some) rfl

end ShapeLang.Check
