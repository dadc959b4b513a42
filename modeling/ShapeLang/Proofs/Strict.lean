import ShapeLang.Proofs.Effects
import ShapeLang.Proofs.Walk

/-!
# Warnings as errors

Taking warnings as errors changes how serious they are and nothing else. A check
from a checker and the same check from its strict twin come to the same tree, the
same types and the same faults, and to twins again.
-/

namespace ShapeLang

theorem Diagnostic.promote_promote (d : Diagnostic) : d.promote.promote = d.promote := by
  obtain ⟨problem, span, severity⟩ := d
  cases severity <;> rfl

namespace Checker

variable (s : Checker)

/-- The checker that would be here if warnings had been errors from the start. -/
def strict : Checker :=
  { s with diagnostics := s.diagnostics.map .promote, warningsAsErrors := true }

@[simp] theorem strict_lookup? (name : String) : s.strict.lookup? name = s.lookup? name := rfl

@[simp] theorem strict_classes : s.strict.classes = s.classes := rfl

@[simp] theorem strict_frame : s.strict.frame = s.frame := rfl

@[simp] theorem strict_outer : s.strict.outer = s.outer := rfl

@[simp] theorem strict_declaredReturn? : s.strict.declaredReturn? = s.declaredReturn? := rfl

@[simp] theorem strict_atRoot : s.strict.atRoot = s.atRoot := rfl

theorem strict_addDiagnostic (d : Diagnostic) :
    (s.addDiagnostic d).strict = s.strict.addDiagnostic d.promote := by
  simp [strict, addDiagnostic]

end Checker

namespace Check

variable {α β : Type}

/-- From the strict twin of `s` the second step comes to what the first comes to from `s`,
up to strictness. -/
def Twin (m m' : Check α) (s : Checker) : Prop :=
  m' s.strict = (m s).map fun p => (p.1, p.2.strict)

/-- The step does the same whether or not warnings are errors. -/
def Indifferent (m : Check α) : Prop := ∀ s, Twin m m s

namespace Twin

variable {s : Checker} {m m' : Check α}

theorem pure (a : α) : Twin (Pure.pure a) (Pure.pure a) s := rfl

theorem bind {f f' : α → Check β} (first : Twin m m' s)
    (rest : ∀ a s', m s = .ok (a, s') → Twin (f a) (f' a) s') : Twin (m >>= f) (m' >>= f') s := by
  unfold Twin at first ⊢
  cases ran : m s with
  | error fault =>
    rw [ran] at first
    rw [bind_fault first, bind_fault ran]
    rfl
  | ok p =>
    obtain ⟨a, s'⟩ := p
    rw [ran] at first
    rw [bind_ok first, bind_ok ran]
    exact rest a s' ran

/-- Only the runs from the two twins matter. -/
theorem of_run {m₁ m₁' : Check α} (here : m s = m₁ s) (there : m' s.strict = m₁' s.strict)
    (twin : Twin m₁ m₁' s) : Twin m m' s := by
  unfold Twin at twin ⊢
  rw [here, there, twin]

theorem after_get {f f' : Checker → Check β} (rest : Twin (f s) (f' s.strict) s) :
    Twin (get >>= f) (get >>= f') s := rest

theorem after_set {s₁ : Checker} {f f' : PUnit → Check β} (rest : Twin (f ⟨⟩) (f' ⟨⟩) s₁) :
    Twin (set s₁ >>= f) (set s₁.strict >>= f') s := rest

theorem after_lift {x : Except Fault α} {f f' : α → Check β} (rest : ∀ a, Twin (f a) (f' a) s) :
    Twin (liftM x >>= f) (liftM x >>= f') s := by
  cases x with
  | error fault => rfl
  | ok a => exact rest a

theorem modify {g : Checker → Checker} (same : g s.strict = (g s).strict) :
    Twin (modify g) (modify g) s := by
  show Except.ok (PUnit.unit, g s.strict) = .ok (PUnit.unit, (g s).strict)
  rw [same]

/-- A report is promoted and nothing else about it changes. -/
theorem fail (problem : Problem) (span : Span) :
    Twin (Check.fail problem span : Check (Option α)) (Check.fail problem span) s := by
  refine bind (modify ?_) fun _ _ _ => pure _
  exact (s.strict_addDiagnostic (.error problem span)).symm

/-- What a step decides without a look at earlier reports, it decides for both twins. -/
theorem of_reports {m : Check (Option α)} (reports : Reports anywhere m s) : Twin m m s := by
  obtain ⟨ruling, run⟩ := reports
  refine of_run (run s.diagnostics s.warningsAsErrors) (run _ _) ?_
  rcases ruling with fault | ⟨problem, span, _⟩ | a
  · rfl
  · exact fail problem span
  · exact pure _

end Twin

namespace Indifferent

theorem pure (a : α) : Indifferent (Pure.pure a : Check α) := fun _ => .pure a

theorem bind {m : Check α} {f : α → Check β} (first : Indifferent m)
    (rest : ∀ a, Yields m a → Indifferent (f a)) : Indifferent (m >>= f) :=
  fun s => (first s).bind fun a s' ran => rest a ⟨s, s', ran⟩ s'

/-- A step that only reports is indifferent: it does not look at what was reported. -/
theorem of_reports {m : Check (Option α)} (reports : ∀ s, Reports anywhere m s) :
    Indifferent m :=
  fun s => .of_reports (reports s)

end Indifferent

/-- A warning is recorded as an error from the start if the check is strict, and promoted if
not. -/
theorem warn_indifferent (problem : Problem) (span : Span) : Indifferent (warn problem span) := by
  intro s
  refine .modify ?_
  rw [s.strict_addDiagnostic]
  cases s.warningsAsErrors with
  | false => rfl
  | true => rw [if_pos rfl, Diagnostic.promote_promote]; rfl

theorem warnIf_indifferent (wanted : Bool) (problem : Problem) (span : Span) :
    Indifferent (warnIf wanted problem span) := by
  cases wanted with
  | false => exact .pure _
  | true => exact warn_indifferent problem span

theorem read_indifferent (name : String) (span : Span) : Indifferent (read name span) := by
  intro s
  refine .after_get ?_
  rw [s.strict_lookup?]
  cases s.lookup? name with
  | none => exact .fail _ _
  | some b =>
    simp only
    split
    · exact .pure _
    · split
      · exact .pure _
      · exact .fail _ _
      · exact .fail _ _

theorem define_indifferent (name : String) (type : Ty) (assigned : Assigned) (constant : Bool)
    (span : Span) : Indifferent (define name type assigned constant span) := by
  intro s
  refine .after_get ?_
  rw [s.strict_lookup?]
  cases s.lookup? name with
  | none => exact .after_set (.pure _)
  | some old =>
    simp only
    split
    · exact .after_set (.pure _)
    · split
      · exact .fail _ _
      · refine .after_lift fun rebound => ?_
        cases rebound with
        | error problem => exact .fail _ _
        | ok merged => exact .after_set (.pure _)

theorem defineUnresolved_indifferent (name : String) (span : Span) :
    Indifferent (defineUnresolved name span) := by
  intro s
  refine .modify ?_
  rw [s.strict_lookup?]
  cases s.lookup? name <;> rfl

theorem registerFunction_indifferent (overloads : List Overload) :
    Indifferent (registerFunction overloads) := by
  intro s
  refine .modify ?_
  show (if s.functions.contains overloads then _ else _) = Checker.strict (if _ then _ else _)
  split <;> rfl

theorem indifferentParts : ExprParts anywhere (Always @Indifferent) where
  pure _ := .pure _
  bind := .bind
  resume _ := id
  lift x s := by cases x <;> rfl
  asks blind rest s := by
    have same := blind s s.strict.diagnostics s.strict.warningsAsErrors
    exact .after_get (same ▸ rest s s)
  reports := .of_reports
  read name span _ := read_indifferent name span
  registerFunction := registerFunction_indifferent

theorem mergeName_indifferent (arms : List Arm) (exhaustive : Bool) (span : Span)
    (name : String) : Indifferent (mergeName arms exhaustive span name) := by
  intro s
  refine .after_get ?_
  rw [s.strict_lookup?]
  cases s.lookup? name with
  | some outer =>
    simp only
    split
    · exact .after_lift fun type => .after_set (.pure _)
    · exact .bind (.pure _) fun type _ _ => .after_set (.pure _)
  | none =>
    simp only
    split
    · exact .pure _
    · refine .after_lift fun (merged, failure) => ?_
      have bindMerged (result : Option Unit) : Indifferent (do
          modify (·.bind name merged)
          return result) := .bind (fun _ => .modify rfl) fun _ _ => .pure _
      cases failure with
      | none => exact .bind (.pure _) fun result s' _ => bindMerged result s'
      | some failure =>
        exact .bind (.of_reports (mismatch_reports _ _ _ trivial))
          fun result s' _ => bindMerged result s'

theorem settleReturn_indifferent (span : Span) (returned : Option Ty) :
    Indifferent (settleReturn span returned) := by
  cases returned with
  | none => exact .pure _
  | some returned =>
    refine fun s => .after_get ?_
    rw [s.strict_frame]
    cases s.frame.returns with
    | none => exact .after_set (.pure _)
    | some previous =>
      refine .after_lift fun joined => ?_
      cases joined with
      | ok merged => exact .after_set (.pure _)
      | error reason => exact .of_reports (mismatch_reports _ _ _ trivial)

theorem recordReturn_indifferent (value : Ty) (span : Span) :
    Indifferent (recordReturn value span) := by
  intro s
  refine .of_run (recordReturn_run value span) (recordReturn_run value span) ?_
  rw [s.strict_declaredReturn?]
  cases s.declaredReturn? with
  | none => exact .bind (.fail _ _) fun returned s' _ => settleReturn_indifferent span returned s'
  | some declared =>
    cases declared with
    | none => exact settleReturn_indifferent span (some value) s
    | some declared =>
      refine .bind (.of_reports (expectType_reports _ _ trivial)) fun fits s' _ => ?_
      cases fits with
      | none => exact settleReturn_indifferent span none s'
      | some fits => exact settleReturn_indifferent span (some declared) s'

/-- Whether a name is free for a class does not hang on what was reported. -/
theorem claimClass_indifferent (name : String) : Indifferent (claimClass name) := by
  intro s
  have claim : Twin (claimFree s name) (claimFree s.strict name) s := by
    unfold claimFree
    rw [s.strict_classes]
    cases s.classes.declare name with
    | ok declared => exact .after_set (.pure _)
    | error existing => exact .after_lift fun type => .pure _
  refine .of_run (claimClass_run name) (claimClass_run name) ?_
  rw [s.strict_lookup?]
  cases s.lookup? name with
  | none => exact claim
  | some old =>
    simp only
    split
    · exact claim
    · exact .pure _

theorem declareNamed_indifferent (decl : ClassDecl) (span : Span) :
    Indifferent (declareNamed decl span) := by
  refine .bind (claimClass_indifferent _) fun claimed _ => ?_
  cases claimed with
  | error old => exact .of_reports fun _ => .fail _ trivial
  | ok id =>
    refine fun s => .after_get (.after_lift fun type => ?_)
    refine Indifferent.bind (define_indifferent _ _ _ _ _) (fun bound _ => ?_) s
    cases bound with
    | none => exact .pure _
    | some bound =>
      refine .bind (indifferentParts.collectFields _ fun _ _ => Layout.all_of (fun _ => trivial) _)
        fun (fieldsOk, fields) _ => ?_
      refine .bind (indifferentParts.collectConstructors fun _ _ _ _ => trivial)
        fun (constructorsOk, constructors) _ => ?_
      refine fun s => .after_get (.after_lift fun filled => .after_lift fun registered => ?_)
      exact .after_set (.pure _)

theorem declareClass_indifferent (decl : ClassDecl) (span : Span) :
    Indifferent (declareClass decl span) := by
  intro s
  cases root : s.atRoot with
  | false =>
    refine .of_run (declareClass_inside decl span root) (declareClass_inside decl span root) ?_
    exact Indifferent.bind (defineUnresolved_indifferent _ _)
      (fun _ _ => .of_reports fun _ => .fail _ trivial) s
  | true =>
    refine .of_run (declareClass_root decl span root) (declareClass_root decl span root) ?_
    exact Indifferent.bind (warnIf_indifferent _ _ _)
      (fun _ _ => .bind (warnIf_indifferent _ _ _) fun _ _ => declareNamed_indifferent _ _) s

theorem exitBranch_indifferent : Indifferent exitBranch := by
  intro s
  refine .after_get ?_
  rw [s.strict_frame, s.strict_outer]
  split
  · exact .after_set (.pure _)
  · rfl

theorem exitFunction_indifferent : Indifferent exitFunction := by
  intro s
  refine .after_get ?_
  rw [s.strict_frame, s.strict_outer]
  split
  · exact .after_set (.pure _)
  · rfl

theorem bindParams_indifferent (params : List Param) (types : List Ty) :
    Indifferent (bindParams params types) := by
  unfold bindParams
  induction params.zip types with
  | nil => exact .pure _
  | cons p rest ih => exact .bind (fun _ => .modify rfl) fun _ _ => ih

theorem indifference :
    WalkParts anywhere (fun _ => True) (Always @Indifferent) (Throughout @Indifferent) where
  toExprParts := indifferentParts
  inFunction _ _ _ inside rest :=
    .bind (fun _ => .modify rfl) fun _ _ => .bind (bindParams_indifferent _ _) fun _ _ =>
      .bind inside fun a _ => .bind exitFunction_indifferent fun returned _ => rest a returned
  statement := id
  sequence := .bind
  continues _ := id
  weaken _ := id
  refuses _ _ first _ := .bind first fun _ _ => indifferentParts.fail _ trivial
  define name type assigned constant span _ := define_indifferent name type assigned constant span
  defineUnresolved := defineUnresolved_indifferent
  shadow _ _ _ _ := .modify rfl
  declareClass _ _ := declareClass_indifferent _ _
  mergeName merged exhaustive span name _ := mergeName_indifferent merged exhaustive span name
  setReturns _ _ := .modify rfl
  recordReturn value span _ := recordReturn_indifferent value span
  forget _ _ := trivial
  inBranch inside rest :=
    .bind (fun _ => .modify rfl) fun _ _ => .bind inside fun a _ =>
      .bind exitBranch_indifferent fun arm _ => rest a arm

/-- A check comes to the same whether or not warnings are taken as errors. -/
theorem checkProgram_indifferent (p : Program) : Indifferent (checkProgram p) :=
  indifference.checkProgram p (Layout.all_of (fun _ => trivial) _)

end Check

end ShapeLang
