import ShapeLang.Proofs.Effects
import ShapeLang.Proofs.Walk

/-!
# Frames are opened and closed in pairs

An expression leaves the frames and the classes as they were; all it can do is to
append diagnostics and function types. A statement works on the innermost frame
only, and only a statement outside of every branch and function can change the
classes. Both hold whether the check goes well or not.
-/

namespace ShapeLang

namespace Checker

/-- The second checker is the first with diagnostics and function types appended. -/
def Noted (s s' : Checker) : Prop :=
  ∃ diagnostics functions, s' = { s with
    diagnostics := s.diagnostics ++ diagnostics
    functions := s.functions ++ functions }

namespace Noted

variable {s s₁ s₂ : Checker}

theorem refl (s : Checker) : s.Noted s := ⟨[], [], by simp⟩

theorem trans (first : s.Noted s₁) (second : s₁.Noted s₂) : s.Noted s₂ := by
  obtain ⟨diagnostics₁, functions₁, rfl⟩ := first
  obtain ⟨diagnostics₂, functions₂, rfl⟩ := second
  exact ⟨diagnostics₁ ++ diagnostics₂, functions₁ ++ functions₂, by simp⟩

theorem addDiagnostic (s : Checker) (d : Diagnostic) : s.Noted (s.addDiagnostic d) :=
  ⟨[d], [], by simp [Checker.addDiagnostic]⟩

theorem classes (noted : s.Noted s₁) : s₁.classes = s.classes := by
  obtain ⟨_, _, rfl⟩ := noted
  rfl

theorem lookup? (noted : s.Noted s₁) (name : String) : s₁.lookup? name = s.lookup? name := by
  obtain ⟨_, _, rfl⟩ := noted
  rfl

end Noted

/-- What a statement may do: the frames around the innermost one stay, and so do the
classes unless there is no frame around it. -/
structure Advanced (s s' : Checker) : Prop where
  outer : s'.outer = s.outer
  kind : s'.frame.kind = s.frame.kind
  builtins : s'.builtins = s.builtins
  warningsAsErrors : s'.warningsAsErrors = s.warningsAsErrors
  diagnostics : s.diagnostics <+: s'.diagnostics
  functions : s.functions <+: s'.functions
  classes : s.atRoot = false → s'.classes = s.classes

namespace Advanced

variable {s s₁ s₂ : Checker}

theorem of_noted (noted : s.Noted s₁) : s.Advanced s₁ := by
  obtain ⟨diagnostics, functions, rfl⟩ := noted
  exact ⟨rfl, rfl, rfl, rfl, List.prefix_append _ _, List.prefix_append _ _, fun _ => rfl⟩

theorem refl (s : Checker) : s.Advanced s := of_noted (.refl s)

theorem atRoot (advanced : s.Advanced s₁) : s₁.atRoot = s.atRoot := by
  simp [Checker.atRoot, advanced.outer]

theorem trans (first : s.Advanced s₁) (second : s₁.Advanced s₂) : s.Advanced s₂ where
  outer := second.outer.trans first.outer
  kind := second.kind.trans first.kind
  builtins := second.builtins.trans first.builtins
  warningsAsErrors := second.warningsAsErrors.trans first.warningsAsErrors
  diagnostics := first.diagnostics.trans second.diagnostics
  functions := first.functions.trans second.functions
  classes inside := (second.classes (first.atRoot.trans inside)).trans (first.classes inside)

theorem bind (s : Checker) (name : String) (binding : Binding) :
    s.Advanced (s.bind name binding) :=
  ⟨rfl, rfl, rfl, rfl, List.prefix_rfl, List.prefix_rfl, fun _ => rfl⟩

theorem setReturns (s : Checker) (returns : Option Ty) : s.Advanced (s.setReturns returns) :=
  ⟨rfl, rfl, rfl, rfl, List.prefix_rfl, List.prefix_rfl, fun _ => rfl⟩

theorem setClasses {s : Checker} (root : s.atRoot = true) (classes : ClassTable) :
    s.Advanced { s with classes } := by
  refine ⟨rfl, rfl, rfl, rfl, List.prefix_rfl, List.prefix_rfl, fun inside => ?_⟩
  rw [root] at inside
  cases inside

theorem bound (s : Checker) (params : List Param) (types : List Ty) :
    s.Advanced (Check.bound s params types) := by
  unfold Check.bound
  induction params.zip types generalizing s with
  | nil => exact refl s
  | cons p rest ih => exact (bind s _ _).trans (ih _)

/-- A frame that was opened and closed leaves nothing but notes. -/
theorem leave {kind : FrameKind} (inside : (s.enter kind).Advanced s₁) :
    s.Noted { s₁ with frame := s.frame, outer := s.outer } := by
  obtain ⟨diagnostics, appended⟩ := inside.diagnostics
  obtain ⟨functions, registered⟩ := inside.functions
  refine ⟨diagnostics, functions, ?_⟩
  have classes := inside.classes rfl
  have builtins := inside.builtins
  have warningsAsErrors := inside.warningsAsErrors
  simp only [Checker.enter] at appended registered classes builtins warningsAsErrors
  rw [appended, registered, ← classes, ← builtins, ← warningsAsErrors]

end Advanced

end Checker

namespace Check

/-- The step only appends diagnostics and function types. -/
def Notes {α : Type} (m : Check α) : Prop := ∀ s, Gives m s fun _ s' => s.Noted s'

/-- The step works on the innermost frame. -/
def Advances {α : Type} (m : Check α) : Prop := ∀ s, Gives m s fun _ s' => s.Advanced s'

variable {α β : Type}

namespace Notes

theorem pure (a : α) : Notes (Pure.pure a : Check α) := fun s => .pure (.refl s)

theorem bind {m : Check α} {f : α → Check β} (first : Notes m)
    (rest : ∀ a, Yields m a → Notes (f a)) : Notes (m >>= f) := by
  intro s
  refine (first s).ran.bind fun a s₁ ⟨ran, noted⟩ => ?_
  exact (rest a ⟨s, s₁, ran⟩ s₁).imp fun _ _ later => noted.trans later

theorem of_reports {m : Check (Option α)} (reports : ∀ s, Reports anywhere m s) : Notes m := by
  intro s
  refine (reports s).gives.imp fun result s' outcome => ?_
  rcases outcome with ⟨_, rfl⟩ | ⟨_, problem, span, _, rfl⟩
  · exact .refl _
  · exact .addDiagnostic _ _

end Notes

theorem Advances.of_notes {m : Check α} (notes : Notes m) : Advances m :=
  fun s => (notes s).imp fun _ _ => .of_noted

theorem Advances.bind {m : Check α} {f : α → Check β} (first : Advances m)
    (rest : ∀ a, Yields m a → Advances (f a)) : Advances (m >>= f) := by
  intro s
  refine (first s).ran.bind fun a s₁ ⟨ran, advanced⟩ => ?_
  exact (rest a ⟨s, s₁, ran⟩ s₁).imp fun _ _ later => advanced.trans later

theorem read_notes (name : String) (span : Span) : Notes (read name span) := by
  intro s
  refine (read_outcome name span).imp fun _ s' outcome => ?_
  cases outcome with
  | assigned => exact .refl s
  | silent => exact .refl s
  | refused problem span => exact .addDiagnostic _ _

theorem registerFunction_notes (overloads : List Overload) :
    Notes (registerFunction overloads) := by
  intro s
  refine (registerFunction_outcome overloads).imp fun _ s' outcome => ?_
  rcases outcome with rfl | rfl
  · exact .refl _
  · exact ⟨[], [overloads], by simp⟩

theorem notesParts : ExprParts anywhere (Always @Notes) where
  pure _ := .pure _
  bind := .bind
  resume _ := id
  lift x s := by
    cases x with
    | error fault =>
      intro _ _ run
      cases run
    | ok a => exact .pure (.refl s)
  asks _ rest s := .after_get (rest s s)
  reports := .of_reports
  read name span _ := read_notes name span
  registerFunction := registerFunction_notes

theorem collectFields_notes (fields : NameMap Ty) (groups : List FieldGroup) :
    Notes (collectFields fields groups) :=
  notesParts.collectFields fields fun _ _ => Layout.all_of (fun _ => trivial) _

theorem collectConstructors_notes (constructors : List (List TypeTerm)) :
    Notes (collectConstructors constructors) :=
  notesParts.collectConstructors fun _ _ _ _ => trivial

theorem define_advances (name : String) (type : Ty) (assigned : Assigned) (constant : Bool)
    (span : Span) : Advances (define name type assigned constant span) := by
  intro s
  refine (define_outcome name type assigned constant span).imp fun _ s' outcome => ?_
  cases outcome with
  | fresh => exact .bind _ _ _
  | rebound => exact .bind _ _ _
  | refused => exact .of_noted (.addDiagnostic _ _)

theorem defineUnresolved_advances (name : String) (span : Span) :
    Advances (defineUnresolved name span) := by
  intro s
  refine .modify ?_
  split
  · exact .bind _ _ _
  · exact .bind _ _ _

theorem recordReturn_advances (value : Ty) (span : Span) : Advances (recordReturn value span) := by
  intro s
  refine (recordReturn_outcome value span).imp fun _ s' outcome => ?_
  cases outcome with
  | recorded => exact .setReturns _ _
  | refused => exact .of_noted (.addDiagnostic _ _)

theorem mergeName_advances (arms : List Arm) (exhaustive : Bool) (span : Span) (name : String) :
    Advances (mergeName arms exhaustive span name) := by
  intro s
  refine (mergeName_outcome arms exhaustive span name).imp fun _ s' outcome => ?_
  cases outcome with
  | outer => exact .bind _ _ _
  | absent => exact .refl _
  | introduced => exact .bind _ _ _
  | conflict => exact (Checker.Advanced.of_noted (.addDiagnostic _ _)).trans (.bind _ _ _)

theorem warn_notes (problem : Problem) (span : Span) : Notes (warn problem span) :=
  fun _ => .modify (.addDiagnostic _ _)

theorem warnIf_notes (wanted : Bool) (problem : Problem) (span : Span) :
    Notes (warnIf wanted problem span) := by
  cases wanted with
  | false => exact .pure _
  | true => exact warn_notes problem span

theorem declareNamed_advances (decl : ClassDecl) (span : Span) {s : Checker}
    (root : s.atRoot = true) : Gives (declareNamed decl span) s fun _ s' => s.Advanced s' := by
  refine (claimClass_outcome decl.name).bind fun result s₁ outcome => ?_
  cases outcome with
  | taken old => exact Advances.of_notes (.of_reports fun _ => .fail _ trivial) s
  | @claimed id classes free declared =>
    have claimed := Checker.Advanced.setClasses root classes
    refine .after_get (.after_lift fun type _ => ?_)
    refine (define_advances _ _ _ _ _ _).bind fun bound s₂ defined => ?_
    replace defined := claimed.trans defined
    cases bound with
    | none => exact .pure defined
    | some bound =>
      refine (collectFields_notes _ _ _).bind fun (fieldsOk, fields) s₃ noted => ?_
      replace defined := defined.trans (.of_noted noted)
      refine (collectConstructors_notes _ _).bind
        fun (constructorsOk, constructors) s₄ noted => ?_
      replace defined := defined.trans (.of_noted noted)
      refine .after_get (.after_lift fun filled _ => .after_lift fun registered _ => ?_)
      exact .after_set (.pure (defined.trans (.setClasses (defined.atRoot.trans root) _)))

/-- A class declaration changes the classes only at the root. -/
theorem declareClass_advances (decl : ClassDecl) (span : Span) :
    Advances (declareClass decl span) := by
  intro s
  cases root : s.atRoot with
  | false =>
    refine .of_run (declareClass_inside decl span root) ?_
    exact Advances.bind (defineUnresolved_advances _ _)
      (fun _ _ => .of_notes (.of_reports fun _ => .fail _ trivial)) s
  | true =>
    refine .of_run (declareClass_root decl span root) ?_
    refine (warnIf_notes _ _ _ s).bind fun _ s₁ first => ?_
    refine (warnIf_notes _ _ _ s₁).bind fun _ s₂ second => ?_
    have warned := Checker.Advanced.of_noted (first.trans second)
    refine (declareNamed_advances decl span (warned.atRoot.trans root)).imp fun _ _ advanced => ?_
    exact warned.trans advanced

/-- What is left is the branch that was entered. -/
theorem exitBranch_run {s s₁ : Checker} (inside : (s.enter .branch).Advanced s₁) :
    exitBranch s₁ = .ok (⟨s₁.frame.bindings, s₁.frame.returns⟩,
      { s₁ with frame := s.frame, outer := s.outer }) := by
  rw [exitBranch, get_bind, inside.kind, inside.outer]
  rfl

/-- Leaving a function brings back the frames that there were when it was entered. -/
theorem exitFunction_run {s s₁ : Checker} {declared : Option Ty}
    (inside : (s.enter (.function declared)).Advanced s₁) :
    exitFunction s₁ = .ok (s₁.frame.returns,
      { s₁ with frame := s.frame, outer := s.outer }) := by
  rw [exitFunction, get_bind, inside.kind, inside.outer]
  rfl

section

variable {body : Check α} {s : Checker} {mid : α → Checker → Prop} {post : β → Checker → Prop}

/-- What follows a function body starts from the frame around it. -/
theorem inFunction_gives {f : α → Option Ty → Check β} {declared : Option Ty}
    {params : List Param} {types : List Ty} (framed : Advances body)
    (inside : Gives body (bound (s.enter (.function declared)) params types) mid)
    (rest : ∀ a s₁, mid a s₁ → s.Noted { s₁ with frame := s.frame, outer := s.outer } →
      Gives (f a s₁.frame.returns) { s₁ with frame := s.frame, outer := s.outer } post) :
    Gives (do
      enterFunction declared
      bindParams params types
      let a ← body
      let returned ← exitFunction
      f a returned) s post := by
  refine .after_modify (.after_run (bindParams_run params types) ?_)
  have opened := Checker.Advanced.bound (s.enter (.function declared)) params types
  refine (inside.and (framed _)).bind fun a s₁ ⟨holds, advanced⟩ => ?_
  have whole := opened.trans advanced
  exact .after_run (exitFunction_run whole) (rest a s₁ holds whole.leave)

/-- What follows a branch starts from the frame around it and knows what was bound inside. -/
theorem inBranch_gives {f : α → Arm → Check β} (framed : Advances body)
    (inside : Gives body (s.enter .branch) mid)
    (rest : ∀ a s₁, mid a s₁ → s.Noted { s₁ with frame := s.frame, outer := s.outer } →
      Gives (f a ⟨s₁.frame.bindings, s₁.frame.returns⟩)
        { s₁ with frame := s.frame, outer := s.outer } post) :
    Gives (do
      enterBranch
      let a ← body
      let arm ← exitBranch
      f a arm) s post := by
  refine .after_modify ((inside.and (framed _)).bind fun a s₁ ⟨holds, advanced⟩ => ?_)
  exact .after_run (exitBranch_run advanced) (rest a s₁ holds advanced.leave)

end

/-- A function only leaves notes, since what is bound in it goes with its frame. -/
theorem inFunction_notes {body : Check α} {f : α → Option Ty → Check β} (declared : Option Ty)
    (params : List Param) (types : List Ty) (inside : Advances body)
    (rest : ∀ a returned, Notes (f a returned)) :
    Notes (do
      enterFunction declared
      bindParams params types
      let a ← body
      let returned ← exitFunction
      f a returned) := by
  intro s
  refine inFunction_gives inside (inside _) fun a s₁ _ noted => ?_
  exact (rest a _ _).imp fun _ _ later => noted.trans later

/-- A branch keeps to the frame around it, since what is bound in it goes with its own. -/
theorem inBranch_advances {body : Check α} {f : α → Arm → Check β} (inside : Advances body)
    (rest : ∀ a arm, Advances (f a arm)) :
    Advances (do
      enterBranch
      let a ← body
      let arm ← exitBranch
      f a arm) := by
  intro s
  refine inBranch_gives inside (inside _) fun a s₁ _ noted => ?_
  exact (rest a _ _).imp fun _ _ later => (Checker.Advanced.of_noted noted).trans later

/-- The whole walk: expressions leave notes, and statements keep to their frame. -/
theorem scoping : WalkParts anywhere (fun _ => True) (Always @Notes) (Throughout @Advances) where
  toExprParts := notesParts
  inFunction := inFunction_notes
  statement := .of_notes
  sequence := .bind
  continues _ := id
  weaken _ := id
  refuses _ _ first _ := .bind first fun _ _ => .of_notes (notesParts.fail _ trivial)
  define name type assigned constant span _ := define_advances name type assigned constant span
  defineUnresolved := defineUnresolved_advances
  shadow _ _ _ _ := .modify (.bind _ _ _)
  declareClass _ _ := declareClass_advances _ _
  mergeName merged exhaustive span name _ := mergeName_advances merged exhaustive span name
  setReturns _ _ := .modify (.setReturns _ _)
  recordReturn value span _ := recordReturn_advances value span
  forget _ _ := trivial
  inBranch := inBranch_advances

/-! ## The walk -/

/-- An expression leaves nothing but notes. -/
theorem checkExpr_notes (e : Expr) : Notes (checkExpr e) :=
  scoping.checkExpr e (Layout.all_of (fun _ => trivial) _)

theorem checkExprs_notes (es : List Expr) : Notes (checkExprs es) :=
  scoping.checkExprs es (Layout.allRow_of (fun _ => trivial) _)

/-- A statement keeps to the innermost frame. -/
theorem checkStmt_advances (stmt : Stmt) : Advances (checkStmt stmt) :=
  scoping.checkStmt stmt (Layout.all_of (fun _ => trivial) _)

theorem checkBlock_advances (block : Block) : Advances (checkBlock block) :=
  scoping.checkBlock block (Layout.all_of (fun _ => trivial) _)

theorem checkProgram_advances (p : Program) : Advances (checkProgram p) :=
  scoping.checkProgram p (Layout.all_of (fun _ => trivial) _)

theorem checkPattern_advances (subject : Ty) (span : Span) (pattern : Pattern) :
    Advances (checkPattern subject span pattern) :=
  scoping.checkPattern subject span pattern (Layout.all_of (fun _ => trivial) _)

theorem checkDoBody_advances (body : Block) (condition : Expr) :
    Advances (checkDoBody body condition) :=
  scoping.checkDoBody (Layout.all_of (fun _ => trivial) _) (checkBlock_advances body)
    (checkExpr_notes condition)

theorem checkCaseBody_advances (subject : Ty) (span : Span) (pattern : Pattern) (body : Block) :
    Advances (checkCaseBody subject span pattern body) :=
  scoping.checkCaseBody (checkPattern_advances subject span pattern) (checkBlock_advances body)

end Check

end ShapeLang
