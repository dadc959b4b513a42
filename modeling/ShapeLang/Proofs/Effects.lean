import ShapeLang.Proofs.NameMap
import ShapeLang.Proofs.Reports

/-!
# Steps that change the checker

What the steps that read and bind names, close frames, merge arms and record
returns can come to, each said once with everything that decides it.
-/

namespace ShapeLang

namespace Checker

variable (s : Checker) (name : String) (binding : Binding)

theorem lookup?_bind (other : String) :
    (s.bind name binding).lookup? other = if other = name then some binding else s.lookup? other :=
  s.frame.bindings.find?_insert name other binding

end Checker

namespace Check

variable {s : Checker}

inductive ReadOutcome (s : Checker) (name : String) : Option Ty → Checker → Prop where
  | assigned {b : Binding} (found : s.lookup? name = some b) (resolved : b.unresolved = false)
      (always : b.assigned = .always) : ReadOutcome s name (some b.type) s
  /-- The name has no value because that failed; nothing more is said about it. -/
  | silent {b : Binding} (found : s.lookup? name = some b) (unresolved : b.unresolved = true) :
      ReadOutcome s name none s
  | refused (problem : Problem) (span : Span) :
      ReadOutcome s name none (s.addDiagnostic (.error problem span))

theorem read_outcome (name : String) (span : Span) :
    Gives (read name span) s (ReadOutcome s name) := by
  refine .after_get ?_
  cases found : s.lookup? name with
  | none => exact .after_modify (.pure (.refused _ _))
  | some b =>
    cases unresolved : b.unresolved with
    | true =>
      simp only [unresolved, if_true]
      exact .pure (.silent found unresolved)
    | false =>
      simp only [unresolved, Bool.false_eq_true, if_false]
      cases always : b.assigned with
      | always => exact .pure (.assigned found unresolved always)
      | sometimes => exact .after_modify (.pure (.refused _ _))
      | never => exact .after_modify (.pure (.refused _ _))

theorem resolveTerm_denotes (term : TypeTerm) :
    Gives (resolveTerm term) s fun result _ =>
      ∀ type, result = some type → term.lower.resolve s.classes.ids = (type, none) := by
  refine .after_get ?_
  split
  · rename_i type found
    refine .pure fun type' same => ?_
    cases same
    exact found
  · exact .after_modify (.pure (by simp))
  · exact .after_modify (.pure (by simp))

inductive FitOutcome (s : Checker) (received expected : Ty) : Option Unit → Checker → Prop where
  | fits (compared : s.classes.compare received expected = .ok (.ok ())) :
      FitOutcome s received expected (some ()) s
  | refused (problem : Problem) (span : Span) :
      FitOutcome s received expected none (s.addDiagnostic (.error problem span))

theorem expectType_outcome (received expected : Ty) (span : Span) :
    Gives (expectType received expected span) s (FitOutcome s received expected) := by
  refine .after_get (.after_lift fun verdict compared => ?_)
  cases verdict with
  | ok fits => exact .pure (.fits compared)
  | error reason => cases reason <;> exact .after_modify (.pure (.refused _ _))

inductive DefineOutcome (s : Checker) (name : String) (type : Ty) (assigned : Assigned)
    (constant : Bool) (span : Span) : Option Unit → Checker → Prop where
  | fresh (free : ∀ b, s.lookup? name = some b → b.unresolved = true) :
      DefineOutcome s name type assigned constant span (some ())
        (s.bind name ⟨type, assigned, constant, false, span⟩)
  | rebound {old : Binding} {merged : Ty} (found : s.lookup? name = some old)
      (resolved : old.unresolved = false) (open_ : old.isFixed = false)
      (fits : s.classes.rebind name old.type type = .ok (.ok merged)) :
      DefineOutcome s name type assigned constant span (some ())
        (s.bind name { old with
          type := merged
          assigned := old.assigned.max assigned
          constant := old.constant || constant })
  | refused {old : Binding} (found : s.lookup? name = some old)
      (resolved : old.unresolved = false) (problem : Problem) :
      DefineOutcome s name type assigned constant span none
        (s.addDiagnostic (.error problem span))

theorem define_outcome (name : String) (type : Ty) (assigned : Assigned) (constant : Bool)
    (span : Span) : Gives (define name type assigned constant span) s
      (DefineOutcome s name type assigned constant span) := by
  refine .after_get ?_
  cases found : s.lookup? name with
  | none => exact .after_set (.pure (.fresh (by simp [found])))
  | some old =>
    simp only
    split
    · rename_i unresolved
      exact .after_set (.pure (.fresh (by simp [found, unresolved])))
    · rename_i resolved
      replace resolved := Bool.eq_false_iff.mpr resolved
      split
      · exact .after_modify (.pure (.refused found resolved _))
      · rename_i open_
        refine .after_lift fun rebound fits => ?_
        cases rebound with
        | error problem => exact .after_modify (.pure (.refused found resolved _))
        | ok merged =>
          exact .after_set (.pure (.rebound found resolved (Bool.eq_false_iff.mpr open_) fits))

/-- A name that is free, or whose declaration has failed, is bound as it stands. -/
theorem define_fresh {name : String} {type : Ty} {assigned : Assigned} {constant : Bool}
    {span : Span} (free : ∀ b, s.lookup? name = some b → b.unresolved = true) :
    define name type assigned constant span s =
      .ok (some (), s.bind name ⟨type, assigned, constant, false, span⟩) := by
  rw [define, get_bind]
  cases found : s.lookup? name with
  | none => rfl
  | some old =>
    simp only [free old found, if_true]
    rfl

def bound (s : Checker) (params : List Param) (types : List Ty) : Checker :=
  (params.zip types).foldl (fun s p => s.bind p.1.name (.plain p.2 p.1.term.span)) s

theorem bound_classes (s : Checker) (params : List Param) (types : List Ty) :
    (bound s params types).classes = s.classes ∧
      (bound s params types).builtins = s.builtins := by
  unfold bound
  induction params.zip types generalizing s with
  | nil => exact ⟨rfl, rfl⟩
  | cons p rest ih => exact ih (s.bind p.1.name (.plain p.2 p.1.term.span))

/-- Parameters are bound one after the other, whatever their names held outside. -/
theorem bindParams_run (params : List Param) (types : List Ty) :
    bindParams params types s = .ok (⟨⟩, bound s params types) := by
  unfold bindParams bound
  induction params.zip types generalizing s with
  | nil => rfl
  | cons p rest ih => exact ih

theorem lookup?_bound (s : Checker) (params : List Param) (types : List Ty) {name : String}
    (other : name ∉ params.map (·.name)) :
    (bound s params types).lookup? name = s.lookup? name := by
  have each (pairs : List (Param × Ty)) (listed : ∀ pair ∈ pairs, pair.1 ∈ params) (s : Checker) :
      (pairs.foldl (fun s p => s.bind p.1.name (.plain p.2 p.1.term.span)) s).lookup? name =
        s.lookup? name := by
    induction pairs generalizing s with
    | nil => rfl
    | cons pair rest ih =>
      obtain ⟨here, others⟩ := List.forall_mem_cons.mp listed
      have apart : name ≠ pair.1.name := fun same => other (same ▸ List.mem_map_of_mem here)
      rw [List.foldl_cons, ih others, Checker.lookup?_bind, if_neg apart]
  exact each _ (fun pair listed => (List.of_mem_zip listed).1) s

/-- A function's overloads are added to the list unless they are there already. -/
theorem registerFunction_outcome (overloads : List Overload) :
    Gives (registerFunction overloads) s fun _ s' =>
      s' = s ∨ s' = { s with functions := s.functions ++ [overloads] } := by
  refine .modify ?_
  split
  · exact .inl rfl
  · exact .inr rfl

inductive MergeOutcome (s : Checker) (arms : List Arm) (exhaustive : Bool) (span : Span)
    (name : String) : Option Unit → Checker → Prop where
  /-- The name is known outside: it keeps its binding up to type and assignment. -/
  | outer {b : Binding} {type : Ty} (found : s.lookup? name = some b)
      (typed : (exhaustive = true ∧ b.unresolved = false ∧
          s.classes.reconcile b.type (Arm.bindingsOf arms name) = .ok type) ∨
        ((exhaustive = false ∨ b.unresolved = true) ∧ type = b.type)) :
      MergeOutcome s arms exhaustive span name (some ()) (s.bind name { b with
        type := type
        assigned := b.assigned.max (.afterArms exhaustive (Arm.states arms name)) })
  | absent (free : s.lookup? name = none) (nowhere : Arm.bindingsOf arms name = []) :
      MergeOutcome s arms exhaustive span name (some ()) s
  | introduced {first merged : Binding} {others : List Binding} (free : s.lookup? name = none)
      (inArms : Arm.bindingsOf arms name = first :: others)
      (joined : s.classes.joinBindings
        { first with assigned := .afterArms exhaustive (Arm.states arms name) } others =
          .ok (merged, none)) :
      MergeOutcome s arms exhaustive span name (some ()) (s.bind name merged)
  | conflict {first merged : Binding} {others : List Binding} {failure : JoinFailure}
      (free : s.lookup? name = none) (inArms : Arm.bindingsOf arms name = first :: others)
      (joined : s.classes.joinBindings
        { first with assigned := .afterArms exhaustive (Arm.states arms name) } others =
          .ok (merged, some failure)) (problem : Problem) :
      MergeOutcome s arms exhaustive span name none
        ((s.addDiagnostic (.error problem span)).bind name merged)

theorem mergeName_outcome (arms : List Arm) (exhaustive : Bool) (span : Span) (name : String) :
    Gives (mergeName arms exhaustive span name) s
      (MergeOutcome s arms exhaustive span name) := by
  refine .after_get ?_
  cases found : s.lookup? name with
  | some b =>
    cases reconciled : exhaustive && !b.unresolved with
    | true =>
      simp only [reconciled, if_true]
      obtain ⟨all, resolved⟩ := Bool.and_eq_true_iff.mp reconciled
      refine .after_lift fun type typed => .after_set (.pure (MergeOutcome.outer found (.inl ?_)))
      exact ⟨all, by simpa using resolved, typed⟩
    | false =>
      simp only [reconciled, Bool.false_eq_true, if_false]
      refine .after_pure (.after_set (.pure (MergeOutcome.outer found (.inr ⟨?_, rfl⟩))))
      cases exhaustive
      · exact .inl rfl
      · exact .inr (by simpa using reconciled)
  | none =>
    cases inArms : Arm.bindingsOf arms name with
    | nil => exact .pure (.absent found inArms)
    | cons first others =>
      refine .after_lift fun (merged, failure) joined => ?_
      cases failure with
      | none =>
        exact .after_pure (.after_modify (.pure (MergeOutcome.introduced found inArms joined)))
      | some failure =>
        obtain ⟨reason, left, right⟩ := failure
        cases reason <;>
          exact .after_fail (.after_modify (.pure (MergeOutcome.conflict found inArms joined _)))

inductive ReturnOutcome (s : Checker) (value : Ty) : Option Unit → Checker → Prop where
  | recorded (declared : Option Ty) (function : s.declaredReturn? = some declared)
      (fits : ∀ type, declared = some type → s.classes.compare value type = .ok (.ok ()))
      (returned : Ty)
      (joined : (s.frame.returns = none ∧ returned = declared.getD value) ∨
        ∃ previous, s.frame.returns = some previous ∧
          s.classes.join previous (declared.getD value) = .ok (.ok returned)) :
      ReturnOutcome s value (some ()) (s.setReturns (some returned))
  | refused (problem : Problem) (span : Span) :
      ReturnOutcome s value none (s.addDiagnostic (.error problem span))

/-- What is left of a return once its value has been compared with the declared type. -/
def settleReturn (span : Span) : Option Ty → Check (Option Unit)
  | none => return none
  | some returned => do
      let s ← get
      match s.frame.returns with
      | none =>
          set (s.setReturns (some returned))
          return some ()
      | some previous =>
          match ← s.classes.join previous returned with
          | .ok merged =>
              set (s.setReturns (some merged))
              return some ()
          | .error reason => mismatch reason previous returned span

/-- A return is settled after its value was held against the declared result, if there is one. -/
theorem recordReturn_run (value : Ty) (span : Span) :
    recordReturn value span s = (match s.declaredReturn? with
      | none => fail .returnOutsideFunction span >>= settleReturn span
      | some none => settleReturn span (some value)
      | some (some declared) => do
          match ← expectType value declared span with
          | some () => settleReturn span (some declared)
          | none => settleReturn span none : Check (Option Unit)) s := by
  show (match s.declaredReturn? with | none => _ | some none => _ | some (some declared) => _ :
    Check (Option Unit)) s = _
  cases s.declaredReturn? with
  | none => rfl
  | some declared =>
    cases declared with
    | none => rfl
    | some declared =>
      refine congrFun (congrArg (expectType value declared span >>= ·) (funext fun fits => ?_)) s
      cases fits <;> rfl

theorem recordReturn_outcome (value : Ty) (span : Span) :
    Gives (recordReturn value span) s (ReturnOutcome s value) := by
  have record (declared : Option Ty) (function : s.declaredReturn? = some declared)
      (fits : ∀ type, declared = some type → s.classes.compare value type = .ok (.ok ())) :
      Gives (settleReturn span (some (declared.getD value))) s (ReturnOutcome s value) := by
    refine .after_get ?_
    cases returns : s.frame.returns with
    | none =>
      refine .after_set (.pure ?_)
      exact ReturnOutcome.recorded declared function fits _ (.inl ⟨returns, rfl⟩)
    | some previous =>
      refine .after_lift fun joined run => ?_
      cases joined with
      | ok merged =>
        refine .after_set (.pure ?_)
        exact ReturnOutcome.recorded declared function fits _ (.inr ⟨previous, returns, run⟩)
      | error reason =>
        cases reason <;> exact .after_modify (.pure (ReturnOutcome.refused _ _))
  refine .of_run (recordReturn_run value span) ?_
  cases function : s.declaredReturn? with
  | none => exact .after_fail (.pure (ReturnOutcome.refused _ _))
  | some declared =>
    cases declared with
    | none => exact record none function (by simp)
    | some declared =>
      refine (expectType_outcome value declared span).bind fun result s' outcome => ?_
      cases outcome with
      | fits compared => exact record (some declared) function (by simpa using compared)
      | refused => exact .pure (.refused _ _)

inductive ClaimOutcome (s : Checker) (name : String) : Except String ClassId → Checker → Prop where
  | claimed {id : ClassId} {classes : ClassTable}
      (free : ∀ b, s.lookup? name = some b → b.unresolved = true)
      (declared : s.classes.declare name = .ok (id, classes)) :
      ClaimOutcome s name (.ok id) { s with classes }
  | taken (old : String) : ClaimOutcome s name (.error old) s

/-- What claiming a name does that nothing is bound to. -/
def claimFree (s : Checker) (name : String) : Check (Except String ClassId) :=
  match s.classes.declare name with
  | .ok (id, classes) => do
      set { s with classes }
      return .ok id
  | .error existing => do return .error (← s.classes.objectOf existing).text

/-- A class may take a name that is free or whose declaration has failed. -/
theorem claimClass_run (name : String) :
    claimClass name s = (match s.lookup? name with
      | some old => if old.unresolved then claimFree s name else return .error old.type.text
      | none => claimFree s name : Check (Except String ClassId)) s := rfl

theorem claimClass_outcome (name : String) : Gives (claimClass name) s (ClaimOutcome s name) := by
  have claim (free : ∀ b, s.lookup? name = some b → b.unresolved = true) :
      Gives (claimFree s name) s (ClaimOutcome s name) := by
    unfold claimFree
    split
    · rename_i id classes declared
      exact .after_set (.pure (ClaimOutcome.claimed free declared))
    · exact .after_lift fun type _ => .pure (ClaimOutcome.taken _)
  refine .of_run (claimClass_run name) ?_
  cases found : s.lookup? name with
  | none => exact claim (by simp [found])
  | some old =>
    simp only
    split
    · rename_i unresolved
      exact claim (by simp [found, unresolved])
    · exact .pure (.taken _)

def warnIf (wanted : Bool) (problem : Problem) (span : Span) : Check Unit :=
  if wanted then warn problem span else pure ()

/-- What a class declaration does after its warnings. -/
def declareNamed (decl : ClassDecl) (span : Span) : Check (Option Ty) := do
  match ← claimClass decl.name with
  | .error old => fail (.redefinition decl.name old ("class " ++ decl.name)) span
  | .ok id =>
      let type ← (← get).classes.classValue id
      match ← define decl.name type .always true span with
      | none => return none
      | some () =>
          let (fieldsOk, fields) ← collectFields .empty decl.fields
          let (constructorsOk, constructors) ← collectConstructors decl.constructors
          let s ← get
          let classes ← s.classes.modify id fun c => { c with fields, constructors }
          set { s with classes := ← classes.register id }
          return if fieldsOk && constructorsOk then some type else none

theorem declareClass_inside (decl : ClassDecl) (span : Span) (inside : s.atRoot = false) :
    declareClass decl span s = (do
      defineUnresolved decl.name span
      fail (.unimplemented "Nested class declarations") span : Check (Option Ty)) s := by
  show (if !s.atRoot then _ else _ : Check (Option Ty)) s = _
  rw [inside]
  rfl

/-- At the root, a class is declared with a warning for each part that is not implemented. -/
theorem declareClass_root (decl : ClassDecl) (span : Span) (root : s.atRoot = true) :
    declareClass decl span s = (do
      warnIf (!decl.generics.isEmpty) (.unimplemented "Generic classes") span
      warnIf (!decl.supers.isEmpty) (.unimplemented "Super types") span
      declareNamed decl span) s := by
  show (if !s.atRoot then _ else _ : Check (Option Ty)) s = _
  rw [root]
  unfold warnIf
  cases decl.generics.isEmpty <;> cases decl.supers.isEmpty <;> rfl

end Check

end ShapeLang
