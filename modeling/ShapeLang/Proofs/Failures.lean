import ShapeLang.Proofs.Comparison
import ShapeLang.Proofs.Scoping

/-!
# Failing and recording an error

As long as no error has been recorded, a step fails exactly if it records one. The
one failure that reports nothing is reading an unresolved name, and a name is
unresolved only after an error: this is the invariant that frames and the arms of
branches keep.
-/

namespace ShapeLang

def Checker.hasError (s : Checker) : Bool := s.diagnostics.any (·.isError)

/-- Errors have been recorded or not, as `e` says. Until there is one, every name that can
be seen is resolved. -/
structure Checker.Judged (e : Bool) (s : Checker) : Prop where
  lenient : s.warningsAsErrors = false
  errors : s.hasError = e
  resolved : e = false → ∀ name b, s.lookup? name = some b → b.unresolved = false

namespace Checker.Judged

variable {e : Bool} {s s' : Checker}

/-- After an error there is no way back: it stays recorded. -/
theorem advanced (judged : s.Judged true) (advanced : s.Advanced s') : s'.Judged true where
  lenient := advanced.warningsAsErrors.trans judged.lenient
  errors := by
    obtain ⟨more, appended⟩ := advanced.diagnostics
    rw [hasError, ← appended, List.any_append]
    exact Bool.or_eq_true_iff.mpr (.inl judged.errors)
  resolved := nofun

theorem reported (lenient : s.warningsAsErrors = false) (problem : Problem) (span : Span) :
    (s.addDiagnostic (.error problem span)).Judged true where
  lenient := lenient
  errors := by simp [hasError, addDiagnostic, Diagnostic.error, Diagnostic.isError]
  resolved := nofun

theorem warned (judged : s.Judged e) (problem : Problem) (span : Span) :
    (s.addDiagnostic (.warning problem span)).Judged e where
  lenient := judged.lenient
  errors := by
    have mild : (Diagnostic.warning problem span).isError = false := rfl
    simpa [hasError, addDiagnostic, mild] using judged.errors
  resolved := judged.resolved

theorem bind (judged : s.Judged e) (name : String) {b : Binding}
    (resolved : e = false → b.unresolved = false) : (s.bind name b).Judged e where
  lenient := judged.lenient
  errors := judged.errors
  resolved clean other found bound := by
    rw [lookup?_bind] at bound
    split at bound
    · cases bound
      exact resolved clean
    · exact judged.resolved clean other found bound

theorem bound (judged : s.Judged e) (params : List Param) (types : List Ty) :
    (Check.bound s params types).Judged e := by
  unfold Check.bound
  induction params.zip types generalizing s with
  | nil => exact judged
  | cons p rest ih => exact ih (judged.bind _ fun _ => rfl)

theorem setClasses (judged : s.Judged e) (classes : ClassTable) :
    ({ s with classes } : Checker).Judged e :=
  ⟨judged.lenient, judged.errors, judged.resolved⟩

/-- What is left of a frame that was opened in `s` is what was reported there. -/
theorem leave {e' : Bool} (judged : s.Judged e) (inside : s'.Judged e')
    (later : e' = false → e = false) :
    ({ s' with frame := s.frame, outer := s.outer } : Checker).Judged e' where
  lenient := inside.lenient
  errors := inside.errors
  resolved clean := judged.resolved (later clean)

end Checker.Judged

def Arm.Resolved (arm : Arm) : Prop :=
  ∀ name b, arm.bindings.find? name = some b → b.unresolved = false

/-- An arm whose names are resolved has resolved ones left without those of its pattern. -/
theorem Arm.Resolved.forget {arm : Arm} (resolved : arm.Resolved) (pattern : Pattern) :
    (arm.forget pattern).Resolved := by
  cases pattern with
  | value _ => exact resolved
  | type name _ =>
    intro other b found
    have kept : (arm.bindings.erase name).find? other = some b := found
    rw [NameMap.find?_erase] at kept
    split at kept
    · cases kept
    · exact resolved other b kept

theorem Arm.bindingsOf_resolved {arms : List Arm} (resolved : ∀ arm ∈ arms, arm.Resolved)
    (name : String) : ∀ b ∈ Arm.bindingsOf arms name, b.unresolved = false := by
  intro b listed
  obtain ⟨arm, member, found⟩ := List.mem_filterMap.mp listed
  exact resolved arm member name b found

namespace Check

variable {α β : Type}

/-- If what went before failed exactly with the first error, unless there was one already,
then with the step it is still so: `sofar` says whether all went well before, and `ok`
whether it did in the end. -/
def Judges (sofar : Bool) (ok : α → Bool) (m : Check α) : Prop :=
  ∀ e s, s.Judged (!sofar || e) → Gives m s fun a s' => s'.Judged (!ok a || e)

/-- The step works on the innermost frame. If errors have been recorded exactly if something
failed, then with the step it is still so. As long as nothing did, `given` holds. -/
structure Judging (given : Prop) (sofar : Bool) (ok : α → Bool) (m : Check α) : Prop where
  framed : Advances m
  judged : ∀ s, (sofar = true → given) → s.Judged (!sofar) →
    Gives m s fun a s' => s'.Judged (!ok a)

namespace Judging

variable {given : Prop} {sofar : Bool} {ok : α → Bool} {ok' : β → Bool} {m : Check α}
  {f : α → Check β}

/-- Once there is an error, errors have been recorded whatever comes of the step. -/
theorem judges (judging : Judging True sofar ok m) : Judges sofar ok m := by
  intro e s judged
  cases e with
  | false =>
    simp only [Bool.or_false] at judged ⊢
    exact judging.judged s (fun _ => trivial) judged
  | true =>
    simp only [Bool.or_true] at judged ⊢
    exact (judging.framed s).imp fun _ _ advanced => judged.advanced advanced

theorem weaken {given' : Prop} (weaker : given' → given) (judging : Judging given sofar ok m) :
    Judging given' sofar ok m :=
  ⟨judging.framed, fun s known => judging.judged s fun clean => weaker (known clean)⟩

theorem pure {a : α} (same : ok a = sofar) : Judging given sofar ok (Pure.pure a) := by
  refine ⟨.of_notes (.pure a), fun s _ judged => .pure ?_⟩
  rwa [same]

/-- If all went well in the end, it did before. -/
theorem bind (first : Judging given sofar ok m)
    (rest : ∀ a, Yields m a → Judging given (ok a) ok' (f a)) :
    Judging given sofar ok' (m >>= f) := by
  refine ⟨.bind first.framed fun a came => (rest a came).framed, fun s known judged => ?_⟩
  refine ((first.judged s known judged).and (first.framed s)).ran.bind ?_
  rintro a s₁ ⟨ran, judged₁, advanced⟩
  refine (rest a ⟨s, s₁, ran⟩).judged s₁ (fun clean => known ?_) judged₁
  cases sofar with
  | true => rfl
  | false =>
    have errors := (judged.advanced advanced).errors
    rw [judged₁.errors, clean] at errors
    cases errors

/-- A step that judges on its own judges after others too, if it is not taken for a success when
they have failed. -/
theorem resume (before : Bool) (judging : Judging given sofar ok m) :
    Judging given (before && sofar) (fun a => before && ok a) m := by
  refine ⟨judging.framed, fun s known judged => ?_⟩
  cases before with
  | true => exact judging.judged s known judged
  | false => exact (judging.framed s).imp fun _ _ advanced => judged.advanced advanced

/-- A step that fails only with a report judges: the report is the error. -/
theorem of_reports {m : Check (Option α)} (reports : ∀ s, Reports anywhere m s) :
    Judging given true (·.isSome) m := by
  refine ⟨.of_notes (.of_reports reports), fun s _ judged => ?_⟩
  refine (reports s).gives.imp fun result s' outcome => ?_
  rcases outcome with ⟨success, rfl⟩ | ⟨rfl, problem, span, _, rfl⟩
  · simpa [success] using judged
  · exact .reported judged.lenient problem span

/-- Whatever the step does to the names in scope, an error follows. -/
theorem refuse (framed : Advances m) (problem : Problem) (span : Span) :
    Judging given true (·.isSome) (m >>= fun _ => (fail problem span : Check (Option β))) := by
  refine ⟨.bind framed fun _ _ => .of_notes (notesParts.fail problem trivial), ?_⟩
  intro s _ judged
  refine (framed s).bind fun _ s' advanced => .after_modify (.pure ?_)
  exact .reported (advanced.warningsAsErrors.trans judged.lenient) problem span

end Judging

variable {given : Prop}

/-- Reading a name is silent only where its declaration has failed, which was reported then. -/
theorem read_judging (name : String) (span : Span) :
    Judging given true (·.isSome) (read name span) := by
  refine ⟨.of_notes (read_notes name span), fun s _ judged => ?_⟩
  refine (read_outcome name span).imp fun result s' outcome => ?_
  cases outcome with
  | assigned => exact judged
  | @silent b found unresolved =>
    -- there has been an error, or the name would be resolved
    have resolved := judged.resolved rfl name b found
    rw [unresolved] at resolved
    cases resolved
  | refused problem span => exact .reported judged.lenient problem span

theorem registerFunction_judging (overloads : List Overload) :
    Judging given true (fun _ => true) (registerFunction overloads) := by
  refine ⟨.of_notes (registerFunction_notes overloads), fun s _ judged => ?_⟩
  refine (registerFunction_outcome overloads).imp fun _ s' outcome => ?_
  rcases outcome with rfl | rfl
  · exact judged
  · exact ⟨judged.lenient, judged.errors, judged.resolved⟩

theorem judgingParts : ExprParts anywhere (Judging True) where
  pure := .pure
  bind := .bind
  resume := .resume
  lift x := by
    refine ⟨.of_notes (notesParts.lift x), fun s _ judged => ?_⟩
    cases x with
    | error fault =>
      intro _ _ ran
      cases ran
    | ok a => exact .pure judged
  asks blind rest :=
    ⟨fun s => (rest s).framed s, fun s known judged => .after_get ((rest s).judged s known judged)⟩
  reports := .of_reports
  read name span _ := read_judging name span
  registerFunction := registerFunction_judging

theorem define_judging (name : String) (type : Ty) (assigned : Assigned) (constant : Bool)
    (span : Span) : Judging given true (·.isSome) (define name type assigned constant span) := by
  refine ⟨define_advances name type assigned constant span, fun s _ judged => ?_⟩
  refine (define_outcome name type assigned constant span).imp fun _ s' outcome => ?_
  cases outcome with
  | fresh => exact judged.bind name fun _ => rfl
  | rebound _ resolved => exact judged.bind name fun _ => resolved
  | refused _ _ problem => exact .reported judged.lenient problem span

theorem recordReturn_judging (value : Ty) (span : Span) :
    Judging given true (·.isSome) (recordReturn value span) := by
  refine ⟨recordReturn_advances value span, fun s _ judged => ?_⟩
  refine (recordReturn_outcome value span).imp fun _ s' outcome => ?_
  cases outcome with
  | recorded => exact ⟨judged.lenient, judged.errors, judged.resolved⟩
  | refused problem span => exact .reported judged.lenient problem span

/-! ## Class declarations -/

theorem warnIf_judged {s : Checker} (judged : s.Judged false) (wanted : Bool) (problem : Problem)
    (span : Span) : Gives (warnIf wanted problem span) s fun _ s' => s'.Judged false := by
  cases wanted with
  | false => exact .pure judged
  | true =>
    refine .modify ?_
    simp only [judged.lenient, Bool.false_eq_true, if_false]
    exact judged.warned problem span

/-- A named class fails only with a report: its name is taken, or a field or a constructor is
wrong. -/
theorem declareNamed_judged {s : Checker} (judged : s.Judged false) (decl : ClassDecl)
    (span : Span) :
    Gives (declareNamed decl span) s fun result s' => s'.Judged (!result.isSome) := by
  refine (claimClass_outcome decl.name).bind fun result s₁ outcome => ?_
  cases outcome with
  | taken old => exact .after_modify (.pure (.reported judged.lenient _ _))
  | claimed =>
    refine .after_get (.after_lift fun type _ => ?_)
    refine ((define_judging _ _ _ _ _).judged _ (fun _ => trivial) (judged.setClasses _)).bind
      fun bound s₂ judged => ?_
    cases bound with
    | none => exact .pure judged
    | some bound =>
      refine ((judgingParts.collectFields _ fun _ _ => Layout.all_of (fun _ => trivial) _).judges
        false s₂ judged).bind fun (fieldsOk, fields) s₃ judged => ?_
      refine ((judgingParts.collectConstructors fun _ _ _ _ => trivial).judges _ s₃ judged).bind
        fun (constructorsOk, constructors) s₄ judged => ?_
      refine .after_get (.after_lift fun filled _ => .after_lift fun registered _ => ?_)
      refine .after_set (.pure ?_)
      cases fieldsOk <;> cases constructorsOk <;> exact judged.setClasses _

theorem declareClass_judging (decl : ClassDecl) (span : Span) :
    Judging given true (·.isSome) (declareClass decl span) := by
  refine ⟨declareClass_advances decl span, fun s _ judged => ?_⟩
  cases root : s.atRoot with
  | false =>
    refine .of_run (declareClass_inside decl span root) ?_
    exact (Judging.refuse (defineUnresolved_advances decl.name span) _ _).judged s
      (fun _ => trivial) judged
  | true =>
    refine .of_run (declareClass_root decl span root) ?_
    refine (warnIf_judged judged _ _ _).bind fun _ s₁ judged => ?_
    refine (warnIf_judged judged _ _ _).bind fun _ s₂ judged => ?_
    exact declareNamed_judged judged decl span

/-! ## Branches and functions -/

theorem joinBindings_resolved (t : ClassTable) {merged result : Binding} {others : List Binding}
    {failure : Option JoinFailure} (resolved : merged.unresolved = false)
    (all : ∀ b ∈ others, b.unresolved = false)
    (joined : t.joinBindings merged others = .ok (result, failure)) :
    result.unresolved = false := by
  induction others generalizing merged with
  | nil =>
    cases joined
    exact resolved
  | cons other others ih =>
    obtain ⟨here, rest⟩ := List.forall_mem_cons.mp all
    rw [ClassTable.joinBindings, resolved, here] at joined
    obtain ⟨verdict, _, joined⟩ := bind_eq_ok.mp joined
    cases verdict with
    | ok type =>
      refine ih ?_ rest joined
      rfl
    | error reason =>
      cases joined
      exact resolved

/-- Merging fails only with a report, as long as every arm has resolved its names. -/
theorem mergeName_judging (arms : List Arm) (exhaustive : Bool) (span : Span) (name : String) :
    Judging (∀ arm ∈ arms, arm.Resolved) true (·.isSome) (mergeName arms exhaustive span name) := by
  refine ⟨mergeName_advances arms exhaustive span name, fun s known judged => ?_⟩
  refine (mergeName_outcome arms exhaustive span name).imp fun _ s' outcome => ?_
  cases outcome with
  | @outer b type found =>
    exact judged.bind name fun clean => judged.resolved clean name b found
  | absent => exact judged
  | introduced free inArms joined =>
    have resolved := Arm.bindingsOf_resolved (known rfl) name
    rw [inArms] at resolved
    obtain ⟨first, others⟩ := List.forall_mem_cons.mp resolved
    refine judged.bind name fun _ => joinBindings_resolved _ ?_ others joined
    exact first
  | conflict _ _ _ problem =>
    exact (Checker.Judged.reported judged.lenient problem span).advanced (.bind _ _ _)

/-- If all went well in the branch, what it bound is resolved. -/
theorem inBranch_judging {sofar : Bool} {ok : α → Bool} {ok' : β → Bool} {body : Check α}
    {f : α → Arm → Check β} (inside : Judging True true ok body)
    (rest : ∀ a arm, Judging (given ∧ arm.Resolved) (sofar && ok a) ok' (f a arm)) :
    Judging given sofar ok' (do
      enterBranch
      let a ← body
      let arm ← exitBranch
      f a arm) := by
  refine ⟨inBranch_advances inside.framed fun a arm => (rest a arm).framed,
    fun s known judged => ?_⟩
  have opened : (s.enter .branch).Judged (!sofar) :=
    ⟨judged.lenient, judged.errors, judged.resolved⟩
  refine inBranch_gives inside.framed (inside.judges (!sofar) _ opened) fun a s₁ judged₁ _ => ?_
  rw [Bool.or_comm, ← Bool.not_and] at judged₁
  refine (rest a _).judged _ (fun clean => ?_) (judged.leave judged₁ fun clean => ?_)
  · exact ⟨known (Bool.and_eq_true_iff.mp clean).1, judged₁.resolved (by rw [clean]; rfl)⟩
  · simp only [Bool.not_eq_eq_eq_not, Bool.not_false, Bool.and_eq_true] at clean ⊢
    exact clean.1

/-- A function judges if its body does and what is made of it after the frame is left. -/
theorem inFunction_judging {ok : α → Bool} {ok' : β → Bool} {body : Check α}
    {f : α → Option Ty → Check β} (declared : Option Ty) (params : List Param) (types : List Ty)
    (inside : Judging True true ok body)
    (rest : ∀ a returned, Judging True (ok a) ok' (f a returned)) :
    Judging True true ok' (do
      enterFunction declared
      bindParams params types
      let a ← body
      let returned ← exitFunction
      f a returned) := by
  refine ⟨fun s => ?_, fun s known judged => ?_⟩
  · refine inFunction_gives inside.framed (inside.framed _) fun a s₁ _ noted => ?_
    exact ((rest a _).framed _).imp fun _ _ => (Checker.Advanced.of_noted noted).trans
  · have opened : (s.enter (.function declared)).Judged false :=
      ⟨judged.lenient, judged.errors, judged.resolved⟩
    refine inFunction_gives inside.framed
      (inside.judged _ (fun _ => trivial) (opened.bound params types)) fun a s₁ judged₁ _ => ?_
    exact (rest a _).judged _ (fun _ => trivial) (judged.leave judged₁ fun _ => rfl)

theorem judging : WalkParts anywhere Arm.Resolved (Judging True) Judging where
  toExprParts := judgingParts
  inFunction := inFunction_judging
  statement := .weaken fun _ => trivial
  sequence := .bind
  continues := .resume
  weaken := .weaken
  refuses problem span first _ := .refuse first.framed problem span
  define name type assigned constant span _ := define_judging name type assigned constant span
  defineUnresolved name span :=
    ⟨defineUnresolved_advances name span, fun s _ judged =>
      (defineUnresolved_advances name span s).imp fun _ _ advanced => judged.advanced advanced⟩
  shadow name _ _ := ⟨fun _ => .modify (.bind _ _ _),
    fun _ _ judged => .modify (judged.bind name fun _ => rfl)⟩
  declareClass _ _ := declareClass_judging _ _
  mergeName arms exhaustive span name _ := mergeName_judging arms exhaustive span name
  setReturns _ := ⟨fun _ => .modify (.setReturns _ _),
    fun _ _ judged => .modify ⟨judged.lenient, judged.errors, judged.resolved⟩⟩
  recordReturn value span _ := recordReturn_judging value span
  forget pattern resolved := resolved.forget pattern
  inBranch := inBranch_judging

end Check

end ShapeLang
