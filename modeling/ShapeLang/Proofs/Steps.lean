import ShapeLang.Checker

/-!
# What a step of a check comes to

`Gives` says what holds of the result and of the checker if a step ends, `Ends`
also that it does: it does not fault, unless a tuple gets too long to be counted.
Both follow the sequence of a step. Most steps leave the checker alone or report
one error and fail; for these, `Reports` says all there is to say about the checker.
-/

/-- What is computed, as far as it can be tested. -/
theorem ShapeLang.exists_ok_of_any {ε α : Type} {x : Except ε α} {P : α → Bool}
    (computed : x.toOption.any P = true) : ∃ a, x = .ok a ∧ P a = true := by
  cases x with
  | error reason => cases computed
  | ok a => exact ⟨a, rfl, computed⟩

namespace ShapeLang.Check

variable {α β : Type} {m : Check α} {f : α → Check β} {s : Checker}
  {mid : α → Checker → Prop} {post : β → Checker → Prop}

/-- If the step ends from `s`, then with a result and a checker as `post` says. -/
def Gives (m : Check α) (s : Checker) (post : α → Checker → Prop) : Prop :=
  ∀ a s', m s = .ok (a, s') → post a s'

/-- The step ends from `s` as `post` says. Only where `excess` holds may a count overflow instead;
there is no other fault. -/
def Ends (excess : Prop) (m : Check α) (s : Checker) (post : α → Checker → Prop) : Prop :=
  (∃ a s', m s = .ok (a, s') ∧ post a s') ∨ excess ∧ m s = .error .countOverflow

theorem bind_ok {a : α} {s' : Checker} (ran : m s = .ok (a, s')) : (m >>= f) s = f a s' := by
  show (m s >>= fun p => f p.1 p.2) = f a s'
  rw [ran]
  rfl

theorem bind_fault {fault : Fault} (ran : m s = .error fault) : (m >>= f) s = .error fault := by
  show (m s >>= fun p => f p.1 p.2) = .error fault
  rw [ran]
  rfl

theorem get_bind {f : Checker → Check β} : (get >>= f) s = f s s := rfl

namespace Gives

theorem any : Gives m s fun _ _ => True := fun _ _ _ => trivial

/-- What is known of a result, with the run that gave it. -/
theorem ran (gives : Gives m s mid) : Gives m s fun a s' => m s = .ok (a, s') ∧ mid a s' :=
  fun a s' run => ⟨run, gives a s' run⟩

theorem pure {b : β} (holds : post b s) : Gives (Pure.pure b) s post := by
  intro _ _ run
  cases run
  exact holds

theorem bind (first : Gives m s mid) (rest : ∀ a s', mid a s' → Gives (f a) s' post) :
    Gives (m >>= f) s post := by
  intro b s' run
  cases ran : m s with
  | error fault =>
    rw [bind_fault ran] at run
    cases run
  | ok p =>
    rw [bind_ok ran] at run
    exact rest p.1 p.2 (first _ _ ran) b s' run

theorem imp {post' : β → Checker → Prop} {m : Check β} (gives : Gives m s post)
    (weaker : ∀ b s', post b s' → post' b s') : Gives m s post' :=
  fun b s' run => weaker b s' (gives b s' run)

theorem and {post' : β → Checker → Prop} {m : Check β} (first : Gives m s post)
    (second : Gives m s post') : Gives m s fun b s' => post b s' ∧ post' b s' :=
  fun b s' run => ⟨first b s' run, second b s' run⟩

/-- Only the run from `s` matters. -/
theorem of_run {m m' : Check β} (same : m s = m' s) (gives : Gives m' s post) : Gives m s post :=
  fun b s' run => gives b s' (same ▸ run)

theorem after_run {a : α} {s₁ : Checker} (ran : m s = .ok (a, s₁)) (rest : Gives (f a) s₁ post) :
    Gives (m >>= f) s post := by
  intro b s' run
  rw [bind_ok ran] at run
  exact rest b s' run

theorem after_pure {a : α} (rest : Gives (f a) s post) : Gives (Pure.pure a >>= f) s post := rest

theorem after_get {f : Checker → Check β} (rest : Gives (f s) s post) :
    Gives (get >>= f) s post := rest

theorem after_set {s₁ : Checker} {f : PUnit → Check β} (rest : Gives (f ⟨⟩) s₁ post) :
    Gives (set s₁ >>= f) s post := rest

theorem after_modify {g : Checker → Checker} {f : PUnit → Check β}
    (rest : Gives (f ⟨⟩) (g s) post) : Gives (modify g >>= f) s post := rest

theorem after_fail {problem : Problem} {span : Span} {f : Option α → Check β}
    (rest : Gives (f none) (s.addDiagnostic (.error problem span)) post) :
    Gives (fail problem span >>= f) s post := rest

/-- Where a computation fails with a fault there is nothing to give, so only its value matters. -/
theorem after_lift {x : Except Fault α} (rest : ∀ a, x = .ok a → Gives (f a) s post) :
    Gives (liftM x >>= f) s post := by
  cases x with
  | error fault =>
    intro b s' run
    cases run
  | ok a => exact rest a rfl

theorem modify {g : Checker → Checker} {post : PUnit → Checker → Prop} (holds : post ⟨⟩ (g s)) :
    Gives (modify g) s post := by
  intro _ _ run
  cases run
  exact holds

end Gives

namespace Ends

variable {excess : Prop}

theorem of_ok {b : β} {s' : Checker} {m : Check β} (run : m s = .ok (b, s'))
    (holds : post b s') : Ends excess m s post := .inl ⟨b, s', run, holds⟩

theorem pure {b : β} (holds : post b s) : Ends excess (Pure.pure b) s post := of_ok rfl holds

/-- What is known of a step that ends holds of every run of it. -/
theorem of_ran {b : β} {s' : Checker} {m : Check β} (ends : Ends excess m s post)
    (ran : m s = .ok (b, s')) : post b s' := by
  rcases ends with ⟨_, _, run, holds⟩ | ⟨_, overflow⟩
  · cases ran.symm.trans run
    exact holds
  · cases ran.symm.trans overflow

/-- A step that ends gives a result, or it overflows. -/
theorem outcome {m : Check β} (ends : Ends excess m s post) :
    (∃ b s', m s = .ok (b, s')) ∨ m s = .error .countOverflow := by
  rcases ends with ⟨b, s', run, _⟩ | ⟨_, overflow⟩
  · exact .inl ⟨b, s', run⟩
  · exact .inr overflow

/-- Where no count can overflow there is a result. -/
theorem resolve {m : Check β} (ends : Ends excess m s post) (short : ¬excess) :
    ∃ b s', m s = .ok (b, s') ∧ post b s' := Or.resolve_right ends fun long => short long.1

theorem of_run {m m' : Check β} (same : m s = m' s) (ends : Ends excess m' s post) :
    Ends excess m s post := by
  rw [Ends, same]
  exact ends

theorem after_run {a : α} {s₁ : Checker} (ran : m s = .ok (a, s₁))
    (rest : Ends excess (f a) s₁ post) : Ends excess (m >>= f) s post := by
  rw [Ends, bind_ok ran]
  exact rest

/-- What the first step ends in is what the next may start from, and an overflow ends them both. -/
theorem bind (first : Ends excess m s mid) (rest : ∀ a s', mid a s' → Ends excess (f a) s' post) :
    Ends excess (m >>= f) s post := by
  rcases first with ⟨a, s₁, ran, holds⟩ | ⟨allowed, overflow⟩
  · exact after_run ran (rest a s₁ holds)
  · exact .inr ⟨allowed, bind_fault overflow⟩

theorem imp {post' : β → Checker → Prop} {m : Check β} (ends : Ends excess m s post)
    (weaker : ∀ b s', post b s' → post' b s') : Ends excess m s post' := by
  rcases ends with ⟨b, s', run, holds⟩ | overflow
  · exact of_ok run (weaker b s' holds)
  · exact .inr overflow

theorem mono {excess' : Prop} {m : Check β} (ends : Ends excess m s post)
    (more : excess → excess') : Ends excess' m s post :=
  Or.imp_right (And.imp_left more) ends

/-- A step that ends ends as everything known about it says. -/
theorem and {post' : β → Checker → Prop} {m : Check β} (ends : Ends excess m s post)
    (gives : Gives m s post') : Ends excess m s fun b s' => post b s' ∧ post' b s' := by
  rcases ends with ⟨b, s', run, holds⟩ | overflow
  · exact of_ok run ⟨holds, gives b s' run⟩
  · exact .inr overflow

theorem after_pure {a : α} (rest : Ends excess (f a) s post) :
    Ends excess (Pure.pure a >>= f) s post := rest

theorem after_get {f : Checker → Check β} (rest : Ends excess (f s) s post) :
    Ends excess (get >>= f) s post := rest

theorem after_set {s₁ : Checker} {f : PUnit → Check β} (rest : Ends excess (f ⟨⟩) s₁ post) :
    Ends excess (set s₁ >>= f) s post := rest

theorem after_modify {g : Checker → Checker} {f : PUnit → Check β}
    (rest : Ends excess (f ⟨⟩) (g s) post) : Ends excess (modify g >>= f) s post := rest

theorem after_lift {x : Except Fault α} {a : α} (value : x = .ok a)
    (rest : Ends excess (f a) s post) : Ends excess (liftM x >>= f) s post := by
  subst value
  exact rest

/-- An overflow is an end, where one is allowed. -/
theorem overflow {x : Except Fault α} (allowed : excess) (long : x = .error .countOverflow) :
    Ends excess (liftM x >>= f) s post := by
  subst long
  exact .inr ⟨allowed, rfl⟩

end Ends

/-- Any place will do. -/
abbrev anywhere : Span → Prop := fun _ => True

variable {P : Span → Prop}

/-- What a step comes to that only reports: a fault, an error to report at one of the places, or
a result. -/
abbrev Ruling (P : Span → Prop) (α : Type) := Except Fault (Except (Problem × Subtype P) α)

def Ruling.act : Ruling P α → Check (Option α)
  | .error fault => throw fault
  | .ok (.error (problem, span)) => fail problem span
  | .ok (.ok a) => return some a

/-- From `s` the step changes nothing, or reports one error at one of the places and fails. What
was reported before has no part in which of the two it is. -/
def Reports (P : Span → Prop) (m : Check (Option α)) (s : Checker) : Prop :=
  ∃ ruling : Ruling P α, ∀ diagnostics warningsAsErrors,
    m { s with diagnostics, warningsAsErrors } = ruling.act { s with diagnostics, warningsAsErrors }

namespace Reports

theorem run {m : Check (Option α)} (reports : Reports P m s) :
    ∃ ruling : Ruling P α, m s = ruling.act s := by
  obtain ⟨ruling, run⟩ := reports
  exact ⟨ruling, run s.diagnostics s.warningsAsErrors⟩

/-- A step that reports changes nothing but the diagnostics, and these by one error. -/
theorem gives {m : Check (Option α)} (reports : Reports P m s) : Gives m s fun result s' =>
    (result.isSome ∧ s' = s) ∨
      (result = none ∧ ∃ problem span, P span ∧ s' = s.addDiagnostic (.error problem span)) := by
  obtain ⟨ruling, run⟩ := reports.run
  refine .of_run run ?_
  rcases ruling with fault | ⟨problem, span, here⟩ | a
  · intro _ _ run
    cases run
  · exact Gives.after_modify (.pure (.inr ⟨rfl, problem, span, here, rfl⟩))
  · exact .pure (.inl ⟨rfl, rfl⟩)

theorem some {a : α} : Reports P (Pure.pure (some a) : Check (Option α)) s :=
  ⟨.ok (.ok a), fun _ _ => rfl⟩

theorem fail (problem : Problem) {span : Span} (here : P span) :
    Reports P (Check.fail problem span : Check (Option α)) s :=
  ⟨.ok (.error (problem, ⟨span, here⟩)), fun _ _ => rfl⟩

/-- What follows a success starts from the same checker; a failure is passed on. -/
theorem bind {m : Check (Option α)} {f : Option α → Check (Option β)} (first : Reports P m s)
    (rest : ∀ a, Reports P (f (.some a)) s) (fails : f none = Pure.pure none) :
    Reports P (m >>= f) s := by
  obtain ⟨ruling, run⟩ := first
  rcases ruling with fault | ⟨problem, place⟩ | a
  · exact ⟨.error fault, fun _ _ => bind_fault (run _ _)⟩
  · refine ⟨.ok (.error (problem, place)), fun _ _ => ?_⟩
    rw [bind_ok (run _ _), fails]
    rfl
  · obtain ⟨ruling, rest⟩ := rest a
    refine ⟨ruling, fun _ _ => ?_⟩
    rw [bind_ok (run _ _)]
    exact rest _ _

/-- A step may look at the checker, but not at what was reported. -/
theorem after_get {f : Checker → Check (Option β)} (blind : ∀ diagnostics warningsAsErrors,
    f { s with diagnostics, warningsAsErrors } = f s) (rest : Reports P (f s) s) :
    Reports P (get >>= f) s := by
  obtain ⟨ruling, run⟩ := rest
  refine ⟨ruling, fun diagnostics warningsAsErrors => ?_⟩
  show f { s with diagnostics, warningsAsErrors } _ = _
  rw [blind]
  exact run _ _

theorem after_lift {x : Except Fault α} {f : α → Check (Option β)}
    (rest : ∀ a, Reports P (f a) s) : Reports P (liftM x >>= f) s := by
  cases x with
  | error fault => exact ⟨.error fault, fun _ _ => rfl⟩
  | ok a => exact rest a

end Reports

end ShapeLang.Check
