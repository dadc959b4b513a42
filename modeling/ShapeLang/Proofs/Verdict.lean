import ShapeLang.Proofs.Failures
import ShapeLang.Proofs.Strict
import ShapeLang.Proofs.Totality

/-!
# The verdict and the diagnostics agree

Until a check records its first error every node succeeds, and from then on the
check as a whole has failed. So a program is accepted if all of its nodes succeed.
-/

namespace ShapeLang

namespace Check

/-- An expression succeeds exactly if no error was recorded in its check. -/
theorem checkExpr_judges (e : Expr) : Judges true (·.2.isSome) (checkExpr e) :=
  (judging.checkExpr e (Layout.all_of (fun _ => trivial) _)).judges

/-- A statement succeeds exactly if no error was recorded in its check. -/
theorem checkStmt_judges (stmt : Stmt) : Judges true (·.2.isSome) (checkStmt stmt) :=
  (judging.checkStmt stmt (Layout.all_of (fun _ => trivial) _)).judges

theorem checkProgram_judges (p : Program) : Judges true (·.2) (checkProgram p) :=
  (judging.checkProgram p (Layout.all_of (fun _ => trivial) _)).judges

end Check

/-! ## Whole programs -/

theorem Checker.Fresh.judged {s : Checker} (fresh : s.Fresh false) : s.Judged false where
  lenient := fresh.warningsAsErrors
  errors := by rw [Checker.hasError, fresh.diagnostics]; rfl
  resolved _ name b found := (fresh.bindings name b found).1

/-- A strict check starts as any other but for the mark that makes it strict. -/
theorem Checker.initial_strict :
    Checker.initial true = (Checker.initial false).map Checker.strict := by
  rw [initial, initial]
  cases ClassTable.addBuiltins {} with
  | error fault => rfl
  | ok added =>
    obtain ⟨builtins, classes⟩ := added
    simp only [ok_bind]
    cases Builtin.all.foldlM (fun (m : NameMap Binding) kind => do
        let type ← classes.classValue (builtins.get kind)
        return m.insert kind.name ⟨type, .always, true, false, .null⟩) .empty with
    | error fault => rfl
    | ok bindings => rfl

theorem Checker.finish_strict (s : Checker) : s.strict.finish =
    s.finish.map fun c => { c with diagnostics := c.diagnostics.map .promote } := by
  rw [finish, finish, strict_atRoot]
  split <;> rfl

/-- Taken strictly, the same check comes to the same tree and the same verdict. -/
theorem Program.Ran.strict {p q : Program} {start s : Checker} {ok : Bool} {c : Checked}
    (ran : p.Ran false start q ok s c) : p.Ran true start.strict q ok s.strict
      { c with diagnostics := c.diagnostics.map .promote } where
  initial := by rw [Checker.initial_strict, ran.initial]; rfl
  walked := by
    have twin := Check.checkProgram_indifferent p start
    rw [Check.Twin, ran.walked] at twin
    exact twin
  finished := by rw [Checker.finish_strict, ran.finished]; rfl

/-- A strict check is any other with its diagnostics promoted. -/
theorem Program.check_promoted (p : Program) : p.check true = (p.check false).map fun (q, c) =>
    (q, { c with diagnostics := c.diagnostics.map .promote }) := by
  rw [check, check, Checker.initial_strict]
  cases Checker.initial false with
  | error fault => rfl
  | ok start =>
    have twin : Check.checkProgram p start.strict = _ := Check.checkProgram_indifferent p start
    simp only [Except.map, ok_bind, StateT.run, twin]
    cases Check.checkProgram p start with
    | error fault => rfl
    | ok result =>
      obtain ⟨⟨q, ok⟩, s⟩ := result
      simp only [Except.map, ok_bind, Checker.finish_strict]
      cases s.finish <;> rfl

theorem Checked.isOk_eq (c : Checked) : c.isOk = !c.diagnostics.any (·.isError) := by
  rw [Bool.eq_iff_iff, isOk, errors, List.isEmpty_iff, List.filter_eq_nil_iff]
  simp

/-- What the walk says of all nodes is what the diagnostics say of the program. -/
theorem Program.Ran.isOk_eq {p q : Program} {start s : Checker} {ok : Bool} {c : Checked}
    (ran : p.Ran false start q ok s c) (fresh : start.Fresh false) : c.isOk = ok := by
  have judged := Check.checkProgram_judges p false start fresh.judged _ _ ran.walked
  have errors : s.hasError = !ok := by simpa using judged.errors
  obtain rfl := Checker.finish_eq_ok ran.finished
  rw [Checked.isOk_eq]
  rw [Checker.hasError] at errors
  rw [errors, Bool.not_not]

@[simp] theorem Diagnostic.isError_promote (d : Diagnostic) : d.promote.isError = true := by
  obtain ⟨problem, span, severity⟩ := d
  cases severity <;> rfl

/-- With every diagnostic promoted, a program is accepted if none was reported. -/
theorem Checked.isOk_promoted (c : Checked) :
    ({ c with diagnostics := c.diagnostics.map .promote } : Checked).isOk = true ↔
      c.isOk = true ∧ c.warnings = [] := by
  have silent : ({ c with diagnostics := c.diagnostics.map .promote } : Checked).isOk = true ↔
      c.diagnostics = [] := by
    cases c.diagnostics <;> simp [isOk_eq]
  rw [silent, isOk_eq, warnings, List.filter_eq_nil_iff]
  constructor
  · intro none
    simp [none]
  · rintro ⟨mild, serious⟩
    refine List.eq_nil_iff_forall_not_mem.mpr fun d listed => ?_
    simp only [Bool.not_eq_true', List.any_eq_false] at mild
    have error := serious d listed
    simp only [Bool.not_eq_true', Bool.not_eq_false] at error
    exact mild d listed error

theorem Program.overflow_strict (p : Program) (overflow : p.check false = .error .countOverflow) :
    p.check false = .error .countOverflow ∧ p.check true = .error .countOverflow := by
  refine ⟨overflow, ?_⟩
  rw [p.check_promoted, overflow]
  rfl

/-- A program is accepted exactly if every node succeeded: no node fails before there is an
error, and after one the program has failed. Taking warnings as errors leaves the tree and
the success of the nodes as they are; the program is then accepted if nothing at all was
reported. Only a tuple that is too long to be counted keeps the program from being checked,
and it does so either way. -/
theorem Program.check_verdict (p : Program) :
    (∀ expr, Check.Judges true (·.2.isSome) (Check.checkExpr expr)) ∧
    (∀ stmt, Check.Judges true (·.2.isSome) (Check.checkStmt stmt)) ∧
    ((∃ start q ok s c, p.Ran false start q ok s c ∧ start.Judged false ∧
      (ok = true ↔ c.isOk = true) ∧
      ∃ start' s' c', p.Ran true start' q ok s' c' ∧
        c'.diagnostics = c.diagnostics.map .promote ∧
        (c'.isOk = true ↔ ok = true ∧ c.warnings = [])) ∨
      p.check false = .error .countOverflow ∧ p.check true = .error .countOverflow) := by
  refine ⟨Check.checkExpr_judges, Check.checkStmt_judges, ?_⟩
  rcases p.ran false with ⟨start, q, ok, s, c, ran, fresh, _, _⟩ | overflow
  case inr => exact .inr (p.overflow_strict overflow)
  have accepted := ran.isOk_eq fresh
  refine .inl ⟨start, q, ok, s, c, ran, fresh.judged, by rw [accepted], _, _, _, ran.strict, rfl,
    ?_⟩
  rw [Checked.isOk_promoted, accepted]

theorem Diagnostic.promote_eq (d : Diagnostic) : d.promote =
    { d with severity := if d.severity = .warning then .error else d.severity } := by
  obtain ⟨problem, span, severity⟩ := d
  cases severity <;> rfl

/-- Taking warnings as errors changes how serious the diagnostics are and nothing else: not the
tree, the classes, the functions or the globals, and of the diagnostics neither the order nor
what they say and where. A tuple that is too long to be counted is so either way. -/
theorem Program.check_strict (p : Program) :
    (∃ q c c', p.check false = .ok (q, c) ∧ p.check true = .ok (q, c') ∧
      c'.classes = c.classes ∧ c'.builtins = c.builtins ∧ c'.functions = c.functions ∧
      c'.globals = c.globals ∧
      c'.diagnostics = c.diagnostics.map fun d =>
        { d with severity := if d.severity = .warning then .error else d.severity }) ∨
    p.check false = .error .countOverflow ∧ p.check true = .error .countOverflow := by
  rcases p.ran false with ⟨start, q, ok, s, c, ran, _⟩ | overflow
  case inr => exact .inr (p.overflow_strict overflow)
  have lenient : p.check false = .ok (q, c) := Program.check_eq_ok.mpr ⟨start, ok, s, ran⟩
  have strict : p.check true = .ok (q, { c with diagnostics := c.diagnostics.map .promote }) := by
    rw [p.check_promoted, lenient]
    rfl
  refine .inl ⟨q, c, _, lenient, strict, rfl, rfl, rfl, rfl, ?_⟩
  exact List.map_congr_left fun d _ => d.promote_eq

end ShapeLang
