import ShapeLang.Proofs.Accepted
import ShapeLang.Proofs.Verdict

/-!
# Definite assignment

In an accepted program every name that is read is bound by then, on every path.
The checker's frame is an estimate from below: what has a value in it is bound on
each path that leads there. A statement that goes well keeps this, whichever way a
path takes through it.
-/

namespace ShapeLang

/-- The name is that of a builtin class or is bound when it is read. -/
def Read.Bound (r : Read) : Prop := (Builtin.named? r.name).isSome = true ∨ r.name ∈ r.bound

namespace Checker

/-- What has a value is a builtin class or one of the bound names. -/
def Covered (s : Checker) (ρ : List String) : Prop :=
  ∀ name, s.HasValue name → (Builtin.named? name).isSome = true ∨ name ∈ ρ

variable {s s' : Checker} {ρ env names : List String}

namespace Covered

theorem mono (covered : s.Covered ρ) (subset : ρ ⊆ env) : s.Covered env :=
  fun name has => (covered name has).imp_right (subset ·)

theorem gains (covered : s.Covered ρ) (gains : s.Gains names s') : s'.Covered (names ++ ρ) := by
  intro name has
  rcases gains name has with has | listed
  · exact (covered name has).imp_right (List.mem_append_right _)
  · exact .inr (List.mem_append_left _ listed)

end Covered

/-- When a check starts, only the builtin classes have values. -/
theorem Fresh.covered {w : Bool} (fresh : s.Fresh w) : s.Covered [] := by
  rintro name ⟨b, found, _⟩
  exact .inl (fresh.bindings name b found).2

namespace Types

variable {e : Expr} (typed : s.Types e)
include typed

/-- An expression that has a type reads only names that have values. -/
theorem hasValue : ∀ name ∈ e.names, s.HasValue name := by
  obtain ⟨s₁, a, s₂, gains, run, some⟩ := typed
  intro name read
  exact gains.hasValue ((Check.checkExpr_parts e a s₂ run some).1 name read)

theorem parts : ∀ part ∈ e.parts, s.Types part := by
  obtain ⟨s₁, a, s₂, gains, run, some⟩ := typed
  intro part listed
  have each := (Check.checkExpr_parts e a s₂ run some).2
  obtain ⟨part', _, checks⟩ := exists_right_of_forall₂ each listed
  exact .of_gains gains checks.types

end Types

/-- The body of an accepted function went well with the parameters bound. -/
theorem Types.body {generics : List String} {params : List Param} {result : Option TypeTerm}
    {body : Block} {note : Note} (typed : s.Types (.function generics params result body note)) :
    ∃ s', s.Enters (params.map (·.name)) body s' := by
  obtain ⟨s₁, a, s₂, gains, run, some⟩ := typed
  obtain ⟨s', enters⟩ := Check.checkExpr_body generics params result body note a s₂ run some
  exact ⟨s', .of_gains gains enters⟩

/-- Whichever patterns of a switch are tried, what they compare with was checked. -/
theorem Types.of_patterns {tried : List Expr} {cases : List Case}
    (patterns : ∀ e ∈ tried, ∃ c ∈ cases, e ∈ c.pattern.parts)
    (typed : ∀ c ∈ cases, ∀ e ∈ c.pattern.parts, s.Types e) : ∀ e ∈ tried, s.Types e := by
  intro e listed
  obtain ⟨c, member, part⟩ := patterns e listed
  exact typed c member e part

end Checker

/-- What a path may rely on: from a checker that covers the names bound at the start, code
that goes well reads bound names only, and leads to a checker that covers the names bound at
the end, if the path gets there. -/
def Code.Safe (code : Code) (ρ : List String) (reads : List Read) (env : List String)
    (exit : Exit) : Prop :=
  match code with
  | .expr e => ∀ s : Checker, s.Covered ρ → s.Types e → ∀ r ∈ reads, r.Bound
  | .exprs es => ∀ s : Checker, s.Covered ρ → (∀ e ∈ es, s.Types e) → ∀ r ∈ reads, r.Bound
  | .stmt node => ∀ s s' : Checker, s.Covered ρ → s.Passes node s' →
      (∀ r ∈ reads, r.Bound) ∧ (exit = .falls → s'.Covered env)
  | .stmts nodes => ∀ (s s' : Checker) (checked : List Stmt × Bool), s.Covered ρ →
      Check.checkStmts nodes s = .ok (checked, s') → checked.2 = true →
      (∀ r ∈ reads, r.Bound) ∧ (exit = .falls → s'.Covered env)

section

variable {s s' : Checker} {names ρ env : List String} {reads : List Read} {exit : Exit}
  {body : Block}

theorem Checker.Enters.safe (enters : s.Enters names body s') (covered : s.Covered ρ)
    (safe : (Code.stmts body.body).Safe (names ++ ρ) reads env exit) :
    (∀ r ∈ reads, r.Bound) ∧ (exit = .falls → s'.Covered env) := by
  obtain ⟨s₁, checked, gains, run, ok⟩ := enters
  have run := Check.checkBlock_stmts body checked s' run
  exact safe s₁ s' _ (covered.gains gains) run ok

/-- After a block that a path went through, what has a value had one before it or was bound
in it. -/
theorem Checker.Through.safe (through : s.Through names body s') (covered : s.Covered ρ)
    (safe : (Code.stmts body.body).Safe (names ++ ρ) reads env exit) :
    (∀ r ∈ reads, r.Bound) ∧ (exit = .falls →
      s'.Covered (env.filter (· ∉ names) ++ ρ)) := by
  obtain ⟨s₁, enters, kept⟩ := through
  obtain ⟨bound, after⟩ := enters.safe covered safe
  refine ⟨bound, fun falls name has => ?_⟩
  rcases kept name has with has | ⟨has, other⟩
  · exact (covered name has).imp_right (List.mem_append_right _)
  · refine (after falls name has).imp_right fun listed => List.mem_append_left _ ?_
    exact List.mem_filter.mpr ⟨listed, by simpa using other⟩

/-- A branch that is one of the ways on hands on no more than the path through it has bound. -/
theorem Checker.Through.safe_branch (through : s.Through [] body s') (covered : s.Covered ρ)
    (path : Path (.stmts body.body) ρ reads env exit)
    (safe : (Code.stmts body.body).Safe ρ reads env exit) :
    (∀ r ∈ reads, r.Bound) ∧ (exit = .falls → s'.Covered env) := by
  obtain ⟨bound, after⟩ := through.safe covered safe
  refine ⟨bound, fun falls => (after falls).mono ?_⟩
  exact List.append_subset.mpr ⟨fun _ listed => (List.mem_filter.mp listed).1, path.grows⟩

end

/-- By induction on the path: each of the program's ways reads bound names only. -/
theorem Path.safe {code : Code} {ρ env : List String} {reads : List Read} {exit : Exit}
    (path : Path code ρ reads env exit) : code.Safe ρ reads env exit := by
  induction path with
  | eval subset _ parts =>
    intro s covered typed
    refine List.forall_mem_append.mpr ⟨fun r read => ?_, ?_⟩
    · obtain ⟨name, listed, rfl⟩ := List.mem_map.mp read
      exact covered name (typed.hasValue name listed)
    · exact parts s covered fun part listed => typed.parts part (subset listed)
  | called _ _ run others =>
    intro s covered typed
    obtain ⟨s', enters⟩ := typed.body
    exact List.forall_mem_append.mpr ⟨(enters.safe covered run).1, others s covered typed⟩
  | noExprs => exact fun _ _ _ => nofun
  | nextExpr _ _ first rest =>
    intro s covered typed
    obtain ⟨head, tail⟩ := List.forall_mem_cons.mp typed
    exact List.forall_mem_append.mpr ⟨first s covered head, rest s covered tail⟩
  | noStmts =>
    intro s s' checked covered run ok
    rw [Check.checkStmts] at run
    cases run
    exact ⟨nofun, fun _ => covered⟩
  | nextStmt _ _ first rest =>
    intro s s' checked covered run ok
    obtain ⟨s₁, others, passes, later, ok⟩ :=
      Check.checkStmts_cons_passes _ _ checked s' run ok
    obtain ⟨bound, after⟩ := first s s₁ covered passes
    obtain ⟨bound', after'⟩ := rest s₁ s' others (after rfl) later ok
    exact ⟨List.forall_mem_append.mpr ⟨bound, bound'⟩, after'⟩
  | halt => exact fun _ _ _ _ _ _ => ⟨nofun, nofun⟩
  | cut _ first =>
    intro s s' checked covered run ok
    obtain ⟨s₁, others, passes, _, _⟩ := Check.checkStmts_cons_passes _ _ checked s' run ok
    exact ⟨(first s s₁ covered passes).1, nofun⟩
  | value _ value =>
    intro s s' covered passes
    exact ⟨value s covered passes.1, fun _ => covered.gains passes.2⟩
  | define _ value =>
    intro s s' covered passes
    exact ⟨value s covered passes.1, fun _ => covered.gains passes.2⟩
  | announce =>
    intro s s' covered passes
    exact ⟨nofun, fun _ => covered.gains passes⟩
  | declare _ value =>
    intro s s' covered passes
    exact ⟨value s covered passes.1, fun _ => covered.gains passes.2⟩
  | classDecl =>
    intro s s' covered passes
    exact ⟨nofun, fun _ => covered.gains passes⟩
  | methods => exact fun _ _ _ => nofun
  | taken chosen _ path test run =>
    rintro s s' covered ⟨typed, ways, _⟩
    obtain ⟨bound, after⟩ := (ways _ chosen).safe_branch covered path run
    exact ⟨List.forall_mem_append.mpr ⟨test s covered typed, bound⟩, after⟩
  | skipped _ test =>
    rintro s s' covered ⟨typed, _, gains⟩
    exact ⟨test s covered typed, fun _ => covered.gains (gains rfl)⟩
  | whileDone _ test =>
    rintro s s' covered ⟨typed, _, gains⟩
    exact ⟨test s covered typed, fun _ => covered.gains gains⟩
  | whileNext _ path _ test run again =>
    -- the loop was checked once, where less was bound than there is before the next round
    rintro s s' covered ⟨typed, through, gains⟩
    have tested := test s covered typed
    have bound := (through.safe_branch covered path run).1
    obtain ⟨more, after⟩ := again s s' (covered.mono path.grows) ⟨typed, through, gains⟩
    refine ⟨?_, after⟩
    exact List.forall_mem_append.mpr ⟨List.forall_mem_append.mpr ⟨tested, bound⟩, more⟩
  | whileLeft _ path test run =>
    rintro s s' covered ⟨typed, through, _⟩
    have bound := (through.safe_branch covered path run).1
    exact ⟨List.forall_mem_append.mpr ⟨test s covered typed, bound⟩, nofun⟩
  | doDone path _ run test =>
    rintro s s' covered ⟨⟨s₁, enters, typed⟩, gains⟩
    obtain ⟨bound, after⟩ := enters.safe covered run
    refine ⟨List.forall_mem_append.mpr ⟨bound, test s₁ (after rfl) typed⟩, fun _ => ?_⟩
    exact (covered.gains gains).mono path.grows
  | doNext path _ _ run test again =>
    rintro s s' covered ⟨⟨s₁, enters, typed⟩, gains⟩
    obtain ⟨bound, inside⟩ := enters.safe covered run
    have tested := test s₁ (inside rfl) typed
    obtain ⟨more, after⟩ := again s s' (covered.mono path.grows) ⟨⟨s₁, enters, typed⟩, gains⟩
    refine ⟨?_, after⟩
    exact List.forall_mem_append.mpr ⟨List.forall_mem_append.mpr ⟨bound, tested⟩, more⟩
  | doLeft _ run =>
    rintro s s' covered ⟨⟨s₁, enters, _⟩, _⟩
    exact ⟨(enters.safe covered run).1, nofun⟩
  | case listed patterns _ _ _ look tries run =>
    rintro s s' covered ⟨typed, cases, _, _⟩
    have looked := look s covered typed
    have tested := tries s covered
      (Checker.Types.of_patterns patterns fun c listed => (cases c listed).1)
    obtain ⟨bound, after⟩ := (cases _ listed).2.safe covered run
    refine ⟨?_, after⟩
    exact List.forall_mem_append.mpr ⟨List.forall_mem_append.mpr ⟨looked, tested⟩, bound⟩
  | otherwise patterns _ _ path look tries run =>
    rintro s s' covered ⟨typed, cases, others, _⟩
    have looked := look s covered typed
    have tested := tries s covered
      (Checker.Types.of_patterns patterns fun c listed => (cases c listed).1)
    obtain ⟨bound, after⟩ := (others _ rfl).safe_branch covered path run
    refine ⟨?_, after⟩
    exact List.forall_mem_append.mpr ⟨List.forall_mem_append.mpr ⟨looked, tested⟩, bound⟩
  | unmatched patterns _ _ look tries =>
    rintro s s' covered ⟨typed, cases, _, gains⟩
    have tested := tries s covered
      (Checker.Types.of_patterns patterns fun c listed => (cases c listed).1)
    refine ⟨List.forall_mem_append.mpr ⟨look s covered typed, tested⟩, fun _ => ?_⟩
    exact covered.gains (gains rfl)
  | returnNone => exact fun _ _ _ _ => ⟨nofun, nofun⟩
  | returnValue _ value =>
    rintro s s' covered ⟨typed, _⟩
    exact ⟨value s covered typed, nofun⟩

/-- An accepted program was accepted with all of its nodes, also if warnings count as errors. -/
theorem Program.ran_of_isOk {p q : Program} {w : Bool} {c : Checked}
    (checked : p.check w = .ok (q, c)) (accepted : c.isOk = true) :
    ∃ start tree s c', p.Ran false start tree true s c' ∧ start.Fresh false := by
  rcases p.ran false with ⟨start, tree, ok, s, c', ran, fresh, _, _⟩ | overflow
  case inr =>
    obtain ⟨lenient, strict⟩ := p.overflow_strict overflow
    cases w <;> simp [lenient, strict] at checked
  have verdict := ran.isOk_eq fresh
  have success : ok = true := by
    cases w with
    | false =>
      rw [Program.check_eq_ok.mpr ⟨start, ok, s, ran⟩] at checked
      cases checked
      exact verdict.symm.trans accepted
    | true =>
      rw [Program.check_eq_ok.mpr ⟨_, ok, _, ran.strict⟩] at checked
      cases checked
      exact verdict.symm.trans (c'.isOk_promoted.mp accepted).1
  subst success
  exact ⟨start, tree, s, c', ran, fresh⟩

/-- In a program that is accepted, every name that a path reads is that of a builtin class or
is bound on the path by then. -/
theorem Program.definite_assignment {p q : Program} {w : Bool} {c : Checked}
    (checked : p.check w = .ok (q, c)) (accepted : c.isOk = true) {reads : List Read}
    {env : List String} {exit : Exit} (path : Path (.stmts p.body) [] reads env exit) :
    ∀ r ∈ reads, (Builtin.named? r.name).isSome = true ∨ r.name ∈ r.bound := by
  obtain ⟨start, tree, s, c', ran, fresh⟩ := Program.ran_of_isOk checked accepted
  have run := Check.checkProgram_stmts p _ s ran.walked
  exact (path.safe start s _ fresh.covered run rfl).1

/-- A variable that is assigned in both arms of a branch, and read in a loop and in a function
that is made after it. -/
def Program.assignedInArms : Program :=
  let int : TypeTerm := .named "int" [] .null
  let name (x : String) : Expr := .symbol x ⟨.null, none, none⟩
  let number (n : Int) : Expr := .literal (.int n) ⟨.null, none, none⟩
  let apply (left : Expr) (kind : Token.Kind) (text : String) (right : Expr) : Expr :=
    .binary left ⟨kind, text, .null⟩ right ⟨.null, none, none⟩
  let set (x : String) (value : Expr) : Stmt := .define [x] value false .null
  ⟨[.declare "x" int none false .null,
    .ifElse (.literal (.bool true) ⟨.null, none, none⟩) ⟨[set "x" (number 1)], .null⟩
      (some ⟨[set "x" (number 2)], .null⟩) .null,
    .whileLoop (apply (name "x") .equals "==" (number 1)) ⟨[set "y" (name "x")], .null⟩ .null,
    set "f" (.function [] [⟨"a", int⟩] none
      ⟨[.return (some (apply (name "a") .plus "+" (name "x"))) .null], .null⟩
      ⟨.null, none, none⟩)], .null⟩

/-- The path takes the first arm, runs the loop once and calls the function. -/
theorem Program.definite_assignment_assignedInArms : ∃ reads env exit,
    Path (.stmts Program.assignedInArms.body) [] reads env exit ∧
    reads.map (·.name) = ["x", "x", "x", "a", "x"] ∧
    (∃ q c, Program.assignedInArms.check true = .ok (q, c) ∧ c.isOk = true) ∧
    ∀ r ∈ reads, (Builtin.named? r.name).isSome = true ∨ r.name ∈ r.bound := by
  obtain ⟨q, c, checked, accepted⟩ : ∃ q c,
      Program.assignedInArms.check true = .ok (q, c) ∧ c.isOk = true :=
    Program.check_of_any (P := fun _ c => c.isOk) (by decide +kernel)
  have name (x : String) (note : Note) (ρ : List String) :
      Path (.expr (.symbol x note)) ρ [⟨x, ρ⟩] ρ .falls :=
    .eval (List.nil_subset _) .noExprs
  have literal (value : Literal) (note : Note) (ρ : List String) :
      Path (.expr (.literal value note)) ρ [] ρ .falls :=
    .eval (List.nil_subset _) .noExprs
  have both {left right : Expr} {operator : Token} {note : Note} {ρ : List String}
      {reads more : List Read} (first : Path (.expr left) ρ reads ρ .falls)
      (second : Path (.expr right) ρ more ρ .falls) :
      Path (.expr (.binary left operator right note)) ρ (reads ++ (more ++ [])) ρ .falls :=
    .eval (List.Subset.refl _) (.nextExpr first (.nextExpr second .noExprs))
  obtain ⟨reads, env, exit, path, names⟩ : ∃ reads env exit,
      Path (.stmts Program.assignedInArms.body) [] reads env exit ∧
      reads.map (·.name) = ["x", "x", "x", "a", "x"] :=
    ⟨_, _, _, .nextStmt .announce
      (.nextStmt (.taken List.mem_cons_self (literal _ _ _)
        (.nextStmt (.define (literal _ _ _)) .noStmts))
      (.nextStmt (.whileNext (both (name _ _ _) (literal _ _ _))
        (.nextStmt (.define (name _ _ _)) .noStmts)
        (.whileDone (both (name _ _ _) (literal _ _ _))))
      (.nextStmt (.define (.called (.cut (.returnValue (both (name _ _ _) (name _ _ _))))
        (.eval (List.nil_subset _) .noExprs))) .noStmts))), rfl⟩
  exact ⟨reads, env, exit, path, names, ⟨q, c, checked, accepted⟩,
    Program.definite_assignment checked accepted path⟩

end ShapeLang
