import ShapeLang.Proofs.Accepted
import ShapeLang.Proofs.Reached

/-!
# Statements, with and without arms

A branching statement is checked in two steps: its arms one after the other, each
in a branch of its own, and then the merge of what they came to. The first step is
walked here on its own, so that a proof about branching statements is one about an
arm and one about the merge. A statement without arms is checked in a few steps one
after the other, and the steps that ran are all that there is to know of it.
-/

namespace ShapeLang

namespace Stmt

def branching : Stmt → Bool
  | ifElse .. | whileLoop .. | doWhile .. | switch .. => true
  | expr .. | define .. | declare .. | classDecl .. | methods .. | .return .. => false

def arms : Stmt → List Block
  | ifElse _ yes no _ => yes :: no.toList
  | whileLoop _ body _ | doWhile body _ _ => [body]
  | switch _ cases otherwise _ => cases.map (·.body) ++ otherwise.toList
  | expr .. | define .. | declare .. | classDecl .. | methods .. | .return .. => []

/-- The blocks that may be run, each with the names that are bound for it alone. -/
def ways : Stmt → List (List String × Block)
  | ifElse _ yes no _ => (yes :: no.toList).map ([], ·)
  | whileLoop _ body _ | doWhile body _ _ => [([], body)]
  | switch _ cases otherwise _ =>
      cases.map (fun c => (c.pattern.binds, c.body)) ++ otherwise.toList.map ([], ·)
  | expr .. | define .. | declare .. | classDecl .. | methods .. | .return .. => []

/-- The expressions that decide which block is run. -/
def tests : Stmt → List Expr
  | ifElse condition _ _ _ | whileLoop condition _ _ => [condition]
  | switch subject cases _ _ => subject :: cases.flatMap (·.pattern.parts)
  | doWhile .. | expr .. | define .. | declare .. | classDecl .. | methods .. | .return .. => []

/-- The expressions that are evaluated after the block. -/
def closing : Stmt → List Expr
  | doWhile _ condition _ => [condition]
  | ifElse .. | whileLoop .. | switch .. | expr .. | define .. | declare .. | classDecl ..
  | methods .. | .return .. => []

/-- Neither a class is declared nor something returned. -/
def bindsOnly : Stmt → Bool
  | classDecl .. | .return .. => false
  | expr .. | define .. | declare .. | methods .. | ifElse .. | whileLoop .. | doWhile ..
  | switch .. => true

/-- One of the arms is sure to run. -/
def exhaustive : Stmt → Bool
  | ifElse _ _ no _ => no.isSome
  | switch _ _ otherwise _ => otherwise.isSome
  | expr .. | define .. | declare .. | classDecl .. | methods .. | whileLoop .. | doWhile ..
  | .return .. => false

theorem map_ways (stmt : Stmt) : stmt.ways.map (·.2) = stmt.arms := by
  cases stmt <;> simp [ways, arms, Function.comp_def]

/-- An arm is smaller than its statement, so that facts about whole blocks follow by induction. -/
theorem sizeOf_arm {stmt : Stmt} {arm : Block} (listed : arm ∈ stmt.arms) :
    sizeOf arm < sizeOf stmt := by
  cases stmt <;> simp only [arms, List.mem_cons, List.mem_append, List.mem_map, Option.mem_toList,
    List.not_mem_nil, or_false] at listed
  case ifElse condition yes no span =>
    rcases listed with rfl | rfl <;> simp <;> omega
  case whileLoop condition body span =>
    subst listed
    simp
    omega
  case doWhile body condition span =>
    subst listed
    simp
    omega
  case switch subject cases otherwise span =>
    rcases listed with ⟨c, member, rfl⟩ | rfl
    · have smaller := List.sizeOf_lt_of_mem member
      obtain ⟨pattern, body, span'⟩ := c
      simp only [Case.mk.sizeOf_spec] at smaller
      simp only [Stmt.switch.sizeOf_spec]
      omega
    · simp
      omega

/-- A property of statements that carries over from the statements in the arms. -/
theorem induction {Q : Stmt → Prop}
    (step : ∀ stmt : Stmt, (∀ arm ∈ stmt.arms, ∀ inner ∈ arm.body, Q inner) → Q stmt)
    (stmt : Stmt) : Q stmt := by
  refine step stmt fun arm listed inner member => ?_
  have smaller := sizeOf_arm listed
  have within := List.sizeOf_lt_of_mem member
  have part : sizeOf arm.body < sizeOf arm := by
    cases arm
    simp
    omega
  exact induction step inner
termination_by sizeOf stmt

end Stmt

namespace Checker

/-- The second checker has the names and the classes of the first. -/
structure Alike (s s' : Checker) : Prop where
  lookup? : ∀ name, s'.lookup? name = s.lookup? name
  classes : s'.classes = s.classes
  sound : ∀ n, s.Sound n → s'.Sound n

variable {s s₁ s₂ : Checker}

theorem Alike.trans (first : s.Alike s₁) (second : s₁.Alike s₂) : s.Alike s₂ where
  lookup? name := (second.lookup? name).trans (first.lookup? name)
  classes := second.classes.trans first.classes
  sound n sound := second.sound n (first.sound n sound)

theorem Alike.of_noted (noted : s.Noted s₁) : s.Alike s₁ :=
  ⟨noted.lookup?, noted.classes, fun _ sound => sound.noted noted⟩

/-- Notes do not matter. -/
theorem Alike.of_notes (noted : s₁.Noted s) : s.Alike s₁ := by
  refine ⟨fun name => (noted.lookup? name).symm, noted.classes.symm, fun n sound => ?_⟩
  obtain ⟨_, _, rfl⟩ := noted
  exact ⟨⟨sound.frame, sound.outer⟩, sound.size, sound.coherent, sound.builtins⟩

theorem Alike.enterBranch (s : Checker) : s.Alike (s.enter .branch) :=
  ⟨fun _ => rfl, rfl, fun _ sound => sound.enterBranch⟩

/-- The expression came of a check with the names and the classes of the checker, and it has a
type. -/
def Evaluates (s : Checker) (e' : Expr) : Prop :=
  ∃ e s₁ type s₂, s.Alike s₁ ∧ Check.checkExpr e s₁ = .ok ((e', some type), s₂)

theorem Evaluates.of_alike {e : Expr} (alike : s.Alike s₁) (evaluates : s₁.Evaluates e) :
    s.Evaluates e := by
  obtain ⟨source, s₂, type, s₃, later, ran⟩ := evaluates
  exact ⟨source, s₂, type, s₃, alike.trans later, ran⟩

/-- A value that was checked with success is one that evaluates where it was checked. -/
theorem Checks.evaluates {e e' : Expr} (checks : s.Checks e e') : s.Evaluates e' := by
  obtain ⟨s₁, type, s₂, noted, ran⟩ := checks
  exact ⟨e, s₁, type, s₂, .of_noted noted, ran⟩

end Checker

/-- The statement, checked from the first checker on, makes the expression of one of its own,
with the names and the classes of the second. -/
def Stmt.Makes (stmt : Stmt) (s s' : Checker) (e' : Expr) : Prop :=
  ∃ e s₁ type s₂, stmt.Leads s (.expr e) s₁ ∧ s'.Alike s₁ ∧
    Check.checkExpr e s₁ = .ok ((e', some type), s₂)

theorem Stmt.Makes.evaluates {stmt : Stmt} {s s' : Checker} {e : Expr}
    (makes : stmt.Makes s s' e) : s'.Evaluates e := by
  obtain ⟨source, s₁, type, s₂, _, alike, ran⟩ := makes
  exact ⟨source, s₁, type, s₂, alike, ran⟩

/-- A value of the statement's own is made where the statement begins. -/
theorem Stmt.Makes.value {stmt : Stmt} {s : Checker} {e e' : Expr} (listed : e ∈ stmt.values)
    (checks : s.Checks e e') : stmt.Makes s s e' := by
  obtain ⟨s₁, type, s₂, noted, ran⟩ := checks
  exact ⟨e, s₁, type, s₂, .value listed noted, .of_noted noted, ran⟩

/-- How an arm ended: the names that its pattern hides, the checked block, whether all went
well, and the checker before the branch was left. -/
structure ArmEnd where
  hidden : List String
  block : Block
  ok : Bool
  last : Checker

/-- The block of the arm with the names bound for it alone. -/
def ArmEnd.way (e : ArmEnd) : List String × Block := (e.hidden, e.block)

def ArmEnd.arm (e : ArmEnd) : Arm :=
  ⟨e.hidden.foldl .erase e.last.frame.bindings, e.last.frame.returns⟩

namespace Check

section

variable {α : Type}

def walkArm (hidden : List String) (body : Check α) (view : α → Block × Bool) :
    Check ArmEnd := do
  enterBranch
  let a ← body
  let last ← get
  let _ ← exitBranch
  return ⟨hidden, (view a).1, (view a).2, last⟩

/-- An arm walked on its own ends where the check of it ended, and the scope around it is put
back. -/
theorem walkArm_run (hidden : List String) {body : Check α} (view : α → Block × Bool)
    {s last : Checker} {a : α} (framed : Advances body)
    (ran : body (s.enter .branch) = .ok (a, last)) :
    walkArm hidden body view s = .ok (⟨hidden, (view a).1, (view a).2, last⟩,
      { last with frame := s.frame, outer := s.outer }) := by
  have entered : enterBranch s = .ok (⟨⟩, s.enter .branch) := rfl
  rw [walkArm, bind_ok entered, bind_ok ran, get_bind, bind_ok (exitBranch_run (framed _ _ _ ran))]
  rfl

end

def walkCases (subject : Ty) : List Case → Check (List ArmEnd)
  | [] => return []
  | ⟨pattern, body, span⟩ :: cases => do
      let first ← walkArm pattern.binds (checkCaseBody subject span pattern body)
        fun checked => (checked.2.1, checked.1.2 && checked.2.2)
      let others ← walkCases subject cases
      return first :: others

def walkTest (condition : Expr) : Check Unit := do
  let checked ← checkExpr condition
  let _ ← conditionType checked.2 checked.1.span

/-- A test walked on its own leaves behind what the check of the condition left. -/
theorem walkTest_run {condition value : Expr} {type : Option Ty} {ok : Bool} {s s₁ s₂ : Checker}
    (looked : checkExpr condition s = .ok ((value, type), s₁))
    (held : conditionType type value.span s₁ = .ok (ok, s₂)) :
    walkTest condition s = .ok (⟨⟩, s₂) := by
  rw [walkTest, bind_ok looked, bind_ok held]
  rfl

/-- Checks the arms of a statement without merging them. -/
def walkArms : Stmt → Check (List ArmEnd)
  | .ifElse condition yes none _ => do
      walkTest condition
      let arm ← walkArm [] (checkBlock yes) id
      return [arm]
  | .ifElse condition yes (some no) _ => do
      walkTest condition
      let first ← walkArm [] (checkBlock yes) id
      let second ← walkArm [] (checkBlock no) id
      return [first, second]
  | .whileLoop condition body _ => do
      walkTest condition
      let arm ← walkArm [] (checkBlock body) id
      return [arm]
  | .doWhile body condition _ => do
      let arm ← walkArm [] (checkDoBody body condition)
        fun checked => (checked.1.1, checked.1.2 && checked.2.2)
      return [arm]
  | .switch subject cases none _ => do
      let checked ← checkExpr subject
      match checked.2 with
      | none => return []
      | some type => walkCases type cases
  | .switch subject cases (some otherwise) _ => do
      let checked ← checkExpr subject
      match checked.2 with
      | none => return []
      | some type => do
          let ends ← walkCases type cases
          let last ← walkArm [] (checkBlock otherwise) id
          return ends ++ [last]
  | .expr .. | .define .. | .declare .. | .classDecl .. | .methods .. | .return .. => return []

end Check

/-- A branch was opened and the names of a pattern bound in it. -/
structure Checker.Opened (names : List String) (s s' : Checker) : Prop where
  advanced : s.Advanced s'
  returns : s'.frame.returns = s.frame.returns
  others : ∀ name, name ∉ names → s'.lookup? name = s.lookup? name

theorem Checker.Noted.frame {s s' : Checker} (noted : s.Noted s') : s'.frame = s.frame := by
  obtain ⟨_, _, rfl⟩ := noted
  rfl

theorem Checker.Opened.of_noted {names : List String} {s s' : Checker} (noted : s.Noted s') :
    s.Opened names s' :=
  ⟨.of_noted noted, congrArg Frame.returns noted.frame, fun name _ => noted.lookup? name⟩

/-- How the arm came about, for a statement that is checked from `s`: its block was checked
from `start`, which is `base` with the branch opened. -/
structure ArmEnd.Ran (s : Checker) (source : Block) (e : ArmEnd) (base start mid : Checker)
    (ok : Bool) : Prop where
  reached : s.Noted base
  opened : (base.enter .branch).Opened e.hidden start
  sound : ∀ n, s.Sound n → start.Sound n
  ran : Check.checkBlock source start = .ok ((e.block, ok), mid)
  noted : mid.Noted e.last
  passed : e.ok = true → ok = true

/-- The arm is one of the block, for a statement that is checked from `s`. -/
def ArmEnd.Of (s : Checker) (source : Block) (e : ArmEnd) : Prop :=
  ∃ base start mid ok, e.Ran s source base start mid ok

/-- The arm is one of the block of the statement, which is checked from `s`. -/
def Stmt.Ends (stmt : Stmt) (s : Checker) (source : Block) (e : ArmEnd) : Prop :=
  ∃ base start mid ok, stmt.Leads s (.stmts source.body) start ∧
    e.Ran s source base start mid ok

theorem Stmt.Ends.of {stmt : Stmt} {s : Checker} {source : Block} {e : ArmEnd}
    (ends : stmt.Ends s source e) : e.Of s source := by
  obtain ⟨base, start, mid, ok, _, ran⟩ := ends
  exact ⟨base, start, mid, ok, ran⟩

/-- No class is declared in an arm. -/
theorem ArmEnd.Ran.classes {s : Checker} {source : Block} {e : ArmEnd} {base start mid : Checker}
    {ok : Bool} (ran : e.Ran s source base start mid ok) :
    start.classes = s.classes ∧ mid.classes = s.classes ∧ e.last.classes = s.classes := by
  have opened : start.classes = s.classes :=
    (ran.opened.advanced.classes rfl).trans ran.reached.classes
  have inside : start.atRoot = false := ran.opened.advanced.atRoot
  have closed : mid.classes = s.classes :=
    ((Check.checkBlock_advances source _ _ _ ran.ran).classes inside).trans opened
  exact ⟨opened, closed, ran.noted.classes.trans closed⟩

/-- The checker at the end of an arm is sound if that before the statement is. -/
theorem ArmEnd.Of.sound {s : Checker} {source : Block} {e : ArmEnd} (of : e.Of s source) {n : Nat}
    (sound : s.Sound n) : e.last.Sound n := by
  obtain ⟨base, start, mid, ok, ran⟩ := of
  have inside : start.atRoot = false := ran.opened.advanced.atRoot
  have ended := (Check.checkBlock_proceeds n source).of_inside (Check.checkBlock_advances source)
    (ran.sound n sound) inside ran.ran
  exact ended.noted ran.noted

/-- What is merged of an arm is what was bound at its end, without the names it hides. -/
theorem ArmEnd.find?_arm {e : ArmEnd} {name : String} {b : Binding} :
    e.arm.bindings.find? name = some b ↔ name ∉ e.hidden ∧ e.last.lookup? name = some b := by
  have erased (names : List String) (m : NameMap Binding) :
      (names.foldl .erase m).find? name = some b ↔ name ∉ names ∧ m.find? name = some b := by
    induction names generalizing m with
    | nil => simp
    | cons other names ih =>
      rw [List.foldl_cons, ih, NameMap.find?_erase]
      by_cases same : name = other <;> simp [same]
  exact erased e.hidden e.last.frame.bindings

/-- What an arm's end hands on is the arm without the names of its pattern. -/
theorem ArmEnd.arm_forget {pattern checked : Pattern} (same : checked.binds = pattern.binds)
    (block : Block) (ok : Bool) (last : Checker) :
    Arm.forget ⟨last.frame.bindings, last.frame.returns⟩ checked =
      ArmEnd.arm ⟨pattern.binds, block, ok, last⟩ := by
  rw [← same]
  cases checked <;> rfl

namespace Check

variable {s : Checker}

theorem typePattern_opened (subject : Ty) (name : String) (term : TypeTerm) (span : Span) :
    Gives (typePattern subject name term span) s fun _ s' => s.Opened [name] s' := by
  refine (scoping.resolveTerm trivial s).bind fun pattern s₁ noted => ?_
  cases pattern with
  | none => exact .pure (.of_noted noted)
  | some pattern =>
    refine (scoping.narrows pattern subject s₁).bind fun accepted s₂ noted' => ?_
    have same := noted.trans noted'
    cases accepted with
    | false => exact .after_fail (.pure (.of_noted (same.trans (.addDiagnostic _ _))))
    | true =>
      refine .after_modify (.pure ⟨(Checker.Advanced.of_noted same).trans (.bind _ _ _), ?_, ?_⟩)
      · exact (congrArg Frame.returns same.frame :)
      · intro other apart
        rw [Checker.lookup?_bind, if_neg (by simpa using apart), same.lookup?]

/-- A pattern binds its own names and no others. If it goes well, each of its checked parts came
of a check of a part in the source. -/
theorem checkPattern_opened (subject : Ty) (span : Span) (pattern : Pattern) :
    Gives (checkPattern subject span pattern) s fun checked s' =>
      checked.1.binds = pattern.binds ∧ s.Opened pattern.binds s' ∧
        (checked.2 = true → ∀ e' ∈ checked.1.parts, ∃ e ∈ pattern.parts, ∃ type s₁,
          checkExpr e s = .ok ((e', some type), s₁)) := by
  cases pattern with
  | type name term =>
    rw [checkPattern]
    refine (typePattern_opened subject name term span).bind fun ok s₁ opened => .pure ?_
    exact ⟨rfl, opened, by simp [Pattern.parts]⟩
  | value e =>
    rw [checkPattern]
    refine (checkExpr_checks e).ran.bind ?_
    rintro ⟨e', type⟩ s₁ ⟨ran, noted, _⟩
    cases type with
    | none => exact .pure ⟨rfl, .of_noted noted, by simp⟩
    | some type =>
      refine (scoping.valuePattern subject type trivial s₁).bind fun ok s₂ noted' => .pure ?_
      refine ⟨rfl, .of_noted (noted.trans noted'), fun _ => ?_⟩
      exact List.forall_mem_singleton.mpr ⟨e, List.mem_singleton_self e, type, s₁, ran⟩

/-! The arms of a statement that is checked from `s₀`. Each starts with the notes that were
left before it. -/

section

variable {s₀ : Checker}

theorem checkBlock_ends (stmt : Stmt) {block : Block} {checked : Block × Bool} {s₁ : Checker}
    (listed : block ∈ stmt.branches) (reached : s₀.Noted s)
    (ran : checkBlock block (s.enter .branch) = .ok (checked, s₁)) :
    stmt.Ends s₀ block ⟨[], checked.1, checked.2, s₁⟩ :=
  ⟨s, s.enter .branch, s₁, checked.2, .branch listed reached, reached, .of_noted (.refl _),
    fun _ sound => (sound.noted reached).enterBranch, ran, .refl _, id⟩

/-- The body of a `do` loop is an arm's end, and its condition is made where the body ends. -/
theorem checkDoBody_ends (body : Block) (condition : Expr) (span : Span) :
    Gives (checkDoBody body condition) (s.enter .branch) fun checked s' =>
      (Stmt.doWhile body condition span).Ends s body
          ⟨[], checked.1.1, checked.1.2 && checked.2.2, s'⟩ ∧
        ((checked.1.2 && checked.2.2) = true →
          (Stmt.doWhile body condition span).Makes s s' checked.2.1.1) := by
  refine Gives.bind (fun _ _ run => run) fun block s₁ ran => ?_
  refine (checkExpr_checks condition).ran.bind
    fun (value, type) s₂ ⟨looked, noted, _⟩ => ?_
  refine (conditionType_isSome type _).bind fun ok s₃ ⟨noted', isSome⟩ => .pure ⟨?_, ?_⟩
  · exact ⟨s, s.enter .branch, s₁, block.2, .branch (List.mem_singleton_self body) (.refl s),
      .refl s, .of_noted (.refl _), fun _ sound => sound.enterBranch, ran, noted.trans noted',
      fun both => (Bool.and_eq_true_iff.mp both).1⟩
  · intro both
    obtain ⟨type, rfl⟩ := Option.isSome_iff_exists.mp (isSome (Bool.and_eq_true_iff.mp both).2)
    exact ⟨condition, s₁, type, s₂, .repeated ran, .of_notes (noted.trans noted'), looked⟩

end

section

variable (otherwise : Option Block) (span : Span) {subject value : Expr} {type : Ty}
  {whole : List Case} {s₀ s₁ : Checker}
  (looked : checkExpr subject s₀ = .ok ((value, some type), s₁))
  (reached : s₁.Noted s)
include looked reached

/-- A case is an arm's end of its `switch`, and the parts of its pattern are made where the
`switch` begins. -/
theorem checkCaseBody_ends {c : Case} (listed : c ∈ whole) :
    Gives (checkCaseBody type c.span c.pattern c.body) (s.enter .branch) fun checked s' =>
      checked.1.1.binds = c.pattern.binds ∧
        (Stmt.switch subject whole otherwise span).Ends s₀ c.body
            ⟨c.pattern.binds, checked.2.1, checked.1.2 && checked.2.2, s'⟩ ∧
          ((checked.1.2 && checked.2.2) = true → ∀ e ∈ checked.1.1.parts,
            (Stmt.switch subject whole otherwise span).Makes s₀ s₀ e) := by
  have before := (checkExpr_notes subject s₀ _ _ looked).trans reached
  refine (checkPattern_opened type c.span c.pattern).ran.bind
    fun checked s₂ ⟨matched, binds, opened, tried⟩ => ?_
  refine Gives.bind (fun _ _ run => run) fun block s₃ ran => .pure ⟨binds, ?_, ?_⟩
  · refine ⟨s, s₂, s₃, block.2, .case listed looked reached matched, before, opened,
      fun n sound => ?_, ran, .refl _, fun both => (Bool.and_eq_true_iff.mp both).2⟩
    have known := ((checkExpr_delivers n subject).of_ran sound looked).2 type rfl
    have entered := (sound.noted before).enterBranch
    exact ((checkPattern_delivers n known c.span c.pattern).of_ran entered matched).1
  · intro both e' part
    obtain ⟨e, own, type', s₄, ran'⟩ := tried (Bool.and_eq_true_iff.mp both).1 e' part
    exact ⟨e, s.enter .branch, type', s₄, .pattern listed own before,
      (Checker.Alike.of_noted before).trans (.enterBranch s), ran'⟩

/-- The cases are walked one after the other, each from what the ones before have noted; their
ends are the arms that are merged. -/
theorem checkCases_walks {cases : List Case} (subset : cases ⊆ whole) :
    Gives (checkCases type cases) s fun checked s' => ∃ ends,
      walkCases type cases s = .ok (ends, s') ∧ s₁.Noted s' ∧
        checked.2.1 = ends.map (·.arm) ∧
          checked.1.map (fun c => (c.pattern.binds, c.body)) = ends.map (·.way) ∧
          List.Forall₂ (fun c e => (Stmt.switch subject whole otherwise span).Ends s₀ c.body e)
              cases ends ∧
            (checked.2.2 = true → (∀ e ∈ ends, e.ok = true) ∧
              ∀ c ∈ checked.1, ∀ e ∈ c.pattern.parts,
                (Stmt.switch subject whole otherwise span).Makes s₀ s₀ e) := by
  induction cases generalizing s with
  | nil =>
    rw [checkCases]
    exact .pure ⟨[], rfl, reached, rfl, rfl, .nil, by simp⟩
  | cons c cases ih =>
    obtain ⟨listed, others⟩ := List.cons_subset.mp subset
    obtain ⟨pattern, body, caseSpan⟩ := c
    have framed := checkCaseBody_advances type caseSpan pattern body
    rw [checkCases_cons]
    refine inBranch_gives framed (checkCaseBody_ends otherwise span looked reached listed).ran
      fun checked s₂ ⟨ran, binds, arm, makes⟩ noted => ?_
    have walk := walkArm_run pattern.binds (fun checked =>
      (checked.2.1, checked.1.2 && checked.2.2)) framed ran
    refine (ih (reached.trans noted) others).bind
      fun checked' s₃ ⟨ends, walked, noted', arms, ways, each, passed⟩ => .pure ?_
    refine ⟨⟨pattern.binds, checked.2.1, checked.1.2 && checked.2.2, s₂⟩ :: ends, ?_, noted', ?_,
      ?_, .cons arm each, fun all => ?_⟩
    · rw [walkCases, bind_ok walk, bind_ok walked]
      rfl
    · rw [List.map_cons, ← arms, ← ArmEnd.arm_forget binds]
    · rw [List.map_cons, List.map_cons, ways, binds]
      rfl
    · obtain ⟨here, rest⟩ := Bool.and_eq_true_iff.mp all
      obtain ⟨others, makes'⟩ := passed rest
      exact ⟨List.forall_mem_cons.mpr ⟨here, others⟩,
        List.forall_mem_cons.mpr ⟨makes here, makes'⟩⟩

end

end Check

/-- What the check of a branching statement comes to: a walk over its arms, then a merge. If
all went well, the arms are those of the checked statement. -/
structure Stmt.Walks (stmt : Stmt) (s : Checker) (checked : Stmt × Option Ty) (s' : Checker)
    (ends : List ArmEnd) (s₁ : Checker) (merged : Option Unit) : Prop where
  walked : Check.walkArms stmt s = .ok (ends, s₁)
  noted : s.Noted s₁
  ended : List.Forall₂ (stmt.Ends s) stmt.arms ends ∨ (ends = [] ∧ checked.2 = none)
  merges : Check.mergeArms (ends.map (·.arm)) stmt.exhaustive stmt.span s₁ = .ok (merged, s')
  branching : checked.1.branching = true
  exhaustive : checked.1.exhaustive = stmt.exhaustive
  passed : checked.2.isSome = true →
    checked.1.ways = ends.map (·.way) ∧ merged = some () ∧ ∀ e ∈ ends, e.ok = true
  tests : checked.2.isSome = true → ∀ test ∈ checked.1.tests, stmt.Makes s s test
  closing : checked.2.isSome = true →
    ∀ e ∈ ends, ∀ test ∈ checked.1.closing, stmt.Makes s e.last test

namespace Stmt.Walks

variable {stmt : Stmt} {s s' s₁ : Checker} {checked : Stmt × Option Ty} {ends : List ArmEnd}
  {merged : Option Unit} (walks : stmt.Walks s checked s' ends s₁ merged)
include walks

theorem of : List.Forall₂ (fun source e => e.Of s source) stmt.arms ends ∨
    (ends = [] ∧ checked.2 = none) :=
  walks.ended.imp_left fun each => each.imp fun _ _ ends => ends.of

/-- Each end belongs to an arm in the source. -/
theorem end_source {e : ArmEnd} (member : e ∈ ends) :
    ∃ source ∈ stmt.arms, stmt.Ends s source e := by
  rcases walks.ended with each | ⟨rfl, _⟩
  · exact exists_left_of_forall₂ each member
  · simp at member

theorem source {e : ArmEnd} (member : e ∈ ends) : ∃ source ∈ stmt.arms, e.Of s source := by
  obtain ⟨source, listed, ends⟩ := walks.end_source member
  exact ⟨source, listed, ends.of⟩

/-- The arms of the checked statement are the blocks at the ends, in order. -/
theorem arms (accepted : checked.2.isSome = true) : checked.1.arms = ends.map (·.block) := by
  rw [← checked.1.map_ways, (walks.passed accepted).1, List.map_map]
  rfl

/-- In an accepted statement the arms and the ends match one by one. -/
theorem matched (accepted : checked.2.isSome = true) :
    List.Forall₂ (fun source e => e.Of s source) stmt.arms ends := by
  rcases walks.of with each | ⟨_, failed⟩
  · exact each
  · rw [failed] at accepted
    cases accepted

end Stmt.Walks

namespace Check

variable {s : Checker}

theorem merged_of_isSome {merged : Option Unit} (some_ : merged.isSome = true) :
    merged = some () := by
  obtain ⟨⟨⟩, same⟩ := Option.isSome_iff_exists.mp some_
  exact same

/-- A branching statement walks its arms and merges them; what it hands on is known by where
each arm ended. -/
theorem checkStmt_walks (stmt : Stmt) (branching : stmt.branching = true) :
    Gives (checkStmt stmt) s fun checked s' =>
      ∃ ends s₁ merged, stmt.Walks s checked s' ends s₁ merged := by
  match stmt with
  | .ifElse condition yes none span =>
    rw [checkStmt]
    refine (checkExpr_checks condition).ran.bind
      fun (value, type) s₀ ⟨looked, noted₀, checks⟩ => ?_
    refine (conditionType_isSome type _).ran.bind fun conditionOk s₁ ⟨held, noted₁, isSome⟩ => ?_
    have tested := walkTest_run looked held
    have reached := noted₀.trans noted₁
    refine inBranch_gives (checkBlock_advances yes) (fun _ _ run => run)
      fun (block, ok) s₂ ran noted => ?_
    have walk := walkArm_run [] id (checkBlock_advances yes) ran
    have arm := checkBlock_ends (.ifElse condition yes none span) List.mem_cons_self reached ran
    refine Gives.bind (fun _ _ run => run) fun merged s₃ merges => .pure ?_
    refine ⟨[⟨[], block, ok, s₂⟩], _, merged, ?_, reached.trans noted, .inl (.cons arm .nil),
      merges, rfl, rfl, ?_, ?_, by simp [Stmt.closing]⟩
    · rw [walkArms, bind_ok tested, bind_ok walk]
      rfl
    · intro all
      simp only [isSome_done, Bool.and_eq_true] at all
      exact ⟨rfl, merged_of_isSome all.2, List.forall_mem_singleton.mpr all.1.2⟩
    · intro all
      simp only [isSome_done, Bool.and_eq_true] at all
      exact List.forall_mem_singleton.mpr (.value List.mem_cons_self (checks (isSome all.1.1)))
  | .ifElse condition yes (some no) span =>
    rw [checkStmt]
    refine (checkExpr_checks condition).ran.bind
      fun (value, type) s₀ ⟨looked, noted₀, checks⟩ => ?_
    refine (conditionType_isSome type _).ran.bind fun conditionOk s₁ ⟨held, noted₁, isSome⟩ => ?_
    have tested := walkTest_run looked held
    have reached := noted₀.trans noted₁
    refine inBranch_gives (checkBlock_advances yes) (fun _ _ run => run)
      fun (block, ok) s₂ ran noted => ?_
    have walk := walkArm_run [] id (checkBlock_advances yes) ran
    have arm :=
      checkBlock_ends (.ifElse condition yes (some no) span) List.mem_cons_self reached ran
    replace reached := reached.trans noted
    refine inBranch_gives (checkBlock_advances no) (fun _ _ run => run)
      fun (block', ok') s₃ ran' noted' => ?_
    have walk' := walkArm_run [] id (checkBlock_advances no) ran'
    have arm' := checkBlock_ends (.ifElse condition yes (some no) span)
      (List.mem_cons_of_mem _ List.mem_cons_self) reached ran'
    refine Gives.bind (fun _ _ run => run) fun merged s₄ merges => .pure ?_
    refine ⟨[⟨[], block, ok, s₂⟩, ⟨[], block', ok', s₃⟩], _, merged, ?_, reached.trans noted',
      .inl (.cons arm (.cons arm' .nil)), merges, rfl, rfl, ?_, ?_, by simp [Stmt.closing]⟩
    · rw [walkArms, bind_ok tested, bind_ok walk, bind_ok walk']
      rfl
    · intro all
      simp only [isSome_done, Bool.and_eq_true] at all
      refine ⟨rfl, merged_of_isSome all.2, List.forall_mem_cons.mpr ⟨all.1.1.2, ?_⟩⟩
      exact List.forall_mem_singleton.mpr all.1.2
    · intro all
      simp only [isSome_done, Bool.and_eq_true] at all
      exact List.forall_mem_singleton.mpr (.value List.mem_cons_self (checks (isSome all.1.1.1)))
  | .whileLoop condition body span =>
    rw [checkStmt]
    refine (checkExpr_checks condition).ran.bind
      fun (value, type) s₀ ⟨looked, noted₀, checks⟩ => ?_
    refine (conditionType_isSome type _).ran.bind fun conditionOk s₁ ⟨held, noted₁, isSome⟩ => ?_
    have tested := walkTest_run looked held
    have reached := noted₀.trans noted₁
    refine inBranch_gives (checkBlock_advances body) (fun _ _ run => run)
      fun (block, ok) s₂ ran noted => ?_
    have walk := walkArm_run [] id (checkBlock_advances body) ran
    have arm := checkBlock_ends (.whileLoop condition body span) List.mem_cons_self reached ran
    refine Gives.bind (fun _ _ run => run) fun merged s₃ merges => .pure ?_
    refine ⟨[⟨[], block, ok, s₂⟩], _, merged, ?_, reached.trans noted, .inl (.cons arm .nil),
      merges, rfl, rfl, ?_, ?_, by simp [Stmt.closing]⟩
    · rw [walkArms, bind_ok tested, bind_ok walk]
      rfl
    · intro all
      simp only [isSome_done, Bool.and_eq_true] at all
      exact ⟨rfl, merged_of_isSome all.2, List.forall_mem_singleton.mpr all.1.2⟩
    · intro all
      simp only [isSome_done, Bool.and_eq_true] at all
      exact List.forall_mem_singleton.mpr (.value List.mem_cons_self (checks (isSome all.1.1)))
  | .doWhile body condition span =>
    have framed := checkDoBody_advances body condition
    rw [checkStmt_doWhile]
    refine inBranch_gives framed (checkDoBody_ends body condition span).ran
      fun checked s₁ ⟨ran, arm, makes⟩ noted => ?_
    have walk := walkArm_run [] (fun checked => (checked.1.1, checked.1.2 && checked.2.2)) framed
      ran
    refine Gives.bind (fun _ _ run => run) fun merged s₂ merges => .pure ?_
    refine ⟨[⟨[], checked.1.1, checked.1.2 && checked.2.2, s₁⟩], _, merged, ?_, noted,
      .inl (.cons arm .nil), merges, rfl, rfl, ?_, by simp [Stmt.tests], ?_⟩
    · rw [walkArms, bind_ok walk]
      rfl
    · intro all
      rw [isSome_done, Bool.and_eq_true] at all
      exact ⟨rfl, merged_of_isSome all.2, List.forall_mem_singleton.mpr all.1⟩
    · intro all
      rw [isSome_done, Bool.and_eq_true] at all
      refine List.forall_mem_singleton.mpr (List.forall_mem_singleton.mpr ?_)
      exact makes all.1
  | .switch subject cases none span =>
    rw [checkStmt]
    refine (checkExpr_checks subject).ran.bind
      fun (value, type) s₁ ⟨looked, reached, checks⟩ => ?_
    cases type with
    | none =>
      refine .pure ⟨[], s₁, some (), ?_, reached, .inr ⟨rfl, rfl⟩, rfl, rfl, rfl, nofun, nofun,
        nofun⟩
      rw [walkArms, bind_ok looked]
      rfl
    | some type =>
      refine (checkCases_walks none span looked (.refl s₁) (List.Subset.refl cases)).bind
        fun (cases', arms, ok) s₂ ⟨ends, walked, noted, same, ways, each, passed⟩ => ?_
      obtain rfl : arms = _ := same
      refine Gives.bind (fun _ _ run => run) fun merged s₃ merges => .pure ?_
      refine ⟨ends, s₂, merged, ?_, reached.trans noted, .inl ?_, merges, rfl, rfl, ?_, ?_,
        by simp [Stmt.closing]⟩
      · rw [walkArms, bind_ok looked]
        exact walked
      · rw [Stmt.arms, Option.toList_none, List.append_nil]
        exact List.forall₂_map_left_iff.mpr each
      · intro all
        rw [isSome_done, Bool.and_eq_true] at all
        refine ⟨?_, merged_of_isSome all.2, (passed all.1).1⟩
        rw [Stmt.ways, ← ways]
        simp
      · intro all
        rw [isSome_done, Bool.and_eq_true] at all
        refine List.forall_mem_cons.mpr ⟨.value List.mem_cons_self (checks rfl), fun e tried => ?_⟩
        obtain ⟨c, listed, part⟩ := List.mem_flatMap.mp tried
        exact (passed all.1).2 c listed e part
  | .switch subject cases (some otherwise) span =>
    rw [checkStmt]
    refine (checkExpr_checks subject).ran.bind
      fun (value, type) s₁ ⟨looked, reached, checks⟩ => ?_
    cases type with
    | none =>
      refine .pure ⟨[], s₁, some (), ?_, reached, .inr ⟨rfl, rfl⟩, rfl, rfl, rfl, nofun, nofun,
        nofun⟩
      rw [walkArms, bind_ok looked]
      rfl
    | some type =>
      refine (checkCases_walks (some otherwise) span looked (.refl s₁)
        (List.Subset.refl cases)).bind
        fun (cases', arms, ok) s₂ ⟨ends, walked, noted, same, ways, each, passed⟩ => ?_
      obtain rfl : arms = _ := same
      refine inBranch_gives (checkBlock_advances otherwise) (fun _ _ run => run)
        fun (block, ok') s₃ ran noted' => ?_
      have walk := walkArm_run [] id (checkBlock_advances otherwise) ran
      have arm := checkBlock_ends (.switch subject cases (some otherwise) span)
        List.mem_cons_self (reached.trans noted) ran
      refine Gives.bind (fun _ _ run => run) fun merged s₄ merges => .pure ?_
      refine ⟨ends ++ [⟨[], block, ok', s₃⟩], _, merged, ?_, (reached.trans noted).trans noted',
        .inl ?_, ?_, rfl, rfl, ?_, ?_, by simp [Stmt.closing]⟩
      · rw [walkArms, bind_ok looked]
        exact (bind_ok walked).trans (bind_ok walk)
      · rw [Stmt.arms, Option.toList_some]
        exact List.rel_append (List.forall₂_map_left_iff.mpr each) (.cons arm .nil)
      · rw [List.map_append]
        exact merges
      · intro all
        simp only [isSome_done, Bool.and_eq_true] at all
        refine ⟨?_, merged_of_isSome all.2, List.forall_mem_append.mpr ⟨(passed all.1.1).1, ?_⟩⟩
        · rw [Stmt.ways, List.map_append, ← ways]
          rfl
        · exact List.forall_mem_singleton.mpr all.1.2
      · intro all
        simp only [isSome_done, Bool.and_eq_true] at all
        refine List.forall_mem_cons.mpr ⟨.value List.mem_cons_self (checks rfl), fun e tried => ?_⟩
        obtain ⟨c, listed, part⟩ := List.mem_flatMap.mp tried
        exact (passed all.1.1).2 c listed e part

/-! ## Statements without arms -/

/-- The steps that ran when a statement without arms was checked, the statement that they gave,
and the checker that they led to. -/
inductive PlainOutcome (s : Checker) : Stmt → Stmt × Option Ty → Checker → Prop where
  | expr {value value' : Expr} {type : Option Ty} {span : Span} {s' : Checker}
      (looked : checkExpr value s = .ok ((value', type), s')) :
      PlainOutcome s (.expr value span) (.expr value' span, type) s'
  | defined {names : List String} {value value' : Expr} {type : Ty} {constant : Bool} {span : Span}
      {bound : Option Ty} {s₁ s' : Checker}
      (looked : checkExpr value s = .ok ((value', some type), s₁))
      (stored : defineNames names type constant span s₁ = .ok (bound, s')) :
      PlainOutcome s (.define names value constant span)
        (.define names value' constant span, bound) s'
  | undefined {names : List String} {value value' : Expr} {constant : Bool} {span : Span}
      {s₁ s' : Checker} (looked : checkExpr value s = .ok ((value', none), s₁))
      (marked : defineAllUnresolved names span s₁ = .ok (⟨⟩, s')) :
      PlainOutcome s (.define names value constant span) (.define names value' constant span, none)
        s'
  | announced {name : String} {term : TypeTerm} {type : Ty} {constant : Bool} {span : Span}
      {bound : Option Unit} {s₁ s' : Checker} (found : resolveTerm term s = .ok (some type, s₁))
      (stored : define name type .never constant span s₁ = .ok (bound, s')) :
      PlainOutcome s (.declare name term none constant span)
        (.declare name term none constant span, bound.map fun _ => type) s'
  | unannounced {name : String} {term : TypeTerm} {constant : Bool} {span : Span}
      {s₁ s' : Checker} (found : resolveTerm term s = .ok (none, s₁))
      (marked : defineUnresolved name span s₁ = .ok (⟨⟩, s')) :
      PlainOutcome s (.declare name term none constant span)
        (.declare name term none constant span, none) s'
  | declared {name : String} {term : TypeTerm} {value value' : Expr} {type received : Ty}
      {constant : Bool} {span : Span} {fits bound : Option Unit} {s₁ s₂ s₃ s' : Checker}
      (found : resolveTerm term s = .ok (some type, s₁))
      (looked : checkExpr value s₁ = .ok ((value', some received), s₂))
      (compared : expectType received type value'.span s₂ = .ok (fits, s₃))
      (stored : define name type .always constant span s₃ = .ok (bound, s')) :
      PlainOutcome s (.declare name term (some value) constant span)
        (.declare name term (some value') constant span,
          if bound.isSome && fits.isSome then some type else none) s'
  /-- The value has no type, but the name has the type that it was declared with. -/
  | valueless {name : String} {term : TypeTerm} {value value' : Expr} {type : Ty}
      {constant : Bool} {span : Span} {bound : Option Unit} {s₁ s₂ s' : Checker}
      (found : resolveTerm term s = .ok (some type, s₁))
      (looked : checkExpr value s₁ = .ok ((value', none), s₂))
      (stored : define name type .always constant span s₂ = .ok (bound, s')) :
      PlainOutcome s (.declare name term (some value) constant span)
        (.declare name term (some value') constant span, none) s'
  | undeclared {name : String} {term : TypeTerm} {value value' : Expr} {received : Option Ty}
      {constant : Bool} {span : Span} {s₁ s₂ s' : Checker}
      (found : resolveTerm term s = .ok (none, s₁))
      (looked : checkExpr value s₁ = .ok ((value', received), s₂))
      (marked : defineUnresolved name span s₂ = .ok (⟨⟩, s')) :
      PlainOutcome s (.declare name term (some value) constant span)
        (.declare name term (some value') constant span, none) s'
  | classDecl {decl : ClassDecl} {span : Span} {type : Option Ty} {s' : Checker}
      (declared : declareClass decl span s = .ok (type, s')) :
      PlainOutcome s (.classDecl decl span) (.classDecl decl span, type) s'
  | methods {name : String} {body : Block} {span : Span} (problem : Problem) :
      PlainOutcome s (.methods name body span) (.methods name body span, none)
        (s.addDiagnostic (.error problem span))
  | returnedNone {span : Span} {left : Option Unit} {s' : Checker}
      (recorded : recordReturn .noneType span s = .ok (left, s')) :
      PlainOutcome s (.return none span) (.return none span, left.map fun _ => .noneType) s'
  | returned {value value' : Expr} {type : Ty} {span : Span} {left : Option Unit}
      {s₁ s' : Checker} (looked : checkExpr value s = .ok ((value', some type), s₁))
      (recorded : recordReturn type span s₁ = .ok (left, s')) :
      PlainOutcome s (.return (some value) span)
        (.return (some value') span, left.map fun _ => type) s'
  | unreturned {value value' : Expr} {span : Span} {s' : Checker}
      (looked : checkExpr value s = .ok ((value', none), s')) :
      PlainOutcome s (.return (some value) span) (.return (some value') span, none) s'

/-- A statement without arms ends as its values and the names it assigns say. -/
theorem checkStmt_plain {stmt : Stmt} (plain : stmt.branching = false) :
    Gives (checkStmt stmt) s (PlainOutcome s stmt) := by
  match stmt with
  | .expr value span =>
    rw [checkStmt]
    refine Gives.bind (fun _ _ run => run) fun (value', type) s₁ looked => ?_
    exact .pure (.expr looked)
  | .define names value constant span =>
    rw [checkStmt]
    refine Gives.bind (fun _ _ run => run) ?_
    rintro ⟨value', type⟩ s₁ looked
    cases type with
    | none =>
      refine Gives.bind (fun _ _ run => run) fun _ s₂ marked => ?_
      exact .pure (.undefined looked marked)
    | some type =>
      refine Gives.bind (fun _ _ run => run) fun bound s₂ stored => ?_
      exact .pure (.defined looked stored)
  | .declare name term none constant span =>
    rw [checkStmt]
    refine Gives.bind (fun _ _ run => run) fun type s₁ found => ?_
    cases type with
    | none =>
      refine Gives.bind (fun _ _ run => run) fun _ s₂ marked => ?_
      exact .pure (.unannounced found marked)
    | some type =>
      refine Gives.bind (fun _ _ run => run) fun bound s₂ stored => ?_
      cases bound <;> exact .pure (.announced found stored)
  | .declare name term (some value) constant span =>
    rw [checkStmt]
    refine Gives.bind (fun _ _ run => run) fun type s₁ found => ?_
    refine Gives.bind (fun _ _ run => run) ?_
    rintro ⟨value', received⟩ s₂ looked
    cases type with
    | none =>
      refine Gives.bind (fun _ _ run => run) fun _ s₃ marked => ?_
      exact .pure (.undeclared found looked marked)
    | some type =>
      cases received with
      | none =>
        refine .after_pure (Gives.bind (fun _ _ run => run) fun bound s₃ stored => ?_)
        cases bound <;> exact .pure (.valueless found looked stored)
      | some received =>
        refine Gives.bind (fun _ _ run => run) fun fits s₃ compared => ?_
        refine Gives.bind (fun _ _ run => run) fun bound s₄ stored => ?_
        cases bound <;> cases fits <;> exact .pure (.declared found looked compared stored)
  | .classDecl decl span =>
    rw [checkStmt]
    refine Gives.bind (fun _ _ run => run) fun type s₁ declared => ?_
    exact .pure (.classDecl declared)
  | .methods name body span =>
    rw [checkStmt]
    exact .after_fail (.pure (.methods _))
  | .return none span =>
    rw [checkStmt]
    refine Gives.bind (fun _ _ run => run) fun left s₁ recorded => ?_
    exact .pure (.returnedNone recorded)
  | .return (some value) span =>
    rw [checkStmt]
    refine Gives.bind (fun _ _ run => run) ?_
    rintro ⟨value', type⟩ s₁ looked
    cases type with
    | none => exact .pure (.unreturned looked)
    | some type =>
      refine Gives.bind (fun _ _ run => run) fun left s₂ recorded => ?_
      exact .pure (.returned looked recorded)

/-- What a statement without arms evaluates, it evaluates where it stands. -/
theorem PlainOutcome.makes {stmt : Stmt} {checked : Stmt × Option Ty} {s' : Checker}
    (outcome : PlainOutcome s stmt checked s') (accepted : checked.2.isSome = true) :
    ∀ e ∈ checked.1.values, stmt.Makes s s e := by
  have single {stmt : Stmt} {value value' : Expr} {type : Ty} {s₁ s₂ : Checker}
      (listed : value ∈ stmt.values) (noted : s.Noted s₁)
      (ran : checkExpr value s₁ = .ok ((value', some type), s₂)) :
      ∀ e ∈ [value'], stmt.Makes s s e :=
    List.forall_mem_singleton.mpr (.value listed ⟨s₁, type, s₂, noted, ran⟩)
  cases outcome with
  | expr looked =>
    obtain ⟨type, rfl⟩ := Option.isSome_iff_exists.mp accepted
    exact single List.mem_cons_self (.refl s) looked
  | defined looked => exact single List.mem_cons_self (.refl s) looked
  | declared found looked =>
    exact single List.mem_cons_self (scoping.resolveTerm trivial _ _ _ found) looked
  | returned looked => exact single List.mem_cons_self (.refl s) looked
  | announced | classDecl | returnedNone => exact fun _ listed => nomatch listed
  | undefined | unannounced | valueless | undeclared | methods | unreturned => cases accepted

end Check

end ShapeLang
