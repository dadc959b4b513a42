import ShapeLang.Proofs.Inferred

/-!
# Functions that declare what they return

A function that declares to return something else than none is accepted only if some
return of its body counts. A path that reaches the end of some code has met no return
that counts, so that no path falls out of such a body. What is given to a return, on a
path or not, stands for the declared type.
-/

namespace ShapeLang

/-! ## Paths that fall through -/

def Code.counted : Code → List (Option Expr)
  | .expr _ | .exprs _ => []
  | .stmt inner => inner.gather countArms
  | .stmts body => Stmt.gatherAll countArms body

/-- Where a way leads past the arms, no return in them counts as one on every path. -/
theorem Stmt.counted_of_partial {stmt : Stmt} (branching : stmt.branching = true)
    (unsure : stmt.exhaustive = false) : stmt.gather countArms = [] := by
  rw [Stmt.gather_branching countArms branching]
  exact countArms_of_not (by simp [unsure])

/-- One arm that returns nothing is enough. -/
theorem Stmt.counted_of_arm {stmt : Stmt} (branching : stmt.branching = true) {arm : Block}
    (listed : arm ∈ stmt.arms) (silent : Stmt.gatherAll countArms arm.body = []) :
    stmt.gather countArms = [] := by
  rw [Stmt.gather_branching countArms branching]
  refine countArms_of_not fun sure => sure.2 _ (List.mem_map_of_mem listed) ?_
  obtain ⟨body, span⟩ := arm
  rw [Block.gather]
  exact silent

/-- Where no way leads past the arms and each of them returns, so does the statement. -/
theorem Stmt.counted_of_arms {stmt : Stmt} (branching : stmt.branching = true)
    (sure : stmt.exhaustive = true) (nonempty : stmt.arms ≠ [])
    (counts : ∀ arm ∈ stmt.arms, arm.counted ≠ []) : stmt.gather countArms ≠ [] := by
  have each : ∀ arm ∈ stmt.arms.map (·.gather countArms), arm ≠ [] :=
    List.forall_mem_map.mpr counts
  rw [Stmt.gather_branching countArms branching, sure, countArms_of_all each]
  intro empty
  obtain ⟨arm, listed⟩ := List.exists_mem_of_ne_nil _ nonempty
  exact counts arm listed (List.flatten_eq_nil_iff.mp empty _ (List.mem_map_of_mem listed))

/-- By induction on the path: code that can be walked to its end has no return that counts. -/
theorem Path.counted_of_falls {code : Code} {ρ env : List String} {reads : List Read} {exit : Exit}
    (path : Path code ρ reads env exit) : exit = .falls → code.counted = [] := by
  induction path with
  | eval | called | noExprs | nextExpr => exact fun _ => rfl
  | noStmts =>
    intro _
    rw [Code.counted, Stmt.gatherAll]
  | nextStmt _ _ first rest =>
    intro falls
    rw [Code.counted, Stmt.gatherAll]
    exact List.append_eq_nil_iff.mpr ⟨first rfl, rest falls⟩
  | halt | cut | whileLeft | doLeft | returnNone | returnValue =>
    intro falls
    cases falls
  | value | define | announce | declare | classDecl | methods =>
    intro _
    rw [Code.counted, Stmt.gather]
  | taken chosen _ _ _ run => exact fun falls => Stmt.counted_of_arm rfl chosen (run falls)
  | skipped | whileDone | whileNext | doDone | doNext | unmatched =>
    exact fun _ => Stmt.counted_of_partial rfl rfl
  | case listed _ _ _ _ _ _ run =>
    intro falls
    refine Stmt.counted_of_arm rfl (List.mem_append_left _ ?_) (run falls)
    exact List.mem_map_of_mem listed
  | otherwise _ _ _ _ _ _ run =>
    intro falls
    exact Stmt.counted_of_arm rfl (List.mem_append_right _ List.mem_cons_self) (run falls)

/-- Every return in the statement, in whatever arm. -/
def Stmt.returns (stmt : Stmt) : List (Option Expr) := stmt.gather fun _ arms => arms.flatten

namespace Check

/-! ## What was returned on every path -/

/-- A plain statement that is no return leaves what was returned so far as it is. -/
theorem PlainOutcome.silent {stmt : Stmt} {checked : Stmt × Option Ty} {s s' : Checker}
    (outcome : PlainOutcome s stmt checked s') (inside : s.atRoot = false)
    (none : stmt.gather countArms = []) : s'.frame.returns = s.frame.returns := by
  have rebound := outcome.rebound
  cases outcome with
  | @classDecl decl span _ _ declared =>
    have left : Gives (declareClass decl span) s fun _ s' =>
        s'.frame.returns = s.frame.returns := by
      refine .of_run (declareClass_inside decl span inside) ?_
      refine (defineUnresolved_rebinds _ _ s).bind fun _ s₁ rebound => ?_
      exact .after_modify (.pure rebound.returns)
    exact left _ _ declared
  | returnedNone | returned | unreturned => simp [Stmt.gather] at none
  | _ => exact (rebound rfl).returns

theorem checkStmts_silent {stmts : List Stmt}
    (each : ∀ stmt ∈ stmts, ∀ s, s.atRoot = false → Gives (checkStmt stmt) s fun _ s' =>
      stmt.gather countArms = [] → s'.frame.returns = s.frame.returns) {s : Checker}
    (inside : s.atRoot = false) :
    Gives (checkStmts stmts) s fun _ s' => Stmt.gatherAll countArms stmts = [] →
      s'.frame.returns = s.frame.returns := by
  induction stmts generalizing s with
  | nil =>
    rw [checkStmts]
    exact .pure fun _ => rfl
  | cons stmt stmts ih =>
    obtain ⟨first, others⟩ := List.forall_mem_cons.mp each
    rw [checkStmts]
    refine ((first s inside).and (checkStmt_advances stmt s)).bind ?_
    rintro _ s₁ ⟨before, advanced⟩
    refine (ih others (advanced.atRoot.trans inside)).bind fun _ s₂ after => .pure fun none => ?_
    rw [Stmt.gatherAll] at none
    obtain ⟨none, none'⟩ := List.append_eq_nil_iff.mp none
    exact (after none').trans (before none)

/-- A block with no return that counts leaves what was returned so far as it is, if its
statements do. -/
theorem checkBlock_silent_of {block : Block}
    (each : ∀ stmt ∈ block.body, ∀ s, s.atRoot = false → Gives (checkStmt stmt) s fun _ s' =>
      stmt.gather countArms = [] → s'.frame.returns = s.frame.returns) {s : Checker}
    (inside : s.atRoot = false) :
    Gives (checkBlock block) s fun _ s' => block.counted = [] →
      s'.frame.returns = s.frame.returns := by
  obtain ⟨body, span⟩ := block
  rw [checkBlock]
  refine (checkStmts_silent each inside).bind fun _ s₁ silent => .pure ?_
  rw [Block.counted, Block.gather]
  exact silent

/-- An arm without a return that counts ends without one. -/
theorem arm_silent {s : Checker} {source : Block} {e : ArmEnd} (of : e.Of s source)
    (each : ∀ stmt ∈ source.body, ∀ s, s.atRoot = false → Gives (checkStmt stmt) s fun _ s' =>
      stmt.gather countArms = [] → s'.frame.returns = s.frame.returns)
    (silent : source.counted = []) : e.last.frame.returns = none := by
  obtain ⟨base, start, mid, ok, ran⟩ := of
  have inside : start.atRoot = false := ran.opened.advanced.atRoot
  have same := checkBlock_silent_of each inside _ _ ran.ran silent
  rw [ran.noted.frame, same, ran.opened.returns]
  rfl

/-- Without a return that counts, what was returned on every path stays as it was. -/
theorem checkStmt_silent (stmt : Stmt) (s : Checker) (inside : s.atRoot = false) :
    Gives (checkStmt stmt) s fun _ s' => stmt.gather countArms = [] →
      s'.frame.returns = s.frame.returns := by
  induction stmt using Stmt.induction generalizing s with
  | step stmt ih =>
    cases branching : stmt.branching with
    | false =>
      exact (checkStmt_plain branching).imp fun _ _ outcome => outcome.silent inside
    | true =>
      refine (checkStmt_walks stmt branching).imp
        fun checked s' ⟨ends, s₁, merged, walks⟩ none => ?_
      have grown := arms_grown walks fun source _ => checkBlock_grows source
      obtain ⟨s₂, rebound, outcome⟩ := mergeArms_rebound grown _ _ _ _ walks.merges
      have before : s₂.frame.returns = s.frame.returns := by
        rw [rebound.returns, walks.noted.frame]
      cases outcome with
      | silent => exact before
      | returned sure nonempty all =>
        have each : List.Forall₂ (fun source e => e.Of s source) stmt.arms ends := by
          rcases walks.of with each | ⟨rfl, _⟩
          · exact each
          · exact absurd rfl nonempty
        have some_ : stmt.arms ≠ [] := by
          intro empty
          rw [empty, List.forall₂_nil_left_iff] at each
          exact nonempty (by simp [each])
        -- every arm returns something, so that every arm has a return that counts
        refine absurd none (Stmt.counted_of_arms branching sure some_ ?_)
        intro source inArms silent
        obtain ⟨i, bound, rfl⟩ := List.getElem_of_mem inArms
        have bound' : i < ends.length := each.length_eq ▸ bound
        have nothing := arm_silent (each.get bound bound') (ih _ inArms) silent
        have something := List.forall_mem_map.mp all _ (List.getElem_mem bound')
        rw [List.get_eq_getElem] at nothing
        rw [ArmEnd.arm, nothing] at something
        cases something

/-- A block with no return that counts leaves what was returned so far as it is. -/
theorem checkBlock_silent (block : Block) {s : Checker} (inside : s.atRoot = false) :
    Gives (checkBlock block) s fun _ s' => block.counted = [] →
      s'.frame.returns = s.frame.returns :=
  checkBlock_silent_of (fun stmt _ => checkStmt_silent stmt) inside

/-! ## What is given to the returns -/

/-- In the body of a function that declares the type. -/
structure Promises (t : ClassTable) (declared : Ty) (s : Checker) : Prop where
  classes : s.classes = t
  inside : s.atRoot = false
  promised : s.declaredReturn? = some (some declared)

def Delivered (t : ClassTable) (declared : Ty) (value : Option Expr) : Prop :=
  ∃ returned, returnType value = some returned ∧ t.compare returned declared = .ok (.ok ())

section

variable {t : ClassTable} {declared : Ty}

theorem Promises.advanced {s s' : Checker} (promises : Promises t declared s)
    (advanced : s.Advanced s') : Promises t declared s' where
  classes := (advanced.classes promises.inside).trans promises.classes
  inside := advanced.atRoot.trans promises.inside
  promised := (declaredReturn?_of_advanced advanced).trans promises.promised

theorem Promises.enterBranch {s : Checker} (promises : Promises t declared s) :
    Promises t declared (s.enter .branch) :=
  ⟨promises.classes, rfl, promises.promised⟩

/-- A return is recorded with success only if its type fits the declared one. -/
theorem recordReturn_delivered {s : Checker} (promises : Promises t declared s) (type : Ty)
    (span : Span) :
    Gives (recordReturn type span) s fun recorded _ => recorded.isSome = true →
      t.compare type declared = .ok (.ok ()) := by
  refine (recordReturn_outcome type span).imp fun recorded s' outcome accepted => ?_
  cases outcome with
  | refused => cases accepted
  | recorded _ function fits =>
    rw [promises.promised] at function
    cases function
    rw [promises.classes] at fits
    exact fits declared rfl

/-- A plain statement that is a return returns what the function has declared. -/
theorem PlainOutcome.delivered {stmt : Stmt} {checked : Stmt × Option Ty} {s s' : Checker}
    (outcome : PlainOutcome s stmt checked s') (promises : Promises t declared s)
    (accepted : checked.2.isSome = true) :
    ∀ value ∈ checked.1.returns, Delivered t declared value := by
  cases outcome with
  | returnedNone recorded =>
    rw [Stmt.returns, Stmt.gather]
    have fits := recordReturn_delivered promises .noneType _ _ _ recorded
    exact List.forall_mem_singleton.mpr ⟨_, rfl, fits (by simpa using accepted)⟩
  | returned looked recorded =>
    have typed := checkExpr_note _ s _ _ looked
    have noted := checkExpr_notes _ s _ _ looked
    have fits := recordReturn_delivered (promises.advanced (.of_noted noted)) _ _ _ _ recorded
    rw [Stmt.returns, Stmt.gather]
    exact List.forall_mem_singleton.mpr ⟨_, typed, fits (by simpa using accepted)⟩
  | unreturned => cases accepted
  | _ => simp [Stmt.returns, Stmt.gather]

theorem checkStmts_delivered {stmts : List Stmt}
    (each : ∀ stmt ∈ stmts, ∀ s, Promises t declared s → Gives (checkStmt stmt) s fun checked _ =>
      checked.2.isSome = true →
        ∀ value ∈ checked.1.returns, Delivered t declared value)
    {s : Checker} (promises : Promises t declared s) :
    Gives (checkStmts stmts) s fun checked _ => checked.2 = true →
      ∀ value ∈ Stmt.gatherAll (fun _ arms => arms.flatten) checked.1,
        Delivered t declared value := by
  induction stmts generalizing s with
  | nil =>
    rw [checkStmts]
    refine .pure fun _ => ?_
    rw [Stmt.gatherAll]
    simp
  | cons stmt stmts ih =>
    obtain ⟨first, others⟩ := List.forall_mem_cons.mp each
    rw [checkStmts]
    refine ((first s promises).and (checkStmt_advances stmt s)).bind ?_
    rintro ⟨stmt', type⟩ s₁ ⟨before, advanced⟩
    refine (ih others (promises.advanced advanced)).bind ?_
    rintro ⟨stmts', ok⟩ _ after
    refine .pure fun all => ?_
    obtain ⟨some_, rest⟩ := Bool.and_eq_true_iff.mp all
    rw [Stmt.gatherAll]
    exact List.forall_mem_append.mpr ⟨before some_, after rest⟩

/-- A block returns what the function has declared, if its statements do. -/
theorem checkBlock_delivered_of {block : Block}
    (each : ∀ stmt ∈ block.body, ∀ s, Promises t declared s →
      Gives (checkStmt stmt) s fun checked _ => checked.2.isSome = true →
        ∀ value ∈ checked.1.returns, Delivered t declared value)
    {s : Checker} (promises : Promises t declared s) :
    Gives (checkBlock block) s fun checked _ => checked.2 = true →
      ∀ value ∈ checked.1.returns, Delivered t declared value := by
  obtain ⟨body, span⟩ := block
  rw [checkBlock]
  refine (checkStmts_delivered each promises).bind fun checked _ delivered => .pure ?_
  rw [Block.returns, Block.gather]
  exact delivered

/-- By induction on the arms: wherever in an accepted statement a return stands, its value has
the declared type. -/
theorem checkStmt_delivered (stmt : Stmt) (s : Checker) (promises : Promises t declared s) :
    Gives (checkStmt stmt) s fun checked _ => checked.2.isSome = true →
      ∀ value ∈ checked.1.returns, Delivered t declared value := by
  induction stmt using Stmt.induction generalizing s with
  | step stmt ih =>
    cases branching : stmt.branching with
    | false =>
      exact (checkStmt_plain branching).imp fun _ _ outcome => outcome.delivered promises
    | true =>
      refine (checkStmt_walks stmt branching).imp
        fun checked s' ⟨ends, s₁, merged, walks⟩ accepted => ?_
      obtain ⟨_, _, passed⟩ := walks.passed accepted
      have blocks := walks.arms accepted
      rw [Stmt.returns, Stmt.gather_branching _ walks.branching, blocks, List.map_map]
      intro value listed
      obtain ⟨_, inArms, inArm⟩ := List.mem_flatten.mp listed
      obtain ⟨e, member, rfl⟩ := List.mem_map.mp inArms
      obtain ⟨source, inSource, base, start, mid, ok, ran⟩ := walks.source member
      have opened : Promises t declared start :=
        (promises.advanced (.of_noted ran.reached)).enterBranch.advanced ran.opened.advanced
      exact checkBlock_delivered_of (ih source inSource) opened _ _ ran.ran
        (ran.passed (passed e member)) value inArm

theorem checkBlock_delivered (block : Block) {s : Checker} (promises : Promises t declared s) :
    Gives (checkBlock block) s fun checked _ => checked.2 = true →
      ∀ value ∈ checked.1.returns, Delivered t declared value :=
  checkBlock_delivered_of (fun stmt _ => checkStmt_delivered stmt) promises

end

/-! ## Functions -/

/-- A function with a declared result has that result, and it returns unless it declares `none`. -/
theorem functionType_declared (params : List Ty) (declared : Ty) (returned : Option Ty)
    (span : Span) (s : Checker) :
    Gives (functionType params (some declared) returned span) s fun result _ =>
      ∀ type, result = some type → type = .func [⟨[], params, declared⟩] ∧
        (declared.isNone = false → returned.isSome = true) := by
  unfold functionType
  cases returned with
  | some returned =>
    refine Gives.any.bind fun _ _ _ => .pure ?_
    rintro _ ⟨⟩
    exact ⟨rfl, fun _ => rfl⟩
  | none =>
    simp only
    split
    · rename_i none
      refine Gives.any.bind fun _ _ _ => .pure ?_
      rintro _ ⟨⟩
      exact ⟨rfl, fun other => by simp [none] at other⟩
    · exact .after_modify (.pure nofun)

theorem resolveResult_denotes (term : TypeTerm) {s : Checker} :
    Gives (resolveResult (some term)) s fun result _ => ∀ declared, result = some declared →
      ∃ type, declared = some type ∧ term.lower.resolve s.classes.ids = (type, none) := by
  refine (resolveTerm_denotes term).bind fun result _ denoted => ?_
  cases result with
  | none => exact .pure nofun
  | some type =>
    refine .pure ?_
    rintro _ ⟨⟩
    exact ⟨type, rfl, denoted type rfl⟩

/-- The body is checked from where nothing was returned, with the declared type in mind. -/
theorem checkExpr_declared (generics : List String) (params : List Param) (term : TypeTerm)
    (body : Block) (note : Note) (s : Checker) :
    Gives (checkExpr (.function generics params (some term) body note)) s fun checked _ =>
      ∀ type, checked.2 = some type → ∃ types declared start body' last,
        checked.1 = .function generics params (some term) body' { note with type := some type } ∧
        type = .func [⟨[], types, declared⟩] ∧
        term.lower.resolve s.classes.ids = (declared, none) ∧
        Promises s.classes declared start ∧ start.frame.returns = none ∧
        checkBlock body start = .ok ((body', true), last) ∧
        (declared.isNone = false → last.frame.returns.isSome = true) := by
  refine (checkExpr_made generics params (some term) body note).imp
    fun checked _ made type same => ?_
  obtain ⟨types, result, before, body', last, whole, made⟩ := made type same
  obtain ⟨s₁, taken, promised⟩ := made.annotated
  obtain ⟨declared, rfl, resolved⟩ := resolveResult_denotes term _ _ promised result rfl
  rw [(scoping.resolveTerms (fun _ _ => trivial) s _ _ taken).classes] at resolved
  have entered : Promises s.classes declared (before.enter (.function (some declared))) :=
    ⟨made.noted.classes, rfl, rfl⟩
  have promises := entered.advanced (.bound _ params types)
  obtain ⟨s₃, computed⟩ := made.typed
  obtain ⟨typed, returned⟩ :=
    functionType_declared types declared last.frame.returns note.span _ _ _ computed type rfl
  exact ⟨types, declared, _, body', last, whole, typed, resolved, promises,
    bound_returns _ params types, made.ran, returned⟩

end Check

open Check

/-- A function that is accepted and declares to return something else than none has no path on
which its body is left without a return, and what it is given to return stands for the declared
type, reachable or not. -/
theorem Check.returns_declared {generics : List String} {params : List Param} {term : TypeTerm}
    {body : Block} {note : Note} {s s' : Checker} {checked : Expr} {type : Ty}
    (ran : checkExpr (.function generics params (some term) body note) s =
      .ok ((checked, some type), s')) :
    ∃ types declared body',
      checked = .function generics params (some term) body' { note with type := some type } ∧
      type = .func [⟨[], types, declared⟩] ∧
      term.lower.resolve s.classes.ids = (declared, none) ∧
      (declared.isNone = false →
        ∀ ρ reads env, ¬ Path (.stmts body.body) ρ reads env .falls) ∧
      List.Forall₂ Filled body.returns body'.returns ∧
      ∀ value ∈ body'.returns, ∃ returned, returnType value = some returned ∧
        s.classes.compare returned declared = .ok (.ok ()) := by
  obtain ⟨types, declared, start, body', last, whole, typed, resolved, promises, empty, ran',
    returned⟩ := checkExpr_declared generics params term body note s _ _ ran type rfl
  have returns := checkBlock_gathers (fun _ _ _ => (List.rel_flatten ·)) body start _ _ ran' rfl
  refine ⟨types, declared, body', whole, typed, resolved, fun other ρ reads env path => ?_, returns,
    checkBlock_delivered body promises _ _ ran' rfl⟩
  have silent : body.counted = [] := by
    obtain ⟨stmts, span⟩ := body
    rw [Block.counted, Block.gather]
    exact path.counted_of_falls rfl
  have nothing := checkBlock_silent body promises.inside _ _ ran' silent
  have something := returned other
  rw [nothing, empty] at something
  cases something

/-- Leaves by one of two arms. The loop in the first need not return, but what it gives has to
stand for the declared type as well. -/
def Block.leavesInArms : Block :=
  let condition : Expr := .symbol "c" ⟨.null, none, none⟩
  ⟨[.ifElse condition ⟨[.whileLoop condition ⟨[.gives "b"], .null⟩ .null, .gives "a"], .null⟩
    (some ⟨[.switch condition [⟨.type "x" (.named "bool" [] .null), ⟨[.gives "b"], .null⟩, .null⟩]
      (some ⟨[.gives "a"], .null⟩) .null], .null⟩) .null], .null⟩

/-- A function that declares to return an instance of `A`, which `B` fits. -/
def Expr.leavesInArms : Expr :=
  let param (name class_ : String) : Param := ⟨name, .named class_ [] .null⟩
  .function [] [param "c" "bool", param "a" "A", param "b" "B"] (some (.named "A" [] .null))
    .leavesInArms ⟨.null, none, none⟩

theorem Check.returns_declared_inArms : ∃ s s' checked type body,
    Program.reach false [.declares "A" [], .declares "B" ["A"]] = .ok s ∧
    checkExpr .leavesInArms s = .ok ((checked, some type), s') ∧ checked.body? = some body ∧
    body.returns.length = 4 ∧
    (∀ ρ reads env, ¬ Path (.stmts Block.leavesInArms.body) ρ reads env .falls) ∧
    ∀ value ∈ body.returns, ∃ returned, returnType value = some returned ∧
      s.classes.compare returned (.instanceOf 4 "A") = .ok (.ok ()) := by
  obtain ⟨s, reached, computed⟩ := Program.reach_of_any false
    [.declares "A" [], .declares "B" ["A"]] (fun s => s.classes.ids.find? "A" == some 4 &&
      (checkExpr .leavesInArms s).toOption.any fun r => r.1.2.isSome &&
        r.1.1.body?.any fun body => body.returns.length == 4)
    (by decide +kernel)
  have met := Program.evaluates_meets .leavesInArms reached
  rcases met.expr_ends with ⟨⟨checked, type⟩, s', ran⟩ | overflow
  case inr => simp [overflow, Except.toOption] at computed
  simp only [ran, Except.toOption, Option.any_some, Option.any_eq_true, Bool.and_eq_true,
    beq_iff_eq] at computed
  obtain ⟨class_, accepted, body, same, four⟩ := computed
  obtain ⟨type, rfl⟩ := Option.isSome_iff_exists.mp accepted
  obtain ⟨types, declared, body', rfl, _, resolved, left, _, given⟩ := Check.returns_declared ran
  cases same
  have instance_ : declared = .instanceOf 4 "A" := by
    rw [TypeTerm.lower, TypeTerm.lowerList, Ty.resolve, class_] at resolved
    cases resolved
    rfl
  subst instance_
  exact ⟨s, s', _, type, body, reached, ran, rfl, four, left rfl, given⟩

end ShapeLang
