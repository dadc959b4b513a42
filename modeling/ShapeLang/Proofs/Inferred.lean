import ShapeLang.Proofs.Returns

/-!
# What a function returns

A function that does not declare what it returns gets a type that covers the returns that
count. The type of each of these leads to that of the function over types each of which
stands for the next; where fitting is transitive and the types hold no tuples, it stands
for it. What a return that does not count gives has no part in the type.
-/

namespace ShapeLang

section

variable {P : Ty → Prop} {R : Ty → Ty → Prop}

/-- What was returned on every path before and after some code with these returns. -/
structure Accounts (P : Ty → Prop) (R : Ty → Ty → Prop) (before : Option Ty)
    (values : List (Option Expr)) (after : Option Ty) : Prop where
  ordinary : ∀ type ∈ after, P type
  kept : ∀ type ∈ before, ∃ later ∈ after, R type later
  covered : ∀ value ∈ values, ∃ type, returnType value = some type ∧ P type ∧
    ∃ later ∈ after, R type later
  idle : values = [] → after = before

/-- Where nothing was returned before, something is after if some return counts. -/
theorem Accounts.isSome_iff {values : List (Option Expr)} {after : Option Ty}
    (accounts : Accounts P R none values after) : after.isSome = true ↔ values ≠ [] := by
  constructor
  · intro returned empty
    rw [accounts.idle empty] at returned
    cases returned
  · intro nonempty
    obtain ⟨value, member⟩ := List.exists_mem_of_ne_nil values nonempty
    obtain ⟨_, _, _, later, returned, _⟩ := accounts.covered value member
    exact Option.isSome_of_mem returned

/-- The returns have types with the property `P`, provided that these mention known classes
only. -/
def Fair (P : Ty → Prop) (n : Nat) (values : List (Option Expr)) : Prop :=
  ∀ value ∈ values, ∀ type, returnType value = some type → type.Known n → P type

theorem Fair.of_subset {n : Nat} {values more : List (Option Expr)} (fair : Fair P n more)
    (part : ∀ value ∈ values, value ∈ more) : Fair P n values :=
  fun value member => fair value (part value member)

/-- What was returned is accounted for, if all there is to account for has the property. -/
def Accountable (P : Ty → Prop) (R : Ty → Ty → Prop) (n : Nat) (before : Option Ty)
    (values : List (Option Expr)) (after : Option Ty) : Prop :=
  Fair P n values → (∀ type ∈ before, P type) → Accounts P R before values after

variable {t : ClassTable} (rising : t.Rising P R)
include rising

theorem Accounts.none {before : Option Ty} (ordinary : ∀ type ∈ before, P type) :
    Accounts P R before [] before where
  ordinary := ordinary
  kept type member := ⟨type, member, rising.refl (ordinary type member)⟩
  covered := by simp
  idle _ := rfl

theorem Accounts.append {before middle after : Option Ty} {values more : List (Option Expr)}
    (ordinary : ∀ type ∈ before, P type) (first : Accounts P R before values middle)
    (second : Accounts P R middle more after) : Accounts P R before (values ++ more) after := by
  -- what was covered in the middle is covered at the end
  have later (type : Ty) (plain : P type) (covered : ∃ mid ∈ middle, R type mid) :
      ∃ last ∈ after, R type last := by
    obtain ⟨mid, member, up⟩ := covered
    obtain ⟨last, member', up'⟩ := second.kept mid member
    have plain' := first.ordinary mid member
    exact ⟨last, member', rising.trans plain plain' (second.ordinary last member') up up'⟩
  refine ⟨second.ordinary, fun type member => ?_, fun value member => ?_, fun empty => ?_⟩
  · exact later type (ordinary type member) (first.kept type member)
  · rcases List.mem_append.mp member with early | late
    · obtain ⟨type, typed, plain, covered⟩ := first.covered value early
      exact ⟨type, typed, plain, later type plain covered⟩
    · exact second.covered value late
  · obtain ⟨none, none'⟩ := List.append_eq_nil_iff.mp empty
    exact (second.idle none').trans (first.idle none)

/-- One more value is returned. -/
theorem Accounts.single {before : Option Ty} {value : Option Expr} {type returned : Ty}
    (ordinary : ∀ type ∈ before, P type) (typed : returnType value = some type) (plain : P type)
    (joined : (before = Option.none ∧ returned = type) ∨
      ∃ previous, before = some previous ∧ t.join previous type = .ok (.ok returned)) :
    Accounts P R before [value] (some returned) := by
  rcases joined with ⟨rfl, rfl⟩ | ⟨previous, rfl, joined⟩
  · refine ⟨by simpa using plain, by simp, ?_, by simp⟩
    exact List.forall_mem_singleton.mpr ⟨_, typed, plain, _, rfl, rising.refl plain⟩
  · obtain ⟨above, left, right⟩ := rising.join (ordinary previous rfl) plain joined
    refine ⟨by simpa using above, by simpa using left, ?_, by simp⟩
    exact List.forall_mem_singleton.mpr ⟨_, typed, plain, _, rfl, right⟩

end

namespace Check

variable {P : Ty → Prop} {R : Ty → Ty → Prop} {t : ClassTable}

/-- In the body of a function that does not declare what it returns. -/
structure Infers (t : ClassTable) (s : Checker) : Prop where
  classes : s.classes = t
  sound : s.Sound t.classes.length
  inside : s.atRoot = false
  open_ : s.declaredReturn? = some none

theorem declaredReturn?_of_advanced {s s' : Checker} (advanced : s.Advanced s') :
    s'.declaredReturn? = s.declaredReturn? := by
  unfold Checker.declaredReturn?
  rw [List.findSome?_cons, List.findSome?_cons, advanced.kind, advanced.outer]

/-- The body of a function goes on inferring from statement to statement. -/
theorem Infers.advanced {s s' : Checker} (infers : Infers t s) (advanced : s.Advanced s')
    (sound : s'.Sound t.classes.length) : Infers t s' where
  classes := (advanced.classes infers.inside).trans infers.classes
  sound := sound
  inside := advanced.atRoot.trans infers.inside
  open_ := (declaredReturn?_of_advanced advanced).trans infers.open_

theorem Infers.noted {s s' : Checker} (infers : Infers t s) (noted : s.Noted s') : Infers t s' :=
  infers.advanced (.of_noted noted) (infers.sound.noted noted)

theorem Infers.enterBranch {s : Checker} (infers : Infers t s) : Infers t (s.enter .branch) :=
  ⟨infers.classes, infers.sound.enterBranch, rfl, infers.open_⟩

/-- Further statements start where the same holds. -/
theorem Infers.next {α : Type} {m : Check α} {s s' : Checker} {a : α} (infers : Infers t s)
    (framed : Advances m) (proceeds : Proceeds True t.classes.length m) (ran : m s = .ok (a, s')) :
    Infers t s' :=
  infers.advanced (framed s _ _ ran) (proceeds.of_inside framed infers.sound infers.inside ran)

section

variable (rising : t.Rising P R)
include rising

/-- A return joins its type to what was returned before, so it is accounted for. -/
theorem recordReturn_accounts {s : Checker} (infers : Infers t s) (value : Option Expr) {type : Ty}
    (typed : returnType value = some type) (known : type.Known t.classes.length) (span : Span) :
    Gives (recordReturn type span) s fun recorded s' => recorded.isSome = true →
      Accountable P R t.classes.length s.frame.returns [value] s'.frame.returns := by
  refine (recordReturn_outcome type span).imp fun recorded s' outcome accepted fair ordinary => ?_
  cases outcome with
  | refused => cases accepted
  | recorded declared function _ returned joined =>
    rw [infers.open_] at function
    cases function
    rw [infers.classes] at joined
    have plain := fair value (List.mem_singleton_self value) type typed known
    exact Accounts.single rising ordinary typed plain joined

/-- What the arms return is joined to what was returned before. -/
theorem mergeReturns_above {s : Checker} (same : s.classes = t) (span : Span)
    {returned : Option Ty} {types : List Ty} (start : ∀ type ∈ returned, P type)
    (each : ∀ type ∈ types, P type) :
    Gives (mergeReturns span returned types) s fun result _ => result.1 = true →
      (∀ type ∈ result.2, P type) ∧
        ∀ type, type ∈ returned ∨ type ∈ types → ∃ later ∈ result.2, R type later := by
  induction types generalizing returned s with
  | nil =>
    refine .pure fun _ => ⟨start, fun type given => ?_⟩
    have member : type ∈ returned := by simpa using given
    exact ⟨type, member, rising.refl (start type member)⟩
  | cons type types ih =>
    obtain ⟨first, others⟩ := List.forall_mem_cons.mp each
    cases returned with
    | none =>
      rw [mergeReturns]
      refine (ih same (by simpa using first) others).imp fun result _ merged joined => ?_
      obtain ⟨plain, above⟩ := merged joined
      exact ⟨plain, fun other given => above other (by simpa [eq_comm] using given)⟩
    | some previous =>
      rw [mergeReturns]
      refine .after_get (.after_lift fun joined ran => ?_)
      cases joined with
      | error reason =>
        refine Gives.any.bind fun _ _ _ => Gives.any.bind fun (_, _) _ _ => ?_
        exact .pure nofun
      | ok merged =>
        rw [same] at ran
        obtain ⟨plain, left, right⟩ := rising.join (start previous rfl) first ran
        refine (ih same (by simpa using plain) others).imp fun result _ later joined => ?_
        obtain ⟨plain', above⟩ := later joined
        refine ⟨plain', fun other given => ?_⟩
        obtain ⟨last, member, up⟩ := above merged (.inl rfl)
        have high := plain' last member
        rcases given with same' | given
        · cases same'
          exact ⟨last, member, rising.trans (start _ rfl) plain high left up⟩
        · rcases List.mem_cons.mp given with rfl | given
          · exact ⟨last, member, rising.trans first plain high right up⟩
          · exact above other (.inr given)

/-- Where nothing counts and nothing was returned, there is nothing to account for. -/
theorem accountable_none {before after : Option Ty} {values : List (Option Expr)}
    (silent : values = []) (same : after = before) :
    Accountable P R t.classes.length before values after := by
  subst silent same
  exact fun _ ordinary => Accounts.none rising ordinary

/-- Statements without arms. -/
theorem PlainOutcome.accounts {stmt : Stmt} {checked : Stmt × Option Ty} {s s' : Checker}
    (outcome : PlainOutcome s stmt checked s') (infers : Infers t s)
    (accepted : checked.2.isSome = true) :
    Accountable P R t.classes.length s.frame.returns (checked.1.gather countArms)
      s'.frame.returns := by
  have rebound := outcome.rebound
  cases outcome with
  | @classDecl decl span _ _ declared =>
    -- in a function no class is declared
    have refused : Gives (declareClass decl span) s fun result _ => result = none := by
      refine .of_run (declareClass_inside decl span infers.inside) ?_
      exact Gives.any.bind fun _ _ _ => .after_modify (.pure rfl)
    cases refused _ _ declared
    cases accepted
  | returnedNone recorded =>
    rw [Stmt.gather]
    exact recordReturn_accounts rising infers none rfl Ty.over_noneType _ _ _ recorded
      (by simpa using accepted)
  | @returned value value' _ _ _ _ _ looked recorded =>
    have filled := checkExpr_note value s _ _ looked
    have noted := checkExpr_notes value s _ _ looked
    have delivered := checkExpr_delivers t.classes.length value s infers.sound
    have known := (delivered.of_ran looked).2 _ rfl
    rw [Stmt.gather, ← noted.frame]
    exact recordReturn_accounts rising (infers.noted noted) (some value') filled known _ _ _
      recorded (by simpa using accepted)
  | unreturned => cases accepted
  | _ => exact accountable_none rising (by rw [Stmt.gather]) (rebound rfl).returns

omit rising in
/-- What an arm returns is accounted for at its end, if that of its block is. -/
theorem arm_accounts {s : Checker} (infers : Infers t s) {e : ArmEnd} {source : Block}
    (of : e.Of s source) (passed : e.ok = true)
    (inside : ∀ start, Infers t start → Gives (checkBlock source) start fun checked mid =>
      checked.2 = true → Accountable P R t.classes.length start.frame.returns checked.1.counted
        mid.frame.returns) :
    Accountable P R t.classes.length none e.block.counted e.last.frame.returns := by
  obtain ⟨base, start, mid, ok, ran⟩ := of
  have opened : Infers t start :=
    (infers.noted ran.reached).enterBranch.advanced ran.opened.advanced (ran.sound _ infers.sound)
  have accounted := inside start opened _ _ ran.ran (ran.passed passed)
  rw [ran.opened.returns, ← ran.noted.frame] at accounted
  exact accounted

/-- The arms are accounted for one by one, and the merge joins what they return. -/
theorem joined_accounts {s s' : Checker} (same : s.classes = t) {span : Span} {ends : List ArmEnd}
    {before after : Option Ty} (ordinary : ∀ type ∈ before, P type) (nonempty : ends ≠ [])
    (counts : ∀ e ∈ ends, e.block.counted ≠ [])
    (accounts : ∀ e ∈ ends, Accounts P R none e.block.counted e.last.frame.returns)
    (ran : mergeReturns span before (ends.filterMap (·.last.frame.returns)) s =
      .ok ((true, after), s')) :
    Accounts P R before (ends.map (·.block.counted)).flatten after := by
  have plain : ∀ type ∈ ends.filterMap (·.last.frame.returns), P type := by
    intro type listed
    obtain ⟨e, member, returned⟩ := List.mem_filterMap.mp listed
    exact (accounts e member).ordinary type returned
  obtain ⟨high, above⟩ := mergeReturns_above rising same span ordinary plain _ _ ran rfl
  constructor
  · exact high
  · exact fun type member => above type (.inl member)
  · intro value listed
    obtain ⟨_, inArms, inArm⟩ := List.mem_flatten.mp listed
    obtain ⟨e, member, rfl⟩ := List.mem_map.mp inArms
    obtain ⟨type, typed, low, mid, returned, up⟩ := (accounts e member).covered value inArm
    obtain ⟨last, final, up'⟩ := above mid (.inr (List.mem_filterMap.mpr ⟨e, member, returned⟩))
    have middle := (accounts e member).ordinary mid returned
    exact ⟨type, typed, low, last, final, rising.trans low middle (high last final) up up'⟩
  · intro empty
    obtain ⟨e, member⟩ := List.exists_mem_of_ne_nil ends nonempty
    have silent := List.flatten_eq_nil_iff.mp empty _ (List.mem_map_of_mem member)
    exact absurd silent (counts e member)

/-- The returns of all arms are accounted for after the merge, if those of each arm are. -/
theorem branching_accounts {stmt : Stmt} {s s' s₁ : Checker} {checked : Stmt × Option Ty}
    {ends : List ArmEnd} {merged : Option Unit} (walks : stmt.Walks s checked s' ends s₁ merged)
    (same : s.classes = t) (accepted : checked.2.isSome = true)
    (each : ∀ e ∈ ends,
      Accountable P R t.classes.length none e.block.counted e.last.frame.returns) :
    Accountable P R t.classes.length s.frame.returns (checked.1.gather countArms)
      s'.frame.returns := by
  have blocks := walks.arms accepted
  obtain ⟨_, rfl, _⟩ := walks.passed accepted
  have gathered : checked.1.gather countArms =
      countArms stmt.exhaustive (ends.map (·.block.counted)) := by
    rw [Stmt.gather_branching countArms walks.branching, walks.exhaustive, blocks, List.map_map]
    rfl
  have grown := arms_grown walks fun source _ => checkBlock_grows source
  obtain ⟨s₂, rebound, outcome⟩ := mergeArms_rebound grown _ _ _ _ walks.merges
  have classes : s₂.classes = t := rebound.classes.trans (walks.noted.classes.trans same)
  have before : s₂.frame.returns = s.frame.returns := by rw [rebound.returns, walks.noted.frame]
  intro fair ordinary
  by_cases sure : stmt.exhaustive = true ∧ ∀ e ∈ ends, e.block.counted ≠ []
  · obtain ⟨total, counts⟩ := sure
    rw [total, countArms_of_all (List.forall_mem_map.mpr counts)] at gathered
    rw [gathered] at fair ⊢
    have accounts (e : ArmEnd) (member : e ∈ ends) :
        Accounts P R none e.block.counted e.last.frame.returns := by
      refine each e member (fair.of_subset fun value inArm => ?_) (by simp)
      exact List.mem_flatten_of_mem (List.mem_map_of_mem member) inArm
    cases outcome with
    | returned _ nonempty _ ran passed =>
      rw [passed rfl, before, List.filterMap_map] at ran
      exact joined_accounts rising classes ordinary (by simpa using nonempty) counts accounts ran
    | silent none =>
      have empty : ends = [] := by
        refine List.map_eq_nil_iff.mp (none total (List.forall_mem_map.mpr fun e member => ?_))
        exact (accounts e member).isSome_iff.mpr (counts e member)
      rw [before, empty]
      exact Accounts.none rising ordinary
  · -- an arm without a return that counts returns nothing, so that the merge leaves all as it was
    rw [countArms_of_not (by simpa using sure)] at gathered
    rw [gathered]
    cases outcome with
    | returned total _ all =>
      refine absurd ⟨total, fun e member silent => ?_⟩ sure
      have accounts := each e member (by simp [Fair, silent]) (by simp)
      exact accounts.isSome_iff.mp (List.forall_mem_map.mp all e member) silent
    | silent =>
      rw [before]
      exact Accounts.none rising ordinary

/-! ## Whole bodies -/

/-- Statements account for their returns one after the other, if each of them does. -/
theorem checkStmts_accounts {stmts : List Stmt}
    (each : ∀ stmt ∈ stmts, ∀ s, Infers t s → Gives (checkStmt stmt) s fun checked s' =>
      checked.2.isSome = true → Accountable P R t.classes.length s.frame.returns
        (checked.1.gather countArms) s'.frame.returns) {s : Checker} (infers : Infers t s) :
    Gives (checkStmts stmts) s fun checked s' => checked.2 = true →
      Accountable P R t.classes.length s.frame.returns (Stmt.gatherAll countArms checked.1)
        s'.frame.returns := by
  induction stmts generalizing s with
  | nil =>
    rw [checkStmts]
    exact .pure fun _ => accountable_none rising (by rw [Stmt.gatherAll]) rfl
  | cons stmt stmts ih =>
    obtain ⟨first, others⟩ := List.forall_mem_cons.mp each
    rw [checkStmts]
    refine (first s infers).ran.bind ?_
    rintro ⟨stmt', type⟩ s₁ ⟨ran, accounted⟩
    have next := infers.next (checkStmt_advances stmt) (checkStmt_proceeds _ stmt) ran
    refine (ih others next).bind ?_
    rintro ⟨stmts', ok⟩ s₂ accounted'
    refine .pure fun all => ?_
    obtain ⟨some_, rest⟩ := Bool.and_eq_true_iff.mp all
    rw [Stmt.gatherAll]
    intro fair ordinary
    have before := accounted some_ (fair.of_subset fun _ => List.mem_append_left _) ordinary
    have after := accounted' rest (fair.of_subset fun _ => List.mem_append_right _) before.ordinary
    exact Accounts.append rising ordinary before after

theorem checkBlock_accounts_of {block : Block}
    (each : ∀ stmt ∈ block.body, ∀ s, Infers t s → Gives (checkStmt stmt) s fun checked s' =>
      checked.2.isSome = true → Accountable P R t.classes.length s.frame.returns
        (checked.1.gather countArms) s'.frame.returns) {s : Checker} (infers : Infers t s) :
    Gives (checkBlock block) s fun checked s' => checked.2 = true →
      Accountable P R t.classes.length s.frame.returns checked.1.counted s'.frame.returns := by
  obtain ⟨body, span⟩ := block
  rw [checkBlock]
  refine (checkStmts_accounts rising each infers).bind fun checked s₁ accounted => .pure ?_
  rw [Block.counted, Block.gather]
  exact accounted

/-- By induction on the arms: a statement accounts for its returns that count. -/
theorem checkStmt_accounts (stmt : Stmt) (s : Checker) (infers : Infers t s) :
    Gives (checkStmt stmt) s fun checked s' => checked.2.isSome = true →
      Accountable P R t.classes.length s.frame.returns (checked.1.gather countArms)
        s'.frame.returns := by
  induction stmt using Stmt.induction generalizing s with
  | step stmt ih =>
    cases branching : stmt.branching with
    | false =>
      exact (checkStmt_plain branching).imp fun _ _ outcome => outcome.accounts rising infers
    | true =>
      refine (checkStmt_walks stmt branching).imp
        fun checked s' ⟨ends, s₁, merged, walks⟩ accepted => ?_
      refine branching_accounts rising walks infers.classes accepted fun e member => ?_
      obtain ⟨source, inArms, of⟩ := walks.source member
      refine arm_accounts infers of ((walks.passed accepted).2.2 e member) fun start opened => ?_
      exact checkBlock_accounts_of rising (ih source inArms) opened

theorem checkBlock_accounts (block : Block) {s : Checker} (infers : Infers t s) :
    Gives (checkBlock block) s fun checked s' => checked.2 = true →
      Accountable P R t.classes.length s.frame.returns checked.1.counted s'.frame.returns :=
  checkBlock_accounts_of rising (fun stmt _ => checkStmt_accounts rising stmt) infers

end

/-- A function that declares no result has the type of its returns, or `none`. -/
theorem functionType_infers (params : List Ty) (returned : Option Ty) (span : Span) (s : Checker) :
    Gives (functionType params none returned span) s fun type _ =>
      type = some (.func [⟨[], params, returned.getD .noneType⟩]) := by
  cases returned <;> exact Gives.any.bind fun _ _ _ => .pure rfl

theorem bound_returns (s : Checker) (params : List Param) (types : List Ty) :
    (bound s params types).frame.returns = s.frame.returns := by
  unfold bound
  induction params.zip types generalizing s with
  | nil => rfl
  | cons p rest ih => exact ih _

/-- The body of a function that declares no result is checked so as to infer it. -/
theorem Infers.enterFunction {s : Checker} (same : s.classes = t) (sound : s.Sound t.classes.length)
    (params : List Param) {types : List Ty} (known : ∀ type ∈ types, type.Known t.classes.length) :
    Infers t (bound (s.enter (.function none)) params types) := by
  have entered : (s.enter (.function none)).Sound t.classes.length := sound.enterFunction (by simp)
  have opened : Infers t (s.enter (.function none)) := ⟨same, entered, rfl, rfl⟩
  exact opened.advanced (.bound _ params types) (entered.bound params known)

/-- The body is checked from where nothing was returned, and gives the type of the function. -/
theorem checkExpr_infers (generics : List String) (params : List Param) (body : Block) (note : Note)
    {s : Checker} (sound : s.Sound s.classes.classes.length) :
    Gives (checkExpr (.function generics params none body note)) s fun checked _ =>
      ∀ type, checked.2 = some type → ∃ types start body' last,
        checked.1 = .function generics params none body' { note with type := some type } ∧
        type = .func [⟨[], types, last.frame.returns.getD .noneType⟩] ∧
        Infers s.classes start ∧ start.frame.returns = none ∧
        checkBlock body start = .ok ((body', true), last) := by
  refine (checkExpr_made generics params none body note).imp fun checked _ made type same => ?_
  obtain ⟨types, declared, before, body', last, whole, made⟩ := made type same
  obtain ⟨s₁, resolved, undeclared⟩ := made.annotated
  cases undeclared
  obtain ⟨sound₁, known⟩ := (resolveTerms_delivers sound_informed _).of_ran sound resolved
  have infers : Infers s.classes (bound (before.enter (.function none)) params types) :=
    .enterFunction made.noted.classes sound₁ params
      fun type listed => (known types rfl type listed).known
  obtain ⟨s₃, typed⟩ := made.typed
  cases functionType_infers types last.frame.returns note.span _ _ _ typed
  exact ⟨types, _, body', last, whole, rfl, infers, bound_returns _ params types, made.ran⟩

end Check

open Check

/-- The type of a function that does not declare what it returns covers the returns that
count. -/
theorem Program.returns_covered {p : Program} {w : Bool} {generics : List String}
    {params : List Param} {body : Block} {note : Note} {s s' : Checker} {checked : Expr} {type : Ty}
    (met : p.Meets w (.expr (.function generics params none body note)) s)
    (ran : checkExpr (.function generics params none body note) s =
      .ok ((checked, some type), s')) :
    ∃ types result body',
      checked = .function generics params none body' { note with type := some type } ∧
      type = .func [⟨[], types, result⟩] ∧
      List.Forall₂ Filled body.returns body'.returns ∧
      List.Forall₂ Filled body.counted body'.counted ∧
      (body'.counted = [] → result = .noneType) ∧
      ∀ value ∈ body'.counted, ∃ returned, returnType value = some returned ∧
        Relation.ReflTransGen (fun a b => s.classes.compare a b = .ok (.ok ())) returned result ∧
        (s.classes.Transitive → (∀ value ∈ body'.counted, ∀ type, returnType value = some type →
            s.classes.comparable type = true) →
          s.classes.compare returned result = .ok (.ok ())) := by
  obtain ⟨types, start, body', last, whole, typed, infers, empty, ran'⟩ :=
    checkExpr_infers generics params body note met.sound _ _ ran type rfl
  have returns := checkBlock_gathers (fun _ _ _ => (List.rel_flatten ·)) body start _ _ ran' rfl
  have counted := checkBlock_gathers countArms_filled body start _ _ ran' rfl
  have chains := checkBlock_accounts (ClassTable.chain_rising fun _ _ fits => fits) body infers _ _
    ran' rfl
  rw [empty] at chains
  have accounts := chains (fun _ _ _ _ _ => trivial) (by simp)
  refine ⟨types, last.frame.returns.getD .noneType, body', whole, typed, returns, counted, ?_, ?_⟩
  · intro silent
    rw [accounts.idle silent]
    rfl
  · intro value member
    obtain ⟨returned, valueType, _, result, final, chain⟩ := accounts.covered value member
    rw [Option.mem_def.mp final, Option.getD_some]
    refine ⟨returned, valueType, chain, fun transitive comparable => ?_⟩
    have ordered := met.sound.coherent.compare_rising transitive
    have single := checkBlock_accounts ordered body infers _ _ ran' rfl
    rw [empty] at single
    have fair : Fair s.classes.Ordinary s.classes.classes.length body'.counted :=
      fun other listed type typed known => ⟨known, comparable other listed type typed⟩
    obtain ⟨_, valueType', _, _, final', fits⟩ := (single fair (by simp)).covered value member
    cases valueType.symm.trans valueType'
    cases (Option.mem_def.mp final).symm.trans final'
    exact fits

/-! ## Functions that do not declare what they return -/

def Expr.body? : Expr → Option Block
  | .function _ _ _ body _ => some body
  | _ => none

def Ty.result? : Ty → Option Ty
  | .func [o] => some o.result
  | _ => none

def Program.evaluates (before : List Stmt) (e : Expr) : Program :=
  ⟨before ++ [.expr e .null], .null⟩

/-- An expression behind other statements is met where these have led to. -/
theorem Program.evaluates_meets {w : Bool} {before : List Stmt} (e : Expr) {s : Checker}
    (reached : Program.reach w before = .ok s) :
    (Program.evaluates before e).Meets w (.expr e) s := by
  have met : (Program.evaluates before e).Meets w (.stmt (.expr e .null)) s :=
    .first (.of_reach rfl reached)
  exact met.value List.mem_cons_self

/-- A class with a field `f` of each of the classes. -/
def Stmt.declares (name : String) (fields : List String) : Stmt :=
  let field (class_ : String) : FieldGroup := ⟨["f"], .named class_ [] .null, .null⟩
  .classDecl ⟨name, [], [], [], fields.map field⟩ .null

def Stmt.gives (name : String) : Stmt := .return (some (.symbol name ⟨.null, none, none⟩)) .null

def Expr.takes (params : List (String × String)) (body : List Stmt) : Expr :=
  .function [] (params.map fun p => ⟨p.1, .named p.2 [] .null⟩) none ⟨body, .null⟩
    ⟨.null, none, none⟩

/-- The class `B` fits `A`. The function returns instances of both. -/
def Expr.returnsInArms : Expr :=
  .takes [("c", "bool"), ("a", "A"), ("b", "B")]
    [.ifElse (.symbol "c" ⟨.null, none, none⟩) ⟨[.gives "a"], .null⟩
      (some ⟨[.switch (.literal (.int 1) ⟨.null, none, none⟩)
        [⟨.type "x" (.named "int" [] .null), ⟨[.gives "b"], .null⟩, .null⟩]
        (some ⟨[.gives "a"], .null⟩) .null], .null⟩) .null]

/-- All three returns count, and their types stand for that of the function. -/
theorem Program.returns_covered_inArms : ∃ s s' checked type body result,
    (Program.evaluates [.declares "A" [], .declares "B" ["A"]] .returnsInArms).Meets false
      (.expr .returnsInArms) s ∧
    checkExpr .returnsInArms s = .ok ((checked, some type), s') ∧ checked.body? = some body ∧
    type.result? = some result ∧ body.counted.length = 3 ∧
    ∀ value ∈ body.counted, ∃ returned, returnType value = some returned ∧
      s.classes.compare returned result = .ok (.ok ()) := by
  obtain ⟨s, reached, computed⟩ := Program.reach_of_any false
    [.declares "A" [], .declares "B" ["A"]] (fun s => decide s.classes.Transitive &&
      (checkExpr .returnsInArms s).toOption.any fun r => r.1.2.isSome &&
        r.1.1.body?.any fun body => body.counted.length == 3 &&
          body.counted.all fun value => (returnType value).all s.classes.comparable)
    (by decide +kernel)
  have met := Program.evaluates_meets .returnsInArms reached
  rcases met.expr_ends with ⟨⟨checked, type⟩, s', ran⟩ | overflow
  case inr => simp [overflow, Except.toOption] at computed
  simp only [ran, Except.toOption, Option.any_some, Option.any_eq_true, Bool.and_eq_true,
    decide_eq_true_eq, beq_iff_eq] at computed
  obtain ⟨transitive, accepted, body, same, three, comparable⟩ := computed
  obtain ⟨type, rfl⟩ := Option.isSome_iff_exists.mp accepted
  obtain ⟨types, result, body', rfl, rfl, _, _, _, covered⟩ := Program.returns_covered met ran
  cases same
  refine ⟨s, s', _, _, body, result, met, ran, rfl, rfl, three, fun value member => ?_⟩
  obtain ⟨returned, typed, _, fits⟩ := covered value member
  refine ⟨returned, typed, fits transitive fun other listed type typed' => ?_⟩
  have plain := List.all_eq_true.mp comparable other listed
  rw [typed'] at plain
  exact plain

/-- The function is accepted after the statements, but the type of one of its returns does not
stand for the type that it got. -/
def Program.Uncovered (before : List Stmt) (function : Expr) : Prop :=
  ∃ s s' checked type body result value returned,
    (Program.evaluates before function).Meets false (.expr function) s ∧
    checkExpr function s = .ok ((checked, some type), s') ∧ checked.body? = some body ∧
    type.result? = some result ∧ value ∈ body.returns ∧ returnType value = some returned ∧
    s.classes.compare returned result ≠ .ok (.ok ())

theorem Program.uncovered_of_any {before : List Stmt} {function : Expr}
    (computed : ((Program.reach false before).toOption.any fun s =>
      (checkExpr function s).toOption.any fun r => r.1.2.any fun type => r.1.1.body?.any fun body =>
        type.result?.any fun result => body.returns.any fun value =>
          (returnType value).any fun returned =>
            !(s.classes.compare returned result).toOption.any (·.isOk)) = true) :
    Program.Uncovered before function := by
  obtain ⟨s, reached, computed⟩ := Program.reach_of_any false before _ computed
  have met := Program.evaluates_meets function reached
  rcases met.expr_ends with ⟨⟨checked, type⟩, s', ran⟩ | overflow
  case inr => simp [overflow, Except.toOption] at computed
  simp only [ran, Except.toOption, Option.any_some, Option.any_eq_true, List.any_eq_true]
    at computed
  obtain ⟨type, rfl, body, inside, result, typed, value, member, returned, given, refused⟩ :=
    computed
  refine ⟨s, s', checked, type, body, result, value, returned, met, ran, inside, typed, member,
    given, fun fits => ?_⟩
  rw [fits] at refused
  cases refused

/-- Returns that do not count are not covered: the first of these is in an arm that may not
run. Tuples are not compared at all. And where fitting is not transitive, a return may be
covered by what the next one is covered by: `B` fits `D`, which fits `C`. -/
theorem Program.returns_uncovered :
    Program.Uncovered [] (.takes [("c", "bool")]
      [.ifElse (.symbol "c" ⟨.null, none, none⟩)
        ⟨[.return (some (.literal (.int 1) ⟨.null, none, none⟩)) .null], .null⟩ none .null,
      .return (some (.literal (.string "s") ⟨.null, none, none⟩)) .null]) ∧
    Program.Uncovered [] (.takes [("a", "int")]
      [.return (some (.tuple [.symbol "a" ⟨.null, none, none⟩] ⟨.null, none, none⟩)) .null]) ∧
    Program.Uncovered [.declares "A" [], .declares "C" ["A"], .declares "B" ["B"],
      .declares "D" ["B"]]
      (.takes [("b", "B"), ("d", "D"), ("c", "C")] [.gives "b", .gives "d", .gives "c"]) := by
  refine ⟨Program.uncovered_of_any ?_, Program.uncovered_of_any ?_, Program.uncovered_of_any ?_⟩ <;>
    decide +kernel

end ShapeLang
