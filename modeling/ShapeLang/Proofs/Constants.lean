import ShapeLang.Proofs.Survival

/-!
# Constants

A constant that has its value keeps it: every definition and every declaration of the name
is refused, in the frame where the constant is bound and in the branches inside of it.
Operators that store their result do not go through the binding of a name, so that the rule
does not hold them back. A branch of which every arm makes a name constant leaves it constant
if the arms brought the name in, and as it was if it was known before.
-/

namespace ShapeLang

/-- A constant that has its value on all paths. -/
structure Binding.Permanent (b : Binding) : Prop where
  resolved : b.unresolved = false
  constant : b.constant = true
  assigned : b.assigned = .always

/-- The name is bound to a constant that has its value. -/
def Checker.Fixes (s : Checker) (x : String) : Prop := ∃ b, s.lookup? x = some b ∧ b.Permanent

/-- The arm leaves the name bound to a constant that has its value. -/
def Arm.Fixes (arm : Arm) (x : String) : Prop :=
  ∃ b, arm.bindings.find? x = some b ∧ b.Permanent

namespace Checker.Fixes

variable {s s' : Checker} {x : String}

theorem of_lookup (fixes : s.Fixes x) (same : s'.lookup? x = s.lookup? x) : s'.Fixes x := by
  obtain ⟨b, found, permanent⟩ := fixes
  exact ⟨b, same.trans found, permanent⟩

/-- What is known about a constant is not taken back. -/
theorem grown (fixes : s.Fixes x) (grown : s.Grown s') : s'.Fixes x := by
  obtain ⟨b, found, permanent⟩ := fixes
  obtain ⟨b', found', later⟩ := grown x b found permanent.resolved
  refine ⟨b', found', later.resolved, later.constant permanent.constant, ?_⟩
  have rank := later.assigned
  rw [permanent.assigned] at rank
  cases state : b'.assigned with
  | always => rfl
  | sometimes => simp [state, Assigned.rank] at rank
  | never => simp [state, Assigned.rank] at rank

end Checker.Fixes

/-- The names that a definition or a declaration is for; an underscore only discards. -/
def Stmt.targets : Stmt → List String
  | define names _ _ _ => names.filter (· != "_")
  | declare name .. => [name]
  | expr .. | classDecl .. | methods .. | ifElse .. | whileLoop .. | doWhile .. | switch ..
  | .return .. => []

namespace Check

/-- Checking the statements from the first checker comes to a statement with the second one,
in the same frame or in a branch inside of it where no pattern hides the name. -/
inductive ComesTo (x : String) : List Stmt → Checker → Stmt → Checker → Prop where
  | here {stmt : Stmt} {stmts : List Stmt} {s : Checker} : ComesTo x (stmt :: stmts) s stmt s
  | next {stmt inner : Stmt} {stmts : List Stmt} {s s₁ s' : Checker} {result : Stmt × Option Ty}
      (ran : checkStmt stmt s = .ok (result, s₁)) (rest : ComesTo x stmts s₁ inner s') :
      ComesTo x (stmt :: stmts) s inner s'
  | branch {stmt inner : Stmt} {stmts : List Stmt} {block : Block} {s s₁ s' : Checker}
      (listed : block ∈ stmt.branches) (noted : s.Noted s₁)
      (inside : ComesTo x block.body (s₁.enter .branch) inner s') :
      ComesTo x (stmt :: stmts) s inner s'
  | case {subject checked : Expr} {cases : List Case} {otherwise : Option Block} {span : Span}
      {inner : Stmt} {stmts : List Stmt} {c : Case} {type : Ty} {s s₁ s₂ s₃ s' : Checker}
      {result : Pattern × Bool} (listed : c ∈ cases) (shown : x ∉ c.pattern.binds)
      (looked : checkExpr subject s = .ok ((checked, some type), s₁)) (noted : s₁.Noted s₂)
      (matched : checkPattern type c.span c.pattern (s₂.enter .branch) = .ok (result, s₃))
      (inside : ComesTo x c.body.body s₃ inner s') :
      ComesTo x (.switch subject cases otherwise span :: stmts) s inner s'

namespace ComesTo

variable {x : String} {stmts : List Stmt} {stmt : Stmt} {s s' : Checker}

/-- On the way to a statement in the same frame or in a branch, a fixed name stays fixed. -/
theorem fixes (reached : ComesTo x stmts s stmt s') (fixes : s.Fixes x) : s'.Fixes x := by
  induction reached with
  | here => exact fixes
  | next ran _ ih => exact ih (fixes.grown (checkStmt_kept _ _ _ _ ran).grown)
  | branch _ noted _ ih => exact ih (fixes.of_lookup (noted.lookup? x))
  | case _ shown looked noted matched _ ih =>
    have subject := (checkExpr_notes _ _ _ _ looked).trans noted
    have opened := (checkPattern_opened _ _ _ _ _ matched).2.1
    exact ih (fixes.of_lookup ((opened.others x shown).trans (subject.lookup? x)))

theorem sound (reached : ComesTo x stmts s stmt s') (sound : s.Sound s.classes.classes.length) :
    s'.Sound s'.classes.classes.length := by
  induction reached with
  | here => exact sound
  | next ran _ ih => exact ih ((checkStmt_proceeds _ _).of_ran sound ran)
  | branch _ noted _ ih =>
    have later := noted.classes ▸ sound.noted noted
    exact ih later.enterBranch
  | case _ _ looked noted matched _ ih =>
    obtain ⟨sound', known⟩ := (checkExpr_delivers _ _).of_ran sound looked
    have entered := (sound'.noted noted).enterBranch
    exact ih ((Proceeds.of_delivers (checkPattern_delivers _ (known _ rfl) _ _)).of_ran entered
      matched)

end ComesTo

/-! ## Definitions and declarations -/

section

variable {x : String} {s : Checker} (fixes : s.Fixes x)
include fixes

/-- A name that is fixed cannot be defined again. -/
theorem define_fixed (type : Ty) (assigned : Assigned) (constant : Bool) (span : Span) :
    Gives (define x type assigned constant span) s fun result _ => result = none := by
  obtain ⟨b, found, permanent⟩ := fixes
  refine (define_outcome x type assigned constant span).imp fun _ s' outcome => ?_
  cases outcome with
  | fresh free => cases permanent.resolved.symm.trans (free b found)
  | rebound found' _ open_ =>
    cases found.symm.trans found'
    simp [Binding.isFixed, permanent.constant, permanent.assigned] at open_
  | refused => rfl

theorem define_fixed_bind {α : Type} {f : Option Unit → Check α} {post : α → Checker → Prop}
    (type : Ty) (assigned : Assigned) (constant : Bool) (span : Span)
    (rest : ∀ s', Gives (f none) s' post) :
    Gives (define x type assigned constant span >>= f) s post :=
  (define_fixed fixes type assigned constant span).bind fun _ s' refused => refused ▸ rest s'

theorem defineEach_fixed (constant : Bool) (span : Span) {pairs : List (String × Ty)}
    (named : x ≠ "_") (listed : x ∈ pairs.map (·.1)) :
    Gives (defineEach constant span pairs) s fun ok _ => ok = false := by
  induction pairs generalizing s with
  | nil => simp at listed
  | cons pair pairs ih =>
    obtain ⟨name, type⟩ := pair
    rw [defineEach]
    by_cases same : x = name
    · subst same
      rw [if_neg (by simpa using named)]
      refine define_fixed_bind fixes type .always constant span fun s₁ => ?_
      exact Gives.any.bind fun others s₂ _ => .pure rfl
    · have rest : x ∈ pairs.map (·.1) := by simpa [same] using listed
      split
      · exact .after_pure ((ih fixes rest).bind fun others s₂ failed => .pure (by simp [failed]))
      · refine (define_rebinds name type .always constant span s).bind fun bound s₁ rebound => ?_
        exact (ih (fixes.grown rebound.grown) rest).bind fun others s₂ failed =>
          .pure (by simp [failed])

/-- A fixed name can be no part of a definition, whether by itself or among others. -/
theorem defineNames_fixed {names : List String} (type : Ty) (constant : Bool) (span : Span)
    (named : x ≠ "_") (listed : x ∈ names) :
    Gives (defineNames names type constant span) s fun result _ => result = none := by
  have each {pairs : List (String × Ty)} (among : x ∈ pairs.map (·.1)) : Gives (do
      let bound ← defineEach constant span pairs
      return if bound then some type else none : Check (Option Ty)) s
        fun result _ => result = none :=
    (defineEach_fixed fixes constant span named among).bind fun ok _ failed =>
      .pure (by simp [failed])
  have whole : x ∈ (names.map (·, type)).map (·.1) := by simpa [Function.comp_def] using listed
  cases type with
  | spread items =>
    rw [defineNames]
    split
    · exact Gives.any.bind fun _ _ _ => .after_modify (.pure rfl)
    · rename_i fitting
      have sized : items.length = names.length := by simpa using fitting
      rw [items.zip_take]
      refine each ?_
      rwa [List.map_fst_zip (sized ▸ Nat.le_of_eq items.length_toList.symm)]
  | _ => exact each whole

/-- A definition or declaration of a constant that has its value fails. -/
theorem checkStmt_fixed {stmt : Stmt} (target : x ∈ stmt.targets) :
    Gives (checkStmt stmt) s fun checked _ => checked.2 = none := by
  match stmt with
  | .define names value constant span =>
    obtain ⟨listed, named⟩ := List.mem_filter.mp target
    rw [checkStmt]
    refine (checkExpr_notes value s).bind ?_
    rintro ⟨value, type⟩ s₁ noted
    cases type with
    | none => exact Gives.any.bind fun _ _ _ => .pure rfl
    | some type =>
      have later := fixes.of_lookup (noted.lookup? x)
      exact (defineNames_fixed later type constant span (by simpa using named) listed).bind
        fun bound s₂ refused => .pure refused
  | .declare name term value constant span =>
    obtain rfl : x = name := List.mem_singleton.mp target
    cases value with
    | none =>
      rw [checkStmt]
      refine (scoping.resolveTerm trivial s).bind fun type s₁ noted => ?_
      cases type with
      | none => exact Gives.any.bind fun _ _ _ => .pure rfl
      | some type =>
        have later := fixes.of_lookup (noted.lookup? x)
        exact define_fixed_bind later type .never constant span fun _ => .pure rfl
    | some value =>
      rw [checkStmt]
      refine (scoping.resolveTerm trivial s).bind fun declared s₁ noted => ?_
      refine (checkExpr_notes value s₁).bind ?_
      rintro ⟨value, received⟩ s₂ noted'
      have before := fixes.of_lookup ((noted.trans noted').lookup? x)
      cases declared with
      | none => exact Gives.any.bind fun _ _ _ => .pure rfl
      | some type =>
        cases received with
        | none =>
          exact .after_pure (define_fixed_bind before type .always constant span fun _ => .pure rfl)
        | some received =>
          refine (scoping.expectType received type trivial s₂).bind fun fits s₃ compared => ?_
          have later := before.of_lookup (compared.lookup? x)
          exact define_fixed_bind later type .always constant span fun _ => .pure rfl

end

end Check

open Check

/-- Wherever a check comes with a constant that has its value, no definition and no declaration
of the name goes well from there on, in the same frame or in a branch inside of it: it fails,
unless a tuple in it is too long to be counted. -/
theorem Program.constants_kept {p : Program} {w : Bool} {code : Code} {s s' : Checker}
    {x : String} {stmts : List Stmt} {stmt : Stmt} (met : p.Meets w code s) (fixes : s.Fixes x)
    (reached : ComesTo x stmts s stmt s') (target : x ∈ stmt.targets) :
    (∃ checked s'', checkStmt stmt s' = .ok ((checked, none), s'')) ∨
      checkStmt stmt s' = .error .countOverflow := by
  refine (checkStmt_proceeds _ stmt s' (reached.sound met.sound)).outcome.imp_left ?_
  rintro ⟨⟨checked, type⟩, s'', ran⟩
  have refused := checkStmt_fixed (reached.fixes fixes) target _ _ ran
  exact ⟨checked, s'', refused ▸ ran⟩

theorem Binding.exists_permanent {found : Option Binding}
    (computed : (found.any fun b => !b.unresolved && b.isFixed) = true) :
    ∃ b, found = some b ∧ b.Permanent := by
  simp only [Option.any_eq_true, Binding.isFixed, Bool.and_eq_true, Bool.not_eq_true',
    beq_iff_eq] at computed
  obtain ⟨b, found, resolved, constant, assigned⟩ := computed
  exact ⟨b, found, resolved, constant, assigned⟩

def Expr.whole (n : Int) : Expr := .literal (.int n) ⟨.null, none, none⟩

def Stmt.constantX (n : Int) : Stmt := .define ["x"] (.whole n) true .null

/-- Defines `x` once more, together with another name. -/
def Stmt.againX : Stmt := .define ["y", "x"] (.whole 2) false .null

/-- Defines `x` once more in a case inside of a branch. -/
def Stmt.againInside : Stmt :=
  .ifElse (.literal (.bool true) ⟨.null, none, none⟩)
    ⟨[.switch (.whole 3) [⟨.type "z" (.named "int" [] .null), ⟨[.againX], .null⟩, .null⟩] none
      .null], .null⟩ none .null

theorem Program.constants_kept_againInside : ∃ s s' checked s'',
    Program.Meets ⟨[.constantX 1, .againInside], .null⟩ false (.stmts [.againInside]) s ∧
    s.Fixes "x" ∧ ComesTo "x" [.againInside] s .againX s' ∧
    checkStmt .againX s' = .ok ((checked, none), s'') := by
  obtain ⟨s, reached, computed⟩ := Program.reach_of_any false [.constantX 1] (fun s =>
    ((s.lookup? "x").any fun b => !b.unresolved && b.isFixed) &&
      (checkExpr (.whole 3) (s.enter .branch)).toOption.any fun looked =>
        looked.1.2.any fun type =>
          (checkPattern type .null (.type "z" (.named "int" [] .null))
            (looked.2.enter .branch)).toOption.any fun matched =>
              (checkStmt .againX matched.2).toOption.isSome)
    (by decide +kernel)
  have met : Program.Meets ⟨[.constantX 1, .againInside], .null⟩ false (.stmts [.againInside]) s :=
    .of_reach rfl reached
  obtain ⟨constant, computed⟩ := Bool.and_eq_true_iff.mp computed
  have fixes : s.Fixes "x" := Binding.exists_permanent constant
  obtain ⟨⟨⟨checked, type?⟩, s₁⟩, looked, computed⟩ := exists_ok_of_any computed
  obtain ⟨type, rfl, computed⟩ := (Option.any_eq_true ..).mp computed
  obtain ⟨⟨result, s₂⟩, matched, ends⟩ := exists_ok_of_any computed
  have inside : ComesTo "x" [.againInside] s .againX s₂ :=
    .branch List.mem_cons_self (.refl s)
      (.case List.mem_cons_self (by simp [Pattern.binds]) looked (.refl s₁) matched .here)
  rcases Program.constants_kept met fixes inside (by decide) with
    ⟨checked', s'', refused⟩ | overflow
  · exact ⟨s, s₂, checked', s'', met, fixes, inside, refused⟩
  · simp [overflow, Except.toOption] at ends

def Stmt.addToX : Stmt :=
  .expr (.binary (.symbol "x" ⟨.null, none, none⟩) ⟨.plusEquals, "+=", .null⟩ (.whole 2)
    ⟨.null, none, none⟩) .null

/-- An operator that stores its result is accepted on a constant. -/
theorem Program.constant_overwritten : ∃ s result s',
    Program.Meets ⟨[.constantX 1, .addToX], .null⟩ false (.stmt .addToX) s ∧ s.Fixes "x" ∧
    checkStmt .addToX s = .ok (result, s') ∧ result.2.isSome = true := by
  obtain ⟨s, reached, computed⟩ := Program.reach_of_any false [.constantX 1] (fun s =>
    ((s.lookup? "x").any fun b => !b.unresolved && b.isFixed) &&
      (checkStmt .addToX s).toOption.any (·.1.2.isSome)) (by decide +kernel)
  obtain ⟨constant, accepted⟩ := Bool.and_eq_true_iff.mp computed
  obtain ⟨⟨result, s'⟩, ran, accepted⟩ := exists_ok_of_any accepted
  exact ⟨s, result, s', .first (.of_reach rfl reached), Binding.exists_permanent constant, ran,
    accepted⟩

/-! ## Merges -/

namespace ClassTable

theorem joinBindings_constant {t : ClassTable} {merged result : Binding} {others : List Binding}
    {failure : Option JoinFailure} (joined : t.joinBindings merged others = .ok (result, failure))
    (constant : merged.constant = true) : result.constant = true := by
  induction others generalizing merged with
  | nil =>
    cases joined
    exact constant
  | cons other others ih =>
    rw [joinBindings] at joined
    split at joined
    · cases joined
      exact constant
    · obtain ⟨verdict, _, joined⟩ := bind_eq_ok.mp joined
      cases verdict with
      | ok type => exact ih joined (by simp [constant])
      | error reason =>
        cases joined
        exact constant

end ClassTable

namespace Check

variable {arms : List Arm} {span : Span} {x : String}

/-- What becomes of a name that every arm leaves as a constant: a name that the arms bring in is
one afterwards, and a name that is known outside has its value but no other mark. -/
def LeftConstant (before after : Option Binding) : Prop :=
  ∃ b, after = some b ∧ b.assigned = .always ∧ (before = none → b.Permanent) ∧
    ∀ outer, before = some outer → b.unresolved = outer.unresolved ∧ b.constant = outer.constant

/-- What becomes of a name that every arm fixes, whether it was known before the arms or not. -/
theorem mergeName_fixed (nonempty : arms ≠ []) (each : ∀ arm ∈ arms, arm.Fixes x) (s : Checker) :
    Gives (mergeName arms true span x) s fun _ s' =>
      LeftConstant (s.lookup? x) (s'.lookup? x) := by
  have always : Assigned.afterArms true (Arm.states arms x) = .always := by
    refine Assigned.afterArms_eq_always.mpr ⟨rfl, fun state listed => ?_⟩
    obtain ⟨arm, among, rfl⟩ := List.mem_map.mp listed
    obtain ⟨b, bound, permanent⟩ := each arm among
    rw [bound]
    exact permanent.assigned
  have permanent (b : Binding) (member : b ∈ Arm.bindingsOf arms x) : b.Permanent := by
    obtain ⟨arm, among, found⟩ := List.mem_filterMap.mp member
    obtain ⟨b', bound, permanent⟩ := each arm among
    cases found.symm.trans bound
    exact permanent
  have joins {t : ClassTable} {first merged : Binding} {others : List Binding}
      {failure : Option JoinFailure} (inArms : Arm.bindingsOf arms x = first :: others)
      (joined : t.joinBindings
        { first with assigned := .afterArms true (Arm.states arms x) } others =
          .ok (merged, failure)) : merged.Permanent := by
    rw [inArms] at permanent
    obtain ⟨here, rest⟩ := List.forall_mem_cons.mp permanent
    refine ⟨joinBindings_resolved t ?_ (fun b member => (rest b member).resolved) joined,
      ClassTable.joinBindings_constant joined here.constant,
      (joinBindings_assigned t joined).trans always⟩
    exact here.resolved
  have bound (s : Checker) (b : Binding) : (s.bind x b).lookup? x = some b := by
    rw [Checker.lookup?_bind, if_pos rfl]
  refine (mergeName_outcome arms true span x).imp fun _ s' outcome => ?_
  cases outcome with
  | outer found =>
    refine ⟨_, bound _ _, Assigned.max_eq_always.mpr (.inr always), by simp [found],
      fun outer found' => ?_⟩
    cases found.symm.trans found'
    exact ⟨rfl, rfl⟩
  | absent free nowhere =>
    obtain ⟨arm, among⟩ := List.exists_mem_of_ne_nil arms nonempty
    obtain ⟨b, found, _⟩ := each arm among
    simp [List.filterMap_eq_nil_iff.mp nowhere arm among] at found
  | introduced free inArms joined =>
    exact ⟨_, bound _ _, (joins inArms joined).assigned, fun _ => joins inArms joined,
      by simp [free]⟩
  | conflict free inArms joined =>
    exact ⟨_, bound _ _, (joins inArms joined).assigned, fun _ => joins inArms joined,
      by simp [free]⟩

end Check

/-- A name that every arm leaves as a constant with its value has its value after the arms. It
is a constant then if the arms brought it in, and otherwise exactly if it was one before. -/
theorem Check.constants_merged {arms : List Arm} {span : Span} {s s' : Checker}
    {result : Option Unit} {x : String} (nonempty : arms ≠ [])
    (each : ∀ arm ∈ arms, arm.Fixes x) (ran : mergeArms arms true span s = .ok (result, s')) :
    ∃ after, s'.lookup? x = some after ∧ after.assigned = .always ∧
      (s.lookup? x = none → after.Permanent) ∧
      ∀ outer, s.lookup? x = some outer →
        after.unresolved = outer.unresolved ∧ after.constant = outer.constant := by
  have bound : Arm.bindingsOf arms x ≠ [] := by
    obtain ⟨arm, listed⟩ := List.exists_mem_of_ne_nil arms nonempty
    obtain ⟨b, here, _⟩ := each arm listed
    exact List.ne_nil_of_mem (List.mem_filterMap.mpr ⟨arm, listed, here⟩)
  cases mergeArms_at x _ _ ran with
  | unbound nowhere => exact absurd nowhere bound
  | merged _ before ran' after =>
    have left := mergeName_fixed nonempty each _ _ _ ran'
    rwa [before, ← after] at left

def Stmt.constantInArms : Stmt :=
  .ifElse (.literal (.bool true) ⟨.null, none, none⟩) ⟨[.constantX 1], .null⟩
    (some ⟨[.constantX 2], .null⟩) .null

theorem Check.constants_merged_inArms : ∃ s ends s₁ result s' after,
    Program.Meets ⟨[.constantInArms], .null⟩ false (.stmt .constantInArms) s ∧
    walkArms .constantInArms s = .ok (ends, s₁) ∧ ends.length = 2 ∧
    (∀ arm ∈ ends.map (·.arm), arm.Fixes "x") ∧ s₁.lookup? "x" = none ∧
    mergeArms (ends.map (·.arm)) true .null s₁ = .ok (result, s') ∧
    s'.lookup? "x" = some after ∧ after.Permanent := by
  obtain ⟨s, reached, computed⟩ := Program.reach_of_any false []
    (fun s => (walkArms .constantInArms s).toOption.any fun r => r.1.length == 2 &&
      ((r.1.map (·.arm)).all fun arm =>
        (arm.bindings.find? "x").any fun b => !b.unresolved && b.isFixed) &&
      (r.2.lookup? "x").isNone &&
      (mergeArms (r.1.map (·.arm)) true .null r.2).toOption.isSome)
    (by decide +kernel)
  obtain ⟨⟨ends, s₁⟩, walked, computed⟩ := exists_ok_of_any computed
  simp only [Bool.and_eq_true, beq_iff_eq, List.all_eq_true, Option.isNone_iff_eq_none]
    at computed
  obtain ⟨⟨⟨two, each⟩, free⟩, merges⟩ := computed
  replace each (arm : Arm) (listed : arm ∈ ends.map (·.arm)) : arm.Fixes "x" :=
    Binding.exists_permanent (each arm listed)
  rcases merged : mergeArms (ends.map (·.arm)) true .null s₁ with fault | ⟨result, s'⟩
  · simp [merged, Except.toOption] at merges
  · have nonempty : ends.map (·.arm) ≠ [] := List.ne_nil_of_length_pos (by simp [two])
    obtain ⟨after, found, _, permanent, _⟩ := Check.constants_merged nonempty each merged
    exact ⟨s, ends, s₁, result, s', after, .first (.of_reach rfl reached), walked, two, each, free,
      merged, found, permanent free⟩

def Stmt.announceX : Stmt := .declare "x" (.named "int" [] .null) none false .null

/-- A name that was known before loses the mark of a constant that both arms give it, so that it
can be defined again. -/
theorem Program.constant_mark_lost : ∃ s result s' ends s₁ after redefined,
    Program.Meets ⟨[.announceX, .constantInArms, .againX], .null⟩ false
      (.stmt .constantInArms) s ∧
    checkStmt .constantInArms s = .ok (result, s') ∧ result.2.isSome = true ∧
    walkArms .constantInArms s = .ok (ends, s₁) ∧ ends.length = 2 ∧
    (∀ arm ∈ ends.map (·.arm), arm.Fixes "x") ∧
    mergeArms (ends.map (·.arm)) true .null s₁ = .ok (some (), s') ∧
    s'.lookup? "x" = some after ∧ after.assigned = .always ∧ after.constant = false ∧
    checkStmt .againX s' = .ok redefined ∧ redefined.1.2.isSome = true := by
  obtain ⟨s, reached, computed⟩ := Program.reach_of_any false [.announceX]
    (fun s => ((walkArms .constantInArms s).toOption.any fun r => r.1.length == 2 &&
        (r.1.map (·.arm)).all fun arm =>
          (arm.bindings.find? "x").any fun b => !b.unresolved && b.isFixed) &&
      (checkStmt .constantInArms s).toOption.any fun r => r.1.2.isSome &&
        ((r.2.lookup? "x").any fun b => b.assigned == .always && !b.constant) &&
        (checkStmt .againX r.2).toOption.any fun again => again.1.2.isSome)
    (by decide +kernel)
  obtain ⟨walk, check⟩ := Bool.and_eq_true_iff.mp computed
  obtain ⟨⟨ends, s₁⟩, walked, arms⟩ := exists_ok_of_any walk
  obtain ⟨⟨result, s'⟩, ran, after⟩ := exists_ok_of_any check
  simp only [Bool.and_eq_true, beq_iff_eq, List.all_eq_true] at arms after
  obtain ⟨⟨accepted, state⟩, again⟩ := after
  simp only [Option.any_eq_true, Bool.and_eq_true, beq_iff_eq, Bool.not_eq_true'] at state
  obtain ⟨after, found, always, unmarked⟩ := state
  obtain ⟨redefined, defined, fine⟩ := exists_ok_of_any again
  obtain ⟨ends', s₁', merged, walks⟩ := checkStmt_walks .constantInArms rfl _ _ ran
  cases walked.symm.trans walks.walked
  obtain ⟨_, rfl, _⟩ := walks.passed accepted
  exact ⟨s, result, s', ends, s₁, after, redefined, .first (.of_reach rfl reached), ran, accepted,
    walked, arms.1, fun arm listed => Binding.exists_permanent (arms.2 arm listed), walks.merges,
    found, always, unmarked, defined, fine⟩

end ShapeLang
