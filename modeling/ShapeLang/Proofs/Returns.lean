import ShapeLang.Proofs.Accepted
import ShapeLang.Proofs.Growth

/-!
# The returns of a body

The returns of a function body, in order, without those of the functions inside it.
Some of them count: a return outside of all branching statements does, and the returns
of the arms of such a statement do if one arm is sure to run and each has a return that
counts. A check that goes well fills in the types of the values and leaves the returns
where they are.
-/

namespace ShapeLang

section

variable (combine : Bool → List (List (Option Expr)) → List (Option Expr))

mutual

/-- The values of the returns in a statement. What the arms of a statement come to depends on
whether one of them is sure to run. -/
def Stmt.gather : Stmt → List (Option Expr)
  | .return value _ => [value]
  | .ifElse _ yes none _ => combine false [yes.gather]
  | .ifElse _ yes (some no) _ => combine true [yes.gather, no.gather]
  | .whileLoop _ body _ => combine false [body.gather]
  | .doWhile body _ _ => combine false [body.gather]
  | .switch _ cases none _ => combine false (Case.gather cases)
  | .switch _ cases (some otherwise) _ => combine true (Case.gather cases ++ [otherwise.gather])
  | .expr .. | .define .. | .declare .. | .classDecl .. | .methods .. => []

def Stmt.gatherAll : List Stmt → List (Option Expr)
  | [] => []
  | stmt :: stmts => stmt.gather ++ Stmt.gatherAll stmts

def Block.gather : Block → List (Option Expr)
  | ⟨body, _⟩ => Stmt.gatherAll body

def Case.gather : List Case → List (List (Option Expr))
  | [] => []
  | ⟨_, body, _⟩ :: cases => body.gather :: Case.gather cases

end

theorem Case.gather_eq_map (cases : List Case) :
    Case.gather combine cases = cases.map fun c => c.body.gather combine :=
  eq_map_of_cons rfl (by rintro ⟨_, _, _⟩ _; rfl) cases

/-- The returns of a branching statement are those of its arms, as the statement combines them. -/
theorem Stmt.gather_branching {stmt : Stmt} (branching : stmt.branching = true) :
    stmt.gather combine = combine stmt.exhaustive (stmt.arms.map (·.gather combine)) := by
  match stmt with
  | .ifElse _ yes none _ => rw [Stmt.gather]; rfl
  | .ifElse _ yes (some no) _ => rw [Stmt.gather]; rfl
  | .whileLoop _ body _ => rw [Stmt.gather]; rfl
  | .doWhile body _ _ => rw [Stmt.gather]; rfl
  | .switch _ cases none _ =>
    rw [Stmt.gather, Case.gather_eq_map]
    simp [Stmt.exhaustive, Stmt.arms, Function.comp_def]
  | .switch _ cases (some otherwise) _ =>
    rw [Stmt.gather, Case.gather_eq_map]
    simp [Stmt.exhaustive, Stmt.arms, Function.comp_def]

end

/-- Every return, in whatever arm. Functions inside have returns of their own. -/
def Block.returns (block : Block) : List (Option Expr) := block.gather fun _ arms => arms.flatten

/-- The returns of the arms count if one arm is sure to run and each has one that counts. -/
def countArms (exhaustive : Bool) (arms : List (List (Option Expr))) : List (Option Expr) :=
  if exhaustive && arms.all (!·.isEmpty) then arms.flatten else []

/-- If every arm has returns that count and none is left out, all of them count. -/
theorem countArms_of_all {arms : List (List (Option Expr))} (each : ∀ arm ∈ arms, arm ≠ []) :
    countArms true arms = arms.flatten := by
  rw [countArms, if_pos]
  simpa using each

theorem countArms_of_not {exhaustive : Bool} {arms : List (List (Option Expr))}
    (some_ : ¬(exhaustive = true ∧ ∀ arm ∈ arms, arm ≠ [])) : countArms exhaustive arms = [] := by
  rw [countArms, if_neg]
  simpa using some_

/-- The returns that count. -/
def Block.counted (block : Block) : List (Option Expr) := block.gather countArms

def returnType : Option Expr → Option Ty
  | none => some .noneType
  | some value => value.note.type

/-! ## Returns before and after a check -/

/-- The second value is the first with the types that a check filled in. -/
inductive Filled : Option Expr → Option Expr → Prop where
  | nothing : Filled none none
  | value {e e' : Expr} {s s' : Checker}
      (ran : Check.checkExpr e s = .ok ((e', e'.note.type), s')) : Filled (some e) (some e')

theorem countArms_filled (exhaustive : Bool) {arms arms' : List (List (Option Expr))}
    (checked : List.Forall₂ (List.Forall₂ Filled) arms arms') :
    List.Forall₂ Filled (countArms exhaustive arms) (countArms exhaustive arms') := by
  have silent : arms.all (!·.isEmpty) = arms'.all (!·.isEmpty) := by
    induction checked with
    | nil => rfl
    | cons first _ ih =>
      rw [List.all_cons, List.all_cons, ih]
      cases first <;> rfl
  unfold countArms
  rw [silent]
  split
  · exact List.rel_flatten checked
  · exact .nil

namespace Check

section

variable {combine : Bool → List (List (Option Expr)) → List (Option Expr)}

/-- The returns of a plain statement are kept, with their values checked. -/
theorem PlainOutcome.gathers {stmt : Stmt} {checked : Stmt × Option Ty} {s s' : Checker}
    (outcome : PlainOutcome s stmt checked s') :
    List.Forall₂ Filled (stmt.gather combine) (checked.1.gather combine) := by
  have filled {e e' : Expr} {type : Option Ty} {s₁ : Checker}
      (looked : checkExpr e s = .ok ((e', type), s₁)) : Filled (some e) (some e') := by
    obtain rfl : e'.note.type = type := checkExpr_note e s _ _ looked
    exact .value looked
  cases outcome with
  | returnedNone =>
    rw [Stmt.gather]
    exact .cons .nothing .nil
  | returned looked | unreturned looked =>
    rw [Stmt.gather, Stmt.gather]
    exact .cons (filled looked) .nil
  | _ =>
    simp only [Stmt.gather]
    exact .nil

theorem checkStmts_gathers {stmts : List Stmt}
    (each : ∀ stmt ∈ stmts, ∀ s, Gives (checkStmt stmt) s fun checked _ =>
      checked.2.isSome = true →
        List.Forall₂ Filled (stmt.gather combine) (checked.1.gather combine)) (s : Checker) :
    Gives (checkStmts stmts) s fun checked _ => checked.2 = true →
      List.Forall₂ Filled (Stmt.gatherAll combine stmts) (Stmt.gatherAll combine checked.1) := by
  induction stmts generalizing s with
  | nil =>
    rw [checkStmts]
    exact .pure fun _ => by rw [Stmt.gatherAll]; exact .nil
  | cons stmt stmts ih =>
    obtain ⟨first, others⟩ := List.forall_mem_cons.mp each
    rw [checkStmts]
    refine (first s).bind ?_
    rintro ⟨stmt', type⟩ s₁ gathers
    refine (ih others s₁).bind ?_
    rintro ⟨stmts', ok⟩ _ gathers'
    refine .pure fun all => ?_
    obtain ⟨some_, rest⟩ := Bool.and_eq_true_iff.mp all
    rw [Stmt.gatherAll, Stmt.gatherAll]
    exact List.rel_append (gathers some_) (gathers' rest)

theorem checkBlock_gathers_of {block : Block}
    (each : ∀ stmt ∈ block.body, ∀ s, Gives (checkStmt stmt) s fun checked _ =>
      checked.2.isSome = true →
        List.Forall₂ Filled (stmt.gather combine) (checked.1.gather combine)) (s : Checker) :
    Gives (checkBlock block) s fun checked _ => checked.2 = true →
      List.Forall₂ Filled (block.gather combine) (checked.1.gather combine) := by
  obtain ⟨body, span⟩ := block
  rw [checkBlock]
  refine (checkStmts_gathers each s).bind fun checked _ gathers => .pure fun ok => ?_
  rw [Block.gather, Block.gather]
  exact gathers ok

variable (lifts : ∀ exhaustive {arms arms'}, List.Forall₂ (List.Forall₂ Filled) arms arms' →
  List.Forall₂ Filled (combine exhaustive arms) (combine exhaustive arms'))
include lifts

/-- By induction on the arms: the returns of an accepted statement are kept, with their values
checked. -/
theorem checkStmt_gathers (stmt : Stmt) (s : Checker) :
    Gives (checkStmt stmt) s fun checked _ => checked.2.isSome = true →
      List.Forall₂ Filled (stmt.gather combine) (checked.1.gather combine) := by
  induction stmt using Stmt.induction generalizing s with
  | step stmt ih =>
    cases branching : stmt.branching with
    | false => exact (checkStmt_plain branching).imp fun _ _ outcome _ => outcome.gathers
    | true =>
      refine (checkStmt_walks stmt branching).imp
        fun checked s' ⟨ends, s₁, merged, walks⟩ accepted => ?_
      obtain ⟨_, _, passed⟩ := walks.passed accepted
      have blocks := walks.arms accepted
      rw [Stmt.gather_branching combine branching, Stmt.gather_branching combine walks.branching,
        walks.exhaustive, blocks]
      refine lifts stmt.exhaustive ?_
      rw [List.map_map, List.forall₂_map_left_iff, List.forall₂_map_right_iff]
      have sides := List.forall₂_iff_zip.mp (walks.matched accepted)
      refine List.forall₂_iff_zip.mpr ⟨sides.1, fun {source e} pair => ?_⟩
      obtain ⟨inArms, member⟩ := List.of_mem_zip pair
      obtain ⟨base, start, mid, ok, ran⟩ := sides.2 pair
      exact checkBlock_gathers_of (ih source inArms) start _ _ ran.ran
        (ran.passed (passed e member))

theorem checkBlock_gathers (block : Block) (s : Checker) :
    Gives (checkBlock block) s fun checked _ => checked.2 = true →
      List.Forall₂ Filled (block.gather combine) (checked.1.gather combine) :=
  checkBlock_gathers_of (fun stmt _ => checkStmt_gathers lifts stmt) s

end

end Check

end ShapeLang
