import ShapeLang.Proofs.Path
import ShapeLang.Proofs.Totality

/-!
# What a check comes across

The code that a check of a program looks at, each piece with the checker it is
looked at with. Expressions only leave notes, so that a piece of a statement or of
an expression is met with the checker of the whole up to notes. Every checker met
on the way is sound.
-/

namespace ShapeLang

namespace Stmt

/-- The expressions that are checked in the frame of the statement. -/
def values : Stmt → List Expr
  | expr value _ | define _ value _ _ | ifElse value _ _ _ | whileLoop value _ _
  | switch value _ _ _ => [value]
  | declare _ _ value _ _ | .return value _ => value.toList
  | classDecl .. | methods .. | doWhile .. => []

/-- The blocks that are checked in a branch of their own; the cases of a switch are not
among them, as they start with a pattern. -/
def branches : Stmt → List Block
  | ifElse _ yes no _ => yes :: no.toList
  | whileLoop _ body _ | doWhile body _ _ => [body]
  | switch _ _ otherwise _ => otherwise.toList
  | expr .. | define .. | declare .. | classDecl .. | methods .. | .return .. => []

end Stmt

open Check in
/-- The check of the statement, from the first checker on, looks at the code, and with the second
checker. -/
inductive Stmt.Leads (s : Checker) : Stmt → Code → Checker → Prop where
  | value {stmt : Stmt} {e : Expr} {s' : Checker} (listed : e ∈ stmt.values)
      (noted : s.Noted s') : Leads s stmt (.expr e) s'
  | branch {stmt : Stmt} {block : Block} {s' : Checker} (listed : block ∈ stmt.branches)
      (noted : s.Noted s') : Leads s stmt (.stmts block.body) (s'.enter .branch)
  /-- The condition of a `do` loop is checked in its branch, after the body. -/
  | repeated {body : Block} {condition : Expr} {span : Span} {s' : Checker}
      {result : Block × Bool} (ran : checkBlock body (s.enter .branch) = .ok (result, s')) :
      Leads s (.doWhile body condition span) (.expr condition) s'
  | pattern {subject e : Expr} {cases : List Case} {otherwise : Option Block} {span : Span}
      {c : Case} {s' : Checker} (listed : c ∈ cases) (part : e ∈ c.pattern.parts)
      (noted : s.Noted s') :
      Leads s (.switch subject cases otherwise span) (.expr e) (s'.enter .branch)
  /-- The body of a case knows the name that its pattern binds. -/
  | case {subject checked : Expr} {cases : List Case} {otherwise : Option Block} {span : Span}
      {c : Case} {type : Ty} {s₁ s₂ s' : Checker} {result : Pattern × Bool} (listed : c ∈ cases)
      (looked : checkExpr subject s = .ok ((checked, some type), s₁)) (noted : s₁.Noted s₂)
      (matched : checkPattern type c.span c.pattern (s₂.enter .branch) = .ok (result, s')) :
      Leads s (.switch subject cases otherwise span) (.stmts c.body.body) s'

open Check in
/-- The check of the program looks at the code, and with that checker. -/
inductive Program.Meets (p : Program) (w : Bool) : Code → Checker → Prop where
  | start {s : Checker} (initial : Checker.initial w = .ok s) : Meets p w (.stmts p.body) s
  | first {stmt : Stmt} {stmts : List Stmt} {s : Checker}
      (met : Meets p w (.stmts (stmt :: stmts)) s) : Meets p w (.stmt stmt) s
  | next {stmt : Stmt} {stmts : List Stmt} {s s' : Checker} {result : Stmt × Option Ty}
      (met : Meets p w (.stmts (stmt :: stmts)) s) (ran : checkStmt stmt s = .ok (result, s')) :
      Meets p w (.stmts stmts) s'
  | inside {stmt : Stmt} {code : Code} {s s' : Checker} (met : Meets p w (.stmt stmt) s)
      (leads : stmt.Leads s code s') : Meets p w code s'
  | part {e part : Expr} {s s' : Checker} (met : Meets p w (.expr e) s) (listed : part ∈ e.parts)
      (noted : s.Noted s') : Meets p w (.expr part) s'
  | body {params : List Param} {result : Option TypeTerm} {body : Block} {note : Note}
      {types : List Ty} {declared : Option Ty} {s s₁ s₂ : Checker}
      (met : Meets p w (.expr (.function [] params result body note)) s)
      (taken : resolveTerms (params.map (·.term)) s = .ok (some types, s₁))
      (promised : resolveResult result s₁ = .ok (some declared, s₂)) :
      Meets p w (.stmts body.body) (bound (s₂.enter (.function declared)) params types)

namespace Checker.Sound

variable {n : Nat} {s : Checker} (sound : s.Sound n)
include sound

theorem enterBranch : (s.enter .branch).Sound n := sound.enter nofun

/-- Entering a function keeps a sound checker sound if its declared result is known. -/
theorem enterFunction {declared : Option Ty} (known : ∀ type ∈ declared, type.Known n) :
    (s.enter (.function declared)).Sound n := by
  refine sound.enter fun type same => ?_
  cases same
  exact known type rfl

end Checker.Sound

namespace Check

open Checker (Sound)

variable {α : Type} {n : Nat} {m : Check α} {s s' : Checker} {a : α}

/-- A step that proceeds leaves a sound checker sound, for the classes there are then. -/
theorem Proceeds.of_ran (proceeds : Proceeds True n m) (sound : s.Sound n)
    (ran : m s = .ok (a, s')) : s'.Sound s'.classes.classes.length :=
  (proceeds s sound).of_ran ran

/-- Away from the root no class is added. -/
theorem Proceeds.of_inside (proceeds : Proceeds True n m) (framed : Advances m) (sound : s.Sound n)
    (inside : s.atRoot = false) (ran : m s = .ok (a, s')) : s'.Sound n := by
  have sound' := proceeds.of_ran sound ran
  rwa [(framed s _ _ ran).classes inside, sound.size] at sound'

end Check

def Code.extent : Code → Extent
  | .expr e => e.extent
  | .exprs es => Expr.extents es
  | .stmt s => s.extent
  | .stmts ss => Stmt.extents ss

section

variable {B C : Nat}

theorem Expr.leads_listed {e : Expr} {es : List Expr} (listed : e ∈ es)
    (leads : (Expr.extents es).Leads B C) : e.extent.Leads B C := by
  induction es with
  | nil => cases listed
  | cons first es ih =>
    rw [Expr.extents] at leads
    rcases List.mem_cons.mp listed with rfl | listed
    · exact leads.left
    · exact ih listed leads.right

theorem Expr.leads_part {e part : Expr} (listed : part ∈ e.parts) (leads : e.extent.Leads B C) :
    part.extent.Leads B C := by
  cases e <;> rw [Expr.extent] at leads <;> rw [Expr.parts] at listed
  case literal => cases listed
  case symbol => cases listed
  case function => cases listed
  case member => exact List.mem_singleton.mp listed ▸ leads
  case call =>
    rcases List.mem_cons.mp listed with rfl | listed
    · exact leads.left
    · exact Expr.leads_listed listed leads.right
  case index =>
    rcases List.mem_cons.mp listed with rfl | listed
    · exact leads.left
    · exact List.mem_singleton.mp listed ▸ leads.right
  case construct => exact Expr.leads_listed listed leads
  case cast => exact List.mem_singleton.mp listed ▸ leads.left
  case tuple => exact Expr.leads_listed listed leads.left
  case spread => exact List.mem_singleton.mp listed ▸ leads
  case array => exact Expr.leads_listed listed leads
  case binary =>
    rcases List.mem_cons.mp listed with rfl | listed
    · exact leads.left
    · exact List.mem_singleton.mp listed ▸ leads.right

theorem Stmt.leads_value {stmt : Stmt} {e : Expr} (listed : e ∈ stmt.values)
    (leads : stmt.extent.Leads B C) : e.extent.Leads B C := by
  cases stmt with
  | expr value =>
    rw [Stmt.extent] at leads
    exact List.mem_singleton.mp listed ▸ leads
  | define names value =>
    rw [Stmt.extent] at leads
    exact List.mem_singleton.mp listed ▸ leads
  | declare name term value =>
    cases value with
    | none => cases listed
    | some value =>
      rw [Stmt.extent] at leads
      exact List.mem_singleton.mp listed ▸ leads.right
  | classDecl => cases listed
  | methods => cases listed
  | ifElse condition yes no =>
    cases no <;> rw [Stmt.extent] at leads <;> exact List.mem_singleton.mp listed ▸ leads.left
  | whileLoop condition body =>
    rw [Stmt.extent] at leads
    exact List.mem_singleton.mp listed ▸ leads.left
  | doWhile => cases listed
  | switch subject cases otherwise =>
    cases otherwise <;> rw [Stmt.extent] at leads <;>
      exact List.mem_singleton.mp listed ▸ leads.left
  | «return» value =>
    cases value with
    | none => cases listed
    | some value =>
      rw [Stmt.extent] at leads
      exact List.mem_singleton.mp listed ▸ leads

theorem Stmt.leads_branch {stmt : Stmt} {block : Block} (listed : block ∈ stmt.branches)
    (leads : stmt.extent.Leads B C) : block.extent.Leads B C := by
  cases stmt with
  | ifElse condition yes no =>
    cases no with
    | none =>
      rw [Stmt.extent] at leads
      exact List.mem_singleton.mp listed ▸ leads.right
    | some no =>
      rw [Stmt.extent] at leads
      rcases List.mem_cons.mp listed with rfl | listed
      · exact leads.right.left
      · exact List.mem_singleton.mp listed ▸ leads.right.right
  | whileLoop condition body =>
    rw [Stmt.extent] at leads
    exact List.mem_singleton.mp listed ▸ leads.right
  | doWhile body condition =>
    rw [Stmt.extent] at leads
    exact List.mem_singleton.mp listed ▸ leads.left
  | switch subject cases otherwise =>
    cases otherwise with
    | none => cases listed
    | some otherwise =>
      rw [Stmt.extent] at leads
      exact List.mem_singleton.mp listed ▸ leads.right.right
  | _ => cases listed

theorem Stmt.leads_cases {subject : Expr} {cases : List Case} {otherwise : Option Block}
    {span : Span} (leads : (Stmt.switch subject cases otherwise span).extent.Leads B C) :
    subject.extent.Leads B C ∧ (Case.extents cases).Leads B C := by
  cases otherwise with
  | none =>
    rw [Stmt.extent] at leads
    exact ⟨leads.left, leads.right⟩
  | some otherwise =>
    rw [Stmt.extent] at leads
    exact ⟨leads.left, leads.right.left⟩

theorem Case.leads_listed {c : Case} {cases : List Case} (listed : c ∈ cases)
    (leads : (Case.extents cases).Leads B C) : (c.pattern.extent.and c.body.extent).Leads B C := by
  induction cases with
  | nil => cases listed
  | cons first cases ih =>
    obtain ⟨pattern, body, span⟩ := first
    rw [Case.extents] at leads
    rcases List.mem_cons.mp listed with rfl | listed
    · exact leads.left
    · exact ih listed leads.right

theorem Block.leads_body {block : Block} (leads : block.extent.Leads B C) :
    (Stmt.extents block.body).Leads B C := by
  obtain ⟨body, span⟩ := block
  rwa [Block.extent] at leads

theorem Pattern.leads_part {pattern : Pattern} {e : Expr} (part : e ∈ pattern.parts)
    (leads : pattern.extent.Leads B C) : e.extent.Leads B C := by
  cases pattern with
  | type => cases part
  | value value =>
    rw [Pattern.extent] at leads
    exact List.mem_singleton.mp part ▸ leads

end

open Check in
/-- Whatever the check comes across, the checker obeys every discipline that a fresh one obeys,
within a bound from which the code does not lead beyond the capacity of the program. -/
theorem Program.Meets.orderly {d : Discipline} {p : Program} {w : Bool} {code : Code} {s : Checker}
    (begins : ∀ start, Checker.initial w = .ok start → start.Obeys d start.classes 1)
    (met : p.Meets w code s) : ∃ B, s.Orderly d s.classes B ∧ code.extent.Leads B p.capacity := by
  induction met with
  | start initial =>
    obtain ⟨start, initial', sound, _⟩ := Checker.initial_ok w
    cases initial'.symm.trans initial
    exact ⟨_, ⟨sound.size.symm ▸ sound, (begins _ initial).mono p.leads.start⟩, p.leads⟩
  | first _ ih =>
    obtain ⟨B, orderly, leads⟩ := ih
    rw [Code.extent, Stmt.extents] at leads
    exact ⟨B, orderly, leads.left⟩
  | next _ ran ih =>
    obtain ⟨B, orderly, leads⟩ := ih
    rw [Code.extent, Stmt.extents] at leads
    obtain ⟨M, before, later⟩ := leads.through
    exact ⟨M, (checkStmt_carries _ before _ orderly).of_ran ran, later⟩
  | inside _ inner ih =>
    obtain ⟨B, orderly, leads⟩ := ih
    cases inner with
    | value listed noted => exact ⟨B, (orderly.noted noted).own, Stmt.leads_value listed leads⟩
    | branch listed noted =>
      exact ⟨B, (orderly.noted noted).enterBranch.own,
        Block.leads_body (Stmt.leads_branch listed leads)⟩
    | repeated ran =>
      rw [Code.extent, Stmt.extent] at leads
      obtain ⟨M, before, later⟩ := leads.through
      exact ⟨M, (checkBlock_carries _ before _ orderly.enterBranch).of_ran ran, later⟩
    | pattern listed part noted =>
      have case := Case.leads_listed listed (Stmt.leads_cases leads).2
      exact ⟨B, (orderly.noted noted).enterBranch.own, Pattern.leads_part part case.left⟩
    | case listed looked noted matched =>
      obtain ⟨subject, cases⟩ := Stmt.leads_cases leads
      have case := Case.leads_listed listed cases
      obtain ⟨seen, found⟩ := (checkExpr_orderly _ subject _ orderly).of_ran looked
      have entered := (seen.noted noted).enterBranch
      have bound := (checkPattern_orderly (found _ rfl).1 _ _ case.left _ entered).of_ran matched
      exact ⟨B, bound.1.own, Block.leads_body case.right⟩
  | part _ listed noted ih =>
    obtain ⟨B, orderly, leads⟩ := ih
    exact ⟨B, (orderly.noted noted).own, Expr.leads_part listed leads⟩
  | body _ taken promised ih =>
    obtain ⟨B, orderly, leads⟩ := ih
    rw [Code.extent, Expr.extent] at leads
    have terms := leads.left
    obtain ⟨orderly₁, accepted⟩ :=
      (resolveTerms_orderly terms.left.longest).of_ran orderly taken
    obtain ⟨orderly₂, given⟩ :=
      (resolveResult_orderly terms.right.longest).of_ran orderly₁ promised
    exact ⟨B, (orderly₂.enterFunction (given _ rfl) _ (accepted _ rfl)).own,
      Block.leads_body leads.right⟩

/-- What a statement evaluates is met with the checker of the statement. -/
theorem Program.Meets.value {p : Program} {w : Bool} {stmt : Stmt} {e : Expr} {s : Checker}
    (met : p.Meets w (.stmt stmt) s) (listed : e ∈ stmt.values) : p.Meets w (.expr e) s :=
  met.inside (.value listed (.refl s))

/-- Whenever a check of a program comes across some code, the checker is sound. -/
theorem Program.Meets.sound {p : Program} {w : Bool} {code : Code} {s : Checker}
    (met : p.Meets w code s) : s.Sound s.classes.classes.length := by
  obtain ⟨B, orderly, _⟩ := met.orderly fun _ => Checker.initial_lax
  exact orderly.sound

/-- The checker after the statements, from a fresh one. -/
def Program.reach (w : Bool) (stmts : List Stmt) : Except Fault Checker := do
  let start ← Checker.initial w
  let (_, s) ← (Check.checkStmts stmts).run start
  return s

theorem Program.reach_of_ran {w : Bool} {stmts : List Stmt} {start s : Checker}
    {checked : List Stmt × Bool} (initial : Checker.initial w = .ok start)
    (ran : Check.checkStmts stmts start = .ok (checked, s)) : Program.reach w stmts = .ok s := by
  rw [reach, initial, ok_bind, StateT.run, ran]
  rfl

/-- A sequence of statements at the root is checked to its end, or a tuple cannot be counted. -/
theorem Program.reach_ends (w : Bool) (stmts : List Stmt) :
    (∃ s, Program.reach w stmts = .ok s ∧ s.Sound s.classes.classes.length) ∨
      Program.reach w stmts = .error .countOverflow := by
  obtain ⟨start, initial, sound, _⟩ := Checker.initial_ok w
  rcases Check.checkStmts_proceeds 4 stmts start sound with
    ⟨checked, s, ran, sound'⟩ | ⟨_, overflow⟩
  · exact .inl ⟨s, reach_of_ran initial ran, sound'⟩
  · right
    rw [reach, initial, ok_bind, StateT.run, overflow]
    rfl

theorem Program.sound_of_reach {w : Bool} {stmts : List Stmt} {s : Checker}
    (reached : Program.reach w stmts = .ok s) : s.Sound s.classes.classes.length := by
  rcases Program.reach_ends w stmts with ⟨_, same, sound⟩ | overflow
  · cases reached.symm.trans same
    exact sound
  · cases reached.symm.trans overflow

open Check in
/-- The statements behind those that a check has got through are met where these have led to. -/
theorem Program.Meets.of_reach {p : Program} {w : Bool} {before stmts : List Stmt} {s : Checker}
    (body : p.body = before ++ stmts) (reached : Program.reach w before = .ok s) :
    p.Meets w (.stmts stmts) s := by
  have walk (before : List Stmt) (s₀ : Checker) (met : p.Meets w (.stmts (before ++ stmts)) s₀) :
      Gives (checkStmts before) s₀ fun _ s' => p.Meets w (.stmts stmts) s' := by
    induction before generalizing s₀ with
    | nil =>
      rw [checkStmts]
      exact .pure met
    | cons stmt before ih =>
      rw [checkStmts]
      refine Gives.bind (fun _ _ run => run) fun first s₁ ran => ?_
      exact (ih s₁ (met.next ran)).bind fun _ s₂ later => .pure later
  obtain ⟨start, initial, rest⟩ := bind_eq_ok.mp reached
  obtain ⟨⟨checked, s'⟩, ran, final⟩ := bind_eq_ok.mp rest
  cases final
  exact walk before start (body ▸ .start initial) _ _ ran

/-- What is reached, as far as it can be computed. -/
theorem Program.reach_of_any (w : Bool) (stmts : List Stmt) (P : Checker → Bool)
    (computed : ((Program.reach w stmts).toOption.any P) = true) :
    ∃ s, Program.reach w stmts = .ok s ∧ P s = true := by
  cases run : Program.reach w stmts with
  | error fault =>
    rw [run] at computed
    cases computed
  | ok s =>
    rw [run] at computed
    exact ⟨s, rfl, computed⟩

end ShapeLang
