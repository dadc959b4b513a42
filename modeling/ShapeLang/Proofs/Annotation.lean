import ShapeLang.Checked
import ShapeLang.Proofs.Path
import ShapeLang.Proofs.Steps

/-!
# What a check leaves of a tree

A check fills the slots of the notes, changes nothing else and never looks at what stood in them
before. Trees that differ in these slots only are compared by what is left of them when the slots
are empty. Two such trees are checked side by side: both checks take the same steps, leave the
same parts out and come to the same checker.
-/

namespace ShapeLang

def Note.bare (note : Note) : Note := ⟨note.span, none, none⟩

mutual

def Expr.bare : Expr → Expr
  | .literal value note => .literal value note.bare
  | .symbol name note => .symbol name note.bare
  | .member object name note => .member object.bare name note.bare
  | .call callee args note => .call callee.bare (Expr.bareAll args) note.bare
  | .index object position note => .index object.bare position.bare note.bare
  | .construct name args note => .construct name (Expr.bareAll args) note.bare
  | .cast value target note => .cast value.bare target note.bare
  | .tuple items note => .tuple (Expr.bareAll items) note.bare
  | .spread value note => .spread value.bare note.bare
  | .array items note => .array (Expr.bareAll items) note.bare
  | .binary left operator right note => .binary left.bare operator right.bare note.bare
  | .function generics params result body note =>
      .function generics params result body.bare note.bare

def Expr.bareAll : List Expr → List Expr
  | [] => []
  | e :: es => e.bare :: Expr.bareAll es

def Expr.bareAny : Option Expr → Option Expr
  | none => none
  | some e => some e.bare

def Stmt.bare : Stmt → Stmt
  | .expr value span => .expr value.bare span
  | .define names value constant span => .define names value.bare constant span
  | .declare name term value constant span =>
      .declare name term (Expr.bareAny value) constant span
  | .classDecl decl span => .classDecl decl span
  | .methods name body span => .methods name body.bare span
  | .ifElse condition yes no span => .ifElse condition.bare yes.bare (Block.bareAny no) span
  | .whileLoop condition body span => .whileLoop condition.bare body.bare span
  | .doWhile body condition span => .doWhile body.bare condition.bare span
  | .switch subject cases otherwise span =>
      .switch subject.bare (Case.bareAll cases) (Block.bareAny otherwise) span
  | .return value span => .return (Expr.bareAny value) span

def Stmt.bareAll : List Stmt → List Stmt
  | [] => []
  | stmt :: stmts => stmt.bare :: Stmt.bareAll stmts

def Block.bare : Block → Block
  | ⟨body, span⟩ => ⟨Stmt.bareAll body, span⟩

def Block.bareAny : Option Block → Option Block
  | none => none
  | some block => some block.bare

def Case.bareAll : List Case → List Case
  | [] => []
  | ⟨pattern, body, span⟩ :: cases => ⟨pattern.bare, body.bare, span⟩ :: Case.bareAll cases

def Pattern.bare : Pattern → Pattern
  | .type name term => .type name term
  | .value value => .value value.bare

end

def Case.bare (c : Case) : Case := ⟨c.pattern.bare, c.body.bare, c.span⟩

@[simp] theorem Expr.bareAll_eq (es : List Expr) : Expr.bareAll es = es.map Expr.bare :=
  eq_map_of_cons rfl (fun _ _ => rfl) es

@[simp] theorem Expr.bareAny_eq (e : Option Expr) : Expr.bareAny e = e.map Expr.bare := by
  cases e <;> rfl

@[simp] theorem Stmt.bareAll_eq (stmts : List Stmt) :
    Stmt.bareAll stmts = stmts.map Stmt.bare :=
  eq_map_of_cons rfl (fun _ _ => rfl) stmts

@[simp] theorem Block.bareAny_eq (block : Option Block) :
    Block.bareAny block = block.map Block.bare := by
  cases block <;> rfl

@[simp] theorem Case.bareAll_eq (cases : List Case) :
    Case.bareAll cases = cases.map Case.bare :=
  eq_map_of_cons rfl (by rintro ⟨_, _, _⟩ _; rfl) cases

theorem Block.body_bare (block : Block) : block.bare.body = block.body.map Stmt.bare := by
  cases block
  exact Stmt.bareAll_eq _

/-! ## What the slots do not touch -/

/-- Two notes differ at most in their types if their places are the same. -/
theorem Note.bare_eq_bare {a b : Note} : a.bare = b.bare ↔ a.span = b.span := by
  simp [Note.bare]

theorem Expr.span_bare (e : Expr) : e.bare.span = e.span := by
  cases e <;> rfl

/-- A tree's place does not hang on what has been noted in it. -/
theorem Expr.span_of_bare {e d : Expr} (same : e.bare = d.bare) : e.span = d.span := by
  rw [← e.span_bare, same, d.span_bare]

theorem Expr.calleeName_bare (e : Expr) : e.bare.calleeName = e.calleeName := by
  cases e <;> rfl

theorem Expr.calleeName_of_bare {e d : Expr} (same : e.bare = d.bare) :
    e.calleeName = d.calleeName := by
  rw [← e.calleeName_bare, same, d.calleeName_bare]

/-- What a pattern hides from the rest of the arm is written in the source, not in the notes. -/
theorem Arm.forget_bare (arm : Arm) (pattern : Pattern) :
    arm.forget pattern.bare = arm.forget pattern := by
  cases pattern <;> rfl

/-- The names a pattern binds are written in the source, not in the notes. -/
theorem Pattern.binds_bare (pattern : Pattern) : pattern.bare.binds = pattern.binds := by
  cases pattern <;> rfl

theorem Pattern.parts_bare (pattern : Pattern) :
    pattern.bare.parts = pattern.parts.map Expr.bare := by
  cases pattern <;> rfl

namespace Expr

theorem names_bare (e : Expr) : e.bare.names = e.names := by
  cases e <;> rfl

theorem parts_bare (e : Expr) : e.bare.parts = e.parts.map bare := by
  cases e <;> simp [bare, parts]

theorem bare_eq_symbol {e : Expr} {name : String} {note : Note}
    (same : e.bare = (symbol name note).bare) : ∃ note', e = symbol name note' := by
  cases e <;> simp only [bare, reduceCtorEq, symbol.injEq] at same
  obtain ⟨rfl, _⟩ := same
  exact ⟨_, rfl⟩

theorem bare_eq_binary {e left right : Expr} {operator : Token} {note : Note}
    (same : e.bare = (binary left operator right note).bare) :
    ∃ left' right' note', e = binary left' operator right' note' := by
  cases e <;> simp only [bare, reduceCtorEq, binary.injEq] at same
  obtain ⟨_, rfl, _⟩ := same
  exact ⟨_, _, _, rfl⟩

/-- A tree that is a function but for the notes is a function with the same parameters and
result, and a body that is the same but for its own notes. -/
theorem bare_eq_function {e : Expr} {generics : List String} {params : List Param}
    {result : Option TypeTerm} {body : Block} {note : Note}
    (same : e.bare = (function generics params result body note).bare) :
    ∃ body' note', e = function generics params result body' note' ∧
      body'.body.map Stmt.bare = body.body.map Stmt.bare := by
  cases e <;> simp only [bare, reduceCtorEq, function.injEq] at same
  obtain ⟨rfl, rfl, rfl, bodies, _⟩ := same
  refine ⟨_, _, rfl, ?_⟩
  rw [← Block.body_bare, bodies, Block.body_bare]

end Expr

/-! ## Checks -/

namespace Check

variable {α β γ δ : Type}

/-- From the checker the two steps come to the same: they fault alike, or end in one checker
with related results. -/
def Paired (m : Check α) (m' : Check β) (s : Checker) (related : α → β → Prop) : Prop :=
  (∃ fault, m s = .error fault ∧ m' s = .error fault) ∨
    ∃ a b s', m s = .ok (a, s') ∧ m' s = .ok (b, s') ∧ related a b

namespace Paired

variable {s : Checker} {related : α → β → Prop} {m : Check α} {m' : Check β}
  {f : α → Check γ} {f' : β → Check δ} {related' : γ → δ → Prop}

theorem pure {a : α} {b : β} (holds : related a b) :
    Paired (Pure.pure a) (Pure.pure b) s related :=
  .inr ⟨a, b, s, rfl, rfl, holds⟩

/-- Two checks that go side by side keep doing so: they end in the same state, so what comes
next starts in the same state too. -/
theorem bind (first : Paired m m' s related)
    (rest : ∀ a b s', m s = .ok (a, s') → m' s = .ok (b, s') → related a b →
      Paired (f a) (f' b) s' related') :
    Paired (m >>= f) (m' >>= f') s related' := by
  rcases first with ⟨fault, left, right⟩ | ⟨a, b, s', left, right, holds⟩
  · exact .inl ⟨fault, bind_fault left, bind_fault right⟩
  · unfold Paired
    rw [bind_ok left, bind_ok right]
    exact rest a b s' left right holds

/-- A step that both take. -/
theorem step {f f' : α → Check γ} {related' : γ → γ → Prop}
    (rest : ∀ a s', Paired (f a) (f' a) s' related') :
    Paired (m >>= f) (m >>= f') s related' := by
  cases ran : m s with
  | error fault => exact .inl ⟨fault, bind_fault ran, bind_fault ran⟩
  | ok p =>
    unfold Paired
    rw [bind_ok ran, bind_ok ran]
    exact rest p.1 p.2

end Paired

/-- What comes of two trees that differ in their slots only, the second being `d`: the same
result and two trees that differ from `d` in their slots only. There is no change to `d` if it is
what the first has become. -/
inductive Again {T U R : Type} (bare : T → U) (d : T) : T × R → T × R → Prop where
  | intro (a b : T) (result : R) (kept : bare a = bare d ∧ bare b = bare a)
      (again : d = a → b = a) : Again bare d (a, result) (b, result)

mutual

/-- The walk by structural induction on the first tree: two expressions that are the same but
for their notes are checked alike, and both come out with the same tree. -/
theorem checkExpr_again : (e d : Expr) → d.bare = e.bare → (s : Checker) →
    Paired (checkExpr e) (checkExpr d) s (Again Expr.bare d)
  | .literal value note, d, same, s => by
      cases d <;> simp only [Expr.bare, reduceCtorEq, Expr.literal.injEq,
        Note.bare_eq_bare] at same
      obtain ⟨rfl, place⟩ := same
      rw [checkExpr, checkExpr]
      refine .step fun _ _ => .pure (.intro _ _ _ ?_ ?_)
      · simp [Expr.bare, Note.bare, place]
      · rintro ⟨⟩
        rfl
  | .symbol name note, d, same, s => by
      cases d <;> simp only [Expr.bare, reduceCtorEq, Expr.symbol.injEq,
        Note.bare_eq_bare] at same
      obtain ⟨rfl, place⟩ := same
      rw [checkExpr, checkExpr, place]
      refine .step fun _ _ => .pure (.intro _ _ _ ?_ ?_)
      · simp [Expr.bare, Note.bare, place]
      · rintro ⟨⟩
        rfl
  | .member object name note, d, same, s => by
      cases d <;> simp only [Expr.bare, reduceCtorEq, Expr.member.injEq,
        Note.bare_eq_bare] at same
      obtain ⟨first, rfl, place⟩ := same
      rw [checkExpr, checkExpr, place]
      refine (checkExpr_again object _ first s).bind ?_
      rintro _ _ s₁ _ _ ⟨object', object'', receiver, kept, again⟩
      cases receiver
      all_goals
        refine .step fun _ _ => .pure (.intro _ _ _ ?_ ?_)
        · simp [Expr.bare, Note.bare, kept, place]
        · rintro ⟨⟩
          rw [again rfl]
  | .call callee args note, d, same, s => by
      cases d <;> simp only [Expr.bare, reduceCtorEq, Expr.call.injEq,
        Note.bare_eq_bare, Expr.bareAll_eq] at same
      obtain ⟨first, others, place⟩ := same
      rw [checkExpr, checkExpr, place]
      refine (checkExpr_again callee _ first s).bind ?_
      rintro _ _ s₁ _ _ ⟨callee', callee'', value, kept, again⟩
      refine (checkExprs_again args _ others s₁).bind ?_
      rintro _ _ s₂ _ _ ⟨args', args'', types, kept', again'⟩
      dsimp only
      rw [Expr.calleeName_of_bare kept.2]
      cases value <;> cases types
      all_goals
        refine .step fun _ _ => .pure (.intro _ _ _ ?_ ?_)
        · simp [Expr.bare, Note.bare, kept, kept', place]
        · rintro ⟨⟩
          rw [again rfl, again' rfl]
  | .index object position note, d, same, s => by
      cases d <;> simp only [Expr.bare, reduceCtorEq, Expr.index.injEq,
        Note.bare_eq_bare] at same
      obtain ⟨first, second, place⟩ := same
      rw [checkExpr, checkExpr, place]
      refine (checkExpr_again object _ first s).bind ?_
      rintro _ _ s₁ _ _ ⟨object', object'', receiver, kept, again⟩
      refine (checkExpr_again position _ second s₁).bind ?_
      rintro _ _ s₂ _ _ ⟨position', position'', found, kept', again'⟩
      dsimp only
      rw [Expr.span_of_bare kept'.2]
      cases receiver <;> cases found
      all_goals
        refine .step fun _ _ => .pure (.intro _ _ _ ?_ ?_)
        · simp [Expr.bare, Note.bare, kept, kept', place]
        · rintro ⟨⟩
          rw [again rfl, again' rfl]
  | .construct name args note, d, same, s => by
      cases d <;> simp only [Expr.bare, reduceCtorEq, Expr.construct.injEq,
        Note.bare_eq_bare, Expr.bareAll_eq] at same
      obtain ⟨rfl, others, place⟩ := same
      rw [checkExpr, checkExpr, place]
      refine .step fun value s₁ => ?_
      refine (checkExprs_again args _ others s₁).bind ?_
      rintro _ _ s₂ _ _ ⟨args', args'', types, kept, again⟩
      cases value <;> cases types
      all_goals
        refine .step fun _ _ => .pure (.intro _ _ _ ?_ ?_)
        · simp [Expr.bare, Note.bare, kept, place]
        · rintro ⟨⟩
          rw [again rfl]
  | .cast value target note, d, same, s => by
      cases d <;> simp only [Expr.bare, reduceCtorEq, Expr.cast.injEq,
        Note.bare_eq_bare] at same
      obtain ⟨first, rfl, place⟩ := same
      rw [checkExpr, checkExpr, place]
      refine (checkExpr_again value _ first s).bind ?_
      rintro _ _ s₁ _ _ ⟨value', value'', source, kept, again⟩
      refine .step fun wanted _ => ?_
      cases source <;> cases wanted
      all_goals
        refine .step fun _ _ => .pure (.intro _ _ _ ?_ ?_)
        · simp [Expr.bare, Note.bare, kept, place]
        · rintro ⟨⟩
          rw [again rfl]
  | .tuple items note, d, same, s => by
      cases d <;> simp only [Expr.bare, reduceCtorEq, Expr.tuple.injEq,
        Note.bare_eq_bare, Expr.bareAll_eq] at same
      obtain ⟨others, place⟩ := same
      rw [checkExpr, checkExpr]
      refine (checkExprs_again items _ others s).bind ?_
      rintro _ _ s₁ _ _ ⟨items', items'', types, kept, again⟩
      cases types
      all_goals
        refine .step fun _ _ => .pure (.intro _ _ _ ?_ ?_)
        · simp [Expr.bare, Note.bare, kept, place]
        · rintro ⟨⟩
          rw [again rfl]
  | .spread value note, d, same, s => by
      cases d <;> simp only [Expr.bare, reduceCtorEq, Expr.spread.injEq,
        Note.bare_eq_bare] at same
      obtain ⟨first, place⟩ := same
      rw [checkExpr, checkExpr, place]
      refine (checkExpr_again value _ first s).bind ?_
      rintro _ _ s₁ _ _ ⟨value', value'', inner, kept, again⟩
      cases inner
      all_goals
        refine .step fun _ _ => .pure (.intro _ _ _ ?_ ?_)
        · simp [Expr.bare, Note.bare, kept, place]
        · rintro ⟨⟩
          rw [again rfl]
  | .array items note, d, same, s => by
      cases d <;> simp only [Expr.bare, reduceCtorEq, Expr.array.injEq,
        Note.bare_eq_bare, Expr.bareAll_eq] at same
      obtain ⟨others, place⟩ := same
      rw [checkExpr, checkExpr, place]
      refine (checkExprs_again items _ others s).bind ?_
      rintro _ _ s₁ _ _ ⟨items', items'', types, kept, again⟩
      cases types
      all_goals
        refine .step fun _ _ => .pure (.intro _ _ _ ?_ ?_)
        · simp [Expr.bare, Note.bare, kept, place]
        · rintro ⟨⟩
          rw [again rfl]
  | .binary left operator right note, d, same, s => by
      cases d <;> simp only [Expr.bare, reduceCtorEq, Expr.binary.injEq,
        Note.bare_eq_bare] at same
      obtain ⟨first, rfl, second, place⟩ := same
      rw [checkExpr, checkExpr, place]
      refine (checkExpr_again left _ first s).bind ?_
      rintro _ _ s₁ _ _ ⟨left', left'', leftType, kept, again⟩
      refine (checkExpr_again right _ second s₁).bind ?_
      rintro _ _ s₂ _ _ ⟨right', right'', rightType, kept', again'⟩
      dsimp only
      rw [Expr.span_of_bare kept.2, Expr.span_of_bare kept'.2]
      cases leftType <;> cases rightType
      all_goals
        refine .step fun _ _ => .pure (.intro _ _ _ ?_ ?_)
        · simp [Expr.bare, Note.bare, kept, kept', place]
        · rintro ⟨⟩
          rw [again rfl, again' rfl]
  | .function generics params result body note, d, same, s => by
      cases d <;> simp only [Expr.bare, reduceCtorEq, Expr.function.injEq,
        Note.bare_eq_bare] at same
      obtain ⟨rfl, rfl, rfl, inside, place⟩ := same
      rw [checkExpr, checkExpr, place]
      split
      · refine .step fun _ _ => .pure (.intro _ _ _ ?_ ?_)
        · simp [Expr.bare, Note.bare, inside, place]
        · rintro ⟨⟩
          rfl
      · refine .step fun types _ => .step fun declared _ => ?_
        rcases types with _ | types <;> rcases declared with _ | declared
        case some.some =>
          refine .step fun _ _ => .step fun _ s₁ => ?_
          refine (checkBlock_again body _ inside s₁).bind ?_
          rintro _ _ s₂ _ _ ⟨body', body'', ok, kept, again⟩
          refine .step fun returned _ => ?_
          cases ok with
          | false =>
            refine .pure (.intro _ _ _ ?_ ?_)
            · simp [Expr.bare, Note.bare, kept, place]
            · rintro ⟨⟩
              rw [again rfl]
          | true =>
            refine .step fun _ _ => .pure (.intro _ _ _ ?_ ?_)
            · simp [Expr.bare, Note.bare, kept, place]
            · rintro ⟨⟩
              rw [again rfl]
        -- the body is left out and stays as it was
        all_goals
          refine .pure (.intro _ _ _ ?_ ?_)
          · simp [Expr.bare, Note.bare, inside, place]
          · rintro ⟨⟩
            rfl
termination_by structural e => e

theorem checkExprs_again : (es ds : List Expr) → ds.map Expr.bare = es.map Expr.bare →
    (s : Checker) → Paired (checkExprs es) (checkExprs ds) s (Again (List.map Expr.bare) ds)
  | [], ds, same, s => by
      obtain rfl : ds = [] := List.map_eq_nil_iff.mp same
      rw [checkExprs]
      exact .pure (.intro _ _ _ ⟨rfl, rfl⟩ fun _ => rfl)
  | e :: es, ds, same, s => by
      cases ds with
      | nil => cases same
      | cons d ds =>
        obtain ⟨first, others⟩ := List.cons.inj same
        rw [checkExprs, checkExprs]
        refine (checkExpr_again e d first s).bind ?_
        rintro _ _ s₁ _ _ ⟨e', d', type, kept, again⟩
        refine (checkExprs_again es ds others s₁).bind ?_
        rintro _ _ s₂ _ _ ⟨es', ds', types, kept', again'⟩
        cases type <;> cases types
        all_goals
          refine .pure (.intro _ _ _ ?_ ?_)
          · simp [kept, kept']
          · rintro ⟨⟩
            rw [again rfl, again' rfl]
termination_by structural es => es

/-- Statements that are the same but for the notes in them are checked alike. -/
theorem checkStmt_again : (stmt other : Stmt) → other.bare = stmt.bare → (s : Checker) →
    Paired (checkStmt stmt) (checkStmt other) s (Again Stmt.bare other)
  | .expr value span, other, same, s => by
      cases other <;> simp only [Stmt.bare, reduceCtorEq, Stmt.expr.injEq] at same
      obtain ⟨first, rfl⟩ := same
      rw [checkStmt, checkStmt]
      refine (checkExpr_again value _ first s).bind ?_
      rintro _ _ s₁ _ _ ⟨value', value'', type, kept, again⟩
      refine .pure (.intro _ _ _ ?_ ?_)
      · simp [Stmt.bare, kept]
      · rintro ⟨⟩
        rw [again rfl]
  | .define names value constant span, other, same, s => by
      cases other <;> simp only [Stmt.bare, reduceCtorEq, Stmt.define.injEq] at same
      obtain ⟨rfl, first, rfl, rfl⟩ := same
      rw [checkStmt, checkStmt]
      refine (checkExpr_again value _ first s).bind ?_
      rintro _ _ s₁ _ _ ⟨value', value'', type, kept, again⟩
      cases type
      all_goals
        refine .step fun _ _ => .pure (.intro _ _ _ ?_ ?_)
        · simp [Stmt.bare, kept]
        · rintro ⟨⟩
          rw [again rfl]
  | .declare name term none constant span, other, same, s => by
      cases other <;> simp only [Stmt.bare, reduceCtorEq, Stmt.declare.injEq,
        Expr.bareAny_eq, Option.map_none, Option.map_eq_none_iff] at same
      obtain ⟨rfl, rfl, rfl, rfl, rfl⟩ := same
      rw [checkStmt]
      refine .step fun type _ => ?_
      cases type with
      | none => exact .step fun _ _ => .pure (.intro _ _ _ ⟨rfl, rfl⟩ fun _ => rfl)
      | some type =>
        refine .step fun bound _ => ?_
        cases bound <;> exact .pure (.intro _ _ _ ⟨rfl, rfl⟩ fun _ => rfl)
  | .declare name term (some value) constant span, other, same, s => by
      cases other <;> simp only [Stmt.bare, reduceCtorEq, Stmt.declare.injEq,
        Expr.bareAny_eq, Option.map_some, Option.map_eq_some_iff] at same
      obtain ⟨rfl, rfl, ⟨value₂, rfl, first⟩, rfl, rfl⟩ := same
      rw [checkStmt, checkStmt]
      refine .step fun declared s₁ => ?_
      refine (checkExpr_again value _ first s₁).bind ?_
      rintro _ _ s₂ _ _ ⟨value', value'', received, kept, again⟩
      cases declared with
      | none =>
        refine .step fun _ _ => .pure (.intro _ _ _ ?_ ?_)
        · simp [Stmt.bare, kept]
        · rintro ⟨⟩
          rw [again rfl]
      | some type =>
        dsimp only
        rw [Expr.span_of_bare kept.2]
        cases received
        all_goals
          refine .step fun fitting _ => .step fun bound _ => ?_
          cases bound <;> cases fitting
          all_goals
            refine .pure (.intro _ _ _ ?_ ?_)
            · simp [Stmt.bare, kept]
            · rintro ⟨⟩
              rw [again rfl]
  | .classDecl decl span, other, same, s => by
      cases other <;> simp only [Stmt.bare, reduceCtorEq, Stmt.classDecl.injEq] at same
      obtain ⟨rfl, rfl⟩ := same
      rw [checkStmt]
      exact .step fun _ _ => .pure (.intro _ _ _ ⟨rfl, rfl⟩ fun _ => rfl)
  | .methods name body span, other, same, s => by
      cases other <;> simp only [Stmt.bare, reduceCtorEq, Stmt.methods.injEq] at same
      obtain ⟨rfl, inside, rfl⟩ := same
      rw [checkStmt, checkStmt]
      refine .step fun _ _ => .pure (.intro _ _ _ ?_ ?_)
      · simp [Stmt.bare, inside]
      · rintro ⟨⟩
        rfl
  | .ifElse condition yes none span, other, same, s => by
      cases other <;> simp only [Stmt.bare, reduceCtorEq, Stmt.ifElse.injEq,
        Block.bareAny_eq, Option.map_none, Option.map_eq_none_iff] at same
      obtain ⟨first, second, rfl, rfl⟩ := same
      rw [checkStmt, checkStmt]
      refine (checkExpr_again condition _ first s).bind ?_
      rintro _ _ s₁ _ _ ⟨condition', condition'', type, kept, again⟩
      dsimp only
      rw [Expr.span_of_bare kept.2]
      refine .step fun _ _ => .step fun _ s₂ => ?_
      refine (checkBlock_again yes _ second s₂).bind ?_
      rintro _ _ s₃ _ _ ⟨yes', yes'', ok, kept', again'⟩
      refine .step fun _ _ => .step fun _ _ => .pure (.intro _ _ _ ?_ ?_)
      · simp [Stmt.bare, kept, kept']
      · rintro ⟨⟩
        rw [again rfl, again' rfl]
  | .ifElse condition yes (some no) span, other, same, s => by
      cases other <;> simp only [Stmt.bare, reduceCtorEq, Stmt.ifElse.injEq,
        Block.bareAny_eq, Option.map_some, Option.map_eq_some_iff] at same
      obtain ⟨first, second, ⟨no₂, rfl, third⟩, rfl⟩ := same
      rw [checkStmt, checkStmt]
      refine (checkExpr_again condition _ first s).bind ?_
      rintro _ _ s₁ _ _ ⟨condition', condition'', type, kept, again⟩
      dsimp only
      rw [Expr.span_of_bare kept.2]
      refine .step fun _ _ => .step fun _ s₂ => ?_
      refine (checkBlock_again yes _ second s₂).bind ?_
      rintro _ _ s₃ _ _ ⟨yes', yes'', ok, kept', again'⟩
      refine .step fun _ _ => .step fun _ s₄ => ?_
      refine (checkBlock_again no _ third s₄).bind ?_
      rintro _ _ s₅ _ _ ⟨no', no'', ok', kept'', again''⟩
      refine .step fun _ _ => .step fun _ _ => .pure (.intro _ _ _ ?_ ?_)
      · simp [Stmt.bare, kept, kept', kept'']
      · rintro ⟨⟩
        rw [again rfl, again' rfl, again'' rfl]
  | .whileLoop condition body span, other, same, s => by
      cases other <;> simp only [Stmt.bare, reduceCtorEq, Stmt.whileLoop.injEq] at same
      obtain ⟨first, second, rfl⟩ := same
      rw [checkStmt, checkStmt]
      refine (checkExpr_again condition _ first s).bind ?_
      rintro _ _ s₁ _ _ ⟨condition', condition'', type, kept, again⟩
      dsimp only
      rw [Expr.span_of_bare kept.2]
      refine .step fun _ _ => .step fun _ s₂ => ?_
      refine (checkBlock_again body _ second s₂).bind ?_
      rintro _ _ s₃ _ _ ⟨body', body'', ok, kept', again'⟩
      refine .step fun _ _ => .step fun _ _ => .pure (.intro _ _ _ ?_ ?_)
      · simp [Stmt.bare, kept, kept']
      · rintro ⟨⟩
        rw [again rfl, again' rfl]
  | .doWhile body condition span, other, same, s => by
      cases other <;> simp only [Stmt.bare, reduceCtorEq, Stmt.doWhile.injEq] at same
      obtain ⟨first, second, rfl⟩ := same
      rw [checkStmt, checkStmt]
      refine .step fun _ s₁ => ?_
      refine (checkBlock_again body _ first s₁).bind ?_
      rintro _ _ s₂ _ _ ⟨body', body'', ok, kept, again⟩
      refine (checkExpr_again condition _ second s₂).bind ?_
      rintro _ _ s₃ _ _ ⟨condition', condition'', type, kept', again'⟩
      dsimp only
      rw [Expr.span_of_bare kept'.2]
      refine .step fun _ _ => .step fun _ _ => .step fun _ _ => .pure (.intro _ _ _ ?_ ?_)
      · simp [Stmt.bare, kept, kept']
      · rintro ⟨⟩
        rw [again rfl, again' rfl]
  | .switch subject cases none span, other, same, s => by
      cases other <;> simp only [Stmt.bare, reduceCtorEq, Stmt.switch.injEq, Case.bareAll_eq,
        Block.bareAny_eq, Option.map_none, Option.map_eq_none_iff] at same
      obtain ⟨first, second, rfl, rfl⟩ := same
      rw [checkStmt, checkStmt]
      refine (checkExpr_again subject _ first s).bind ?_
      rintro _ _ s₁ _ _ ⟨subject', subject'', type, kept, again⟩
      cases type with
      | none =>
        refine .pure (.intro _ _ _ ?_ ?_)
        · simp [Stmt.bare, kept, second]
        · rintro ⟨⟩
          rw [again rfl]
      | some type =>
        refine (checkCases_again type cases _ second s₁).bind ?_
        rintro _ _ s₂ _ _ ⟨cases', cases'', arms, kept', again'⟩
        refine .step fun _ _ => .pure (.intro _ _ _ ?_ ?_)
        · simp [Stmt.bare, kept, kept']
        · rintro ⟨⟩
          rw [again rfl, again' rfl]
  | .switch subject cases (some otherwise) span, other, same, s => by
      cases other <;> simp only [Stmt.bare, reduceCtorEq, Stmt.switch.injEq, Case.bareAll_eq,
        Block.bareAny_eq, Option.map_some, Option.map_eq_some_iff] at same
      obtain ⟨first, second, ⟨otherwise₂, rfl, third⟩, rfl⟩ := same
      rw [checkStmt, checkStmt]
      refine (checkExpr_again subject _ first s).bind ?_
      rintro _ _ s₁ _ _ ⟨subject', subject'', type, kept, again⟩
      cases type with
      | none =>
        refine .pure (.intro _ _ _ ?_ ?_)
        · simp [Stmt.bare, kept, second, third]
        · rintro ⟨⟩
          rw [again rfl]
      | some type =>
        refine (checkCases_again type cases _ second s₁).bind ?_
        rintro _ _ s₂ _ _ ⟨cases', cases'', ⟨arms, ok⟩, kept', again'⟩
        refine .step fun _ s₃ => ?_
        refine (checkBlock_again otherwise _ third s₃).bind ?_
        rintro _ _ s₄ _ _ ⟨otherwise', otherwise'', ok', kept'', again''⟩
        refine .step fun _ _ => .step fun _ _ => .pure (.intro _ _ _ ?_ ?_)
        · simp [Stmt.bare, kept, kept', kept'']
        · rintro ⟨⟩
          rw [again rfl, again' rfl, again'' rfl]
  | .return none span, other, same, s => by
      cases other <;> simp only [Stmt.bare, reduceCtorEq, Stmt.return.injEq,
        Expr.bareAny_eq, Option.map_none, Option.map_eq_none_iff] at same
      obtain ⟨rfl, rfl⟩ := same
      rw [checkStmt]
      exact .step fun _ _ => .pure (.intro _ _ _ ⟨rfl, rfl⟩ fun _ => rfl)
  | .return (some value) span, other, same, s => by
      cases other <;> simp only [Stmt.bare, reduceCtorEq, Stmt.return.injEq,
        Expr.bareAny_eq, Option.map_some, Option.map_eq_some_iff] at same
      obtain ⟨⟨value₂, rfl, first⟩, rfl⟩ := same
      rw [checkStmt, checkStmt]
      refine (checkExpr_again value _ first s).bind ?_
      rintro _ _ s₁ _ _ ⟨value', value'', type, kept, again⟩
      cases type with
      | none =>
        refine .pure (.intro _ _ _ ?_ ?_)
        · simp [Stmt.bare, kept]
        · rintro ⟨⟩
          rw [again rfl]
      | some type =>
        refine .step fun _ _ => .pure (.intro _ _ _ ?_ ?_)
        · simp [Stmt.bare, kept]
        · rintro ⟨⟩
          rw [again rfl]
termination_by structural stmt => stmt

theorem checkStmts_again : (stmts others : List Stmt) →
    others.map Stmt.bare = stmts.map Stmt.bare → (s : Checker) →
    Paired (checkStmts stmts) (checkStmts others) s (Again (List.map Stmt.bare) others)
  | [], others, same, s => by
      obtain rfl : others = [] := List.map_eq_nil_iff.mp same
      rw [checkStmts]
      exact .pure (.intro _ _ _ ⟨rfl, rfl⟩ fun _ => rfl)
  | stmt :: stmts, others, same, s => by
      cases others with
      | nil => cases same
      | cons other others =>
        obtain ⟨first, rest⟩ := List.cons.inj same
        rw [checkStmts, checkStmts]
        refine (checkStmt_again stmt other first s).bind ?_
        rintro _ _ s₁ _ _ ⟨stmt', other', type, kept, again⟩
        refine (checkStmts_again stmts others rest s₁).bind ?_
        rintro _ _ s₂ _ _ ⟨stmts', others', ok, kept', again'⟩
        refine .pure (.intro _ _ _ ?_ ?_)
        · simp [kept, kept']
        · rintro ⟨⟩
          rw [again rfl, again' rfl]
termination_by structural stmts => stmts

theorem checkBlock_again : (block other : Block) → other.bare = block.bare → (s : Checker) →
    Paired (checkBlock block) (checkBlock other) s (Again Block.bare other)
  | ⟨body, span⟩, ⟨body₂, span₂⟩, same, s => by
      simp only [Block.bare, Block.mk.injEq, Stmt.bareAll_eq] at same
      obtain ⟨inside, rfl⟩ := same
      rw [checkBlock, checkBlock]
      refine (checkStmts_again body _ inside s).bind ?_
      rintro _ _ s₁ _ _ ⟨body', body'', ok, kept, again⟩
      refine .pure (.intro _ _ _ ?_ ?_)
      · simp [Block.bare, kept]
      · rintro ⟨⟩
        rw [again rfl]
termination_by structural block => block

/-- The cases of a `switch` are compared pair by pair, each pattern with its own block. -/
theorem checkCases_again (subject : Ty) : (cases others : List Case) →
    others.map Case.bare = cases.map Case.bare → (s : Checker) →
    Paired (checkCases subject cases) (checkCases subject others) s
      (Again (List.map Case.bare) others)
  | [], others, same, s => by
      obtain rfl : others = [] := List.map_eq_nil_iff.mp same
      rw [checkCases]
      exact .pure (.intro _ _ _ ⟨rfl, rfl⟩ fun _ => rfl)
  | ⟨pattern, body, span⟩ :: cases, others, same, s => by
      rcases others with _ | ⟨⟨pattern₂, body₂, span₂⟩, others⟩
      · cases same
      · obtain ⟨first, rest⟩ := List.cons.inj same
        simp only [Case.bare, Case.mk.injEq] at first
        obtain ⟨patterns, bodies, rfl⟩ := first
        rw [checkCases, checkCases]
        refine .step fun _ s₁ => ?_
        refine (checkPattern_again subject _ pattern _ patterns s₁).bind ?_
        rintro _ _ s₂ _ _ ⟨pattern', pattern'', ok, kept, again⟩
        refine (checkBlock_again body _ bodies s₂).bind ?_
        rintro _ _ s₃ _ _ ⟨body', body'', ok', kept', again'⟩
        refine .step fun arm s₄ => ?_
        refine (checkCases_again subject cases _ rest s₄).bind ?_
        rintro _ _ s₅ _ _ ⟨cases', cases'', ⟨arms, ok''⟩, kept'', again''⟩
        have forgets : arm.forget pattern'' = arm.forget pattern' := by
          rw [← arm.forget_bare pattern'', kept.2, arm.forget_bare]
        dsimp only
        rw [forgets]
        refine .pure (.intro _ _ _ ?_ ?_)
        · simp [Case.bare, kept, kept', kept'']
        · rintro ⟨⟩
          rw [again rfl, again' rfl, again'' rfl]
termination_by structural cases => cases

/-- Patterns that are the same but for the notes in them bind the same names and test the same
parts. -/
theorem checkPattern_again (subject : Ty) (span : Span) : (pattern other : Pattern) →
    other.bare = pattern.bare → (s : Checker) →
    Paired (checkPattern subject span pattern) (checkPattern subject span other) s
      (Again Pattern.bare other)
  | .type name term, other, same, s => by
      cases other <;> simp only [Pattern.bare, reduceCtorEq, Pattern.type.injEq] at same
      obtain ⟨rfl, rfl⟩ := same
      rw [checkPattern]
      exact .step fun _ _ => .pure (.intro _ _ _ ⟨rfl, rfl⟩ fun _ => rfl)
  | .value value, other, same, s => by
      cases other <;> simp only [Pattern.bare, reduceCtorEq, Pattern.value.injEq] at same
      rw [checkPattern, checkPattern]
      refine (checkExpr_again value _ same s).bind ?_
      rintro _ _ s₁ _ _ ⟨value', value'', type, kept, again⟩
      dsimp only
      rw [Expr.span_of_bare kept.2]
      cases type
      all_goals
        refine .step fun _ _ => .pure (.intro _ _ _ ?_ ?_)
        · simp [Pattern.bare, kept]
        · rintro ⟨⟩
          rw [again rfl]
termination_by structural pattern => pattern

end

/-- Side by side with itself, a tree is kept but for its slots. -/
theorem Paired.kept {T U R : Type} {bare : T → U} {d : T} {m : Check (T × R)} {s : Checker}
    (paired : Paired m m s (Again bare d)) :
    Gives m s fun checked _ => bare checked.1 = bare d := by
  intro checked s' ran
  rcases paired with ⟨fault, faulted, _⟩ | ⟨_, _, _, ran₁, _, ⟨a, b, result, kept, _⟩⟩
  · cases ran.symm.trans faulted
  · cases ran.symm.trans ran₁
    exact kept.1

/-- A check writes into the notes of an expression and leaves the rest of it as it was. -/
theorem checkExpr_bare (e : Expr) (s : Checker) :
    Gives (checkExpr e) s fun checked _ => checked.1.bare = e.bare :=
  (checkExpr_again e e rfl s).kept

/-- A check writes into the notes of a statement and leaves the rest of it as it was. -/
theorem checkStmt_bare (stmt : Stmt) (s : Checker) :
    Gives (checkStmt stmt) s fun checked _ => checked.1.bare = stmt.bare :=
  (checkStmt_again stmt stmt rfl s).kept

theorem checkStmts_bare (stmts : List Stmt) (s : Checker) :
    Gives (checkStmts stmts) s fun checked _ => checked.1.map Stmt.bare = stmts.map Stmt.bare :=
  (checkStmts_again stmts stmts rfl s).kept

end Check

end ShapeLang
