import Mathlib.Data.List.Induction
import ShapeLang.Proofs.Recheck

/-!
# The function list

A function literal that checks has its type in its slot and on the function list. The list
is read off the checked tree: it holds the types in the slots of the literals, in the order
in which their checks end, each type where it first comes up. A literal that fails has an
empty slot, but what stands in its body may be on the list.
-/

namespace ShapeLang

/-! ## Equal types -/

mutual

/-- By induction on both types: whether two types are equal does not hang on their order. -/
theorem Ty.beq_comm : (a b : Ty) → a.beq b = b.beq a
  | .classValue id _, b => by cases b <;> simp [Ty.beq, Bool.beq_comm]
  | .object name id generics, b => by
      cases b <;> simp [Ty.beq, Bool.beq_comm, Ty.beqList_comm generics]
  | .func os, b => by cases b <;> simp [Ty.beq, Ty.beqOverloads_comm os]
  | .array item, b => by cases b <;> simp [Ty.beq, Ty.beq_comm item]
  | .tuple items, b => by cases b <;> simp [Ty.beq, Ty.beqRuns_comm items]
  | .spread items, b => by cases b <;> simp [Ty.beq, Ty.beqRuns_comm items]
  | .maybe item, b => by cases b <;> simp [Ty.beq, Ty.beq_comm item]
  | .noneType, b => by cases b <;> simp [Ty.beq]
termination_by structural a => a

theorem Ty.beqList_comm : (as bs : List Ty) → Ty.beqList as bs = Ty.beqList bs as
  | [], bs => by cases bs <;> simp [Ty.beqList]
  | a :: as, bs => by cases bs <;> simp [Ty.beqList, Ty.beq_comm a, Ty.beqList_comm as]
termination_by structural as => as

theorem Ty.beqRuns_comm : (r s : Runs Ty) → Ty.beqRuns r s = Ty.beqRuns s r
  | .nil, s => by cases s <;> simp [Ty.beqRuns]
  | .cons a n r, s => by
      cases s <;> simp [Ty.beqRuns, Bool.beq_comm, Ty.beq_comm a, Ty.beqRuns_comm r]
termination_by structural r => r

theorem Ty.beqOverloads_comm : (os ps : List Overload) →
    Ty.beqOverloads os ps = Ty.beqOverloads ps os
  | [], ps => by cases ps <;> simp [Ty.beqOverloads]
  | o :: os, ps => by
      cases ps <;> simp [Ty.beqOverloads, Overload.beq_comm o, Ty.beqOverloads_comm os]
termination_by structural os => os

theorem Overload.beq_comm : (o p : Overload) → o.beq p = p.beq o
  | ⟨generics, params, result⟩, p => by
      cases p
      simp [Overload.beq, Bool.beq_comm, Ty.beqList_comm params, Ty.beq_comm result]
termination_by structural o => o

end

theorem Ty.beqOverloads_eq (os ps : List Overload) : Ty.beqOverloads os ps = (os == ps) := by
  induction os generalizing ps with
  | nil => cases ps <;> simp [Ty.beqOverloads]
  | cons o os ih =>
    cases ps with
    | nil => simp [Ty.beqOverloads]
    | cons p ps =>
      rw [Ty.beqOverloads, ih]
      rfl

theorem Ty.func_beq_func (os ps : List Overload) : (Ty.func os == Ty.func ps) = (os == ps) := by
  show Ty.beq (.func os) (.func ps) = _
  rw [Ty.beq, Ty.beqOverloads_eq]

theorem Ty.contains_func (known : List (List Overload)) (os : List Overload) :
    (known.map Ty.func).contains (.func os) = known.contains os := by
  simp [List.contains_eq_any_beq, Ty.func_beq_func, Function.comp_def]

/-! ## Dropping what was there before -/

section

variable {α : Type} [BEq α]

/-- An entry at the end stays if no entry before it is equal to it. -/
theorem eraseDups_concat (as : List α) (a : α) :
    (as ++ [a]).eraseDups =
      if as.eraseDups.contains a then as.eraseDups else as.eraseDups ++ [a] := by
  have each (seen : List α) : List.eraseDupsBy.loop (· == ·) (as ++ [a]) seen =
      if (List.eraseDupsBy.loop (· == ·) as seen).contains a
      then List.eraseDupsBy.loop (· == ·) as seen
      else List.eraseDupsBy.loop (· == ·) as seen ++ [a] := by
    induction as generalizing seen with
    | nil =>
      simp only [List.nil_append, List.eraseDupsBy.loop, List.contains_eq_any_beq,
        List.any_reverse]
      split <;> simp_all
    | cons b as ih =>
      rw [List.cons_append, List.eraseDupsBy.loop, List.eraseDupsBy.loop]
      split <;> exact ih _
  exact each []

/-- What is left of a list without duplicates has no two equal elements. -/
theorem pairwise_eraseDups (as : List α) :
    as.eraseDups.Pairwise fun a b => (b == a) = false := by
  induction as using List.reverseRecOn with
  | nil => exact .nil
  | append_singleton as a ih =>
    rw [eraseDups_concat]
    split
    · exact ih
    · rename_i new
      rw [List.contains_eq_any_beq, List.any_eq_true] at new
      refine List.pairwise_append.mpr ⟨ih, List.pairwise_singleton _ _, fun b listed c last => ?_⟩
      cases List.mem_singleton.mp last
      exact Bool.eq_false_iff.mpr fun same => new ⟨b, listed, same⟩

end

/-! ## The types in the slots -/

mutual

/-- The types in the slots of the function literals in an expression, in the order in which
the checks of the literals end: what stands in a body comes before the literal. -/
def Expr.functionTypes : Expr → List Ty
  | .literal _ _ | .symbol _ _ => []
  | .member object _ _ => object.functionTypes
  | .call callee args _ => callee.functionTypes ++ Expr.functionTypesAll args
  | .index object position _ => object.functionTypes ++ position.functionTypes
  | .construct _ args _ => Expr.functionTypesAll args
  | .cast value _ _ => value.functionTypes
  | .tuple items _ => Expr.functionTypesAll items
  | .spread value _ => value.functionTypes
  | .array items _ => Expr.functionTypesAll items
  | .binary left _ right _ => left.functionTypes ++ right.functionTypes
  | .function _ _ _ body note => body.functionTypes ++ note.type.toList

def Expr.functionTypesAll : List Expr → List Ty
  | [] => []
  | e :: es => e.functionTypes ++ Expr.functionTypesAll es

def Expr.functionTypesAny : Option Expr → List Ty
  | none => []
  | some e => e.functionTypes

/-- The condition of a `do` loop is checked after its body, all else in the order in which it
is written. -/
def Stmt.functionTypes : Stmt → List Ty
  | .expr value _ => value.functionTypes
  | .define _ value _ _ => value.functionTypes
  | .declare _ _ value _ _ => Expr.functionTypesAny value
  | .classDecl _ _ => []
  | .methods _ body _ => body.functionTypes
  | .ifElse condition yes no _ =>
      condition.functionTypes ++ yes.functionTypes ++ Block.functionTypesAny no
  | .whileLoop condition body _ => condition.functionTypes ++ body.functionTypes
  | .doWhile body condition _ => body.functionTypes ++ condition.functionTypes
  | .switch subject cases otherwise _ =>
      subject.functionTypes ++ Case.functionTypesAll cases ++ Block.functionTypesAny otherwise
  | .return value _ => Expr.functionTypesAny value

def Stmt.functionTypesAll : List Stmt → List Ty
  | [] => []
  | stmt :: stmts => stmt.functionTypes ++ Stmt.functionTypesAll stmts

def Block.functionTypes : Block → List Ty
  | ⟨body, _⟩ => Stmt.functionTypesAll body

def Block.functionTypesAny : Option Block → List Ty
  | none => []
  | some block => block.functionTypes

def Case.functionTypesAll : List Case → List Ty
  | [] => []
  | ⟨pattern, body, _⟩ :: cases =>
      pattern.functionTypes ++ body.functionTypes ++ Case.functionTypesAll cases

def Pattern.functionTypes : Pattern → List Ty
  | .type _ _ => []
  | .value value => value.functionTypes

end

def Program.functionTypes (p : Program) : List Ty := Stmt.functionTypesAll p.body

mutual

/-- A tree without notes has no function types noted. -/
theorem Expr.functionTypes_bare : (e : Expr) → e.bare.functionTypes = []
  | .literal _ _ | .symbol _ _ => rfl
  | .member object _ _ => object.functionTypes_bare
  | .call callee args _ => by
      rw [Expr.bare, Expr.functionTypes, callee.functionTypes_bare,
        Expr.functionTypesAll_bare args, List.append_nil]
  | .index object position _ => by
      rw [Expr.bare, Expr.functionTypes, object.functionTypes_bare, position.functionTypes_bare,
        List.append_nil]
  | .construct _ args _ => Expr.functionTypesAll_bare args
  | .cast value _ _ => value.functionTypes_bare
  | .tuple items _ => Expr.functionTypesAll_bare items
  | .spread value _ => value.functionTypes_bare
  | .array items _ => Expr.functionTypesAll_bare items
  | .binary left _ right _ => by
      rw [Expr.bare, Expr.functionTypes, left.functionTypes_bare, right.functionTypes_bare,
        List.append_nil]
  | .function _ _ _ body _ => by
      rw [Expr.bare, Expr.functionTypes, body.functionTypes_bare]
      rfl

theorem Expr.functionTypesAll_bare : (es : List Expr) →
    Expr.functionTypesAll (Expr.bareAll es) = []
  | [] => rfl
  | e :: es => by
      rw [Expr.bareAll, Expr.functionTypesAll, e.functionTypes_bare,
        Expr.functionTypesAll_bare es, List.append_nil]

theorem Expr.functionTypesAny_bare : (e : Option Expr) →
    Expr.functionTypesAny (Expr.bareAny e) = []
  | none => rfl
  | some e => e.functionTypes_bare

theorem Stmt.functionTypes_bare : (stmt : Stmt) → stmt.bare.functionTypes = []
  | .expr value _ | .define _ value _ _ => value.functionTypes_bare
  | .declare _ _ value _ _ | .return value _ => Expr.functionTypesAny_bare value
  | .classDecl _ _ => rfl
  | .methods _ body _ => body.functionTypes_bare
  | .ifElse condition yes no _ => by
      rw [Stmt.bare, Stmt.functionTypes, condition.functionTypes_bare, yes.functionTypes_bare,
        Block.functionTypesAny_bare no, List.append_nil, List.append_nil]
  | .whileLoop condition body _ => by
      rw [Stmt.bare, Stmt.functionTypes, condition.functionTypes_bare, body.functionTypes_bare,
        List.append_nil]
  | .doWhile body condition _ => by
      rw [Stmt.bare, Stmt.functionTypes, condition.functionTypes_bare, body.functionTypes_bare,
        List.append_nil]
  | .switch subject cases otherwise _ => by
      rw [Stmt.bare, Stmt.functionTypes, subject.functionTypes_bare,
        Case.functionTypesAll_bare cases, Block.functionTypesAny_bare otherwise, List.append_nil,
        List.append_nil]

theorem Stmt.functionTypesAll_bare : (stmts : List Stmt) →
    Stmt.functionTypesAll (Stmt.bareAll stmts) = []
  | [] => rfl
  | stmt :: stmts => by
      rw [Stmt.bareAll, Stmt.functionTypesAll, stmt.functionTypes_bare,
        Stmt.functionTypesAll_bare stmts, List.append_nil]

theorem Block.functionTypes_bare : (block : Block) → block.bare.functionTypes = []
  | ⟨body, _⟩ => Stmt.functionTypesAll_bare body

theorem Block.functionTypesAny_bare : (block : Option Block) →
    Block.functionTypesAny (Block.bareAny block) = []
  | none => rfl
  | some block => block.functionTypes_bare

theorem Case.functionTypesAll_bare : (cases : List Case) →
    Case.functionTypesAll (Case.bareAll cases) = []
  | [] => rfl
  | ⟨pattern, body, _⟩ :: cases => by
      rw [Case.bareAll, Case.functionTypesAll, pattern.functionTypes_bare,
        body.functionTypes_bare, Case.functionTypesAll_bare cases, List.append_nil, List.append_nil]

theorem Pattern.functionTypes_bare : (pattern : Pattern) → pattern.bare.functionTypes = []
  | .type _ _ => rfl
  | .value value => value.functionTypes_bare

end

theorem Program.functionTypes_bare (p : Program) : p.bare.functionTypes = [] := by
  rw [Program.functionTypes, Program.bare, ← Stmt.bareAll_eq, Stmt.functionTypesAll_bare]

namespace Check

variable {α β : Type}

/-! ## Steps that list nothing -/

def Spares (m : Check α) : Prop := ∀ s, Gives m s fun _ s' => s'.functions = s.functions

namespace Spares

theorem pure (a : α) : Spares (Pure.pure a : Check α) := fun _ => .pure rfl

/-- Steps that leave the function list alone can be put one behind the other. -/
theorem bind {m : Check α} {f : α → Check β} (first : Spares m)
    (rest : ∀ a, Yields m a → Spares (f a)) : Spares (m >>= f) := by
  intro s
  refine (first s).ran.bind fun a s₁ ⟨ran, same⟩ => ?_
  exact (rest a ⟨s, s₁, ran⟩ s₁).imp fun _ _ later => later.trans same

theorem of_reports {m : Check (Option α)} (reports : ∀ s, Reports anywhere m s) : Spares m := by
  intro s
  refine (reports s).gives.imp fun result s' outcome => ?_
  rcases outcome with ⟨_, rfl⟩ | ⟨_, problem, span, _, rfl⟩ <;> rfl

end Spares

theorem read_spares (name : String) (span : Span) : Spares (read name span) := by
  intro s
  refine (read_outcome name span).imp fun _ s' outcome => ?_
  cases outcome <;> rfl

theorem sparingSteps : StepParts anywhere (Always @Spares) where
  pure _ := .pure _
  bind := .bind
  resume _ := id
  lift x s := by
    cases x with
    | error fault =>
      intro _ _ run
      cases run
    | ok a => exact .pure rfl
  asks _ rest s := .after_get (rest s s)
  reports := .of_reports
  read name span _ := read_spares name span

theorem define_spares (name : String) (type : Ty) (assigned : Assigned) (constant : Bool)
    (span : Span) : Spares (define name type assigned constant span) := by
  intro s
  refine (define_outcome name type assigned constant span).imp fun _ s' outcome => ?_
  cases outcome <;> rfl

theorem defineUnresolved_spares (name : String) (span : Span) :
    Spares (defineUnresolved name span) := by
  intro s
  refine .modify ?_
  split <;> rfl

theorem shadow_spares (name : String) (type : Ty) (span : Span) :
    Spares (shadow name type span) := fun _ => .modify rfl

/-- A merge makes no function type: it joins types that were noted before. -/
theorem mergeName_spares (arms : List Arm) (exhaustive : Bool) (span : Span) (name : String) :
    Spares (mergeName arms exhaustive span name) := by
  intro s
  refine (mergeName_outcome arms exhaustive span name).imp fun _ s' outcome => ?_
  cases outcome <;> rfl

theorem recordReturn_spares (value : Ty) (span : Span) : Spares (recordReturn value span) := by
  intro s
  refine (recordReturn_outcome value span).imp fun _ s' outcome => ?_
  cases outcome <;> rfl

theorem warnIf_spares (wanted : Bool) (problem : Problem) (span : Span) :
    Spares (warnIf wanted problem span) := by
  cases wanted with
  | false => exact .pure _
  | true => exact fun _ => .modify rfl

/-- A class declaration makes no function type either: the constructors of a class are no
functions. -/
theorem declareNamed_spares (decl : ClassDecl) (span : Span) : Spares (declareNamed decl span) := by
  intro s
  refine (claimClass_outcome decl.name).bind fun result s₁ outcome => ?_
  cases outcome with
  | taken old => exact sparingSteps.fail _ trivial s
  | @claimed id classes free declared =>
    refine .after_get (.after_lift fun type _ => ?_)
    refine (define_spares _ _ _ _ _ _).bind fun bound s₂ defined => ?_
    cases bound with
    | none => exact .pure defined
    | some bound =>
      refine (sparingSteps.collectFields _ (fun _ _ => Layout.all_of (fun _ => trivial) _) _).bind
        fun (_, fields) s₃ collected => ?_
      refine (sparingSteps.collectConstructors (fun _ _ _ _ => trivial) _).bind
        fun (_, constructors) s₄ kept => ?_
      refine .after_get (.after_lift fun filled _ => .after_lift fun registered _ => ?_)
      exact .after_set (.pure (kept.trans (collected.trans defined)))

theorem declareClass_spares (decl : ClassDecl) (span : Span) :
    Spares (declareClass decl span) := by
  intro s
  cases root : s.atRoot with
  | false =>
    refine .of_run (declareClass_inside decl span root) ?_
    exact Spares.bind (defineUnresolved_spares _ _) (fun _ _ => sparingSteps.fail _ trivial) s
  | true =>
    refine .of_run (declareClass_root decl span root) ?_
    exact Spares.bind (warnIf_spares _ _ _) (fun _ _ => .bind (warnIf_spares _ _ _)
      fun _ _ => declareNamed_spares decl span) s

/-- Whatever a statement does in its own frame leaves the function list alone. -/
theorem sparing : FrameParts anywhere (fun _ => True) (Always @Spares) (Throughout @Spares) where
  toStepParts := sparingSteps
  statement := id
  sequence := .bind
  continues _ := id
  weaken _ := id
  refuses _ _ first _ := .bind first fun _ _ => sparingSteps.fail _ trivial
  define name type assigned constant span _ := define_spares name type assigned constant span
  defineUnresolved := defineUnresolved_spares
  shadow := shadow_spares
  declareClass _ _ := declareClass_spares _ _
  mergeName merged exhaustive span name _ := mergeName_spares merged exhaustive span name
  setReturns _ _ := .modify rfl
  recordReturn value span _ := recordReturn_spares value span
  forget _ _ := trivial

theorem enterFunction_spares (declared : Option Ty) : Spares (enterFunction declared) :=
  fun _ => .modify rfl

theorem bindParams_spares (params : List Param) (types : List Ty) :
    Spares (bindParams params types) := by
  unfold bindParams
  induction params.zip types with
  | nil => exact .pure _
  | cons pair pairs ih => exact .bind (shadow_spares _ _ _) fun _ _ => ih

theorem exitFunction_spares : Spares exitFunction := by
  refine fun s => .after_get ?_
  split
  · exact .after_set (.pure rfl)
  · intro _ _ run
    cases run

theorem enterBranch_spares : Spares enterBranch := fun _ => .modify rfl

theorem exitBranch_spares : Spares exitBranch := by
  refine fun s => .after_get ?_
  split
  · exact .after_set (.pure rfl)
  · intro _ _ run
    cases run

/-! ## The walk -/

/-- With the types `before` listed last, the step lists what makes them `after a`, if it comes
to `a`. -/
def Lists (before : List Ty) (m : Check α) (after : α → List Ty) : Prop :=
  ∀ s known, s.functions.map Ty.func = (known ++ before).eraseDups →
    Gives m s fun a s' => s'.functions.map Ty.func = (known ++ after a).eraseDups

namespace Lists

variable {before : List Ty} {m : Check α} {f : α → Check β} {mid : α → List Ty}
  {after : β → List Ty}

theorem pure {b : β} (same : after b = before) : Lists before (Pure.pure b) after := by
  intro s known listed
  exact .pure (same ▸ listed)

theorem bind (first : Lists before m mid) (rest : ∀ a, Lists (mid a) (f a) after) :
    Lists before (m >>= f) after := by
  intro s known listed
  exact (first s known listed).bind fun a s₁ => rest a s₁ known

theorem spared (spares : Spares m) : Lists before m fun _ => before := by
  intro s known listed
  refine (spares s).imp fun a s' same => ?_
  rw [same, listed]

/-- A step that lists nothing comes first. -/
theorem skip (spares : Spares m) (rest : ∀ a, Lists before (f a) after) :
    Lists before (m >>= f) after := .bind (.spared spares) rest

/-- A step that lists nothing, with something noted of what it came to. -/
theorem noted {note : α → β} (spares : Spares m) (same : ∀ a, after (note a) = before) :
    Lists before (m >>= fun a => Pure.pure (note a)) after := .skip spares fun a => .pure (same a)

/-- What stands after other parts is listed after what they list. -/
theorem later (lists : Lists [] m mid) : Lists before m fun a => before ++ mid a := by
  intro s known listed
  refine (lists s (known ++ before) (by rwa [List.append_nil])).imp fun a s' now => ?_
  rw [now, List.append_assoc]

end Lists

/-- A function that is registered comes last, if it is not there already. -/
theorem registerFunction_lists (before : List Ty) (overloads : List Overload) :
    Lists before (registerFunction overloads) fun _ => before ++ [.func overloads] := by
  intro s known listed
  refine .modify ?_
  rw [← List.append_assoc, eraseDups_concat, ← listed, Ty.contains_func]
  split
  · rfl
  · exact List.map_append

theorem functionType_lists (before : List Ty) (params : List Ty) (declared returned : Option Ty)
    (span : Span) : Lists before (functionType params declared returned span)
      fun type => before ++ type.toList := by
  have give (overloads : List Overload) : Lists before (do
      registerFunction overloads
      return some (.func overloads) : Check (Option Ty)) fun type => before ++ type.toList :=
    .bind (registerFunction_lists before overloads) fun _ => .pure rfl
  cases declared with
  | none => cases returned <;> exact give _
  | some declared =>
    cases returned with
    | some returned => exact give _
    | none =>
      unfold functionType
      simp only
      split
      · exact give _
      · exact .noted (fun _ => .modify rfl) fun _ => List.append_nil _

mutual

/-- The walk, by structural induction: an expression lists the function types that its nodes are
noted with, in the order of the source. -/
theorem checkExpr_lists : (e : Expr) → e.functionTypes = [] →
    Lists [] (checkExpr e) fun checked => checked.1.functionTypes
  | .literal value note, _ => by
      rw [checkExpr]
      intro s known listed
      exact .after_get (.pure listed)
  | .symbol name note, _ => by
      rw [checkExpr]
      exact .noted (sparing.read _ trivial) fun _ => rfl
  | .member object name note, unlisted => by
      rw [checkExpr]
      refine .bind (checkExpr_lists object unlisted) fun (object, receiver) => ?_
      cases receiver with
      | none => exact .pure rfl
      | some receiver => exact .noted (.of_reports fun _ => member_reports _ _ trivial) fun _ => rfl
  | .call callee args note, unlisted => by
      obtain ⟨first, others⟩ := List.append_eq_nil_iff.mp unlisted
      rw [checkExpr]
      refine .bind (checkExpr_lists callee first) fun (callee, value) => ?_
      refine .bind (.later (checkExprs_lists args others)) fun (args, types) => ?_
      rcases value with _ | value <;> rcases types with _ | types
      case some.some =>
        exact .noted (.of_reports fun _ => callValue_reports _ _ _ trivial) fun _ => rfl
      all_goals exact .pure rfl
  | .index object position note, unlisted => by
      obtain ⟨first, second⟩ := List.append_eq_nil_iff.mp unlisted
      rw [checkExpr]
      refine .bind (checkExpr_lists object first) fun (object, receiver) => ?_
      refine .bind (.later (checkExpr_lists position second)) fun (position, place) => ?_
      rcases receiver with _ | receiver <;> rcases place with _ | place
      case some.some =>
        exact .noted (.of_reports fun _ => indexType_reports _ _ trivial trivial) fun _ => rfl
      all_goals exact .pure rfl
  | .construct name args note, unlisted => by
      rw [checkExpr]
      refine .skip (sparing.read _ trivial) fun value => ?_
      refine .bind (checkExprs_lists args unlisted) fun (args, types) => ?_
      rcases value with _ | value <;> rcases types with _ | types
      case some.some =>
        exact .noted (.of_reports fun _ => constructValue_reports _ _ trivial) fun _ => rfl
      all_goals exact .pure rfl
  | .cast value target note, unlisted => by
      rw [checkExpr]
      refine .bind (checkExpr_lists value unlisted) fun (value, source) => ?_
      refine .skip (sparing.resolveTerm trivial) fun wanted => ?_
      rcases source with _ | source <;> rcases wanted with _ | wanted
      case some.some => exact .noted (.of_reports fun _ => castTo_reports _ _ trivial) fun _ => rfl
      all_goals exact .pure rfl
  | .tuple items note, unlisted => by
      rw [checkExpr]
      refine .bind (checkExprs_lists items unlisted) fun (items, types) => ?_
      cases types with
      | none => exact .pure rfl
      | some types => exact .noted (.of_reports fun _ => tupleType_reports _) fun _ => rfl
  | .spread value note, unlisted => by
      rw [checkExpr]
      refine .bind (checkExpr_lists value unlisted) fun (value, inner) => ?_
      cases inner with
      | none => exact .pure rfl
      | some inner => exact .noted (.of_reports fun _ => spreadType_reports _ trivial) fun _ => rfl
  | .array items note, unlisted => by
      rw [checkExpr]
      refine .bind (checkExprs_lists items unlisted) fun (items, types) => ?_
      cases types with
      | none => exact .pure rfl
      | some types => exact .noted (.of_reports fun _ => arrayType_reports trivial _) fun _ => rfl
  | .binary left operator right note, unlisted => by
      obtain ⟨first, second⟩ := List.append_eq_nil_iff.mp unlisted
      rw [checkExpr]
      refine .bind (checkExpr_lists left first) fun (left, leftType) => ?_
      refine .bind (.later (checkExpr_lists right second)) fun (right, rightType) => ?_
      rcases leftType with _ | leftType <;> rcases rightType with _ | rightType
      case some.some => exact .noted (sparing.binaryType _ _ _ trivial trivial trivial) fun _ => rfl
      all_goals exact .pure rfl
  | .function generics params result body note, unlisted => by
      obtain ⟨inside, -⟩ := List.append_eq_nil_iff.mp unlisted
      -- A literal that fails lists no more than its body.
      have failed (body : Block) : Expr.functionTypes (.function generics params result body
          { note with type := none }) = body.functionTypes := List.append_nil _
      rw [checkExpr]
      split
      · exact .noted (sparing.fail _ trivial) fun _ => (failed body).trans inside
      · refine .skip (sparing.resolveTerms fun _ _ => trivial) fun types => ?_
        refine .skip (sparing.resolveResult fun _ _ => trivial) fun declared => ?_
        rcases types with _ | types <;> rcases declared with _ | declared
        case some.some =>
          refine .skip (enterFunction_spares _) fun _ => .skip (bindParams_spares _ _) fun _ => ?_
          refine .bind (checkBlock_lists body inside) fun (body, ok) => ?_
          refine .skip exitFunction_spares fun returned => ?_
          cases ok with
          | false => exact .pure (failed body)
          | true => exact .bind (functionType_lists _ _ _ _ _) fun _ => .pure rfl
        all_goals exact .pure ((failed body).trans inside)

theorem checkExprs_lists : (es : List Expr) → Expr.functionTypesAll es = [] →
    Lists [] (checkExprs es) fun checked => Expr.functionTypesAll checked.1
  | [], _ => .pure rfl
  | e :: es, unlisted => by
      obtain ⟨first, others⟩ := List.append_eq_nil_iff.mp unlisted
      rw [checkExprs]
      refine .bind (checkExpr_lists e first) fun (e, type) => ?_
      refine .bind (.later (checkExprs_lists es others)) fun (es, types) => ?_
      cases type <;> cases types <;> exact .pure rfl

/-- A statement lists the function types that the nodes in it are noted with. -/
theorem checkStmt_lists : (stmt : Stmt) → stmt.functionTypes = [] →
    Lists [] (checkStmt stmt) fun checked => checked.1.functionTypes
  | .expr value span, unlisted => by
      rw [checkStmt]
      exact .bind (checkExpr_lists value unlisted) fun _ => .pure rfl
  | .define names value constant span, unlisted => by
      rw [checkStmt]
      refine .bind (checkExpr_lists value unlisted) fun (value, type) => ?_
      cases type with
      | none => exact .skip (sparing.defineAllUnresolved _ _) fun _ => .pure rfl
      | some type => exact .skip (sparing.defineNames _ _ _ trivial) fun _ => .pure rfl
  | .declare name term none constant span, _ => by
      rw [checkStmt]
      refine .skip (sparing.resolveTerm trivial) fun type => ?_
      cases type with
      | none => exact .skip (defineUnresolved_spares _ _) fun _ => .pure rfl
      | some type =>
        refine .skip (define_spares _ _ _ _ _) fun bound => ?_
        cases bound <;> exact .pure rfl
  | .declare name term (some value) constant span, unlisted => by
      rw [checkStmt]
      refine .skip (sparing.resolveTerm trivial) fun declared => ?_
      refine .bind (checkExpr_lists value unlisted) fun (value, received) => ?_
      cases declared with
      | none => exact .skip (defineUnresolved_spares _ _) fun _ => .pure rfl
      | some type =>
        have bind (fitting : Option Unit) : Lists value.functionTypes (do
            match ← define name type .always constant span, fitting with
            | some (), some () => return (.declare name term (some value) constant span, some type)
            | _, _ => return (.declare name term (some value) constant span, none) :
            Check (Stmt × Option Ty)) fun checked => checked.1.functionTypes := by
          refine .skip (define_spares _ _ _ _ _) fun bound => ?_
          cases bound <;> cases fitting <;> exact .pure rfl
        cases received with
        | none => exact bind none
        | some received => exact .skip (sparing.expectType _ _ trivial) bind
  | .classDecl decl span, _ => by
      rw [checkStmt]
      exact .noted (declareClass_spares decl span) fun _ => rfl
  | .methods name body span, unlisted => by
      rw [checkStmt]
      exact .noted (sparing.fail _ trivial) fun _ => unlisted
  | .ifElse condition yes none span, unlisted => by
      obtain ⟨parts, -⟩ := List.append_eq_nil_iff.mp unlisted
      obtain ⟨first, second⟩ := List.append_eq_nil_iff.mp parts
      rw [checkStmt]
      refine .bind (checkExpr_lists condition first) fun (condition, type) => ?_
      refine .skip (sparing.conditionType _ trivial) fun _ => .skip enterBranch_spares fun _ => ?_
      refine .bind (.later (checkBlock_lists yes second)) fun (yes, yesOk) => ?_
      refine .skip exitBranch_spares fun _ => .noted (sparing.mergeArms _ _ trivial) fun _ => ?_
      exact List.append_nil _
  | .ifElse condition yes (some no) span, unlisted => by
      obtain ⟨parts, third⟩ := List.append_eq_nil_iff.mp unlisted
      obtain ⟨first, second⟩ := List.append_eq_nil_iff.mp parts
      rw [checkStmt]
      refine .bind (checkExpr_lists condition first) fun (condition, type) => ?_
      refine .skip (sparing.conditionType _ trivial) fun _ => .skip enterBranch_spares fun _ => ?_
      refine .bind (.later (checkBlock_lists yes second)) fun (yes, yesOk) => ?_
      refine .skip exitBranch_spares fun _ => .skip enterBranch_spares fun _ => ?_
      refine .bind (.later (checkBlock_lists no third)) fun (no, noOk) => ?_
      exact .skip exitBranch_spares fun _ => .noted (sparing.mergeArms _ _ trivial) fun _ => rfl
  | .whileLoop condition body span, unlisted => by
      obtain ⟨first, second⟩ := List.append_eq_nil_iff.mp unlisted
      rw [checkStmt]
      refine .bind (checkExpr_lists condition first) fun (condition, type) => ?_
      refine .skip (sparing.conditionType _ trivial) fun _ => .skip enterBranch_spares fun _ => ?_
      refine .bind (.later (checkBlock_lists body second)) fun (body, bodyOk) => ?_
      exact .skip exitBranch_spares fun _ => .noted (sparing.mergeArms _ _ trivial) fun _ => rfl
  | .doWhile body condition span, unlisted => by
      obtain ⟨first, second⟩ := List.append_eq_nil_iff.mp unlisted
      rw [checkStmt]
      refine .skip enterBranch_spares fun _ => ?_
      refine .bind (checkBlock_lists body first) fun (body, bodyOk) => ?_
      refine .bind (.later (checkExpr_lists condition second)) fun (condition, type) => ?_
      refine .skip (sparing.conditionType _ trivial) fun _ => ?_
      exact .skip exitBranch_spares fun _ => .noted (sparing.mergeArms _ _ trivial) fun _ => rfl
  | .switch subject cases none span, unlisted => by
      obtain ⟨parts, -⟩ := List.append_eq_nil_iff.mp unlisted
      obtain ⟨first, second⟩ := List.append_eq_nil_iff.mp parts
      rw [checkStmt]
      refine .bind (checkExpr_lists subject first) fun (subject, type) => ?_
      cases type with
      | none =>
        refine .pure ?_
        rw [Stmt.functionTypes, second, List.append_nil]
        exact List.append_nil _
      | some type =>
        refine .bind (.later (checkCases_lists type cases second)) fun (cases, arms, ok) => ?_
        exact .noted (sparing.mergeArms _ _ trivial) fun _ => List.append_nil _
  | .switch subject cases (some otherwise) span, unlisted => by
      obtain ⟨parts, third⟩ := List.append_eq_nil_iff.mp unlisted
      obtain ⟨first, second⟩ := List.append_eq_nil_iff.mp parts
      rw [checkStmt]
      refine .bind (checkExpr_lists subject first) fun (subject, type) => ?_
      cases type with
      | none =>
        refine .pure ?_
        rw [Stmt.functionTypes, second, third, List.append_nil]
        exact List.append_nil _
      | some type =>
        refine .bind (.later (checkCases_lists type cases second)) fun (cases, arms, ok) => ?_
        refine .skip enterBranch_spares fun _ => ?_
        refine .bind (.later (checkBlock_lists otherwise third)) fun (otherwise, ok) => ?_
        exact .skip exitBranch_spares fun _ => .noted (sparing.mergeArms _ _ trivial) fun _ => rfl
  | .return none span, _ => by
      rw [checkStmt]
      exact .noted (recordReturn_spares _ _) fun _ => rfl
  | .return (some value) span, unlisted => by
      rw [checkStmt]
      refine .bind (checkExpr_lists value unlisted) fun (value, type) => ?_
      cases type with
      | none => exact .pure rfl
      | some type => exact .noted (recordReturn_spares _ _) fun _ => rfl

theorem checkStmts_lists : (stmts : List Stmt) → Stmt.functionTypesAll stmts = [] →
    Lists [] (checkStmts stmts) fun checked => Stmt.functionTypesAll checked.1
  | [], _ => .pure rfl
  | stmt :: stmts, unlisted => by
      obtain ⟨first, others⟩ := List.append_eq_nil_iff.mp unlisted
      rw [checkStmts]
      refine .bind (checkStmt_lists stmt first) fun (stmt, type) => ?_
      exact .bind (.later (checkStmts_lists stmts others)) fun _ => .pure rfl

theorem checkBlock_lists : (block : Block) → block.functionTypes = [] →
    Lists [] (checkBlock block) fun checked => checked.1.functionTypes
  | ⟨body, span⟩, unlisted => by
      rw [checkBlock]
      exact .bind (checkStmts_lists body unlisted) fun _ => .pure rfl

theorem checkCases_lists (subject : Ty) : (cases : List Case) →
    Case.functionTypesAll cases = [] →
    Lists [] (checkCases subject cases) fun checked => Case.functionTypesAll checked.1
  | [], _ => .pure rfl
  | ⟨pattern, body, span⟩ :: cases, unlisted => by
      obtain ⟨parts, others⟩ := List.append_eq_nil_iff.mp unlisted
      obtain ⟨first, second⟩ := List.append_eq_nil_iff.mp parts
      rw [checkCases]
      refine .skip enterBranch_spares fun _ => ?_
      refine .bind (checkPattern_lists subject span pattern first) fun (pattern, _) => ?_
      refine .bind (.later (checkBlock_lists body second)) fun (body, _) => ?_
      refine .skip exitBranch_spares fun _ => ?_
      exact .bind (.later (checkCases_lists subject cases others)) fun _ => .pure rfl

theorem checkPattern_lists (subject : Ty) (span : Span) : (pattern : Pattern) →
    pattern.functionTypes = [] →
    Lists [] (checkPattern subject span pattern) fun checked => checked.1.functionTypes
  | .type name term, _ => by
      rw [checkPattern]
      exact .noted (sparing.typePattern _ _ trivial _) fun _ => rfl
  | .value value, unlisted => by
      rw [checkPattern]
      refine .bind (checkExpr_lists value unlisted) fun (value, type) => ?_
      cases type with
      | none => exact .pure rfl
      | some type => exact .noted (sparing.valuePattern _ _ trivial) fun _ => rfl

end

theorem checkProgram_lists (p : Program) (unlisted : p.functionTypes = []) :
    Lists [] (checkProgram p) fun checked => checked.1.functionTypes :=
  .bind (checkStmts_lists p.body unlisted) fun _ => .pure rfl

/-- The slot of a checked literal holds what its check came to. -/
theorem checkExpr_function_slot (generics : List String) (params : List Param)
    (result : Option TypeTerm) (body : Block) (note : Note) (s : Checker) :
    Gives (checkExpr (.function generics params result body note)) s fun checked _ =>
      ∃ inner, checked.1 = .function generics params result inner
        { note with type := checked.2 } := by
  rw [checkExpr]
  split
  · exact .after_fail (.pure ⟨_, rfl⟩)
  · refine Gives.any.bind fun types _ _ => Gives.any.bind fun declared _ _ => ?_
    rcases types with _ | types <;> rcases declared with _ | declared
    case some.some =>
      refine Gives.any.bind fun _ _ _ => Gives.any.bind fun _ _ _ => ?_
      refine Gives.any.bind fun (inner, ok) _ _ => Gives.any.bind fun _ _ _ => ?_
      cases ok with
      | false => exact .pure ⟨_, rfl⟩
      | true => exact Gives.any.bind fun _ _ _ => .pure ⟨_, rfl⟩
    all_goals exact .pure ⟨_, rfl⟩

end Check

theorem Checker.initial_functions {w : Bool} {s : Checker} (initial : Checker.initial w = .ok s) :
    s.functions = [] := by
  simp only [Checker.initial, bind_eq_ok] at initial
  obtain ⟨_, _, _, _, made⟩ := initial
  cases made
  rfl

/-- The function list of a program whose slots are empty: the types that its check has put into
the slots of the function literals, in the order in which the checks of the literals end and
without those that were there before. The slot of a literal holds what its check came to, so a
literal that fails adds nothing to what its body has. A program with a tuple that is too long
to be counted has no function list. -/
theorem Program.functions_recorded (p : Program) (w : Bool) (empty : p.bare = p) :
    ((∃ q c, p.check w = .ok (q, c) ∧ c.functions.map Ty.func = q.functionTypes.eraseDups ∧
      c.functions.Pairwise fun a b => (a == b) = false) ∨ p.check w = .error .countOverflow) ∧
    ∀ generics params result body note s,
      Check.Gives (Check.checkExpr (.function generics params result body note)) s
        fun checked _ => ∃ inner, checked.1 = .function generics params result inner
          { note with type := checked.2 } := by
  refine ⟨?_, Check.checkExpr_function_slot⟩
  refine (p.ran w).imp_left ?_
  rintro ⟨start, q, ok, s, c, ran, _⟩
  have unlisted : p.functionTypes = [] := by rw [← empty, p.functionTypes_bare]
  have listed : s.functions.map Ty.func = q.functionTypes.eraseDups := by
    refine Check.checkProgram_lists p unlisted start [] ?_ _ _ ran.walked
    rw [Checker.initial_functions ran.initial]
    rfl
  have distinct := pairwise_eraseDups q.functionTypes
  rw [← listed, List.pairwise_map] at distinct
  obtain rfl := Checker.finish_eq_ok ran.finished
  refine ⟨q, _, Program.check_eq_ok.mpr ⟨start, ok, s, ran⟩, listed, distinct.imp fun differ => ?_⟩
  rw [← Ty.func_beq_func]
  exact (Ty.beq_comm _ _).trans differ

/-- Two functions of one type, a function that fails after one in its body was taken, and a
generic function, whose body is left out. -/
def Program.literals : Program :=
  let note : Note := { span := .null }
  let same (type : String) : Expr := .function [] [⟨"x", .named type [] .null⟩] none
    ⟨[.return (some (.symbol "x" note)) .null], .null⟩ note
  let inside : Stmt := .define ["k"] (same "bool") false .null
  ⟨[.define ["f"] (same "int") false .null,
    .define ["g"] (same "int") false .null,
    .define ["h"] (.function [] [] none
      ⟨[inside, .return (some (.symbol "y" note)) .null], .null⟩ note) false .null,
    .define ["i"] (.function ["T"] [] none ⟨[.define ["k"] (same "string") false .null], .null⟩
      note) false .null], .null⟩

theorem Program.functions_recorded_literals : literals.bare = literals ∧
    ∃ q c, literals.check false = .ok (q, c) ∧
      c.functions.map Ty.func = q.functionTypes.eraseDups ∧
      (c.functions.Pairwise fun a b => (a == b) = false) ∧
      q.functionTypes.map Ty.text = ["(int) -> int", "(int) -> int", "(bool) -> bool"] ∧
      c.functions.map (Ty.text ∘ Ty.func) = ["(int) -> int", "(bool) -> bool"] := by
  have empty : literals.bare = literals := rfl
  obtain ⟨q', c', checked', computed⟩ := check_of_any (p := literals) (w := false)
    (P := fun q c =>
      q.functionTypes.map Ty.text == ["(int) -> int", "(int) -> int", "(bool) -> bool"] &&
      c.functions.map (Ty.text ∘ Ty.func) == ["(int) -> int", "(bool) -> bool"])
    (by decide +kernel)
  rcases functions_recorded literals false empty with
    ⟨⟨q, c, checked, listed, distinct⟩ | overflow, _⟩
  case inr => cases checked'.symm.trans overflow
  cases checked.symm.trans checked'
  obtain ⟨types, texts⟩ := Bool.and_eq_true_iff.mp computed
  exact ⟨empty, q', c', checked', listed, distinct, eq_of_beq types, eq_of_beq texts⟩

end ShapeLang
