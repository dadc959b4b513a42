import ShapeLang.Proofs.ClassValues
import ShapeLang.Proofs.Recheck
import ShapeLang.Proofs.TupleSizes

/-!
# Spreading a tuple that is written down

To spread a tuple expression is to write its elements in its place. The elements go by way of
runs that are made for the tuple and then taken apart, or appended to those of the tuple
around it; as equal types are the same type, nothing is lost on the way. It is otherwise if the
tuple has more elements than a machine word counts: then the check overflows at the tuple, and
may never count its elements where they are written out.
-/

namespace ShapeLang

/-! ## Runs -/

namespace Runs

variable {α : Type} [BEq α] {P : α → Prop} {a b : α} {r s : Runs α}

theorem pushRun_cons (filled : r ≠ nil) (a b : α) (m n : Nat) :
    (cons b m r).pushRun a n = cons b m (r.pushRun a n) := by
  cases r with
  | nil => exact absurd rfl filled
  | cons c k r =>
    rw [pushRun]
    simp

theorem pushRun_ne_nil (filled : r ≠ nil) (a : α) (n : Nat) : r.pushRun a n ≠ nil := by
  cases r with
  | nil => exact absurd rfl filled
  | cons b m r =>
    cases r with
    | nil =>
      rw [pushRun]
      split
      · simp
      · split <;> simp
    | cons c k r => simp [pushRun_cons]

/-- Two runs of a value make one. -/
theorem pushRun_pushRun (self : (a == a) = true) (m n : Nat) (r : Runs α) :
    (r.pushRun a m).pushRun a n = r.pushRun a (m + n) := by
  by_cases none_ : n = 0
  · rw [none_, pushRun_zero, Nat.add_zero]
  fun_induction Runs.pushRun a m r with
  | case1 empty => rw [empty, Nat.zero_add]
  | case2 => simp [pushRun, none_, self]
  | case3 _ _ empty => rw [empty, Nat.zero_add]
  | case4 b k _ same => simp [pushRun, none_, same, Nat.add_assoc]
  | case5 b k _ differs => simp [pushRun, none_, differs, self]
  | case6 b k r filled ih =>
    rw [pushRun_cons (pushRun_ne_nil filled a m), ih, pushRun_cons filled]

/-- What is pushed onto the second list is pushed onto both. -/
theorem append_pushRun (self : (a == a) = true) (lawful : ∀ b, P b → (b == a) = true → b = a)
    (holds : s.Forall P) (n : Nat) (r : Runs α) :
    r.append (s.pushRun a n) = (r.append s).pushRun a n := by
  fun_induction Runs.pushRun a n s generalizing r with
  | case1 empty => rw [empty, pushRun_zero]
  | case2 => rfl
  | case3 _ _ empty => rw [empty, pushRun_zero]
  | case4 b m _ same =>
    obtain rfl := lawful b (forall_cons.mp holds).1 same
    exact (pushRun_pushRun self m n r).symm
  | case5 => rfl
  | case6 b m s _ ih => exact ih (forall_cons.mp holds).2 _

variable (self : ∀ a : α, (a == a) = true)
  (lawful : ∀ a b : α, P a → P b → (a == b) = true → a = b)
include self lawful

/-- Appending lawful runs is associative, also where runs meet and become one. -/
theorem append_append {u : Runs α} (holds : s.Forall P) (holds' : u.Forall P) (r : Runs α) :
    r.append (s.append u) = (r.append s).append u := by
  induction u generalizing s with
  | nil => rfl
  | cons a n u ih =>
    obtain ⟨first, rest⟩ := forall_cons.mp holds'
    rw [append, ih (holds.pushRun first n) rest, append,
      append_pushRun (self a) (fun b held => lawful b a held first) holds]

omit self in
theorem toList_append_of_lawful (holds : r.Forall P) (holds' : s.Forall P) :
    (r.append s).toList = r.toList ++ s.toList := by
  induction s generalizing r with
  | nil => rw [append, toList, List.append_nil]
  | cons a n s ih =>
    obtain ⟨first, rest⟩ := forall_cons.mp holds'
    rw [append, ih (holds.pushRun first n) rest,
      toList_pushRun (fun b held => lawful b a held first) holds, toList, List.append_assoc]

end Runs

/-! ## Types in a list -/

namespace Ty

variable {t : ClassTable} {types : List Ty} {r s : Runs Ty}

theorem beq_self (a : Ty) : (a == a) = true := a.beq_refl

theorem expand_append (as bs : List Ty) : expand (as ++ bs) = expand as ++ expand bs := by
  fun_induction expand as with
  | case1 => rfl
  | case2 r rest ih => rw [List.cons_append, expand, ih, List.append_assoc]
  | case3 other rest single ih =>
    rw [List.cons_append, expand, ih, List.cons_append]
    exact single

/-- Types whose class values go by their classes' names are equal only if they are the same. -/
theorem Called.lawful (a b : Ty) (called : a.Called t) (other : b.Called t)
    (same : (a == b) = true) : a = b := called.eq_of_beq other same

theorem gathered_append (r : Runs Ty) (as bs : List Ty) :
    gathered r (as ++ bs) = gathered (gathered r as) bs := List.foldl_append

/-- Collecting types behind runs appends what they come to on their own. -/
theorem append_gathered (called : ∀ type ∈ types, type.Called t) (start : s.Forall (Called t))
    (r : Runs Ty) : r.append (gathered s types) = gathered (r.append s) types := by
  induction types generalizing s with
  | nil => rfl
  | cons type types ih =>
    obtain ⟨first, others⟩ := List.forall_mem_cons.mp called
    have next := start.append first.contributes
    have one := Runs.append_append beq_self Called.lawful start first.contributes r
    exact (ih others next).trans (congrArg (gathered · types) one)

theorem toList_elements (type : Ty) : type.elements.toList = expand [type] := by
  cases type <;> simp [elements, Runs.toList, expand]

/-- A tuple has the elements of its items, in order and with the spreads laid open. -/
theorem toList_gathered (called : ∀ type ∈ types, type.Called t) (start : r.Forall (Called t)) :
    (gathered r types).toList = r.toList ++ expand types := by
  induction types generalizing r with
  | nil => exact (List.append_nil _).symm
  | cons type types ih =>
    obtain ⟨first, others⟩ := List.forall_mem_cons.mp called
    have next := start.append first.contributes
    have one := Runs.toList_append_of_lawful Called.lawful start first.contributes
    rw [gathered, List.foldl_cons, ← gathered, ih others next, one, List.append_assoc,
      toList_elements, ← expand_append]
    rfl

/-- The tuple has as many elements as the types that are taken apart. -/
theorem length_gathered_nil (called : ∀ type ∈ types, type.Called t) :
    (gathered .nil types).length = (expand types).length := by
  rw [← Runs.length_toList, toList_gathered called Runs.forall_nil]
  rfl

end Ty

/-- The types of two lists of items: neither has types, or the second has several in the place
of a spread tuple that is made of them. -/
inductive Spliced (t : ClassTable) : Option (List Ty) → Option (List Ty) → Prop where
  | failed : Spliced t none none
  | listed {types : List Ty} (called : ∀ type ∈ types, type.Called t) (before after : List Ty) :
      Spliced t (some (before ++ .spread (Ty.gathered .nil types) :: after))
        (some (before ++ (types ++ after)))

namespace Spliced

variable {t : ClassTable} {a b : Option (List Ty)}

theorem cons (spliced : Spliced t a b) (type : Ty) :
    Spliced t (a.map (type :: ·)) (b.map (type :: ·)) := by
  cases spliced with
  | failed => exact .failed
  | listed called before after => exact .listed called (type :: before) after

theorem expand (spliced : Spliced t a b) : a.map Ty.expand = b.map Ty.expand := by
  cases spliced with
  | failed => rfl
  | @listed types called before after =>
    have taken : (Ty.gathered .nil types).toList = Ty.expand types :=
      Ty.toList_gathered called Runs.forall_nil
    simp only [Option.map_some, Ty.expand_append]
    rw [Ty.expand, taken]

/-- Spliced lists come to the same tuple, run by run. -/
theorem collect (spliced : Spliced t a b) : a.map Ty.collect = b.map Ty.collect := by
  cases spliced with
  | failed => rfl
  | @listed types called before after =>
    have appended := Ty.append_gathered called Runs.forall_nil (Ty.gathered .nil before)
    have same : Ty.gathered .nil (before ++ .spread (Ty.gathered .nil types) :: after) =
        Ty.gathered .nil (before ++ (types ++ after)) := by
      rw [Ty.gathered_append, Ty.gathered_append, Ty.gathered_append]
      exact congrArg (Ty.gathered · after) appended
    simp only [Option.map_some, Ty.collect_eq, same]

end Spliced

/-! ## Checking the items -/

namespace Check

variable {α : Type} {t : ClassTable} {s s₁ s₂ : Checker}

/-- Only the first of the two takes the step. -/
theorem Paired.after_run {β γ : Type} {m : Check α} {f : α → Check β} {m' : Check γ} {a : α}
    {related : β → γ → Prop} (ran : m s = .ok (a, s)) (rest : Paired (f a) m' s related) :
    Paired (m >>= f) m' s related := by
  unfold Paired
  rw [bind_ok ran]
  exact rest

/-- A step and the same step. -/
theorem Paired.refl (m : Check α) (s : Checker) : Paired m m s fun a b => a = b := by
  cases ran : m s with
  | error fault => exact .inl ⟨fault, ran, ran⟩
  | ok result => exact .inr ⟨result.1, result.1, result.2, ran, ran, rfl⟩

theorem checkExprs_cons {e e' : Expr} {es es' : List Expr} {type : Option Ty}
    {types : Option (List Ty)} (first : checkExpr e s = .ok ((e', type), s₁))
    (rest : checkExprs es s₁ = .ok ((es', types), s₂)) :
    checkExprs (e :: es) s =
      .ok ((e' :: es', type.bind fun type => types.map (type :: ·)), s₂) := by
  rw [checkExprs, bind_ok first]
  simp only
  rw [bind_ok rest]
  cases type <;> cases types <;> rfl

/-- The elements are listed, then what comes after them. -/
theorem checkExprs_append (es after : List Expr) :
    checkExprs (es ++ after) = (do
      let first ← checkExprs es
      let second ← checkExprs after
      return (first.1 ++ second.1, first.2.bind fun types => second.2.map (types ++ ·))) := by
  induction es with
  | nil =>
    rw [List.nil_append, checkExprs, pure_bind]
    simp
  | cons e es ih =>
    rw [List.cons_append, checkExprs, checkExprs, ih]
    simp only [bind_assoc, pure_bind]
    refine congrArg (checkExpr e >>= ·) (funext fun checked => ?_)
    refine congrArg (checkExprs es >>= ·) (funext fun first => ?_)
    obtain ⟨e', type⟩ := checked
    obtain ⟨es', types⟩ := first
    cases type <;> cases types
    all_goals
      simp only [pure_bind]
      refine congrArg (checkExprs after >>= ·) (funext fun second => ?_)
      obtain ⟨after', others⟩ := second
      cases others <;> rfl

/-- The elements of a list come to fewer types than a machine word counts. -/
def Few (es : List Expr) (s : Checker) : Prop :=
  Gives (checkExprs es) s fun checked _ =>
    ∀ types ∈ checked.2, (Ty.expand types).length < countLimit

/-- At the head of a list, spreading a tuple is writing its items. -/
theorem checkExprs_spread_tuple {es : List Expr} (inside : s.Called t) (few : Few es s)
    (after : List Expr) (n₁ n₂ : Note) :
    Paired (checkExprs (.spread (.tuple es n₁) n₂ :: after)) (checkExprs (es ++ after)) s
      fun a b => Spliced t a.2 b.2 := by
  rw [checkExprs_append, checkExprs, checkExpr, checkExpr]
  simp only [bind_assoc, pure_bind]
  refine (Paired.refl (checkExprs es) s).bind ?_
  rintro ⟨items, types⟩ _ s₁ ran _ rfl
  cases types with
  | none =>
    simp only [pure_bind]
    refine (Paired.refl (checkExprs after) s₁).bind ?_
    rintro ⟨others, rest⟩ _ s₂ _ _ rfl
    exact .pure .failed
  | some types =>
    have called := checkExprs_called inside ran types rfl
    have fits : (Ty.gathered .nil types).length < countLimit := by
      rw [Ty.length_gathered_nil called]
      exact few _ _ ran types rfl
    simp only [bind_assoc]
    refine .after_run (tupleType_run fits s₁) ?_
    simp only [spreadType, Ty.toSpread?, pure_bind]
    refine (Paired.refl (checkExprs after) s₁).bind ?_
    rintro ⟨others, rest⟩ _ s₂ _ _ rfl
    cases rest with
    | none => exact .pure .failed
    | some rest => exact .pure (.listed called [] rest)

/-- By induction on the items before it: anywhere in a list, spreading a tuple is writing its
items. -/
theorem checkExprs_spliced {es : List Expr} (before after : List Expr) (n₁ n₂ : Note)
    (inside : s.Called t) (few : Gives (checkExprs before) s fun _ s₁ => Few es s₁) :
    Paired (checkExprs (before ++ .spread (.tuple es n₁) n₂ :: after))
      (checkExprs (before ++ (es ++ after))) s fun a b => Spliced t a.2 b.2 := by
  induction before generalizing s with
  | nil => exact checkExprs_spread_tuple inside (few _ _ rfl) after n₁ n₂
  | cons e before ih =>
    rw [List.cons_append, List.cons_append, checkExprs, checkExprs]
    refine (Paired.refl (checkExpr e) s).bind ?_
    rintro ⟨e', type⟩ _ s₁ ran _ rfl
    have inside₁ := checkExpr_called inside ran
    have few₁ : Gives (checkExprs before) s₁ fun _ s₂ => Few es s₂ :=
      fun _ _ rest => few _ _ (checkExprs_cons ran rest)
    refine (ih inside₁ few₁).bind ?_
    rintro ⟨items, types⟩ ⟨items', types'⟩ s₂ _ _ spliced
    dsimp only at spliced
    cases type with
    | none =>
      cases spliced with
      | failed => exact .pure .failed
      | listed => exact .pure .failed
    | some type =>
      have longer := spliced.cons type
      cases spliced with
      | failed => exact .pure .failed
      | listed => exact .pure longer

end Check

/-! ## What lists items -/

/-- A call, a new instance or a tuple, without its items. -/
inductive Lister where
  | call (callee : Expr)
  | construct (className : String)
  | tuple

namespace Lister

open Check

variable {t : ClassTable} {s : Checker}

def expr (items : List Expr) (note : Note) : Lister → Expr
  | call callee => .call callee items note
  | construct name => .construct name items note
  | tuple => .tuple items note

/-- What is looked at before the items. -/
def lead (note : Note) : Lister → Check Unit
  | call callee => do
      let _ ← checkExpr callee
      return ()
  | construct name => do
      let _ ← read name note.span
      return ()
  | tuple => return ()

/-- What is made of the types of the items, once they are taken apart, goes on alike. -/
theorem expanded_paired {β γ : Type} {types types' : Option (List Ty)}
    {last last' : Option β → Check γ} {post : γ → γ → Prop}
    (spliced : Spliced t types types') (value : Option Ty) (use : Ty → List Ty → Check (Option β))
    (ends : ∀ chosen s', Paired (last chosen) (last' chosen) s' post) :
    Paired (match value, types with
        | some value, some types => use value (Ty.expand types) >>= last
        | _, _ => pure none >>= last)
      (match value, types' with
        | some value, some types => use value (Ty.expand types) >>= last'
        | _, _ => pure none >>= last') s post := by
  have same := spliced.expand
  cases value with
  | none => cases spliced <;> exact ends none s
  | some value =>
    cases spliced with
    | failed => exact ends none s
    | listed =>
      simp only [Option.map_some, Option.some.injEq] at same
      simp only [same]
      refine (Paired.refl _ s).bind ?_
      rintro chosen _ s' _ _ rfl
      exact ends chosen s'

/-- Whatever lists items lists those of a spread tuple as its own. -/
theorem expr_paired (lister : Lister) (before es after : List Expr) (n₁ n₂ note : Note)
    (inside : s.Called t)
    (few : Gives (lister.lead note) s fun _ s₁ =>
      Gives (checkExprs before) s₁ fun _ s₂ => Few es s₂) :
    Paired (checkExpr (lister.expr (before ++ .spread (.tuple es n₁) n₂ :: after) note))
      (checkExpr (lister.expr (before ++ (es ++ after)) note)) s
      fun a b => a.2 = b.2 ∧ a.1.note = b.1.note := by
  cases lister with
  | call callee =>
    rw [expr, expr, checkExpr, checkExpr]
    refine (Paired.refl (checkExpr callee) s).bind ?_
    rintro ⟨callee', value⟩ _ s₁ ran _ rfl
    have inside₁ := checkExpr_called inside ran
    refine (checkExprs_spliced before after n₁ n₂ inside₁ (few _ _ (bind_ok ran))).bind ?_
    rintro ⟨items, types⟩ ⟨items', types'⟩ s₂ _ _ spliced
    dsimp only
    refine expanded_paired spliced value (callValue callee'.calleeName · · note.span) ?_
    exact fun _ _ => .pure ⟨rfl, rfl⟩
  | construct name =>
    rw [expr, expr, checkExpr, checkExpr]
    refine (Paired.refl (read name note.span) s).bind ?_
    rintro value _ s₁ ran _ rfl
    have inside₁ := inside.noted (notesParts.read name trivial s _ _ ran)
    refine (checkExprs_spliced before after n₁ n₂ inside₁ (few _ _ (bind_ok ran))).bind ?_
    rintro ⟨items, types⟩ ⟨items', types'⟩ s₂ _ _ spliced
    dsimp only
    refine expanded_paired spliced value (constructValue · · note.span) ?_
    exact fun _ _ => .pure ⟨rfl, rfl⟩
  | tuple =>
    rw [expr, expr, checkExpr, checkExpr]
    refine (checkExprs_spliced before after n₁ n₂ inside (few _ _ rfl)).bind ?_
    rintro ⟨items, types⟩ ⟨items', types'⟩ s₁ _ _ spliced
    have same := spliced.collect
    dsimp only at same ⊢
    cases spliced with
    | failed => exact .pure ⟨rfl, rfl⟩
    | listed =>
      simp only [Option.map_some, Option.some.injEq] at same
      simp only [tupleType, same]
      refine (Paired.refl _ s₁).bind ?_
      rintro type _ s₂ _ _ rfl
      exact .pure ⟨rfl, rfl⟩

/-- Wherever a check has got to: a call, a new instance or a tuple that spreads a tuple
expression among its items is checked like the one with the elements of that tuple in its
place. Both come to the same type or fail, select the same overload and leave the same checker,
diagnostics included; or a count overflows in both. The tuple must have fewer elements than a
machine word counts. -/
theorem spread_tuple {p : Program} {w : Bool} {code : Code} (met : p.Meets w code s)
    (lister : Lister) (before es after : List Expr) (n₁ n₂ note : Note)
    (few : Gives (lister.lead note) s fun _ s₁ =>
      Gives (checkExprs before) s₁ fun _ s₂ => Few es s₂) :
    (∃ e e' type s',
      checkExpr (lister.expr (before ++ .spread (.tuple es n₁) n₂ :: after) note) s =
        .ok ((e, type), s') ∧
      checkExpr (lister.expr (before ++ (es ++ after)) note) s = .ok ((e', type), s') ∧
      e.note = e'.note) ∨
    checkExpr (lister.expr (before ++ .spread (.tuple es n₁) n₂ :: after) note) s =
        .error .countOverflow ∧
      checkExpr (lister.expr (before ++ (es ++ after)) note) s = .error .countOverflow := by
  rcases lister.expr_paired before es after n₁ n₂ note met.called few with
    ⟨fault, ran, ran'⟩ | ⟨⟨e, type⟩, ⟨e', type'⟩, s', ran, ran', same, noted⟩
  · rcases (checkExpr_delivers _ _ s met.sound).outcome with ⟨_, _, ends⟩ | overflow
    · cases ends.symm.trans ran
    · cases overflow.symm.trans ran
      exact .inr ⟨ran, ran'⟩
  · cases same
    exact .inl ⟨e, e', type, s', ran, ran', noted⟩

end Lister

namespace Program

open Check

/-- A tuple of two numbers, and a function of four numbers and a text. -/
def sums : Program :=
  let note : Note := { span := .null }
  let number : TypeTerm := .named "int" [] .null
  let params : List Param := [⟨"a", number⟩, ⟨"b", number⟩, ⟨"c", number⟩, ⟨"d", number⟩,
    ⟨"e", .named "string" [] .null⟩]
  ⟨[.define ["t"] (.tuple [.literal (.int 1) note, .literal (.int 2) note] note) false .null,
    .define ["f"] (.function [] params none
      ⟨[.return (some (.symbol "a" note)) .null], .null⟩ note) false .null], .null⟩

/-- `f(0, ...(1, ...t), "s")` and `f(0, 1, ...t, "s")`. -/
theorem spread_tuple_sums :
    let note : Note := { span := .null }
    let f : Lister := .call (.symbol "f" note)
    let zero : Expr := .literal (.int 0) note
    let es : List Expr := [.literal (.int 1) note, .spread (.symbol "t" note) note]
    let text : Expr := .literal (.string "s") note
    ∃ s e e' type s', sums.Meets false (.stmts []) s ∧
      (Gives (f.lead note) s fun _ s₁ => Gives (checkExprs [zero]) s₁ fun _ s₂ => Few es s₂) ∧
      checkExpr (f.expr ([zero] ++ .spread (.tuple es note) note :: [text]) note) s =
        .ok ((e, some type), s') ∧
      checkExpr (f.expr ([zero] ++ (es ++ [text])) note) s = .ok ((e', some type), s') ∧
      e.note = e'.note ∧ e.note.overload = some 0 := by
  intro note f zero es text
  have computed : ((Program.reach false sums.body).toOption.any fun s =>
      ((f.lead note s).toOption.any fun led =>
        (checkExprs [zero] led.2).toOption.any fun first =>
        (checkExprs es first.2).toOption.any fun listed =>
          listed.1.2.all fun types => decide ((Ty.expand types).length < countLimit)) &&
      (checkExpr (f.expr ([zero] ++ (es ++ [text])) note) s).toOption.any fun result =>
        result.1.2.isSome && result.1.1.note.overload == some 0) = true := by
    decide +kernel
  obtain ⟨s, reached, later⟩ := exists_ok_of_any computed
  obtain ⟨leads, ends⟩ := Bool.and_eq_true_iff.mp later
  obtain ⟨_, led, leads⟩ := exists_ok_of_any leads
  obtain ⟨_, first, leads⟩ := exists_ok_of_any leads
  obtain ⟨_, listed, small⟩ := exists_ok_of_any leads
  have met : sums.Meets false (.stmts []) s := .of_reach (List.append_nil _).symm reached
  have few : Gives (f.lead note) s fun _ s₁ =>
      Gives (checkExprs [zero]) s₁ fun _ s₂ => Few es s₂ := by
    intro _ _ ran
    cases led.symm.trans ran
    intro _ _ ran
    cases first.symm.trans ran
    intro _ _ ran types found
    cases listed.symm.trans ran
    rw [Option.mem_def.mp found] at small
    exact of_decide_eq_true small
  obtain ⟨_, again, fine⟩ := exists_ok_of_any ends
  rcases Lister.spread_tuple met f [zero] es [text] note note note few with
    ⟨e, e', type, s', ran, ran', same⟩ | ⟨_, overflow⟩
  case inr => cases again.symm.trans overflow
  cases again.symm.trans ran'
  obtain ⟨some_, chosen⟩ := Bool.and_eq_true_iff.mp fine
  obtain ⟨type, rfl⟩ := Option.isSome_iff_exists.mp some_
  exact ⟨s, e, e', type, s', met, few, ran, ran', same,
    (congrArg Note.overload same).trans (eq_of_beq chosen)⟩

/-- Sixteen times the last of fifteen links is one element more than a machine word counts. Where
nothing is known of the function that is called with them, a tuple of them overflows, and they
are not even counted where they are written out. -/
theorem spread_tuple_overflows :
    let note : Note := { span := .null }
    let nope : Lister := .call (.symbol "nope" note)
    ∃ s e s', (chain 15).Meets false (.stmts []) s ∧
      checkExpr (nope.expr ([] ++ .spread (.tuple (links 15) note) note :: []) note) s =
        .error .countOverflow ∧
      checkExpr (nope.expr ([] ++ (links 15 ++ [])) note) s = .ok ((e, none), s') ∧
      s'.diagnostics = s.diagnostics ++ [.error (.unknownSymbol "nope") .null] := by
  intro note nope
  have computed : ((Program.reach false (chain 15).body).toOption.any fun s =>
      (checkExpr (nope.expr ([] ++ .spread (.tuple (links 15) note) note :: []) note)
        s).toOption.isNone &&
      (checkExpr (nope.expr ([] ++ (links 15 ++ [])) note) s).toOption.any fun written =>
        written.1.2.isNone &&
          written.2.diagnostics == s.diagnostics ++ [.error (.unknownSymbol "nope") .null]) =
      true := by
    decide +kernel
  obtain ⟨s, reached, later⟩ := exists_ok_of_any computed
  obtain ⟨failed, ends⟩ := Bool.and_eq_true_iff.mp later
  obtain ⟨⟨⟨e, found⟩, s'⟩, ran, unknown⟩ := exists_ok_of_any ends
  obtain ⟨none_, reported⟩ := Bool.and_eq_true_iff.mp unknown
  obtain rfl := Option.isNone_iff_eq_none.mp none_
  have met : (chain 15).Meets false (.stmts []) s := .of_reach (List.append_nil _).symm reached
  refine ⟨s, e, s', met, ?_, ran, eq_of_beq reported⟩
  rcases (checkExpr_delivers _ (nope.expr ([] ++ .spread (.tuple (links 15) note) note :: []) note)
    s met.sound).outcome with ⟨_, _, ends⟩ | overflow
  · rw [ends] at failed
    cases failed
  · exact overflow

end Program

end ShapeLang
