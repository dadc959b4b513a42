import ShapeLang.Proofs.Reconcile
import ShapeLang.Proofs.Tracking
import ShapeLang.Proofs.UpperBound

/-!
# Overloads after a branch

A branch of which one arm is sure to run gives a function a new type only as a whole. The
types at the ends of the arms are met one after the other, and of two the one is kept that
the other stands for. If that goes well to the end, one of them is left, with every overload
that they share. If two of them cannot be compared either way, the function has the type it
had before, and an overload that all arms added is lost with the others.
-/

namespace ShapeLang

/-- A function with an overload of these parameters and this result. -/
def Ty.offers (type : Ty) (o : Overload) : Bool :=
  type.overloads?.any (·.any fun own => own.params == o.params && own.result == o.result)

theorem Ty.function_of_offers {type : Ty} {o : Overload} (offers : type.offers o = true) :
    ∃ os, type = .func os := by
  cases type with
  | func os => exact ⟨os, rfl⟩
  | _ => cases offers

namespace ClassTable

variable {t : ClassTable}

/-- Of types that are met one after the other, the one that is left if always the one is kept
that the other stands for. -/
inductive Widest (t : ClassTable) : List Ty → Ty → Prop where
  | last {type : Ty} : Widest t [type] type
  | same {type next widest : Ty} {others : List Ty} (equal : (next == type) = true)
      (rest : Widest t (type :: others) widest) : Widest t (type :: next :: others) widest
  | wider {type next widest : Ty} {others : List Ty} (differ : ¬(next == type) = true)
      (fits : t.compare type next = .ok (.ok ())) (rest : Widest t (next :: others) widest) :
      Widest t (type :: next :: others) widest
  | narrower {type next widest : Ty} {others : List Ty} (differ : ¬(next == type) = true)
      (unlike : t.compare type next = .ok (.error .incompatible))
      (fits : t.compare next type = .ok (.ok ())) (rest : Widest t (type :: others) widest) :
      Widest t (type :: next :: others) widest

theorem Widest.mem {types : List Ty} {widest : Ty} (left : t.Widest types widest) :
    widest ∈ types := by
  induction left with
  | last => exact List.mem_singleton_self _
  | same _ _ ih => grind
  | wider _ _ _ ih => exact List.mem_cons_of_mem _ ih
  | narrower _ _ _ _ ih => grind

/-- The join of two functions is the one that the other stands for. -/
theorem join_functions {os ps : List Overload} {result : Except Mismatch Ty}
    (joined : t.join (.func os) (.func ps) = .ok result) :
    (t.compare (.func os) (.func ps) = .ok (.ok ()) ∧ result = .ok (.func ps)) ∨
    (t.compare (.func os) (.func ps) = .ok (.error .incompatible) ∧
      t.compare (.func ps) (.func os) = .ok (.ok ()) ∧ result = .ok (.func os)) ∨
    (t.compare (.func os) (.func ps) ≠ .ok (.ok ()) ∧
      (t.compare (.func os) (.func ps) = .ok (.error .incompatible) →
        t.compare (.func ps) (.func os) ≠ .ok (.ok ())) ∧ ∃ reason, result = .error reason) := by
  unfold join at joined
  obtain ⟨verdict, compared, rest⟩ := bind_eq_ok.mp joined
  rcases verdict with (_ | feature) | _
  · obtain ⟨verdict', compared', rest'⟩ := bind_eq_ok.mp rest
    rcases verdict' with reason | _
    · cases rest'
      refine .inr (.inr ⟨by simp [compared], fun _ => by simp [compared'], _, rfl⟩)
    · cases rest'
      exact .inr (.inl ⟨compared, compared', rfl⟩)
  · cases rest
    exact .inr (.inr ⟨by simp [compared], by simp [compared], _, rfl⟩)
  · cases rest
    exact .inl ⟨compared, rfl⟩

/-- Folding joins over the arms of a function leaves the widest of their types. -/
theorem reconcileGo_widest {type : Ty} {arms : List Binding} {result : Option Ty}
    (function : ∃ os, type = .func os)
    (each : ∀ b ∈ arms, b.unresolved = false ∧ ∃ os, b.type = .func os)
    (run : reconcile.go t type arms = .ok result) (widest : Ty) :
    result = some widest ↔ t.Widest (type :: arms.map (·.type)) widest := by
  induction arms generalizing type with
  | nil =>
    cases run
    constructor
    · intro same
      cases same
      exact .last
    · intro left
      cases left
      rfl
  | cons arm arms ih =>
    obtain ⟨⟨resolved, here⟩, others⟩ := List.forall_mem_cons.mp each
    rw [reconcile.go, resolved] at run
    simp only [Bool.false_eq_true, if_false] at run
    by_cases equal : (arm.type == type) = true
    · rw [if_pos equal] at run
      rw [ih function others run]
      constructor
      · exact fun left => .same equal left
      · intro left
        cases left with
        | same _ rest => exact rest
        | wider differ => exact absurd equal differ
        | narrower differ => exact absurd equal differ
    · rw [if_neg equal] at run
      obtain ⟨joined, ran, rest⟩ := bind_eq_ok.mp run
      obtain ⟨os, rfl⟩ := function
      obtain ⟨ps, same⟩ := here
      rw [List.map_cons, same]
      rw [same] at ran equal
      rcases join_functions ran with ⟨up, rfl⟩ | ⟨unlike, down, rfl⟩ | ⟨apart, apart', reason, rfl⟩
      · rw [ih ⟨ps, rfl⟩ others rest]
        constructor
        · exact fun left => .wider equal up left
        · intro left
          cases left with
          | same again => exact absurd again equal
          | wider _ _ left => exact left
          | narrower _ unlike => cases up.symm.trans unlike
      · rw [ih ⟨os, rfl⟩ others rest]
        constructor
        · exact fun left => .narrower equal unlike down left
        · intro left
          cases left with
          | same again => exact absurd again equal
          | wider _ up => cases unlike.symm.trans up
          | narrower _ _ _ left => exact left
      · cases rest
        simp only [reduceCtorEq, false_iff]
        intro left
        cases left with
        | same again => exact equal again
        | wider _ up => exact apart up
        | narrower _ unlike down => exact apart' unlike down

/-- After arms that all bind a name to a function, the name has the widest of their types, or
the outer one if there is none. -/
theorem reconcile_widest {outer type : Ty} {arms : List Binding} (nonempty : arms ≠ [])
    (each : ∀ b ∈ arms, b.unresolved = false ∧ ∃ os, b.type = .func os)
    (run : t.reconcile outer arms = .ok type) :
    (∀ widest, t.Widest (arms.map (·.type)) widest → type = widest) ∧
    ((¬ ∃ widest, t.Widest (arms.map (·.type)) widest) → type = outer) := by
  obtain ⟨first, others, rfl⟩ := List.exists_cons_of_ne_nil nonempty
  obtain ⟨⟨resolved, function⟩, rest⟩ := List.forall_mem_cons.mp each
  obtain ⟨folded, ran, final⟩ := bind_eq_ok.mp run
  have left := reconcileGo_widest function rest ran
  rw [List.map_cons]
  cases folded with
  | none =>
    obtain rfl : outer = type := Except.ok.inj final
    refine ⟨fun widest wide => ?_, fun _ => rfl⟩
    cases (left widest).mpr wide
  | some merged =>
    simp only [resolved, Bool.false_eq_true, if_false] at final
    obtain rfl : merged = type := Except.ok.inj final
    refine ⟨fun widest wide => Option.some.inj ((left widest).mpr wide), fun missing => ?_⟩
    exact absurd ⟨merged, (left merged).mp rfl⟩ missing

end ClassTable

namespace Check

variable {arms : List Arm} {exhaustive : Bool} {span : Span} {name : String} {s : Checker}

/-- The type of a name that is known outside is reconciled once, with the arms as they are. -/
theorem mergeArms_reconciles {outer : Binding} (found : s.lookup? name = some outer)
    (resolved : outer.unresolved = false) (bound : Arm.bindingsOf arms name ≠ []) :
    Gives (mergeArms arms true span) s fun _ s' => ∃ after, s'.lookup? name = some after ∧
      s.classes.reconcile outer.type (Arm.bindingsOf arms name) = .ok after.type := by
  refine (mergeArms_at name).imp fun _ s' given => ?_
  cases given with
  | unbound nowhere => exact absurd nowhere bound
  | @merged s₁ _ _ classes before ran after =>
    have outcome := mergeName_outcome arms true span name _ _ ran
    rw [← before] at found
    cases outcome with
    | absent free => cases free.symm.trans found
    | introduced free => cases free.symm.trans found
    | conflict free => cases free.symm.trans found
    | @outer b type here typed =>
      obtain rfl : b = outer := Option.some.inj (here.symm.trans found)
      rcases typed with ⟨_, _, reconciled⟩ | ⟨impossible, _⟩
      · refine ⟨_, (after.trans (Checker.lookup?_bind s₁ name _ name)).trans (if_pos rfl), ?_⟩
        rw [← classes]
        exact reconciled
      · simp [resolved] at impossible

end Check

open Check

/-- An overload that every arm has is one of the function after the arms exactly if one of
their types is left as the widest, which the function has then, or if the function had it
before; without a widest type the function keeps its own. -/
theorem Check.shared_overload_survives {arms : List Arm} {span : Span} {s s' : Checker}
    {result : Option Unit} {name : String} {outer : Binding} {o : Overload} (nonempty : arms ≠ [])
    (found : s.lookup? name = some outer) (resolved : outer.unresolved = false)
    (each : ∀ arm ∈ arms, ∃ b, arm.bindings.find? name = some b ∧ b.unresolved = false ∧
      b.type.offers o = true)
    (ran : mergeArms arms true span s = .ok (result, s')) :
    ∃ after, s'.lookup? name = some after ∧
      (after.type.offers o = true ↔
        (∃ widest, s.classes.Widest ((Arm.bindingsOf arms name).map (·.type)) widest) ∨
          outer.type.offers o = true) ∧
      (∀ widest, s.classes.Widest ((Arm.bindingsOf arms name).map (·.type)) widest →
        after.type = widest) ∧
      ((¬ ∃ widest, s.classes.Widest ((Arm.bindingsOf arms name).map (·.type)) widest) →
        after.type = outer.type) := by
  have bindings (b : Binding) (member : b ∈ Arm.bindingsOf arms name) :
      b.unresolved = false ∧ b.type.offers o = true := by
    obtain ⟨arm, listed, bound⟩ := List.mem_filterMap.mp member
    obtain ⟨b', bound', holds⟩ := each arm listed
    cases bound.symm.trans bound'
    exact holds
  have bound : Arm.bindingsOf arms name ≠ [] := by
    obtain ⟨arm, listed⟩ := List.exists_mem_of_ne_nil arms nonempty
    obtain ⟨b, here, _⟩ := each arm listed
    exact List.ne_nil_of_mem (List.mem_filterMap.mpr ⟨arm, listed, here⟩)
  obtain ⟨after, found', reconciled⟩ := mergeArms_reconciles found resolved bound _ _ ran
  have function (b : Binding) (member : b ∈ Arm.bindingsOf arms name) :
      b.unresolved = false ∧ ∃ os, b.type = .func os :=
    ⟨(bindings b member).1, Ty.function_of_offers (bindings b member).2⟩
  obtain ⟨left, kept⟩ := ClassTable.reconcile_widest bound function reconciled
  refine ⟨after, found', ?_, left, kept⟩
  by_cases some_ : ∃ widest, s.classes.Widest ((Arm.bindingsOf arms name).map (·.type)) widest
  · obtain ⟨widest, wide⟩ := some_
    obtain ⟨b, member, same⟩ := List.mem_map.mp wide.mem
    rw [left widest wide, ← same]
    exact iff_of_true (bindings b member).2 (.inl ⟨widest, wide⟩)
  · rw [kept some_, or_iff_right some_]

def Overload.stringIdentity : Overload :=
  ⟨[], [.instanceOf 3 "string"], .instanceOf 3 "string"⟩

/-- The arm binds the name to a function with the overload. -/
def Arm.offers (arm : Arm) (name : String) (o : Overload) : Bool :=
  (arm.bindings.find? name).any fun b => !b.unresolved && b.type.offers o

/-- An arm that offers an overload under a name has the name bound to a function with it. -/
theorem Arm.binding_of_offers {arm : Arm} {name : String} {o : Overload}
    (offers : arm.offers name o = true) :
    ∃ b, arm.bindings.find? name = some b ∧ b.unresolved = false ∧ b.type.offers o = true := by
  simpa [Arm.offers, Option.any_eq_true] using offers

/-- The second arm adds one overload more than the first, whose type is the widest. -/
theorem Check.shared_overload_survives_overloadsInArms : ∃ s ends s₁ result s' after,
    Program.overloadedInArms.Meets false (.stmt .overloadsInArms) s ∧
    walkArms .overloadsInArms s = .ok (ends, s₁) ∧
    mergeArms (ends.map (·.arm)) true .null s₁ = .ok (result, s') ∧
    (∀ arm ∈ ends.map (·.arm), arm.offers "f" .stringIdentity = true) ∧
    s'.lookup? "f" = some after ∧ after.type.offers .stringIdentity = true ∧
    ∃ widest, s₁.classes.Widest
      ((Arm.bindingsOf (ends.map (·.arm)) "f").map (·.type)) widest := by
  obtain ⟨s, reached, computed⟩ := Program.reach_of_any false [.identity "int"]
    (fun s => (walkArms .overloadsInArms s).toOption.any fun r => !r.1.isEmpty &&
      (r.1.map (·.arm)).all (·.offers "f" .stringIdentity) &&
      ((r.2.lookup? "f").any fun b => !b.unresolved && !b.type.offers .stringIdentity) &&
      (mergeArms (r.1.map (·.arm)) true .null r.2).toOption.any fun merged =>
        (merged.2.lookup? "f").any (·.type.offers .stringIdentity))
    (by decide +kernel)
  have met : Program.overloadedInArms.Meets false (.stmt .overloadsInArms) s :=
    .first (.of_reach rfl reached)
  obtain ⟨⟨ends, s₁⟩, walked, computed⟩ := exists_ok_of_any computed
  simp only [Bool.and_eq_true, List.all_eq_true] at computed
  obtain ⟨⟨⟨nonempty, each⟩, known⟩, merges⟩ := computed
  obtain ⟨⟨result, s'⟩, merged, kept⟩ := exists_ok_of_any merges
  simp only [Option.any_eq_true, Bool.and_eq_true, Bool.not_eq_true'] at known kept
  obtain ⟨outer, found, resolved, lacks⟩ := known
  obtain ⟨after, found', offers⟩ := kept
  have arms : ends.map (·.arm) ≠ [] := by simpa using nonempty
  obtain ⟨after', same, survives, _⟩ := Check.shared_overload_survives arms found resolved
    (fun arm listed => Arm.binding_of_offers (each arm listed)) merged
  cases found'.symm.trans same
  refine ⟨s, ends, s₁, result, s', after, met, walked, merged, each, found', offers, ?_⟩
  exact (survives.mp offers).resolve_right (by simp [lacks])

/-- `f` gains two overloads in each arm, of which one is the same. -/
def Stmt.overloadsApart : Stmt :=
  .ifElse (.literal (.bool true) ⟨.null, none, none⟩)
    ⟨[.identity "string", .identity "bool"], .null⟩
    (some ⟨[.identity "string", .identity "double"], .null⟩) .null

def Program.overloadedApart : Program := ⟨[.identity "int", .overloadsApart], .null⟩

/-- Neither arm's type stands for the other's, so that the overload that both arms add is
lost. -/
theorem Program.shared_overload_lost : ∃ s result s' ends s₁ before after,
    Program.overloadedApart.Meets false (.stmt .overloadsApart) s ∧
    checkStmt .overloadsApart s = .ok (result, s') ∧ result.2.isSome = true ∧
    walkArms .overloadsApart s = .ok (ends, s₁) ∧ ends.length = 2 ∧
    mergeArms (ends.map (·.arm)) true .null s₁ = .ok (some (), s') ∧
    s₁.lookup? "f" = some before ∧ before.unresolved = false ∧
    before.type.overloads?.isSome = true ∧
    (∀ arm ∈ ends.map (·.arm), arm.offers "f" .stringIdentity = true) ∧
    s'.lookup? "f" = some after ∧ after.type.offers .stringIdentity = false := by
  obtain ⟨s, reached, computed⟩ := Program.reach_of_any false [.identity "int"]
    (fun s => ((walkArms .overloadsApart s).toOption.any fun r => r.1.length == 2 &&
        (r.1.map (·.arm)).all (·.offers "f" .stringIdentity) &&
        (r.2.lookup? "f").any fun b => !b.unresolved && b.type.overloads?.isSome) &&
      (checkStmt .overloadsApart s).toOption.any fun r => r.1.2.isSome &&
        (r.2.lookup? "f").any fun b => !b.type.offers .stringIdentity)
    (by decide +kernel)
  have met : Program.overloadedApart.Meets false (.stmt .overloadsApart) s :=
    .first (.of_reach rfl reached)
  rcases met.stmt_ends with ⟨result, s', ran⟩ | overflow
  case inr => simp [overflow, Except.toOption] at computed
  obtain ⟨ends, s₁, merged, walks⟩ := checkStmt_walks .overloadsApart rfl _ _ ran
  simp only [ran, walks.walked, Except.toOption, Option.any_some, Option.any_eq_true,
    Bool.and_eq_true, List.all_eq_true, beq_iff_eq, Bool.not_eq_true'] at computed
  obtain ⟨⟨⟨two, each⟩, before, found, resolved, function⟩, accepted, after, found', lost⟩ :=
    computed
  obtain ⟨_, rfl, _⟩ := walks.passed accepted
  exact ⟨s, result, s', ends, s₁, before, after, met, ran, accepted, walks.walked, two,
    walks.merges, found, resolved, function, each, found', lost⟩

end ShapeLang
