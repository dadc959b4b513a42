import ShapeLang.Proofs.Growth

/-!
# Functions after a branch

A function may gain overloads in the arms of a branch. The type that it has after the
branch asks for no more than each arm can serve: the type at the end of an arm leads to it
over comparisons, equal types and overloads left out. Where fitting is transitive and the
types hold no tuples, one comparison does. An arm that hides the function has no say in this,
so that the function may have overloads afterwards that it lacks if that arm was taken.
-/

namespace ShapeLang

namespace ClassTable

variable {t : ClassTable}

/-- One type serves wherever the other is wanted: it stands for it, is equal to it, or is
that of a function with more overloads. -/
inductive Serves (t : ClassTable) : Ty → Ty → Prop where
  | compared {a b : Ty} (fits : t.compare a b = .ok (.ok ())) : Serves t a b
  | equal {a b : Ty} (same : a.beq b = true) : Serves t a b
  | fewer {os new : List Overload} : Serves t (.func (os ++ new)) (.func os)

/-- An order in which joins go up, equal types are next to each other, and more overloads
are below fewer. -/
structure Lasting (t : ClassTable) (P : Ty → Prop) (R : Ty → Ty → Prop) : Prop
    extends t.Rising P R where
  equal : ∀ {a b}, P a → P b → a.beq b = true → R a b
  fewer : ∀ {os new}, P (.func (os ++ new)) → P (.func os) ∧ R (.func (os ++ new)) (.func os)

/-- Serving in any number of steps is such an order, in any table. -/
theorem serves_lasting (t : ClassTable) :
    t.Lasting (fun _ => True) (Relation.ReflTransGen t.Serves) where
  toRising := chain_rising fun _ _ => .compared
  equal _ _ same := .single (.equal same)
  fewer _ := ⟨trivial, .single .fewer⟩

/-- Comparing is such an order among the ordinary types of a transitive table. -/
theorem Coherent.compare_lasting (coherent : t.Coherent) (transitive : t.Transitive) :
    t.Lasting t.Ordinary fun a b => t.compare a b = .ok (.ok ()) where
  toRising := coherent.compare_rising transitive
  equal left right same := (coherent.compare_of_beq left right same).1
  fewer ordinary := ⟨ordinary.of_append, coherent.compare_of_append ordinary⟩

section

variable {P : Ty → Prop} {R : Ty → Ty → Prop} (lasting : t.Lasting P R)
include lasting

/-- What the arms are folded to is above all of them. -/
theorem reconcileGo_above {merged result : Ty} {arms : List Binding} (start : P merged)
    (each : ∀ b ∈ arms, P b.type) (run : reconcile.go t merged arms = .ok (some result)) :
    P result ∧ R merged result ∧ ∀ b ∈ arms, R b.type result := by
  induction arms generalizing merged with
  | nil =>
    cases run
    exact ⟨start, lasting.refl start, by simp⟩
  | cons arm arms ih =>
    obtain ⟨first, others⟩ := List.forall_mem_cons.mp each
    obtain ⟨next, rest, ⟨same, rfl⟩ | ⟨_, joined⟩⟩ := reconcileGo_cons run
    · obtain ⟨final, above, later⟩ := ih start others rest
      have here := lasting.trans first start final (lasting.equal first start same) above
      exact ⟨final, above, List.forall_mem_cons.mpr ⟨here, later⟩⟩
    · obtain ⟨middle, left, right⟩ := lasting.join start first joined
      obtain ⟨final, above, later⟩ := ih middle others rest
      have here := lasting.trans first middle final right above
      exact ⟨final, lasting.trans start middle final left above,
        List.forall_mem_cons.mpr ⟨here, later⟩⟩

/-- The outer type is above the arms to begin with, and it is given up only for another
type that is. -/
theorem reconcile_above {outer type : Ty} {arms : List Binding} (start : P outer)
    (each : ∀ b ∈ arms, P b.type) (below : ∀ b ∈ arms, R b.type outer)
    (run : t.reconcile outer arms = .ok type) : P type ∧ ∀ b ∈ arms, R b.type type := by
  rcases reconcile_outcome run with rfl | ⟨first, others, rfl, ran⟩
  · exact ⟨start, below⟩
  · obtain ⟨here, rest⟩ := List.forall_mem_cons.mp each
    obtain ⟨final, above, later⟩ := reconcileGo_above lasting here rest ran
    exact ⟨final, List.forall_mem_cons.mpr ⟨above, later⟩⟩

end

end ClassTable

namespace Check

variable {t : ClassTable} {P : Ty → Prop} {R : Ty → Ty → Prop}

section

variable {arms : List Arm} {name : String} (lasting : t.Lasting P R)
  (each : ∀ b ∈ Arm.bindingsOf arms name, P b.type)
include lasting each

/-- A name that was bound to a type above those of the arms still is, after they are merged. -/
theorem mergeArms_above (exhaustive : Bool) (span : Span) {s : Checker} {b : Binding}
    (classes : s.classes = t) (found : s.lookup? name = some b) (ordinary : P b.type)
    (above : ∀ b' ∈ Arm.bindingsOf arms name, R b'.type b.type) :
    Gives (mergeArms arms exhaustive span) s fun _ s' => ∃ after, s'.lookup? name = some after ∧
      ∀ b' ∈ Arm.bindingsOf arms name, R b'.type after.type := by
  intro _ s' ran
  cases mergeArms_at name _ _ ran with
  | unbound _ same => exact ⟨b, same.trans found, above⟩
  | @merged s₁ _ _ classes' before ran' after =>
    have outcome := mergeName_outcome arms exhaustive span name _ _ ran'
    rw [← before] at found
    cases outcome with
    | absent free => cases free.symm.trans found
    | introduced free => cases free.symm.trans found
    | conflict free => cases free.symm.trans found
    | @outer outer type here typed =>
      obtain rfl : b = outer := Option.some.inj (found.symm.trans here)
      refine ⟨_, (after.trans (Checker.lookup?_bind s₁ name _ name)).trans (if_pos rfl), ?_⟩
      rcases typed with ⟨_, _, reconciled⟩ | ⟨_, rfl⟩
      · rw [classes'.trans classes] at reconciled
        exact (ClassTable.reconcile_above lasting ordinary each above reconciled).2
      · exact above

end

/-- A function is bound after a branch to a type above those that it has at the ends of the
arms, hidden ones apart. -/
theorem checkStmt_above {stmt : Stmt} {s s' s₁ : Checker} {checked : Stmt × Option Ty}
    {ends : List ArmEnd} {merged : Option Unit} (walks : stmt.Walks s checked s' ends s₁ merged)
    (lasting : s.classes.Lasting P R) {name : String} {b : Binding} {os : List Overload}
    (found : s.lookup? name = some b) (resolved : b.unresolved = false)
    (function : b.type = .func os)
    (each : ∀ e ∈ ends, ∀ last, name ∉ e.hidden → e.last.lookup? name = some last → P last.type)
    {e : ArmEnd} (listed : e ∈ ends) (shown : name ∉ e.hidden) :
    ∃ after last, s'.lookup? name = some after ∧ e.last.lookup? name = some last ∧
      R last.type after.type := by
  have ended {e : ArmEnd} (listed : e ∈ ends) (shown : name ∉ e.hidden) :
      ∃ last new, e.last.lookup? name = some last ∧ last.type = .func (os ++ new) := by
    obtain ⟨source, _, of⟩ := walks.source listed
    obtain ⟨last, found', grown⟩ := arm_grown of (checkBlock_grows source) found resolved shown
    rcases Ty.grown_iff.mp grown.type with same | ⟨os', new, old, new'⟩
    · exact ⟨last, [], found', by rw [same, function, List.append_nil]⟩
    · rw [function] at old
      cases old
      exact ⟨last, new, found', new'⟩
  obtain ⟨last, new, found', type⟩ := ended listed shown
  have outer : P (.func os) := (lasting.fewer (type ▸ each e listed last shown found')).1
  have bindings : ∀ b' ∈ Arm.bindingsOf (ends.map (·.arm)) name, P b'.type ∧ R b'.type b.type := by
    intro b' member
    obtain ⟨arm, inArms, bound⟩ := List.mem_filterMap.mp member
    obtain ⟨e', listed', rfl⟩ := List.mem_map.mp inArms
    obtain ⟨shown', found''⟩ := ArmEnd.find?_arm.mp bound
    obtain ⟨last', new', same, type'⟩ := ended listed' shown'
    cases found''.symm.trans same
    have ordinary := each e' listed' b' shown' found''
    rw [type'] at ordinary
    rw [type', function]
    exact ⟨ordinary, (lasting.fewer ordinary).2⟩
  obtain ⟨after, bound, above⟩ := mergeArms_above lasting
    (fun b' member => (bindings b' member).1) _ _ walks.noted.classes
    ((walks.noted.lookup? name).trans found) (function ▸ outer)
    (fun b' member => (bindings b' member).2) _ _ walks.merges
  refine ⟨after, last, bound, found', above last ?_⟩
  refine List.mem_filterMap.mpr ⟨e.arm, List.mem_map_of_mem listed, ?_⟩
  exact ArmEnd.find?_arm.mpr ⟨shown, found'⟩

end Check

theorem Ty.overloads?_eq_some {type : Ty} {os : List Overload} :
    type.overloads? = some os ↔ type = .func os := by
  cases type <;> simp [Ty.overloads?]

open Check

/-- What a function can do at the end of an arm that does not hide it leads to what it can do
after the statement; and it stands for that, where fitting is transitive and no tuples or
type parameters keep the types from being compared. -/
theorem Program.arms_serve {p : Program} {w : Bool} {stmt : Stmt} {s : Checker}
    (met : p.Meets w (.stmt stmt) s) (branching : stmt.branching = true) {name : String}
    {b : Binding} {os : List Overload} (found : s.lookup? name = some b)
    (resolved : b.unresolved = false) (function : b.type = .func os) :
    (∃ result s' ends s₁ after, checkStmt stmt s = .ok (result, s') ∧
      s'.classes = s.classes ∧ walkArms stmt s = .ok (ends, s₁) ∧
      s'.lookup? name = some after ∧ ∀ e ∈ ends, name ∉ e.hidden →
        ∃ last, e.last.lookup? name = some last ∧
          Relation.ReflTransGen s.classes.Serves last.type after.type ∧
          (s.classes.Transitive →
            (∀ e' ∈ ends, ∀ last', name ∉ e'.hidden → e'.last.lookup? name = some last' →
              s.classes.comparable last'.type = true) →
            s.classes.compare last.type after.type = .ok (.ok ()))) ∨
      checkStmt stmt s = .error .countOverflow := by
  refine met.stmt_ends.imp_left ?_
  rintro ⟨result, s', ran⟩
  obtain ⟨ends, s₁, merged, walks⟩ := checkStmt_walks stmt branching _ _ ran
  have kept := checkStmt_kept stmt s _ _ ran
  have classes : s'.classes = s.classes := by
    refine kept.classes fun decl span same => ?_
    subst same
    cases branching
  obtain ⟨after, found', _⟩ := kept.grown name b found resolved
  refine ⟨result, s', ends, s₁, after, ran, classes, walks.walked, found', ?_⟩
  intro e listed shown
  obtain ⟨after', last, same, ended, serves⟩ := checkStmt_above walks s.classes.serves_lasting found
    resolved function (fun _ _ _ _ _ => trivial) listed shown
  cases found'.symm.trans same
  refine ⟨last, ended, serves, fun transitive comparable => ?_⟩
  have ordinary : ∀ e' ∈ ends, ∀ last', name ∉ e'.hidden → e'.last.lookup? name = some last' →
      s.classes.Ordinary last'.type := by
    intro e' listed' last' shown' ended'
    obtain ⟨source, _, of⟩ := walks.source listed'
    exact ⟨(of.sound met.sound).lookup? ended', comparable e' listed' last' shown' ended'⟩
  obtain ⟨after'', last'', same', ended', fits⟩ := checkStmt_above walks
    (met.sound.coherent.compare_lasting transitive) found resolved function ordinary listed shown
  cases found'.symm.trans same'
  cases ended.symm.trans ended'
  exact fits

/-- Both arms have what is left of the function after them. -/
theorem Program.arms_serve_overloadedInArms : ∃ s result s' ends s₁ after,
    Program.overloadedInArms.Meets false (.stmt .overloadsInArms) s ∧
    checkStmt .overloadsInArms s = .ok (result, s') ∧
    walkArms .overloadsInArms s = .ok (ends, s₁) ∧ ends.length = 2 ∧
    s'.lookup? "f" = some after ∧ ∀ e ∈ ends, ∃ last, e.last.lookup? "f" = some last ∧
      s.classes.compare last.type after.type = .ok (.ok ()) := by
  obtain ⟨s, reached, computed⟩ := Program.reach_of_any false [.identity "int"]
    (fun s => decide s.classes.Transitive && ((s.lookup? "f").any fun b =>
      !b.unresolved && b.type.overloads?.isSome) &&
        (checkStmt .overloadsInArms s).toOption.isSome &&
        (walkArms .overloadsInArms s).toOption.any fun r =>
          r.1.length == 2 && r.1.all fun e => e.hidden.isEmpty &&
            (e.last.lookup? "f").all fun last => s.classes.comparable last.type)
    (by decide +kernel)
  simp only [Bool.and_eq_true, decide_eq_true_eq, Option.any_eq_true] at computed
  obtain ⟨⟨⟨transitive, b, found, resolved, function⟩, ends⟩, r, walked, two, each⟩ := computed
  have met : Program.overloadedInArms.Meets false (.stmt .overloadsInArms) s :=
    .first (.of_reach rfl reached)
  obtain ⟨os, overloads⟩ := Option.isSome_iff_exists.mp function
  rcases Program.arms_serve met rfl found (by simpa using resolved)
    (Ty.overloads?_eq_some.mp overloads) with
    ⟨result, s', ends, s₁, after, ran, _, walked', found', served⟩ | overflow
  case inr => simp [overflow, Except.toOption] at ends
  rw [walked'] at walked
  cases walked
  have plain := List.all_eq_true.mp each
  refine ⟨s, result, s', ends, s₁, after, met, ran, walked', by simpa using two, found', ?_⟩
  intro e listed
  have shown : "f" ∉ e.hidden := by
    have none := (Bool.and_eq_true_iff.mp (plain e listed)).1
    simp [List.isEmpty_iff.mp none]
  obtain ⟨last, ended, _, fits⟩ := served e listed shown
  refine ⟨last, ended, fits transitive ?_⟩
  intro e' listed' last' _ ended'
  have comparable := (Bool.and_eq_true_iff.mp (plain e' listed')).2
  rw [ended'] at comparable
  exact comparable

/-- A case whose pattern binds `f` beside a default that gives it another overload. -/
def Stmt.overloadsBehindPattern : Stmt :=
  .switch (.literal (.int 1) ⟨.null, none, none⟩)
    [⟨.type "f" (.named "int" [] .null), ⟨[], .null⟩, .null⟩]
    (some ⟨[.identity "string"], .null⟩) .null

def Program.overloadedBehindPattern : Program :=
  ⟨[.identity "int", .overloadsBehindPattern], .null⟩

/-- An arm that hides the function is passed over: it has one overload if the case is taken
and counts as having two. -/
theorem Program.arm_passed_over : ∃ s result s' ends s₁ e b after,
    Program.overloadedBehindPattern.Meets false (.stmt .overloadsBehindPattern) s ∧
    checkStmt .overloadsBehindPattern s = .ok (result, s') ∧ result.2.isSome = true ∧
    walkArms .overloadsBehindPattern s = .ok (ends, s₁) ∧ e ∈ ends ∧ "f" ∈ e.hidden ∧
    s.lookup? "f" = some b ∧ b.unresolved = false ∧ s'.lookup? "f" = some after ∧
    s'.classes.compare b.type after.type ≠ .ok (.ok ()) := by
  obtain ⟨s, reached, computed⟩ := Program.reach_of_any false [.identity "int"]
    (fun s => (s.lookup? "f").any fun b => !b.unresolved &&
      ((walkArms .overloadsBehindPattern s).toOption.any (·.1.any (·.hidden.contains "f"))) &&
        (checkStmt .overloadsBehindPattern s).toOption.any fun r => r.1.2.isSome &&
          (r.2.lookup? "f").any fun after =>
            !(r.2.classes.compare b.type after.type).toOption.any (·.isOk))
    (by decide +kernel)
  have met : Program.overloadedBehindPattern.Meets false (.stmt .overloadsBehindPattern) s :=
    .first (.of_reach rfl reached)
  rcases met.stmt_ends with ⟨result, s', ran⟩ | overflow
  case inr => simp [overflow, Except.toOption] at computed
  obtain ⟨ends, s₁, _, walks⟩ := checkStmt_walks .overloadsBehindPattern rfl _ _ ran
  simp only [ran, walks.walked, Except.toOption, Option.any_some, Option.any_eq_true,
    Bool.and_eq_true, List.any_eq_true, List.contains_iff_mem] at computed
  obtain ⟨b, found, ⟨resolved, e, listed, hidden⟩, accepted, after, found', refused⟩ := computed
  refine ⟨s, result, s', ends, s₁, e, b, after, met, ran, accepted, walks.walked, listed, hidden,
    found, by simpa using resolved, found', fun fits => ?_⟩
  rw [fits] at refused
  cases refused

end ShapeLang
