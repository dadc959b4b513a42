import ShapeLang.Proofs.Arms
import ShapeLang.Proofs.Preorder
import ShapeLang.Proofs.Reached

/-!
# What is bound only grows

A statement never takes back what is known about a name: a name with a value keeps
it, stays constant, is assigned on no fewer paths, and keeps its type, except that
a function may gain overloads behind those it has. The overload that an earlier
call has chosen is therefore still at its place.
-/

namespace ShapeLang

/-- The type stays, or is that of a function with more overloads behind the old ones. -/
inductive Ty.Grown : Ty → Ty → Prop where
  | same {type : Ty} : Grown type type
  | more {os new : List Overload} : Grown (.func os) (.func (os ++ new))

theorem Ty.Grown.trans {a b c : Ty} (first : a.Grown b) (second : b.Grown c) : a.Grown c := by
  cases first with
  | same => exact second
  | more =>
    cases second with
    | same => exact .more
    | more =>
      rw [List.append_assoc]
      exact .more

/-- A type grows by overloads or not at all. -/
theorem Ty.grown_iff {a b : Ty} :
    a.Grown b ↔ b = a ∨ ∃ os new, a = .func os ∧ b = .func (os ++ new) := by
  constructor
  · intro grown
    cases grown with
    | same => exact .inl rfl
    | more => exact .inr ⟨_, _, rfl, rfl⟩
  · rintro (rfl | ⟨os, new, rfl, rfl⟩)
    · exact .same
    · exact .more

/-- What may become of a name that has a value. -/
structure Binding.Grown (b b' : Binding) : Prop where
  resolved : b'.unresolved = false
  assigned : b.assigned.rank ≤ b'.assigned.rank
  constant : b.constant = true → b'.constant = true
  type : b.type.Grown b'.type

theorem Binding.Grown.refl {b : Binding} (resolved : b.unresolved = false) : b.Grown b :=
  ⟨resolved, Nat.le_refl _, id, .same⟩

theorem Binding.Grown.trans {a b c : Binding} (first : a.Grown b) (second : b.Grown c) :
    a.Grown c where
  resolved := second.resolved
  assigned := Nat.le_trans first.assigned second.assigned
  constant fixed := second.constant (first.constant fixed)
  type := first.type.trans second.type

theorem Assigned.rank_le_max (a b : Assigned) : a.rank ≤ (a.max b).rank := by
  unfold Assigned.max
  split <;> omega

theorem Assigned.rank_le_always (a : Assigned) : a.rank ≤ Assigned.always.rank := by
  cases a <;> decide

/-- Every name that has a value keeps it. -/
def Checker.Grown (s s' : Checker) : Prop :=
  ∀ name b, s.lookup? name = some b → b.unresolved = false →
    ∃ b', s'.lookup? name = some b' ∧ b.Grown b'

namespace Checker.Grown

variable {s s₁ s₂ : Checker}

theorem of_lookup (same : ∀ name, s₁.lookup? name = s.lookup? name) : s.Grown s₁ := by
  intro name b found resolved
  exact ⟨b, (same name).trans found, .refl resolved⟩

theorem of_noted (noted : s.Noted s₁) : s.Grown s₁ := of_lookup noted.lookup?

theorem refl (s : Checker) : s.Grown s := of_lookup fun _ => rfl

theorem trans (first : s.Grown s₁) (second : s₁.Grown s₂) : s.Grown s₂ := by
  intro name b found resolved
  obtain ⟨b₁, found₁, grown₁⟩ := first name b found resolved
  obtain ⟨b₂, found₂, grown₂⟩ := second name b₁ found₁ grown₁.resolved
  exact ⟨b₂, found₂, grown₁.trans grown₂⟩

theorem bind {name : String} {b' : Binding}
    (here : ∀ b, s.lookup? name = some b → b.unresolved = false → b.Grown b') :
    s.Grown (s.bind name b') := by
  intro other b found resolved
  rw [Checker.lookup?_bind]
  by_cases same : other = name
  · subst same
    exact ⟨b', if_pos rfl, here b found resolved⟩
  · rw [if_neg same]
    exact ⟨b, found, .refl resolved⟩

end Checker.Grown

/-- In the arm, every name that had a value before has grown or is hidden. -/
def Arm.Grown (s : Checker) (arm : Arm) : Prop :=
  ∀ name b b', s.lookup? name = some b → b.unresolved = false →
    arm.bindings.find? name = some b' → b.Grown b'

namespace ClassTable

variable {t : ClassTable}

theorem mergeOverloads_append {name : String} {merged added result : List Overload}
    (run : t.mergeOverloads name merged added = .ok (.ok result)) :
    ∃ new, result = merged ++ new := by
  induction added generalizing merged with
  | nil =>
    cases run
    exact ⟨[], (List.append_nil _).symm⟩
  | cons o os ih =>
    rw [mergeOverloads] at run
    cases found : Overload.find? merged o.params with
    | none =>
      rw [found] at run
      obtain ⟨new, same⟩ := ih run
      exact ⟨o :: new, by rw [same, List.append_assoc, List.singleton_append]⟩
    | some old =>
      rw [found] at run
      obtain ⟨verdict, _, rest⟩ := bind_eq_ok.mp run
      rcases verdict with (_ | feature) | _
      · cases rest
      · cases rest
      · exact ih rest

theorem rebind_grown {name : String} {old new type : Ty}
    (run : t.rebind name old new = .ok (.ok type)) : old.Grown type := by
  unfold rebind at run
  split at run
  · obtain ⟨merged, joined, rest⟩ := bind_eq_ok.mp run
    cases merged with
    | error problem => cases rest
    | ok os =>
      cases rest
      obtain ⟨new, rfl⟩ := mergeOverloads_append joined
      exact .more
  · obtain ⟨verdict, _, rest⟩ := bind_eq_ok.mp run
    rcases verdict with (_ | feature) | _
    · cases rest
    · cases rest
    · cases rest
      exact .same

/-- Two types that grew from one are the same, or functions: then their join is one of
the two. -/
theorem join_grown {base a b c : Ty} (left : base.Grown a) (right : base.Grown b)
    (differ : ¬(b == a) = true) (joined : t.join a b = .ok (.ok c)) : base.Grown c := by
  cases join_outcome joined with
  | right => exact right
  | left => exact left
  | common actual other least =>
    subst actual other
    cases left
    cases right
    exact absurd (Ty.beq_refl _) differ

theorem reconcileGo_grown {base merged result : Ty} {arms : List Binding}
    (start : base.Grown merged) (each : ∀ arm ∈ arms, base.Grown arm.type)
    (run : reconcile.go t merged arms = .ok (some result)) : base.Grown result := by
  induction arms generalizing merged with
  | nil =>
    cases run
    exact start
  | cons arm arms ih =>
    obtain ⟨first, others⟩ := List.forall_mem_cons.mp each
    obtain ⟨next, rest, ⟨_, rfl⟩ | ⟨differ, joined⟩⟩ := reconcileGo_cons run
    · exact ih start others rest
    · exact ih (join_grown start first differ joined) others rest

/-- Reconciling what the arms bind with the type outside takes no overload away. -/
theorem reconcile_grown {base outer type : Ty} {arms : List Binding} (start : base.Grown outer)
    (each : ∀ arm ∈ arms, base.Grown arm.type) (run : t.reconcile outer arms = .ok type) :
    base.Grown type := by
  rcases reconcile_outcome run with rfl | ⟨first, others, rfl, ran⟩
  · exact start
  · obtain ⟨here, rest⟩ := List.forall_mem_cons.mp each
    exact reconcileGo_grown here rest ran

end ClassTable

/-- Names were bound: the classes and the returns stay, and what was bound grows. -/
structure Checker.Rebound (s s' : Checker) : Prop where
  classes : s'.classes = s.classes
  returns : s'.frame.returns = s.frame.returns
  grown : s.Grown s'

namespace Checker.Rebound

variable {s s₁ s₂ : Checker}

theorem of_noted (noted : s.Noted s₁) : s.Rebound s₁ :=
  ⟨noted.classes, congrArg Frame.returns noted.frame, .of_noted noted⟩

theorem refl (s : Checker) : s.Rebound s := of_noted (.refl s)

theorem trans (first : s.Rebound s₁) (second : s₁.Rebound s₂) : s.Rebound s₂ where
  classes := second.classes.trans first.classes
  returns := second.returns.trans first.returns
  grown := first.grown.trans second.grown

theorem bind {name : String} {b' : Binding}
    (here : ∀ b, s.lookup? name = some b → b.unresolved = false → b.Grown b') :
    s.Rebound (s.bind name b') :=
  ⟨rfl, rfl, .bind here⟩

end Checker.Rebound

/-- What a statement does to what is bound and to the classes. -/
structure Checker.Kept (stmt : Stmt) (s s' : Checker) : Prop where
  grown : s.Grown s'
  classes : (∀ decl span, stmt ≠ .classDecl decl span) → s'.classes = s.classes

/-- A statement that only binds names lets them grow and changes no class. -/
theorem Checker.Kept.of_rebound {stmt : Stmt} {s s' : Checker} (rebound : s.Rebound s') :
    s.Kept stmt s' :=
  ⟨rebound.grown, fun _ => rebound.classes⟩

theorem Arm.bindingsOf_eq_nil {arms : List Arm} {x : String} (unnamed : x ∉ Arm.names arms) :
    Arm.bindingsOf arms x = [] := by
  refine List.filterMap_eq_nil_iff.mpr fun arm listed => ?_
  cases found : arm.bindings.find? x with
  | none => rfl
  | some b =>
    have entry : x ∈ (arms.flatMap fun arm => arm.bindings.keys.map (·, ())).map (·.1) := by
      simp only [List.map_flatMap, List.mem_flatMap, List.map_map]
      exact ⟨arm, listed, by simpa using NameMap.mem_keys_of_find? found⟩
    obtain ⟨value, kept⟩ := Option.isSome_iff_exists.mp (NameMap.find?_ofList_isSome entry)
    exact absurd (NameMap.mem_keys_of_find? kept) unnamed

namespace Check

/-- The step binds names and does nothing else to the frame. -/
def Rebinds {α : Type} (m : Check α) : Prop := ∀ s, Gives m s fun _ s' => s.Rebound s'

namespace Rebinds

variable {α β : Type} {m : Check α} {f : α → Check β}

theorem of_notes (notes : Notes m) : Rebinds m :=
  fun s => (notes s).imp fun _ _ noted => .of_noted noted

theorem pure (a : α) : Rebinds (Pure.pure a : Check α) := of_notes (.pure a)

theorem bind (first : Rebinds m) (rest : ∀ a, Rebinds (f a)) : Rebinds (m >>= f) := by
  intro s
  refine (first s).bind fun a s₁ rebound => ?_
  exact (rest a s₁).imp fun _ _ later => rebound.trans later

end Rebinds

/-- A definition binds its name, with a type that has grown if there was one. -/
theorem define_rebinds (name : String) (type : Ty) (assigned : Assigned) (constant : Bool)
    (span : Span) : Rebinds (define name type assigned constant span) := by
  intro s
  refine (define_outcome name type assigned constant span).imp fun _ s' outcome => ?_
  cases outcome with
  | fresh free =>
    refine .bind fun b found resolved => ?_
    rw [free b found] at resolved
    cases resolved
  | @rebound old merged known resolved _ fits =>
    refine .bind fun b found _ => ?_
    obtain rfl : b = old := Option.some.inj (found.symm.trans known)
    refine ⟨resolved, Assigned.rank_le_max _ _, fun fixed => ?_, ClassTable.rebind_grown fits⟩
    simp [fixed]
  | refused => exact .of_noted (.addDiagnostic _ _)

theorem defineUnresolved_rebinds (name : String) (span : Span) :
    Rebinds (defineUnresolved name span) := by
  intro s
  refine .modify ?_
  split
  · rename_i old known
    refine .bind fun b found resolved => ?_
    obtain rfl : b = old := Option.some.inj (found.symm.trans known)
    exact ⟨resolved, Assigned.rank_le_always _, id, .same⟩
  · rename_i free
    refine .bind fun b found _ => ?_
    cases free.symm.trans found

theorem defineAllUnresolved_rebinds (names : List String) (span : Span) :
    Rebinds (defineAllUnresolved names span) := by
  unfold defineAllUnresolved
  induction names.filter (· != "_") with
  | nil => exact .pure _
  | cons name names ih => exact .bind (defineUnresolved_rebinds name span) fun _ => ih

theorem defineEach_rebinds (constant : Bool) (span : Span) (pairs : List (String × Ty)) :
    Rebinds (defineEach constant span pairs) := by
  induction pairs with
  | nil => exact .pure _
  | cons pair pairs ih =>
    obtain ⟨name, type⟩ := pair
    have rest (bound : Option Unit) : Rebinds (do
        let others ← defineEach constant span pairs
        return bound.isSome && others) := .bind ih fun _ => .pure _
    rw [defineEach]
    split
    · exact .bind (.pure _) rest
    · exact .bind (define_rebinds _ _ _ _ _) rest

theorem defineNames_rebinds (names : List String) (type : Ty) (constant : Bool) (span : Span) :
    Rebinds (defineNames names type constant span) := by
  have each (pairs : List (String × Ty)) : Rebinds (do
      let bound ← defineEach constant span pairs
      return if bound then some type else none : Check (Option Ty)) :=
    .bind (defineEach_rebinds constant span pairs) fun _ => .pure _
  cases type with
  | spread items =>
    rw [defineNames]
    split
    · refine .bind (defineAllUnresolved_rebinds names span) fun _ => ?_
      exact .of_notes (.of_reports fun _ => .fail _ trivial)
    · exact each _
  | _ => exact each _

/-! ## Merges

The names are merged one after the other, and each is compared with what was bound to it
before the merge. -/

section

variable {s₀ s : Checker} {arms : List Arm} (grown : ∀ arm ∈ arms, arm.Grown s₀)
include grown

/-- What the arms bind a known name to has grown from what it was bound to before them. -/
theorem bindingsOf_grown {name : String} {b : Binding} (found : s₀.lookup? name = some b)
    (resolved : b.unresolved = false) : ∀ b' ∈ Arm.bindingsOf arms name, b.Grown b' := by
  intro b' member
  obtain ⟨arm, listed, bound⟩ := List.mem_filterMap.mp member
  exact grown arm listed name b b' found resolved bound

/-- Merging a name rebinds it, and what it is bound to has grown from what it was before the
arms. -/
theorem mergeName_rebound (exhaustive : Bool) (span : Span) (name : String)
    (sofar : s₀.Rebound s) :
    Gives (mergeName arms exhaustive span name) s fun _ s' => s₀.Rebound s' := by
  -- a name that had a value before the merge is not introduced by it
  have known (free : s.lookup? name = none) (b' : Binding) : s₀.Grown (s.bind name b') := by
    intro other b found resolved
    obtain ⟨b₁, found₁, grown₁⟩ := sofar.grown other b found resolved
    have apart : other ≠ name := by
      rintro rfl
      cases free.symm.trans found₁
    rw [Checker.lookup?_bind, if_neg apart]
    exact ⟨b₁, found₁, grown₁⟩
  refine (mergeName_outcome arms exhaustive span name).imp fun _ s' outcome => ?_
  cases outcome with
  | absent => exact sofar
  | introduced free => exact ⟨sofar.classes, sofar.returns, known free _⟩
  | conflict free => exact ⟨sofar.classes, sofar.returns, known free _⟩
  | @outer outer type here typed =>
    refine ⟨sofar.classes, sofar.returns, fun other b found resolved => ?_⟩
    obtain ⟨b₁, found₁, grown₁⟩ := sofar.grown other b found resolved
    rw [Checker.lookup?_bind]
    by_cases same : other = name
    · subst same
      obtain rfl : b₁ = outer := Option.some.inj (found₁.symm.trans here)
      have later : b.type.Grown type := by
        rcases typed with ⟨_, _, reconciled⟩ | ⟨_, rfl⟩
        · have each := bindingsOf_grown grown found resolved
          exact ClassTable.reconcile_grown grown₁.type (fun b' member => (each b' member).type)
            reconciled
        · exact grown₁.type
      have rank := Nat.le_trans grown₁.assigned (Assigned.rank_le_max b₁.assigned
        (.afterArms exhaustive (Arm.states arms other)))
      exact ⟨_, if_pos rfl, grown₁.resolved, rank, grown₁.constant, later⟩
    · rw [if_neg same]
      exact ⟨b₁, found₁, grown₁⟩

theorem mergeNames_rebound (exhaustive : Bool) (span : Span) (names : List String)
    (sofar : s₀.Rebound s) :
    Gives (mergeNames arms exhaustive span names) s fun _ s' => s₀.Rebound s' := by
  induction names generalizing s with
  | nil => exact .pure sofar
  | cons name names ih =>
    refine (mergeName_rebound grown exhaustive span name sofar).bind fun merged s₁ rebound => ?_
    exact (ih rebound).bind fun others s₂ rebound' => .pure rebound'

end

/-- What follows the names in a merge, from `s₁`: what the arms return is joined to what was
returned before if one of them is sure to run and all return. -/
inductive ArmsOutcome (arms : List Arm) (exhaustive : Bool) (span : Span) (s₁ : Checker) :
    Option Unit → Checker → Prop where
  | returned {result : Option Unit} {joined : Bool} {type : Option Ty} {s₂ : Checker}
      (sure : exhaustive = true) (nonempty : arms ≠ [])
      (all : ∀ arm ∈ arms, arm.returns.isSome = true)
      (ran : mergeReturns span s₁.frame.returns (arms.filterMap (·.returns)) s₁ =
        .ok ((joined, type), s₂))
      (passed : result = some () → joined = true) :
      ArmsOutcome arms exhaustive span s₁ result (s₂.setReturns type)
  | silent {result : Option Unit}
      (none : exhaustive = true → (∀ arm ∈ arms, arm.returns.isSome = true) → arms = []) :
      ArmsOutcome arms exhaustive span s₁ result s₁

theorem mergeArms_outcome {s : Checker} {arms : List Arm} {exhaustive : Bool} {span : Span}
    {mid : Bool → Checker → Prop}
    (names : Gives (mergeNames arms exhaustive span (Arm.names arms)) s mid) :
    Gives (mergeArms arms exhaustive span) s fun result s' => ∃ merged s₁, mid merged s₁ ∧
      (result = some () → merged = true) ∧ ArmsOutcome arms exhaustive span s₁ result s' := by
  refine names.bind fun merged s₁ holds => ?_
  simp only
  split
  · rename_i all
    simp only [Bool.and_eq_true, beq_iff_eq, List.filterMap_length_eq_length, Bool.not_eq_true',
      List.isEmpty_eq_false_iff] at all
    refine .after_get ?_
    refine Gives.bind (fun _ _ run => run) ?_
    rintro ⟨joined, type⟩ s₂ ran
    refine .after_modify (.pure ⟨merged, s₁, holds, ?_, .returned all.1.1 all.1.2 all.2 ran ?_⟩)
    · cases merged <;> simp
    · cases joined <;> simp
  · rename_i some_
    refine .pure ⟨merged, s₁, holds, by cases merged <;> simp, .silent fun sure all => ?_⟩
    refine Classical.byContradiction fun nonempty => some_ ?_
    simp only [Bool.and_eq_true, beq_iff_eq, List.filterMap_length_eq_length, Bool.not_eq_true',
      List.isEmpty_eq_false_iff]
    exact ⟨⟨sure, nonempty⟩, all⟩

/-! ## What a merge does to one name -/

/-- What a merge of the arms does to the name: nothing if no arm binds it, and otherwise what
merging that name alone does, from a checker with the same classes and the same binding of it. -/
inductive MergedAt (arms : List Arm) (exhaustive : Bool) (span : Span) (x : String)
    (s : Checker) (ok : Prop) (s' : Checker) : Prop where
  | unbound (nowhere : Arm.bindingsOf arms x = []) (same : s'.lookup? x = s.lookup? x)
  | merged {s₁ s₂ : Checker} {done : Option Unit} (classes : s₁.classes = s.classes)
      (before : s₁.lookup? x = s.lookup? x)
      (ran : mergeName arms exhaustive span x s₁ = .ok (done, s₂))
      (after : s'.lookup? x = s₂.lookup? x) (told : ok → done = some ())

section

variable {s : Checker} {arms : List Arm} {exhaustive : Bool} {span : Span} {x : String}

theorem mergeName_apart {name : String} (apart : x ≠ name) :
    Gives (mergeName arms exhaustive span name) s fun _ s' =>
      s'.classes = s.classes ∧ s'.lookup? x = s.lookup? x := by
  refine (mergeName_outcome arms exhaustive span name).imp fun _ s' outcome => ?_
  cases outcome with
  | outer => exact ⟨rfl, by rw [Checker.lookup?_bind, if_neg apart]⟩
  | absent => exact ⟨rfl, rfl⟩
  | introduced => exact ⟨rfl, by rw [Checker.lookup?_bind, if_neg apart]⟩
  | conflict => exact ⟨rfl, (Checker.lookup?_bind _ name _ x).trans (if_neg apart)⟩

theorem mergeNames_apart {names : List String} (absent : x ∉ names) :
    Gives (mergeNames arms exhaustive span names) s fun _ s' => s'.lookup? x = s.lookup? x := by
  induction names generalizing s with
  | nil => exact .pure rfl
  | cons name names ih =>
    obtain ⟨apart, others⟩ := List.ne_and_not_mem_of_not_mem_cons absent
    refine (mergeName_apart apart).bind fun _ s₁ kept => ?_
    exact (ih others).bind fun _ s₂ kept' => .pure (kept'.trans kept.2)

theorem mergeNames_at {names : List String} (distinct : names.Nodup) (listed : x ∈ names) :
    Gives (mergeNames arms exhaustive span names) s fun all s' =>
      MergedAt arms exhaustive span x s (all = true) s' := by
  induction names generalizing s with
  | nil => cases listed
  | cons name names ih =>
    obtain ⟨absent, distinct'⟩ := List.nodup_cons.mp distinct
    by_cases same : x = name
    · subst same
      refine Gives.bind (fun _ _ run => run) fun done s₁ ran => ?_
      refine (mergeNames_apart absent).bind fun others s₂ kept => .pure ?_
      exact .merged rfl rfl ran kept fun all =>
        merged_of_isSome (Bool.and_eq_true_iff.mp all).1
    · refine (mergeName_apart same).bind fun _ s₁ kept => ?_
      have rest := (List.mem_cons.mp listed).resolve_left same
      refine (ih distinct' rest).bind fun others s₂ given => .pure ?_
      cases given with
      | unbound nowhere later => exact .unbound nowhere (later.trans kept.2)
      | merged classes before ran after told =>
        exact .merged (classes.trans kept.1) (before.trans kept.2) ran after
          fun all => told (Bool.and_eq_true_iff.mp all).2

theorem mergeArms_at (x : String) :
    Gives (mergeArms arms exhaustive span) s fun result s' =>
      MergedAt arms exhaustive span x s (result = some ()) s' := by
  have names : Gives (mergeNames arms exhaustive span (Arm.names arms)) s fun all s' =>
      MergedAt arms exhaustive span x s (all = true) s' := by
    by_cases listed : x ∈ Arm.names arms
    · exact mergeNames_at (NameMap.keys_nodup _) listed
    · exact (mergeNames_apart listed).imp fun _ _ same =>
        .unbound (Arm.bindingsOf_eq_nil listed) same
  refine (mergeArms_outcome names).imp fun result s' given => ?_
  obtain ⟨all, s₁, given, passed, outcome⟩ := given
  have same : s'.lookup? x = s₁.lookup? x := by
    cases outcome with
    | returned _ _ _ ran => exact (scoping.mergeReturns trivial _ _ s₁ _ _ ran).lookup? x
    | silent => rfl
  cases given with
  | unbound nowhere kept => exact .unbound nowhere (same.trans kept)
  | merged classes before ran after told =>
    exact .merged classes before ran (same.trans after) fun done => told (passed done)

end

section

variable {s : Checker} {arms : List Arm} (grown : ∀ arm ∈ arms, arm.Grown s)
include grown

theorem mergeArms_rebound (exhaustive : Bool) (span : Span) :
    Gives (mergeArms arms exhaustive span) s fun result s' =>
      ∃ s₁, s.Rebound s₁ ∧ ArmsOutcome arms exhaustive span s₁ result s' := by
  have names := mergeNames_rebound grown exhaustive span (Arm.names arms) (.refl s)
  refine (mergeArms_outcome names).imp fun _ s' given => ?_
  obtain ⟨_, s₁, rebound, _, outcome⟩ := given
  exact ⟨s₁, rebound, outcome⟩

/-- A merge of arms in which the names have grown lets them grow. -/
theorem mergeArms_grown (exhaustive : Bool) (span : Span) :
    Gives (mergeArms arms exhaustive span) s fun _ s' =>
      s'.classes = s.classes ∧ s.Grown s' := by
  refine (mergeArms_rebound grown exhaustive span).imp fun _ s' given => ?_
  obtain ⟨s₁, rebound, outcome⟩ := given
  cases outcome with
  | returned _ _ _ ran =>
    have later := rebound.trans (.of_noted (scoping.mergeReturns trivial _ _ s₁ _ _ ran))
    exact ⟨later.classes, later.grown.trans (.of_lookup fun _ => rfl)⟩
  | silent => exact ⟨rebound.classes, rebound.grown⟩

end

/-! ## Statements -/

/-- A class takes a free name, and so nothing that has a value loses it. -/
theorem declareNamed_grown (decl : ClassDecl) (span : Span) {s : Checker} :
    Gives (declareNamed decl span) s fun _ s' => s.Grown s' := by
  refine (claimClass_outcome decl.name).bind fun result s₁ outcome => ?_
  cases outcome with
  | taken old => exact .after_modify (.pure (.of_noted (.addDiagnostic _ _)))
  | @claimed id classes free declared =>
    have claimed : s.Grown { s with classes } := .of_lookup fun _ => rfl
    refine .after_get (.after_lift fun type _ => ?_)
    refine (define_rebinds _ _ _ _ _ _).bind fun bound s₂ defined => ?_
    have sofar := claimed.trans defined.grown
    cases bound with
    | none => exact .pure sofar
    | some bound =>
      refine (collectFields_notes _ _ _).bind fun (fieldsOk, fields) s₃ noted => ?_
      refine (collectConstructors_notes _ _).bind
        fun (constructorsOk, constructors) s₄ noted' => ?_
      have later := sofar.trans (.of_noted (noted.trans noted'))
      refine .after_get (.after_lift fun filled _ => .after_lift fun registered _ => ?_)
      exact .after_set (.pure (later.trans (.of_lookup fun _ => rfl)))

theorem declareClass_grown (decl : ClassDecl) (span : Span) {s : Checker} :
    Gives (declareClass decl span) s fun _ s' => s.Grown s' := by
  cases root : s.atRoot with
  | false =>
    refine .of_run (declareClass_inside decl span root) ?_
    refine (defineUnresolved_rebinds _ _ s).bind fun _ s₁ rebound => ?_
    exact .after_modify (.pure (rebound.grown.trans (.of_noted (.addDiagnostic _ _))))
  | true =>
    refine .of_run (declareClass_root decl span root) ?_
    refine (warnIf_notes _ _ _ s).bind fun _ s₁ noted => ?_
    refine (warnIf_notes _ _ _ s₁).bind fun _ s₂ noted' => ?_
    refine (declareNamed_grown decl span).imp fun _ _ grown => ?_
    exact .trans (.of_noted (noted.trans noted')) grown

theorem recordReturn_kept (value : Ty) (span : Span) {s : Checker} :
    Gives (recordReturn value span) s fun _ s' => ∀ stmt, s.Kept stmt s' := by
  refine (recordReturn_outcome value span).imp fun _ s' outcome stmt => ?_
  cases outcome with
  | recorded => exact ⟨.of_lookup fun _ => rfl, fun _ => rfl⟩
  | refused => exact .of_rebound (.of_noted (.addDiagnostic _ _))

/-- Except where a class is declared or something returned, only names are bound. -/
theorem PlainOutcome.rebound {stmt : Stmt} {checked : Stmt × Option Ty} {s s' : Checker}
    (outcome : PlainOutcome s stmt checked s') (only : stmt.bindsOnly = true) :
    s.Rebound s' := by
  have looks {e : Expr} {a : Expr × Option Ty} {s₁ s₂ : Checker}
      (looked : checkExpr e s₁ = .ok (a, s₂)) : s₁.Rebound s₂ :=
    .of_noted (checkExpr_notes e s₁ _ _ looked)
  have finds {term : TypeTerm} {type : Option Ty} {s₁ : Checker}
      (found : resolveTerm term s = .ok (type, s₁)) : s.Rebound s₁ :=
    .of_noted (scoping.resolveTerm trivial s _ _ found)
  cases outcome with
  | expr looked => exact looks looked
  | defined looked stored =>
    exact (looks looked).trans (defineNames_rebinds _ _ _ _ _ _ _ stored)
  | undefined looked marked =>
    exact (looks looked).trans (defineAllUnresolved_rebinds _ _ _ _ _ marked)
  | announced found stored => exact (finds found).trans (define_rebinds _ _ _ _ _ _ _ _ stored)
  | unannounced found marked =>
    exact (finds found).trans (defineUnresolved_rebinds _ _ _ _ _ marked)
  | declared found looked compared stored =>
    have fitted := Checker.Rebound.of_noted (scoping.expectType _ _ trivial _ _ _ compared)
    exact (((finds found).trans (looks looked)).trans fitted).trans
      (define_rebinds _ _ _ _ _ _ _ _ stored)
  | valueless found looked stored =>
    exact ((finds found).trans (looks looked)).trans (define_rebinds _ _ _ _ _ _ _ _ stored)
  | undeclared found looked marked =>
    exact ((finds found).trans (looks looked)).trans (defineUnresolved_rebinds _ _ _ _ _ marked)
  | methods => exact .of_noted (.addDiagnostic _ _)
  | classDecl | returnedNone | returned | unreturned => cases only

/-- A plain statement lets the names grow, whatever it comes to, and changes no class unless it
declares one. -/
theorem PlainOutcome.kept {stmt : Stmt} {checked : Stmt × Option Ty} {s s' : Checker}
    (outcome : PlainOutcome s stmt checked s') : s.Kept stmt s' := by
  have rebound := outcome.rebound
  cases outcome with
  | classDecl declared =>
    exact ⟨declareClass_grown _ _ _ _ declared, fun other => absurd rfl (other _ _)⟩
  | returnedNone recorded => exact recordReturn_kept _ _ _ _ recorded _
  | returned looked recorded =>
    have before := Checker.Rebound.of_noted (checkExpr_notes _ _ _ _ looked)
    have kept := recordReturn_kept _ _ _ _ recorded
    exact ⟨before.grown.trans (kept (.return none .null)).grown,
      fun other => ((kept _).classes other).trans before.classes⟩
  | unreturned looked => exact .of_rebound (.of_noted (checkExpr_notes _ _ _ _ looked))
  | _ => exact .of_rebound (rebound rfl)

theorem checkStmts_grown {stmts : List Stmt}
    (each : ∀ stmt ∈ stmts, ∀ s, Gives (checkStmt stmt) s fun _ s' => s.Grown s') (s : Checker) :
    Gives (checkStmts stmts) s fun _ s' => s.Grown s' := by
  induction stmts generalizing s with
  | nil =>
    rw [checkStmts]
    exact .pure (.refl s)
  | cons stmt stmts ih =>
    obtain ⟨first, others⟩ := List.forall_mem_cons.mp each
    rw [checkStmts]
    refine (first s).bind fun _ s₁ grown => ?_
    exact (ih others s₁).bind fun _ s₂ grown' => .pure (grown.trans grown')

theorem checkBlock_grown {block : Block}
    (each : ∀ stmt ∈ block.body, ∀ s, Gives (checkStmt stmt) s fun _ s' => s.Grown s')
    (s : Checker) : Gives (checkBlock block) s fun _ s' => s.Grown s' := by
  obtain ⟨body, span⟩ := block
  rw [checkBlock]
  exact (checkStmts_grown each s).bind fun _ s₁ grown => .pure grown

/-- What was bound before the statement has grown at the end of an arm, unless it is hidden. -/
theorem arm_grown {s : Checker} {source : Block} {e : ArmEnd} (of : e.Of s source)
    (inside : ∀ s, Gives (checkBlock source) s fun _ s' => s.Grown s') {name : String}
    {b : Binding} (found : s.lookup? name = some b) (resolved : b.unresolved = false)
    (shown : name ∉ e.hidden) : ∃ b', e.last.lookup? name = some b' ∧ b.Grown b' := by
  obtain ⟨base, start, mid, ok, ran⟩ := of
  have opened : start.lookup? name = some b :=
    (ran.opened.others name shown).trans ((ran.reached.lookup? name).trans found)
  obtain ⟨b', later, grown⟩ := inside start _ _ ran.ran name b opened resolved
  exact ⟨b', (ran.noted.lookup? name).trans later, grown⟩

/-- In each arm of a statement the names from before it have grown, if they do so in its block. -/
theorem arms_grown {stmt : Stmt} {s s' s₁ : Checker} {checked : Stmt × Option Ty}
    {ends : List ArmEnd} {merged : Option Unit} (walks : stmt.Walks s checked s' ends s₁ merged)
    (inside : ∀ source ∈ stmt.arms, ∀ s, Gives (checkBlock source) s fun _ s' => s.Grown s') :
    ∀ arm ∈ ends.map (·.arm), arm.Grown s₁ := by
  intro arm listed name b b' found resolved bound
  obtain ⟨e, member, rfl⟩ := List.mem_map.mp listed
  obtain ⟨source, inArms, of⟩ := walks.source member
  obtain ⟨shown, last⟩ := ArmEnd.find?_arm.mp bound
  rw [walks.noted.lookup?] at found
  obtain ⟨b'', last', grown⟩ := arm_grown of (inside source inArms) found resolved shown
  cases last.symm.trans last'
  exact grown

/-- By induction on the arms: what a statement does to the names and the classes. -/
theorem checkStmt_kept (stmt : Stmt) (s : Checker) :
    Gives (checkStmt stmt) s fun _ s' => s.Kept stmt s' := by
  induction stmt using Stmt.induction generalizing s with
  | step stmt ih =>
    cases branching : stmt.branching with
    | false => exact (checkStmt_plain branching).imp fun _ _ outcome => outcome.kept
    | true =>
      refine (checkStmt_walks stmt branching).imp fun checked s' ⟨ends, s₁, merged, walks⟩ => ?_
      have grown := arms_grown walks fun source inArms => checkBlock_grown fun inner within s =>
        (ih source inArms inner within s).imp fun _ _ kept => kept.grown
      obtain ⟨classes, later⟩ := mergeArms_grown grown _ _ _ _ walks.merges
      have before := Checker.Rebound.of_noted walks.noted
      exact ⟨before.grown.trans later, fun _ => classes.trans before.classes⟩

theorem checkBlock_grows (block : Block) (s : Checker) :
    Gives (checkBlock block) s fun _ s' => s.Grown s' :=
  checkBlock_grown (fun stmt _ s => (checkStmt_kept stmt s).imp fun _ _ kept => kept.grown) s

end Check

/-! ## Everything that a check comes across -/

open Check

/-- A check that comes across a statement gets through it, unless a tuple cannot be counted. -/
theorem Program.Meets.stmt_ends {p : Program} {w : Bool} {stmt : Stmt} {s : Checker}
    (met : p.Meets w (.stmt stmt) s) :
    (∃ result s', checkStmt stmt s = .ok (result, s')) ∨
      checkStmt stmt s = .error .countOverflow :=
  (checkStmt_proceeds _ stmt s met.sound).outcome

/-- A check that comes across an expression gets through it, unless a tuple cannot be counted. -/
theorem Program.Meets.expr_ends {p : Program} {w : Bool} {e : Expr} {s : Checker}
    (met : p.Meets w (.expr e) s) :
    (∃ result s', checkExpr e s = .ok (result, s')) ∨ checkExpr e s = .error .countOverflow :=
  (checkExpr_delivers _ e s met.sound).outcome

/-- Whether a statement goes well or not, every name that had a value before it has one
afterwards, and what is known about the name has grown. Every statement that a check comes
across is checked to an end, unless a tuple in it is too long to be counted. -/
theorem Program.bindings_grow (stmt : Stmt) (s : Checker) :
    (∀ result s', checkStmt stmt s = .ok (result, s') →
      ∀ name b, s.lookup? name = some b → b.unresolved = false →
        ∃ b', s'.lookup? name = some b' ∧ b'.unresolved = false ∧
          b.assigned.rank ≤ b'.assigned.rank ∧ (b.constant = true → b'.constant = true) ∧
          (b'.type = b.type ∨
            ∃ os new, b.type = .func os ∧ b'.type = .func (os ++ new))) ∧
    ∀ (p : Program) (w : Bool), p.Meets w (.stmt stmt) s →
      (∃ result s', checkStmt stmt s = .ok (result, s')) ∨
        checkStmt stmt s = .error .countOverflow := by
  refine ⟨fun result s' ran name b found resolved => ?_, fun p w met => met.stmt_ends⟩
  have kept := checkStmt_kept stmt s result s' ran
  obtain ⟨b', found', grown⟩ := kept.grown name b found resolved
  refine ⟨b', found', grown.resolved, grown.assigned, grown.constant, ?_⟩
  exact Ty.grown_iff.mp grown.type

/-- A function that returns its argument, an instance of the class. -/
def Expr.identity (class_ : String) : Expr :=
  let term : TypeTerm := .named class_ [] .null
  .function [] [⟨"a", term⟩] (some term)
    ⟨[.return (some (.symbol "a" ⟨.null, none, none⟩)) .null], .null⟩ ⟨.null, none, none⟩

def Stmt.identity (class_ : String) : Stmt := .define ["f"] (.identity class_) false .null

/-- `f` gains one overload in the first arm and two in the other. -/
def Stmt.overloadsInArms : Stmt :=
  .ifElse (.literal (.bool true) ⟨.null, none, none⟩) ⟨[.identity "string"], .null⟩
    (some ⟨[.identity "string", .identity "bool"], .null⟩) .null

def Program.overloadedInArms : Program := ⟨[.identity "int", .overloadsInArms], .null⟩

/-- The branch is met with one overload. It is still there afterwards, and the one that both
arms added behind it. -/
theorem Program.bindings_grow_overloadedInArms : ∃ s result s' b b' os new,
    Program.overloadedInArms.Meets false (.stmt .overloadsInArms) s ∧
    checkStmt .overloadsInArms s = .ok (result, s') ∧ s.lookup? "f" = some b ∧
    b.unresolved = false ∧ s'.lookup? "f" = some b' ∧ b'.unresolved = false ∧
    b.type = .func os ∧ b'.type = .func (os ++ new) ∧ os.length = 1 ∧ new.length = 1 := by
  obtain ⟨s, reached, computed⟩ := Program.reach_of_any false [.identity "int"]
    (fun s => (s.lookup? "f").any fun b =>
      !b.unresolved && b.type.overloads?.any (·.length == 1) &&
        (checkStmt .overloadsInArms s).toOption.any fun r =>
          (r.2.lookup? "f").any (·.type.overloads?.any (·.length == 2)))
    (by decide +kernel)
  have met : Program.overloadedInArms.Meets false (.stmt .overloadsInArms) s :=
    .first (.of_reach rfl reached)
  obtain ⟨grows, ends⟩ := Program.bindings_grow .overloadsInArms s
  rcases ends _ _ met with ⟨result, s', ran⟩ | overflow
  case inr => simp [overflow, Except.toOption] at computed
  simp only [ran, Except.toOption, Option.any_eq_true, Bool.and_eq_true] at computed
  obtain ⟨b, found, ⟨resolved, os, overloads, single⟩, _, ⟨⟩, b', found', all, overloads', two⟩ :=
    computed
  replace resolved : b.unresolved = false := by simpa using resolved
  obtain ⟨b'', same, resolved', _, _, typed⟩ := grows result s' ran "f" b found resolved
  cases found'.symm.trans same
  rcases typed with unchanged | ⟨os', new, old, grown⟩
  · rw [unchanged, overloads] at overloads'
    cases overloads'
    grind
  · refine ⟨s, result, s', b, b', os', new, met, ran, found, resolved, found', resolved', old,
      grown, ?_⟩
    rw [old] at overloads
    rw [grown] at overloads'
    cases overloads
    cases overloads'
    grind

/-- An expression leaves everything as it was and appends to the diagnostics and the function
types. A statement leaves the frames around its own, the kind of its own and everything else
that is not bound or returned there; only a class declaration in the root frame changes the
classes. Everything that a check comes across is checked to an end, unless a tuple in it is too
long to be counted. -/
theorem Program.scopes_kept (s : Checker) :
    (∀ e result s', checkExpr e s = .ok (result, s') →
      ∃ diagnostics functions, s' = { s with
        diagnostics := s.diagnostics ++ diagnostics
        functions := s.functions ++ functions }) ∧
    (∀ stmt result s', checkStmt stmt s = .ok (result, s') →
      s'.depth = s.depth ∧ s'.frame.kind = s.frame.kind ∧ s'.outer = s.outer ∧
        (s'.classes ≠ s.classes → s.atRoot = true ∧ ∃ decl span, stmt = .classDecl decl span) ∧
        s.diagnostics <+: s'.diagnostics ∧ s.functions <+: s'.functions ∧
        s'.builtins = s.builtins ∧ s'.warningsAsErrors = s.warningsAsErrors) ∧
    ∀ (p : Program) (w : Bool),
      (∀ e, p.Meets w (.expr e) s →
        (∃ result s', checkExpr e s = .ok (result, s')) ∨
          checkExpr e s = .error .countOverflow) ∧
      ∀ stmt, p.Meets w (.stmt stmt) s →
        (∃ result s', checkStmt stmt s = .ok (result, s')) ∨
          checkStmt stmt s = .error .countOverflow := by
  refine ⟨fun e => checkExpr_notes e s, fun stmt result s' ran => ?_, fun p w =>
    ⟨fun e met => met.expr_ends, fun stmt met => met.stmt_ends⟩⟩
  have advanced := checkStmt_advances stmt s result s' ran
  have kept := checkStmt_kept stmt s result s' ran
  have depth : s'.depth = s.depth := by rw [Checker.depth, Checker.depth, advanced.outer]
  refine ⟨depth, advanced.kind, advanced.outer, fun changed => ⟨?_, ?_⟩, advanced.diagnostics,
    advanced.functions, advanced.builtins, advanced.warningsAsErrors⟩
  · cases root : s.atRoot with
    | true => rfl
    | false => exact absurd (advanced.classes root) changed
  · by_cases declares : ∃ decl span, stmt = .classDecl decl span
    · exact declares
    · refine absurd (kept.classes fun decl span same => ?_) changed
      exact declares ⟨decl, span, same⟩

/-- The functions of the program are checked in frames of their own. Nothing is left of these
but the function types, also where the statement around them has arms. -/
theorem Program.scopes_kept_overloadedInArms :
    (∃ s result s', Program.overloadedInArms.Meets false (.expr (.identity "int")) s ∧
      checkExpr (.identity "int") s = .ok (result, s') ∧ s'.frame = s.frame ∧
      s'.outer = s.outer ∧ s'.classes = s.classes ∧ s.functions.length = 0 ∧
      s'.functions.length = 1) ∧
    ∃ s result s', Program.overloadedInArms.Meets false (.stmt .overloadsInArms) s ∧
      checkStmt .overloadsInArms s = .ok (result, s') ∧ s'.depth = s.depth ∧
      s'.outer = s.outer ∧ s'.classes = s.classes ∧ s.functions.length = 1 ∧
      s'.functions.length = 3 := by
  constructor
  · obtain ⟨s, reached, computed⟩ := Program.reach_of_any false [] (fun s =>
      s.functions.length == 0 && (checkExpr (.identity "int") s).toOption.any fun r =>
        r.2.functions.length == 1) (by decide +kernel)
    have start : Program.overloadedInArms.Meets false (.stmt (.identity "int")) s :=
      .first (.of_reach rfl reached)
    have met : Program.overloadedInArms.Meets false (.expr (.identity "int")) s :=
      start.value List.mem_cons_self
    obtain ⟨exprs, _, ends⟩ := Program.scopes_kept s
    rcases (ends _ _).1 _ met with ⟨result, s', ran⟩ | overflow
    case inr => simp [overflow, Except.toOption] at computed
    simp only [ran, Except.toOption, Option.any_some, Bool.and_eq_true, beq_iff_eq] at computed
    obtain ⟨_, _, rfl⟩ := exprs _ _ _ ran
    exact ⟨s, result, _, met, ran, rfl, rfl, rfl, computed.1, computed.2⟩
  · obtain ⟨s, reached, computed⟩ := Program.reach_of_any false [.identity "int"] (fun s =>
      s.functions.length == 1 && (checkStmt .overloadsInArms s).toOption.any fun r =>
        r.2.functions.length == 3) (by decide +kernel)
    have met : Program.overloadedInArms.Meets false (.stmt .overloadsInArms) s :=
      .first (.of_reach rfl reached)
    obtain ⟨_, stmts, ends⟩ := Program.scopes_kept s
    rcases (ends _ _).2 _ met with ⟨result, s', ran⟩ | overflow
    case inr => simp [overflow, Except.toOption] at computed
    simp only [ran, Except.toOption, Option.any_some, Bool.and_eq_true, beq_iff_eq] at computed
    obtain ⟨depth, _, outer, classes, _⟩ := stmts _ _ _ ran
    refine ⟨s, result, s', met, ran, depth, outer, ?_, computed.1, computed.2⟩
    refine Classical.byContradiction fun changed => ?_
    obtain ⟨decl, span, same⟩ := (classes changed).2
    cases same

end ShapeLang
