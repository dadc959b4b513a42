import ShapeLang.Checker.Bind
import ShapeLang.Checker.Branch
import ShapeLang.Checker.Call
import ShapeLang.Proofs.Coherence

/-!
# What a coherent table answers

A coherent table has an answer to every question about types that mention its
own classes: whether one stands for another, what covers two of them, which
overload takes some arguments, what several arms come to. The types it answers
with mention its own classes again.
-/

namespace ShapeLang

/-- Every class that the type mentions is one of the first `n`. -/
abbrev Ty.Known (n : Nat) (type : Ty) : Prop := type.Over (· < n) (· < n)

abbrev Overload.Known (n : Nat) (o : Overload) : Prop := o.Over (· < n) (· < n)

theorem Ty.Known.mono {n m : Nat} {type : Ty} (known : type.Known n) (le : n ≤ m) :
    type.Known m :=
  Ty.Over.mono known (fun _ below => Nat.lt_of_lt_of_le below le)
    fun _ below => Nat.lt_of_lt_of_le below le

/-- Types without class values. -/
theorem Ty.Over.known {n : Nat} {type : Ty} (limited : type.Over (· < n) fun _ => False) :
    type.Known n :=
  limited.mono (fun _ => id) fun _ => False.elim

/-- The index found is that of the candidate. -/
theorem ClassTable.firstViable?_index {t : ClassTable} {α : Type} {params : α → List Ty}
    {arguments : List Ty} {candidates : List α} {start index : Nat} {found : α}
    (run : t.firstViable? params arguments start candidates = .ok (.ok (some (index, found)))) :
    start ≤ index ∧ candidates[index - start]? = some found := by
  induction candidates generalizing start with
  | nil => cases run
  | cons c cs ih =>
    -- a candidate that is passed over moves the rest by one place
    have later (run : t.firstViable? params arguments (start + 1) cs =
        .ok (.ok (some (index, found)))) :
        start ≤ index ∧ (c :: cs)[index - start]? = some found := by
      obtain ⟨after, here⟩ := ih run
      have shifted : index - start = (index - (start + 1)) + 1 := by omega
      exact ⟨by omega, by rw [shifted]; exact here⟩
    rw [firstViable?] at run
    split at run
    · exact later run
    · obtain ⟨verdict, _, run⟩ := bind_eq_ok.mp run
      rcases verdict with (_ | feature) | _
      · exact later run
      · cases run
      · cases run
        simp

namespace ClassTable.Coherent

variable {t : ClassTable} (coherent : t.Coherent)
include coherent

/-- Two types of the table can always be compared. -/
theorem compare_ok {actual expected : Ty} (left : actual.Known t.classes.length)
    (right : expected.Known t.classes.length) :
    ∃ verdict, t.compare actual expected = .ok verdict :=
  compareWith_total (fun _ _ => coherent.satisfies_ok) actual expected left right

/-- Whether arguments are accepted can always be decided for types of the table. -/
theorem acceptAll_ok {accepted passed : List Ty}
    (left : ∀ type ∈ accepted, type.Known t.classes.length)
    (right : ∀ type ∈ passed, type.Known t.classes.length) :
    ∃ verdict, t.acceptAll t.satisfies accepted passed = .ok verdict :=
  acceptAll_total (fun _ _ => coherent.satisfies_ok) accepted passed left right

theorem leastCommon?_known {a b id : ClassId} (found : t.leastCommon? a b = some id) :
    id < t.classes.length := by
  have common := (List.mem_filter.mp (List.mem_of_find?_eq_some found)).1
  have listed := (List.mem_filter.mp common).1
  rw [coherent.registered] at listed
  exact List.mem_range.mp listed

/-- The join of two types of the table is always found or refused, and is a type of the table. -/
theorem join_ok {a b : Ty} (left : a.Known t.classes.length) (right : b.Known t.classes.length) :
    ∃ joined, t.join a b = .ok joined ∧
      ∀ type, joined = .ok type → type.Known t.classes.length := by
  obtain ⟨up, climbed⟩ := coherent.compare_ok left right
  obtain ⟨down, descended⟩ := coherent.compare_ok right left
  unfold join
  rw [climbed, descended, ok_bind, ok_bind]
  rcases up with (_ | feature) | _
  · rcases down with reason | _
    · simp only
      split
      · rename_i m known generics n known' generics'
        obtain ⟨⟨own, rfl, _⟩, _⟩ := Ty.over_object.mp left
        obtain ⟨⟨other, rfl, _⟩, _⟩ := Ty.over_object.mp right
        simp only [resolvedClass, ok_bind]
        cases found : t.leastCommon? own other with
        | none => exact ⟨_, rfl, by simp⟩
        | some id =>
          have known := coherent.leastCommon?_known found
          obtain ⟨c, got, _⟩ := coherent.get_ok known
          refine ⟨.ok (.instanceOf id c.name), by simp only [objectOf, got, ok_bind]; rfl, ?_⟩
          rintro _ ⟨⟩
          exact Ty.over_instanceOf.mpr known
      · exact ⟨_, rfl, by simp⟩
    · refine ⟨_, rfl, ?_⟩
      rintro _ ⟨⟩
      exact left
  · exact ⟨_, rfl, by simp⟩
  · refine ⟨_, rfl, ?_⟩
    rintro _ ⟨⟩
    exact right

/-- Overloads of the table can always be merged, and what comes out names classes of the table
only. -/
theorem mergeOverloads_ok (name : String) {merged added : List Overload}
    (old : ∀ o ∈ merged, o.Known t.classes.length)
    (new : ∀ o ∈ added, o.Known t.classes.length) :
    ∃ result, t.mergeOverloads name merged added = .ok result ∧
      ∀ os, result = .ok os → ∀ o ∈ os, o.Known t.classes.length := by
  induction added generalizing merged with
  | nil =>
    refine ⟨_, rfl, ?_⟩
    rintro _ ⟨⟩
    exact old
  | cons o os ih =>
    obtain ⟨first, others⟩ := List.forall_mem_cons.mp new
    rw [mergeOverloads]
    cases found : Overload.find? merged o.params with
    | none =>
      refine ih (List.forall_mem_append.mpr ⟨old, ?_⟩) others
      exact List.forall_mem_singleton.mpr first
    | some previous =>
      have known := old previous (List.mem_of_find?_eq_some found)
      obtain ⟨verdict, compared⟩ := coherent.compare_ok first.2 known.2
      simp only [compared, ok_bind]
      rcases verdict with (_ | feature) | _
      · exact ⟨_, rfl, nofun⟩
      · exact ⟨_, rfl, nofun⟩
      · exact ih old others

/-- A name can always be bound anew, with a type of the table or with a refusal. -/
theorem rebind_ok (name : String) {old new : Ty} (left : old.Known t.classes.length)
    (right : new.Known t.classes.length) :
    ∃ result, t.rebind name old new = .ok result ∧
      ∀ type, result = .ok type → type.Known t.classes.length := by
  unfold rebind
  split
  · obtain ⟨result, merged, known⟩ := coherent.mergeOverloads_ok name
      (Ty.over_func.mp left) (Ty.over_func.mp right)
    simp only [merged, ok_bind]
    cases result with
    | error problem => exact ⟨_, rfl, nofun⟩
    | ok os =>
      refine ⟨_, rfl, ?_⟩
      rintro _ ⟨⟩
      exact Ty.over_func.mpr (known os rfl)
  · obtain ⟨verdict, compared⟩ := coherent.compare_ok right left
    simp only [compared, ok_bind]
    rcases verdict with (_ | feature) | _
    · exact ⟨_, rfl, nofun⟩
    · exact ⟨_, rfl, nofun⟩
    · refine ⟨_, rfl, ?_⟩
      rintro _ ⟨⟩
      exact left

/-- The search for a viable candidate ends, whichever candidate it finds. -/
theorem firstViable?_ok {α : Type} {params : α → List Ty} {arguments : List Ty}
    {candidates : List α}
    (left : ∀ c ∈ candidates, ∀ p ∈ params c, p.Known t.classes.length)
    (right : ∀ a ∈ arguments, a.Known t.classes.length) (start : Nat) :
    ∃ result, t.firstViable? params arguments start candidates = .ok result := by
  induction candidates generalizing start with
  | nil => exact ⟨_, rfl⟩
  | cons c cs ih =>
    obtain ⟨first, others⟩ := List.forall_mem_cons.mp left
    rw [firstViable?]
    split
    · exact ih others (start + 1)
    · obtain ⟨verdict, accepted⟩ := coherent.acceptAll_ok first right
      simp only [accepted, ok_bind]
      rcases verdict with (_ | feature) | _
      · exact ih others (start + 1)
      · exact ⟨_, rfl⟩
      · exact ⟨_, rfl⟩

/-- The types the arms give a name can always be reconciled with the one outside. -/
theorem reconcile_ok {outer : Ty} {arms : List Binding} (known : outer.Known t.classes.length)
    (each : ∀ b ∈ arms, b.type.Known t.classes.length) :
    ∃ type, t.reconcile outer arms = .ok type ∧ type.Known t.classes.length := by
  have folded (merged : Ty) (start : merged.Known t.classes.length) (arms : List Binding)
      (each : ∀ b ∈ arms, b.type.Known t.classes.length) :
      ∃ result, reconcile.go t merged arms = .ok result ∧
        ∀ type, result = some type → type.Known t.classes.length := by
    induction arms generalizing merged with
    | nil =>
      refine ⟨_, rfl, ?_⟩
      rintro _ ⟨⟩
      exact start
    | cons arm arms ih =>
      obtain ⟨first, others⟩ := List.forall_mem_cons.mp each
      rw [reconcile.go]
      split
      · exact ⟨_, rfl, nofun⟩
      · split
        · exact ih merged start others
        · obtain ⟨joined, ran, known⟩ := coherent.join_ok start first
          simp only [ran, ok_bind]
          cases joined with
          | error reason => exact ⟨_, rfl, nofun⟩
          | ok type => exact ih type (known type rfl) others
  cases arms with
  | nil => exact ⟨outer, rfl, known⟩
  | cons first others =>
    obtain ⟨start, rest⟩ := List.forall_mem_cons.mp each
    obtain ⟨result, ran, merged⟩ := folded first.type start others rest
    rw [reconcile, ran, ok_bind]
    cases result with
    | none => exact ⟨outer, rfl, known⟩
    | some type =>
      refine ⟨_, rfl, ?_⟩
      split
      · exact known
      · exact merged type rfl

theorem joinBindings_ok {merged : Binding} {others : List Binding}
    (start : merged.type.Known t.classes.length)
    (each : ∀ b ∈ others, b.type.Known t.classes.length) :
    ∃ result failure, t.joinBindings merged others = .ok (result, failure) ∧
      result.type.Known t.classes.length := by
  induction others generalizing merged with
  | nil => exact ⟨merged, none, rfl, start⟩
  | cons other others ih =>
    obtain ⟨first, rest⟩ := List.forall_mem_cons.mp each
    rw [joinBindings]
    split
    · exact ⟨_, _, rfl, Ty.over_noneType⟩
    · obtain ⟨joined, ran, known⟩ := coherent.join_ok start first
      simp only [ran, ok_bind]
      cases joined with
      | error reason => exact ⟨merged, _, rfl, start⟩
      | ok type => exact ih (known type rfl) rest

end ClassTable.Coherent

end ShapeLang
