import ShapeLang.Proofs.Preorder
import ShapeLang.Proofs.Registration

/-!
# The order of types and what covers two of them

Types without tuples, class values and type parameters can all be compared. Standing for a
type is an order among them as far as fitting is one among the classes. Whether it is or not,
the join of two types is above both, it does not matter in which order they are joined, and
the join of two instances is the least of the registered classes above both.
-/

namespace ShapeLang

mutual

/-- Made of instances of known classes, functions without type parameters, arrays, optional
types and `none`. -/
def Ty.structural : Ty → Bool
  | .object _ id generics => id.isSome && Ty.structuralList generics
  | .func overloads => Ty.structuralOverloads overloads
  | .array item => item.structural
  | .maybe item => item.structural
  | .noneType => true
  | .classValue .. => false
  | .tuple _ => false
  | .spread _ => false

def Ty.structuralList : List Ty → Bool
  | [] => true
  | a :: as => a.structural && Ty.structuralList as

def Ty.structuralOverloads : List Overload → Bool
  | [] => true
  | o :: os => o.structural && Ty.structuralOverloads os

def Overload.structural : Overload → Bool
  | ⟨generics, params, result⟩ =>
      generics.isEmpty && Ty.structuralList params && result.structural

end

/-- A structural type is regular, and no class is a value in it. -/
abbrev Ty.Classless (type : Ty) : Prop := type.Regular fun _ => False

mutual

/-- By induction on the type: a structural type has no class values and no generics in it. -/
theorem Ty.classless : (type : Ty) → type.structural = true → type.Classless
  | .object name id generics, structural => by
      rw [Ty.structural, Bool.and_eq_true, Option.isSome_iff_exists] at structural
      obtain ⟨⟨known, rfl⟩, each⟩ := structural
      refine ⟨rfl, Ty.over_object.mpr ⟨⟨known, rfl, trivial⟩, fun g listed => ?_⟩⟩
      exact (Ty.classlessList generics each g listed).2
  | .func os, structural => Ty.regular_func.mpr (Ty.classlessOverloads os structural)
  | .array item, structural => Ty.classless item structural
  | .maybe item, structural => Ty.classless item structural
  | .noneType, _ => ⟨rfl, Ty.over_noneType⟩
  | .classValue .., structural => by cases structural
  | .tuple _, structural => by cases structural
  | .spread _, structural => by cases structural

theorem Ty.classlessList : (types : List Ty) → Ty.structuralList types = true →
    ∀ type ∈ types, type.Classless
  | [], _ => by simp
  | type :: types, structural => by
      rw [Ty.structuralList, Bool.and_eq_true] at structural
      have first := Ty.classless type structural.1
      exact List.forall_mem_cons.mpr ⟨first, Ty.classlessList types structural.2⟩

theorem Ty.classlessOverloads : (os : List Overload) → Ty.structuralOverloads os = true →
    ∀ o ∈ os, o.Regular fun _ => False
  | [], _ => by simp
  | o :: os, structural => by
      rw [Ty.structuralOverloads, Bool.and_eq_true] at structural
      have first := Overload.classless o structural.1
      exact List.forall_mem_cons.mpr ⟨first, Ty.classlessOverloads os structural.2⟩

theorem Overload.classless : (o : Overload) → o.structural = true → o.Regular fun _ => False
  | ⟨generics, params, result⟩, structural => by
      rw [Overload.structural, Bool.and_eq_true, Bool.and_eq_true, List.isEmpty_iff] at structural
      obtain ⟨⟨none, accepted⟩, given⟩ := structural
      exact ⟨none, Ty.classlessList params accepted, Ty.classless result given⟩

end

namespace ClassTable

variable {t : ClassTable} {a b c : Ty}

/-- Two types without class values are comparable or not, in any table. -/
theorem compare_decided (left : a.Classless) (right : b.Classless) : Decided (t.compare a b) :=
  compareWith_decided (fun _ _ impossible => impossible.elim) a b left right

theorem compare_self (left : a.Classless) : t.compare a a = .ok (.ok ()) :=
  (compareWith_of_beq (fun _ _ impossible => impossible.elim) (fun _ impossible => impossible.elim)
    a a left left (Ty.beq_refl a)).1

/-- Comparisons of types without class values are transitive where the table is. -/
theorem compare_chain (transitive : t.Transitive) (low : a.Classless) (middle : b.Classless)
    (high : c.Classless) (first : t.compare a b = .ok (.ok ()))
    (second : t.compare b c = .ok (.ok ())) : t.compare a c = .ok (.ok ()) := by
  have order : t.ClassOrder t.satisfies fun _ => False :=
    ⟨transitive, fun _ _ impossible => impossible.elim, fun _ _ _ impossible => impossible.elim⟩
  exact compareWith_trans order a b c low middle high first second

/-- Every structural type stands for itself, and two of them are compared to a yes or a no. If
fitting is transitive among the classes, standing for is among the structural types. -/
theorem compare_preorder (t : ClassTable) :
    (∀ a : Ty, a.structural = true → t.compare a a = .ok (.ok ())) ∧
    (∀ a b : Ty, a.structural = true → b.structural = true →
      t.compare a b = .ok (.ok ()) ∨ t.compare a b = .ok (.error .incompatible)) ∧
    (t.Transitive → ∀ a b c : Ty, a.structural = true → b.structural = true →
      c.structural = true → t.compare a b = .ok (.ok ()) → t.compare b c = .ok (.ok ()) →
      t.compare a c = .ok (.ok ())) := by
  refine ⟨fun a left => compare_self (a.classless left), fun a b left right => ?_, ?_⟩
  · exact compare_decided (a.classless left) (b.classless right)
  · intro transitive a b c low middle high
    exact compare_chain transitive (a.classless low) (b.classless middle) (c.classless high)

/-- Two classes fit the second, and neither of them the other. -/
def forked : ClassTable :=
  let empty : Ty := .instanceOf 0 "Empty"
  { classes := [
      ⟨"Empty", [], .empty⟩,
      ⟨"Point", [], .insert .empty "x" empty⟩,
      ⟨"Pair", [], .insert (.insert .empty "x" empty) "y" empty⟩,
      ⟨"Disk", [], .insert (.insert .empty "x" empty) "r" empty⟩] }

theorem compare_yes : (t.compare a b).toOption.any (·.isOk) = true ↔
    t.compare a b = .ok (.ok ()) := by
  cases t.compare a b with
  | error fault => simp [Except.toOption]
  | ok verdict => simp [Except.toOption, Verdict.isOk_iff]

theorem compare_preorder_forked : ∃ t, forked.registerAll [0, 1, 2, 3] = .ok t ∧ t.Transitive ∧
    ∃ a b c : Ty, a.structural = true ∧ b.structural = true ∧ c.structural = true ∧
      t.compare a b = .ok (.ok ()) ∧ t.compare b c = .ok (.ok ()) ∧
      t.compare a c = .ok (.ok ()) ∧ t.compare c a = .ok (.error .incompatible) := by
  let items : Ty := .array (.maybe (.instanceOf 1 "Point"))
  let function (param result : Ty) : Ty := .func [⟨[], [param, items], result⟩]
  let a := function (.instanceOf 0 "Empty") (.instanceOf 2 "Pair")
  let b := function (.instanceOf 1 "Point") (.instanceOf 1 "Point")
  let c := function (.instanceOf 3 "Disk") (.instanceOf 0 "Empty")
  obtain ⟨t, ran, computed⟩ : ∃ t, forked.registerAll [0, 1, 2, 3] = .ok t ∧
      (decide t.Transitive && (t.compare a b).toOption.any (·.isOk) &&
        (t.compare b c).toOption.any (·.isOk) &&
        !(t.compare c a).toOption.any (·.isOk)) = true := exists_ok_of_any (by decide +kernel)
  simp only [Bool.and_eq_true, Bool.not_eq_true', ← Bool.not_eq_true, compare_yes,
    decide_eq_true_eq] at computed
  obtain ⟨⟨⟨transitive, first⟩, second⟩, back⟩ := computed
  obtain ⟨_, decided, chain⟩ := compare_preorder t
  exact ⟨t, ran, transitive, a, b, c, rfl, rfl, rfl, first, second,
    chain transitive a b c rfl rfl rfl first second, (decided c a rfl rfl).resolve_left back⟩

/-! ## Joins -/

def Common (t : ClassTable) (x y id : ClassId) : Prop :=
  id ∈ t.registered ∧ t.isA x id = true ∧ t.isA y id = true

/-- A class that both fit and that fits all the classes both fit. -/
def Least (t : ClassTable) (x y id : ClassId) : Prop :=
  t.Common x y id ∧ ∀ other, t.Common x y other → t.isA id other = true

theorem Least.of_isA {x y : ClassId} (listed : y ∈ t.registered) (below : t.isA x y = true) :
    t.Least x y y :=
  ⟨⟨listed, below, isA_iff.mpr (.inl rfl)⟩, fun _ common => common.2.2⟩

theorem Least.symm {x y id : ClassId} (least : t.Least x y id) : t.Least y x id := by
  obtain ⟨⟨listed, left, right⟩, below⟩ := least
  exact ⟨⟨listed, right, left⟩, fun other common => below other ⟨common.1, common.2.2, common.2.1⟩⟩

theorem mem_common {x y id : ClassId} :
    id ∈ (t.supertypes x).filter (t.isA y) ↔ t.Common x y id := by
  rw [List.mem_filter, supertypes, List.mem_filter, and_assoc]
  exact Iff.rfl

/-- What the search for a common class finds is a least one. -/
theorem least_of_leastCommon? {x y id : ClassId} (found : t.leastCommon? x y = some id) :
    t.Least x y id := by
  unfold leastCommon? at found
  have all := List.find?_some found
  refine ⟨mem_common.mp (List.mem_of_find?_eq_some found), fun other common => ?_⟩
  exact List.all_eq_true.mp all other (mem_common.mpr common)

/-- The search finds nothing only where there is no least common class. -/
theorem leastCommon?_eq_none {x y : ClassId} :
    t.leastCommon? x y = none ↔ ¬ ∃ id, t.Least x y id := by
  constructor
  · rintro none ⟨id, common, below⟩
    refine List.find?_eq_none.mp none id (mem_common.mpr common) (List.all_eq_true.mpr ?_)
    exact fun other listed => below other (mem_common.mp listed)
  · intro missing
    cases found : t.leastCommon? x y with
    | none => rfl
    | some id => exact absurd ⟨id, least_of_leastCommon? found⟩ missing

/-- The least common class does not hang on the order. -/
theorem leastCommon?_comm (t : ClassTable) (x y : ClassId) :
    t.leastCommon? x y = t.leastCommon? y x := by
  have same : (t.supertypes x).filter (t.isA y) = (t.supertypes y).filter (t.isA x) := by
    rw [supertypes, supertypes, List.filter_filter, List.filter_filter]
    simp only [Bool.and_comm]
  rw [leastCommon?, leastCommon?, same]

/-- What covers two types of which neither stands for the other. -/
def cover (t : ClassTable) : Ty → Ty → Except Fault (Except Mismatch Ty)
  | .object m left _, .object n right _ => do
      let left ← resolvedClass m left
      let right ← resolvedClass n right
      match t.leastCommon? left right with
      | some id => return .ok (← t.objectOf id)
      | none => return .error .incompatible
  | _, _ => return .error .incompatible

theorem join_right (fits : t.compare a b = .ok (.ok ())) : t.join a b = .ok (.ok b) := by
  unfold join
  rw [fits]
  rfl

theorem join_left (unlike : t.compare a b = .ok (.error .incompatible))
    (fits : t.compare b a = .ok (.ok ())) : t.join a b = .ok (.ok a) := by
  unfold join
  rw [unlike, fits]
  rfl

/-- Types of which neither fits the other are joined by what covers both. -/
theorem join_apart (unlike : t.compare a b = .ok (.error .incompatible))
    (unlike' : t.compare b a = .ok (.error .incompatible)) : t.join a b = t.cover a b := by
  unfold join
  rw [unlike, unlike']
  rfl

section

variable {m n : String} {x y : ClassId} {gs hs : List Ty}

theorem cover_some {id : ClassId} (found : t.leastCommon? x y = some id) :
    t.cover (.object m (some x) gs) (.object n (some y) hs) = (t.objectOf id).map .ok := by
  simp only [cover, resolvedClass, ok_bind, found]
  rfl

theorem cover_none (missing : t.leastCommon? x y = none) :
    t.cover (.object m (some x) gs) (.object n (some y) hs) = .ok (.error .incompatible) := by
  simp only [cover, resolvedClass, ok_bind, missing]
  rfl

end

/-- Types that are not both instances have no cover. -/
theorem cover_mixed (mixed : ∀ m x gs n y hs, a = .object m x gs → b ≠ .object n y hs) :
    t.cover a b = .ok (.error .incompatible) := by
  unfold cover
  split
  · exact absurd rfl (mixed _ _ _ _ _ _ rfl)
  · rfl

theorem instances_or_mixed (left : a.Classless) (right : b.Classless) :
    (∃ m x gs n y hs, a = .object m (some x) gs ∧ b = .object n (some y) hs) ∨
      ∀ m x gs n y hs, a = .object m x gs → b ≠ .object n y hs := by
  by_cases instances : (∃ m x gs, a = .object m x gs) ∧ ∃ n y hs, b = .object n y hs
  · obtain ⟨⟨m, _, gs, rfl⟩, n, _, hs, rfl⟩ := instances
    obtain ⟨x, rfl⟩ := left.object
    obtain ⟨y, rfl⟩ := right.object
    exact .inl ⟨m, x, gs, n, y, hs, rfl, rfl⟩
  · right
    rintro m x gs n y hs rfl rfl
    exact instances ⟨⟨m, x, gs, rfl⟩, n, y, hs, rfl⟩

theorem cover_comm (left : a.Classless) (right : b.Classless) : t.cover a b = t.cover b a := by
  rcases instances_or_mixed left right with ⟨m, x, gs, n, y, hs, rfl, rfl⟩ | mixed
  · have swapped := t.leastCommon?_comm y x
    cases found : t.leastCommon? x y with
    | none => rw [cover_none found, cover_none (swapped.trans found)]
    | some id => rw [cover_some found, cover_some (swapped.trans found)]
  · rw [cover_mixed mixed, cover_mixed]
    exact fun n y hs m x gs there here => mixed m x gs n y hs here there

/-- The join is above both types. -/
theorem join_above (left : a.Classless) (right : b.Classless) (joined : t.join a b = .ok (.ok c)) :
    t.compare a c = .ok (.ok ()) ∧ t.compare b c = .ok (.ok ()) := by
  obtain ⟨here, there⟩ := (join_outcome joined).above
  constructor
  · exact here.elim (fun same => same ▸ compare_self left) id
  · exact there.elim (fun same => same ▸ compare_self right) id

/-- The join of two instances is one of the least class above both. -/
theorem join_least {m n : String} {x y : ClassId} {gs hs : List Ty} (first : x ∈ t.registered)
    (second : y ∈ t.registered)
    (joined : t.join (.object m (some x) gs) (.object n (some y) hs) = .ok (.ok c)) :
    ∃ name id generics, c = .object name (some id) generics ∧ t.Least x y id := by
  have related {m n : String} {x y : ClassId} {gs hs : List Ty}
      (fits : t.compare (.object m (some x) gs) (.object n (some y) hs) = .ok (.ok ())) :
      t.isA x y = true := by
    cases compareWith_yes.mp fits with
    | object related => exact related
  cases join_outcome joined with
  | right fits => exact ⟨n, y, hs, rfl, .of_isA second (related fits)⟩
  | left fits => exact ⟨m, x, gs, rfl, (Least.of_isA first (related fits)).symm⟩
  | common actual other least =>
    cases actual
    cases other
    exact ⟨_, _, [], rfl, least_of_leastCommon? least⟩

/-- The join of two instances fails if there is no least class above both, and only then. -/
theorem join_fails {m n : String} {x y : ClassId} {gs hs : List Ty} (first : x ∈ t.registered)
    (second : y ∈ t.registered) :
    (∃ reason, t.join (.object m (some x) gs) (.object n (some y) hs) = .ok (.error reason)) ↔
      ¬ ∃ id, t.Least x y id := by
  have forth : t.compare (.object m (some x) gs) (.object n (some y) hs) =
    .ok (if t.isA x y then .ok () else .error .incompatible) := compareWith_object
  have back : t.compare (.object n (some y) hs) (.object m (some x) gs) =
    .ok (if t.isA y x then .ok () else .error .incompatible) := compareWith_object
  have succeeds {c : Ty} {id : ClassId} (least : t.Least x y id)
      (joined : t.join (.object m (some x) gs) (.object n (some y) hs) = .ok (.ok c)) :
      (∃ reason, t.join (.object m (some x) gs) (.object n (some y) hs) = .ok (.error reason)) ↔
        ¬ ∃ id, t.Least x y id := by
    rw [joined]
    exact ⟨by simp, fun missing => absurd ⟨id, least⟩ missing⟩
  by_cases up : t.isA x y = true
  · rw [if_pos up] at forth
    exact succeeds (.of_isA second up) (join_right forth)
  by_cases down : t.isA y x = true
  · rw [if_neg up] at forth
    rw [if_pos down] at back
    exact succeeds (Least.of_isA first down).symm (join_left forth back)
  · rw [if_neg up] at forth
    rw [if_neg down] at back
    rw [join_apart forth back, ← leastCommon?_eq_none]
    cases found : t.leastCommon? x y with
    | none => simp [cover_none found]
    | some id =>
      rw [cover_some found]
      cases t.objectOf id <;> simp [Except.map]

/-- Joined in the other order, two types have the same join or joins that stand for each
other. -/
theorem join_swap (left : a.Classless) (right : b.Classless) :
    t.join a b = t.join b a ∨
      (t.join a b = .ok (.ok b) ∧ t.join b a = .ok (.ok a) ∧
        t.compare a b = .ok (.ok ()) ∧ t.compare b a = .ok (.ok ())) := by
  rcases compare_decided (t := t) left right with up | unlike
  · rcases compare_decided (t := t) right left with down | unlike'
    · exact .inr ⟨join_right up, join_right down, up, down⟩
    · exact .inl ((join_right up).trans (join_left unlike' up).symm)
  · rcases compare_decided (t := t) right left with down | unlike'
    · exact .inl ((join_left unlike down).trans (join_right down).symm)
    · left
      rw [join_apart unlike unlike', join_apart unlike' unlike, cover_comm left right]

theorem join_classless (left : a.Classless) (right : b.Classless)
    (joined : t.join a b = .ok (.ok c)) : c.Classless := by
  cases join_outcome joined with
  | right => exact right
  | left => exact left
  | common => exact ⟨rfl, Ty.over_instanceOf.mpr trivial⟩

theorem join_total (known : ∀ id ∈ t.registered, id < t.classes.length) (left : a.Classless)
    (right : b.Classless) : ∃ result, t.join a b = .ok result := by
  rcases compare_decided (t := t) left right with up | unlike
  · exact ⟨_, join_right up⟩
  rcases compare_decided (t := t) right left with down | unlike'
  · exact ⟨_, join_left unlike down⟩
  rw [join_apart unlike unlike']
  rcases instances_or_mixed left right with ⟨m, x, gs, n, y, hs, rfl, rfl⟩ | mixed
  · cases found : t.leastCommon? x y with
    | none => exact ⟨_, cover_none found⟩
    | some id =>
      have below := known id (least_of_leastCommon? found).1.1
      have got : t.get id = .ok t.classes[id] := get_eq_ok.mpr (List.getElem?_eq_getElem below)
      refine ⟨.ok (.instanceOf id t.classes[id].name), ?_⟩
      rw [cover_some found, objectOf, got]
      rfl
  · exact ⟨_, cover_mixed mixed⟩

/-- The join of two structural types is above both. If they are instances of registered
classes, it is an instance of the least of the registered classes that both fit, and it fails
only if there is none. In the other order the types have a join as well, and the two joins
stand for each other. It comes to an end in any table whose registered classes are there. -/
theorem join_least_upper_bound (t : ClassTable) {a b : Ty} (left : a.structural = true)
    (right : b.structural = true) :
    (∀ c, t.join a b = .ok (.ok c) →
      t.compare a c = .ok (.ok ()) ∧ t.compare b c = .ok (.ok ())) ∧
    (∀ m x gs n y hs, a = .object m (some x) gs → b = .object n (some y) hs →
      x ∈ t.registered → y ∈ t.registered →
      (∀ c, t.join a b = .ok (.ok c) →
        ∃ name id generics, c = .object name (some id) generics ∧ t.Least x y id) ∧
      ((∃ reason, t.join a b = .ok (.error reason)) ↔ ¬ ∃ id, t.Least x y id)) ∧
    ((∃ c, t.join a b = .ok (.ok c)) ↔ ∃ c, t.join b a = .ok (.ok c)) ∧
    (∀ c d, t.join a b = .ok (.ok c) → t.join b a = .ok (.ok d) →
      t.compare c d = .ok (.ok ()) ∧ t.compare d c = .ok (.ok ())) ∧
    ((∀ id ∈ t.registered, id < t.classes.length) → ∃ result, t.join a b = .ok result) := by
  have low := a.classless left
  have high := b.classless right
  have swap := join_swap (t := t) low high
  refine ⟨fun c => join_above low high, ?_, ?_, fun c d joined joined' => ?_, fun known => ?_⟩
  · rintro m x gs n y hs rfl rfl first second
    exact ⟨fun c => join_least first second, join_fails first second⟩
  · rcases swap with same | ⟨forth, back, _, _⟩
    · rw [same]
    · exact ⟨fun _ => ⟨a, back⟩, fun _ => ⟨b, forth⟩⟩
  · rcases swap with same | ⟨forth, back, up, down⟩
    · cases joined.symm.trans (same.trans joined')
      have self := compare_self (t := t) (join_classless low high joined)
      exact ⟨self, self⟩
    · cases joined.symm.trans forth
      cases joined'.symm.trans back
      exact ⟨down, up⟩
  · exact join_total known low high

/-- Both fit the first class too, which was registered before the one that covers them. -/
theorem join_least_upper_bound_forked : ∃ t, forked.registerAll [0, 1, 2, 3] = .ok t ∧
    ∃ c, t.join (.instanceOf 2 "Pair") (.instanceOf 3 "Disk") = .ok (.ok c) ∧
      t.compare (.instanceOf 2 "Pair") c = .ok (.ok ()) ∧
      t.compare (.instanceOf 3 "Disk") c = .ok (.ok ()) ∧
      c.objectClass? = some 1 ∧ t.Least 2 3 1 ∧ t.Common 2 3 0 ∧ t.isA 0 1 = false := by
  obtain ⟨t, ran, computed⟩ : ∃ t, forked.registerAll [0, 1, 2, 3] = .ok t ∧
      ((t.join (.instanceOf 2 "Pair") (.instanceOf 3 "Disk")).toOption.any
          (·.toOption.any (·.objectClass? == some 1)) &&
        decide (t.registered = [0, 1, 2, 3]) &&
        (t.isA 2 0 && t.isA 3 0 && !t.isA 0 1)) = true := exists_ok_of_any (by decide +kernel)
  simp only [Bool.and_eq_true, decide_eq_true_eq, Bool.not_eq_true'] at computed
  obtain ⟨⟨found, registered⟩, ⟨⟨low, high⟩, apart⟩⟩ := computed
  have listed (id : ClassId) (small : id ∈ [0, 1, 2, 3]) : id ∈ t.registered := registered ▸ small
  obtain ⟨_, joined, found⟩ := exists_ok_of_any found
  obtain ⟨c, rfl, class_⟩ := exists_ok_of_any found
  obtain ⟨above, least, _⟩ := join_least_upper_bound t (a := .instanceOf 2 "Pair")
    (b := .instanceOf 3 "Disk") rfl rfl
  obtain ⟨name, id, generics, rfl, lowest⟩ := (least _ _ _ _ _ _ rfl rfl
    (listed 2 (by simp)) (listed 3 (by simp))).1 c joined
  obtain rfl : id = 1 := by simpa [Ty.objectClass?] using class_
  obtain ⟨first, second⟩ := above _ joined
  exact ⟨t, ran, _, joined, first, second, rfl, lowest, ⟨listed 0 (by simp), low, high⟩, apart⟩

end ClassTable

end ShapeLang
