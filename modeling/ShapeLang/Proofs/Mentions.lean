import ShapeLang.Proofs.Counting
import ShapeLang.Ty.Resolve
import ShapeLang.TypeTerm

/-!
# The classes that a type mentions

A type mentions classes as the classes of its instances and as values. What a
comparison does depends on the classes mentioned and on nothing else, so that a
type is fit for use once all of them are known.
-/

namespace ShapeLang

namespace Runs

variable {α : Type} {P : α → Prop} {r s : Runs α}

def Forall (P : α → Prop) (r : Runs α) : Prop := ∀ run ∈ r.toPairs, P run.1

@[simp] theorem forall_nil : (nil : Runs α).Forall P := by simp [Forall, toPairs]

@[simp] theorem forall_cons {a : α} {n : Nat} : (cons a n r).Forall P ↔ P a ∧ r.Forall P := by
  simp [Forall, toPairs]

theorem Forall.toList (holds : r.Forall P) : ∀ a ∈ r.toList, P a := by
  induction r with
  | nil => simp [Runs.toList]
  | cons a n r ih =>
    obtain ⟨first, rest⟩ := forall_cons.mp holds
    intro b member
    rcases List.mem_append.mp member with member | member
    · exact List.eq_of_mem_replicate member ▸ first
    · exact ih rest b member

variable [BEq α]

theorem Forall.pushRun {a : α} (value : P a) (n : Nat) (holds : r.Forall P) :
    (r.pushRun a n).Forall P := by
  fun_induction Runs.pushRun a n r with
  | case1 => simp
  | case2 => simpa using value
  | case3 => exact holds
  | case4 b m _ _ => simpa using holds
  | case5 b m _ _ => exact forall_cons.mpr ⟨(forall_cons.mp holds).1, by simpa using value⟩
  | case6 b m r _ ih =>
    obtain ⟨first, rest⟩ := forall_cons.mp holds
    exact forall_cons.mpr ⟨first, ih rest⟩

theorem Forall.append (left : r.Forall P) (right : s.Forall P) : (r.append s).Forall P := by
  induction s generalizing r with
  | nil => exact left
  | cons a n s ih =>
    obtain ⟨first, rest⟩ := forall_cons.mp right
    exact ih (left.pushRun first n) rest

theorem forall_ofList {as : List α} (holds : ∀ a ∈ as, P a) : (ofList as).Forall P := by
  have pushed (r : Runs α) (start : r.Forall P) :
      (as.foldl (fun r a => r.push a) r).Forall P := by
    induction as generalizing r with
    | nil => exact start
    | cons a as ih =>
      obtain ⟨first, rest⟩ := List.forall_mem_cons.mp holds
      exact ih rest _ (start.pushRun first 1)
  exact pushed nil forall_nil

end Runs

/-- What holds of all that the types bring with them holds of the elements of the tuple. -/
theorem Ty.forall_gathered {P : Ty → Prop} {types : List Ty}
    (each : ∀ type ∈ types, type.elements.Forall P) {r : Runs Ty} (start : r.Forall P) :
    (gathered r types).Forall P := by
  induction types generalizing r with
  | nil => exact start
  | cons type types ih =>
    obtain ⟨first, others⟩ := List.forall_mem_cons.mp each
    exact ih others (start.append first)

/-- A class as a type mentions it: as that of an instance, if the name has been resolved,
or as a value. -/
inductive Mention where
  | object (id : Option ClassId)
  | value (id : ClassId)
deriving DecidableEq, Repr

mutual

def Ty.mentions : Ty → List Mention
  | .classValue id _ => [.value id]
  | .object _ id generics => .object id :: Ty.listMentions generics
  | .func overloads => Ty.overloadMentions overloads
  | .array item => item.mentions
  | .tuple items => Ty.runMentions items
  | .spread items => Ty.runMentions items
  | .maybe item => item.mentions
  | .noneType => []

def Ty.listMentions : List Ty → List Mention
  | [] => []
  | a :: as => a.mentions ++ Ty.listMentions as

def Ty.runMentions : Runs Ty → List Mention
  | .nil => []
  | .cons a _ r => a.mentions ++ Ty.runMentions r

def Ty.overloadMentions : List Overload → List Mention
  | [] => []
  | o :: os => o.mentions ++ Ty.overloadMentions os

def Overload.mentions : Overload → List Mention
  | ⟨_, params, result⟩ => Ty.listMentions params ++ result.mentions

end

/-- The class is known and allowed: as the class of an instance by `objects`, as a value
by `values`. -/
inductive Mention.Over (objects values : ClassId → Prop) : Mention → Prop where
  | object {id : ClassId} (allowed : objects id) : Over objects values (.object (some id))
  | value {id : ClassId} (allowed : values id) : Over objects values (.value id)

/-- Every class that the type mentions is known and allowed. -/
def Ty.Over (objects values : ClassId → Prop) (type : Ty) : Prop :=
  ∀ m ∈ type.mentions, m.Over objects values

def Overload.Over (objects values : ClassId → Prop) (o : Overload) : Prop :=
  (∀ p ∈ o.params, p.Over objects values) ∧ o.result.Over objects values

section

variable {objects values : ClassId → Prop}

theorem Ty.listMentions_over {types : List Ty} :
    (∀ m ∈ Ty.listMentions types, m.Over objects values) ↔
      ∀ type ∈ types, type.Over objects values := by
  induction types with
  | nil => simp [Ty.listMentions]
  | cons type types ih => simp [Ty.listMentions, or_imp, forall_and, ih, Ty.Over]

theorem Overload.mentions_over {o : Overload} :
    (∀ m ∈ o.mentions, m.Over objects values) ↔ o.Over objects values := by
  obtain ⟨generics, params, result⟩ := o
  simp [Overload.mentions, Overload.Over, or_imp, forall_and, Ty.listMentions_over, Ty.Over]

theorem Ty.overloadMentions_over {os : List Overload} :
    (∀ m ∈ Ty.overloadMentions os, m.Over objects values) ↔
      ∀ o ∈ os, o.Over objects values := by
  induction os with
  | nil => simp [Ty.overloadMentions]
  | cons o os ih =>
    simp [Ty.overloadMentions, or_imp, forall_and, ih, Overload.mentions_over]

theorem Ty.runMentions_over {r : Runs Ty} :
    (∀ m ∈ Ty.runMentions r, m.Over objects values) ↔ r.Forall (Ty.Over objects values) := by
  induction r with
  | nil => simp [Ty.runMentions]
  | cons type n r ih => simp [Ty.runMentions, or_imp, forall_and, ih, Ty.Over]

namespace Ty

@[simp] theorem over_classValue {id : ClassId} {name : String} :
    (classValue id name).Over objects values ↔ values id := by
  simp only [Over, mentions, List.forall_mem_singleton]
  exact ⟨fun | .value allowed => allowed, .value⟩

@[simp] theorem over_object {name : String} {id : Option ClassId} {generics : List Ty} :
    (object name id generics).Over objects values ↔
      (∃ known, id = some known ∧ objects known) ∧ ∀ g ∈ generics, g.Over objects values := by
  simp only [Over, mentions, List.forall_mem_cons]
  refine and_congr ?_ listMentions_over
  constructor
  · rintro (⟨allowed⟩ | _)
    exact ⟨_, rfl, allowed⟩
  · rintro ⟨known, rfl, allowed⟩
    exact .object allowed

@[simp] theorem over_func {os : List Overload} :
    (func os).Over objects values ↔ ∀ o ∈ os, o.Over objects values := overloadMentions_over

@[simp] theorem over_array {item : Ty} :
    (array item).Over objects values ↔ item.Over objects values := .rfl

@[simp] theorem over_maybe {item : Ty} :
    (maybe item).Over objects values ↔ item.Over objects values := .rfl

@[simp] theorem over_tuple {r : Runs Ty} :
    (tuple r).Over objects values ↔ r.Forall (Over objects values) := runMentions_over

@[simp] theorem over_spread {r : Runs Ty} :
    (spread r).Over objects values ↔ r.Forall (Over objects values) := runMentions_over

@[simp] theorem over_noneType : noneType.Over objects values := by simp [Over, mentions]

@[simp] theorem over_instanceOf {id : ClassId} {name : String} :
    (instanceOf id name).Over objects values ↔ objects id := by simp [instanceOf]

theorem Over.mono {objects' values' : ClassId → Prop} {type : Ty}
    (limited : type.Over objects values) (moreObjects : ∀ id, objects id → objects' id)
    (moreValues : ∀ id, values id → values' id) : type.Over objects' values' := by
  intro m mentioned
  cases limited m mentioned with
  | object allowed => exact .object (moreObjects _ allowed)
  | value allowed => exact .value (moreValues _ allowed)

theorem Over.instanceOf_objectClass? {type : Ty} {id : ClassId} (limited : type.Over objects values)
    (instance_ : type.objectClass? = some id) : objects id := by
  cases type with
  | object name known generics =>
    obtain ⟨⟨_, rfl, allowed⟩, _⟩ := over_object.mp limited
    cases instance_
    exact allowed
  | _ => cases instance_

theorem Over.toSpread? {type spread : Ty} (limited : type.Over objects values)
    (taken : type.toSpread? = some spread) : spread.Over objects values := by
  cases type with
  | tuple r => cases taken; exact limited
  | spread r => cases taken; exact limited
  | _ => cases taken

theorem over_expand {types : List Ty} (limited : ∀ type ∈ types, type.Over objects values) :
    ∀ type ∈ expand types, type.Over objects values := by
  fun_induction expand types with
  | case1 => simp
  | case2 r rest ih =>
    obtain ⟨first, others⟩ := List.forall_mem_cons.mp limited
    exact List.forall_mem_append.mpr ⟨(over_spread.mp first).toList, ih others⟩
  | case3 other rest _ ih =>
    obtain ⟨first, others⟩ := List.forall_mem_cons.mp limited
    exact List.forall_mem_cons.mpr ⟨first, ih others⟩

theorem over_elements {type : Ty} (limited : type.Over objects values) :
    type.elements.Forall (Over objects values) := by
  cases type with
  | spread inner => exact over_spread.mp limited
  | _ => exact Runs.forall_cons.mpr ⟨limited, Runs.forall_nil⟩

theorem over_gathered {types : List Ty} (limited : ∀ type ∈ types, type.Over objects values) :
    (gathered .nil types).Forall (Over objects values) :=
  forall_gathered (fun type listed => over_elements (limited type listed)) Runs.forall_nil

end Ty

end

/-! ## Annotations

What an annotation denotes holds instances only, and they have been resolved. -/

section

variable {ids : NameMap ClassId} {objects : ClassId → Prop}

/-- If all names are found, the classes found are those that the type then mentions. -/
def Ty.Resolves (ids : NameMap ClassId) (objects : ClassId → Prop) (type : Ty) : Prop :=
  (type.resolve ids).2 = none → (type.resolve ids).1.Over objects fun _ => False

def Overload.Resolves (ids : NameMap ClassId) (objects : ClassId → Prop) (o : Overload) : Prop :=
  (o.resolve ids).2 = none → (o.resolve ids).1.Over objects fun _ => False

/-- Resolved types mention the classes their names lead to, and no class values. -/
theorem Ty.over_resolveList {types : List Ty} (each : ∀ type ∈ types, type.Resolves ids objects)
    (complete : (Ty.resolveList ids types).2 = none) :
    ∀ type ∈ (Ty.resolveList ids types).1, type.Over objects fun _ => False := by
  induction types with
  | nil => simp [Ty.resolveList]
  | cons type types ih =>
    obtain ⟨first, others⟩ := List.forall_mem_cons.mp each
    unfold Ty.Resolves at first
    rw [Ty.resolveList] at complete ⊢
    split at complete
    · cases complete
    · rename_i resolved found
      rw [found] at first
      simp only [List.forall_mem_cons]
      exact ⟨first rfl, ih others complete⟩

theorem Ty.over_resolveRuns {r : Runs Ty} (each : r.Forall (Ty.Resolves ids objects))
    (complete : (Ty.resolveRuns ids r).2 = none) :
    (Ty.resolveRuns ids r).1.Forall (Ty.Over objects fun _ => False) := by
  induction r with
  | nil => simp [Ty.resolveRuns]
  | cons type n r ih =>
    obtain ⟨first, others⟩ := Runs.forall_cons.mp each
    unfold Ty.Resolves at first
    rw [Ty.resolveRuns] at complete ⊢
    split at complete
    · cases complete
    · rename_i resolved found
      rw [found] at first
      simp only [Runs.forall_cons]
      exact ⟨first rfl, ih others complete⟩

theorem Ty.over_resolveOverloads {os : List Overload}
    (each : ∀ o ∈ os, o.Resolves ids objects)
    (complete : (Ty.resolveOverloads ids os).2 = none) :
    ∀ o ∈ (Ty.resolveOverloads ids os).1, o.Over objects fun _ => False := by
  induction os with
  | nil => simp [Ty.resolveOverloads]
  | cons o os ih =>
    obtain ⟨first, others⟩ := List.forall_mem_cons.mp each
    unfold Overload.Resolves at first
    rw [Ty.resolveOverloads] at complete ⊢
    split at complete
    · cases complete
    · rename_i resolved found
      rw [found] at first
      simp only [List.forall_mem_cons]
      exact ⟨first rfl, ih others complete⟩

theorem Overload.resolves {generics : List String} {params : List Ty} {result : Ty}
    (eachParam : ∀ p ∈ params, p.Resolves ids objects) (last : result.Resolves ids objects) :
    (Overload.mk generics params result).Resolves ids objects := by
  intro complete
  cases generics with
  | cons g gs => cases complete
  | nil =>
    have accepted := Ty.over_resolveList eachParam
    unfold Ty.Resolves at last
    rw [Overload.resolve] at complete ⊢
    split at complete
    · cases complete
    · rename_i resolved found
      rw [found] at accepted
      exact ⟨accepted rfl, last complete⟩

mutual

/-- By structural induction: an annotation that can be resolved mentions only classes that names
lead to. -/
theorem TypeTerm.lower_resolves
    (known : ∀ name id, ids.find? name = some id → objects id) :
    (term : TypeTerm) → term.lower.Resolves ids objects
  | .named name generics _ => by
      rw [TypeTerm.lower]
      unfold Ty.Resolves
      cases TypeTerm.lowerList generics with
      | cons g gs =>
        intro complete
        cases complete
      | nil =>
        rw [Ty.resolve]
        cases found : ids.find? name with
        | none =>
          intro complete
          cases complete
        | some id =>
          intro complete
          simpa using known name id found
  | .noneType _ => fun _ => by simp [TypeTerm.lower, Ty.resolve]
  | .tuple items _ => fun complete =>
      Ty.over_tuple.mpr (Ty.over_resolveRuns
        (Runs.forall_ofList (lowerList_resolves known items)) complete)
  | .function signature => fun complete =>
      Ty.over_func.mpr (Ty.over_resolveOverloads
        (List.forall_mem_singleton.mpr (signature_resolves known signature)) complete)
  | .overloads members _ => fun complete =>
      Ty.over_func.mpr (Ty.over_resolveOverloads (lowerSignatures_resolves known members) complete)
  | .array item _ => lower_resolves known item
  | .maybe item _ => lower_resolves known item

theorem TypeTerm.lowerList_resolves
    (known : ∀ name id, ids.find? name = some id → objects id) : (terms : List TypeTerm) →
    ∀ type ∈ TypeTerm.lowerList terms, type.Resolves ids objects
  | [] => by simp [TypeTerm.lowerList]
  | term :: terms => by
      rw [TypeTerm.lowerList]
      exact List.forall_mem_cons.mpr ⟨lower_resolves known term, lowerList_resolves known terms⟩

theorem TypeTerm.lowerSignatures_resolves
    (known : ∀ name id, ids.find? name = some id → objects id) : (signatures : List Signature) →
    ∀ o ∈ TypeTerm.lowerSignatures signatures, o.Resolves ids objects
  | [] => by simp [TypeTerm.lowerSignatures]
  | signature :: signatures => by
      rw [TypeTerm.lowerSignatures]
      exact List.forall_mem_cons.mpr
        ⟨signature_resolves known signature, lowerSignatures_resolves known signatures⟩

theorem TypeTerm.signature_resolves
    (known : ∀ name id, ids.find? name = some id → objects id) : (signature : Signature) →
    signature.lower.Resolves ids objects
  | ⟨params, result, _⟩ => by
      rw [Signature.lower]
      exact Overload.resolves (lowerList_resolves known params) (lower_resolves known result)

end

end

end ShapeLang
