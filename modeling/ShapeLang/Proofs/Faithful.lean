import ShapeLang.Proofs.Breadth
import ShapeLang.Proofs.Canonical
import ShapeLang.Proofs.ClassNames
import ShapeLang.Proofs.Selection

/-!
# Annotations are resolved faithfully

To resolve an annotation is to fill in the classes of its instances and to change nothing else:
once the classes are forgotten, the type is back that the annotation denoted before. So it is
shown in the same way, and types that differ go on to differ. In particular the runs of a tuple
need not be merged again when their values have been resolved.
-/

namespace ShapeLang

/-! ## Forgetting classes -/

mutual

/-- The type with the classes of its instances forgotten. -/
def Ty.forget : Ty → Ty
  | .classValue id name => .classValue id name
  | .object name _ generics => .object name none (Ty.forgetList generics)
  | .func overloads => .func (Ty.forgetOverloads overloads)
  | .array item => .array item.forget
  | .tuple items => .tuple (Ty.forgetRuns items)
  | .spread items => .spread (Ty.forgetRuns items)
  | .maybe item => .maybe item.forget
  | .noneType => .noneType

def Ty.forgetList : List Ty → List Ty
  | [] => []
  | a :: as => a.forget :: Ty.forgetList as

def Ty.forgetRuns : Runs Ty → Runs Ty
  | .nil => .nil
  | .cons a n r => .cons a.forget n (Ty.forgetRuns r)

def Ty.forgetOverloads : List Overload → List Overload
  | [] => []
  | o :: os => o.forget :: Ty.forgetOverloads os

def Overload.forget : Overload → Overload
  | ⟨generics, params, result⟩ => ⟨generics, Ty.forgetList params, result.forget⟩

end

theorem Ty.length_forgetRuns (r : Runs Ty) : (Ty.forgetRuns r).length = r.length := by
  induction r with
  | nil => rfl
  | cons a n r ih => rw [Ty.forgetRuns, Runs.length, ih, Runs.length]

mutual

/-- The classes of instances are not shown. -/
theorem Ty.text_forget : (type : Ty) → type.forget.text = type.text
  | .classValue .. => rfl
  | .object name _ [] => rfl
  | .object name _ (g :: gs) => by
      rw [Ty.forget, Ty.forgetList, Ty.text, Ty.text_forget g, Ty.listTexts_forget gs, Ty.text]
  | .func os => by rw [Ty.forget, Ty.text, Ty.overloadTexts_forget os, Ty.text]
  | .array item => by rw [Ty.forget, Ty.text, Ty.text_forget item, Ty.text]
  | .tuple r => by
      rw [Ty.forget, Ty.text, Ty.runTexts_forget r, Ty.length_forgetRuns, Ty.text]
  | .spread r => by rw [Ty.forget, Ty.text, Ty.runTexts_forget r, Ty.text]
  | .maybe item => by rw [Ty.forget, Ty.text, Ty.text_forget item, Ty.text]
  | .noneType => rfl
termination_by structural type => type

theorem Ty.listTexts_forget : (types : List Ty) →
    Ty.listTexts (Ty.forgetList types) = Ty.listTexts types
  | [] => rfl
  | type :: types => by
      rw [Ty.forgetList, Ty.listTexts, Ty.text_forget type, Ty.listTexts_forget types, Ty.listTexts]
termination_by structural types => types

theorem Ty.runTexts_forget : (r : Runs Ty) → Ty.runTexts (Ty.forgetRuns r) = Ty.runTexts r
  | .nil => rfl
  | .cons type n r => by
      rw [Ty.forgetRuns, Ty.runTexts, Ty.text_forget type, Ty.runTexts_forget r, Ty.runTexts]
termination_by structural r => r

theorem Ty.overloadTexts_forget : (os : List Overload) →
    Ty.overloadTexts (Ty.forgetOverloads os) = Ty.overloadTexts os
  | [] => rfl
  | o :: os => by
      rw [Ty.forgetOverloads, Ty.overloadTexts, Overload.text_forget o, Ty.overloadTexts_forget os,
        Ty.overloadTexts]
termination_by structural os => os

theorem Overload.text_forget : (o : Overload) → o.forget.text = o.text
  | ⟨generics, params, result⟩ => by
      rw [Overload.forget, Overload.text, Ty.listTexts_forget params, Ty.text_forget result,
        Overload.text]
termination_by structural o => o

end

mutual

/-- Forgetting the classes changes the types within a type one by one. -/
theorem Ty.inside_forget : (type : Ty) → type.forget.inside = type.inside.map Ty.forget
  | .classValue .. => rfl
  | .object _ _ generics => congrArg (_ :: ·) (Ty.insideList_forget generics)
  | .func os => congrArg (_ :: ·) (Ty.insideOverloads_forget os)
  | .array item => congrArg (_ :: ·) (Ty.inside_forget item)
  | .tuple r => congrArg (_ :: ·) (Ty.insideRuns_forget r)
  | .spread r => congrArg (_ :: ·) (Ty.insideRuns_forget r)
  | .maybe item => congrArg (_ :: ·) (Ty.inside_forget item)
  | .noneType => rfl
termination_by structural type => type

theorem Ty.insideList_forget : (types : List Ty) →
    Ty.insideList (Ty.forgetList types) = (Ty.insideList types).map Ty.forget
  | [] => rfl
  | type :: types => by
      rw [Ty.forgetList, Ty.insideList, Ty.inside_forget type, Ty.insideList_forget types,
        Ty.insideList, List.map_append]
termination_by structural types => types

theorem Ty.insideRuns_forget : (r : Runs Ty) →
    Ty.insideRuns (Ty.forgetRuns r) = (Ty.insideRuns r).map Ty.forget
  | .nil => rfl
  | .cons type n r => by
      rw [Ty.forgetRuns, Ty.insideRuns, Ty.inside_forget type, Ty.insideRuns_forget r,
        Ty.insideRuns, List.map_append]
termination_by structural r => r

theorem Ty.insideOverloads_forget : (os : List Overload) →
    Ty.insideOverloads (Ty.forgetOverloads os) = (Ty.insideOverloads os).map Ty.forget
  | [] => rfl
  | o :: os => by
      rw [Ty.forgetOverloads, Ty.insideOverloads, Overload.inside_forget o,
        Ty.insideOverloads_forget os, Ty.insideOverloads, List.map_append]
termination_by structural os => os

theorem Overload.inside_forget : (o : Overload) → o.forget.inside = o.inside.map Ty.forget
  | ⟨generics, params, result⟩ => by
      rw [Overload.forget, Overload.inside, Ty.insideList_forget params, Ty.inside_forget result,
        Overload.inside, List.map_append]
termination_by structural o => o

end

section

variable {ids : NameMap ClassId}

mutual

/-- Resolving fills in classes, as far as it gets, and does nothing else. -/
theorem Ty.forget_resolve : (type : Ty) → (type.resolve ids).1.forget = type.forget
  | .object name id [] => by
      rw [Ty.resolve]
      cases ids.find? name <;> rfl
  | .object _ _ (_ :: _) => rfl
  | .func os => congrArg Ty.func (Ty.forget_resolveOverloads os)
  | .array item => congrArg Ty.array (Ty.forget_resolve item)
  | .maybe item => congrArg Ty.maybe (Ty.forget_resolve item)
  | .tuple r => congrArg Ty.tuple (Ty.forget_resolveRuns r)
  | .spread r => congrArg Ty.spread (Ty.forget_resolveRuns r)
  | .classValue .. => rfl
  | .noneType => rfl
termination_by structural type => type

theorem Ty.forget_resolveList : (types : List Ty) →
    Ty.forgetList (Ty.resolveList ids types).1 = Ty.forgetList types
  | [] => rfl
  | type :: types => by
      have here := Ty.forget_resolve type
      rw [Ty.resolveList]
      split
      · rename_i resolved stop found
        rw [found] at here
        rw [Ty.forgetList, here, Ty.forgetList]
      · rename_i resolved found
        rw [found] at here
        rw [Ty.forgetList, here, Ty.forget_resolveList types, Ty.forgetList]
termination_by structural types => types

theorem Ty.forget_resolveRuns : (r : Runs Ty) →
    Ty.forgetRuns (Ty.resolveRuns ids r).1 = Ty.forgetRuns r
  | .nil => rfl
  | .cons type n r => by
      have here := Ty.forget_resolve type
      rw [Ty.resolveRuns]
      split
      · rename_i resolved stop found
        rw [found] at here
        rw [Ty.forgetRuns, here, Ty.forgetRuns]
      · rename_i resolved found
        rw [found] at here
        rw [Ty.forgetRuns, here, Ty.forget_resolveRuns r, Ty.forgetRuns]
termination_by structural r => r

theorem Ty.forget_resolveOverloads : (os : List Overload) →
    Ty.forgetOverloads (Ty.resolveOverloads ids os).1 = Ty.forgetOverloads os
  | [] => rfl
  | o :: os => by
      have here := Overload.forget_resolve o
      rw [Ty.resolveOverloads]
      split
      · rename_i resolved stop found
        rw [found] at here
        rw [Ty.forgetOverloads, here, Ty.forgetOverloads]
      · rename_i resolved found
        rw [found] at here
        rw [Ty.forgetOverloads, here, Ty.forget_resolveOverloads os, Ty.forgetOverloads]
termination_by structural os => os

theorem Overload.forget_resolve : (o : Overload) → (o.resolve ids).1.forget = o.forget
  | ⟨_ :: _, _, _⟩ => rfl
  | ⟨[], params, result⟩ => by
      have accepted := Ty.forget_resolveList params
      rw [Overload.resolve]
      split
      · rename_i resolved stop found
        rw [found] at accepted
        rw [Overload.forget, accepted, Overload.forget]
      · rename_i resolved found
        rw [found] at accepted
        rw [Overload.forget, accepted, Ty.forget_resolve result, Overload.forget]
termination_by structural o => o

end

end

/-! ## What an annotation denotes -/

/-- The property holds of an annotation whenever it holds of those in it. -/
structure TypeTerm.Progressive (P : TypeTerm → Prop) : Prop where
  named : ∀ name generics span, (∀ g ∈ generics, P g) → P (.named name generics span)
  noneType : ∀ span, P (.noneType span)
  tuple : ∀ items span, (∀ a ∈ items, P a) → P (.tuple items span)
  function : ∀ s : Signature, (∀ p ∈ s.params, P p) ∧ P s.result → P (.function s)
  overloads : ∀ (members : List Signature) span,
    (∀ s ∈ members, (∀ p ∈ s.params, P p) ∧ P s.result) → P (.overloads members span)
  array : ∀ item span, P item → P (.array item span)
  maybe : ∀ item span, P item → P (.maybe item span)

namespace TypeTerm.Progressive

variable {P : TypeTerm → Prop}

mutual

/-- By structural induction: what carries over from the parts to the whole holds of every
annotation. -/
theorem holds (progressive : Progressive P) : (a : TypeTerm) → P a
  | .named name generics span =>
      progressive.named name generics span (holdsAll progressive generics)
  | .noneType span => progressive.noneType span
  | .tuple items span => progressive.tuple items span (holdsAll progressive items)
  | .function s => progressive.function s (holdsWithin progressive s)
  | .overloads members span =>
      progressive.overloads members span (holdsWithinAll progressive members)
  | .array item span => progressive.array item span (holds progressive item)
  | .maybe item span => progressive.maybe item span (holds progressive item)
termination_by structural a => a

theorem holdsAll (progressive : Progressive P) : (as : List TypeTerm) → ∀ a ∈ as, P a
  | [] => List.forall_mem_nil _
  | a :: as => List.forall_mem_cons.mpr ⟨holds progressive a, holdsAll progressive as⟩
termination_by structural as => as

theorem holdsWithin (progressive : Progressive P) : (s : Signature) →
    (∀ p ∈ s.params, P p) ∧ P s.result
  | ⟨params, result, _⟩ => ⟨holdsAll progressive params, holds progressive result⟩
termination_by structural s => s

theorem holdsWithinAll (progressive : Progressive P) : (ss : List Signature) →
    ∀ s ∈ ss, (∀ p ∈ s.params, P p) ∧ P s.result
  | [] => List.forall_mem_nil _
  | s :: ss =>
      List.forall_mem_cons.mpr ⟨holdsWithin progressive s, holdsWithinAll progressive ss⟩
termination_by structural ss => ss

end

end TypeTerm.Progressive

theorem Ty.forgetList_lower {as : List TypeTerm} (each : ∀ a ∈ as, a.lower.forget = a.lower) :
    Ty.forgetList (as.map TypeTerm.lower) = as.map TypeTerm.lower := by
  induction as with
  | nil => rfl
  | cons a as ih =>
    obtain ⟨first, others⟩ := List.forall_mem_cons.mp each
    rw [List.map_cons, Ty.forgetList, first, ih others]

/-- Forgetting is done run by run, so that runs of types without classes stay as they are. -/
theorem Ty.forgetRuns_of_forall {r : Runs Ty} (each : r.Forall fun a => a.forget = a) :
    Ty.forgetRuns r = r := by
  induction r with
  | nil => rfl
  | cons a n r ih =>
    obtain ⟨first, others⟩ := Runs.forall_cons.mp each
    rw [Ty.forgetRuns, first, ih others]

theorem Signature.forget_lower {s : Signature}
    (each : (∀ p ∈ s.params, p.lower.forget = p.lower) ∧ s.result.lower.forget = s.result.lower) :
    s.lower.forget = s.lower := by
  rw [Signature.lower_eq, Overload.forget, Ty.forgetList_lower each.1, each.2]

theorem Ty.forgetOverloads_lower {ss : List Signature}
    (each : ∀ s ∈ ss, s.lower.forget = s.lower) :
    Ty.forgetOverloads (ss.map Signature.lower) = ss.map Signature.lower := by
  induction ss with
  | nil => rfl
  | cons s ss ih =>
    obtain ⟨first, others⟩ := List.forall_mem_cons.mp each
    rw [List.map_cons, Ty.forgetOverloads, first, ih others]

theorem TypeTerm.forget_progressive : Progressive fun a => a.lower.forget = a.lower where
  named name generics _ each := by
    rw [lower, Ty.forget, lowerList_eq, Ty.forgetList_lower each]
  noneType _ := rfl
  tuple items _ each := by
    rw [lower, Ty.forget, lowerList_eq, Ty.forgetRuns_of_forall]
    exact Runs.forall_ofList (List.forall_mem_map.mpr each)
  function s each := by
    rw [lower, Ty.forget, Ty.forgetOverloads, Ty.forgetOverloads, Signature.forget_lower each]
  overloads members _ each := by
    rw [lower, Ty.forget, lowerSignatures_eq, Ty.forgetOverloads_lower fun s listed =>
      Signature.forget_lower (each s listed)]
  array _ _ same := congrArg Ty.array same
  maybe _ _ same := congrArg Ty.maybe same

/-- What an annotation denotes can be found back after its names have been resolved. -/
theorem TypeTerm.forget_resolve (ids : NameMap ClassId) (a : TypeTerm) :
    (a.lower.resolve ids).1.forget = a.lower :=
  (Ty.forget_resolve a.lower).trans (forget_progressive.holds a)

/-! ## Canonical tuples -/

def Ty.parts : Ty → List Ty
  | .object _ _ generics => generics
  | .func overloads => overloads.flatMap fun o => o.params ++ [o.result]
  | .array item | .maybe item => [item]
  | .tuple items | .spread items => items.toPairs.map (·.1)
  | .classValue .. | .noneType => []

theorem Ty.mem_insideList {inner : Ty} {types : List Ty} :
    inner ∈ Ty.insideList types ↔ ∃ type ∈ types, inner ∈ type.inside := by
  induction types with
  | nil => simp [Ty.insideList]
  | cons type types ih => simp [Ty.insideList, ih]

theorem Ty.mem_insideRuns {inner : Ty} {r : Runs Ty} :
    inner ∈ Ty.insideRuns r ↔ ∃ type ∈ r.toPairs.map (·.1), inner ∈ type.inside := by
  induction r with
  | nil => simp [Ty.insideRuns, Runs.toPairs]
  | cons type n r ih => simp [Ty.insideRuns, Runs.toPairs, ih]

theorem Ty.mem_insideOverloads {inner : Ty} {os : List Overload} :
    inner ∈ Ty.insideOverloads os ↔
      ∃ type ∈ os.flatMap fun o => o.params ++ [o.result], inner ∈ type.inside := by
  induction os with
  | nil => simp [Ty.insideOverloads]
  | cons o os ih =>
    obtain ⟨generics, params, result⟩ := o
    rw [Ty.insideOverloads, Overload.inside, List.mem_append, List.mem_append, ih,
      Ty.mem_insideList, List.flatMap_cons]
    simp only [List.mem_append, or_and_right, exists_or, List.mem_singleton, exists_eq_left]

/-- A type lies within another if it is the other or lies within one of its parts. -/
theorem Ty.mem_inside {inner : Ty} (type : Ty) :
    inner ∈ type.inside ↔ inner = type ∨ ∃ part ∈ type.parts, inner ∈ part.inside := by
  have split {others : List Ty} (listed : type.inside = type :: others)
      (rest : inner ∈ others ↔ ∃ part ∈ type.parts, inner ∈ part.inside) :
      inner ∈ type.inside ↔ inner = type ∨ ∃ part ∈ type.parts, inner ∈ part.inside := by
    rw [listed, List.mem_cons, rest]
  cases type with
  | classValue id name => exact split rfl (by simp [Ty.parts])
  | object name id generics => exact split rfl Ty.mem_insideList
  | func os => exact split rfl Ty.mem_insideOverloads
  | array item => exact split rfl (by simp [Ty.parts])
  | tuple r => exact split rfl Ty.mem_insideRuns
  | spread r => exact split rfl Ty.mem_insideRuns
  | maybe item => exact split rfl (by simp [Ty.parts])
  | noneType => exact split rfl (by simp [Ty.parts])

/-- All tuples in the type are kept in canonical runs. -/
def Ty.Canonical (type : Ty) : Prop := ∀ r, .tuple r ∈ type.inside → r.Canonical

theorem Ty.canonical_iff {type : Ty} : type.Canonical ↔
    (∀ r, .tuple r = type → r.Canonical) ∧ ∀ part ∈ type.parts, part.Canonical := by
  constructor
  · intro canonical
    refine ⟨fun r same => canonical r ((Ty.mem_inside type).mpr (.inl same)), ?_⟩
    exact fun part among r listed =>
      canonical r ((Ty.mem_inside type).mpr (.inr ⟨part, among, listed⟩))
  · rintro ⟨here, below⟩ r listed
    rcases (Ty.mem_inside type).mp listed with same | ⟨part, among, inner⟩
    · exact here r same
    · exact below part among r inner

/-- Forgetting the classes may make neighbours equal but never unequal, so runs that are
canonical after it were so before. -/
theorem Ty.canonical_of_forgetRuns {r : Runs Ty} (canonical : (Ty.forgetRuns r).Canonical) :
    r.Canonical := by
  induction r with
  | nil => trivial
  | cons type n r ih =>
    obtain ⟨positive, other, rest⟩ := canonical
    refine ⟨positive, fun same => other ?_, ih rest⟩
    -- neighbours of one value are of one value without their classes too
    cases r with
    | nil => cases same
    | cons next m r =>
      obtain rfl : next = type := Option.some.inj same
      rfl

/-- Runs do not come to be of one value by what is filled in. -/
theorem Ty.Canonical.of_forget {type : Ty} (canonical : type.forget.Canonical) :
    type.Canonical := by
  intro r listed
  refine Ty.canonical_of_forgetRuns (canonical _ ?_)
  rw [Ty.inside_forget]
  exact List.mem_map_of_mem (f := Ty.forget) listed

instance : ReflBEq Ty := ⟨Ty.beq_refl _⟩

theorem Signature.canonical_parts {s : Signature}
    (each : (∀ p ∈ s.params, p.lower.Canonical) ∧ s.result.lower.Canonical) :
    ∀ part ∈ s.lower.params ++ [s.lower.result], part.Canonical := by
  rw [Signature.lower_eq]
  exact List.forall_mem_append.mpr
    ⟨List.forall_mem_map.mpr each.1, List.forall_mem_singleton.mpr each.2⟩

/-- Annotations come to canonical types, since their tuples are built by pushing. -/
theorem TypeTerm.canonical_progressive : Progressive fun a => a.lower.Canonical where
  named name generics _ each := by
    rw [lower, lowerList_eq]
    exact Ty.canonical_iff.mpr ⟨by simp, List.forall_mem_map.mpr each⟩
  noneType _ := Ty.canonical_iff.mpr ⟨by simp [lower], by simp [lower, Ty.parts]⟩
  tuple items _ each := by
    rw [lower, lowerList_eq]
    refine Ty.canonical_iff.mpr ⟨?_, List.forall_mem_map.mpr ?_⟩
    · rintro r ⟨⟩
      exact Runs.canonical_ofList _
    · exact Runs.forall_ofList (List.forall_mem_map.mpr each)
  function s each := by
    refine Ty.canonical_iff.mpr ⟨by simp [lower], ?_⟩
    rw [lower, Ty.parts, List.flatMap_singleton]
    exact Signature.canonical_parts each
  overloads members _ each := by
    refine Ty.canonical_iff.mpr ⟨by simp [lower], fun part among => ?_⟩
    rw [lower, lowerSignatures_eq, Ty.parts] at among
    obtain ⟨_, member, inner⟩ := List.mem_flatMap.mp among
    obtain ⟨s, listed, rfl⟩ := List.mem_map.mp member
    exact Signature.canonical_parts (each s listed) part inner
  array _ _ same := Ty.canonical_iff.mpr ⟨by simp [lower], by simpa [lower, Ty.parts] using same⟩
  maybe _ _ same := Ty.canonical_iff.mpr ⟨by simp [lower], by simpa [lower, Ty.parts] using same⟩

/-! ## When resolving succeeds -/

namespace Runs

variable {α : Type} {f : α → α} {P : α → Prop} {r : Runs α}

theorem forall_mapRuns : (r.mapRuns f).Forall P ↔ r.Forall fun a => P (f a) := by
  induction r with
  | nil => simp [mapRuns]
  | cons a n r ih => simp [mapRuns, ih]

theorem mapRuns_eq_self (same : r.Forall fun a => f a = a) : r.mapRuns f = r := by
  induction r with
  | nil => rfl
  | cons a n r ih =>
    obtain ⟨first, others⟩ := forall_cons.mp same
    rw [mapRuns, first, ih others]

end Runs

section

variable {ids : NameMap ClassId}

theorem Ty.resolveList_none {types : List Ty} :
    (Ty.resolveList ids types).2 = none ↔ ∀ type ∈ types, (type.resolve ids).2 = none := by
  induction types with
  | nil => simp [Ty.resolveList]
  | cons type types ih =>
    rw [Ty.resolveList, List.forall_mem_cons]
    rcases type.resolve ids with ⟨resolved, _ | stop⟩ <;> simp [ih]

theorem Ty.resolveRuns_none {r : Runs Ty} :
    (Ty.resolveRuns ids r).2 = none ↔ r.Forall fun type => (type.resolve ids).2 = none := by
  induction r with
  | nil => simp [Ty.resolveRuns]
  | cons type n r ih =>
    rw [Ty.resolveRuns, Runs.forall_cons]
    rcases type.resolve ids with ⟨resolved, _ | stop⟩ <;> simp [ih]

theorem Ty.resolveOverloads_none {os : List Overload} :
    (Ty.resolveOverloads ids os).2 = none ↔ ∀ o ∈ os, (o.resolve ids).2 = none := by
  induction os with
  | nil => simp [Ty.resolveOverloads]
  | cons o os ih =>
    rw [Ty.resolveOverloads, List.forall_mem_cons]
    rcases o.resolve ids with ⟨resolved, _ | stop⟩ <;> simp [ih]

theorem Overload.resolve_none {params : List Ty} {result : Ty} :
    (Overload.resolve ids ⟨[], params, result⟩).2 = none ↔
      (∀ p ∈ params, (p.resolve ids).2 = none) ∧ (result.resolve ids).2 = none := by
  rw [Overload.resolve, ← Ty.resolveList_none]
  rcases Ty.resolveList ids params with ⟨resolved, _ | stop⟩ <;> simp

theorem Ty.resolveList_eq {types : List Ty}
    (complete : ∀ type ∈ types, (type.resolve ids).2 = none) :
    Ty.resolveList ids types = (types.map fun type => (type.resolve ids).1, none) := by
  induction types with
  | nil => rfl
  | cons type types ih =>
    obtain ⟨first, others⟩ := List.forall_mem_cons.mp complete
    have here : type.resolve ids = ((type.resolve ids).1, none) := Prod.ext rfl first
    rw [Ty.resolveList, here, ih others, List.map_cons]

/-- Resolving the elements of a tuple one by one keeps its runs. -/
theorem Ty.resolveRuns_eq {r : Runs Ty}
    (complete : r.Forall fun type => (type.resolve ids).2 = none) :
    Ty.resolveRuns ids r = (r.mapRuns fun type => (type.resolve ids).1, none) := by
  induction r with
  | nil => rfl
  | cons type n r ih =>
    obtain ⟨first, others⟩ := Runs.forall_cons.mp complete
    have here : type.resolve ids = ((type.resolve ids).1, none) := Prod.ext rfl first
    rw [Ty.resolveRuns, here, ih others, Runs.mapRuns]

theorem Ty.resolveOverloads_eq {os : List Overload}
    (complete : ∀ o ∈ os, (o.resolve ids).2 = none) :
    Ty.resolveOverloads ids os = (os.map fun o => (o.resolve ids).1, none) := by
  induction os with
  | nil => rfl
  | cons o os ih =>
    obtain ⟨first, others⟩ := List.forall_mem_cons.mp complete
    have here : o.resolve ids = ((o.resolve ids).1, none) := Prod.ext rfl first
    rw [Ty.resolveOverloads, here, ih others, List.map_cons]

theorem Overload.resolve_eq {params : List Ty} {result : Ty}
    (accepted : ∀ p ∈ params, (p.resolve ids).2 = none) (returned : (result.resolve ids).2 = none) :
    Overload.resolve ids ⟨[], params, result⟩ =
      (⟨[], params.map fun type => (type.resolve ids).1, (result.resolve ids).1⟩, none) := by
  rw [Overload.resolve, Ty.resolveList_eq accepted]
  exact Prod.ext rfl returned

/-- The names in the type are resolved, and none of them has generics. -/
inductive Ty.Settled (ids : NameMap ClassId) : Ty → Prop where
  | object {name : String} {id : ClassId} (found : ids.find? name = some id) :
      Settled ids (.object name (some id) [])
  | func {os : List Overload} (plain : ∀ o ∈ os, o.generics = [])
      (params : ∀ o ∈ os, ∀ p ∈ o.params, Settled ids p)
      (results : ∀ o ∈ os, Settled ids o.result) : Settled ids (.func os)
  | array {item : Ty} (settled : Settled ids item) : Settled ids (.array item)
  | tuple {r : Runs Ty} (each : ∀ a ∈ r.toPairs, Settled ids a.1) : Settled ids (.tuple r)
  | maybe {item : Ty} (settled : Settled ids item) : Settled ids (.maybe item)
  | noneType : Settled ids .noneType

namespace Ty.Settled

variable {type : Ty}

theorem named (settled : type.Settled ids) : type.Named := by
  induction settled with
  | object => exact .object (List.forall_mem_nil _)
  | func _ _ _ params results => exact .func params results
  | array _ item => exact .array item
  | tuple _ each => exact .tuple each
  | maybe _ item => exact .maybe item
  | noneType => exact .noneType

/-- There is nothing left to be resolved. -/
theorem resolve (settled : type.Settled ids) : type.resolve ids = (type, none) := by
  induction settled with
  | object found => rw [Ty.resolve, found]
  | @func os plain _ _ params results =>
    have each (o : Overload) (listed : o ∈ os) : o.resolve ids = (o, none) := by
      obtain ⟨generics, accepted, result⟩ := o
      obtain rfl : generics = [] := plain _ listed
      have same : ∀ p ∈ accepted, p.resolve ids = (p, none) := params _ listed
      have returned : result.resolve ids = (result, none) := results _ listed
      rw [Overload.resolve_eq (fun p among => congrArg Prod.snd (same p among))
        (congrArg Prod.snd returned), returned,
        List.map_congr_left fun p among => congrArg Prod.fst (same p among), List.map_id']
    rw [Ty.resolve, Ty.resolveOverloads_eq fun o listed => congrArg Prod.snd (each o listed),
      List.map_congr_left fun o listed => congrArg Prod.fst (each o listed), List.map_id']
  | array _ item => rw [Ty.resolve, item]
  | tuple _ each =>
    rw [Ty.resolve, Ty.resolveRuns_eq fun a listed => congrArg Prod.snd (each a listed),
      Runs.mapRuns_eq_self fun a listed => congrArg Prod.fst (each a listed)]
  | maybe _ item => rw [Ty.resolve, item]
  | noneType => rfl

/-- Every instance in the type is one of the class that its name leads to. -/
theorem objects (settled : type.Settled ids) {name : String} {id : Option ClassId}
    {generics : List Ty} (listed : .object name id generics ∈ type.inside) :
    ∃ k, id = some k ∧ ids.find? name = some k := by
  induction settled with
  | object found =>
    rcases (Ty.mem_inside _).mp listed with same | ⟨part, among, _⟩
    · cases same
      exact ⟨_, rfl, found⟩
    · cases among
  | func _ _ _ params results =>
    obtain ⟨part, among, inner⟩ := ((Ty.mem_inside _).mp listed).resolve_left (by simp)
    obtain ⟨o, member, among⟩ := List.mem_flatMap.mp among
    rcases List.mem_append.mp among with accepted | returned
    · exact params o member part accepted inner
    · obtain rfl := List.mem_singleton.mp returned
      exact results o member inner
  | array _ item | maybe _ item =>
    obtain ⟨part, among, inner⟩ := ((Ty.mem_inside _).mp listed).resolve_left (by simp)
    obtain rfl := List.mem_singleton.mp among
    exact item inner
  | tuple _ each =>
    obtain ⟨part, among, inner⟩ := ((Ty.mem_inside _).mp listed).resolve_left (by simp)
    obtain ⟨run, member, rfl⟩ := List.mem_map.mp among
    exact each run member inner
  | noneType =>
    obtain ⟨part, among, _⟩ := ((Ty.mem_inside _).mp listed).resolve_left (by simp)
    cases among

end Ty.Settled

theorem Ty.resolve_object {name : String} {id : Option ClassId} {generics : List Ty} :
    ((Ty.object name id generics).resolve ids).2 = none ↔
      generics = [] ∧ ∃ k, ids.find? name = some k := by
  cases generics with
  | nil =>
    rw [Ty.resolve]
    cases ids.find? name <;> simp
  | cons g gs => simp [Ty.resolve]

/-- If the type is resolved at all, it is settled then. -/
def Ty.Settles (ids : NameMap ClassId) (type : Ty) : Prop :=
  (type.resolve ids).2 = none → (type.resolve ids).1.Settled ids

/-- The lowered signature is settled with its parameters and its result. -/
theorem Signature.settles {s : Signature}
    (each : (∀ p ∈ s.params, p.lower.Settles ids) ∧ s.result.lower.Settles ids)
    (complete : (s.lower.resolve ids).2 = none) :
    (s.lower.resolve ids).1.generics = [] ∧
      (∀ p ∈ (s.lower.resolve ids).1.params, p.Settled ids) ∧
      (s.lower.resolve ids).1.result.Settled ids := by
  rw [Signature.lower_eq] at complete ⊢
  obtain ⟨accepted, returned⟩ := Overload.resolve_none.mp complete
  rw [Overload.resolve_eq accepted returned]
  refine ⟨rfl, ?_, each.2 returned⟩
  refine List.forall_mem_map.mpr (List.forall_mem_map.mpr fun p listed => ?_)
  exact each.1 p listed (accepted _ (List.mem_map_of_mem listed))

theorem Ty.settles_func {ss : List Signature}
    (each : ∀ s ∈ ss, (∀ p ∈ s.params, p.lower.Settles ids) ∧ s.result.lower.Settles ids) :
    (Ty.func (ss.map Signature.lower)).Settles ids := by
  intro complete
  have found := Ty.resolveOverloads_none.mp complete
  have settled (s : Signature) (listed : s ∈ ss) :=
    Signature.settles (each s listed) (found _ (List.mem_map_of_mem listed))
  rw [Ty.resolve, Ty.resolveOverloads_eq found, List.map_map]
  exact .func (List.forall_mem_map.mpr fun s listed => (settled s listed).1)
    (List.forall_mem_map.mpr fun s listed => (settled s listed).2.1)
    (List.forall_mem_map.mpr fun s listed => (settled s listed).2.2)

theorem TypeTerm.settled_progressive : Progressive fun a => a.lower.Settles ids where
  named name generics _ _ complete := by
    rw [lower] at complete ⊢
    obtain ⟨bare, k, found⟩ := Ty.resolve_object.mp complete
    rw [bare, Ty.resolve, found]
    exact .object found
  noneType _ _ := .noneType
  tuple items _ each complete := by
    rw [lower, lowerList_eq] at complete ⊢
    have found := Ty.resolveRuns_none.mp complete
    have settled : (Runs.ofList (items.map lower)).Forall (Ty.Settles ids) :=
      Runs.forall_ofList (List.forall_mem_map.mpr each)
    rw [Ty.resolve, Ty.resolveRuns_eq found]
    exact .tuple (Runs.forall_mapRuns.mpr fun run listed => settled run listed (found run listed))
  function s each := Ty.settles_func (List.forall_mem_singleton.mpr each)
  overloads members _ each := by
    rw [lower, lowerSignatures_eq]
    exact Ty.settles_func each
  array _ _ settled complete := .array (settled complete)
  maybe _ _ settled complete := .maybe (settled complete)

end

/-! ## What an annotation names -/

mutual

/-- The types that the annotation names, with their generics. -/
def TypeTerm.names : TypeTerm → List (String × List TypeTerm)
  | .named name generics _ => (name, generics) :: TypeTerm.namesAll generics
  | .noneType _ => []
  | .tuple items _ => TypeTerm.namesAll items
  | .function s => s.names
  | .overloads members _ => Signature.namesAll members
  | .array item _ => item.names
  | .maybe item _ => item.names

def TypeTerm.namesAll : List TypeTerm → List (String × List TypeTerm)
  | [] => []
  | a :: as => a.names ++ TypeTerm.namesAll as

def Signature.names : Signature → List (String × List TypeTerm)
  | ⟨params, result, _⟩ => TypeTerm.namesAll params ++ result.names

def Signature.namesAll : List Signature → List (String × List TypeTerm)
  | [] => []
  | s :: ss => s.names ++ Signature.namesAll ss

end

section

variable {Q : String × List TypeTerm → Prop}

theorem TypeTerm.forall_namesAll {as : List TypeTerm} :
    (∀ n ∈ TypeTerm.namesAll as, Q n) ↔ ∀ a ∈ as, ∀ n ∈ a.names, Q n := by
  induction as with
  | nil => simp [TypeTerm.namesAll]
  | cons a as ih => rw [TypeTerm.namesAll, List.forall_mem_append, ih, List.forall_mem_cons]

/-- What holds of all names in a signature holds of those in its parameters and its result. -/
theorem Signature.forall_names {s : Signature} : (∀ n ∈ s.names, Q n) ↔
    (∀ p ∈ s.params, ∀ n ∈ p.names, Q n) ∧ ∀ n ∈ s.result.names, Q n := by
  obtain ⟨params, result, span⟩ := s
  rw [Signature.names, List.forall_mem_append, TypeTerm.forall_namesAll]

theorem Signature.forall_namesAll {ss : List Signature} :
    (∀ n ∈ Signature.namesAll ss, Q n) ↔ ∀ s ∈ ss, ∀ n ∈ s.names, Q n := by
  induction ss with
  | nil => simp [Signature.namesAll]
  | cons s ss ih => rw [Signature.namesAll, List.forall_mem_append, ih, List.forall_mem_cons]

end

/-- Runs of annotated types hold all of them. -/
theorem TypeTerm.forall_ofList {P : Ty → Prop} {as : List TypeTerm} :
    (Runs.ofList (as.map lower)).Forall P ↔ ∀ a ∈ as, P a.lower := by
  constructor
  · intro holds
    rw [← List.forall_mem_map, ← toList_lowered]
    exact holds.toList
  · intro each
    exact Runs.forall_ofList (List.forall_mem_map.mpr each)

section

variable {ids : NameMap ClassId}

/-- The annotation can be resolved exactly if the types that it names can. -/
def TypeTerm.ByNames (ids : NameMap ClassId) (a : TypeTerm) : Prop :=
  (a.lower.resolve ids).2 = none ↔ ∀ n ∈ a.names, n.2 = [] ∧ ∃ id, ids.find? n.1 = some id

theorem Signature.byNames {s : Signature}
    (each : (∀ p ∈ s.params, p.ByNames ids) ∧ s.result.ByNames ids) :
    (s.lower.resolve ids).2 = none ↔
      ∀ n ∈ s.names, n.2 = [] ∧ ∃ id, ids.find? n.1 = some id := by
  rw [Signature.lower_eq, Overload.resolve_none, List.forall_mem_map, Signature.forall_names]
  exact and_congr (forall₂_congr each.1) each.2

/-- An annotation can be resolved if it names only known classes and gives no generics. -/
theorem TypeTerm.byNames_progressive : Progressive (ByNames ids) where
  named name generics _ _ := by
    rw [ByNames, lower, Ty.resolve_object, names, List.forall_mem_cons, forall_namesAll,
      lowerList_eq, List.map_eq_nil_iff]
    -- generics are not looked into: there must not be any
    refine ⟨fun found => ⟨found, ?_⟩, And.left⟩
    rw [found.1]
    exact List.forall_mem_nil _
  noneType _ := by simp [ByNames, lower, Ty.resolve, names]
  tuple items _ each := by
    rw [ByNames, lower, lowerList_eq, Ty.resolve, Ty.resolveRuns_none, forall_ofList, names,
      forall_namesAll]
    exact forall₂_congr each
  function s each := by
    rw [ByNames, lower, Ty.resolve, Ty.resolveOverloads_none, List.forall_mem_singleton, names]
    exact Signature.byNames each
  overloads members _ each := by
    rw [ByNames, lower, lowerSignatures_eq, Ty.resolve, Ty.resolveOverloads_none,
      List.forall_mem_map, names, Signature.forall_namesAll]
    exact forall₂_congr fun s listed => Signature.byNames (each s listed)
  array _ _ found := found
  maybe _ _ found := found

end

/-! ## Faithfulness -/

/-- The names lead to the classes that have them. -/
def ClassTable.NamesClasses (t : ClassTable) : Prop :=
  ∀ name id, t.ids.find? name = some id ↔ ∃ c, t.get id = .ok c ∧ c.name = name

/-- Where every class stands under its own name, names lead to the classes that have them. -/
theorem Checker.Rooted.namesClasses {s : Checker} (rooted : s.Rooted) : s.classes.NamesClasses := by
  intro name id
  constructor
  · exact rooted.named name id
  · rintro ⟨c, got, rfl⟩
    exact rooted.listed id c got

theorem ClassTable.Denotes.settled {t : ClassTable} {a : TypeTerm} {type : Ty}
    (denotes : t.Denotes a type) : type.Settled t.ids := by
  have settles := TypeTerm.settled_progressive.holds a (congrArg Prod.snd denotes)
  rwa [denotes] at settles

/-- An annotation is what is left of its type when the classes are forgotten. -/
theorem ClassTable.Denotes.forget {t : ClassTable} {a : TypeTerm} {type : Ty}
    (denotes : t.Denotes a type) : type.forget = a.lower := by
  have same := TypeTerm.forget_resolve t.ids a
  rwa [denotes] at same

/-- Annotations that denote equal types are equal but for their places. -/
theorem ClassTable.Denotes.beq_iff {t : ClassTable} {a b : TypeTerm} {type type' : Ty}
    (denotes : t.Denotes a type) (denotes' : t.Denotes b type') :
    (type == type') = true ↔ (a.lower == b.lower) = true := by
  constructor
  · intro same
    -- without class values, types that are found equal are the same
    obtain rfl := denotes.settled.named.lawful type' same
    rw [← denotes.forget, ← denotes'.forget]
    exact Ty.beq_refl _
  · intro same
    have lowered : a.lower = b.lower := a.lower_named.lawful b.lower same
    have resolved : (type, none) = (type', none) :=
      denotes.symm.trans ((congrArg (Ty.resolve t.ids) lowered).trans denotes')
    cases resolved
    exact Ty.beq_refl _

/-- An annotation denotes a type exactly if all classes it names exist and none is given
generics. -/
theorem ClassTable.NamesClasses.denotes_iff {t : ClassTable} (named : t.NamesClasses)
    (a : TypeTerm) : (∃ type, t.Denotes a type) ↔
      (∀ n ∈ a.names, ∃ id c, t.get id = .ok c ∧ c.name = n.1) ∧ ∀ n ∈ a.names, n.2 = [] := by
  have byNames : a.ByNames t.ids := TypeTerm.byNames_progressive.holds a
  constructor
  · rintro ⟨type, denotes⟩
    have each := byNames.mp (congrArg Prod.snd denotes)
    refine ⟨fun n listed => ?_, fun n listed => (each n listed).1⟩
    obtain ⟨id, found⟩ := (each n listed).2
    obtain ⟨c, got, same⟩ := (named n.1 id).mp found
    exact ⟨id, c, got, same⟩
  · rintro ⟨declared, bare⟩
    refine ⟨_, Prod.ext rfl (byNames.mpr fun n listed => ⟨bare n listed, ?_⟩)⟩
    obtain ⟨id, c, got, same⟩ := declared n listed
    exact ⟨id, (named n.1 id).mpr ⟨c, got, same⟩⟩

/-- Resolving an annotation succeeds exactly if all names in it are those of classes and none has
generics. Then each instance has the class of its name, and the rest is as it was: the text, the
runs of tuples, and which types are equal. To resolve the type again changes nothing. -/
theorem TypeTerm.resolve_faithful {t : ClassTable} (named : t.NamesClasses) (a b : TypeTerm) :
    ((∃ type, t.Denotes a type) ↔
      (∀ n ∈ a.names, ∃ id c, t.get id = .ok c ∧ c.name = n.1) ∧ ∀ n ∈ a.names, n.2 = []) ∧
    (∀ type, t.Denotes a type →
      (∀ name id generics, .object name id generics ∈ type.inside →
        ∃ k c, id = some k ∧ t.get k = .ok c ∧ c.name = name) ∧
      type.text = a.lower.text ∧
      (∀ r, .tuple r ∈ type.inside → r.Canonical) ∧
      type.resolve t.ids = (type, none)) ∧
    ∀ type type', t.Denotes a type → t.Denotes b type' →
      ((type == type') = true ↔ (a.lower == b.lower) = true) := by
  refine ⟨named.denotes_iff a, fun type denotes => ?_,
    fun _ _ denotes denotes' => denotes.beq_iff denotes'⟩
  refine ⟨fun name id generics listed => ?_, ?_, ?_, denotes.settled.resolve⟩
  · obtain ⟨k, rfl, found⟩ := denotes.settled.objects listed
    obtain ⟨c, got, same⟩ := (named name k).mp found
    exact ⟨k, c, rfl, got, same⟩
  · rw [← denotes.forget, Ty.text_forget]
  · have canonical : type.forget.Canonical := by
      rw [denotes.forget]
      exact canonical_progressive.holds a
    exact canonical.of_forget

/-- The annotation of two numbers and, maybe, of an instance of a class. -/
def TypeTerm.numbersAnd (name : String) : TypeTerm :=
  .tuple [.named "int" [] .null, .named "int" [] .null, .maybe (.named name [] .null) .null] .null

/-- Classes `B` and `C` are declared, and `D` is not. -/
theorem TypeTerm.resolve_faithful_tuple : ∃ t : ClassTable, t.NamesClasses ∧
    ∃ type type', t.Denotes (numbersAnd "B") type ∧ t.Denotes (numbersAnd "C") type' ∧
      type.text = "(int, int, B?)" ∧ (∀ r, .tuple r ∈ type.inside → r.Canonical) ∧
      type.resolve t.ids = (type, none) ∧ ¬ (type == type') = true ∧
      ¬ ∃ other, t.Denotes (numbersAnd "D") other := by
  obtain ⟨s, reached, computed⟩ := Program.reach_of_any false Program.selfMention.body
    (fun s => ((numbersAnd "B").lower.resolve s.classes.ids).2.isNone &&
      ((numbersAnd "C").lower.resolve s.classes.ids).2.isNone &&
      ((numbersAnd "D").lower.resolve s.classes.ids).2.isSome)
    (by decide +kernel)
  have named := (Program.reach_rooted reached).namesClasses
  simp only [Bool.and_eq_true, Option.isNone_iff_eq_none] at computed
  obtain ⟨⟨first, second⟩, missing⟩ := computed
  obtain ⟨_, faithful, equal⟩ := TypeTerm.resolve_faithful named (numbersAnd "B") (numbersAnd "C")
  have denotes : s.classes.Denotes (numbersAnd "B") _ := Prod.ext rfl first
  have denotes' : s.classes.Denotes (numbersAnd "C") _ := Prod.ext rfl second
  obtain ⟨_, text, canonical, again⟩ := faithful _ denotes
  refine ⟨s.classes, named, _, _, denotes, denotes', text.trans (by decide +kernel), canonical,
    again, ?_, ?_⟩
  · rw [equal _ _ denotes denotes']
    decide +kernel
  · rintro ⟨other, found⟩
    rw [found] at missing
    cases missing

end ShapeLang
