import ShapeLang.Proofs.Discipline

/-!
# How many elements a tuple can have

Only a tuple expression makes tuples that are longer than those at hand, and only if it spreads
some of them: then it has at most as many elements as it has items, times the length of the
longest tuple before. Everything else that finds a type hands on one that is there or that an
annotation spells out. So a bound on the length of tuples is a discipline.
-/

namespace ShapeLang

/-! ## Types -/

namespace Ty

/-- How many elements it adds to a tuple that lists it. -/
def share : Ty → Nat
  | spread r => r.length
  | _ => 1

end Ty

mutual

/-- The type and all types in it. -/
def Ty.inside : Ty → List Ty
  | .classValue id name => [.classValue id name]
  | .object name id generics => .object name id generics :: Ty.insideList generics
  | .func overloads => .func overloads :: Ty.insideOverloads overloads
  | .array item => .array item :: item.inside
  | .tuple items => .tuple items :: Ty.insideRuns items
  | .spread items => .spread items :: Ty.insideRuns items
  | .maybe item => .maybe item :: item.inside
  | .noneType => [.noneType]

def Ty.insideList : List Ty → List Ty
  | [] => []
  | a :: as => a.inside ++ Ty.insideList as

def Ty.insideRuns : Runs Ty → List Ty
  | .nil => []
  | .cons a _ r => a.inside ++ Ty.insideRuns r

def Ty.insideOverloads : List Overload → List Ty
  | [] => []
  | o :: os => o.inside ++ Ty.insideOverloads os

def Overload.inside : Overload → List Ty
  | ⟨_, params, result⟩ => Ty.insideList params ++ result.inside

end

/-- A tuple with at most that many elements, none of which is a spread tuple itself; the flag
says whether there may be spread tuples at all. -/
def Ty.Sized (limit : Nat) (spreads : Bool) : Ty → Prop
  | .tuple items => items.length ≤ limit ∧ items.Forall (·.isSpread = false)
  | .spread items => spreads = true ∧ items.length ≤ limit ∧ items.Forall (·.isSpread = false)
  | _ => True

/-- No tuple in the type has more elements than that. -/
def Ty.AtMost (limit : Nat) (spreads : Bool) (type : Ty) : Prop :=
  ∀ inner ∈ type.inside, inner.Sized limit spreads

/-- The same of the type of something that is one value and not a list of them. -/
def Ty.Whole (limit : Nat) (spreads : Bool) (type : Ty) : Prop :=
  type.isSpread = false ∧ type.AtMost limit spreads

def Overload.AtMost (limit : Nat) (spreads : Bool) (o : Overload) : Prop :=
  (∀ p ∈ o.params, p.AtMost limit spreads) ∧ o.result.AtMost limit spreads

instance {α : Type} (P : α → Prop) [DecidablePred P] (r : Runs α) : Decidable (r.Forall P) :=
  inferInstanceAs (Decidable (∀ run ∈ r.toPairs, P run.1))

instance (limit : Nat) (spreads : Bool) : (type : Ty) → Decidable (type.Sized limit spreads)
  | .tuple _ => inferInstanceAs (Decidable (_ ∧ _))
  | .spread _ => inferInstanceAs (Decidable (_ ∧ _ ∧ _))
  | .classValue .. | .object .. | .func _ | .array _ | .maybe _ | .noneType => .isTrue trivial

instance (limit : Nat) (spreads : Bool) (type : Ty) : Decidable (type.AtMost limit spreads) :=
  inferInstanceAs (Decidable (∀ inner ∈ type.inside, inner.Sized limit spreads))

section

variable {B C : Nat} {b : Bool}

/-- All tuples within the types of a list are short if each of the types is. -/
theorem Ty.insideList_sized {types : List Ty} :
    (∀ inner ∈ Ty.insideList types, inner.Sized B b) ↔ ∀ type ∈ types, type.AtMost B b := by
  induction types with
  | nil => exact iff_of_true (List.forall_mem_nil _) (List.forall_mem_nil _)
  | cons type types ih =>
    rw [List.forall_mem_cons, ← ih]
    exact List.forall_mem_append

theorem Ty.insideRuns_sized {r : Runs Ty} :
    (∀ inner ∈ Ty.insideRuns r, inner.Sized B b) ↔ r.Forall (Ty.AtMost B b) := by
  induction r with
  | nil => exact iff_of_true (List.forall_mem_nil _) Runs.forall_nil
  | cons type n r ih =>
    rw [Runs.forall_cons, ← ih]
    exact List.forall_mem_append

/-- All tuples within an overload are short if its parameters and its result are. -/
theorem Overload.inside_sized {o : Overload} :
    (∀ inner ∈ o.inside, inner.Sized B b) ↔ o.AtMost B b := by
  obtain ⟨generics, params, result⟩ := o
  exact List.forall_mem_append.trans (and_congr_left' Ty.insideList_sized)

theorem Ty.insideOverloads_sized {os : List Overload} :
    (∀ inner ∈ Ty.insideOverloads os, inner.Sized B b) ↔ ∀ o ∈ os, o.AtMost B b := by
  induction os with
  | nil => exact iff_of_true (List.forall_mem_nil _) (List.forall_mem_nil _)
  | cons o os ih =>
    rw [List.forall_mem_cons, ← ih, ← Overload.inside_sized]
    exact List.forall_mem_append

namespace Ty

/-- The type itself and the others in it. -/
theorem atMost_iff {type : Ty} {others : List Ty} (listed : type.inside = type :: others) :
    type.AtMost B b ↔ type.Sized B b ∧ ∀ inner ∈ others, inner.Sized B b := by
  rw [AtMost, listed, List.forall_mem_cons]

@[simp] theorem atMost_classValue {id : ClassId} {name : String} :
    (classValue id name).AtMost B b :=
  (atMost_iff rfl).mpr ⟨trivial, List.forall_mem_nil _⟩

@[simp] theorem atMost_noneType : noneType.AtMost B b :=
  (atMost_iff rfl).mpr ⟨trivial, List.forall_mem_nil _⟩

@[simp] theorem atMost_object {name : String} {id : Option ClassId} {generics : List Ty} :
    (object name id generics).AtMost B b ↔ ∀ g ∈ generics, g.AtMost B b :=
  (atMost_iff rfl).trans ((and_iff_right trivial).trans insideList_sized)

@[simp] theorem atMost_instanceOf {id : ClassId} {name : String} :
    (instanceOf id name).AtMost B b := by simp [instanceOf]

@[simp] theorem atMost_func {os : List Overload} :
    (func os).AtMost B b ↔ ∀ o ∈ os, o.AtMost B b :=
  (atMost_iff rfl).trans ((and_iff_right trivial).trans insideOverloads_sized)

@[simp] theorem atMost_array {item : Ty} : (array item).AtMost B b ↔ item.AtMost B b :=
  (atMost_iff rfl).trans (and_iff_right trivial)

@[simp] theorem atMost_maybe {item : Ty} : (maybe item).AtMost B b ↔ item.AtMost B b :=
  (atMost_iff rfl).trans (and_iff_right trivial)

theorem forall_whole {r : Runs Ty} : r.Forall (Whole B b) ↔
    r.Forall (·.isSpread = false) ∧ r.Forall (AtMost B b) := by
  induction r with
  | nil => simp
  | cons type n r ih =>
    simp only [Runs.forall_cons, ih, Whole]
    exact and_and_and_comm

@[simp] theorem atMost_tuple {r : Runs Ty} :
    (tuple r).AtMost B b ↔ r.length ≤ B ∧ r.Forall (Whole B b) := by
  rw [forall_whole, ← and_assoc]
  exact (atMost_iff rfl).trans (and_congr_right' insideRuns_sized)

@[simp] theorem atMost_spread {r : Runs Ty} :
    (spread r).AtMost B b ↔ b = true ∧ r.length ≤ B ∧ r.Forall (Whole B b) := by
  rw [forall_whole, ← and_assoc, ← and_assoc, and_assoc (a := b = true)]
  exact (atMost_iff rfl).trans (and_congr_right' insideRuns_sized)

theorem AtMost.mono {type : Ty} (limited : type.AtMost B b) (le : B ≤ C) : type.AtMost C b := by
  intro inner listed
  have sized := limited inner listed
  cases inner with
  | tuple items => exact ⟨Nat.le_trans sized.1 le, sized.2⟩
  | spread items => exact ⟨sized.1, Nat.le_trans sized.2.1 le, sized.2.2⟩
  | _ => trivial

theorem Whole.mono {type : Ty} (whole : type.Whole B b) (le : B ≤ C) : type.Whole C b :=
  ⟨whole.1, whole.2.mono le⟩

/-- Without any spread tuple in it, the type is that of one value. -/
theorem AtMost.whole {type : Ty} (limited : type.AtMost B false) : type.Whole B true := by
  refine ⟨?_, fun inner listed => ?_⟩
  · cases type with
    | spread items => exact absurd (atMost_spread.mp limited).1 Bool.false_ne_true
    | _ => rfl
  · have sized := limited inner listed
    cases inner with
    | spread items => exact absurd sized.1 Bool.false_ne_true
    | tuple items => exact sized
    | _ => trivial

/-- A type that can be spread is spread into no more elements than it had. -/
theorem AtMost.toSpread? {type spread : Ty} (limited : type.AtMost B true)
    (taken : type.toSpread? = some spread) : spread.AtMost B true := by
  cases type with
  | tuple r =>
    cases taken
    exact atMost_spread.mpr ⟨rfl, atMost_tuple.mp limited⟩
  | spread r =>
    cases taken
    exact limited
  | _ => cases taken

/-! ## Tuple expressions -/

theorem length_elements (type : Ty) : type.elements.length = type.share := by
  cases type <;> rfl

/-- A tuple has as many elements as its items give it, one for each but a spread. -/
theorem length_gathered (r : Runs Ty) (types : List Ty) :
    (gathered r types).length = r.length + (types.map share).sum := by
  induction types generalizing r with
  | nil => rfl
  | cons type types ih =>
    have first := Runs.length_append r type.elements
    rw [gathered, List.foldl_cons, ← gathered, ih, first, length_elements, List.map_cons,
      List.sum_cons, Nat.add_assoc]

/-- What an item gives to a tuple are types that are no spreads themselves. -/
theorem whole_elements {type : Ty} (limited : type.AtMost B b) :
    type.elements.Forall (Whole B b) := by
  cases type with
  | spread inner => exact (atMost_spread.mp limited).2.2
  | _ => exact Runs.forall_cons.mpr ⟨⟨rfl, limited⟩, Runs.forall_nil⟩

theorem share_le {type : Ty} (limited : type.AtMost B true) (positive : 0 < B) :
    type.share ≤ B := by
  cases type with
  | spread r => exact (atMost_spread.mp limited).2.1
  | _ => exact positive

theorem share_of_not_spread {type : Ty} (single : type.isSpread = false) : type.share = 1 := by
  cases type with
  | spread r => cases single
  | _ => rfl

/-- Items that may each be several elements bring at most `B` of them. -/
theorem sum_shares_le {items : List Expr} {types : List Ty} (positive : 0 < B)
    (found : List.Forall₂ (fun e type => type.AtMost B true ∧
      (Expr.opens e = false → type.Whole B true)) items types) :
    (types.map share).sum ≤ B * items.length := by
  induction found with
  | nil => exact Nat.zero_le _
  | cons first _ ih =>
    have here := share_le first.1 positive
    rw [List.map_cons, List.sum_cons, List.length_cons, Nat.mul_succ]
    omega

/-- Items that are one element each. -/
theorem sum_shares_of_closed {items : List Expr} {types : List Ty}
    (closed : items.any Expr.opens = false)
    (found : List.Forall₂ (fun e type => type.AtMost B true ∧
      (Expr.opens e = false → type.Whole B true)) items types) :
    (types.map share).sum = items.length := by
  induction found with
  | nil => rfl
  | cons first _ ih =>
    obtain ⟨here, later⟩ := Bool.or_eq_false_iff.mp closed
    rw [List.map_cons, List.sum_cons, share_of_not_spread (first.2 here).1, ih later,
      List.length_cons, Nat.add_comm]

/-- A tuple expression does not lead beyond its extent. -/
theorem length_gathered_le {items : List Expr} {types : List Ty}
    (found : List.Forall₂ (fun e type => type.AtMost B true ∧
      (Expr.opens e = false → type.Whole B true)) items types)
    (leads : (Extent.ofItems items).Leads B C) : (gathered .nil types).length ≤ C := by
  have growth : B * (if items.any Expr.opens then items.length else 1) ≤ C := leads.growth
  rw [length_gathered, Runs.length, Nat.zero_add]
  cases opened : items.any Expr.opens with
  | true =>
    rw [if_pos opened] at growth
    exact Nat.le_trans (sum_shares_le leads.start found) growth
  | false =>
    rw [sum_shares_of_closed opened found]
    exact Nat.le_trans leads.longest leads.le

/-- A tuple expression's type is bounded by the bound on its items and by how many they are. -/
theorem whole_tuple {items : List Expr} {types : List Ty}
    (found : List.Forall₂ (fun e type => type.AtMost B true ∧
      (Expr.opens e = false → type.Whole B true)) items types)
    (leads : (Extent.ofItems items).Leads B C) :
    (tuple (gathered .nil types)).Whole C true := by
  refine ⟨rfl, atMost_tuple.mpr ⟨length_gathered_le found leads, ?_⟩⟩
  have limited : ∀ type ∈ types, type.AtMost B true := ((List.forall₂_and_left _ _).mp found.flip).1
  exact forall_gathered (fun type listed => whole_elements ((limited type listed).mono leads.le))
    Runs.forall_nil

end Ty

end

/-! ## Annotations -/

section

variable {B : Nat} {b : Bool}

mutual

/-- The type an annotation is lowered to has tuples no longer than the annotation's own. -/
theorem TypeTerm.lower_atMost : (term : TypeTerm) → term.longest ≤ B →
    term.lower.AtMost B false
  | .named name generics _, le => Ty.atMost_object.mpr (TypeTerm.lowerList_atMost generics le)
  | .noneType _, _ => Ty.atMost_noneType
  | .tuple items _, le => by
      obtain ⟨here, within⟩ := Nat.max_le.mp le
      refine Ty.atMost_tuple.mpr ⟨?_, Runs.forall_ofList fun type listed => ?_⟩
      · rw [Runs.length_ofList, TypeTerm.lowerList_eq, List.length_map]
        exact here
      · have limited := TypeTerm.lowerList_atMost items within type listed
        exact ⟨limited.whole.1, limited⟩
  | .function signature, le =>
      Ty.atMost_func.mpr (List.forall_mem_singleton.mpr (Signature.lower_atMost signature le))
  | .overloads members _, le => Ty.atMost_func.mpr (TypeTerm.lowerSignatures_atMost members le)
  | .array item _, le => Ty.atMost_array.mpr (TypeTerm.lower_atMost item le)
  | .maybe item _, le => Ty.atMost_maybe.mpr (TypeTerm.lower_atMost item le)

theorem TypeTerm.lowerList_atMost : (terms : List TypeTerm) → TypeTerm.longestOf terms ≤ B →
    ∀ type ∈ TypeTerm.lowerList terms, type.AtMost B false
  | [], _ => by simp [TypeTerm.lowerList]
  | term :: terms, le => by
      obtain ⟨first, others⟩ := Nat.max_le.mp le
      rw [TypeTerm.lowerList]
      exact List.forall_mem_cons.mpr
        ⟨TypeTerm.lower_atMost term first, TypeTerm.lowerList_atMost terms others⟩

theorem TypeTerm.lowerSignatures_atMost : (members : List Signature) →
    TypeTerm.longestMember members ≤ B →
    ∀ o ∈ TypeTerm.lowerSignatures members, o.AtMost B false
  | [], _ => by simp [TypeTerm.lowerSignatures]
  | signature :: members, le => by
      obtain ⟨first, others⟩ := Nat.max_le.mp le
      rw [TypeTerm.lowerSignatures]
      exact List.forall_mem_cons.mpr
        ⟨Signature.lower_atMost signature first, TypeTerm.lowerSignatures_atMost members others⟩

theorem Signature.lower_atMost : (signature : Signature) → signature.longest ≤ B →
    signature.lower.AtMost B false
  | ⟨params, result, _⟩, le => by
      obtain ⟨accepted, given⟩ := Nat.max_le.mp le
      rw [Signature.lower]
      exact ⟨TypeTerm.lowerList_atMost params accepted, TypeTerm.lower_atMost result given⟩

end

variable (ids : NameMap ClassId)

/-- Looking up the class names does not turn a type into a spread or back. -/
theorem Ty.isSpread_resolve (type : Ty) : (type.resolve ids).1.isSpread = type.isSpread := by
  cases type with
  | object name id generics =>
    cases generics with
    | nil =>
      rw [Ty.resolve]
      cases ids.find? name <;> rfl
    | cons g gs => rfl
  | _ => rfl

theorem Ty.length_resolveRuns (r : Runs Ty) : (Ty.resolveRuns ids r).1.length = r.length := by
  induction r with
  | nil => rfl
  | cons type n r ih =>
    rw [Ty.resolveRuns]
    split
    · rfl
    · rw [Runs.length, ih, Runs.length]

mutual

/-- Looking up the class names leaves the sizes of the tuples alone. -/
theorem Ty.resolve_atMost : (type : Ty) → type.AtMost B b → (type.resolve ids).1.AtMost B b
  | .classValue .., limited => limited
  | .object name id [], limited => by
      rw [Ty.resolve]
      cases ids.find? name <;> simp
  | .object name id (g :: gs), limited => limited
  | .func os, limited =>
      Ty.atMost_func.mpr (Ty.resolveOverloads_atMost os (Ty.atMost_func.mp limited))
  | .array item, limited =>
      Ty.atMost_array.mpr (Ty.resolve_atMost item (Ty.atMost_array.mp limited))
  | .maybe item, limited =>
      Ty.atMost_maybe.mpr (Ty.resolve_atMost item (Ty.atMost_maybe.mp limited))
  | .tuple r, limited => by
      obtain ⟨few, whole⟩ := Ty.atMost_tuple.mp limited
      have kept := Ty.length_resolveRuns ids r
      exact Ty.atMost_tuple.mpr ⟨kept ▸ few, Ty.resolveRuns_whole r whole⟩
  | .spread r, limited => by
      obtain ⟨allowed, few, whole⟩ := Ty.atMost_spread.mp limited
      have kept := Ty.length_resolveRuns ids r
      exact Ty.atMost_spread.mpr ⟨allowed, kept ▸ few, Ty.resolveRuns_whole r whole⟩
  | .noneType, limited => limited

theorem Ty.resolveList_atMost : (types : List Ty) → (∀ type ∈ types, type.AtMost B b) →
    ∀ type ∈ (Ty.resolveList ids types).1, type.AtMost B b
  | [], limited => limited
  | type :: types, limited => by
      obtain ⟨first, others⟩ := List.forall_mem_cons.mp limited
      have here := Ty.resolve_atMost type first
      rw [Ty.resolveList]
      split
      · rename_i resolved stop found
        rw [found] at here
        exact List.forall_mem_cons.mpr ⟨here, others⟩
      · rename_i resolved found
        rw [found] at here
        exact List.forall_mem_cons.mpr ⟨here, Ty.resolveList_atMost types others⟩

theorem Ty.resolveRuns_whole : (r : Runs Ty) → r.Forall (Ty.Whole B b) →
    (Ty.resolveRuns ids r).1.Forall (Ty.Whole B b)
  | .nil, whole => whole
  | .cons type n r, whole => by
      obtain ⟨⟨single, first⟩, others⟩ := Runs.forall_cons.mp whole
      have here : (type.resolve ids).1.Whole B b :=
        ⟨(Ty.isSpread_resolve ids type).trans single, Ty.resolve_atMost type first⟩
      rw [Ty.resolveRuns]
      split
      · rename_i resolved stop found
        rw [found] at here
        exact Runs.forall_cons.mpr ⟨here, others⟩
      · rename_i resolved found
        rw [found] at here
        exact Runs.forall_cons.mpr ⟨here, Ty.resolveRuns_whole r others⟩

theorem Ty.resolveOverloads_atMost : (os : List Overload) → (∀ o ∈ os, o.AtMost B b) →
    ∀ o ∈ (Ty.resolveOverloads ids os).1, o.AtMost B b
  | [], limited => limited
  | o :: os, limited => by
      obtain ⟨first, others⟩ := List.forall_mem_cons.mp limited
      have here := Overload.resolve_atMost o first
      rw [Ty.resolveOverloads]
      split
      · rename_i resolved stop found
        rw [found] at here
        exact List.forall_mem_cons.mpr ⟨here, others⟩
      · rename_i resolved found
        rw [found] at here
        exact List.forall_mem_cons.mpr ⟨here, Ty.resolveOverloads_atMost os others⟩

theorem Overload.resolve_atMost : (o : Overload) → o.AtMost B b →
    (o.resolve ids).1.AtMost B b
  | ⟨g :: gs, params, result⟩, limited => limited
  | ⟨[], params, result⟩, limited => by
      have accepted := Ty.resolveList_atMost params limited.1
      rw [Overload.resolve]
      split
      · rename_i resolved stop found
        rw [found] at accepted
        exact ⟨accepted, limited.2⟩
      · rename_i resolved found
        rw [found] at accepted
        exact ⟨accepted, Ty.resolve_atMost result limited.2⟩

end

/-- What an annotation denotes has no longer tuples than it spells out, and no spread ones. -/
theorem TypeTerm.resolve_lower_atMost {term : TypeTerm} {type : Ty} (le : term.longest ≤ B)
    (denoted : term.lower.resolve ids = (type, none)) : type.AtMost B false := by
  have limited := Ty.resolve_atMost ids term.lower (term.lower_atMost le)
  rwa [denoted] at limited

end

/-- No tuple is longer than the bound, and none has a spread one in it. -/
def breadth : Discipline where
  spelled B type := type.AtMost B false
  bound _ B type := type.Whole B true
  given _ B type := type.AtMost B true
  excess B := countLimit ≤ B
  excess_mono le long := Nat.le_trans long le
  spelled_mono le limited := limited.mono le
  bound_mono _ le whole := whole.mono le
  given_mono _ le limited := limited.mono le
  bound_of_spelled := Ty.AtMost.whole
  given_of_bound whole := whole.2
  bound_of_given single limited := ⟨single, limited⟩
  denoted := TypeTerm.resolve_lower_atMost _
  classValue _ := ⟨rfl, Ty.atMost_classValue⟩
  instanceOf := ⟨rfl, Ty.atMost_instanceOf⟩
  noneType := ⟨rfl, Ty.atMost_noneType⟩
  func := ⟨fun whole => Ty.atMost_func.mp whole.2, fun each => ⟨rfl, Ty.atMost_func.mpr each⟩⟩
  result limited o listed := (Ty.atMost_func.mp limited o listed).2
  array := ⟨fun whole => Ty.atMost_array.mp whole.2, fun item => ⟨rfl, Ty.atMost_array.mpr item⟩⟩
  spread := Ty.AtMost.toSpread?
  elements limited := (Ty.atMost_spread.mp limited).2.2
  tuple found leads := by
    refine ⟨Ty.whole_tuple found leads, ?_⟩
    have few := Ty.length_gathered_le found leads
    exact (Nat.lt_or_ge _ _).imp_right fun long => Nat.le_trans long few

end ShapeLang
