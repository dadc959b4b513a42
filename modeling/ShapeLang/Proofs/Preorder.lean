import Mathlib.Logic.Relation
import ShapeLang.Proofs.Answers

/-!
# Standing for a type as an order

Comparisons stop short of tuples and of functions with type parameters. Types that hold
neither are compared to an end, yes or no; each of them stands for itself, and if
fitting is transitive among the classes, so is standing for among these types.
-/

namespace ShapeLang

mutual

/-- The type holds no tuples and no functions with type parameters. -/
def Ty.plain : Ty → Bool
  | .classValue .. => true
  | .object .. => true
  | .func overloads => Ty.plainOverloads overloads
  | .array item => item.plain
  | .tuple _ => false
  | .spread _ => false
  | .maybe item => item.plain
  | .noneType => true

def Ty.plainList : List Ty → Bool
  | [] => true
  | a :: as => a.plain && Ty.plainList as

def Ty.plainOverloads : List Overload → Bool
  | [] => true
  | o :: os => o.plain && Ty.plainOverloads os

def Overload.plain : Overload → Bool
  | ⟨generics, params, result⟩ => generics.isEmpty && Ty.plainList params && result.plain

end

theorem Ty.plainList_iff {types : List Ty} :
    Ty.plainList types = true ↔ ∀ type ∈ types, type.plain = true := by
  induction types with
  | nil => simp [Ty.plainList]
  | cons type types ih => simp [Ty.plainList, ih]

theorem Ty.plainOverloads_iff {os : List Overload} :
    Ty.plainOverloads os = true ↔ ∀ o ∈ os, o.plain = true := by
  induction os with
  | nil => simp [Ty.plainOverloads]
  | cons o os ih => simp [Ty.plainOverloads, ih]

/-- A plain type whose classes are known; those that are values are allowed by `values`. -/
def Ty.Regular (values : ClassId → Prop) (type : Ty) : Prop :=
  type.plain = true ∧ type.Over (fun _ => True) values

def Overload.Regular (values : ClassId → Prop) (o : Overload) : Prop :=
  o.generics = [] ∧ (∀ p ∈ o.params, p.Regular values) ∧ o.result.Regular values

section

variable {values : ClassId → Prop}

theorem Ty.regular_func {os : List Overload} :
    (Ty.func os).Regular values ↔ ∀ o ∈ os, o.Regular values := by
  have each (o : Overload) : o.Regular values ↔
      o.plain = true ∧ o.Over (fun _ => True) values := by
    obtain ⟨generics, params, result⟩ := o
    simp only [Overload.plain, Bool.and_eq_true, List.isEmpty_iff, Ty.plainList_iff, Overload.Over,
      Overload.Regular, Ty.Regular]
    grind
  unfold Ty.Regular
  rw [Ty.over_func, Ty.plain, Ty.plainOverloads_iff]
  simp only [each]
  grind

theorem Ty.Regular.object {name : String} {id : Option ClassId} {generics : List Ty}
    (regular : (Ty.object name id generics).Regular values) : ∃ known, id = some known := by
  obtain ⟨⟨known, same, _⟩, _⟩ := Ty.over_object.mp regular.2
  exact ⟨known, same⟩

end

mutual

theorem Ty.beq_refl : (type : Ty) → type.beq type = true
  | .classValue .. => by simp [Ty.beq]
  | .object _ _ generics => by simp [Ty.beq, Ty.beqList_refl generics]
  | .func os => by simp [Ty.beq, Ty.beqOverloads_refl os]
  | .array item => by simp [Ty.beq, Ty.beq_refl item]
  | .tuple items => by simp [Ty.beq, Ty.beqRuns_refl items]
  | .spread items => by simp [Ty.beq, Ty.beqRuns_refl items]
  | .maybe item => by simp [Ty.beq, Ty.beq_refl item]
  | .noneType => by simp [Ty.beq]

theorem Ty.beqList_refl : (types : List Ty) → Ty.beqList types types = true
  | [] => by simp [Ty.beqList]
  | type :: types => by simp [Ty.beqList, Ty.beq_refl type, Ty.beqList_refl types]

theorem Ty.beqRuns_refl : (r : Runs Ty) → Ty.beqRuns r r = true
  | .nil => by simp [Ty.beqRuns]
  | .cons type _ r => by simp [Ty.beqRuns, Ty.beq_refl type, Ty.beqRuns_refl r]

theorem Ty.beqOverloads_refl : (os : List Overload) → Ty.beqOverloads os os = true
  | [] => by simp [Ty.beqOverloads]
  | o :: os => by simp [Ty.beqOverloads, Overload.beq_refl o, Ty.beqOverloads_refl os]

theorem Overload.beq_refl : (o : Overload) → o.beq o = true
  | ⟨_, params, result⟩ => by simp [Overload.beq, Ty.beqList_refl params, Ty.beq_refl result]

end

theorem Ty.beqOverloads_mem {os ps : List Overload} (same : Ty.beqOverloads os ps = true) :
    (∀ o ∈ os, ∃ p ∈ ps, o.beq p = true) ∧ ∀ p ∈ ps, ∃ o ∈ os, o.beq p = true := by
  induction os generalizing ps with
  | nil => cases ps <;> simp_all [Ty.beqOverloads]
  | cons o os ih =>
    cases ps with
    | nil => simp [Ty.beqOverloads] at same
    | cons p ps =>
      rw [Ty.beqOverloads, Bool.and_eq_true_iff] at same
      obtain ⟨forth, back⟩ := ih same.2
      grind

theorem Ty.sizeOf_overload {o : Overload} {os : List Overload} (listed : o ∈ os) :
    sizeOf o < sizeOf (Ty.func os) := by
  have smaller := List.sizeOf_lt_of_mem listed
  simp only [Ty.func.sizeOf_spec]
  omega

/-- The comparison comes to yes or no. -/
def Decided (x : Except Fault Verdict) : Prop :=
  x = .ok (.ok ()) ∨ x = .ok (.error .incompatible)

/-- Two verdicts, the second asked for only if the first is yes, are decided if both are. -/
theorem Decided.andThen {x y : Except Fault Verdict} (first : Decided x) (second : Decided y) :
    Decided (do match ← x with | .ok () => y | .error m => return .error m) := by
  rcases first with rfl | rfl
  · exact second
  · exact .inr rfl

theorem andThen_yes {x y : Except Fault Verdict} :
    (do match ← x with | .ok () => y | .error m => return .error m) = .ok (.ok ()) ↔
      x = .ok (.ok ()) ∧ y = .ok (.ok ()) := by
  rcases x with fault | reason | _
  · simp [error_bind]
  · simp [ok_bind, pure, Except.pure]
  · simp [ok_bind]

namespace ClassTable

/-- Fitting is transitive among the classes of the table. -/
def Transitive (t : ClassTable) : Prop :=
  ∀ a b c, t.isA a b = true → t.isA b c = true → t.isA a c = true

theorem transitive_iff {t : ClassTable} : t.Transitive ↔
    ∀ p ∈ t.fits, ∀ q ∈ t.fits, p.2 = q.1 → t.isA p.1 q.2 = true := by
  constructor
  · intro transitive p first q second same
    refine transitive p.1 p.2 q.2 (isA_iff.mpr (.inr first)) (isA_iff.mpr (.inr ?_))
    rwa [same]
  · intro closed a b c first second
    rcases isA_iff.mp first with rfl | kept
    · exact second
    · rcases isA_iff.mp second with rfl | kept'
      · exact first
      · exact closed (a, b) kept (b, c) kept' rfl

instance (t : ClassTable) : Decidable t.Transitive := decidable_of_iff' _ transitive_iff

section

variable {t : ClassTable} {fit : ClassId → ClassId → Except Fault Verdict}
  {values : ClassId → Prop}

/-- What it takes for one type to stand for another. -/
inductive Stands (t : ClassTable) (fit : ClassId → ClassId → Except Fault Verdict) :
    Ty → Ty → Prop where
  | object {m n : String} {a b : ClassId} {gs hs : List Ty} (related : t.isA a b = true) :
      Stands t fit (.object m (some a) gs) (.object n (some b) hs)
  | classValue {m n : String} {a b : ClassId} (fits : fit a b = .ok (.ok ())) :
      Stands t fit (.classValue a m) (.classValue b n)
  | func {candidates wanted : List Overload}
      (served : t.serveAll fit candidates wanted = .ok (.ok ())) :
      Stands t fit (.func candidates) (.func wanted)
  | array {a b : Ty} (forth : t.compareWith fit a b = .ok (.ok ()))
      (back : t.compareWith fit b a = .ok (.ok ())) : Stands t fit (.array a) (.array b)
  | maybe {a b : Ty} (forth : t.compareWith fit a b = .ok (.ok ()))
      (back : t.compareWith fit b a = .ok (.ok ())) : Stands t fit (.maybe a) (.maybe b)
  | noneType : Stands t fit .noneType .noneType

/-- Two instances compare as their classes do, whatever they are called. -/
theorem compareWith_object {m n : String} {a b : ClassId} {gs hs : List Ty} :
    t.compareWith fit (.object m (some a) gs) (.object n (some b) hs) =
      .ok (if t.isA a b then .ok () else .error .incompatible) := by
  rw [compareWith]
  rfl

/-- When a comparison says yes, written out for each pair of types. -/
theorem compareWith_yes {actual expected : Ty} :
    t.compareWith fit actual expected = .ok (.ok ()) ↔ t.Stands fit actual expected := by
  constructor
  · intro yes
    rw [compareWith.eq_def] at yes
    split at yes
    · rename_i m a _ n b _
      rcases a with _ | a
      · cases yes
      · rcases b with _ | b
        · cases yes
        · cases related : t.isA a b with
          | true => exact .object related
          | false => simp [resolvedClass, ok_bind, related, pure, Except.pure] at yes
    · exact .classValue yes
    · exact .func yes
    · obtain ⟨forth, back⟩ := andThen_yes.mp yes
      exact .array forth back
    · obtain ⟨forth, back⟩ := andThen_yes.mp yes
      exact .maybe forth back
    all_goals first | exact .noneType | cases yes
  · intro stands
    cases stands with
    | object related => rw [compareWith_object, related]; rfl
    | classValue fits => rw [compareWith]; exact fits
    | func served => rw [compareWith]; exact served
    | array forth back => rw [compareWith]; exact andThen_yes.mpr ⟨forth, back⟩
    | maybe forth back => rw [compareWith]; exact andThen_yes.mpr ⟨forth, back⟩
    | noneType => rw [compareWith]

theorem serveAll_yes {candidates wanted : List Overload} :
    t.serveAll fit candidates wanted = .ok (.ok ()) ↔
      ∀ w ∈ wanted, t.serveOne fit candidates w = .ok (.ok ()) := by
  induction wanted with
  | nil => simp [serveAll]
  | cons w ws ih =>
    rw [serveAll, List.forall_mem_cons, ← ih]
    exact andThen_yes

/-- An overload serves another if it accepts what the other is passed and returns what the other
wants. -/
theorem serve_yes {generics wantedGenerics : List String} {accepted passed : List Ty}
    {result wantedResult : Ty} :
    t.serve fit ⟨generics, accepted, result⟩ ⟨wantedGenerics, passed, wantedResult⟩ =
        .ok (.ok ()) ↔
      (generics = [] ∧ wantedGenerics = []) ∧ accepted.length = passed.length ∧
        t.acceptAll fit accepted passed = .ok (.ok ()) ∧
        t.compareWith fit result wantedResult = .ok (.ok ()) := by
  rw [serve]
  split
  · rename_i generic
    grind
  · rename_i plain
    split
    · rename_i differ
      grind
    · rename_i same
      refine andThen_yes.trans ?_
      grind

theorem exists_of_serveOne_yes {candidates : List Overload} {wanted : Overload}
    (served : t.serveOne fit candidates wanted = .ok (.ok ())) :
    ∃ c ∈ candidates, t.serve fit c wanted = .ok (.ok ()) := by
  induction candidates with
  | nil =>
    rw [serveOne] at served
    cases served
  | cons c cs ih =>
    rw [serveOne] at served
    cases verdict : t.serve fit c wanted with
    | error fault =>
      rw [verdict] at served
      cases served
    | ok verdict' =>
      rw [verdict] at served
      rcases verdict' with (_ | feature) | _
      · obtain ⟨c', listed, yes⟩ := ih served
        exact ⟨c', List.mem_cons_of_mem _ listed, yes⟩
      · cases served
      · exact ⟨c, List.mem_cons_self, verdict⟩

/-- Candidates before one that serves do no harm if they are compared to an end. -/
theorem serveOne_yes_of_mem {candidates : List Overload} {wanted c : Overload}
    (decided : ∀ c ∈ candidates, Decided (t.serve fit c wanted)) (listed : c ∈ candidates)
    (serves : t.serve fit c wanted = .ok (.ok ())) :
    t.serveOne fit candidates wanted = .ok (.ok ()) := by
  induction candidates with
  | nil => cases listed
  | cons first others ih =>
    obtain ⟨here, rest⟩ := List.forall_mem_cons.mp decided
    rw [serveOne]
    rcases here with yes | no
    · rw [yes]
      rfl
    · rw [no]
      rcases List.mem_cons.mp listed with rfl | later
      · rw [no] at serves
        cases serves
      · exact ih rest later

/-- Whether one of the candidates serves is decided if it is decided for each of them. -/
theorem serveOne_decided {candidates : List Overload} {wanted : Overload}
    (decided : ∀ c ∈ candidates, Decided (t.serve fit c wanted)) :
    Decided (t.serveOne fit candidates wanted) := by
  induction candidates with
  | nil =>
    rw [serveOne]
    exact .inr rfl
  | cons first others ih =>
    obtain ⟨here, rest⟩ := List.forall_mem_cons.mp decided
    rw [serveOne]
    rcases here with yes | no
    · rw [yes]
      exact .inl rfl
    · rw [no]
      exact ih rest

theorem serveAll_decided {candidates wanted : List Overload}
    (decided : ∀ w ∈ wanted, ∀ c ∈ candidates, Decided (t.serve fit c w)) :
    Decided (t.serveAll fit candidates wanted) := by
  induction wanted with
  | nil =>
    rw [serveAll]
    exact .inl rfl
  | cons w ws ih =>
    obtain ⟨here, rest⟩ := List.forall_mem_cons.mp decided
    rw [serveAll]
    exact (serveOne_decided here).andThen (ih rest)

mutual

/-- Comparisons of regular types come to yes or no. -/
theorem compareWith_decided (fits : ∀ a b, values a → values b → Decided (fit a b))
    (actual expected : Ty) (left : actual.Regular values) (right : expected.Regular values) :
    Decided (t.compareWith fit actual expected) := by
  rw [compareWith.eq_def]
  split
  · obtain ⟨a, rfl⟩ := left.object
    obtain ⟨b, rfl⟩ := right.object
    simp only [resolvedClass, ok_bind]
    split
    · exact .inl rfl
    · exact .inr rfl
  · exact fits _ _ (Ty.over_classValue.mp left.2) (Ty.over_classValue.mp right.2)
  · have own := Ty.regular_func.mp left
    have other := Ty.regular_func.mp right
    refine serveAll_decided fun w wanted c candidate => ?_
    have smaller := Ty.sizeOf_overload candidate
    have smaller' := Ty.sizeOf_overload wanted
    exact serve_decided fits c w (own c candidate) (other w wanted)
  · rename_i a b
    have there := compareWith_decided fits a b left right
    exact there.andThen (compareWith_decided fits b a right left)
  · rename_i a b
    have there := compareWith_decided fits a b left right
    exact there.andThen (compareWith_decided fits b a right left)
  · cases left.1
  · cases left.1
  · cases left.1
  · cases left.1
  · exact .inl rfl
  · exact .inr rfl
termination_by sizeOf actual + sizeOf expected
decreasing_by
  all_goals
    subst_vars
    first
    | omega
    | simp only [Ty.array.sizeOf_spec, Ty.maybe.sizeOf_spec]
      omega

/-- Whether an overload serves another is decided if its types can be compared. -/
theorem serve_decided (fits : ∀ a b, values a → values b → Decided (fit a b)) :
    (candidate wanted : Overload) → candidate.Regular values → wanted.Regular values →
      Decided (t.serve fit candidate wanted)
  | ⟨generics, accepted, result⟩, ⟨wantedGenerics, passed, wantedResult⟩, left, right => by
      obtain ⟨rfl, params, given⟩ := left
      obtain ⟨rfl, arguments, expected⟩ := right
      rw [serve]
      split
      · rename_i generic
        cases generic
      · split
        · exact .inr rfl
        · exact (acceptAll_decided fits accepted passed params arguments).andThen
            (compareWith_decided fits result wantedResult given expected)
termination_by candidate wanted => sizeOf candidate + sizeOf wanted
decreasing_by
  all_goals
    subst_vars
    simp only [Overload.mk.sizeOf_spec]
    omega

theorem acceptAll_decided (fits : ∀ a b, values a → values b → Decided (fit a b))
    (accepted passed : List Ty) (left : ∀ type ∈ accepted, type.Regular values)
    (right : ∀ type ∈ passed, type.Regular values) :
    Decided (t.acceptAll fit accepted passed) := by
  rw [acceptAll.eq_def]
  split
  · obtain ⟨head, heads⟩ := List.forall_mem_cons.mp left
    obtain ⟨tail, tails⟩ := List.forall_mem_cons.mp right
    exact (compareWith_decided fits _ _ tail head).andThen
      (acceptAll_decided fits _ _ heads tails)
  · exact .inl rfl
termination_by sizeOf accepted + sizeOf passed
decreasing_by
  all_goals
    subst_vars
    simp only [List.cons.sizeOf_spec]
    omega

end

mutual

/-- Equal types stand for each other. -/
theorem compareWith_of_beq (decided : ∀ a b, values a → values b → Decided (fit a b))
    (self : ∀ a, values a → fit a a = .ok (.ok ())) (a b : Ty) (left : a.Regular values)
    (right : b.Regular values) (same : a.beq b = true) :
    t.compareWith fit a b = .ok (.ok ()) ∧ t.compareWith fit b a = .ok (.ok ()) := by
  rw [compareWith_yes, compareWith_yes]
  cases a with
  | classValue id name =>
    cases b <;> simp only [Ty.beq, Bool.false_eq_true] at same
    obtain rfl := eq_of_beq same
    have fits := self id (Ty.over_classValue.mp left.2)
    exact ⟨.classValue fits, .classValue fits⟩
  | object name id generics =>
    cases b <;> simp only [Ty.beq, Bool.false_eq_true, Bool.and_eq_true] at same
    obtain ⟨known, rfl⟩ := left.object
    obtain rfl := eq_of_beq same.1.2
    have related : t.isA known known = true := isA_iff.mpr (.inl rfl)
    exact ⟨.object related, .object related⟩
  | func os =>
    cases b <;> simp only [Ty.beq, Bool.false_eq_true] at same
    rename_i ps
    have own := Ty.regular_func.mp left
    have other := Ty.regular_func.mp right
    obtain ⟨forth, back⟩ := Ty.beqOverloads_mem same
    refine ⟨.func (serveAll_yes.mpr fun p listed => ?_),
      .func (serveAll_yes.mpr fun o listed => ?_)⟩
    · obtain ⟨o, member, equal⟩ := back p listed
      have smaller := Ty.sizeOf_overload listed
      have smaller' := Ty.sizeOf_overload member
      refine serveOne_yes_of_mem (fun c candidate => ?_) member
        (serve_of_beq decided self o p (own o member) (other p listed) equal).1
      exact serve_decided decided c p (own c candidate) (other p listed)
    · obtain ⟨p, member, equal⟩ := forth o listed
      have smaller := Ty.sizeOf_overload listed
      have smaller' := Ty.sizeOf_overload member
      refine serveOne_yes_of_mem (fun c candidate => ?_) member
        (serve_of_beq decided self o p (own o listed) (other p member) equal).2
      exact serve_decided decided c o (other c candidate) (own o listed)
  | array item =>
    cases b <;> simp only [Ty.beq, Bool.false_eq_true] at same
    rename_i other
    obtain ⟨forth, back⟩ := compareWith_of_beq decided self item other left right same
    exact ⟨.array forth back, .array back forth⟩
  | maybe item =>
    cases b <;> simp only [Ty.beq, Bool.false_eq_true] at same
    rename_i other
    obtain ⟨forth, back⟩ := compareWith_of_beq decided self item other left right same
    exact ⟨.maybe forth back, .maybe back forth⟩
  | tuple items => cases left.1
  | spread items => cases left.1
  | noneType =>
    cases b <;> simp only [Ty.beq, Bool.false_eq_true] at same
    exact ⟨.noneType, .noneType⟩
termination_by sizeOf a + sizeOf b
decreasing_by
  all_goals
    subst_vars
    first
    | omega
    | simp only [Ty.array.sizeOf_spec, Ty.maybe.sizeOf_spec]
      omega

theorem serve_of_beq (decided : ∀ a b, values a → values b → Decided (fit a b))
    (self : ∀ a, values a → fit a a = .ok (.ok ())) : (o p : Overload) → o.Regular values →
      p.Regular values → o.beq p = true →
        t.serve fit o p = .ok (.ok ()) ∧ t.serve fit p o = .ok (.ok ())
  | ⟨generics, params, result⟩, ⟨generics', params', result'⟩, left, right, same => by
      obtain ⟨rfl, accepted, given⟩ := left
      obtain ⟨rfl, accepted', given'⟩ := right
      simp only [Overload.beq, Bool.and_eq_true] at same
      obtain ⟨length, forth, back⟩ := acceptAll_of_beq decided self params params' accepted
        accepted' same.1.2
      obtain ⟨there, here⟩ := compareWith_of_beq decided self result result' given given' same.2
      exact ⟨serve_yes.mpr ⟨⟨rfl, rfl⟩, length, forth, there⟩,
        serve_yes.mpr ⟨⟨rfl, rfl⟩, length.symm, back, here⟩⟩
termination_by o p => sizeOf o + sizeOf p
decreasing_by
  all_goals
    subst_vars
    simp only [Overload.mk.sizeOf_spec]
    omega

theorem acceptAll_of_beq (decided : ∀ a b, values a → values b → Decided (fit a b))
    (self : ∀ a, values a → fit a a = .ok (.ok ())) (as bs : List Ty)
    (left : ∀ a ∈ as, a.Regular values) (right : ∀ b ∈ bs, b.Regular values)
    (same : Ty.beqList as bs = true) : as.length = bs.length ∧
      t.acceptAll fit as bs = .ok (.ok ()) ∧ t.acceptAll fit bs as = .ok (.ok ()) := by
  cases as with
  | nil => cases bs <;> simp_all [Ty.beqList, acceptAll]
  | cons a as =>
    cases bs with
    | nil => simp [Ty.beqList] at same
    | cons b bs =>
      rw [Ty.beqList, Bool.and_eq_true_iff] at same
      obtain ⟨head, heads⟩ := List.forall_mem_cons.mp left
      obtain ⟨tail, tails⟩ := List.forall_mem_cons.mp right
      obtain ⟨there, here⟩ := compareWith_of_beq decided self a b head tail same.1
      obtain ⟨length, forth, back⟩ := acceptAll_of_beq decided self as bs heads tails same.2
      rw [acceptAll, acceptAll]
      exact ⟨congrArg (· + 1) length, andThen_yes.mpr ⟨here, forth⟩, andThen_yes.mpr ⟨there, back⟩⟩
termination_by sizeOf as + sizeOf bs
decreasing_by
  all_goals
    subst_vars
    simp only [List.cons.sizeOf_spec]
    omega

end

/-- What it takes of the classes for the types to be in order: those that are values are
compared to an end, and both ways to compare classes are transitive. -/
structure ClassOrder (t : ClassTable) (fit : ClassId → ClassId → Except Fault Verdict)
    (values : ClassId → Prop) : Prop where
  transitive : t.Transitive
  decided : ∀ a b, values a → values b → Decided (fit a b)
  chained : ∀ a b c, values a → values b → values c →
    fit a b = .ok (.ok ()) → fit b c = .ok (.ok ()) → fit a c = .ok (.ok ())

mutual

/-- By induction on the three types: a comparison is transitive if that of the classes is. -/
theorem compareWith_trans (order : t.ClassOrder fit values) (a b c : Ty)
    (low : a.Regular values) (middle : b.Regular values) (high : c.Regular values)
    (first : t.compareWith fit a b = .ok (.ok ())) (second : t.compareWith fit b c = .ok (.ok ())) :
    t.compareWith fit a c = .ok (.ok ()) := by
  rw [compareWith_yes] at first second ⊢
  cases first with
  | object below =>
    cases second with
    | object above => exact .object (order.transitive _ _ _ below above)
  | classValue below =>
    cases second with
    | classValue above =>
      refine .classValue (order.chained _ _ _ ?_ ?_ ?_ below above)
      · exact Ty.over_classValue.mp low.2
      · exact Ty.over_classValue.mp middle.2
      · exact Ty.over_classValue.mp high.2
  | func below =>
    cases second with
    | func above =>
      rw [Ty.regular_func] at low middle high
      refine .func (serveAll_yes.mpr fun w wanted => ?_)
      obtain ⟨p, between, upper⟩ := exists_of_serveOne_yes (serveAll_yes.mp above w wanted)
      obtain ⟨o, candidate, lower⟩ := exists_of_serveOne_yes (serveAll_yes.mp below p between)
      have smaller := Ty.sizeOf_overload wanted
      have smaller' := Ty.sizeOf_overload between
      have smaller'' := Ty.sizeOf_overload candidate
      refine serveOne_yes_of_mem (fun o' listed => ?_) candidate
        (serve_trans order o p w (low o candidate) (middle p between) (high w wanted) lower upper)
      exact serve_decided order.decided o' w (low o' listed) (high w wanted)
  | @array a b forth back =>
    cases second with
    | @array _ c forth' back' =>
      exact .array (compareWith_trans order a b c low middle high forth forth')
        (compareWith_trans order c b a high middle low back' back)
  | @maybe a b forth back =>
    cases second with
    | @maybe _ c forth' back' =>
      exact .maybe (compareWith_trans order a b c low middle high forth forth')
        (compareWith_trans order c b a high middle low back' back)
  | noneType => exact second
termination_by sizeOf a + sizeOf b + sizeOf c
decreasing_by
  all_goals
    subst_vars
    first
    | omega
    | simp only [Ty.array.sizeOf_spec, Ty.maybe.sizeOf_spec]
      omega

/-- Serving is transitive: parameters are compared the other way round, results the same way. -/
theorem serve_trans (order : t.ClassOrder fit values) : (o p q : Overload) → o.Regular values →
    p.Regular values → q.Regular values → t.serve fit o p = .ok (.ok ()) →
    t.serve fit p q = .ok (.ok ()) → t.serve fit o q = .ok (.ok ())
  | ⟨_, params, result⟩, ⟨_, params', result'⟩, ⟨_, params'', result''⟩,
      low, middle, high, first, second => by
      obtain ⟨⟨rfl, rfl⟩, length, accepts, gives⟩ := serve_yes.mp first
      obtain ⟨⟨_, rfl⟩, length', accepts', gives'⟩ := serve_yes.mp second
      refine serve_yes.mpr ⟨⟨rfl, rfl⟩, length.trans length', ?_, ?_⟩
      · exact acceptAll_trans order params params' params'' low.2.1 middle.2.1 high.2.1 length
          length' accepts accepts'
      · exact compareWith_trans order result result' result'' low.2.2 middle.2.2 high.2.2 gives
          gives'
termination_by o p q => sizeOf o + sizeOf p + sizeOf q
decreasing_by
  all_goals
    subst_vars
    simp only [Overload.mk.sizeOf_spec]
    omega

theorem acceptAll_trans (order : t.ClassOrder fit values) (as bs cs : List Ty)
    (low : ∀ a ∈ as, a.Regular values) (middle : ∀ b ∈ bs, b.Regular values)
    (high : ∀ c ∈ cs, c.Regular values)
    (length : as.length = bs.length) (length' : bs.length = cs.length)
    (first : t.acceptAll fit as bs = .ok (.ok ()))
    (second : t.acceptAll fit bs cs = .ok (.ok ())) :
    t.acceptAll fit as cs = .ok (.ok ()) := by
  match as, bs, cs with
  | [], _, _ => rw [acceptAll]; nofun
  | a :: as, b :: bs, c :: cs =>
    obtain ⟨lower, lows⟩ := List.forall_mem_cons.mp low
    obtain ⟨between, middles⟩ := List.forall_mem_cons.mp middle
    obtain ⟨upper, highs⟩ := List.forall_mem_cons.mp high
    rw [acceptAll] at first second ⊢
    obtain ⟨head, tail⟩ := andThen_yes.mp first
    obtain ⟨head', tail'⟩ := andThen_yes.mp second
    refine andThen_yes.mpr ⟨?_, ?_⟩
    · exact compareWith_trans order c b a upper between lower head' head
    · exact acceptAll_trans order as bs cs lows middles highs (Nat.succ.inj length)
        (Nat.succ.inj length') tail tail'
termination_by sizeOf as + sizeOf bs + sizeOf cs
decreasing_by
  all_goals
    simp only [List.cons.sizeOf_spec]
    omega

end

end

/-! ## Classes as values -/

section

variable {compare : Ty → Ty → Except Fault Verdict} {actual : NameMap Ty}
  {expected : List (String × Ty)}

theorem fieldsFit_yes : fieldsFit compare actual expected = .ok (.ok ()) ↔
    ∀ entry ∈ expected, ∃ own, actual.find? entry.1 = some own ∧
      compare own entry.2 = .ok (.ok ()) := by
  induction expected with
  | nil => simp [fieldsFit]
  | cons entry rest ih =>
    obtain ⟨name, wanted⟩ := entry
    rw [fieldsFit, List.forall_mem_cons, ← ih]
    cases found : actual.find? name with
    | none => simp
    | some own =>
      refine andThen_yes.trans ?_
      simp

/-- Whether fields fit is decided if it is decided for each two of them. -/
theorem fieldsFit_decided (decided : ∀ own ∈ actual.entries, ∀ wanted ∈ expected,
    Decided (compare own.2 wanted.2)) : Decided (fieldsFit compare actual expected) := by
  induction expected with
  | nil => exact .inl rfl
  | cons entry rest ih =>
    obtain ⟨name, wanted⟩ := entry
    rw [fieldsFit]
    cases found : actual.find? name with
    | none => exact .inr rfl
    | some own =>
      have listed := NameMap.mem_of_lookup found
      refine Decided.andThen (decided _ listed _ List.mem_cons_self) (ih fun field held => ?_)
      exact fun wanted later => decided field held wanted (List.mem_cons_of_mem _ later)

end

variable {t : ClassTable}

/-- Two different classes are compared by their fields, one level deeper. -/
theorem satisfies_of_ne {a b : ClassId} {left right : Class} (differ : a ≠ b)
    (actual : t.get a = .ok left) (expected : t.get b = .ok right) :
    t.satisfies a b = fieldsFit (t.compareWith (t.classFits (t.classes.length * t.classes.length)))
      left.fields right.fields.entries := by
  rw [satisfies, depthLimit, classFits, if_neg differ, actual, expected, ok_bind, ok_bind]

/-- The fields of the class hold no tuples and no functions with type parameters. -/
def plainFields (t : ClassTable) (id : ClassId) : Bool :=
  match t.get id with
  | .ok c => c.fields.entries.all (·.2.plain)
  | .error _ => true

/-- Neither the type nor the fields of the classes that are values in it hold tuples or
functions with type parameters. -/
def comparable (t : ClassTable) (type : Ty) : Bool :=
  type.plain && type.mentions.all fun m => match m with
    | .value id => t.plainFields id
    | .object _ => true

/-- A type of the table's classes that comparisons do not stop at. -/
def Ordinary (t : ClassTable) (type : Ty) : Prop :=
  type.Known t.classes.length ∧ t.comparable type = true

def PlainClass (t : ClassTable) (id : ClassId) : Prop :=
  id < t.classes.length ∧ t.plainFields id = true

theorem ordinary_iff {type : Ty} :
    t.Ordinary type ↔ type.Known t.classes.length ∧ type.Regular t.PlainClass := by
  unfold Ordinary comparable Ty.Regular
  rw [Bool.and_eq_true, List.all_eq_true]
  constructor
  · rintro ⟨known, plain, open_⟩
    refine ⟨known, plain, fun m mentioned => ?_⟩
    have named := known m mentioned
    have fields := open_ m mentioned
    cases named with
    | object below => exact .object trivial
    | value below => exact .value ⟨below, fields⟩
  · rintro ⟨known, plain, regular⟩
    refine ⟨known, plain, fun m mentioned => ?_⟩
    cases regular m mentioned with
    | object => rfl
    | value allowed => exact allowed.2

theorem ordinary_instanceOf {id : ClassId} {name : String} (known : id < t.classes.length) :
    t.Ordinary (.instanceOf id name) := by
  refine ordinary_iff.mpr ⟨Ty.over_instanceOf.mpr known, rfl, ?_⟩
  exact Ty.over_instanceOf.mpr trivial

theorem Ordinary.of_append {os more : List Overload} (ordinary : t.Ordinary (.func (os ++ more))) :
    t.Ordinary (.func os) := by
  obtain ⟨known, regular⟩ := ordinary_iff.mp ordinary
  refine ordinary_iff.mpr ⟨Ty.over_func.mpr fun o listed => ?_,
    Ty.regular_func.mpr fun o listed => ?_⟩
  · exact Ty.over_func.mp known o (List.mem_append_left _ listed)
  · exact Ty.regular_func.mp regular o (List.mem_append_left _ listed)

/-- The fields of the class are plain and their classes are known. -/
def RegularClass (t : ClassTable) (id : ClassId) : Prop :=
  ∃ c, t.get id = .ok c ∧ ∀ entry ∈ c.fields.entries, entry.2.Regular fun _ => False

/-- Fitting is transitive where the table is, since each field that is wanted fits in between. -/
theorem satisfies_trans (transitive : t.Transitive) {a b c : ClassId} (low : t.RegularClass a)
    (middle : t.RegularClass b) (high : t.RegularClass c)
    (first : t.satisfies a b = .ok (.ok ())) (second : t.satisfies b c = .ok (.ok ())) :
    t.satisfies a c = .ok (.ok ()) := by
  by_cases start : a = b
  · exact start ▸ second
  by_cases finish : b = c
  · exact finish ▸ first
  by_cases around : a = c
  · subst around
    exact satisfies_self a
  obtain ⟨own, lowest, held⟩ := low
  obtain ⟨between, mid, given⟩ := middle
  obtain ⟨wanted, highest, asked⟩ := high
  rw [satisfies_of_ne start lowest mid] at first
  rw [satisfies_of_ne finish mid highest] at second
  rw [satisfies_of_ne around lowest highest]
  refine fieldsFit_yes.mpr fun entry needed => ?_
  obtain ⟨kept, found, upper⟩ := fieldsFit_yes.mp second entry needed
  have passed := NameMap.mem_of_lookup found
  obtain ⟨field, found', lower⟩ := fieldsFit_yes.mp first _ passed
  refine ⟨field, found', ?_⟩
  have order : t.ClassOrder (t.classFits (t.classes.length * t.classes.length)) fun _ => False :=
    ⟨transitive, fun _ _ impossible => impossible.elim, fun _ _ _ impossible => impossible.elim⟩
  exact compareWith_trans order field kept entry.2 (held _ (NameMap.mem_of_lookup found'))
    (given _ passed) (asked entry needed) lower upper

namespace Coherent

variable (coherent : t.Coherent)
include coherent

/-- The fields of a plain class are plain, and coherence has their classes known. -/
theorem plain_fields {id : ClassId} (plain : t.PlainClass id) : t.RegularClass id := by
  obtain ⟨c, got, limited⟩ := coherent.get_ok plain.1
  have each := plain.2
  rw [plainFields, got, List.all_eq_true] at each
  refine ⟨c, got, fun entry field => ⟨each entry field, ?_⟩⟩
  exact (limited.fields entry field).mono (fun _ _ => trivial) fun _ => False.elim

theorem satisfies_decided {a b : ClassId} (left : t.PlainClass a) (right : t.PlainClass b) :
    Decided (t.satisfies a b) := by
  by_cases same : a = b
  · subst same
    exact .inl (satisfies_self a)
  · obtain ⟨own, actual, held⟩ := coherent.plain_fields left
    obtain ⟨wanted, expected, asked⟩ := coherent.plain_fields right
    rw [satisfies_of_ne same actual expected]
    refine fieldsFit_decided fun field listed entry needed => ?_
    exact compareWith_decided (fun _ _ impossible => impossible.elim) _ _ (held field listed)
      (asked entry needed)

/-- The classes of a coherent table are in order if the table is transitive. -/
theorem classOrder (transitive : t.Transitive) : t.ClassOrder t.satisfies t.PlainClass where
  transitive := transitive
  decided _ _ := coherent.satisfies_decided
  chained _ _ _ low middle high := satisfies_trans transitive (coherent.plain_fields low)
    (coherent.plain_fields middle) (coherent.plain_fields high)

/-- In a coherent and transitive table, comparisons of ordinary types are transitive. -/
theorem compare_trans (transitive : t.Transitive) {a b c : Ty} (low : t.Ordinary a)
    (middle : t.Ordinary b) (high : t.Ordinary c) (first : t.compare a b = .ok (.ok ()))
    (second : t.compare b c = .ok (.ok ())) : t.compare a c = .ok (.ok ()) :=
  compareWith_trans (coherent.classOrder transitive) a b c (ordinary_iff.mp low).2
    (ordinary_iff.mp middle).2 (ordinary_iff.mp high).2 first second

/-- Types that are equal up to the names of class values stand for each other. -/
theorem compare_of_beq {a b : Ty} (left : t.Ordinary a) (right : t.Ordinary b)
    (same : a.beq b = true) :
    t.compare a b = .ok (.ok ()) ∧ t.compare b a = .ok (.ok ()) :=
  compareWith_of_beq (fun _ _ => coherent.satisfies_decided) (fun id _ => satisfies_self id) a b
    (ordinary_iff.mp left).2 (ordinary_iff.mp right).2 same

/-- A function with more overloads stands for one with fewer. -/
theorem compare_of_append {os more : List Overload} (ordinary : t.Ordinary (.func (os ++ more))) :
    t.compare (.func (os ++ more)) (.func os) = .ok (.ok ()) := by
  have regular := Ty.regular_func.mp (ordinary_iff.mp ordinary).2
  refine compareWith_yes.mpr (.func (serveAll_yes.mpr fun o listed => ?_))
  have member := List.mem_append_left more listed
  have decided (a b : ClassId) (left : t.PlainClass a) (right : t.PlainClass b) :=
    coherent.satisfies_decided left right
  refine serveOne_yes_of_mem (fun c candidate => ?_) member
    (serve_of_beq decided (fun id _ => satisfies_self id) o o (regular o member) (regular o member)
      (Overload.beq_refl o)).1
  exact serve_decided decided c o (regular c candidate) (regular o member)

end Coherent

/-! ## Joins go up -/

inductive JoinOutcome (t : ClassTable) (a b : Ty) : Ty → Prop where
  | right (fits : t.compare a b = .ok (.ok ())) : JoinOutcome t a b b
  | left (fits : t.compare b a = .ok (.ok ())) : JoinOutcome t a b a
  | common {m n name : String} {x y id : ClassId} {gs hs : List Ty}
      (actual : a = .object m (some x) gs) (other : b = .object n (some y) hs)
      (least : t.leastCommon? x y = some id) : JoinOutcome t a b (.instanceOf id name)

/-- What a join comes to: one of the two types, or an instance of their least common class. -/
theorem join_outcome {a b c : Ty} (joined : t.join a b = .ok (.ok c)) : t.JoinOutcome a b c := by
  unfold join at joined
  obtain ⟨up, climbed, answer⟩ := bind_eq_ok.mp joined
  rcases up with (_ | feature) | _
  · obtain ⟨down, descended, answer'⟩ := bind_eq_ok.mp answer
    rcases down with reason | _
    · clear joined answer
      simp only at answer'
      split at answer'
      · rename_i m x gs n y hs
        rcases x with _ | x
        · cases answer'
        rcases y with _ | y
        · cases answer'
        simp only [resolvedClass, ok_bind] at answer'
        cases least : t.leastCommon? x y with
        | none =>
          rw [least] at answer'
          cases answer'
        | some id =>
          rw [least] at answer'
          obtain ⟨type, object, answer''⟩ := bind_eq_ok.mp answer'
          obtain ⟨c, _, instance_⟩ := bind_eq_ok.mp object
          cases instance_
          cases answer''
          exact .common rfl rfl least
      · cases answer'
    · cases answer'
      exact .left descended
  · cases answer
  · cases answer
    exact .right climbed

theorem leastCommon?_isA {a b id : ClassId} (least : t.leastCommon? a b = some id) :
    t.isA a id = true ∧ t.isA b id = true := by
  have common := List.mem_filter.mp (List.mem_of_find?_eq_some least)
  exact ⟨(List.mem_filter.mp common.1).2, common.2⟩

/-- The join is above both. -/
theorem JoinOutcome.above {a b c : Ty} (outcome : t.JoinOutcome a b c) :
    (a = c ∨ t.compare a c = .ok (.ok ())) ∧ (b = c ∨ t.compare b c = .ok (.ok ())) := by
  cases outcome with
  | right fits => exact ⟨.inr fits, .inl rfl⟩
  | left fits => exact ⟨.inl rfl, .inr fits⟩
  | common actual other least =>
    subst actual other
    obtain ⟨here, there⟩ := leastCommon?_isA least
    exact ⟨.inr (compareWith_yes.mpr (.object here)), .inr (compareWith_yes.mpr (.object there))⟩

/-- An order among the types with the property `P` in which joins go up. -/
structure Rising (t : ClassTable) (P : Ty → Prop) (R : Ty → Ty → Prop) : Prop where
  refl : ∀ {a}, P a → R a a
  trans : ∀ {a b c}, P a → P b → P c → R a b → R b c → R a c
  join : ∀ {a b c}, P a → P b → t.join a b = .ok (.ok c) → P c ∧ R a c ∧ R b c

/-- A chain of steps each of which may be a comparison. -/
theorem chain_rising {step : Ty → Ty → Prop}
    (compared : ∀ a b, t.compare a b = .ok (.ok ()) → step a b) :
    t.Rising (fun _ => True) (Relation.ReflTransGen step) where
  refl _ := .refl
  trans _ _ _ first second := first.trans second
  join _ _ joined := by
    have reached {x y : Ty} (above : x = y ∨ t.compare x y = .ok (.ok ())) :
        Relation.ReflTransGen step x y := by
      rcases above with rfl | fits
      · exact .refl
      · exact .single (compared x y fits)
    obtain ⟨left, right⟩ := (join_outcome joined).above
    exact ⟨trivial, reached left, reached right⟩

/-- Where fitting is transitive, one comparison does. -/
theorem Coherent.compare_rising (coherent : t.Coherent) (transitive : t.Transitive) :
    t.Rising t.Ordinary fun a b => t.compare a b = .ok (.ok ()) where
  refl ordinary := (coherent.compare_of_beq ordinary ordinary (Ty.beq_refl _)).1
  trans low middle high := coherent.compare_trans transitive low middle high
  join := by
    intro a b c left right joined
    have outcome := join_outcome joined
    have ordinary : t.Ordinary c := by
      cases outcome with
      | right => exact right
      | left => exact left
      | common _ _ least => exact ordinary_instanceOf (coherent.leastCommon?_known least)
    have self := (coherent.compare_of_beq ordinary ordinary (Ty.beq_refl _)).1
    have reached {x : Ty} (above : x = c ∨ t.compare x c = .ok (.ok ())) :
        t.compare x c = .ok (.ok ()) := above.elim (fun same => same ▸ self) id
    exact ⟨ordinary, reached outcome.above.1, reached outcome.above.2⟩

end ClassTable

end ShapeLang
