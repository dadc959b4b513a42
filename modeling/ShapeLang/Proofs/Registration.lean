import ShapeLang.Proofs.Coherence
import ShapeLang.Proofs.Hierarchy

/-!
# The order of registration

Classes that are declared and complete can be registered in any order in which each
comes after the classes that its fields mention. What is kept about them is then the
verdict on their fields, and does not depend on the order. A builtin class mentions
itself, so that these are registered first.
-/

namespace ShapeLang

namespace ClassTable

variable {t t' t₁ t₂ : ClassTable} {id : ClassId} {order : List ClassId}

def registerAll (t : ClassTable) (order : List ClassId) : Except Fault ClassTable :=
  order.foldlM register t

/-- The fields of the registered classes mention registered classes only. -/
def Closed (t : ClassTable) : Prop :=
  ∀ id ∈ t.registered, ∃ c, t.get id = .ok c ∧ c.FieldsOver (· ∈ t.registered)

/-- Each class comes once and after the classes that its fields mention. -/
def InOrder (t : ClassTable) (order : List ClassId) : Prop :=
  ∀ before id after, order = before ++ id :: after → id ∉ t.registered ++ before ∧
    ∃ c, t.get id = .ok c ∧ c.FieldsOver (· ∈ t.registered ++ before)

/-- What is kept about the registered classes is the verdict on their fields. -/
structure Settled (t : ClassTable) : Prop where
  closed : t.Closed
  fits : ∀ pair ∈ t.fits, pair.1 ∈ t.registered ∧ pair.2 ∈ t.registered
  answers : ∀ a ∈ t.registered, ∀ b ∈ t.registered,
    (t.isA a b = true ↔ t.satisfies a b = .ok (.ok ()))

/-- The class and those registered before it mention the latter only. -/
theorem Closed.fields_over (closed : t.Closed) {c : Class} (got : t.get id = .ok c)
    (ready : c.FieldsOver (· ∈ t.registered)) {other : ClassId}
    (listed : other ∈ t.registered ++ [id]) :
    ∃ found, t.get other = .ok found ∧ found.FieldsOver (· ∈ t.registered) := by
  rcases List.mem_append.mp listed with old | last
  · exact closed other old
  · obtain rfl := List.mem_singleton.mp last
    exact ⟨c, got, ready⟩

/-- A class whose fields mention registered classes can be registered next. -/
theorem Closed.next (closed : t.Closed) {c : Class} (got : t.get id = .ok c)
    (ready : c.FieldsOver (· ∈ t.registered)) (classes : t'.classes = t.classes)
    (registered : t'.registered = t.registered ++ [id]) : t'.Closed := by
  intro other listed
  rw [registered] at listed
  obtain ⟨found, got', limited⟩ := closed.fields_over got ready listed
  unfold ClassTable.get at got' ⊢
  rw [classes, registered]
  refine ⟨found, got', fun entry field => (limited entry field).mono ?_ fun _ => False.elim⟩
  exact fun _ => List.mem_append_left _

theorem get_prolonged (classes : t.classes <+: t'.classes) {c : Class} (got : t.get id = .ok c) :
    t'.get id = .ok c := by
  obtain ⟨more, same⟩ := classes
  rw [get_eq_ok] at got ⊢
  have known : id < t.classes.length := (List.getElem?_eq_some_iff.mp got).1
  rw [← same, List.getElem?_append_left known, got]

/-- The verdict on two classes, if the tables agree on what their fields mention. -/
theorem satisfies_agree {objects : ClassId → Prop} {a b : ClassId}
    (related : ∀ x y, objects x → objects y → t.isA x y = t'.isA x y)
    (classes : t.classes <+: t'.classes) (own : ∃ c, t.get a = .ok c ∧ c.FieldsOver objects)
    (wanted : ∃ c, t.get b = .ok c ∧ c.FieldsOver objects) :
    t.satisfies a b = t'.satisfies a b := by
  obtain ⟨left, gotLeft, limited⟩ := own
  obtain ⟨right, gotRight, limited'⟩ := wanted
  refine satisfies_congr_of_fields related (gotLeft.trans (get_prolonged classes gotLeft).symm)
    (gotRight.trans (get_prolonged classes gotRight).symm) (fun c got => ?_) fun c got => ?_
  · cases gotLeft.symm.trans got
    exact limited
  · cases gotRight.symm.trans got
    exact limited'

theorem InOrder.first (ordered : t.InOrder (id :: order)) :
    id ∉ t.registered ∧ ∃ c, t.get id = .ok c ∧ c.FieldsOver (· ∈ t.registered) := by
  have here := ordered [] id order rfl
  simpa using here

theorem InOrder.rest (ordered : t.InOrder (id :: order)) (classes : t'.classes = t.classes)
    (registered : t'.registered = t.registered ++ [id]) : t'.InOrder order := by
  intro before other after split
  have later := ordered (id :: before) other after (by rw [split, List.cons_append])
  have same : t'.registered ++ before = t.registered ++ id :: before := by
    rw [registered, List.append_assoc, List.singleton_append]
  unfold ClassTable.get at later ⊢
  rw [same, classes]
  exact later

theorem inOrder_nil : t.InOrder [] := by
  intro before id after split
  simp at split

theorem inOrder_cons : t.InOrder (id :: order) ↔ id ∉ t.registered ∧
    (∃ c, t.get id = .ok c ∧ c.FieldsOver (· ∈ t.registered)) ∧
      InOrder { t with registered := t.registered ++ [id] } order := by
  constructor
  · intro ordered
    exact ⟨ordered.first.1, ordered.first.2, ordered.rest rfl rfl⟩
  · rintro ⟨new, ready, rest⟩ before other after split
    cases before with
    | nil =>
      cases split
      simpa using ⟨new, ready⟩
    | cons first before =>
      cases split
      have later := rest before other after rfl
      have same : (t.registered ++ [id]) ++ before = t.registered ++ id :: before := by simp
      rw [same] at later
      exact later

instance (c : Class) (objects : ClassId → Prop) [DecidablePred objects] :
    Decidable (c.FieldsOver objects) :=
  inferInstanceAs (Decidable (∀ entry ∈ c.fields.entries, ∀ m ∈ entry.2.mentions,
    m.Over objects fun _ => False))

theorem exists_ok_iff {P : Class → Prop} {c : Class} :
    P c ↔ ∃ found, (.ok c : Except Fault Class) = .ok found ∧ P found := by
  simp

theorem not_exists_ok {P : Class → Prop} {fault : Fault} :
    ¬∃ found, (.error fault : Except Fault Class) = .ok found ∧ P found := by
  simp

instance (P : Class → Prop) [DecidablePred P] (x : Except Fault Class) :
    Decidable (∃ c, x = .ok c ∧ P c) :=
  match x with
  | .ok _ => decidable_of_iff _ exists_ok_iff
  | .error _ => isFalse not_exists_ok

instance decidableInOrder (t : ClassTable) : (order : List ClassId) → Decidable (t.InOrder order)
  | [] => isTrue inOrder_nil
  | id :: order =>
      have := decidableInOrder { t with registered := t.registered ++ [id] } order
      decidable_of_iff _ inOrder_cons.symm

/-! ## One class -/

/-- The table with the class registered and with what is then known about it. -/
def enrol (t : ClassTable) (id : ClassId) (fits : List (ClassId × ClassId)) : ClassTable :=
  { t with registered := t.registered ++ [id], fits := t.fits ++ fits }

/-- The pairs are those that the class forms with the classes registered before it. -/
def Paired (t : ClassTable) (id : ClassId) (fits : List (ClassId × ClassId)) : Prop :=
  ∀ pair, pair ∈ fits ↔ ∃ other ∈ t.registered,
    (pair = (id, other) ∧ t.satisfies id other = .ok (.ok ())) ∨
      (pair = (other, id) ∧ t.satisfies other id = .ok (.ok ()))

namespace Settled

variable {c : Class} {fits : List (ClassId × ClassId)} {a b : ClassId} (settled : t.Settled)
include settled

/-- A class whose fields mention registered classes only can be registered. -/
theorem register_ok (new : id ∉ t.registered) (got : t.get id = .ok c)
    (ready : c.FieldsOver (· ∈ t.registered)) :
    ∃ fits, t.register id = .ok (t.enrol id fits) ∧ t.Paired id fits := by
  have up (other : ClassId) (listed : other ∈ t.registered) :
      ∃ verdict, t.satisfies id other = .ok verdict := by
    obtain ⟨found, got', limited⟩ := settled.closed other listed
    exact satisfies_total_of_fields got got' ready limited
  have down (other : ClassId) (listed : other ∈ t.registered) :
      ∃ verdict, t.satisfies other id = .ok verdict := by
    obtain ⟨found, got', limited⟩ := settled.closed other listed
    exact satisfies_total_of_fields got' got limited ready
  obtain ⟨fits, ran, mem⟩ := newFits_ok up down
  refine ⟨fits, ?_, mem⟩
  have absent : t.registered.contains id = false := by simpa using new
  rw [register, absent, if_neg Bool.false_ne_true, ran]
  rfl

variable (new : id ∉ t.registered) (paired : t.Paired id fits)
include new paired

omit settled in
theorem isA_enrol_old (left : a ∈ t.registered) (right : b ∈ t.registered) :
    (t.enrol id fits).isA a b = t.isA a b := by
  rw [Bool.eq_iff_iff, isA_iff, isA_iff]
  refine or_congr .rfl ?_
  simp only [enrol, List.mem_append]
  refine or_iff_left fun listed => ?_
  obtain ⟨other, _, ⟨same, _⟩ | ⟨same, _⟩⟩ := (paired _).mp listed
  · cases same
    exact new left
  · cases same
    exact new right

/-- The class fits a registered one if the comparison at its registration said so. -/
theorem isA_enrol_left (old : b ∈ t.registered) :
    (t.enrol id fits).isA id b = true ↔ t.satisfies id b = .ok (.ok ()) := by
  have apart : id ≠ b := fun same => new (same ▸ old)
  rw [isA_iff, or_iff_right apart]
  simp only [enrol, List.mem_append]
  rw [or_iff_right fun kept => new (settled.fits _ kept).1, paired]
  constructor
  · rintro ⟨other, _, ⟨same, fits⟩ | ⟨same, _⟩⟩
    · cases same
      exact fits
    · cases same
      exact absurd rfl apart
  · intro fits
    exact ⟨b, old, .inl ⟨rfl, fits⟩⟩

/-- A registered class fits the class if the comparison at its registration said so. -/
theorem isA_enrol_right (old : a ∈ t.registered) :
    (t.enrol id fits).isA a id = true ↔ t.satisfies a id = .ok (.ok ()) := by
  have apart : a ≠ id := fun same => new (same ▸ old)
  rw [isA_iff, or_iff_right apart]
  simp only [enrol, List.mem_append]
  rw [or_iff_right fun kept => new (settled.fits _ kept).2, paired]
  constructor
  · rintro ⟨other, _, ⟨same, _⟩ | ⟨same, fits⟩⟩
    · cases same
      exact absurd rfl apart
    · cases same
      exact fits
  · intro fits
    exact ⟨a, old, .inr ⟨rfl, fits⟩⟩

/-- Among the registered classes and the new one, the table says what a comparison says. -/
theorem isA_enrol (left : a ∈ t.registered ++ [id]) (right : b ∈ t.registered ++ [id]) :
    (t.enrol id fits).isA a b = true ↔ t.satisfies a b = .ok (.ok ()) := by
  rcases List.mem_append.mp left with old | last
  · rcases List.mem_append.mp right with old' | last'
    · rw [isA_enrol_old new paired old old']
      exact settled.answers a old b old'
    · obtain rfl := List.mem_singleton.mp last'
      exact settled.isA_enrol_right new paired old
  · obtain rfl := List.mem_singleton.mp last
    rcases List.mem_append.mp right with old' | last'
    · exact settled.isA_enrol_left new paired old'
    · obtain rfl := List.mem_singleton.mp last'
      rw [satisfies_self, isA_iff]
      simp

variable (got : t.get id = .ok c) (ready : c.FieldsOver (· ∈ t.registered))
include got ready

/-- The verdict on the fields is the same before the class is registered and after. -/
theorem satisfies_enrol (left : a ∈ t.registered ++ [id]) (right : b ∈ t.registered ++ [id]) :
    t.satisfies a b = (t.enrol id fits).satisfies a b := by
  refine satisfies_agree (fun x y known known' => ?_) List.prefix_rfl
    (settled.closed.fields_over got ready left) (settled.closed.fields_over got ready right)
  exact (isA_enrol_old new paired known known').symm

/-- A settled table is settled with one class more. -/
theorem enrol : (t.enrol id fits).Settled where
  closed := settled.closed.next got ready rfl rfl
  fits pair kept := by
    have last : id ∈ t.registered ++ [id] := List.mem_append_right _ (List.mem_singleton_self id)
    rcases List.mem_append.mp kept with old | added
    · obtain ⟨left, right⟩ := settled.fits pair old
      exact ⟨List.mem_append_left _ left, List.mem_append_left _ right⟩
    · obtain ⟨other, listed, ⟨rfl, _⟩ | ⟨rfl, _⟩⟩ := (paired pair).mp added
      · exact ⟨last, List.mem_append_left _ listed⟩
      · exact ⟨List.mem_append_left _ listed, last⟩
  answers a left b right := by
    rw [← settled.satisfies_enrol new paired got ready left right]
    exact settled.isA_enrol new paired left right

end Settled

/-! ## All classes -/

/-- Whatever the order, what is kept in the end is the verdict on the fields. -/
theorem Settled.registerAll (settled : t.Settled) (ordered : t.InOrder order) :
    ∃ t', t.registerAll order = .ok t' ∧ t'.Settled ∧ t'.classes = t.classes ∧
      t'.registered = t.registered ++ order ∧
      ∀ a ∈ t.registered, ∀ b ∈ t.registered, t'.isA a b = t.isA a b := by
  induction order generalizing t with
  | nil => exact ⟨t, rfl, settled, rfl, by simp, fun _ _ _ _ => rfl⟩
  | cons id order ih =>
    obtain ⟨new, c, got, ready⟩ := ordered.first
    obtain ⟨fits, ran, paired⟩ := settled.register_ok new got ready
    have next := settled.enrol new paired got ready
    obtain ⟨t', rest, settled', classes, registered, kept⟩ := ih next (ordered.rest rfl rfl)
    refine ⟨t', ?_, settled', classes, ?_, fun a left b right => ?_⟩
    · rw [ClassTable.registerAll, List.foldlM_cons, ran]
      exact rest
    · rw [registered, ClassTable.enrol, List.append_assoc, List.singleton_append]
    · rw [kept a (List.mem_append_left _ left) b (List.mem_append_left _ right)]
      exact isA_enrol_old new paired left right

/-- Two tables that keep the verdicts on the same fields, and agree on the classes registered
before, agree on all classes of an order. -/
theorem Settled.agree (settled₁ : t₁.Settled) (settled₂ : t₂.Settled)
    (classes₁ : t₁.classes = t.classes) (classes₂ : t₂.classes = t.classes) (closed : t.Closed)
    (ordered : t.InOrder order) (all₁ : ∀ id ∈ t.registered ++ order, id ∈ t₁.registered)
    (all₂ : ∀ id ∈ t.registered ++ order, id ∈ t₂.registered)
    (before : ∀ a ∈ t.registered, ∀ b ∈ t.registered, t₁.isA a b = t₂.isA a b) :
    ∀ a ∈ t.registered ++ order, ∀ b ∈ t.registered ++ order, t₁.isA a b = t₂.isA a b := by
  induction order generalizing t with
  | nil => simpa using before
  | cons id order ih =>
    obtain ⟨_, c, got, ready⟩ := ordered.first
    have split : t.registered ++ id :: order = (t.registered ++ [id]) ++ order := by simp
    rw [split] at all₁ all₂ ⊢
    have next : ClassTable.Closed { t with registered := t.registered ++ [id] } :=
      closed.next got ready rfl rfl
    refine ih (t := { t with registered := t.registered ++ [id] }) classes₁ classes₂ next
      (ordered.rest rfl rfl) all₁ all₂ fun a left b right => ?_
    have fields (other : ClassId) (listed : other ∈ t.registered ++ [id]) :
        ∃ found, t₁.get other = .ok found ∧ found.FieldsOver (· ∈ t.registered) := by
      rw [ClassTable.get, classes₁]
      exact closed.fields_over got ready listed
    have same : t₁.satisfies a b = t₂.satisfies a b :=
      satisfies_agree (fun x y known known' => before x known y known')
        (classes₁.trans classes₂.symm ▸ List.prefix_rfl) (fields a left) (fields b right)
    have in₁ (other : ClassId) (listed : other ∈ t.registered ++ [id]) : other ∈ t₁.registered :=
      all₁ other (List.mem_append_left _ listed)
    have in₂ (other : ClassId) (listed : other ∈ t.registered ++ [id]) : other ∈ t₂.registered :=
      all₂ other (List.mem_append_left _ listed)
    rw [Bool.eq_iff_iff, settled₁.answers a (in₁ a left) b (in₁ b right), same,
      settled₂.answers a (in₂ a left) b (in₂ b right)]

/-! ## Where registration starts -/

/-- Classes may be declared that are not registered yet. -/
theorem Settled.grow (settled : t.Settled) (classes : t.classes <+: t'.classes)
    (registered : t'.registered = t.registered) (fits : t'.fits = t.fits) : t'.Settled := by
  have isA (a b : ClassId) : t.isA a b = t'.isA a b := by
    rw [ClassTable.isA, ← fits]
    rfl
  refine ⟨?_, ?_, ?_⟩
  · intro id listed
    rw [registered] at listed ⊢
    obtain ⟨c, got, limited⟩ := settled.closed id listed
    exact ⟨c, get_prolonged classes got, limited⟩
  · rw [registered, fits]
    exact settled.fits
  · intro a left b right
    rw [registered] at left right
    have same : t.satisfies a b = t'.satisfies a b :=
      satisfies_agree (fun x y _ _ => isA x y) classes (settled.closed a left)
        (settled.closed b right)
    rw [← isA, ← same]
    exact settled.answers a left b right

theorem Basic.settled (basic : t.Basic) : t.Settled := by
  obtain ⟨size, registered, fits, _, classes, apart⟩ := basic
  have known (id : ClassId) (listed : id ∈ t.registered) : id < 4 := by
    rw [registered] at listed
    exact List.mem_range.mp listed
  refine ⟨?_, by simp [fits], ?_⟩
  · intro id listed
    have below : id < t.classes.length := by
      rw [size]
      exact known id listed
    refine ⟨t.classes[id], get_eq_ok.mpr (List.getElem?_eq_getElem below), ?_⟩
    intro entry field
    have builtin := (classes _ (List.getElem_mem below)).2 entry field
    refine Ty.Over.mono builtin (fun other mentioned => ?_) fun _ => False.elim
    rw [registered, List.mem_range]
    exact Nat.lt_succ_of_le mentioned
  · intro a left b right
    constructor
    · intro related
      obtain rfl : a = b := by simpa [isA_iff, fits] using related
      exact satisfies_self a
    · intro satisfied
      by_cases same : a = b
      · simp [isA_iff, same]
      · have refused := apart a (known a left) b (known b right) same
        simp [satisfied, Except.toOption] at refused

/-- Nothing is registered yet, or the builtin classes only. -/
inductive Unregistered (t : ClassTable) : Prop where
  | bare (registered : t.registered = []) (fits : t.fits = [])
  | builtins {b : Builtins} {t₀ : ClassTable} (added : addBuiltins {} = .ok (b, t₀))
      (classes : t₀.classes <+: t.classes) (registered : t.registered = t₀.registered)
      (fits : t.fits = t₀.fits)

/-- Where registration starts, the table is settled. -/
theorem Unregistered.settled (start : t.Unregistered) : t.Settled := by
  cases start with
  | bare registered fits =>
    exact ⟨by simp [Closed, registered], by simp [fits], by simp [registered]⟩
  | builtins added classes registered fits =>
    have computed := addBuiltins_basic
    rw [added] at computed
    obtain ⟨_, basic⟩ := of_decide_eq_true computed
    exact (Basic.settled basic).grow classes registered fits

/-- However the classes are ordered, as long as each comes after those that its fields mention,
one fits another exactly if the verdict on their fields says so, and how they relate does not
depend on the order. -/
theorem order_irrelevant (start : t.Unregistered) (ordered : t.InOrder order) :
    ∃ t', t.registerAll order = .ok t' ∧ t'.registered = t.registered ++ order ∧
      (∀ a ∈ t'.registered, ∀ b ∈ t'.registered, ∃ verdict,
        t'.satisfies a b = .ok verdict ∧ t'.isA a b = verdict.isOk) ∧
      ∀ other : List ClassId, (∀ id, id ∈ other ↔ id ∈ order) → t.InOrder other →
        ∃ t'', t.registerAll other = .ok t'' ∧ ∀ a b, t''.isA a b = t'.isA a b := by
  have settled := start.settled
  obtain ⟨t', ran, settled', classes, registered, kept⟩ := settled.registerAll ordered
  refine ⟨t', ran, registered, fun a left b right => ?_, fun other members ordered' => ?_⟩
  · obtain ⟨own, actual, ownOver⟩ := settled'.closed a left
    obtain ⟨wanted, expected, wantedOver⟩ := settled'.closed b right
    obtain ⟨verdict, given⟩ := satisfies_total_of_fields actual expected ownOver wantedOver
    refine ⟨verdict, given, ?_⟩
    rw [Bool.eq_iff_iff, settled'.answers a left b right, given, Verdict.isOk_iff]
    simp
  · obtain ⟨t'', ran', settled'', classes', registered', kept'⟩ := settled.registerAll ordered'
    refine ⟨t'', ran', fun a b => ?_⟩
    have same (id : ClassId) : id ∈ t''.registered ↔ id ∈ t'.registered := by
      rw [registered, registered', List.mem_append, List.mem_append, members]
    by_cases both : a ∈ t'.registered ∧ b ∈ t'.registered
    · rw [registered] at both
      refine settled''.agree settled' classes' classes settled.closed ordered (fun id listed => ?_)
        (fun id listed => registered ▸ listed) (fun x left y right => ?_) a both.1 b both.2
      · rw [same, registered]
        exact listed
      · rw [kept x left y right, kept' x left y right]
    · have only (t₁ : ClassTable) (settled₁ : t₁.Settled)
          (members₁ : ∀ id, id ∈ t₁.registered ↔ id ∈ t'.registered) :
          t₁.isA a b = true ↔ a = b := by
        rw [isA_iff, or_iff_left]
        intro listed
        obtain ⟨left, right⟩ := settled₁.fits _ listed
        exact both ⟨(members₁ a).mp left, (members₁ b).mp right⟩
      rw [Bool.eq_iff_iff, only t'' settled'' same, only t' settled' fun _ => .rfl]

/-- Five classes; the last fits the fourth because the third, which it need not know, fits the
second. -/
def sample : ClassTable :=
  let function (param result : Ty) : Ty := .func [⟨[], [param], result⟩]
  let point : Ty := .instanceOf 1 "Point"
  { classes := [
      ⟨"Empty", [], .empty⟩,
      ⟨"Point", [], .insert .empty "x" (.instanceOf 0 "Empty")⟩,
      ⟨"Pair", [], .insert (.insert .empty "x" (.instanceOf 0 "Empty")) "y" point⟩,
      ⟨"Narrow", [], .insert .empty "f" (function (.instanceOf 2 "Pair") point)⟩,
      ⟨"Wide", [], .insert .empty "f" (function point point)⟩] }

/-- The last class may be registered before the third or after it. -/
theorem order_irrelevant_sample : ∃ t t', sample.registerAll [0, 1, 2, 3, 4] = .ok t ∧
    sample.registerAll [0, 1, 4, 2, 3] = .ok t' ∧ (∀ a b, t'.isA a b = t.isA a b) ∧
    t'.isA 4 3 = true ∧ t'.satisfies 4 3 = .ok (.ok ()) ∧ t'.isA 3 4 = false := by
  have ordered : sample.InOrder [0, 1, 2, 3, 4] := by decide +kernel
  have ordered' : sample.InOrder [0, 1, 4, 2, 3] := by decide +kernel
  obtain ⟨t, ran, _, _, same⟩ := order_irrelevant (.bare rfl rfl) ordered
  obtain ⟨t', ran', registered, answers, _⟩ := order_irrelevant (.bare rfl rfl) ordered'
  obtain ⟨_, again, related⟩ := same [0, 1, 4, 2, 3] (fun id => by grind) ordered'
  cases ran'.symm.trans again
  have computed : ((sample.registerAll [0, 1, 4, 2, 3]).toOption.any fun t =>
      t.isA 4 3 && !t.isA 3 4) = true := by decide +kernel
  rw [ran'] at computed
  simp only [Except.toOption, Option.any_some, Bool.and_eq_true, Bool.not_eq_true'] at computed
  obtain ⟨verdict, satisfied, fits⟩ := answers 4 (by simp [registered]) 3 (by simp [registered])
  rw [computed.1] at fits
  rw [(Verdict.isOk_iff verdict).mp fits.symm] at satisfied
  exact ⟨t, t', ran, ran', related, computed.1, satisfied, computed.2⟩

end ClassTable

end ShapeLang
