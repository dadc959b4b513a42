import ShapeLang.ClassTable.Join
import ShapeLang.Proofs.Mentions
import ShapeLang.Proofs.NameMap

/-!
# Comparisons always end

Types of which every class is known can be compared: there is an answer, and it
depends only on how the classes that they mention relate.
-/

namespace ShapeLang

theorem ok_bind {α β : Type} (a : α) (f : α → Except Fault β) : (.ok a >>= f) = f a := rfl

theorem error_bind {α β : Type} (fault : Fault) (f : α → Except Fault β) :
    (.error fault >>= f) = .error fault := rfl

theorem bind_eq_ok {α β : Type} {x : Except Fault α} {f : α → Except Fault β} {b : β} :
    x >>= f = .ok b ↔ ∃ a, x = .ok a ∧ f a = .ok b := by
  cases x with
  | error fault => simp [error_bind]
  | ok a => simp [ok_bind]

namespace ClassTable

section

variable {t t' : ClassTable} {fit fit' : ClassId → ClassId → Except Fault Verdict}
  {objects values : ClassId → Prop}

mutual

/-- By induction on the types: a comparison ends without a fault if comparing the classes it
meets does. -/
theorem compareWith_total (fits : ∀ a b, values a → values b → ∃ verdict, fit a b = .ok verdict)
    (actual expected : Ty) (left : actual.Over objects values)
    (right : expected.Over objects values) :
    ∃ verdict, t.compareWith fit actual expected = .ok verdict := by
  rw [compareWith.eq_def]
  split
  · obtain ⟨⟨a, rfl, _⟩, _⟩ := Ty.over_object.mp left
    obtain ⟨⟨b, rfl, _⟩, _⟩ := Ty.over_object.mp right
    exact ⟨_, rfl⟩
  · exact fits _ _ (Ty.over_classValue.mp left) (Ty.over_classValue.mp right)
  · exact serveAll_total fits _ _ (Ty.over_func.mp left) (Ty.over_func.mp right)
  · rename_i a b
    obtain ⟨forth, there⟩ := compareWith_total fits a b left right
    obtain ⟨back, again⟩ := compareWith_total fits b a right left
    rw [there]
    cases forth with
    | ok => exact ⟨_, again⟩
    | error => exact ⟨_, rfl⟩
  · rename_i a b
    obtain ⟨forth, there⟩ := compareWith_total fits a b left right
    obtain ⟨back, again⟩ := compareWith_total fits b a right left
    rw [there]
    cases forth with
    | ok => exact ⟨_, again⟩
    | error => exact ⟨_, rfl⟩
  all_goals exact ⟨_, rfl⟩
termination_by sizeOf actual + sizeOf expected
decreasing_by
  all_goals
    subst_vars
    simp only [Ty.func.sizeOf_spec, Ty.array.sizeOf_spec, Ty.maybe.sizeOf_spec]
    omega

theorem serveAll_total (fits : ∀ a b, values a → values b → ∃ verdict, fit a b = .ok verdict)
    (candidates wanted : List Overload) (left : ∀ o ∈ candidates, o.Over objects values)
    (right : ∀ o ∈ wanted, o.Over objects values) :
    ∃ verdict, t.serveAll fit candidates wanted = .ok verdict := by
  cases wanted with
  | nil => exact ⟨_, by rw [serveAll]⟩
  | cons w ws =>
    obtain ⟨first, others⟩ := List.forall_mem_cons.mp right
    obtain ⟨verdict, served⟩ := serveOne_total fits candidates w left first
    obtain ⟨rest, all⟩ := serveAll_total fits candidates ws left others
    rw [serveAll, served]
    cases verdict with
    | ok => exact ⟨_, all⟩
    | error => exact ⟨_, rfl⟩
termination_by sizeOf candidates + sizeOf wanted
decreasing_by
  all_goals
    subst_vars
    simp only [List.cons.sizeOf_spec]
    omega

theorem serveOne_total (fits : ∀ a b, values a → values b → ∃ verdict, fit a b = .ok verdict)
    (candidates : List Overload) (wanted : Overload)
    (left : ∀ o ∈ candidates, o.Over objects values) (right : wanted.Over objects values) :
    ∃ verdict, t.serveOne fit candidates wanted = .ok verdict := by
  cases candidates with
  | nil => exact ⟨_, by rw [serveOne]⟩
  | cons c cs =>
    obtain ⟨first, others⟩ := List.forall_mem_cons.mp left
    obtain ⟨verdict, served⟩ := serve_total fits c wanted first right
    obtain ⟨rest, one⟩ := serveOne_total fits cs wanted others right
    rw [serveOne, served]
    cases verdict with
    | ok => exact ⟨_, rfl⟩
    | error reason =>
      cases reason with
      | incompatible => exact ⟨_, one⟩
      | unsupported => exact ⟨_, rfl⟩
termination_by sizeOf candidates + sizeOf wanted
decreasing_by
  all_goals
    subst_vars
    simp only [List.cons.sizeOf_spec]
    omega

theorem serve_total (fits : ∀ a b, values a → values b → ∃ verdict, fit a b = .ok verdict) :
    (candidate wanted : Overload) → candidate.Over objects values → wanted.Over objects values →
      ∃ verdict, t.serve fit candidate wanted = .ok verdict
  | ⟨generics, accepted, result⟩, ⟨wantedGenerics, passed, wantedResult⟩, left, right => by
      obtain ⟨verdict, taken⟩ := acceptAll_total fits accepted passed left.1 right.1
      obtain ⟨last, given⟩ := compareWith_total fits result wantedResult left.2 right.2
      rw [serve]
      split
      · exact ⟨_, rfl⟩
      · split
        · exact ⟨_, rfl⟩
        · rw [taken]
          cases verdict with
          | ok => exact ⟨_, given⟩
          | error => exact ⟨_, rfl⟩
termination_by candidate wanted => sizeOf candidate + sizeOf wanted
decreasing_by
  all_goals
    simp only [Overload.mk.sizeOf_spec]
    omega

/-- Argument lists can be compared if their types can, whether or not they are of one length. -/
theorem acceptAll_total (fits : ∀ a b, values a → values b → ∃ verdict, fit a b = .ok verdict)
    (accepted passed : List Ty) (left : ∀ type ∈ accepted, type.Over objects values)
    (right : ∀ type ∈ passed, type.Over objects values) :
    ∃ verdict, t.acceptAll fit accepted passed = .ok verdict := by
  rw [acceptAll.eq_def]
  split
  · rename_i a as p ps
    obtain ⟨head, heads⟩ := List.forall_mem_cons.mp left
    obtain ⟨tail, tails⟩ := List.forall_mem_cons.mp right
    obtain ⟨verdict, compared⟩ := compareWith_total fits p a tail head
    obtain ⟨rest, all⟩ := acceptAll_total fits as ps heads tails
    rw [compared]
    cases verdict with
    | ok => exact ⟨_, all⟩
    | error => exact ⟨_, rfl⟩
  · exact ⟨_, rfl⟩
termination_by sizeOf accepted + sizeOf passed
decreasing_by
  all_goals
    subst_vars
    simp only [List.cons.sizeOf_spec]
    omega

end

mutual

/-- The verdict on two types hangs on nothing but how the classes in them relate. -/
theorem compareWith_congr (related : ∀ a b, objects a → objects b → t.isA a b = t'.isA a b)
    (fits : ∀ a b, values a → values b → fit a b = fit' a b)
    (actual expected : Ty) (left : actual.Over objects values)
    (right : expected.Over objects values) :
    t.compareWith fit actual expected = t'.compareWith fit' actual expected := by
  rw [compareWith.eq_def t fit]
  split
  · obtain ⟨⟨a, rfl, known⟩, _⟩ := Ty.over_object.mp left
    obtain ⟨⟨b, rfl, known'⟩, _⟩ := Ty.over_object.mp right
    rw [compareWith]
    show Except.ok (if t.isA a b then _ else _) = .ok (if t'.isA a b then _ else _)
    rw [related a b known known']
  · rw [compareWith]
    exact fits _ _ (Ty.over_classValue.mp left) (Ty.over_classValue.mp right)
  · rw [compareWith]
    exact serveAll_congr related fits _ _ (Ty.over_func.mp left) (Ty.over_func.mp right)
  · rename_i a b
    rw [compareWith, compareWith_congr related fits a b left right,
      compareWith_congr related fits b a right left]
  · rename_i a b
    rw [compareWith, compareWith_congr related fits a b left right,
      compareWith_congr related fits b a right left]
  all_goals
    rw [compareWith]
    all_goals assumption
termination_by sizeOf actual + sizeOf expected
decreasing_by
  all_goals
    subst_vars
    simp only [Ty.func.sizeOf_spec, Ty.array.sizeOf_spec, Ty.maybe.sizeOf_spec]
    omega

theorem serveAll_congr (related : ∀ a b, objects a → objects b → t.isA a b = t'.isA a b)
    (fits : ∀ a b, values a → values b → fit a b = fit' a b)
    (candidates wanted : List Overload) (left : ∀ o ∈ candidates, o.Over objects values)
    (right : ∀ o ∈ wanted, o.Over objects values) :
    t.serveAll fit candidates wanted = t'.serveAll fit' candidates wanted := by
  cases wanted with
  | nil => rw [serveAll, serveAll]
  | cons w ws =>
    obtain ⟨first, others⟩ := List.forall_mem_cons.mp right
    rw [serveAll, serveAll, serveOne_congr related fits candidates w left first,
      serveAll_congr related fits candidates ws left others]
termination_by sizeOf candidates + sizeOf wanted
decreasing_by
  all_goals
    subst_vars
    simp only [List.cons.sizeOf_spec]
    omega

theorem serveOne_congr (related : ∀ a b, objects a → objects b → t.isA a b = t'.isA a b)
    (fits : ∀ a b, values a → values b → fit a b = fit' a b)
    (candidates : List Overload) (wanted : Overload)
    (left : ∀ o ∈ candidates, o.Over objects values) (right : wanted.Over objects values) :
    t.serveOne fit candidates wanted = t'.serveOne fit' candidates wanted := by
  cases candidates with
  | nil => rw [serveOne, serveOne]
  | cons c cs =>
    obtain ⟨first, others⟩ := List.forall_mem_cons.mp left
    rw [serveOne, serveOne, serve_congr related fits c wanted first right,
      serveOne_congr related fits cs wanted others right]
termination_by sizeOf candidates + sizeOf wanted
decreasing_by
  all_goals
    subst_vars
    simp only [List.cons.sizeOf_spec]
    omega

theorem serve_congr (related : ∀ a b, objects a → objects b → t.isA a b = t'.isA a b)
    (fits : ∀ a b, values a → values b → fit a b = fit' a b) :
    (candidate wanted : Overload) → candidate.Over objects values → wanted.Over objects values →
      t.serve fit candidate wanted = t'.serve fit' candidate wanted
  | ⟨generics, accepted, result⟩, ⟨wantedGenerics, passed, wantedResult⟩, left, right => by
      rw [serve, serve, acceptAll_congr related fits accepted passed left.1 right.1,
        compareWith_congr related fits result wantedResult left.2 right.2]
termination_by candidate wanted => sizeOf candidate + sizeOf wanted
decreasing_by
  all_goals
    simp only [Overload.mk.sizeOf_spec]
    omega

theorem acceptAll_congr (related : ∀ a b, objects a → objects b → t.isA a b = t'.isA a b)
    (fits : ∀ a b, values a → values b → fit a b = fit' a b)
    (accepted passed : List Ty) (left : ∀ type ∈ accepted, type.Over objects values)
    (right : ∀ type ∈ passed, type.Over objects values) :
    t.acceptAll fit accepted passed = t'.acceptAll fit' accepted passed := by
  rw [acceptAll.eq_def t fit]
  split
  · rename_i a as p ps
    obtain ⟨head, heads⟩ := List.forall_mem_cons.mp left
    obtain ⟨tail, tails⟩ := List.forall_mem_cons.mp right
    rw [acceptAll, compareWith_congr related fits p a tail head,
      acceptAll_congr related fits as ps heads tails]
  · rw [acceptAll]
    assumption
termination_by sizeOf accepted + sizeOf passed
decreasing_by
  all_goals
    subst_vars
    simp only [List.cons.sizeOf_spec]
    omega

end

end

/-! ## Classes by their fields -/

section

variable {objects : ClassId → Prop} {compare compare' : Ty → Ty → Except Fault Verdict}
  {actual : NameMap Ty} {expected : List (String × Ty)}

theorem fieldsFit_total
    (total : ∀ own wanted : Ty, own.Over objects (fun _ => False) →
      wanted.Over objects (fun _ => False) → ∃ verdict, compare own wanted = .ok verdict)
    (left : ∀ entry ∈ actual.entries, entry.2.Over objects fun _ => False)
    (right : ∀ entry ∈ expected, entry.2.Over objects fun _ => False) :
    ∃ verdict, fieldsFit compare actual expected = .ok verdict := by
  induction expected with
  | nil => exact ⟨_, rfl⟩
  | cons entry rest ih =>
    obtain ⟨name, wanted⟩ := entry
    obtain ⟨first, others⟩ := List.forall_mem_cons.mp right
    rw [fieldsFit]
    cases found : actual.find? name with
    | none => exact ⟨_, rfl⟩
    | some own =>
      obtain ⟨verdict, compared⟩ := total own wanted (left _ (NameMap.mem_of_lookup found)) first
      simp only [compared]
      cases verdict with
      | ok => exact ih others
      | error => exact ⟨_, rfl⟩

/-- The verdict on two classes' fields hangs on nothing but the comparison of the fields' types. -/
theorem fieldsFit_congr
    (same : ∀ own wanted : Ty, own.Over objects (fun _ => False) →
      wanted.Over objects (fun _ => False) → compare own wanted = compare' own wanted)
    (left : ∀ entry ∈ actual.entries, entry.2.Over objects fun _ => False)
    (right : ∀ entry ∈ expected, entry.2.Over objects fun _ => False) :
    fieldsFit compare actual expected = fieldsFit compare' actual expected := by
  induction expected with
  | nil => rfl
  | cons entry rest ih =>
    obtain ⟨name, wanted⟩ := entry
    obtain ⟨first, others⟩ := List.forall_mem_cons.mp right
    rw [fieldsFit, fieldsFit]
    cases found : actual.find? name with
    | none => rfl
    | some own =>
      simp only
      rw [same own wanted (left _ (NameMap.mem_of_lookup found)) first, ih others]

end

end ClassTable

/-- The fields of the class mention instances of allowed classes only. -/
def Class.FieldsOver (objects : ClassId → Prop) (c : Class) : Prop :=
  ∀ entry ∈ c.fields.entries, entry.2.Over objects fun _ => False

/-- The fields and constructors of the class mention instances of allowed classes only. -/
structure Class.Over (objects : ClassId → Prop) (c : Class) : Prop where
  fields : c.FieldsOver objects
  constructors : ∀ params ∈ c.constructors, ∀ p ∈ params, p.Over objects fun _ => False

theorem Class.Over.mono {objects objects' : ClassId → Prop} {c : Class} (limited : c.Over objects)
    (more : ∀ id, objects id → objects' id) : c.Over objects' where
  fields entry field := (limited.fields entry field).mono more fun _ => id
  constructors params listed p param :=
    (limited.constructors params listed p param).mono more fun _ => id

namespace ClassTable

variable {t t' : ClassTable} {objects : ClassId → Prop} {a b : ClassId}

/-- Since fields hold no class values, the depth to which these are followed does not
matter. -/
theorem satisfies_total_of_fields {left right : Class} (actual : t.get a = .ok left)
    (expected : t.get b = .ok right) (own : left.FieldsOver objects)
    (wanted : right.FieldsOver objects) : ∃ verdict, t.satisfies a b = .ok verdict := by
  rw [satisfies, depthLimit, classFits]
  split
  · exact ⟨_, rfl⟩
  · rw [actual, expected, ok_bind, ok_bind]
    exact fieldsFit_total (compareWith_total fun _ _ impossible => impossible.elim) own wanted

/-- Two classes of the table can be compared if it has all classes that their fields mention. -/
theorem satisfies_total {left right : Class} (actual : t.get a = .ok left)
    (expected : t.get b = .ok right) (own : left.Over objects) (wanted : right.Over objects) :
    ∃ verdict, t.satisfies a b = .ok verdict :=
  satisfies_total_of_fields actual expected own.fields wanted.fields

/-- How two classes relate depends on their fields and on how the classes mentioned there
relate. -/
theorem satisfies_congr_of_fields
    (related : ∀ x y, objects x → objects y → t.isA x y = t'.isA x y)
    (actual : t.get a = t'.get a) (expected : t.get b = t'.get b)
    (own : ∀ c, t.get a = .ok c → c.FieldsOver objects)
    (wanted : ∀ c, t.get b = .ok c → c.FieldsOver objects) :
    t.satisfies a b = t'.satisfies a b := by
  rw [satisfies, satisfies, depthLimit, depthLimit, classFits, classFits, ← actual, ← expected]
  split
  · rfl
  · cases left : t.get a with
    | error fault => rw [error_bind, error_bind]
    | ok left' =>
      cases right : t.get b with
      | error fault => simp only [ok_bind, error_bind]
      | ok right' =>
        simp only [ok_bind]
        exact fieldsFit_congr (compareWith_congr related fun _ _ impossible => impossible.elim)
          (own left' left) (wanted right' right)

/-- The verdict on two classes hangs on nothing but their fields and how the classes mentioned
there relate. -/
theorem satisfies_congr (related : ∀ x y, objects x → objects y → t.isA x y = t'.isA x y)
    (actual : t.get a = t'.get a) (expected : t.get b = t'.get b)
    (own : ∀ c, t.get a = .ok c → c.Over objects)
    (wanted : ∀ c, t.get b = .ok c → c.Over objects) : t.satisfies a b = t'.satisfies a b :=
  satisfies_congr_of_fields related actual expected (fun c got => (own c got).fields)
    fun c got => (wanted c got).fields

theorem satisfies_self (id : ClassId) : t.satisfies id id = .ok (.ok ()) := by
  rw [satisfies, depthLimit, classFits, if_pos rfl]

end ClassTable

end ShapeLang
