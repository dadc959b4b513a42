import ShapeLang.Builtin
import ShapeLang.Proofs.Comparison

/-!
# Coherent class tables

A table is coherent if its classes mention only classes of the table, none but
builtin classes from further down, and if what it keeps about which class fits
which is what a comparison of their fields comes to. Of two classes the later one
decides when they were compared: nothing was known about it then, except that it
is itself.
-/

namespace ShapeLang

namespace ClassTable

variable {t : ClassTable}

/-- The table that has forgotten how the class relates to others. -/
def without (t : ClassTable) (id : ClassId) : ClassTable :=
  { t with fits := t.fits.filter fun pair => pair.1 != id && pair.2 != id }

theorem isA_iff {a b : ClassId} : t.isA a b = true ↔ a = b ∨ (a, b) ∈ t.fits := by
  simp [isA]

theorem isA_without {id a b : ClassId} (left : a ≠ id) (right : b ≠ id) :
    (t.without id).isA a b = t.isA a b := by
  rw [Bool.eq_iff_iff, isA_iff, isA_iff]
  simp [without, left, right]

theorem isA_without_left {id b : ClassId} : (t.without id).isA id b = true ↔ id = b := by
  simp [isA_iff, without]

theorem isA_without_right {id a : ClassId} : (t.without id).isA a id = true ↔ a = id := by
  simp [isA_iff, without]

theorem get_eq_ok {id : ClassId} {c : Class} : t.get id = .ok c ↔ t.classes[id]? = some c := by
  unfold get
  split
  · rename_i found
    simp [found]
  · rename_i found
    simp [found]

structure Coherent (t : ClassTable) : Prop where
  builtins : 4 ≤ t.classes.length
  registered : t.registered = List.range t.classes.length
  ids : ∀ name id, t.ids.find? name = some id → id < t.classes.length
  mentions : ∀ id c, t.get id = .ok c → c.Over (· ≤ max id 3)
  fits : ∀ pair ∈ t.fits, pair.1 < t.classes.length ∧ pair.2 < t.classes.length ∧
    (3 < pair.1 ∨ 3 < pair.2)
  answers : ∀ a b, a < t.classes.length → b < t.classes.length →
    (t.isA a b = true ↔ (t.without (max a b)).satisfies a b = .ok (.ok ()))

namespace Coherent

theorem below (coherent : t.Coherent) {id other : ClassId} (known : id < t.classes.length)
    (mentioned : other ≤ max id 3) : other < t.classes.length :=
  Nat.lt_of_le_of_lt mentioned (Nat.max_lt.mpr ⟨known, coherent.builtins⟩)

/-- What a class of a coherent table mentions are classes of the table. -/
theorem get_ok (coherent : t.Coherent) {id : ClassId} (known : id < t.classes.length) :
    ∃ c, t.get id = .ok c ∧ c.Over (· < t.classes.length) := by
  have found : t.get id = .ok t.classes[id] :=
    get_eq_ok.mpr (List.getElem?_eq_getElem known)
  exact ⟨_, found, (coherent.mentions id _ found).mono fun _ => coherent.below known⟩

/-- In a coherent table two classes can be compared. -/
theorem satisfies_ok (coherent : t.Coherent) {a b : ClassId} (left : a < t.classes.length)
    (right : b < t.classes.length) : ∃ verdict, t.satisfies a b = .ok verdict := by
  obtain ⟨own, actual, ownOver⟩ := coherent.get_ok left
  obtain ⟨wanted, expected, wantedOver⟩ := coherent.get_ok right
  exact satisfies_total actual expected ownOver wantedOver

end Coherent

/-- The new pairs are those of the class and another one that fit when they are compared. -/
theorem newFits_ok {id : ClassId} {others : List ClassId}
    (up : ∀ other ∈ others, ∃ verdict, t.satisfies id other = .ok verdict)
    (down : ∀ other ∈ others, ∃ verdict, t.satisfies other id = .ok verdict) :
    ∃ fits, t.newFits id others = .ok fits ∧ ∀ pair, pair ∈ fits ↔ ∃ other ∈ others,
      (pair = (id, other) ∧ t.satisfies id other = .ok (.ok ())) ∨
        (pair = (other, id) ∧ t.satisfies other id = .ok (.ok ())) := by
  induction others with
  | nil => exact ⟨[], rfl, by simp⟩
  | cons other others ih =>
    obtain ⟨⟨above, climbed⟩, ups⟩ := List.forall_mem_cons.mp up
    obtain ⟨⟨below, descended⟩, downs⟩ := List.forall_mem_cons.mp down
    obtain ⟨rest, ran, mem⟩ := ih ups downs
    refine ⟨_, by rw [newFits, climbed, descended, ran]; rfl, fun pair => ?_⟩
    simp only [List.mem_append, mem, List.mem_cons, or_and_right, exists_or, exists_eq_left,
      climbed, descended]
    refine or_congr (or_congr ?_ ?_) .rfl
    · cases above <;> simp [Except.isOk, Except.toBool]
    · cases below <;> simp [Except.isOk, Except.toBool]

/-- The table with one more class, which has not been registered yet. -/
def append (t : ClassTable) (c : Class) : ClassTable :=
  { t with classes := t.classes ++ [c], ids := t.ids.insert c.name t.classes.length }

theorem declare_ok {name : String} {id : ClassId} {t' : ClassTable}
    (declared : t.declare name = .ok (id, t')) :
    id = t.classes.length ∧ t' = t.append { name } := by
  unfold declare at declared
  split at declared
  · cases declared
  · cases declared
    exact ⟨rfl, rfl⟩

theorem modify_append (c : Class) (f : Class → Class) (sameName : (f c).name = c.name) :
    (t.append c).modify t.classes.length f = .ok (t.append (f c)) := by
  have found : (t.append c).get t.classes.length = .ok c := get_eq_ok.mpr (by simp [append])
  rw [modify, found, ok_bind]
  simp only [append, List.set_append_right _ _ (Nat.le_refl _), Nat.sub_self, List.set_cons_zero,
    sameName]
  rfl

section

variable {c : Class}

/-- Registering a class compares it with all that are registered and adds what fits. -/
theorem register_eq_ok {id : ClassId} (ran : t.register id = .ok t') :
    id ∉ t.registered ∧ ∃ fits, t.newFits id t.registered = .ok fits ∧
      t' = { t with registered := t.registered ++ [id], fits := t.fits ++ fits } := by
  unfold register at ran
  split at ran
  · obtain ⟨c, _, failed⟩ := bind_eq_ok.mp ran
    cases failed
  · rename_i new
    obtain ⟨fits, compared, same⟩ := bind_eq_ok.mp ran
    cases same
    exact ⟨by simpa using new, fits, compared, rfl⟩

theorem get_append_new : (t.append c).get t.classes.length = .ok c :=
  get_eq_ok.mpr (by simp [append])

theorem get_append_old {id : ClassId} (old : id < t.classes.length) :
    (t.append c).get id = t.get id := by
  unfold get
  rw [append, List.getElem?_append_left old]

theorem get_append {found : Class} {id : ClassId} :
    (t.append c).get id = .ok found ↔
      t.get id = .ok found ∨ id = t.classes.length ∧ found = c := by
  rcases Nat.lt_trichotomy id t.classes.length with old | rfl | beyond
  · rw [get_append_old old, or_iff_left (fun new => Nat.ne_of_lt old new.1)]
  · rw [get_append_new, get_eq_ok, List.getElem?_eq_none (Nat.le_refl _)]
    simp [eq_comm]
  · have outside : (t.append c).classes.length ≤ id := by
      rw [append, List.length_append]
      exact beyond
    rw [get_eq_ok, get_eq_ok, List.getElem?_eq_none outside,
      List.getElem?_eq_none (Nat.le_of_lt beyond)]
    simp [Nat.ne_of_gt beyond]

/-- What comes of registering the class appended last. -/
def extend (t : ClassTable) (c : Class) (fits : List (ClassId × ClassId)) : ClassTable :=
  { t.append c with registered := t.registered ++ [t.classes.length], fits := t.fits ++ fits }

/-- The pairs are those that the class appended last forms with the classes before it. -/
def Compared (t : ClassTable) (c : Class) (fits : List (ClassId × ClassId)) : Prop :=
  ∀ pair, pair ∈ fits ↔ ∃ other < t.classes.length,
    (pair = (t.classes.length, other) ∧
      (t.append c).satisfies t.classes.length other = .ok (.ok ())) ∨
    (pair = (other, t.classes.length) ∧
      (t.append c).satisfies other t.classes.length = .ok (.ok ()))

theorem isA_append {a b : ClassId} : (t.append c).isA a b = t.isA a b := rfl

namespace Coherent

variable (coherent : t.Coherent)
include coherent

/-- Nothing is known about a class before it is registered. -/
theorem isA_new_left {b : ClassId} : t.isA t.classes.length b = true ↔ t.classes.length = b := by
  rw [isA_iff, or_iff_left]
  intro kept
  exact Nat.lt_irrefl _ (coherent.fits _ kept).1

theorem isA_new_right {a : ClassId} : t.isA a t.classes.length = true ↔ a = t.classes.length := by
  rw [isA_iff, or_iff_left]
  intro kept
  exact Nat.lt_irrefl _ (coherent.fits _ kept).2.1

theorem over_append (limited : c.Over (· ≤ t.classes.length)) {id : ClassId}
    (known : id ≤ t.classes.length) :
    ∃ found, (t.append c).get id = .ok found ∧ found.Over (· ≤ t.classes.length) := by
  rcases Nat.lt_or_eq_of_le known with old | rfl
  · obtain ⟨found, got, within⟩ := coherent.get_ok old
    rw [get_append_old old]
    exact ⟨found, got, within.mono fun _ => Nat.le_of_lt⟩
  · exact ⟨c, get_append_new, limited⟩

/-- A class that was appended can be compared with any other before it is registered. -/
theorem satisfies_append (limited : c.Over (· ≤ t.classes.length)) {a b : ClassId}
    (left : a ≤ t.classes.length) (right : b ≤ t.classes.length) :
    ∃ verdict, (t.append c).satisfies a b = .ok verdict := by
  obtain ⟨own, actual, ownOver⟩ := coherent.over_append limited left
  obtain ⟨wanted, expected, wantedOver⟩ := coherent.over_append limited right
  exact satisfies_total actual expected ownOver wantedOver

/-- Registering compares the new class with all others and keeps the answers. -/
theorem register_append (limited : c.Over (· ≤ t.classes.length)) :
    ∃ fits, (t.append c).register t.classes.length = .ok (t.extend c fits) ∧
      t.Compared c fits := by
  have before : ∀ other ∈ t.registered, other ≤ t.classes.length := by
    rw [coherent.registered]
    exact fun other listed => Nat.le_of_lt (List.mem_range.mp listed)
  have up (other : ClassId) (listed : other ∈ t.registered) :
      ∃ verdict, (t.append c).satisfies t.classes.length other = .ok verdict :=
    coherent.satisfies_append limited (Nat.le_refl _) (before other listed)
  have down (other : ClassId) (listed : other ∈ t.registered) :
      ∃ verdict, (t.append c).satisfies other t.classes.length = .ok verdict :=
    coherent.satisfies_append limited (before other listed) (Nat.le_refl _)
  obtain ⟨fits, ran, mem⟩ := newFits_ok up down
  refine ⟨fits, ?_, ?_⟩
  · have first : (t.append c).registered.contains t.classes.length = false := by
      simp [append, coherent.registered]
    rw [register, first, if_neg Bool.false_ne_true]
    show (t.append c).newFits t.classes.length t.registered >>= _ = _
    rw [ran]
    rfl
  · simpa only [Compared, coherent.registered, List.mem_range] using mem

variable {fits : List (ClassId × ClassId)} (compared : t.Compared c fits)
include compared

omit coherent in
/-- Registration changes nothing between older classes. -/
theorem isA_extend_old {a b : ClassId} (left : a < t.classes.length)
    (right : b < t.classes.length) : (t.extend c fits).isA a b = t.isA a b := by
  rw [Bool.eq_iff_iff, isA_iff, isA_iff]
  refine or_congr .rfl ?_
  simp only [extend, List.mem_append]
  refine or_iff_left fun new => ?_
  obtain ⟨other, _, ⟨same, _⟩ | ⟨same, _⟩⟩ := (compared _).mp new
  · cases same
    exact Nat.lt_irrefl _ left
  · cases same
    exact Nat.lt_irrefl _ right

/-- The new class fits an older one if the comparison at its registration said so. -/
theorem isA_extend_left {b : ClassId} (old : b < t.classes.length) :
    (t.extend c fits).isA t.classes.length b = true ↔
      (t.append c).satisfies t.classes.length b = .ok (.ok ()) := by
  rw [isA_iff, or_iff_right (Nat.ne_of_gt old)]
  simp only [extend, List.mem_append]
  rw [or_iff_right fun kept => Nat.lt_irrefl _ (coherent.fits _ kept).1, compared]
  constructor
  · rintro ⟨other, _, ⟨same, fits⟩ | ⟨same, _⟩⟩
    · cases same
      exact fits
    · cases same
      exact absurd old (Nat.lt_irrefl _)
  · intro fits
    exact ⟨b, old, .inl ⟨rfl, fits⟩⟩

/-- An older class fits the new one if the comparison at its registration said so. -/
theorem isA_extend_right {a : ClassId} (old : a < t.classes.length) :
    (t.extend c fits).isA a t.classes.length = true ↔
      (t.append c).satisfies a t.classes.length = .ok (.ok ()) := by
  rw [isA_iff, or_iff_right (Nat.ne_of_lt old)]
  simp only [extend, List.mem_append]
  rw [or_iff_right fun kept => Nat.lt_irrefl _ (coherent.fits _ kept).2.1, compared]
  constructor
  · rintro ⟨other, _, ⟨same, _⟩ | ⟨same, fits⟩⟩
    · cases same
      exact absurd old (Nat.lt_irrefl _)
    · cases same
      exact fits
  · intro fits
    exact ⟨a, old, .inr ⟨rfl, fits⟩⟩

/-- When the class was registered, the table related the classes as the table that comes of
it does once it has forgotten the class. -/
theorem isA_when_registered {a b : ClassId} (left : a ≤ t.classes.length)
    (right : b ≤ t.classes.length) :
    (t.append c).isA a b = ((t.extend c fits).without t.classes.length).isA a b := by
  rw [isA_append]
  rcases Nat.lt_or_eq_of_le left with left | rfl
  · rcases Nat.lt_or_eq_of_le right with right | rfl
    · rw [isA_without (Nat.ne_of_lt left) (Nat.ne_of_lt right), isA_extend_old compared left right]
    · rw [Bool.eq_iff_iff, coherent.isA_new_right, isA_without_right]
  · rw [Bool.eq_iff_iff, coherent.isA_new_left, isA_without_left]

/-- The comparison at registration saw nothing of the new class but that it is itself, and so it
is the one that coherence asks for. -/
theorem satisfies_when_registered (limited : c.Over (· ≤ t.classes.length)) {a b : ClassId}
    (left : a ≤ t.classes.length) (right : b ≤ t.classes.length) :
    (t.append c).satisfies a b = ((t.extend c fits).without t.classes.length).satisfies a b := by
  have related (x y : ClassId) (known : x ≤ t.classes.length) (known' : y ≤ t.classes.length) :=
    coherent.isA_when_registered compared known known'
  refine satisfies_congr related rfl rfl ?_ ?_
  · intro found got
    obtain ⟨_, same, limited⟩ := coherent.over_append limited left
    rw [got] at same
    cases same
    exact limited
  · intro found got
    obtain ⟨_, same, limited⟩ := coherent.over_append limited right
    rw [got] at same
    cases same
    exact limited

/-- A class registered later has no part in how two earlier ones compare. -/
theorem satisfies_before {a b : ClassId} (left : a < t.classes.length)
    (right : b < t.classes.length) :
    (t.without (max a b)).satisfies a b = ((t.extend c fits).without (max a b)).satisfies a b := by
  have below (x : ClassId) (mentioned : x ≤ max (max a b) 3) : x < t.classes.length :=
    coherent.below (Nat.max_lt.mpr ⟨left, right⟩) mentioned
  have related (x y : ClassId) (hx : x ≤ max (max a b) 3) (hy : y ≤ max (max a b) 3) :
      (t.without (max a b)).isA x y = ((t.extend c fits).without (max a b)).isA x y := by
    by_cases first : x = max a b
    · rw [first, Bool.eq_iff_iff, isA_without_left, isA_without_left]
    · by_cases second : y = max a b
      · rw [second, Bool.eq_iff_iff, isA_without_right, isA_without_right]
      · rw [isA_without first second, isA_without first second,
          isA_extend_old compared (below x hx) (below y hy)]
  have same (id : ClassId) (old : id < t.classes.length) :
      (t.without (max a b)).get id = ((t.extend c fits).without (max a b)).get id :=
    (get_append_old old).symm
  refine satisfies_congr related (same a left) (same b right) ?_ ?_
  · intro found got
    refine (coherent.mentions a found got).mono fun x mentioned => ?_
    exact Nat.le_trans mentioned (Nat.max_le.mpr
      ⟨Nat.le_trans (Nat.le_max_left a b) (Nat.le_max_left _ _), Nat.le_max_right _ _⟩)
  · intro found got
    refine (coherent.mentions b found got).mono fun x mentioned => ?_
    exact Nat.le_trans mentioned (Nat.max_le.mpr
      ⟨Nat.le_trans (Nat.le_max_right a b) (Nat.le_max_left _ _), Nat.le_max_right _ _⟩)

/-- The extended table answers as coherence asks, whether or not the new class is one of the
two. -/
theorem answers_extend (limited : c.Over (· ≤ t.classes.length)) {a b : ClassId}
    (left : a ≤ t.classes.length) (right : b ≤ t.classes.length) :
    (t.extend c fits).isA a b = true ↔
      ((t.extend c fits).without (max a b)).satisfies a b = .ok (.ok ()) := by
  rcases Nat.lt_or_eq_of_le left with old | rfl
  · rcases Nat.lt_or_eq_of_le right with old' | rfl
    · rw [isA_extend_old compared old old', coherent.answers a b old old',
        coherent.satisfies_before compared old old']
    · rw [Nat.max_eq_right left, coherent.isA_extend_right compared old,
        coherent.satisfies_when_registered compared limited left right]
  · rcases Nat.lt_or_eq_of_le right with old' | rfl
    · rw [Nat.max_eq_left right, coherent.isA_extend_left compared old',
        coherent.satisfies_when_registered compared limited left right]
    · rw [satisfies_self, isA_iff]
      simp

/-- A class that mentions no class but itself and earlier ones extends a coherent table. -/
theorem extend (limited : c.Over (· ≤ t.classes.length)) : (t.extend c fits).Coherent := by
  have size : (t.extend c fits).classes.length = t.classes.length + 1 := by
    simp [ClassTable.extend, append]
  refine ⟨?_, ?_, ?_, ?_, ?_, ?_⟩
  · rw [size]
    exact Nat.le_succ_of_le coherent.builtins
  · rw [size, List.range_succ, ← coherent.registered]
    rfl
  · intro name id found
    rw [size]
    have inserted : (t.ids.insert c.name t.classes.length).find? name = some id := found
    rw [NameMap.find?_insert] at inserted
    split at inserted
    · cases inserted
      exact Nat.lt_succ_self _
    · exact Nat.lt_succ_of_lt (coherent.ids name id inserted)
  · intro id found got
    replace got : (t.append c).get id = .ok found := got
    rcases Nat.lt_trichotomy id t.classes.length with old | rfl | beyond
    · rw [get_append_old old] at got
      exact coherent.mentions id found got
    · rw [get_append_new] at got
      cases got
      exact limited.mono fun x mentioned => Nat.le_trans mentioned (Nat.le_max_left _ _)
    · have missing := get_eq_ok.mp got
      have outside : (t.append c).classes.length ≤ id := by
        rw [append, List.length_append]
        exact beyond
      rw [List.getElem?_eq_none outside] at missing
      cases missing
  · intro pair kept
    rw [size]
    rcases List.mem_append.mp kept with kept | new
    · obtain ⟨left, right, apart⟩ := coherent.fits pair kept
      exact ⟨Nat.lt_succ_of_lt left, Nat.lt_succ_of_lt right, apart⟩
    · obtain ⟨other, old, ⟨rfl, _⟩ | ⟨rfl, _⟩⟩ := (compared pair).mp new
      · exact ⟨Nat.lt_succ_self _, Nat.lt_succ_of_lt old, .inl coherent.builtins⟩
      · exact ⟨Nat.lt_succ_of_lt old, Nat.lt_succ_self _, .inr coherent.builtins⟩
  · intro a b left right
    rw [size] at left right
    exact coherent.answers_extend compared limited (Nat.le_of_lt_succ left)
      (Nat.le_of_lt_succ right)

end Coherent

end

end ClassTable

/-! ## The builtin classes -/

instance (objects values : ClassId → Prop) [DecidablePred objects] [DecidablePred values]
    (m : Mention) : Decidable (m.Over objects values) :=
  match m with
  | .object none => isFalse fun h => nomatch h
  | .object (some id) => decidable_of_iff (objects id) ⟨.object, fun | .object allowed => allowed⟩
  | .value id => decidable_of_iff (values id) ⟨.value, fun | .value allowed => allowed⟩

/-- The places of the builtin classes in every table. -/
def Builtins.first : Builtins := ⟨0, 1, 2, 3⟩

/-- What makes the table of the builtin classes coherent, as far as it can be computed. -/
abbrev ClassTable.Basic (t : ClassTable) : Prop :=
  t.classes.length = 4 ∧ t.registered = List.range 4 ∧ t.fits = [] ∧
    (∀ entry ∈ t.ids.entries, entry.2 < 4) ∧
    (∀ c ∈ t.classes, c.constructors.isEmpty = true ∧ ∀ entry ∈ c.fields.entries,
      ∀ m ∈ entry.2.mentions, m.Over (· ≤ 3) fun _ => False) ∧
    ∀ a < 4, ∀ b < 4, a ≠ b → (t.satisfies a b).toOption.all (·.toOption.isNone)

theorem addBuiltins_basic : ((ClassTable.addBuiltins {}).toOption.any fun p =>
    p.1 = Builtins.first ∧ p.2.Basic) = true := by
  decide +kernel

theorem ClassTable.Basic.coherent {t : ClassTable} (basic : t.Basic) : t.Coherent := by
  obtain ⟨size, registered, fits, ids, classes, apart⟩ := basic
  have isA (a b : ClassId) : t.isA a b = true ↔ a = b := by
    simp [isA_iff, fits]
  refine ⟨Nat.le_of_eq size.symm, size ▸ registered, ?_, ?_, ?_, ?_⟩
  · intro name id found
    rw [size]
    exact ids _ (NameMap.mem_of_lookup found)
  · intro id c got
    obtain ⟨none, fields⟩ := classes c (List.mem_of_getElem? (get_eq_ok.mp got))
    refine Class.Over.mono ⟨fields, ?_⟩ fun x mentioned =>
      Nat.le_trans mentioned (Nat.le_max_right _ _)
    rw [List.isEmpty_iff.mp none]
    simp
  · simp [fits]
  · intro a b left right
    have nothing : t.without (max a b) = t := by
      obtain ⟨classes, ids, registered, kept⟩ := t
      cases fits
      rfl
    rw [size] at left right
    rw [nothing, isA]
    constructor
    · rintro rfl
      exact satisfies_self a
    · intro satisfied
      by_cases same : a = b
      · exact same
      · have refused := apart a left b right same
        simp [satisfied, Except.toOption] at refused

/-- The builtin classes make a coherent table. -/
theorem addBuiltins_ok : ∃ t, ClassTable.addBuiltins {} = .ok (Builtins.first, t) ∧
    t.Coherent ∧ t.classes.length = 4 := by
  have computed := addBuiltins_basic
  cases run : ClassTable.addBuiltins {} with
  | error fault =>
    rw [run] at computed
    cases computed
  | ok p =>
    rw [run] at computed
    obtain ⟨first, basic⟩ := of_decide_eq_true computed
    exact ⟨p.2, by rw [← first], basic.coherent, basic.1⟩

end ShapeLang
