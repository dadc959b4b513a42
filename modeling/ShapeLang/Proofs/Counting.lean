import ShapeLang.Ty

/-!
# Counting in machine words

Run lists are built with checked additions. As long as the number of elements is one
that a machine word holds they are the exact runs with that number beside them, and
past it building them overflows. So nothing about run lists has to be proved of the
words: what the exact runs come to decides whether there is a list at all.
-/

namespace ShapeLang

namespace Runs

variable {α : Type}

theorem length_toList (r : Runs α) : r.toList.length = r.length := by
  induction r with
  | nil => rfl
  | cons a n r ih => simp [toList, length, ih]

/-- The runs with the number of their elements, if there is a word for it. -/
def counted (r : Runs α) : Except Fault (RunList α) :=
  if r.length < countLimit then .ok ⟨r, r.length⟩ else .error .countOverflow

theorem counted_eq_ok {r : Runs α} {l : RunList α} :
    r.counted = .ok l ↔ r.length < countLimit ∧ l = ⟨r, r.length⟩ := by
  unfold counted
  split
  · rename_i fits
    constructor
    · rintro ⟨⟩
      exact ⟨fits, rfl⟩
    · rintro ⟨_, rfl⟩
      rfl
  · rename_i long
    constructor
    · rintro ⟨⟩
    · rintro ⟨fits, _⟩
      exact absurd fits long

theorem counted_of_le {r : Runs α} (long : countLimit ≤ r.length) :
    r.counted = .error .countOverflow := if_neg (Nat.not_lt.mpr long)

/-- What each step does to the runs all of them do. -/
theorem counted_foldl {β : Type} {step : RunList α → β → Except Fault (RunList α)}
    {add : Runs α → β → Runs α} (one : ∀ r b, (r.counted >>= fun l => step l b) = (add r b).counted)
    (r : Runs α) (bs : List β) :
    (r.counted >>= fun l => bs.foldlM step l) = (bs.foldl add r).counted := by
  induction bs generalizing r with
  | nil => exact bind_pure _
  | cons b bs ih =>
    rw [List.foldl_cons, ← ih, ← one, bind_assoc]
    rfl

variable [BEq α]

theorem length_pushRun (a : α) (n : Nat) (r : Runs α) :
    (r.pushRun a n).length = r.length + n := by
  fun_induction pushRun a n r <;> simp_all [length, Nat.add_assoc]

/-- Appending runs adds their lengths, also where two runs meet and become one. -/
theorem length_append (r s : Runs α) : (r.append s).length = r.length + s.length := by
  induction s generalizing r with
  | nil => rfl
  | cons a n s ih => rw [append, ih, length_pushRun, length, Nat.add_assoc]

theorem length_ofList (as : List α) : (ofList as).length = as.length := by
  have pushed (r : Runs α) :
      (as.foldl (fun r a => r.push a) r).length = r.length + as.length := by
    induction as generalizing r with
    | nil => rfl
    | cons a as ih =>
      rw [List.foldl_cons, ih, push, length_pushRun, List.length_cons]
      omega
  exact (pushed nil).trans (Nat.zero_add _)

theorem pushRun_zero (a : α) (r : Runs α) : r.pushRun a 0 = r := by
  fun_induction Runs.pushRun a 0 r <;> simp_all

/-- The count of a run is never more than that of the list. -/
theorem extendRuns_eq {a : α} {n : Nat} (some_ : n ≠ 0) {r : Runs α}
    (fits : r.length + n < countLimit) : RunList.extendRuns a n r = .ok (r.pushRun a n) := by
  fun_induction RunList.extendRuns a n r with
  | case1 => rw [pushRun, if_neg some_]; rfl
  | case2 b m same =>
    have sum : addCounts m n = .ok (m + n) := if_pos (by simpa [length] using fits)
    rw [sum, pushRun, if_neg some_, if_pos same]
    rfl
  | case3 b m differs => rw [pushRun, if_neg some_, if_neg differs]; rfl
  | case4 b m r filled ih =>
    have inside : r.length + n < countLimit := by
      rw [length] at fits
      omega
    rw [ih inside, pushRun]
    · rfl
    · exact filled

/-- Pushing onto a list that was counted counts what is pushed onto the runs. -/
theorem counted_pushRun (a : α) (n : Nat) (r : Runs α) :
    (r.counted >>= fun l => l.pushRun a n) = (r.pushRun a n).counted := by
  have size := length_pushRun a n r
  by_cases fits : r.length < countLimit
  · rw [counted_eq_ok.mpr ⟨fits, rfl⟩]
    show RunList.pushRun a n ⟨r, r.length⟩ = _
    unfold RunList.pushRun
    split
    · rename_i none_
      rw [none_, pushRun_zero]
      exact (counted_eq_ok.mpr ⟨fits, rfl⟩).symm
    · rename_i some_
      by_cases fits' : r.length + n < countLimit
      · have sum : addCounts r.length n = .ok (r.length + n) := if_pos fits'
        rw [sum, extendRuns_eq some_ fits', counted_eq_ok.mpr ⟨size ▸ fits', rfl⟩, size]
        rfl
      · have overflow : addCounts r.length n = .error .countOverflow := if_neg fits'
        rw [overflow, counted_of_le (by omega)]
        rfl
  · rw [counted_of_le (by omega), counted_of_le (by omega)]
    rfl

/-- Counting first and appending then fails and succeeds as counting the whole does. -/
theorem counted_append (r s : Runs α) :
    (r.counted >>= fun l => l.append s) = (r.append s).counted := by
  induction s generalizing r with
  | nil => exact bind_pure _
  | cons a n s ih =>
    rw [append, ← ih, ← counted_pushRun, bind_assoc]
    rfl

theorem counted_ofList (as : List α) : RunList.ofList as = (ofList as).counted :=
  counted_foldl (fun r a => counted_pushRun a 1 r) .nil as

end Runs

/-! ## Tuples -/

namespace Ty

/-- What a tuple that lists a value of the type gets from it. -/
def elements : Ty → Runs Ty
  | spread inner => inner
  | other => .cons other 1 .nil

/-- The runs followed by what a tuple gets from values of the types, with exact counts. -/
def gathered (r : Runs Ty) (types : List Ty) : Runs Ty :=
  types.foldl (fun r type => r.append type.elements) r

theorem gather_eq (l : RunList Ty) (type : Ty) : gather l type = l.append type.elements := by
  cases type with
  | spread inner => rfl
  | _ => exact (bind_pure _).symm

/-- A tuple has all the elements that its items bring with them, or it is too long to be
counted. -/
theorem collect_eq (types : List Ty) :
    collect types = (gathered .nil types).counted.map (·.runs) := by
  have all : types.foldlM gather .empty = (gathered .nil types).counted :=
    Runs.counted_foldl (fun r type => by simp only [gather_eq, Runs.counted_append]) .nil types
  rw [← all, collect]
  cases types.foldlM gather .empty <;> rfl

/-- The elements of a tuple are collected if they can be counted. -/
theorem collect_eq_ok {types : List Ty} {r : Runs Ty} :
    collect types = .ok r ↔
      (gathered .nil types).length < countLimit ∧ r = gathered .nil types := by
  rw [collect_eq, Runs.counted]
  split <;> simp [*, Except.map, eq_comm]

/-- Collecting the elements of a tuple overflows exactly if there are too many of them. -/
theorem collect_overflow {types : List Ty} :
    collect types = .error .countOverflow ↔ countLimit ≤ (gathered .nil types).length := by
  rw [collect_eq, Runs.counted]
  split <;> simp_all [Except.map]

/-- There is no other fault in building a tuple. -/
theorem collect_cases (types : List Ty) :
    collect types = .ok (gathered .nil types) ∨ collect types = .error .countOverflow := by
  by_cases fits : (gathered .nil types).length < countLimit
  · exact .inl (collect_eq_ok.mpr ⟨fits, rfl⟩)
  · exact .inr (collect_overflow.mpr (Nat.not_lt.mp fits))

end Ty

end ShapeLang
