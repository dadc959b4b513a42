import Mathlib.Algebra.GroupWithZero.Nat
import ShapeLang.Proofs.Shown

/-!
# Runs stand for lists

Runs that are built by appending have no empty run and no two neighbours of one value. Of such
runs only one has a given expansion: its first run takes the elements up to the first that
differs, the second those up to the next, and so on. So the operations on run lists can be read
as operations on lists, and comparing run lists compares the lists.
-/

namespace ShapeLang

namespace Runs

variable {α : Type}

/-! ## Walking through the elements -/

/-- What a walk has ahead of it. -/
def Iter.ahead : Iter α → List α
  | ⟨runs, some (a, n)⟩ => List.replicate n a ++ runs.toList
  | ⟨runs, none⟩ => runs.toList

/-- The elements that a walk comes upon until it ends. -/
inductive Iter.Yields : Iter α → List α → Prop
  | done {walk : Iter α} : walk.next? = none → walk.Yields []
  | step {walk after : Iter α} {a : α} {as : List α} :
      walk.next? = some (a, after) → after.Yields as → walk.Yields (a :: as)

theorem first?_toList (r : Runs α) :
    r.first? = none ∧ r.toList = [] ∨
      ∃ a after, r.first? = some (a, after) ∧ r.toList = a :: after.ahead := by
  fun_induction first? r with
  | case1 => exact .inl ⟨rfl, rfl⟩
  | case2 a r ih => simpa [toList] using ih
  | case3 a n r => exact .inr ⟨a, _, rfl, rfl⟩

/-- A walk ends where nothing is ahead, and takes what is ahead from its start. -/
theorem Iter.next?_ahead (walk : Iter α) :
    walk.next? = none ∧ walk.ahead = [] ∨
      ∃ a after, walk.next? = some (a, after) ∧ walk.ahead = a :: after.ahead := by
  fun_cases Iter.next? walk with
  | case1 runs a n => exact .inr ⟨a, _, rfl, rfl⟩
  | case2 runs current rest =>
    match current, rest with
    | none, _ => exact runs.first?_toList
    | some (_, 0), _ => exact runs.first?_toList
    | some (a, n + 1), rest => exact absurd rfl (rest a n)

theorem Iter.yields_iff {walk : Iter α} {as : List α} : walk.Yields as ↔ as = walk.ahead := by
  constructor
  · intro yields
    induction yields with
    | @done walk ended =>
      rcases walk.next?_ahead with ⟨-, none_⟩ | ⟨a, after, next, -⟩
      · exact none_.symm
      · rw [ended] at next
        cases next
    | @step walk after a as next _ ih =>
      rcases walk.next?_ahead with ⟨ended, -⟩ | ⟨a', after', next', ahead⟩
      · rw [next] at ended
        cases ended
      · obtain ⟨rfl, rfl⟩ : a = a' ∧ after = after' := by simpa [next] using next'
        rw [ahead, ih]
  · rintro rfl
    generalize listed : walk.ahead = as
    induction as generalizing walk with
    | nil =>
      rcases walk.next?_ahead with ⟨ended, -⟩ | ⟨a, after, -, ahead⟩
      · exact .done ended
      · rw [listed] at ahead
        cases ahead
    | cons a as ih =>
      rcases walk.next?_ahead with ⟨-, none_⟩ | ⟨a', after, next, ahead⟩
      · rw [listed] at none_
        cases none_
      · obtain ⟨rfl, rfl⟩ := List.cons.inj (listed.symm.trans ahead)
        exact .step next (ih rfl)

/-! ## Counting -/

/-- Indexing goes by elements, not by runs. -/
theorem get?_toList (r : Runs α) (i : Nat) : r.get? i = r.toList[i]? := by
  induction r generalizing i with
  | nil => rfl
  | cons a n r ih =>
    rw [get?, toList, List.getElem?_append, List.length_replicate]
    split
    · rename_i inside
      rw [List.getElem?_replicate_of_lt inside]
    · exact ih _

theorem length_eq_sum (r : Runs α) : r.length = (r.toPairs.map (·.2)).sum := by
  induction r with
  | nil => rfl
  | cons a n r ih => simp [length, toPairs, ih]

/-! ## Canonical runs -/

def leading? : Runs α → Option α
  | nil => none
  | cons a _ _ => some a

/-- No run is empty, and none has the value of the next one. -/
def Canonical : Runs α → Prop
  | nil => True
  | cons a n r => 0 < n ∧ r.leading? ≠ some a ∧ r.Canonical

/-- In canonical runs the first run stands for the first element. -/
theorem Canonical.head? {r : Runs α} (canonical : r.Canonical) : r.toList.head? = r.leading? := by
  cases r with
  | nil => rfl
  | cons a n r =>
    obtain ⟨m, rfl⟩ := Nat.exists_eq_succ_of_ne_zero (Nat.ne_of_gt canonical.1)
    rfl

/-- A list of which the first element is another than `a` begins where the copies of `a`
before it end. -/
theorem replicate_append_inj {a : α} {n m : Nat} {as bs : List α} (first : as.head? ≠ some a)
    (first' : bs.head? ≠ some a)
    (same : List.replicate n a ++ as = List.replicate m a ++ bs) : n = m ∧ as = bs := by
  induction n generalizing m with
  | zero =>
    cases m with
    | zero => exact ⟨rfl, same⟩
    | succ m =>
      obtain rfl : as = a :: (List.replicate m a ++ bs) := same
      exact absurd rfl first
  | succ n ih =>
    cases m with
    | zero =>
      obtain rfl : a :: (List.replicate n a ++ as) = bs := same
      exact absurd rfl first'
    | succ m =>
      obtain ⟨rfl, rest⟩ := ih (m := m) (List.cons.inj same).2
      exact ⟨rfl, rest⟩

/-- Canonical runs are determined by their expansion. -/
theorem Canonical.eq_of_toList {r s : Runs α} (canonical : r.Canonical) (canonical' : s.Canonical)
    (same : r.toList = s.toList) : r = s := by
  induction r generalizing s with
  | nil =>
    cases s with
    | nil => rfl
    | cons b m s =>
      have first := canonical'.head?
      rw [← same] at first
      cases first
  | cons a n r ih =>
    have first := canonical.head?
    rw [same, canonical'.head?] at first
    cases s with
    | nil => cases first
    | cons b m s =>
      obtain rfl : b = a := Option.some.inj first
      obtain ⟨-, other, rest⟩ := canonical
      obtain ⟨-, other', rest'⟩ := canonical'
      rw [← rest.head?] at other
      rw [← rest'.head?] at other'
      obtain ⟨rfl, left⟩ := replicate_append_inj other other' same
      rw [ih rest rest' left]

/-- In terms of places: the run after one has another value. -/
theorem Canonical.neighbours {r : Runs α} (canonical : r.Canonical) {i : Nat} {run next : α × Nat}
    (here : r.toPairs[i]? = some run) (there : r.toPairs[i + 1]? = some next) :
    run.1 ≠ next.1 := by
  induction r generalizing i with
  | nil => cases here
  | cons a n r ih =>
    obtain ⟨-, other, rest⟩ := canonical
    cases i with
    | zero =>
      obtain rfl : (a, n) = run := Option.some.inj here
      cases r with
      | nil => cases there
      | cons b m r =>
        obtain rfl : (b, m) = next := Option.some.inj there
        rintro rfl
        exact other rfl
    | succ i => exact ih rest here there

theorem Canonical.positive {r : Runs α} (canonical : r.Canonical) :
    ∀ run ∈ r.toPairs, 0 < run.2 := by
  induction r with
  | nil => exact List.forall_mem_nil _
  | cons a n r ih => exact List.forall_mem_cons.mpr ⟨canonical.1, ih canonical.2.2⟩

/-! ## Building -/

variable [BEq α]

theorem leading?_pushRun {r : Runs α} (a : α) (n : Nat) (filled : r ≠ nil) :
    (r.pushRun a n).leading? = r.leading? := by
  fun_cases Runs.pushRun a n r with
  | case1 => exact absurd rfl filled
  | case2 => exact absurd rfl filled
  | case3 => rfl
  | case4 => rfl
  | case5 => rfl
  | case6 => rfl

section

variable [ReflBEq α]

/-- A push lengthens the last run or begins a new one, and so keeps the runs canonical. -/
theorem Canonical.pushRun {r : Runs α} (canonical : r.Canonical) (a : α) (n : Nat) :
    (r.pushRun a n).Canonical := by
  fun_induction Runs.pushRun a n r with
  | case1 => exact canonical
  | case2 more => exact ⟨Nat.pos_of_ne_zero more, (Option.some_ne_none _).symm, trivial⟩
  | case3 => exact canonical
  | case4 b m more same => exact ⟨Nat.add_pos_left canonical.1 n, canonical.2⟩
  | case5 b m more differs =>
    refine ⟨canonical.1, ?_, Nat.pos_of_ne_zero more, (Option.some_ne_none _).symm, trivial⟩
    intro same
    obtain rfl : a = b := Option.some.inj same
    exact differs (beq_self_eq_true a)
  | case6 b m r filled ih =>
    obtain ⟨positive, other, rest⟩ := canonical
    refine ⟨positive, ?_, ih rest⟩
    rwa [leading?_pushRun a n (filled ·)]

theorem Canonical.append {r s : Runs α} (canonical : r.Canonical) : (r.append s).Canonical := by
  induction s generalizing r with
  | nil => exact canonical
  | cons a n s ih => exact ih (canonical.pushRun a n)

theorem canonical_ofList (as : List α) : (ofList as).Canonical := by
  have pushed (r : Runs α) (start : r.Canonical) :
      (as.foldl (fun r a => r.push a) r).Canonical := by
    induction as generalizing r with
    | nil => exact start
    | cons a as ih => exact ih _ (start.pushRun a 1)
  exact pushed nil trivial

end

variable [LawfulBEq α]

theorem toList_pushed (r : Runs α) (a : α) (n : Nat) :
    (r.pushRun a n).toList = r.toList ++ List.replicate n a :=
  toList_pushRun (P := fun _ => True) (fun _ _ => LawfulBEq.eq_of_beq) (fun _ _ => trivial) n

theorem toList_append (r s : Runs α) : (r.append s).toList = r.toList ++ s.toList := by
  induction s generalizing r with
  | nil => rw [append, toList, List.append_nil]
  | cons a n s ih => rw [append, ih, toList_pushed, toList, List.append_assoc]

end Runs

/-! ## Run lists -/

namespace RunList

variable {α : Type} [BEq α]

/-- Lists that the operations lead to from the empty one, as long as no count overflows. -/
inductive Built : RunList α → Prop
  | empty : Built empty
  | push {l l' : RunList α} (a : α) : Built l → l.push a = .ok l' → Built l'
  | pushRun {l l' : RunList α} (a : α) (n : Nat) : Built l → l.pushRun a n = .ok l' → Built l'
  | append {l m l' : RunList α} : Built l → Built m → l.append m.runs = .ok l' → Built l'
  | ofList {l : RunList α} (as : List α) : ofList as = .ok l → Built l

/-- The list is its runs with the number of their elements, which is a count. -/
def Counts (l : RunList α) : Prop := l.runs.counted = .ok l

omit [BEq α] in
theorem Counts.fits {l : RunList α} (counts : l.Counts) : l.runs.length < countLimit :=
  (Runs.counted_eq_ok.mp counts).1

omit [BEq α] in
theorem Counts.len {l : RunList α} (counts : l.Counts) : l.len = l.runs.length :=
  congrArg RunList.len (Runs.counted_eq_ok.mp counts).2

omit [BEq α] in
theorem counts_of_counted {r : Runs α} {l : RunList α} (counted : r.counted = .ok l) :
    l.Counts ∧ l.runs = r := by
  obtain ⟨_, rfl⟩ := Runs.counted_eq_ok.mp counted
  exact ⟨counted, rfl⟩

theorem Counts.pushRun_eq {l : RunList α} (counts : l.Counts) (a : α) (n : Nat) :
    l.pushRun a n = (l.runs.pushRun a n).counted := by
  rw [← Runs.counted_pushRun, counts]
  rfl

/-- On a list with the right count, appending is appending the runs and counting again. -/
theorem Counts.append_eq {l : RunList α} (counts : l.Counts) (r : Runs α) :
    l.append r = (l.runs.append r).counted := by
  rw [← Runs.counted_append, counts]
  rfl

/-- Lists that were built count their elements, and their runs are canonical. -/
theorem Built.counts [ReflBEq α] {l : RunList α} (built : l.Built) :
    l.Counts ∧ l.runs.Canonical := by
  induction built with
  | empty => exact ⟨rfl, trivial⟩
  | push a _ ran ih =>
    obtain ⟨counts, same⟩ := counts_of_counted ((ih.1.pushRun_eq a 1).symm.trans ran)
    exact ⟨counts, same ▸ ih.2.pushRun a 1⟩
  | pushRun a n _ ran ih =>
    obtain ⟨counts, same⟩ := counts_of_counted ((ih.1.pushRun_eq a n).symm.trans ran)
    exact ⟨counts, same ▸ ih.2.pushRun a n⟩
  | append _ _ ran ih _ =>
    obtain ⟨counts, same⟩ := counts_of_counted ((ih.1.append_eq _).symm.trans ran)
    exact ⟨counts, same ▸ ih.2.append⟩
  | ofList as ran =>
    obtain ⟨counts, same⟩ := counts_of_counted ((Runs.counted_ofList as).symm.trans ran)
    exact ⟨counts, same ▸ Runs.canonical_ofList as⟩

omit [BEq α] in
/-- Runs for the length of which there is a word make a list. -/
theorem exists_counted {r : Runs α} (fits : r.length < countLimit) :
    ∃ l, r.counted = .ok l ∧ l.toList = r.toList :=
  ⟨_, Runs.counted_eq_ok.mpr ⟨fits, rfl⟩, rfl⟩

/-- A push succeeds as long as the count fits, and appends the copies. -/
theorem Counts.exists_pushRun [LawfulBEq α] {l : RunList α} (counts : l.Counts) (a : α) {n : Nat}
    (fits : l.len + n < countLimit) :
    ∃ l', l.pushRun a n = .ok l' ∧ l'.toList = l.toList ++ List.replicate n a := by
  have short : (l.runs.pushRun a n).length < countLimit := by
    rw [Runs.length_pushRun, ← counts.len]
    exact fits
  obtain ⟨l', made, elements⟩ := exists_counted short
  exact ⟨l', (counts.pushRun_eq a n).trans made, elements.trans (l.runs.toList_pushed a n)⟩

theorem Counts.exists_append [LawfulBEq α] {l m : RunList α} (counts : l.Counts)
    (counts' : m.Counts) (fits : l.len + m.len < countLimit) :
    ∃ l', l.append m.runs = .ok l' ∧ l'.toList = l.toList ++ m.toList := by
  have short : (l.runs.append m.runs).length < countLimit := by
    rw [Runs.length_append, ← counts.len, ← counts'.len]
    exact fits
  obtain ⟨l', made, elements⟩ := exists_counted short
  exact ⟨l', (counts.append_eq m.runs).trans made, elements.trans (l.runs.toList_append m.runs)⟩

/-- A list of elements is encoded as long as its length fits, and decodes to itself. -/
theorem exists_ofList [LawfulBEq α] {as : List α} (fits : as.length < countLimit) :
    ∃ l, ofList as = .ok l ∧ l.toList = as := by
  have short : (Runs.ofList as).length < countLimit := by
    rw [Runs.length_ofList]
    exact fits
  obtain ⟨l, made, elements⟩ := exists_counted short
  have listed : (Runs.ofList as).toList = as :=
    Runs.toList_ofList (P := fun _ => True) (fun _ _ _ => LawfulBEq.eq_of_beq) fun _ _ => trivial
  exact ⟨l, (Runs.counted_ofList as).trans made, elements.trans listed⟩

/-- Lists that were built are the one encoding of their expansion: they know its length, no run
is empty, none has the value of the next one, and what can be asked of a list is asked of the
expansion. Up to the limit of machine words every operation is the one on lists. -/
theorem Built.encodes [LawfulBEq α] {l m : RunList α} (built : l.Built) (built' : m.Built) :
    (l.len < countLimit ∧ l.len = (l.runs.toPairs.map (·.2)).sum ∧ l.len = l.toList.length) ∧
    (∀ run ∈ l.runs.toPairs, 0 < run.2) ∧
    (∀ i run next, l.runs.toPairs[i]? = some run → l.runs.toPairs[i + 1]? = some next →
      run.1 ≠ next.1) ∧
    (∀ as, l.iter.Yields as ↔ as = l.toList) ∧
    (∀ i, l.get? i = l.toList[i]?) ∧
    (∀ a, l.len + 1 < countLimit → ∃ l', l.push a = .ok l' ∧ l'.toList = l.toList ++ [a]) ∧
    (∀ a n, l.len + n < countLimit →
      ∃ l', l.pushRun a n = .ok l' ∧ l'.toList = l.toList ++ List.replicate n a) ∧
    (l.len + m.len < countLimit →
      ∃ l', l.append m.runs = .ok l' ∧ l'.toList = l.toList ++ m.toList) ∧
    (∀ as : List α, as.length < countLimit →
      ∃ l', RunList.ofList as = .ok l' ∧ l'.toList = as) ∧
    ((l == m) = true ↔ l.toList = m.toList) := by
  obtain ⟨counts, canonical⟩ := built.counts
  obtain ⟨counts', canonical'⟩ := built'.counts
  have length := counts.len
  refine ⟨⟨length ▸ counts.fits, length.trans l.runs.length_eq_sum,
      length.trans l.runs.length_toList.symm⟩,
    canonical.positive, fun _ _ _ => canonical.neighbours, fun _ => Runs.Iter.yields_iff,
    l.runs.get?_toList, fun a => counts.exists_pushRun a, fun a n => counts.exists_pushRun a,
    counts.exists_append counts', fun as => exists_ofList, ?_⟩
  rw [beq_iff_eq]
  refine ⟨congrArg toList, fun same => ?_⟩
  -- equal runs are counted alike
  have runs := canonical.eq_of_toList canonical' same
  have both : l.runs.counted = .ok m := runs ▸ counts'
  exact Except.ok.inj (counts.symm.trans both)

theorem encodes_mixed : ∃ l m : RunList Nat,
    (((empty.push 7 >>= (·.pushRun 8 0)) >>= (·.pushRun 7 2)) = .ok l ∧ l.Built ∧
      ofList [7, 7, 7] = .ok m ∧ m.Built) ∧
    l.len = 3 ∧ l.runs.toPairs = [(7, 3)] ∧ l.iter.Yields [7, 7, 7] ∧ (l == m) = true := by
  have built : Built (⟨.cons 7 3 .nil, 3⟩ : RunList Nat) :=
    .pushRun 7 2 (.pushRun 8 0 (.push 7 .empty rfl) rfl) rfl
  have built' : Built (⟨.cons 7 3 .nil, 3⟩ : RunList Nat) := .ofList [7, 7, 7] rfl
  obtain ⟨-, -, -, walked, -, -, -, -, -, same⟩ := built.encodes built'
  exact ⟨_, _, ⟨rfl, built, rfl, built'⟩, rfl, rfl, (walked _).mpr rfl, same.mpr rfl⟩

end RunList

end ShapeLang
