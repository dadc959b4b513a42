/-!
# Run-length lists

A list in which equal neighbours are stored once with their number. The element
types of tuples are kept this way, so a long tuple of one type stays small.
Appending never leaves a run of length zero nor two equal neighbours; replacing
values in place may, and keeps the runs as they are. Counts are exact here; they
are kept in machine words by `RunList`.
-/

namespace ShapeLang

inductive Runs (α : Type) where
  | nil
  | cons (value : α) (count : Nat) (rest : Runs α)
deriving BEq, ReflBEq, LawfulBEq, Repr, Inhabited

namespace Runs

variable {α : Type}

def length : Runs α → Nat
  | nil => 0
  | cons _ n r => n + r.length

def runCount : Runs α → Nat
  | nil => 0
  | cons _ _ r => r.runCount + 1

/-- The runs in order, each with its number of elements. -/
def toPairs : Runs α → List (α × Nat)
  | nil => []
  | cons a n r => (a, n) :: r.toPairs

def toList : Runs α → List α
  | nil => []
  | cons a n r => List.replicate n a ++ r.toList

/-- The first `k` elements, without listing the others. -/
def take (k : Nat) : Runs α → List α
  | nil => []
  | cons a n r => if k ≤ n then List.replicate k a else List.replicate n a ++ r.take (k - n)

def get? : Runs α → Nat → Option α
  | nil, _ => none
  | cons a n r, i => if i < n then some a else r.get? (i - n)

/-- A walk through the elements: the runs ahead, and the value of the current run with how many
of its elements are left. -/
structure Iter (α : Type) where
  runs : Runs α
  current : Option (α × Nat)

def iter (r : Runs α) : Iter α := ⟨r, none⟩

/-- The first element of the runs and the walk after it. -/
def first? : Runs α → Option (α × Iter α)
  | nil => none
  | cons _ 0 r => r.first?
  | cons a (n + 1) r => some (a, ⟨r, some (a, n)⟩)

/-- The next element and the walk after it; a run that is used up makes room for those ahead. -/
def Iter.next? : Iter α → Option (α × Iter α)
  | ⟨runs, some (a, n + 1)⟩ => some (a, ⟨runs, some (a, n)⟩)
  | ⟨runs, _⟩ => runs.first?

theorem take_eq (k : Nat) (r : Runs α) : r.take k = r.toList.take k := by
  induction r generalizing k with
  | nil => simp [take, toList]
  | cons a n r ih =>
    rw [take, toList, List.take_append, List.take_replicate, List.length_replicate]
    split
    · rename_i le
      rw [Nat.sub_eq_zero_of_le le, Nat.min_eq_left le, List.take_zero, List.append_nil]
    · rename_i more
      rw [ih, Nat.min_eq_right (by omega)]

/-- A partner for each name is found among the first elements. -/
theorem zip_take {β : Type} (names : List β) (r : Runs α) :
    names.zip (r.take names.length) = names.zip r.toList := by
  rw [take_eq]
  generalize r.toList = elements
  induction names generalizing elements with
  | nil => rfl
  | cons name names ih =>
    cases elements with
    | nil => rfl
    | cons a elements => rw [List.length_cons, List.take_succ_cons, List.zip_cons_cons, ih,
        List.zip_cons_cons]

def mapRuns (f : α → α) : Runs α → Runs α
  | nil => nil
  | cons a n r => cons (f a) n (r.mapRuns f)

variable [BEq α]

/-- The runs followed by `n` copies of a value, in the last run if it has that value. -/
def pushRun (a : α) (n : Nat) : Runs α → Runs α
  | nil => if n = 0 then nil else cons a n nil
  | cons b m nil =>
      if n = 0 then cons b m nil
      else if b == a then cons b (m + n) nil
      else cons b m (cons a n nil)
  | cons b m r => cons b m (r.pushRun a n)

def push (a : α) (r : Runs α) : Runs α := r.pushRun a 1

def append (r : Runs α) : Runs α → Runs α
  | nil => r
  | cons a n s => (r.pushRun a n).append s

def ofList (as : List α) : Runs α := as.foldl (fun r a => r.push a) nil

end Runs

end ShapeLang
