import ShapeLang.Fault
import ShapeLang.Runs

/-!
# Run-length lists in machine words

The runs as they are built: every count is a word of 64 bits, and the number of
elements is kept beside the runs. An addition that leaves the word is a fault.
-/

namespace ShapeLang

/-- The number of values of a machine word of 64 bits. -/
def countLimit : Nat := 18446744073709551616

/-- The sum of two counts, which has to be a count again. -/
def addCounts (m n : Nat) : Except Fault Nat :=
  if m + n < countLimit then .ok (m + n) else .error .countOverflow

structure RunList (α : Type) where
  runs : Runs α
  /-- The number of elements. -/
  len : Nat
deriving BEq, ReflBEq, LawfulBEq, Repr, Inhabited

namespace RunList

variable {α : Type}

def empty : RunList α := ⟨.nil, 0⟩

def isEmpty (l : RunList α) : Bool := l.len == 0

def toList (l : RunList α) : List α := l.runs.toList

def get? (l : RunList α) (i : Nat) : Option α := l.runs.get? i

def iter (l : RunList α) : Runs.Iter α := l.runs.iter

def mapRuns (f : α → α) (l : RunList α) : RunList α := ⟨l.runs.mapRuns f, l.len⟩

variable [BEq α]

/-- Appends `n` copies of a value to the runs, to the last one if it has that value. -/
def extendRuns (a : α) (n : Nat) : Runs α → Except Fault (Runs α)
  | .nil => return .cons a n .nil
  | .cons b m .nil =>
      if b == a then do return .cons b (← addCounts m n) .nil
      else return .cons b m (.cons a n .nil)
  | .cons b m r => do return .cons b m (← extendRuns a n r)

def pushRun (a : α) (n : Nat) (l : RunList α) : Except Fault (RunList α) :=
  if n = 0 then return l
  else do
    let len ← addCounts l.len n
    return ⟨← extendRuns a n l.runs, len⟩

def push (a : α) (l : RunList α) : Except Fault (RunList α) := l.pushRun a 1

/-- Appends the elements of the runs, run by run. -/
def append (l : RunList α) : Runs α → Except Fault (RunList α)
  | .nil => return l
  | .cons a n r => do (← l.pushRun a n).append r

def ofList (as : List α) : Except Fault (RunList α) := as.foldlM (fun l a => l.push a) empty

end RunList

end ShapeLang
