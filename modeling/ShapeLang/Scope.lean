import ShapeLang.Span
import ShapeLang.Ty

/-!
# Bindings and frames

What is known about the names in scope. Every frame holds all the bindings that
can be seen in it, so leaving a frame forgets what was bound there.
-/

namespace ShapeLang

/-- On how many of the paths to this point a variable has been assigned. -/
inductive Assigned where
  | never
  | sometimes
  | always
deriving DecidableEq, Repr, Inhabited

namespace Assigned

def rank : Assigned → Nat
  | never => 0
  | sometimes => 1
  | always => 2

def max (a b : Assigned) : Assigned := if a.rank < b.rank then b else a

/-- The state after one of several arms ran. Only if exactly one of them always runs
can a variable be assigned on all paths. -/
def afterArms (exhaustive : Bool) (states : List Assigned) : Assigned :=
  if exhaustive && states.all (· == always) then always
  else if states.any (· != never) then sometimes
  else never

end Assigned

structure Binding where
  type : Ty
  assigned : Assigned
  constant : Bool
  /-- The value meant for the name failed to check; reading it fails without a report. -/
  unresolved : Bool
  span : Span
deriving Inhabited

namespace Binding

/-- A variable that has been assigned on all paths. -/
def plain (type : Ty) (span : Span) : Binding := ⟨type, .always, false, false, span⟩

/-- A name whose value failed to check. -/
def failed (span : Span) : Binding := ⟨.noneType, .always, false, true, span⟩

/-- Constants are assigned once. -/
def isFixed (b : Binding) : Bool := b.constant && b.assigned == .always

end Binding

inductive FrameKind where
  | root
  | branch
  /-- The body of a function, with the type it was declared to return. -/
  | function (declared : Option Ty)
deriving Inhabited

structure Frame where
  bindings : NameMap Binding
  /-- What has been returned on every path through the frame so far. -/
  returns : Option Ty
  kind : FrameKind
deriving Inhabited

/-- What a branch came to, when it is left. -/
structure Arm where
  bindings : NameMap Binding
  returns : Option Ty
deriving Inhabited

end ShapeLang
