import ShapeLang.ClassTable.Compare

/-!
# The type that covers two others

Of two types of which one stands for the other, the more general one. Instances
of unrelated classes are covered by a registered class that both fit and that
fits every other such class.
-/

namespace ShapeLang.ClassTable

/-- The first class both fit that fits all the classes both fit. -/
def leastCommon? (t : ClassTable) (a b : ClassId) : Option ClassId :=
  let common := (t.supertypes a).filter (t.isA b)
  common.find? fun candidate => common.all (t.isA candidate)

def join (t : ClassTable) (a b : Ty) : Except Fault (Except Mismatch Ty) := do
  match ← t.compare a b with
  | .ok () => return .ok b
  | .error (.unsupported feature) => return .error (.unsupported feature)
  | .error .incompatible =>
      match ← t.compare b a with
      | .ok () => return .ok a
      | .error _ =>
          match a, b with
          | .object m left _, .object n right _ => do
              let left ← resolvedClass m left
              let right ← resolvedClass n right
              match t.leastCommon? left right with
              | some id => return .ok (← t.objectOf id)
              | none => return .error .incompatible
          | _, _ => return .error .incompatible

end ShapeLang.ClassTable
