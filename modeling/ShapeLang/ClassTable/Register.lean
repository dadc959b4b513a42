import ShapeLang.ClassTable.Compare

/-!
# Registering classes

A class is registered once, when its fields are complete. It is then compared
with every class registered before it, in both directions, and the answers are
kept.
-/

namespace ShapeLang.ClassTable

/-- The pairs that a new class forms with classes registered before it. -/
def newFits (t : ClassTable) (id : ClassId) :
    List ClassId → Except Fault (List (ClassId × ClassId))
  | [] => .ok []
  | other :: others => do
      let up ← t.satisfies id other
      let down ← t.satisfies other id
      let rest ← newFits t id others
      let above := if up.isOk then [(id, other)] else []
      let below := if down.isOk then [(other, id)] else []
      return above ++ below ++ rest

def register (t : ClassTable) (id : ClassId) : Except Fault ClassTable :=
  if t.registered.contains id then do
    let c ← t.get id
    throw (.registeredTwice c.name)
  else do
    let fits ← t.newFits id t.registered
    return { t with registered := t.registered ++ [id], fits := t.fits ++ fits }

end ShapeLang.ClassTable
