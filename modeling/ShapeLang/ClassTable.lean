import ShapeLang.Ty

/-!
# The class table

Classes in the order of their declaration, their names, and for the classes that
are registered which of them fits which. A class fits another when its fields can
stand for the other's; that is worked out once, at registration.
-/

namespace ShapeLang

structure Class where
  name : String
  /-- The parameters of each constructor. -/
  constructors : List (List Ty) := []
  fields : NameMap Ty := .empty
deriving Inhabited

structure ClassTable where
  classes : List Class := []
  ids : NameMap ClassId := .empty
  /-- In the order of their registration. -/
  registered : List ClassId := []
  /-- Pairs of different classes of which the first fits the second. -/
  fits : List (ClassId × ClassId) := []
deriving Inhabited

namespace ClassTable

def get (t : ClassTable) (id : ClassId) : Except Fault Class :=
  match t.classes[id]? with
  | some c => .ok c
  | none => .error (.classOutOfRange id)

def lookup? (t : ClassTable) (name : String) : Option ClassId := t.ids.find? name

/-- Adds an empty class, or tells which class has the name already. -/
def declare (t : ClassTable) (name : String) : Except ClassId (ClassId × ClassTable) :=
  match t.lookup? name with
  | some existing => .error existing
  | none =>
      let id := t.classes.length
      .ok (id, { t with classes := t.classes ++ [{ name }], ids := t.ids.insert name id })

def modify (t : ClassTable) (id : ClassId) (f : Class → Class) : Except Fault ClassTable := do
  let c ← t.get id
  return { t with classes := t.classes.set id (f c) }

def setField (t : ClassTable) (id : ClassId) (name : String) (type : Ty) :
    Except Fault ClassTable :=
  t.modify id fun c => { c with fields := c.fields.insert name type }

def addConstructor (t : ClassTable) (id : ClassId) (params : List Ty) :
    Except Fault ClassTable :=
  t.modify id fun c => { c with constructors := c.constructors ++ [params] }

/-- Every class is itself; different classes fit as worked out at registration. -/
def isA (t : ClassTable) (actual expected : ClassId) : Bool :=
  actual == expected || t.fits.contains (actual, expected)

/-- The registered classes that a class fits, in the order of their registration. -/
def supertypes (t : ClassTable) (id : ClassId) : List ClassId :=
  t.registered.filter (t.isA id)

def classValue (t : ClassTable) (id : ClassId) : Except Fault Ty := do
  let c ← t.get id
  return .classValue id c.name

def objectOf (t : ClassTable) (id : ClassId) : Except Fault Ty := do
  let c ← t.get id
  return .instanceOf id c.name

end ClassTable

end ShapeLang
