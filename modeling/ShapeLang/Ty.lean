import ShapeLang.NameMap
import ShapeLang.RunList

/-!
# Types

The types of values. A class value and an instance name their class; an instance
that came from an annotation has no class until its name is resolved. A function
type is a list of overloads. The elements of tuples and of spread tuples are runs.
-/

namespace ShapeLang

mutual

inductive Ty where
  /-- The class itself, as a value. -/
  | classValue (id : ClassId) (name : String)
  /-- An instance of the named class. -/
  | object (name : String) (id : Option ClassId) (generics : List Ty)
  | func (overloads : List Overload)
  | array (item : Ty)
  | tuple (items : Runs Ty)
  /-- A tuple whose elements stand for themselves where they are listed. -/
  | spread (items : Runs Ty)
  | maybe (item : Ty)
  /-- The type of the value `none`. -/
  | noneType

/-- One way to call a function. -/
structure Overload where
  generics : List String
  params : List Ty
  result : Ty

end

instance : Inhabited Ty := ⟨.noneType⟩
instance : Inhabited Overload := ⟨⟨[], [], .noneType⟩⟩

mutual

/-- Class values are equal when they are the same class, whatever name they carry;
everything else compares all its parts. -/
def Ty.beq : Ty → Ty → Bool
  | .classValue a _, .classValue b _ => a == b
  | .object m a gs, .object n b hs => m == n && a == b && Ty.beqList gs hs
  | .func os, .func ps => Ty.beqOverloads os ps
  | .array a, .array b => a.beq b
  | .tuple r, .tuple s => Ty.beqRuns r s
  | .spread r, .spread s => Ty.beqRuns r s
  | .maybe a, .maybe b => a.beq b
  | .noneType, .noneType => true
  | _, _ => false

def Ty.beqList : List Ty → List Ty → Bool
  | [], [] => true
  | a :: as, b :: bs => a.beq b && Ty.beqList as bs
  | _, _ => false

def Ty.beqRuns : Runs Ty → Runs Ty → Bool
  | .nil, .nil => true
  | .cons a m r, .cons b n s => a.beq b && m == n && Ty.beqRuns r s
  | _, _ => false

def Ty.beqOverloads : List Overload → List Overload → Bool
  | [], [] => true
  | o :: os, p :: ps => o.beq p && Ty.beqOverloads os ps
  | _, _ => false

def Overload.beq : Overload → Overload → Bool
  | ⟨gs, as, a⟩, ⟨hs, bs, b⟩ => gs == hs && Ty.beqList as bs && a.beq b

end

instance : BEq Ty := ⟨Ty.beq⟩
instance : BEq Overload := ⟨Overload.beq⟩

/-- The texts with a comma and a space between neighbours. -/
def commaList (texts : List String) : String := String.intercalate ", " texts

mutual

def Ty.text : Ty → String
  | .classValue _ name => "class " ++ name
  | .object name _ [] => name
  | .object name _ (g :: gs) => name ++ "<" ++ commaList (g.text :: Ty.listTexts gs) ++ ">"
  | .func os => String.intercalate " & " (Ty.overloadTexts os)
  | .array item => item.text ++ "[]"
  | .tuple r =>
      "(" ++ commaList (Ty.runTexts r) ++ (if r.length = 1 then "," else "") ++ ")"
  | .spread r => "...(" ++ commaList (Ty.runTexts r) ++ ")"
  | .maybe item => item.text ++ "?"
  | .noneType => "none"

def Ty.listTexts : List Ty → List String
  | [] => []
  | a :: as => a.text :: Ty.listTexts as

def Ty.runTexts : Runs Ty → List String
  | .nil => []
  | .cons a n r => List.replicate n a.text ++ Ty.runTexts r

def Ty.overloadTexts : List Overload → List String
  | [] => []
  | o :: os => o.text :: Ty.overloadTexts os

def Overload.text : Overload → String
  | ⟨generics, params, result⟩ =>
      (if generics.isEmpty then "" else "<" ++ commaList generics ++ ">") ++
        "(" ++ commaList (Ty.listTexts params) ++ ") -> " ++ result.text

end

theorem Ty.listTexts_eq (as : List Ty) : Ty.listTexts as = as.map Ty.text := by
  induction as with
  | nil => rfl
  | cons a as ih => rw [Ty.listTexts, ih, List.map_cons]

theorem Ty.runTexts_eq (r : Runs Ty) : Ty.runTexts r = r.toList.map Ty.text := by
  induction r with
  | nil => rfl
  | cons a n r ih => rw [Ty.runTexts, ih, Runs.toList, List.map_append, List.map_replicate]

theorem Ty.overloadTexts_eq (os : List Overload) :
    Ty.overloadTexts os = os.map Overload.text := by
  induction os with
  | nil => rfl
  | cons o os ih => rw [Ty.overloadTexts, ih, List.map_cons]

theorem Overload.text_eq (params : List Ty) (result : Ty) :
    (⟨[], params, result⟩ : Overload).text =
      "(" ++ commaList (params.map Ty.text) ++ ") -> " ++ result.text := by
  rw [Overload.text, Ty.listTexts_eq]
  simp

theorem Ty.text_object {generics : List Ty} (some_ : generics ≠ []) (name : String)
    (id : Option ClassId) : (Ty.object name id generics).text =
      name ++ "<" ++ commaList (generics.map Ty.text) ++ ">" := by
  obtain ⟨g, gs, rfl⟩ := List.exists_cons_of_ne_nil some_
  rw [Ty.text, Ty.listTexts_eq, List.map_cons]

theorem Ty.text_func (os : List Overload) :
    (Ty.func os).text = String.intercalate " & " (os.map Overload.text) := by
  rw [Ty.text, Ty.overloadTexts_eq]

theorem Ty.text_tuple (r : Runs Ty) : (Ty.tuple r).text =
    "(" ++ commaList (r.toList.map Ty.text) ++ (if r.length = 1 then "," else "") ++ ")" := by
  rw [Ty.text, Ty.runTexts_eq]

namespace Ty

def instanceOf (id : ClassId) (name : String) : Ty := .object name (some id) []

def function (params : List Ty) (result : Ty) : Ty := .func [⟨[], params, result⟩]

def isNone : Ty → Bool
  | noneType => true
  | _ => false

def overloads? : Ty → Option (List Overload)
  | func os => some os
  | _ => none

/-- The class of an instance whose name has been resolved. -/
def objectClass? : Ty → Option ClassId
  | object _ id _ => id
  | _ => none

/-- The type of a tuple spread into a list. -/
def toSpread? : Ty → Option Ty
  | tuple r | spread r => some (spread r)
  | _ => none

def argumentText (types : List Ty) : String := "(" ++ commaList (types.map text) ++ ")"

def expand : List Ty → List Ty
  | [] => []
  | spread r :: rest => r.toList ++ expand rest
  | other :: rest => other :: expand rest

/-- Appends a type; of a spread tuple its elements. -/
def gather (l : RunList Ty) : Ty → Except Fault (RunList Ty)
  | spread inner => l.append inner
  | other => l.push other

/-- The runs of a tuple with these elements, spread tuples among them taken apart. The number of
elements can be told from the runs again, so that a type keeps these alone. -/
def collect (types : List Ty) : Except Fault (Runs Ty) := do
  let l ← types.foldlM gather .empty
  return l.runs

end Ty

/-- The first overload with exactly these parameters. -/
def Overload.find? (overloads : List Overload) (params : List Ty) : Option Overload :=
  overloads.find? fun o => o.params == params

end ShapeLang
