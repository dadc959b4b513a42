import ShapeLang.ClassTable.Register

/-!
# Builtin classes

The classes every program starts with, and the operators they have. All of them
cast to each other.
-/

namespace ShapeLang

inductive Builtin where
  | int | bool | double | string
deriving DecidableEq, Repr, Inhabited

namespace Builtin

def all : List Builtin := [int, bool, double, string]

def name : Builtin → String
  | int => "int"
  | bool => "bool"
  | double => "double"
  | string => "string"

def named? (name : String) : Option Builtin := all.find? (·.name == name)

/-- Operators that take and give a value of the class. -/
def arithmetic : Builtin → List String
  | int => ["+", "-", "*", "/", "%", "+=", "-=", "*=", "/=", "%="]
  | bool => []
  | double => ["+", "-", "*", "/", "+=", "-=", "*=", "/="]
  | string => ["+", "+="]

/-- Operators that take a value of the class and give a truth value. -/
def relational : Builtin → List String
  | int | double => ["==", "<", "<=", ">", ">="]
  | bool | string => ["=="]

end Builtin

/-- Where the builtin classes are in a class table. -/
structure Builtins where
  int : ClassId
  bool : ClassId
  double : ClassId
  string : ClassId
deriving DecidableEq, Repr, Inhabited

namespace Builtins

def get (b : Builtins) : Builtin → ClassId
  | .int => b.int
  | .bool => b.bool
  | .double => b.double
  | .string => b.string

def object (b : Builtins) (kind : Builtin) : Ty := .instanceOf (b.get kind) kind.name

/-- Whether the type is that of the instances of a builtin class. -/
def is (b : Builtins) (type : Ty) (kind : Builtin) : Bool :=
  type.objectClass? == some (b.get kind)

/-- One cast to each builtin class. -/
def casts (b : Builtins) : Ty := .func (Builtin.all.map fun target => ⟨[], [], b.object target⟩)

def fields (b : Builtins) (kind : Builtin) : List (String × Ty) :=
  let own := b.object kind
  kind.arithmetic.map (·, .function [own] own) ++
    kind.relational.map (·, .function [own] (b.object .bool)) ++
    [("=>", b.casts)]

end Builtins

namespace ClassTable

/-- Declares a builtin class; its name must be free. -/
def declareBuiltin (t : ClassTable) (kind : Builtin) : Except Fault (ClassId × ClassTable) :=
  match t.declare kind.name with
  | .ok declared => .ok declared
  | .error _ => .error (.builtinDeclaredTwice kind.name)

def fillBuiltin (b : Builtins) (t : ClassTable) (kind : Builtin) : Except Fault ClassTable :=
  (b.fields kind).foldlM (fun t (name, type) => t.setField (b.get kind) name type) t

/-- Adds the builtin classes: all are declared, then all get their fields, then all are
registered. -/
def addBuiltins (t : ClassTable) : Except Fault (Builtins × ClassTable) := do
  let (int, t) ← t.declareBuiltin .int
  let (bool, t) ← t.declareBuiltin .bool
  let (double, t) ← t.declareBuiltin .double
  let (string, t) ← t.declareBuiltin .string
  let b : Builtins := ⟨int, bool, double, string⟩
  let t ← Builtin.all.foldlM (fillBuiltin b) t
  let t ← Builtin.all.foldlM (fun t kind => t.register (b.get kind)) t
  return (b, t)

end ClassTable

end ShapeLang
