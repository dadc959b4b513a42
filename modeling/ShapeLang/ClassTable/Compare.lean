import ShapeLang.ClassTable

/-!
# When a type can stand for another

Instances compare through the class table. Functions compare overload by
overload, parameters in the opposite direction. Arrays and optional types must
fit both ways. Class values compare field by field. Tuples and generic functions
are not compared.
-/

namespace ShapeLang

inductive Mismatch where
  | incompatible
  | unsupported (feature : String)
deriving DecidableEq, Repr, Inhabited

/-- Whether one type stands for another. -/
abbrev Verdict := Except Mismatch Unit

/-- The class of an instance, which must have been resolved. -/
def resolvedClass (name : String) : Option ClassId → Except Fault ClassId
  | some id => .ok id
  | none => .error (.unresolvedObject name)

namespace ClassTable

section

variable (t : ClassTable) (classFits : ClassId → ClassId → Except Fault Verdict)

mutual

/-- Whether `actual` stands for `expected`, when `classFits` compares class values. -/
def compareWith (actual expected : Ty) : Except Fault Verdict :=
  match actual, expected with
  | .object m a _, .object n b _ => do
      let a ← resolvedClass m a
      let b ← resolvedClass n b
      return if t.isA a b then .ok () else .error .incompatible
  | .classValue a _, .classValue b _ => classFits a b
  | .func candidates, .func wanted => serveAll candidates wanted
  | .array a, .array b | .maybe a, .maybe b => do
      match ← compareWith a b with
      | .ok () => compareWith b a
      | .error m => return .error m
  | .tuple _, .tuple _ | .tuple _, .spread _ | .spread _, .tuple _ | .spread _, .spread _ =>
      .ok (.error (.unsupported "Tuple comparisons"))
  | .noneType, .noneType => .ok (.ok ())
  | _, _ => .ok (.error .incompatible)
termination_by sizeOf actual + sizeOf expected

/-- Every wanted overload is served by one of the candidates. -/
def serveAll (candidates wanted : List Overload) : Except Fault Verdict :=
  match wanted with
  | [] => .ok (.ok ())
  | w :: ws => do
      match ← serveOne candidates w with
      | .ok () => serveAll candidates ws
      | .error m => return .error m
termination_by sizeOf candidates + sizeOf wanted

/-- One of the candidates serves the wanted overload. -/
def serveOne (candidates : List Overload) (wanted : Overload) : Except Fault Verdict :=
  match candidates with
  | [] => .ok (.error .incompatible)
  | c :: cs => do
      match ← serve c wanted with
      | .error .incompatible => serveOne cs wanted
      | verdict => return verdict
termination_by sizeOf candidates + sizeOf wanted

/-- A candidate serves a wanted overload if it takes its arguments and its result can
stand for the wanted one. -/
def serve (candidate wanted : Overload) : Except Fault Verdict :=
  match candidate, wanted with
  | ⟨generics, accepted, result⟩, ⟨wantedGenerics, passed, wantedResult⟩ =>
      if !generics.isEmpty || !wantedGenerics.isEmpty then
        .ok (.error (.unsupported "Generic functions"))
      else if accepted.length != passed.length then .ok (.error .incompatible)
      else do
        match ← acceptAll accepted passed with
        | .ok () => compareWith result wantedResult
        | .error m => return .error m
termination_by sizeOf candidate + sizeOf wanted

/-- Each passed type stands for the accepted one in its place. -/
def acceptAll (accepted passed : List Ty) : Except Fault Verdict :=
  match accepted, passed with
  | a :: as, p :: ps => do
      match ← compareWith p a with
      | .ok () => acceptAll as ps
      | .error m => return .error m
  | _, _ => .ok (.ok ())
termination_by sizeOf accepted + sizeOf passed

end

end

/-- For every expected field there is one of the same name that stands for it. -/
def fieldsFit (compare : Ty → Ty → Except Fault Verdict) (actual : NameMap Ty) :
    List (String × Ty) → Except Fault Verdict
  | [] => .ok (.ok ())
  | (name, expected) :: rest =>
      match actual.find? name with
      | none => .ok (.error .incompatible)
      | some own => do
          match ← compare own expected with
          | .ok () => fieldsFit compare actual rest
          | .error m => return .error m

/-- Whether a class fits another by its fields, following class values in fields at most
`depth` times. -/
def classFits (t : ClassTable) : Nat → ClassId → ClassId → Except Fault Verdict
  | 0, _, _ => .error .endlessComparison
  | depth + 1, actual, expected =>
      if actual = expected then .ok (.ok ())
      else do
        let a ← t.get actual
        let e ← t.get expected
        fieldsFit (t.compareWith (classFits t depth)) a.fields e.fields.entries

/-- More class values than pairs of classes cannot be nested without meeting a pair
again, and then the comparison would never end. -/
def depthLimit (t : ClassTable) : Nat := t.classes.length * t.classes.length + 1

def satisfies (t : ClassTable) (actual expected : ClassId) : Except Fault Verdict :=
  t.classFits t.depthLimit actual expected

def compare (t : ClassTable) (actual expected : Ty) : Except Fault Verdict :=
  t.compareWith t.satisfies actual expected

end ClassTable

end ShapeLang
