import ShapeLang.Proofs.Reached
import ShapeLang.Proofs.Shown

/-!
# Class values and their names

A class that is a value is shown under a name, which plays no part when types are compared.
Wherever a check has got to, the name is that of the class: it is given when the class is
declared, and everything else hands class values on as they are, so that to go by these names is
a discipline. Hence types that are found equal are the same type.
-/

namespace ShapeLang

/-! ## Types -/

/-- Each class value in the type goes by the name of its class. -/
inductive Ty.Called (t : ClassTable) : Ty → Prop where
  | classValue {id : ClassId} {c : Class} (got : t.get id = .ok c) :
      Called t (.classValue id c.name)
  | object {name : String} {id : Option ClassId} {generics : List Ty}
      (each : ∀ g ∈ generics, Called t g) : Called t (.object name id generics)
  | func {os : List Overload} (params : ∀ o ∈ os, ∀ p ∈ o.params, Called t p)
      (results : ∀ o ∈ os, Called t o.result) : Called t (.func os)
  | array {item : Ty} (called : Called t item) : Called t (.array item)
  | tuple {r : Runs Ty} (each : ∀ run ∈ r.toPairs, Called t run.1) : Called t (.tuple r)
  | spread {r : Runs Ty} (each : ∀ run ∈ r.toPairs, Called t run.1) : Called t (.spread r)
  | maybe {item : Ty} (called : Called t item) : Called t (.maybe item)
  | noneType : Called t .noneType

namespace Ty

variable {t t' : ClassTable}

namespace Called

theorem instanceOf (id : ClassId) (name : String) : (Ty.instanceOf id name).Called t :=
  .object (by simp)

theorem item {a : Ty} (called : (Ty.array a).Called t) : a.Called t := by
  cases called
  assumption

theorem overload {os : List Overload} (called : (Ty.func os).Called t) :
    ∀ o ∈ os, (∀ p ∈ o.params, p.Called t) ∧ o.result.Called t := by
  cases called with
  | func params results => exact fun o listed => ⟨params o listed, results o listed⟩

theorem elements {r : Runs Ty} (called : (Ty.spread r).Called t) : r.Forall (Called t) := by
  cases called
  assumption

theorem toSpread? {type spread : Ty} (called : type.Called t)
    (taken : type.toSpread? = some spread) : spread.Called t := by
  cases called with
  | tuple each =>
    cases taken
    exact .spread each
  | spread each =>
    cases taken
    exact .spread each
  | _ => cases taken

/-- More classes do no harm, if those that are there keep their names. -/
theorem mono {type : Ty} (called : type.Called t) (kept : t.Renewed t') : type.Called t' := by
  induction called with
  | classValue got =>
    obtain ⟨c', got', same⟩ := kept _ _ got
    exact same ▸ .classValue got'
  | object _ ih => exact .object ih
  | func _ _ params results => exact .func params results
  | array _ ih => exact .array ih
  | tuple _ ih => exact .tuple ih
  | spread _ ih => exact .spread ih
  | maybe _ ih => exact .maybe ih
  | noneType => exact .noneType

/-- Where class values have their names, equality of types is what it is called. -/
theorem eq_of_beq {a b : Ty} (called : a.Called t) (other : b.Called t) (same : a.beq b = true) :
    a = b := by
  induction called generalizing b with
  | classValue got =>
    cases other <;> simp only [beq, Bool.false_eq_true, beq_iff_eq] at same
    rename_i got'
    subst same
    cases got.symm.trans got'
    rfl
  | object _ ih =>
    cases other <;> simp only [beq, Bool.and_eq_true, beq_iff_eq, Bool.false_eq_true] at same
    rename_i each
    obtain ⟨⟨rfl, rfl⟩, rest⟩ := same
    rw [eq_of_beqList (fun a listed b among => ih a listed (each b among)) rest]
  | func _ _ params results =>
    cases other <;> simp only [beq, Bool.false_eq_true] at same
    rename_i accepted given
    rw [eq_of_beqOverloads
      (fun o listed p among a param b param' => params o listed a param (accepted p among b param'))
      (fun o listed p among => results o listed (given p among)) same]
  | array _ ih =>
    cases other <;> simp only [beq, Bool.false_eq_true] at same
    rename_i called
    rw [ih called same]
  | tuple _ ih =>
    cases other <;> simp only [beq, Bool.false_eq_true] at same
    rename_i each
    rw [eq_of_beqRuns (fun run listed run' among => ih run listed (each run' among)) same]
  | spread _ ih =>
    cases other <;> simp only [beq, Bool.false_eq_true] at same
    rename_i each
    rw [eq_of_beqRuns (fun run listed run' among => ih run listed (each run' among)) same]
  | maybe _ ih =>
    cases other <;> simp only [beq, Bool.false_eq_true] at same
    rename_i called
    rw [ih called same]
  | noneType =>
    cases other <;> simp only [beq, Bool.false_eq_true] at same
    rfl

end Called

end Ty

mutual

/-- Annotations only name classes. -/
theorem Ty.Over.called {objects : ClassId → Prop} (t : ClassTable) : (type : Ty) →
    type.Over objects (fun _ => False) → type.Called t
  | .classValue .., plain => (Ty.over_classValue.mp plain).elim
  | .object _ _ generics, plain =>
      .object (Ty.Over.calledAll t generics (Ty.over_object.mp plain).2)
  | .func os, plain => by
      have each := Ty.Over.calledOverloads t os (Ty.over_func.mp plain)
      exact .func (fun o listed => (each o listed).1) fun o listed => (each o listed).2
  | .array item, plain => .array (Ty.Over.called t item (Ty.over_array.mp plain))
  | .tuple items, plain => .tuple (Ty.Over.calledRuns t items (Ty.over_tuple.mp plain))
  | .spread items, plain => .spread (Ty.Over.calledRuns t items (Ty.over_spread.mp plain))
  | .maybe item, plain => .maybe (Ty.Over.called t item (Ty.over_maybe.mp plain))
  | .noneType, _ => .noneType

theorem Ty.Over.calledAll {objects : ClassId → Prop} (t : ClassTable) : (types : List Ty) →
    (∀ type ∈ types, type.Over objects (fun _ => False)) → ∀ type ∈ types, type.Called t
  | [], _ => by simp
  | type :: types, plain => by
      obtain ⟨first, others⟩ := List.forall_mem_cons.mp plain
      exact List.forall_mem_cons.mpr
        ⟨Ty.Over.called t type first, Ty.Over.calledAll t types others⟩

theorem Ty.Over.calledRuns {objects : ClassId → Prop} (t : ClassTable) : (r : Runs Ty) →
    r.Forall (Ty.Over objects fun _ => False) → r.Forall (Ty.Called t)
  | .nil, _ => Runs.forall_nil
  | .cons type _ r, plain => by
      obtain ⟨first, others⟩ := Runs.forall_cons.mp plain
      exact Runs.forall_cons.mpr ⟨Ty.Over.called t type first, Ty.Over.calledRuns t r others⟩

theorem Ty.Over.calledOverloads {objects : ClassId → Prop} (t : ClassTable) :
    (os : List Overload) → (∀ o ∈ os, o.Over objects (fun _ => False)) →
    ∀ o ∈ os, (∀ p ∈ o.params, p.Called t) ∧ o.result.Called t
  | [], _ => by simp
  | ⟨_, params, result⟩ :: os, plain => by
      obtain ⟨⟨accepted, given⟩, others⟩ := List.forall_mem_cons.mp plain
      refine List.forall_mem_cons.mpr ⟨⟨?_, ?_⟩, Ty.Over.calledOverloads t os others⟩
      · exact Ty.Over.calledAll t params accepted
      · exact Ty.Over.called t result given

end

theorem Ty.Called.contributes {t : ClassTable} {type : Ty} (called : type.Called t) :
    type.elements.Forall (Ty.Called t) := by
  cases type with
  | spread inner => exact called.elements
  | _ => exact Runs.forall_cons.mpr ⟨called, Runs.forall_nil⟩

/-- Class values go by the names of their classes, and annotations have none. -/
def naming : Discipline where
  spelled _ type := type.Over (fun _ => True) fun _ => False
  bound t _ type := type.Called t
  given t _ type := type.Called t
  excess _ := True
  excess_mono _ := id
  spelled_mono _ := id
  bound_mono kept _ called := called.mono kept
  given_mono kept _ called := called.mono kept
  bound_of_spelled := Ty.Over.called _ _
  given_of_bound := id
  bound_of_given _ := id
  denoted {_ ids _ term} _ denoted := by
    have resolves : term.lower.Resolves ids fun _ => True :=
      TypeTerm.lower_resolves (fun _ _ _ => trivial) term
    rw [Ty.Resolves, denoted] at resolves
    exact resolves rfl
  classValue := .classValue
  instanceOf := .instanceOf _ _
  noneType := .noneType
  func := ⟨Ty.Called.overload, fun each =>
    .func (fun o listed => (each o listed).1) fun o listed => (each o listed).2⟩
  result plain o listed := (Ty.over_func.mp plain o listed).2
  array := ⟨Ty.Called.item, .array⟩
  spread := Ty.Called.toSpread?
  elements := Ty.Called.elements
  tuple {_ _ _ _ types} found _ := by
    have called := ((List.forall₂_and_left _ _).mp found.flip).1
    have each := Ty.forall_gathered (fun type listed => (called type listed).contributes)
      Runs.forall_nil
    exact ⟨.tuple each, .inr trivial⟩

/-! ## Checkers -/

/-- The checker has these classes, and in all that it holds class values go by their names. -/
def Checker.Called (t : ClassTable) (s : Checker) : Prop := ∀ B, s.Orderly naming t B

/-- The bound has no part in it. -/
theorem Checker.Orderly.called {t : ClassTable} {s : Checker} {B : Nat}
    (orderly : s.Orderly naming t B) : s.Called t :=
  fun _ => ⟨orderly.sound, orderly.obeys.toAll, orderly.obeys.classes, orderly.obeys.declared⟩

theorem Checker.Called.noted {t : ClassTable} {s s' : Checker} (called : s.Called t)
    (noted : s.Noted s') : s'.Called t := fun B => (called B).noted noted

namespace Check

variable {t : ClassTable} {s s' : Checker}

/-- A check of an expression leaves the class values of the bindings alone. -/
theorem checkExpr_called {e checked : Expr} {found : Option Ty} (called : s.Called t)
    (ran : checkExpr e s = .ok ((checked, found), s')) : s'.Called t := by
  obtain ⟨B, C, leads⟩ := exists_leads e.extent
  exact ((checkExpr_orderly e leads s (called B)).of_ran ran).1.called

/-- The class values in the types of the items are called by the names of their classes. -/
theorem checkExprs_called {es checked : List Expr} {found : Option (List Ty)}
    (called : s.Called t) (ran : checkExprs es s = .ok ((checked, found), s')) :
    ∀ types ∈ found, ∀ type ∈ types, type.Called t := by
  obtain ⟨B, C, leads⟩ := exists_leads (Expr.extents es)
  have held := ((checkExprs_orderly es leads s (called B)).of_ran ran).2
  exact fun types given => Discipline.given_of_finds (held types given).2

end Check

/-! ## Whole programs -/

/-- Whether the type is a class value with the name of its class. -/
def ClassTable.names (t : ClassTable) : Ty → Bool
  | .classValue id name => t.classes[id]?.any (·.name == name)
  | _ => false

/-- The class values of a type are called by their classes' names if the table says so of each. -/
theorem Ty.called_of_names {t : ClassTable} {type : Ty} (names : t.names type = true) :
    type.Called t := by
  cases type with
  | classValue id name =>
    rw [ClassTable.names] at names
    cases found : t.classes[id]? with
    | none =>
      rw [found] at names
      cases names
    | some c =>
      rw [found] at names
      rw [← eq_of_beq (a := c.name) names]
      exact .classValue (ClassTable.get_eq_ok.mpr found)
  | _ => cases names

/-- At the start only the builtin classes are bound, each to its name. -/
theorem Checker.initial_naming {w : Bool} {s : Checker} (initial : Checker.initial w = .ok s) :
    s.Obeys naming s.classes 1 := by
  have computed : ((Checker.initial w).toOption.any fun s =>
      s.frame.bindings.entries.all fun entry => s.classes.names entry.2.type) = true := by
    cases w <;> decide +kernel
  obtain ⟨_, ran, holds⟩ := exists_ok_of_any computed
  obtain ⟨start, initial', sound, fresh⟩ := Checker.initial_ok w
  cases initial.symm.trans ran
  cases initial.symm.trans initial'
  obtain ⟨⟨builtins, classes⟩, _, rest⟩ := bind_eq_ok.mp initial
  obtain ⟨bindings, _, same⟩ := bind_eq_ok.mp rest
  cases same
  refine ⟨⟨⟨fun name b found => ?_, nofun, nofun⟩, nofun⟩, rfl, fun c listed => ?_⟩
  · exact Ty.called_of_names (List.all_eq_true.mp holds _ (NameMap.mem_of_lookup found))
  · obtain ⟨id, known, rfl⟩ := List.getElem_of_mem listed
    obtain ⟨_, got, limited⟩ := sound.coherent.get_ok known
    cases (List.getElem?_eq_getElem known).symm.trans (ClassTable.get_eq_ok.mp got)
    obtain ⟨fields, constructors⟩ := limited.mono fun _ _ => trivial
    exact ⟨fields, constructors⟩

/-- Whatever the check comes across, class values then have the names of their classes. -/
theorem Program.Meets.called {p : Program} {w : Bool} {code : Code} {s : Checker}
    (met : p.Meets w code s) : s.Called s.classes := by
  obtain ⟨B, orderly, _⟩ := met.orderly fun _ => Checker.initial_naming
  exact orderly.called

end ShapeLang
