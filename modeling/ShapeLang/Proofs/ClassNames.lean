import ShapeLang.Proofs.Stability

/-!
# Names of classes

Every class is known under its own name and under no other, and at the root that
name is bound to the class for good. A name that is still free there is therefore
not the name of a class.
-/

namespace ShapeLang

def Ty.isClass (id : ClassId) (name : String) : Ty → Bool
  | .classValue id' name' => id' == id && name' == name
  | _ => false

theorem Ty.isClass_iff {id : ClassId} {name : String} {type : Ty} :
    type.isClass id name = true ↔ type = .classValue id name := by
  cases type <;> simp [isClass]

/-- The binding of a class: a constant that has been the class all along. -/
structure Binding.Holds (b : Binding) (id : ClassId) (name : String) : Prop where
  type : b.type = .classValue id name
  assigned : b.assigned = .always
  constant : b.constant = true
  resolved : b.unresolved = false

namespace Binding

variable {b b' : Binding} {id : ClassId} {name : String}

theorem holds_iff : b.Holds id name ↔ b.type.isClass id name = true ∧ b.assigned = .always ∧
    b.constant = true ∧ b.unresolved = false := by
  rw [Ty.isClass_iff]
  constructor
  · intro holds
    exact ⟨holds.type, holds.assigned, holds.constant, holds.resolved⟩
  · rintro ⟨type, assigned, constant, resolved⟩
    exact ⟨type, assigned, constant, resolved⟩

instance : Decidable (b.Holds id name) := decidable_of_iff _ holds_iff.symm

/-- A class has nothing to grow into. -/
theorem Holds.grown (holds : b.Holds id name) (grown : b.Grown b') : b'.Holds id name where
  type := by
    rcases Ty.grown_iff.mp grown.type with same | ⟨os, _, function, _⟩
    · exact same.trans holds.type
    · cases holds.type.symm.trans function
  assigned := by
    have rank := grown.assigned
    rw [holds.assigned] at rank
    cases given : b'.assigned with
    | always => rfl
    | sometimes =>
      rw [given] at rank
      exact absurd rank (by decide)
    | never =>
      rw [given] at rank
      exact absurd rank (by decide)
  constant := grown.constant holds.constant
  resolved := grown.resolved

end Binding

/-- At the root, with every class under its own name. -/
structure Checker.Rooted (s : Checker) : Prop where
  outer : s.outer = []
  named : ∀ name id, s.classes.ids.find? name = some id →
    ∃ c, s.classes.get id = .ok c ∧ c.name = name
  listed : ∀ id c, s.classes.get id = .ok c → s.classes.ids.find? c.name = some id
  bound : ∀ id c, s.classes.get id = .ok c → ∃ b, s.lookup? c.name = some b ∧ b.Holds id c.name

/-- What makes the first checker rooted, as far as it can be computed. -/
abbrev Checker.Basic (s : Checker) : Prop :=
  s.outer.isEmpty = true ∧
    (∀ entry ∈ s.classes.ids.entries, ∃ c ∈ s.classes.classes[entry.2]?, c.name = entry.1) ∧
    ∀ id < s.classes.classes.length, ∀ c ∈ s.classes.classes[id]?,
      s.classes.ids.find? c.name = some id ∧ ∃ b ∈ s.lookup? c.name, b.Holds id c.name

/-- By evaluation: the classes a check starts with stand under their own names. -/
theorem Checker.initial_basic (w : Bool) :
    ((Checker.initial w).toOption.any fun s => s.Basic) = true := by
  cases w <;> decide +kernel

namespace Checker.Rooted

variable {s s' : Checker}

theorem of_basic (basic : s.Basic) : s.Rooted := by
  obtain ⟨outer, names, classes⟩ := basic
  have known (id : ClassId) (c : Class) (got : s.classes.get id = .ok c) :
      s.classes.ids.find? c.name = some id ∧ ∃ b ∈ s.lookup? c.name, b.Holds id c.name := by
    have found := ClassTable.get_eq_ok.mp got
    exact classes id (List.getElem?_eq_some_iff.mp found).1 c found
  refine ⟨List.isEmpty_iff.mp outer, ?_, fun id c got => (known id c got).1, ?_⟩
  · intro name id found
    obtain ⟨c, stored, same⟩ := names _ (NameMap.mem_of_lookup found)
    exact ⟨c, ClassTable.get_eq_ok.mpr stored, same⟩
  · intro id c got
    exact (known id c got).2

/-- A check starts with every class under its own name. -/
theorem initial {w : Bool} (initial : Checker.initial w = .ok s) : s.Rooted := by
  have computed := Checker.initial_basic w
  rw [initial] at computed
  exact of_basic (of_decide_eq_true computed)

section

variable (rooted : s.Rooted)
include rooted

/-- A name that is free at the root is not the name of a class. -/
theorem unnamed {name : String} (free : ∀ b, s.lookup? name = some b → b.unresolved = true)
    {id : ClassId} {c : Class} (got : s.classes.get id = .ok c) : c.name ≠ name := by
  rintro rfl
  obtain ⟨b, found, holds⟩ := rooted.bound id c got
  have unresolved := free b found
  rw [holds.resolved] at unresolved
  cases unresolved

theorem not_taken {name : String} (free : ∀ b, s.lookup? name = some b → b.unresolved = true) :
    s.classes.ids.find? name = none := by
  cases taken : s.classes.ids.find? name with
  | none => rfl
  | some id =>
    obtain ⟨c, got, same⟩ := rooted.named name id taken
    exact absurd same (rooted.unnamed free got)

/-- No class loses its name when others are bound: its binding is constant, and stays. -/
theorem grown (outer : s'.outer = s.outer) (classes : s'.classes = s.classes)
    (grown : s.Grown s') : s'.Rooted := by
  refine ⟨outer.trans rooted.outer, ?_, ?_, ?_⟩
  · rw [classes]
    exact rooted.named
  · rw [classes]
    exact rooted.listed
  · intro id c got
    rw [classes] at got
    obtain ⟨b, found, holds⟩ := rooted.bound id c got
    obtain ⟨b', found', grown⟩ := grown c.name b found holds.resolved
    exact ⟨b', found', holds.grown grown⟩

/-- A class that is added and bound under a free name. -/
theorem extend {c : Class} {fits : List (ClassId × ClassId)} {b : Binding}
    (free : ∀ b, s.lookup? c.name = some b → b.unresolved = true)
    (holds : b.Holds s.classes.classes.length c.name) (outer : s'.outer = s.outer)
    (classes : s'.classes = s.classes.extend c fits)
    (lookup : ∀ name, s'.lookup? name = (s.bind c.name b).lookup? name) : s'.Rooted := by
  have ids (name : String) : s'.classes.ids.find? name =
      if name = c.name then some s.classes.classes.length else s.classes.ids.find? name := by
    rw [classes]
    exact NameMap.find?_insert ..
  have got (id : ClassId) (d : Class) : s'.classes.get id = .ok d ↔
      s.classes.get id = .ok d ∨ id = s.classes.classes.length ∧ d = c := by
    rw [classes]
    exact ClassTable.get_append
  refine ⟨outer.trans rooted.outer, ?_, ?_, ?_⟩
  · intro name id found
    rw [ids] at found
    by_cases same : name = c.name
    · rw [if_pos same] at found
      cases found
      exact ⟨c, (got _ _).mpr (.inr ⟨rfl, rfl⟩), same.symm⟩
    · rw [if_neg same] at found
      obtain ⟨d, stored, named⟩ := rooted.named name id found
      exact ⟨d, (got _ _).mpr (.inl stored), named⟩
  · intro id d stored
    rw [ids]
    rcases (got id d).mp stored with old | ⟨rfl, rfl⟩
    · rw [if_neg (rooted.unnamed free old)]
      exact rooted.listed id d old
    · exact if_pos rfl
  · intro id d stored
    rw [lookup, Checker.lookup?_bind]
    rcases (got id d).mp stored with old | ⟨rfl, rfl⟩
    · rw [if_neg (rooted.unnamed free old)]
      exact rooted.bound id d old
    · exact ⟨b, if_pos rfl, holds⟩

end

end Checker.Rooted

namespace Check

open Checker (Rooted)

theorem declareNamed_rooted (decl : ClassDecl) (span : Span) {s : Checker} (rooted : s.Rooted) :
    Gives (declareNamed decl span) s fun _ s' => s'.Rooted := by
  refine (claimClass_outcome decl.name).bind fun result s₁ outcome => ?_
  cases outcome with
  | taken old => exact .after_modify (.pure (rooted.grown rfl rfl (.of_lookup fun _ => rfl)))
  | @claimed id classes free declared =>
    obtain ⟨rfl, rfl⟩ := ClassTable.declare_ok declared
    refine .after_get (.after_lift fun type value => ?_)
    rw [ClassTable.classValue, ClassTable.get_append_new, ok_bind] at value
    cases value
    refine .after_run (define_fresh free) ?_
    refine (collectFields_notes _ _ _).bind ?_
    rintro ⟨fieldsOk, fields⟩ s₃ noted
    refine (collectConstructors_notes _ _).bind ?_
    rintro ⟨constructorsOk, constructors⟩ s₄ noted'
    have later := noted.trans noted'
    refine .after_get (.after_lift fun filled modified => .after_lift fun registered ran => ?_)
    rw [later.classes] at modified
    replace modified := (ClassTable.modify_append _ _ rfl).symm.trans modified
    cases modified
    obtain ⟨_, fits, _, rfl⟩ := ClassTable.register_eq_ok ran
    refine .after_set (.pure ?_)
    have holds : (⟨.classValue s.classes.classes.length decl.name, .always, true, false, span⟩ :
        Binding).Holds s.classes.classes.length decl.name := ⟨rfl, rfl, rfl, rfl⟩
    exact rooted.extend (c := ⟨decl.name, constructors, fields⟩) free holds
      (Checker.Advanced.of_noted later).outer rfl later.lookup?

/-- A class declaration brings its class under its own name; any other statement leaves the
classes and their names alone. -/
theorem checkStmt_rooted (stmt : Stmt) {s : Checker} (rooted : s.Rooted) :
    Gives (checkStmt stmt) s fun _ s' => s'.Rooted := by
  by_cases declares : ∃ decl span, stmt = .classDecl decl span
  · obtain ⟨decl, span, rfl⟩ := declares
    have root : s.atRoot = true := by simp [Checker.atRoot, rooted.outer]
    have after {s s' : Checker} (rooted : s.Rooted) (noted : s.Noted s') : s'.Rooted :=
      rooted.grown (Checker.Advanced.of_noted noted).outer noted.classes (.of_noted noted)
    rw [checkStmt]
    refine Gives.bind (.of_run (declareClass_root decl span root) ?_) fun _ _ later => .pure later
    refine (warnIf_notes _ _ _ s).bind fun _ s₁ noted => ?_
    refine (warnIf_notes _ _ _ s₁).bind fun _ s₂ noted' => ?_
    exact declareNamed_rooted decl span (after rooted (noted.trans noted'))
  · refine ((checkStmt_kept stmt s).and (checkStmt_advances stmt s)).imp fun _ s' given => ?_
    obtain ⟨kept, advanced⟩ := given
    have classes := kept.classes fun decl span same => declares ⟨decl, span, same⟩
    exact rooted.grown advanced.outer classes kept.grown

theorem checkStmts_rooted (stmts : List Stmt) {s : Checker} (rooted : s.Rooted) :
    Gives (checkStmts stmts) s fun _ s' => s'.Rooted := by
  induction stmts generalizing s with
  | nil =>
    rw [checkStmts]
    exact .pure rooted
  | cons stmt stmts ih =>
    rw [checkStmts]
    refine (checkStmt_rooted stmt rooted).bind fun _ s₁ first => ?_
    exact (ih first).bind fun _ s₂ rest => .pure rest

end Check

/-- Whenever a statement of the program's own is reached, every class stands under its own name. -/
theorem Program.reach_rooted {w : Bool} {stmts : List Stmt} {s : Checker}
    (reached : Program.reach w stmts = .ok s) : s.Rooted := by
  obtain ⟨start, initial, rest⟩ := bind_eq_ok.mp reached
  obtain ⟨⟨checked, s'⟩, ran, final⟩ := bind_eq_ok.mp rest
  cases final
  exact Check.checkStmts_rooted stmts (.initial initial) _ _ ran

/-- Between two statements of the top level: the registered classes are all classes, in order;
the names lead to the classes of these names and to nothing else; what classes mention are
instances of classes that are there; and every class is bound to its name as a constant. So a
name that nothing is bound to, or that failed to get a value, is not the name of a class. Every
such point is reached, unless a tuple before it is too long to be counted. -/
theorem Program.classes_named (p : Program) (w : Bool) (k : Nat) :
    (∃ s, Program.reach w (p.body.take k) = .ok s ∧ s.outer = [] ∧
      s.classes.registered = List.range s.classes.classes.length ∧
      (∀ name id, s.classes.ids.find? name = some id ↔
        ∃ c, s.classes.classes[id]? = some c ∧ c.name = name) ∧
      (∀ c ∈ s.classes.classes, c.Over (· < s.classes.classes.length)) ∧
      (∀ id c, s.classes.classes[id]? = some c → ∃ b, s.lookup? c.name = some b ∧
        b.type = .classValue id c.name ∧ b.assigned = .always ∧ b.constant = true ∧
        b.unresolved = false) ∧
      ∀ name, (∀ b, s.lookup? name = some b → b.unresolved = true) →
        s.classes.ids.find? name = none) ∨
    Program.reach w (p.body.take k) = .error .countOverflow := by
  refine (Program.reach_ends w (p.body.take k)).imp_left ?_
  rintro ⟨s, reached, sound⟩
  have rooted := Program.reach_rooted reached
  have coherent := sound.coherent
  refine ⟨s, reached, rooted.outer, coherent.registered, ?_, ?_, ?_, fun name => rooted.not_taken⟩
  · intro name id
    constructor
    · intro found
      obtain ⟨c, got, named⟩ := rooted.named name id found
      exact ⟨c, ClassTable.get_eq_ok.mp got, named⟩
    · rintro ⟨c, got, rfl⟩
      exact rooted.listed id c (ClassTable.get_eq_ok.mpr got)
  · intro c listed
    obtain ⟨id, known, rfl⟩ := List.getElem_of_mem listed
    obtain ⟨_, got, limited⟩ := coherent.get_ok known
    cases (List.getElem?_eq_getElem known).symm.trans (ClassTable.get_eq_ok.mp got)
    exact limited
  · intro id c got
    obtain ⟨b, found, holds⟩ := rooted.bound id c (ClassTable.get_eq_ok.mpr got)
    exact ⟨b, found, holds.type, holds.assigned, holds.constant, holds.resolved⟩

end ShapeLang
