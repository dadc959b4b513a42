import ShapeLang.Proofs.Accepted
import ShapeLang.Proofs.Registration
import ShapeLang.Proofs.Stability

/-!
# Where fitting is transitive

A class that mentions itself is compared before it is known what it fits, and a
comparison stops at tuples. If no class of a program does the one or holds the other,
what is kept at registration is the verdict on the fields, and fitting is transitive
from the first class to the last.
-/

namespace ShapeLang

mutual

/-- The annotation holds no tuple and does not name the class. -/
def TypeTerm.avoids (own : String) : TypeTerm → Bool
  | .named name generics _ => name != own && TypeTerm.avoidsList own generics
  | .noneType _ => true
  | .tuple .. => false
  | .function signature => signature.avoids own
  | .overloads members _ => TypeTerm.avoidsSignatures own members
  | .array item _ => item.avoids own
  | .maybe item _ => item.avoids own

def TypeTerm.avoidsList (own : String) : List TypeTerm → Bool
  | [] => true
  | a :: as => a.avoids own && TypeTerm.avoidsList own as

def TypeTerm.avoidsSignatures (own : String) : List Signature → Bool
  | [] => true
  | s :: ss => s.avoids own && TypeTerm.avoidsSignatures own ss

def Signature.avoids (own : String) : Signature → Bool
  | ⟨params, result, _⟩ => TypeTerm.avoidsList own params && result.avoids own

end

/-- No field of the class holds a tuple or mentions the class itself. -/
def ClassDecl.founded (decl : ClassDecl) : Bool := decl.fields.all (·.term.avoids decl.name)

/-- All classes that the program declares are of this kind. -/
def Program.Founded (p : Program) : Prop :=
  ∀ decl span, .classDecl decl span ∈ p.body → decl.founded = true

/-! ## What such an annotation denotes -/

section

variable {own : String} {id : ClassId} {ids : NameMap ClassId}

mutual

/-- A name that does not occur need not be looked up. -/
theorem TypeTerm.resolve_insert : (term : TypeTerm) → term.avoids own = true →
    term.lower.resolve (ids.insert own id) = term.lower.resolve ids
  | .named name generics _, avoids => by
      simp only [TypeTerm.avoids, Bool.and_eq_true, bne_iff_ne] at avoids
      rw [TypeTerm.lower]
      cases TypeTerm.lowerList generics with
      | nil => rw [Ty.resolve, Ty.resolve, NameMap.find?_insert, if_neg avoids.1]
      | cons g gs => rw [Ty.resolve, Ty.resolve]
  | .noneType _, _ => by simp only [TypeTerm.lower, Ty.resolve]
  | .tuple .., avoids => by simp [TypeTerm.avoids] at avoids
  | .function signature, avoids => by
      have same := Signature.resolve_insert signature avoids
      simp only [TypeTerm.lower, Ty.resolve, Ty.resolveOverloads, same]
  | .overloads members _, avoids => by
      have same := TypeTerm.resolveSignatures_insert members avoids
      simp only [TypeTerm.lower, Ty.resolve, same]
  | .array item _, avoids => by
      have same := TypeTerm.resolve_insert item avoids
      simp only [TypeTerm.lower, Ty.resolve, same]
  | .maybe item _, avoids => by
      have same := TypeTerm.resolve_insert item avoids
      simp only [TypeTerm.lower, Ty.resolve, same]

/-- An annotation that avoids a name resolves alike whatever the name stands for. -/
theorem TypeTerm.resolveList_insert : (terms : List TypeTerm) →
    TypeTerm.avoidsList own terms = true →
    Ty.resolveList (ids.insert own id) (TypeTerm.lowerList terms) =
      Ty.resolveList ids (TypeTerm.lowerList terms)
  | [], _ => by simp only [TypeTerm.lowerList, Ty.resolveList]
  | term :: terms, avoids => by
      rw [TypeTerm.avoidsList, Bool.and_eq_true] at avoids
      have first := TypeTerm.resolve_insert term avoids.1
      have rest := TypeTerm.resolveList_insert terms avoids.2
      simp only [TypeTerm.lowerList, Ty.resolveList, first, rest]

theorem TypeTerm.resolveSignatures_insert : (signatures : List Signature) →
    TypeTerm.avoidsSignatures own signatures = true →
    Ty.resolveOverloads (ids.insert own id) (TypeTerm.lowerSignatures signatures) =
      Ty.resolveOverloads ids (TypeTerm.lowerSignatures signatures)
  | [], _ => by simp only [TypeTerm.lowerSignatures, Ty.resolveOverloads]
  | signature :: signatures, avoids => by
      rw [TypeTerm.avoidsSignatures, Bool.and_eq_true] at avoids
      have first := Signature.resolve_insert signature avoids.1
      have rest := TypeTerm.resolveSignatures_insert signatures avoids.2
      simp only [TypeTerm.lowerSignatures, Ty.resolveOverloads, first, rest]

theorem Signature.resolve_insert : (signature : Signature) → signature.avoids own = true →
    signature.lower.resolve (ids.insert own id) = signature.lower.resolve ids
  | ⟨params, result, _⟩, avoids => by
      rw [Signature.avoids, Bool.and_eq_true] at avoids
      have accepted := TypeTerm.resolveList_insert params avoids.1
      have given := TypeTerm.resolve_insert result avoids.2
      simp only [Signature.lower, Overload.resolve, accepted, given]

end

mutual

theorem TypeTerm.lower_plain : (term : TypeTerm) → term.avoids own = true →
    term.lower.plain = true
  | .named .., _ => by simp only [TypeTerm.lower, Ty.plain]
  | .noneType _, _ => by simp only [TypeTerm.lower, Ty.plain]
  | .tuple .., avoids => by simp [TypeTerm.avoids] at avoids
  | .function signature, avoids => by
      have plain := Signature.lower_plain signature avoids
      simp only [TypeTerm.lower, Ty.plain, Ty.plainOverloads, plain, Bool.and_self]
  | .overloads members _, avoids => TypeTerm.lowerSignatures_plain members avoids
  | .array item _, avoids => TypeTerm.lower_plain item avoids
  | .maybe item _, avoids => TypeTerm.lower_plain item avoids

theorem TypeTerm.lowerList_plain : (terms : List TypeTerm) →
    TypeTerm.avoidsList own terms = true → Ty.plainList (TypeTerm.lowerList terms) = true
  | [], _ => rfl
  | term :: terms, avoids => by
      rw [TypeTerm.avoidsList, Bool.and_eq_true] at avoids
      rw [TypeTerm.lowerList, Ty.plainList, Bool.and_eq_true]
      exact ⟨TypeTerm.lower_plain term avoids.1, TypeTerm.lowerList_plain terms avoids.2⟩

theorem TypeTerm.lowerSignatures_plain : (signatures : List Signature) →
    TypeTerm.avoidsSignatures own signatures = true →
    Ty.plainOverloads (TypeTerm.lowerSignatures signatures) = true
  | [], _ => rfl
  | signature :: signatures, avoids => by
      rw [TypeTerm.avoidsSignatures, Bool.and_eq_true] at avoids
      rw [TypeTerm.lowerSignatures, Ty.plainOverloads, Bool.and_eq_true]
      exact ⟨Signature.lower_plain signature avoids.1,
        TypeTerm.lowerSignatures_plain signatures avoids.2⟩

theorem Signature.lower_plain : (signature : Signature) → signature.avoids own = true →
    signature.lower.plain = true
  | ⟨params, result, _⟩, avoids => by
      rw [Signature.avoids, Bool.and_eq_true] at avoids
      have accepted := TypeTerm.lowerList_plain params avoids.1
      have given := TypeTerm.lower_plain result avoids.2
      simp [Signature.lower, Overload.plain, accepted, given]

end

mutual

/-- Looking names up changes which classes a type mentions and nothing else of it. -/
theorem Ty.plain_resolve : (type : Ty) → (type.resolve ids).1.plain = type.plain
  | .object name id [] => by
      rw [Ty.resolve]
      split <;> simp only [Ty.plain]
  | .object _ _ (_ :: _) => by simp only [Ty.resolve]
  | .func os => by simp only [Ty.resolve, Ty.plain, Ty.plainOverloads_resolve os]
  | .array item => by simp only [Ty.resolve, Ty.plain, Ty.plain_resolve item]
  | .maybe item => by simp only [Ty.resolve, Ty.plain, Ty.plain_resolve item]
  | .tuple _ => by simp only [Ty.resolve, Ty.plain]
  | .spread _ => by simp only [Ty.resolve, Ty.plain]
  | .classValue .. => by simp only [Ty.resolve]
  | .noneType => by simp only [Ty.resolve]

theorem Ty.plainList_resolve : (types : List Ty) →
    Ty.plainList (Ty.resolveList ids types).1 = Ty.plainList types
  | [] => by simp only [Ty.resolveList]
  | type :: types => by
      have first := Ty.plain_resolve type
      have rest := Ty.plainList_resolve types
      rw [Ty.resolveList]
      split <;> rename_i found <;> rw [found] at first <;> simp only [Ty.plainList, first, rest]

theorem Ty.plainOverloads_resolve : (os : List Overload) →
    Ty.plainOverloads (Ty.resolveOverloads ids os).1 = Ty.plainOverloads os
  | [] => by simp only [Ty.resolveOverloads]
  | o :: os => by
      have first := Overload.plain_resolve o
      have rest := Ty.plainOverloads_resolve os
      rw [Ty.resolveOverloads]
      split <;> rename_i found <;> rw [found] at first <;>
        simp only [Ty.plainOverloads, first, rest]

theorem Overload.plain_resolve : (o : Overload) → (o.resolve ids).1.plain = o.plain
  | ⟨_ :: _, _, _⟩ => by simp only [Overload.resolve]
  | ⟨[], params, result⟩ => by
      have accepted := Ty.plainList_resolve params
      have given := Ty.plain_resolve result
      rw [Overload.resolve]
      split <;> rename_i found <;> rw [found] at accepted <;>
        simp only [Overload.plain, accepted, given]

end

end

namespace ClassTable

variable {t t' : ClassTable}

/-- A field of a class that does not mention itself is plain, and the classes it mentions are
registered before. -/
theorem Coherent.denoted_regular (coherent : t.Coherent) {decl : ClassDecl}
    (founded : decl.founded = true) {type : Ty}
    (denoted : decl.Denotes (t.ids.insert decl.name t.classes.length) type) :
    type.plain = true ∧ type.Over (· ∈ t.registered) fun _ => False := by
  obtain ⟨group, listed, found⟩ := denoted
  have avoids := List.all_eq_true.mp founded group listed
  have resolved : group.term.lower.resolve t.ids = (type, none) :=
    (group.term.resolve_insert avoids).symm.trans found
  have known (name : String) (id : ClassId) (entry : t.ids.find? name = some id) :
      id ∈ t.registered := by
    rw [coherent.registered, List.mem_range]
    exact coherent.ids name id entry
  have limited := group.term.lower_resolves known
  have plain : (group.term.lower.resolve t.ids).1.plain = group.term.lower.plain :=
    Ty.plain_resolve _
  unfold Ty.Resolves at limited
  rw [resolved] at limited plain
  exact ⟨plain.trans (group.term.lower_plain avoids), limited rfl⟩

/-- What is kept about the classes is the verdict on their fields. These hold no tuples, and
fitting is transitive. -/
structure Ordered (t : ClassTable) : Prop where
  settled : t.Settled
  plain : ∀ id ∈ t.registered, ∀ c, t.get id = .ok c →
    ∀ entry ∈ c.fields.entries, entry.2.plain = true
  transitive : t.Transitive

theorem Settled.regular (settled : t.Settled)
    (plain : ∀ id ∈ t.registered, ∀ c, t.get id = .ok c →
      ∀ entry ∈ c.fields.entries, entry.2.plain = true) {id : ClassId}
    (listed : id ∈ t.registered) : t.RegularClass id := by
  obtain ⟨c, got, limited⟩ := settled.closed id listed
  refine ⟨c, got, fun entry field => ⟨plain id listed c got entry field, ?_⟩⟩
  exact (limited entry field).mono (fun _ _ => trivial) fun _ => False.elim

/-- If the verdicts on fields are kept as they are, fitting is transitive after a class has been
registered if it was before. -/
theorem Settled.enrol_transitive {id : ClassId} {c : Class} {fits : List (ClassId × ClassId)}
    (settled : t.Settled) (transitive : t.Transitive) (new : id ∉ t.registered)
    (paired : t.Paired id fits) (got : t.get id = .ok c)
    (ready : c.FieldsOver (· ∈ t.registered))
    (regular : ∀ other ∈ t.registered ++ [id], t.RegularClass other) :
    (t.enrol id fits).Transitive := by
  have next := settled.enrol new paired got ready
  refine transitive_iff.mpr fun first kept second kept' same => ?_
  obtain ⟨a, b⟩ := first
  obtain ⟨b', d⟩ := second
  obtain rfl : b = b' := same
  obtain ⟨low, middle⟩ := next.fits _ kept
  obtain ⟨_, high⟩ := next.fits _ kept'
  have below := (settled.isA_enrol new paired low middle).mp (isA_iff.mpr (.inr kept))
  have above := (settled.isA_enrol new paired middle high).mp (isA_iff.mpr (.inr kept'))
  refine (settled.isA_enrol new paired low high).mpr ?_
  exact satisfies_trans transitive (regular a low) (regular b middle) (regular d high) below above

/-- A declaration of a class that does not mention itself keeps the order. -/
theorem Ordered.declared (ordered : t.Ordered) (coherent : t.Coherent) {decl : ClassDecl}
    (founded : decl.founded = true) (outcome : Check.DeclOutcome decl t t') : t'.Ordered := by
  cases outcome with
  | refused => exact ordered
  | @declared constructors fields t' denoted registered =>
    have each (entry : String × Ty) (field : entry ∈ fields.entries) :=
      coherent.denoted_regular founded (denoted entry field)
    have grown : (t.append ⟨decl.name, constructors, fields⟩).Settled :=
      ordered.settled.grow (List.prefix_append _ _) rfl rfl
    have new : t.classes.length ∉ (t.append ⟨decl.name, constructors, fields⟩).registered := by
      show t.classes.length ∉ t.registered
      rw [coherent.registered, List.mem_range]
      omega
    have ready : Class.FieldsOver (· ∈ t.registered) ⟨decl.name, constructors, fields⟩ :=
      fun entry field => (each entry field).2
    obtain ⟨fits, ran, paired⟩ := grown.register_ok new get_append_new ready
    cases registered.symm.trans ran
    have next := grown.enrol new paired get_append_new ready
    have plain (id : ClassId) (listed : id ∈ t.registered ++ [t.classes.length]) (c : Class)
        (got : (t.append ⟨decl.name, constructors, fields⟩).get id = .ok c) :
        ∀ entry ∈ c.fields.entries, entry.2.plain = true := by
      rcases List.mem_append.mp listed with old | last
      · have below : id < t.classes.length := by
          rw [coherent.registered] at old
          exact List.mem_range.mp old
        rw [get_append_old below] at got
        exact ordered.plain id old c got
      · obtain rfl := List.mem_singleton.mp last
        cases get_append_new.symm.trans got
        exact fun entry field => (each entry field).1
    have regular (id : ClassId) (listed : id ∈ t.registered ++ [t.classes.length]) :
        (t.append ⟨decl.name, constructors, fields⟩).RegularClass id := next.regular plain listed
    exact ⟨next, plain, grown.enrol_transitive ordered.transitive new paired get_append_new ready
      regular⟩

end ClassTable

/-! ## Runs -/

theorem addBuiltins_plain : ((ClassTable.addBuiltins {}).toOption.any fun p =>
    p.2.classes.all fun c => c.fields.entries.all (·.2.plain)) = true := by
  decide +kernel

theorem Checker.initial_ordered {w : Bool} {s : Checker} (initial : Checker.initial w = .ok s) :
    s.classes.Ordered := by
  unfold Checker.initial at initial
  obtain ⟨⟨b, t⟩, added, rest⟩ := bind_eq_ok.mp initial
  obtain ⟨bindings, _, same⟩ := bind_eq_ok.mp rest
  cases same
  have computed := addBuiltins_basic
  have plain := addBuiltins_plain
  rw [added] at computed plain
  obtain ⟨_, basic⟩ := of_decide_eq_true computed
  have unrelated : t.fits = [] := basic.2.2.1
  simp only [Except.toOption, Option.any_some, List.all_eq_true] at plain
  refine ⟨basic.settled, fun id _ c got => ?_, ClassTable.transitive_iff.mpr ?_⟩
  · exact plain c (List.mem_of_getElem? (ClassTable.get_eq_ok.mp got))
  · simp [unrelated]

namespace Check

/-- By induction on the statements: founded classes are added in order. -/
theorem checkStmts_ordered {stmts : List Stmt}
    (founded : ∀ decl span, .classDecl decl span ∈ stmts → decl.founded = true) {n : Nat}
    {s : Checker} (sound : s.Sound n) (ordered : s.classes.Ordered) :
    Gives (checkStmts stmts) s fun _ s' => s'.classes.Ordered := by
  induction stmts generalizing n s with
  | nil =>
    rw [checkStmts]
    exact .pure ordered
  | cons stmt stmts ih =>
    have first : Gives (checkStmt stmt) s fun _ s' => s'.classes.Ordered := by
      by_cases declares : ∃ decl span, stmt = .classDecl decl span
      · obtain ⟨decl, span, rfl⟩ := declares
        have own := founded decl span List.mem_cons_self
        rw [checkStmt]
        refine (declareClass_classes decl span).bind fun _ s₁ outcome => .pure ?_
        exact ordered.declared sound.coherent own outcome
      · refine (checkStmt_kept stmt s).imp fun _ s' kept => ?_
        rw [kept.classes fun decl span same => declares ⟨decl, span, same⟩]
        exact ordered
    rw [checkStmts]
    refine first.ran.bind fun _ s₁ ⟨ran, ordered₁⟩ => ?_
    have sound₁ := (checkStmt_proceeds n stmt).of_ran sound ran
    have rest := ih (fun decl span later => founded decl span (List.mem_cons_of_mem _ later))
      sound₁ ordered₁
    exact rest.bind fun _ s₂ ordered₂ => .pure ordered₂

end Check

/-- The classes of a founded program are in order. -/
theorem Program.Ran.ordered {p q : Program} {w ok : Bool} {start s : Checker} {c : Checked}
    (ran : p.Ran w start q ok s c) (founded : p.Founded) : s.classes.Ordered := by
  obtain ⟨start', initial, sound, _⟩ := Checker.initial_ok w
  cases initial.symm.trans ran.initial
  have walked := Check.checkProgram_stmts p _ s ran.walked
  exact Check.checkStmts_ordered founded sound (Checker.initial_ordered initial) _ _ walked

end ShapeLang
