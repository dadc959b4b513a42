import Mathlib.Data.List.Forall2
import ShapeLang.Proofs.Stability

/-!
# Which candidate is selected

A call, a construction and an operator select the first candidate that takes the
arguments; a cast selects the first overload that gives its target. What is selected
stays the first when there are more classes, and an annotation goes on to denote the
same type, since no name of a class is given away twice.
-/

namespace ShapeLang

/-- The candidate with the index is the first of which `P` holds. -/
structure FirstOf {α : Type} (P : α → Prop) (candidates : List α) (index : Nat) (chosen : α) :
    Prop where
  listed : candidates[index]? = some chosen
  holds : P chosen
  before : ∀ i < index, ∀ other, candidates[i]? = some other → ¬ P other

namespace FirstOf

variable {α : Type} {P Q : α → Prop} {candidates : List α} {index : Nat} {chosen : α}

theorem cons {c : α} (passedOver : ¬ P c) (first : FirstOf P candidates index chosen) :
    FirstOf P (c :: candidates) (index + 1) chosen := by
  refine ⟨first.listed, first.holds, fun i before other listed => ?_⟩
  cases i with
  | zero =>
    cases listed
    exact passedOver
  | succ i => exact first.before i (Nat.lt_of_succ_lt_succ before) other listed

/-- The first with one property is the first with another if they agree on the candidates. -/
theorem congr (same : ∀ c ∈ candidates, P c ↔ Q c) (first : FirstOf P candidates index chosen) :
    FirstOf Q candidates index chosen where
  listed := first.listed
  holds := (same chosen (List.mem_of_getElem? first.listed)).mp first.holds
  before i before other listed holds := first.before i before other listed
    ((same other (List.mem_of_getElem? listed)).mpr holds)

theorem of_findIdx? {p : α → Bool} (found : candidates.findIdx? p = some index) :
    ∃ chosen, FirstOf (p · = true) candidates index chosen := by
  obtain ⟨below, holds, before⟩ := List.findIdx?_eq_some_iff_getElem.mp found
  refine ⟨candidates[index], List.getElem?_eq_getElem below, holds, fun i less other listed => ?_⟩
  obtain ⟨_, rfl⟩ := List.getElem?_eq_some_iff.mp listed
  exact before i less

end FirstOf

/-- What the first map has under a name, the second has too. -/
def NameMap.Within {α : Type} (m m' : NameMap α) : Prop :=
  ∀ name a, m.find? name = some a → m'.find? name = some a

namespace ClassTable

variable {t t' t'' : ClassTable}

/-- The arguments stand for the parameters, one for each. -/
def Takes (t : ClassTable) (params arguments : List Ty) : Prop :=
  List.Forall₂ (fun param argument => t.compare argument param = .ok (.ok ())) params arguments

theorem acceptAll_eq_yes {accepted passed : List Ty} (same : accepted.length = passed.length) :
    t.acceptAll t.satisfies accepted passed = .ok (.ok ()) ↔ t.Takes accepted passed := by
  induction accepted generalizing passed with
  | nil =>
    obtain rfl := List.length_eq_zero_iff.mp same.symm
    simp [acceptAll, Takes]
  | cons param accepted ih =>
    cases passed with
    | nil => cases same
    | cons argument passed =>
      rw [acceptAll, bind_eq_ok, Takes, List.forall₂_cons]
      constructor
      · rintro ⟨verdict, compared, rest⟩
        cases verdict with
        | error reason => cases rest
        | ok yes => exact ⟨compared, (ih (Nat.succ.inj same)).mp rest⟩
      · rintro ⟨compared, rest⟩
        exact ⟨.ok (), compared, (ih (Nat.succ.inj same)).mpr rest⟩

section

variable {α : Type} {params : α → List Ty} {arguments : List Ty} {candidates : List α}

/-- The search finds the first candidate that takes the arguments, counted from the start. -/
theorem firstViable?_selects {start index : Nat} {found : α}
    (run : t.firstViable? params arguments start candidates = .ok (.ok (some (index, found)))) :
    FirstOf (fun c => t.Takes (params c) arguments) candidates (index - start) found := by
  induction candidates generalizing start with
  | nil => cases run
  | cons c cs ih =>
    have later (passedOver : ¬ t.Takes (params c) arguments)
        (run : t.firstViable? params arguments (start + 1) cs =
          .ok (.ok (some (index, found)))) :
        FirstOf (fun c => t.Takes (params c) arguments) (c :: cs) (index - start) found := by
      have after := (firstViable?_index run).1
      have shifted : index - start = (index - (start + 1)) + 1 := by omega
      exact shifted ▸ (ih run).cons passedOver
    rw [firstViable?] at run
    split at run
    · rename_i differ
      refine later (fun takes => ?_) run
      have same := takes.length_eq
      simp [same] at differ
    · rename_i fitting
      have same : (params c).length = arguments.length := by simpa using fitting
      obtain ⟨verdict, accepted, run⟩ := bind_eq_ok.mp run
      rcases verdict with (_ | feature) | _
      · refine later (fun takes => ?_) run
        cases accepted.symm.trans ((acceptAll_eq_yes same).mpr takes)
      · cases run
      · cases run
        rw [Nat.sub_self]
        exact ⟨rfl, (acceptAll_eq_yes same).mp accepted, by simp⟩

end

/-! ## More classes -/

/-- The second table has the classes of the first, under the names they had. -/
structure Grows (t t' : ClassTable) : Prop extends t.Precedes t' where
  names : t.ids.Within t'.ids

namespace Grows

theorem refl (t : ClassTable) : t.Grows t := ⟨.refl t, fun _ _ found => found⟩

theorem trans (first : t.Grows t') (second : t'.Grows t'') : t.Grows t'' :=
  ⟨first.toPrecedes.trans second.toPrecedes,
    fun name id found => second.names name id (first.names name id found)⟩

end Grows

section

variable (precedes : t.Precedes t') (coherent : t.Coherent)
include precedes coherent

/-- Whether arguments are taken does not change when classes are added. -/
theorem Precedes.takes {params arguments : List Ty}
    (left : ∀ p ∈ params, p.Known t.classes.length)
    (right : ∀ a ∈ arguments, a.Known t.classes.length) :
    t'.Takes params arguments ↔ t.Takes params arguments := by
  induction params generalizing arguments with
  | nil => simp [Takes]
  | cons param params ih =>
    cases arguments with
    | nil => simp [Takes]
    | cons argument arguments =>
      obtain ⟨first, params⟩ := List.forall_mem_cons.mp left
      obtain ⟨first', arguments⟩ := List.forall_mem_cons.mp right
      have rest := ih params arguments
      unfold Takes at rest ⊢
      rw [List.forall₂_cons, List.forall₂_cons, rest, precedes.compare coherent first' first]

/-- The first candidate that takes the arguments stays the first when classes are added. -/
theorem Precedes.firstOf {α : Type} {params : α → List Ty} {candidates : List α}
    {arguments : List Ty} {index : Nat} {chosen : α}
    (left : ∀ c ∈ candidates, ∀ p ∈ params c, p.Known t.classes.length)
    (right : ∀ a ∈ arguments, a.Known t.classes.length)
    (first : FirstOf (fun c => t.Takes (params c) arguments) candidates index chosen) :
    FirstOf (fun c => t'.Takes (params c) arguments) candidates index chosen :=
  first.congr fun c listed => (precedes.takes coherent (left c listed) right).symm

end

end ClassTable

/-! ## Annotations -/

section

variable {ids ids' : NameMap ClassId}

mutual

/-- What could be resolved is resolved in the same way when there are more names. -/
theorem Ty.resolve_more (more : ids.Within ids') : (type : Ty) → (type.resolve ids).2 = none →
    type.resolve ids' = type.resolve ids
  | .object name id [], known => by
      rw [Ty.resolve] at known ⊢
      split at known
      · rename_i found same
        rw [Ty.resolve, same, more name found same]
      · cases known
  | .object _ _ (_ :: _), known => by
      rw [Ty.resolve] at known
      cases known
  | .func os, known => by
      rw [Ty.resolve] at known
      rw [Ty.resolve, Ty.resolve, Ty.resolveOverloads_more more os known]
  | .array item, known => by
      rw [Ty.resolve] at known
      rw [Ty.resolve, Ty.resolve, Ty.resolve_more more item known]
  | .maybe item, known => by
      rw [Ty.resolve] at known
      rw [Ty.resolve, Ty.resolve, Ty.resolve_more more item known]
  | .tuple r, known => by
      rw [Ty.resolve] at known
      rw [Ty.resolve, Ty.resolve, Ty.resolveRuns_more more r known]
  | .spread r, known => by
      rw [Ty.resolve] at known
      rw [Ty.resolve, Ty.resolve, Ty.resolveRuns_more more r known]
  | .classValue .., _ => by simp only [Ty.resolve]
  | .noneType, _ => by simp only [Ty.resolve]
termination_by structural type => type

theorem Ty.resolveList_more (more : ids.Within ids') : (types : List Ty) →
    (Ty.resolveList ids types).2 = none → Ty.resolveList ids' types = Ty.resolveList ids types
  | [], _ => by simp only [Ty.resolveList]
  | type :: types, known => by
      rw [Ty.resolveList] at known
      split at known
      · cases known
      · rename_i first same
        have here := Ty.resolve_more more type (by rw [same])
        have rest := Ty.resolveList_more more types known
        rw [Ty.resolveList, Ty.resolveList, here, same]
        simp only [rest]
termination_by structural types => types

theorem Ty.resolveRuns_more (more : ids.Within ids') : (r : Runs Ty) →
    (Ty.resolveRuns ids r).2 = none → Ty.resolveRuns ids' r = Ty.resolveRuns ids r
  | .nil, _ => by simp only [Ty.resolveRuns]
  | .cons type n r, known => by
      rw [Ty.resolveRuns] at known
      split at known
      · cases known
      · rename_i first same
        have here := Ty.resolve_more more type (by rw [same])
        have rest := Ty.resolveRuns_more more r known
        rw [Ty.resolveRuns, Ty.resolveRuns, here, same]
        simp only [rest]
termination_by structural r => r

theorem Ty.resolveOverloads_more (more : ids.Within ids') : (os : List Overload) →
    (Ty.resolveOverloads ids os).2 = none →
    Ty.resolveOverloads ids' os = Ty.resolveOverloads ids os
  | [], _ => by simp only [Ty.resolveOverloads]
  | o :: os, known => by
      rw [Ty.resolveOverloads] at known
      split at known
      · cases known
      · rename_i first same
        have here := Overload.resolve_more more o (by rw [same])
        have rest := Ty.resolveOverloads_more more os known
        rw [Ty.resolveOverloads, Ty.resolveOverloads, here, same]
        simp only [rest]
termination_by structural os => os

theorem Overload.resolve_more (more : ids.Within ids') : (o : Overload) → (o.resolve ids).2 = none →
    o.resolve ids' = o.resolve ids
  | ⟨_ :: _, _, _⟩, known => by
      rw [Overload.resolve] at known
      cases known
  | ⟨[], params, result⟩, known => by
      rw [Overload.resolve] at known
      split at known
      · cases known
      · rename_i accepted same
        have here := Ty.resolveList_more more params (by rw [same])
        have rest := Ty.resolve_more more result known
        rw [Overload.resolve, Overload.resolve, here, same]
        simp only [rest]
termination_by structural o => o

end

end

/-- The annotation denotes the type. -/
def ClassTable.Denotes (t : ClassTable) (term : TypeTerm) (type : Ty) : Prop :=
  term.lower.resolve t.ids = (type, none)

/-- What an annotation denotes stays when classes are added. -/
theorem ClassTable.Grows.denotes {t t' : ClassTable} (grows : t.Grows t') {term : TypeTerm}
    {type : Ty} (denotes : t.Denotes term type) : t'.Denotes term type := by
  unfold ClassTable.Denotes at denotes ⊢
  rw [Ty.resolve_more grows.names _ (by rw [denotes]), denotes]

/-! ## Declarations -/

theorem ClassTable.declare_within {t t' : ClassTable} {name : String} {id : ClassId}
    (declared : t.declare name = .ok (id, t')) : t.ids.Within t'.ids := by
  unfold ClassTable.declare at declared
  split at declared
  · cases declared
  · rename_i free
    cases declared
    intro other found same
    rw [NameMap.find?_insert, if_neg]
    · exact same
    · rintro rfl
      cases free.symm.trans same

theorem ClassTable.ids_modify {t t' : ClassTable} {id : ClassId} {f : Class → Class}
    (modified : t.modify id f = .ok t') : t'.ids = t.ids := by
  obtain ⟨c, _, same⟩ := bind_eq_ok.mp modified
  cases same
  rfl

theorem ClassTable.ids_register {t t' : ClassTable} {id : ClassId}
    (registered : t.register id = .ok t') : t'.ids = t.ids := by
  obtain ⟨_, fits, _, rfl⟩ := register_eq_ok registered
  rfl

namespace Check

variable {s : Checker}

theorem declareNamed_within (decl : ClassDecl) (span : Span) :
    Gives (declareNamed decl span) s fun _ s' => s.classes.ids.Within s'.classes.ids := by
  refine (claimClass_outcome decl.name).bind fun result s₁ outcome => ?_
  cases outcome with
  | taken old => exact .after_modify (.pure fun _ _ found => found)
  | @claimed id classes free declared =>
    have within := ClassTable.declare_within declared
    refine .after_get (.after_lift fun type _ => ?_)
    refine .after_run (define_fresh free) ?_
    refine (collectFields_notes _ _ _).bind ?_
    rintro ⟨fieldsOk, fields⟩ s₃ noted
    refine (collectConstructors_notes _ _).bind ?_
    rintro ⟨constructorsOk, constructors⟩ s₄ noted'
    have same : s₄.classes.ids = classes.ids := congrArg ClassTable.ids (noted.trans noted').classes
    refine .after_get (.after_lift fun filled modified => .after_lift fun registered ran => ?_)
    refine .after_set (.pure ?_)
    show s.classes.ids.Within registered.ids
    rw [ClassTable.ids_register ran, ClassTable.ids_modify modified, same]
    exact within

theorem declareClass_within (decl : ClassDecl) (span : Span) :
    Gives (declareClass decl span) s fun _ s' => s.classes.ids.Within s'.classes.ids := by
  cases root : s.atRoot with
  | false =>
    refine (declareClass_advances decl span s).imp fun _ s' advanced => ?_
    rw [advanced.classes root]
    exact fun _ _ found => found
  | true =>
    refine .of_run (declareClass_root decl span root) ?_
    refine (warnIf_notes _ _ _ s).bind fun _ s₁ noted => ?_
    refine (warnIf_notes _ _ _ s₁).bind fun _ s₂ noted' => ?_
    rw [← (noted.trans noted').classes]
    exact declareNamed_within decl span

/-- A statement adds classes and changes none that there were. -/
theorem checkStmt_grows (stmt : Stmt) (s : Checker) :
    Gives (checkStmt stmt) s fun _ s' => s.classes.Grows s'.classes := by
  refine ((checkStmt_precedes stmt s).and ?_).imp fun _ _ both => ⟨both.1, both.2⟩
  by_cases declares : ∃ decl span, stmt = .classDecl decl span
  · obtain ⟨decl, span, rfl⟩ := declares
    rw [checkStmt]
    exact (declareClass_within decl span).bind fun _ _ within => .pure within
  · refine (checkStmt_kept stmt s).imp fun _ s' kept => ?_
    rw [kept.classes fun decl span same => declares ⟨decl, span, same⟩]
    exact fun _ _ found => found

theorem checkStmts_grows (stmts : List Stmt) (s : Checker) :
    Gives (checkStmts stmts) s fun _ s' => s.classes.Grows s'.classes := by
  induction stmts generalizing s with
  | nil =>
    rw [checkStmts]
    exact .pure (.refl _)
  | cons stmt stmts ih =>
    rw [checkStmts]
    refine (checkStmt_grows stmt s).bind fun _ s₁ first => ?_
    exact (ih s₁).bind fun _ s₂ rest => .pure (first.trans rest)

/-- The overload that is selected is the first that takes the arguments. -/
theorem selectOverload_selects {α : Type} (callee : String) (params : α → List Ty)
    (candidates : List α) (arguments : List Ty) (span : Span) :
    Gives (selectOverload callee params candidates arguments span) s fun result _ =>
      ∀ found ∈ result,
        FirstOf (fun c => s.classes.Takes (params c) arguments) candidates found.1 found.2 := by
  refine (selectOverload_viable callee params candidates arguments span s).imp ?_
  intro result _ viable found given
  exact ClassTable.firstViable?_selects (viable found given)

end Check

end ShapeLang
