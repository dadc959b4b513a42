import ShapeLang.Proofs.Flow
import ShapeLang.Proofs.Stability

/-!
# What the checker knows of what variables hold

A variable that has a value on every path and whose type is that of the instances of a
class keeps this type. Whatever a statement stores in it was compared with the type, so
that it is an instance of a class that fits. What is known after a branch is known at the
end of each of its arms, or covers what is known there.
-/

namespace ShapeLang

theorem Ty.eq_object {type : Ty} {id : ClassId} (object : type.objectClass? = some id) :
    ∃ name generics, type = .object name (some id) generics := by
  cases type with
  | object name known generics =>
    obtain rfl : known = some id := object
    exact ⟨name, generics, rfl⟩
  | _ => cases object

namespace ClassTable

variable {t t' : ClassTable} {held : Option Ty} {own id : ClassId}

/-- The value is an instance of a class that fits the other. -/
def Fills (t : ClassTable) (held : Option Ty) (id : ClassId) : Prop :=
  ∃ type own, held = some type ∧ type.objectClass? = some own ∧ t.isA own id = true

theorem fills_self {type : Ty} (object : type.objectClass? = some id) : t.Fills (some type) id :=
  ⟨type, id, rfl, object, isA_iff.mpr (.inl rfl)⟩

/-- What fills a place for one class fills a place for any that it fits. -/
theorem Fills.up (transitive : t.Transitive) (fills : t.Fills held own)
    (fits : t.isA own id = true) : t.Fills held id := by
  obtain ⟨type, first, same, object, below⟩ := fills
  exact ⟨type, first, same, object, transitive first own id below fits⟩

/-- Only an instance stands for an instance. -/
theorem compare_object {actual expected : Ty} (fits : t.compare actual expected = .ok (.ok ()))
    (object : expected.objectClass? = some id) :
    ∃ own, actual.objectClass? = some own ∧ t.isA own id = true := by
  obtain ⟨name, generics, rfl⟩ := Ty.eq_object object
  cases compareWith_yes.mp fits with
  | object related => exact ⟨_, rfl, related⟩

/-- What fills a place of a class stands for the type of its instances. -/
theorem Fills.compare {type : Ty} (fills : t.Fills held id)
    (object : type.objectClass? = some id) :
    ∃ stored, held = some stored ∧ t.compare stored type = .ok (.ok ()) := by
  obtain ⟨stored, own, same, instance_, related⟩ := fills
  obtain ⟨_, _, rfl⟩ := Ty.eq_object instance_
  obtain ⟨_, _, rfl⟩ := Ty.eq_object object
  exact ⟨_, same, compareWith_yes.mpr (.object related)⟩

/-- A variable that holds instances keeps its type, and what it is bound to is below it. -/
theorem rebind_object {name : String} {old new type : Ty}
    (run : t.rebind name old new = .ok (.ok type)) (object : type.objectClass? = some id) :
    old.objectClass? = some id ∧ ∃ own, new.objectClass? = some own ∧ t.isA own id = true := by
  unfold rebind at run
  split at run
  · obtain ⟨merged, _, rest⟩ := bind_eq_ok.mp run
    cases merged with
    | error problem => cases rest
    | ok os =>
      cases rest
      cases object
  · obtain ⟨verdict, compared, rest⟩ := bind_eq_ok.mp run
    rcases verdict with (_ | feature) | _
    · cases rest
    · cases rest
    · cases rest
      exact ⟨object, compare_object compared object⟩

theorem join_object {a b c : Ty} (joined : t.join a b = .ok (.ok c))
    (object : c.objectClass? = some id) :
    (∃ own, a.objectClass? = some own ∧ t.isA own id = true) ∧
      ∃ own, b.objectClass? = some own ∧ t.isA own id = true := by
  have below {x : Ty} (above : x = c ∨ t.compare x c = .ok (.ok ())) :
      ∃ own, x.objectClass? = some own ∧ t.isA own id = true := by
    rcases above with rfl | fits
    · exact ⟨id, object, isA_iff.mpr (.inl rfl)⟩
    · exact compare_object fits object
  have above := (join_outcome joined).above
  exact ⟨below above.1, below above.2⟩

end ClassTable

/-! ## Variables that hold instances -/

/-- The name has a value on every path, an instance of the class. -/
def Binding.Firm (b : Binding) (id : ClassId) : Prop :=
  b.unresolved = false ∧ b.assigned = .always ∧ b.type.objectClass? = some id

/-- A variable that holds an instance of a class goes on doing so as its binding grows. -/
theorem Binding.Grown.firm {b b' : Binding} {id : ClassId} (grown : b.Grown b')
    (firm : b.Firm id) : b'.Firm id := by
  obtain ⟨_, always, object⟩ := firm
  have rank := grown.assigned
  rw [always] at rank
  refine ⟨grown.resolved, ?_, ?_⟩
  · cases state : b'.assigned with
    | always => rfl
    | sometimes => simp [state, Assigned.rank] at rank
    | never => simp [state, Assigned.rank] at rank
  · rcases Ty.grown_iff.mp grown.type with same | ⟨os, new, function, _⟩
    · exact same ▸ object
    · rw [function] at object
      cases object

/-- Where the arms of a statement come together: one of them is sure to run, and each leaves
the name with an instance of a class that fits. -/
def Arm.Supply (t : ClassTable) (arms : List Arm) (exhaustive : Bool) (name : String)
    (id : ClassId) : Prop :=
  exhaustive = true ∧ ∀ arm ∈ arms, ∃ b own,
    arm.bindings.find? name = some b ∧ b.Firm own ∧ t.isA own id = true

namespace Checker

def Firm (s : Checker) (name : String) (id : ClassId) : Prop :=
  ∃ b, s.lookup? name = some b ∧ b.Firm id

variable {t : ClassTable} {s s₁ s₂ : Checker} {m stored more : Memory} {name : String}
  {id : ClassId}

theorem Firm.of_lookup (firm : s.Firm name id) (same : s₁.lookup? name = s.lookup? name) :
    s₁.Firm name id := by
  obtain ⟨b, found, holds⟩ := firm
  exact ⟨b, same.trans found, holds⟩

/-- What is firm stays firm while names grow. -/
theorem Grown.firm (grown : s.Grown s₁) (firm : s.Firm name id) : s₁.Firm name id := by
  obtain ⟨b, found, holds⟩ := firm
  obtain ⟨b', found', grown'⟩ := grown name b found holds.1
  exact ⟨b', found', grown'.firm holds⟩

/-- What a variable holds is what the checker knows, as far as that is an instance of a
class. -/
def Agrees (t : ClassTable) (s : Checker) (m : Memory) : Prop :=
  ∀ name id, s.Firm name id → ∀ held, m.lookup name = some (.value held) → t.Fills held id

/-- From the first checker to the second the listed names are stored: what is known then was
known before or fits what is stored. -/
def Moves (t : ClassTable) (s : Checker) (stored : Memory) (s' : Checker) : Prop :=
  ∀ name id, s'.Firm name id → (stored.lookup name = none → s.Firm name id) ∧
    ∀ held, stored.lookup name = some (.value held) → t.Fills held id

/-- A checker that agrees with the variables goes on doing so as both move on. -/
theorem Agrees.moves (agrees : s.Agrees t m) (moves : s.Moves t stored s₁) :
    s₁.Agrees t (stored ++ m) := by
  intro name id firm held found
  obtain ⟨before, here⟩ := moves name id firm
  rw [List.lookup_append] at found
  cases latest : stored.lookup name with
  | none =>
    rw [latest] at found
    exact agrees name id (before latest) held found
  | some value =>
    rw [latest] at found
    cases found
    exact here held latest

namespace Moves

/-- Moves are put one behind the other, what was stored last in front. -/
theorem trans (first : s.Moves t stored s₁) (second : s₁.Moves t more s₂) :
    s.Moves t (more ++ stored) s₂ := by
  intro name id firm
  obtain ⟨before, here⟩ := second name id firm
  rw [List.lookup_append]
  cases latest : more.lookup name with
  | none => exact first name id (before latest)
  | some value =>
    refine ⟨nofun, fun held found => ?_⟩
    cases found
    exact here held latest

theorem of_lookup (same : ∀ name, s₁.lookup? name = s.lookup? name) : s.Moves t [] s₁ := by
  intro name id firm
  exact ⟨fun _ => firm.of_lookup (same name).symm, nofun⟩

theorem of_noted (noted : s.Noted s₁) : s.Moves t [] s₁ := of_lookup noted.lookup?

theorem after_notes (moves : s₁.Moves t stored s₂) (noted : s.Noted s₁) :
    s.Moves t stored s₂ := by
  have whole := trans (of_noted noted) moves
  rwa [List.append_nil] at whole

/-- Nothing is known of names that are given something. -/
theorem given {names : List String}
    (others : ∀ name, name ∉ names → s₁.lookup? name = s.lookup? name) :
    s.Moves t (.given names) s₁ := by
  intro name id firm
  rw [Memory.lookup_given]
  by_cases listed : name ∈ names
  · rw [if_pos listed]
    exact ⟨nofun, nofun⟩
  · rw [if_neg listed]
    exact ⟨fun _ => firm.of_lookup (others name listed).symm, nofun⟩

theorem bind {b : Binding} {held : Option Ty} (fits : ∀ id, b.Firm id → t.Fills held id) :
    s.Moves t [(name, .value held)] (s.bind name b) := by
  rintro other id ⟨b', found, firm⟩
  rw [lookup?_bind] at found
  rw [NameMap.lookup_entry]
  by_cases same : other = name
  · rw [if_pos same] at found ⊢
    cases found
    refine ⟨nofun, fun held' stored => ?_⟩
    cases stored
    exact fits id firm
  · rw [if_neg same] at found ⊢
    exact ⟨fun _ => ⟨b', found, firm⟩, nofun⟩

/-- A value is stored in a name that stays bound as it is. -/
theorem assign {held : Option Ty} (fits : ∀ id, s.Firm name id → t.Fills held id) :
    s.Moves t [(name, .value held)] s := by
  intro other id firm
  rw [NameMap.lookup_entry]
  by_cases same : other = name
  · rw [if_pos same]
    refine ⟨nofun, fun held' stored => ?_⟩
    cases stored
    exact fits id (same ▸ firm)
  · rw [if_neg same]
    exact ⟨fun _ => firm, nofun⟩

/-- The name is bound again, and nothing more is known of it than before. -/
theorem rebind {b : Binding} (kept : ∀ id, b.Firm id → s.Firm name id) :
    s.Moves t [] (s.bind name b) := by
  rintro other id ⟨b', found, firm⟩
  rw [lookup?_bind] at found
  refine ⟨fun _ => ?_, nofun⟩
  by_cases same : other = name
  · rw [if_pos same] at found
    cases found
    exact same ▸ kept id firm
  · rw [if_neg same] at found
    exact ⟨b', found, firm⟩

end Moves

end Checker

namespace Check

variable {t : ClassTable} {s : Checker}

/-! ## Statements that store something -/

section

variable (transitive : t.Transitive)
include transitive

/-- A definition stores its value under the name, if the value fills the place. -/
theorem define_moves (name : String) {type : Ty} {held : Option Ty} (constant : Bool) (span : Span)
    (precedes : s.classes.Precedes t)
    (fits : ∀ id, type.objectClass? = some id → t.Fills held id) :
    Gives (define name type .always constant span) s fun result s' =>
      result.isSome = true → s.Moves t [(name, .value held)] s' := by
  refine (define_outcome name type .always constant span).imp fun _ s' outcome some_ => ?_
  cases outcome with
  | fresh => exact .bind fun id firm => fits id firm.2.2
  | rebound _ _ _ rebound =>
    refine .bind fun id firm => ?_
    obtain ⟨_, own, object, related⟩ := ClassTable.rebind_object rebound firm.2.2
    exact (fits own object).up transitive (precedes.isA_mono related)
  | refused => cases some_

/-- Several definitions store the elements of a tuple under their names. -/
theorem defineEach_moves (constant : Bool) (span : Span) (pairs : List (String × Ty))
    (precedes : s.classes.Precedes t) :
    Gives (defineEach constant span pairs) s fun ok s' => ok = true →
      s.Moves t ((pairs.map fun pair => (pair.1, Held.value (some pair.2))).filter
        (·.1 != "_")).reverse s' := by
  induction pairs generalizing s with
  | nil => exact .pure fun _ => .of_lookup fun _ => rfl
  | cons pair pairs ih =>
    obtain ⟨name, type⟩ := pair
    rw [defineEach]
    split
    · rename_i discarded
      refine .after_pure ((ih precedes).bind fun ok s₁ moves => .pure fun all => ?_)
      rw [List.map_cons, List.filter_cons_of_neg (by simpa using discarded)]
      exact moves (Bool.and_eq_true_iff.mp all).2
    · rename_i named
      have stores := define_moves transitive name constant span precedes
        fun id (object : type.objectClass? = some id) => ClassTable.fills_self object
      refine (stores.and (define_rebinds name type .always constant span s)).bind ?_
      rintro bound s₁ ⟨first, rebound⟩
      have precedes₁ : s₁.classes.Precedes t := rebound.classes ▸ precedes
      refine (ih precedes₁).bind fun ok s₂ rest => .pure fun all => ?_
      obtain ⟨boundOk, restOk⟩ := Bool.and_eq_true_iff.mp all
      rw [List.map_cons, List.filter_cons_of_pos (by simpa using named), List.reverse_cons]
      exact (first boundOk).trans (rest restOk)

/-- Every name holds the part of the value that is handed to it. -/
theorem defineNames_moves (names : List String) (type : Ty) (constant : Bool) (span : Span)
    (precedes : s.classes.Precedes t) :
    Gives (defineNames names type constant span) s fun result s' => result.isSome = true →
      s.Moves t ((Memory.handOut names (some type)).filter (·.1 != "_")).reverse s' := by
  have each (pairs : List (String × Ty)) : Gives (do
      let bound ← defineEach constant span pairs
      return if bound then some type else none : Check (Option Ty)) s fun result s' =>
        result.isSome = true → s.Moves t ((pairs.map fun pair =>
          (pair.1, Held.value (some pair.2))).filter (·.1 != "_")).reverse s' := by
    refine (defineEach_moves transitive constant span pairs precedes).bind
      fun ok s₁ moves => .pure fun some_ => moves ?_
    cases ok with
    | true => rfl
    | false => cases some_
  have alike : names.map (·, Held.value (some type)) =
      (names.map (·, type)).map fun pair => (pair.1, Held.value (some pair.2)) := by
    rw [List.map_map]
    rfl
  cases type with
  | spread items =>
    rw [defineNames]
    split
    · exact Gives.any.bind fun _ _ _ => Gives.after_modify (.pure (by simp))
    · have zipped : names.zip (items.toList.map fun type => Held.value (some type)) =
          (names.zip items.toList).map fun pair => (pair.1, Held.value (some pair.2)) :=
        List.zip_map_right
      rw [Memory.handOut, zipped, items.zip_take]
      exact each _
  | _ =>
    rw [Memory.handOut, alike]
    · exact each _
    · intro items same
      cases same

end

/-- A name that is announced only is no better known than before. -/
theorem announce_moves (name : String) (type : Ty) (constant : Bool) (span : Span) :
    Gives (define name type .never constant span) s fun _ s' => s.Moves t [] s' := by
  refine (define_outcome name type .never constant span).imp fun _ s' outcome => ?_
  cases outcome with
  | fresh =>
    refine .rebind fun id firm => ?_
    cases firm.2.1
  | @rebound old merged found resolved _ rebound =>
    refine .rebind fun id firm => ?_
    obtain ⟨object, _⟩ := ClassTable.rebind_object rebound firm.2.2
    have state : old.assigned.max .never = .always := firm.2.1
    rcases Assigned.max_eq_always.mp state with always | impossible
    · exact ⟨_, found, resolved, always, object⟩
    · cases impossible
  | refused => exact .of_lookup fun _ => rfl

theorem define_others (name : String) (type : Ty) (assigned : Assigned) (constant : Bool)
    (span : Span) : Gives (define name type assigned constant span) s fun _ s' =>
      ∀ other, other ≠ name → s'.lookup? other = s.lookup? other := by
  refine (define_outcome name type assigned constant span).imp fun _ s' outcome other apart => ?_
  cases outcome with
  | fresh => rw [Checker.lookup?_bind, if_neg apart]
  | rebound => rw [Checker.lookup?_bind, if_neg apart]
  | refused => rfl

theorem declareNamed_others (decl : ClassDecl) (span : Span) :
    Gives (declareNamed decl span) s fun _ s' =>
      ∀ other, other ≠ decl.name → s'.lookup? other = s.lookup? other := by
  refine (claimClass_outcome decl.name).bind fun result s₁ outcome => ?_
  cases outcome with
  | taken => exact Gives.after_modify (.pure fun _ _ => rfl)
  | @claimed id classes =>
    refine .after_get (.after_lift fun type _ => ?_)
    refine (define_others _ type .always _ _).bind fun bound s₂ others => ?_
    cases bound with
    | none => exact .pure others
    | some bound =>
      refine (collectFields_notes _ _ s₂).bind fun (_, fields) s₃ noted => ?_
      refine (collectConstructors_notes _ s₃).bind fun (_, constructors) s₄ noted' => ?_
      refine .after_get (.after_lift fun _ _ => .after_lift fun _ _ => .after_set (.pure ?_))
      intro other apart
      exact ((noted.trans noted').lookup? other).trans (others other apart)

theorem declareClass_moves (decl : ClassDecl) (span : Span) :
    Gives (declareClass decl span) s fun result s' =>
      result.isSome = true → s.Moves t (.given [decl.name]) s' := by
  cases root : s.atRoot with
  | false =>
    refine .of_run (declareClass_inside decl span root) ?_
    exact Gives.any.bind fun _ _ _ => Gives.after_modify (.pure (by simp))
  | true =>
    refine .of_run (declareClass_root decl span root) ?_
    refine (warnIf_notes _ _ _ s).bind fun _ s₁ noted => ?_
    refine (warnIf_notes _ _ _ s₁).bind fun _ s₂ noted' => ?_
    refine (declareNamed_others decl span).imp fun _ s₃ others _ => .given fun other apart => ?_
    exact (others other (by simpa using apart)).trans ((noted.trans noted').lookup? other)

theorem recordReturn_moves (value : Ty) (span : Span) :
    Gives (recordReturn value span) s fun _ s' => s.Moves t [] s' := by
  refine (recordReturn_outcome value span).imp fun _ s' outcome => ?_
  cases outcome with
  | recorded => exact .of_lookup fun _ => rfl
  | refused => exact .of_lookup fun _ => rfl

/-- A statement without arms that goes well stores what it says. -/
theorem PlainOutcome.stores (transitive : t.Transitive) {stmt : Stmt}
    {checked : Stmt × Option Ty} {s' : Checker} (outcome : PlainOutcome s stmt checked s')
    (precedes : s.classes.Precedes t) (accepted : checked.2.isSome = true) :
    s.Moves t checked.1.stores s' := by
  cases outcome with
  | expr looked => exact .of_noted (checkExpr_notes _ _ _ _ looked)
  | @defined names value value' type _ _ _ _ _ looked stored =>
    have noted := checkExpr_notes value s _ _ looked
    have filled : value'.note.type = some type := checkExpr_note value s _ _ looked
    have precedes₁ := noted.classes.symm ▸ precedes
    rw [Stmt.stores, filled]
    exact (defineNames_moves transitive names type _ _ precedes₁ _ _ stored accepted).after_notes
      noted
  | announced found stored =>
    exact (announce_moves _ _ _ _ _ _ stored).after_notes (scoping.resolveTerm trivial _ _ _ found)
  | @declared name _ value value' type received _ _ _ _ s₁ s₂ _ _ found looked compared stored =>
    have noted :=
      (scoping.resolveTerm trivial s _ _ found).trans (checkExpr_notes value s₁ _ _ looked)
    have filled : value'.note.type = some received := checkExpr_note value s₁ _ _ looked
    have precedes₂ : s₂.classes.Precedes t := noted.classes.symm ▸ precedes
    obtain ⟨boundOk, fitsOk⟩ : _ ∧ _ := by simpa using accepted
    cases expectType_outcome received type _ _ _ compared with
    | refused => cases fitsOk
    | fits accepts =>
      have fills (id : ClassId) (object : type.objectClass? = some id) :
          t.Fills (some received) id := by
        obtain ⟨own, instance_, related⟩ := ClassTable.compare_object accepts object
        exact ⟨received, own, rfl, instance_, precedes₂.isA_mono related⟩
      have moves := define_moves transitive name _ _ precedes₂ fills _ _ stored boundOk
      rw [Stmt.stores, filled]
      exact moves.after_notes noted
  | classDecl declared => exact declareClass_moves _ _ _ _ declared accepted
  | returnedNone recorded => exact recordReturn_moves _ _ _ _ recorded
  | returned looked recorded =>
    exact (recordReturn_moves _ _ _ _ recorded).after_notes (checkExpr_notes _ _ _ _ looked)
  | undefined | unannounced | valueless | undeclared | methods | unreturned => cases accepted

/-! ## Branches -/

/-- What arms introduce together covers what each of them introduces. -/
theorem joinBindings_object (transitive : t.Transitive) {known : ClassTable}
    (precedes : known.Precedes t) {merged result : Binding} {others : List Binding} {id : ClassId}
    (run : known.joinBindings merged others = .ok (result, none))
    (resolved : result.unresolved = false) (object : result.type.objectClass? = some id) :
    ∀ b ∈ merged :: others, b.unresolved = false ∧
      ∃ own, b.type.objectClass? = some own ∧ t.isA own id = true := by
  induction others generalizing merged with
  | nil =>
    cases run
    exact List.forall_mem_singleton.mpr ⟨resolved, id, object, ClassTable.isA_iff.mpr (.inl rfl)⟩
  | cons other others ih =>
    rw [ClassTable.joinBindings] at run
    split at run
    · cases run
      cases resolved
    · rename_i open_
      obtain ⟨joined, ran, rest⟩ := bind_eq_ok.mp run
      cases joined with
      | error reason => cases rest
      | ok type =>
        obtain ⟨⟨_, middle, object', above⟩, later⟩ := List.forall_mem_cons.mp (ih rest)
        obtain ⟨left, right⟩ := ClassTable.join_object ran object'
        have below {x : Ty} (joins : ∃ own, x.objectClass? = some own ∧
            known.isA own middle = true) :
            ∃ own, x.objectClass? = some own ∧ t.isA own id = true := by
          obtain ⟨own, instance_, related⟩ := joins
          exact ⟨own, instance_, transitive own middle id (precedes.isA_mono related) above⟩
        simp only [Bool.or_eq_true, not_or, Bool.not_eq_true] at open_
        refine List.forall_mem_cons.mpr ⟨⟨open_.1, below left⟩, ?_⟩
        exact List.forall_mem_cons.mpr ⟨⟨open_.2, below right⟩, later⟩

section

variable {s₀ : Checker} {arms : List Arm} (grown : ∀ arm ∈ arms, arm.Grown s₀)
include grown

/-- What is known of an outer name after the merge was known before it, or is known at the end
of every arm. -/
theorem outer_firm {exhaustive : Bool} {name : String} {b : Binding} {type : Ty} {id : ClassId}
    (found : s₀.lookup? name = some b) (resolved : b.unresolved = false)
    (typed : type = b.type ∨ s.classes.reconcile b.type (Arm.bindingsOf arms name) = .ok type)
    (state : b.assigned.max (.afterArms exhaustive (Arm.states arms name)) = .always)
    (object : type.objectClass? = some id) :
    b.Firm id ∨ Arm.Supply t arms exhaustive name id := by
  have same : type = b.type := by
    rcases typed with same | reconciled
    · exact same
    · have each := bindingsOf_grown grown found resolved
      have later := ClassTable.reconcile_grown .same (fun b' member => (each b' member).type)
        reconciled
      rcases Ty.grown_iff.mp later with same | ⟨_, _, _, function⟩
      · exact same
      · rw [function] at object
        cases object
  rw [same] at object
  rcases Assigned.max_eq_always.mp state with before | after
  · exact .inl ⟨resolved, before, object⟩
  · obtain ⟨sure, all⟩ := AllGive.of_afterArms after
    refine .inr ⟨sure, fun arm listed => ?_⟩
    obtain ⟨b', bound, always⟩ := all arm listed
    have later := grown arm listed name b b' found resolved bound
    rcases Ty.grown_iff.mp later.type with same' | ⟨_, _, function, _⟩
    · refine ⟨b', id, bound, ⟨later.resolved, always, ?_⟩, ClassTable.isA_iff.mpr (.inl rfl)⟩
      rw [same', object]
    · rw [function] at object
      cases object

variable (transitive : t.Transitive)
include transitive

/-- A name that is firm after a merge was firm before it or is firm in all arms. -/
theorem mergeName_firm (precedes : s.classes.Precedes t) (exhaustive : Bool) (span : Span)
    (name : String) (here : s.lookup? name = s₀.lookup? name) :
    Gives (mergeName arms exhaustive span name) s fun result s' => result = some () →
      ∀ id, s'.Firm name id → s.Firm name id ∨ Arm.Supply t arms exhaustive name id := by
  have bound (s : Checker) (b : Binding) {id : ClassId} (firm : (s.bind name b).Firm name id) :
      b.Firm id := by
    obtain ⟨b', found, holds⟩ := firm
    rw [Checker.lookup?_bind, if_pos rfl] at found
    cases found
    exact holds
  refine (mergeName_outcome arms exhaustive span name).imp fun _ s' outcome => ?_
  cases outcome with
  | absent => exact fun _ _ => .inl
  | @outer b type found typed =>
    intro _ id firm
    obtain ⟨resolved, state, object⟩ := bound s _ firm
    replace resolved : b.unresolved = false := resolved
    have reconciled : type = b.type ∨
        s.classes.reconcile b.type (Arm.bindingsOf arms name) = .ok type := by
      rcases typed with ⟨_, _, run⟩ | ⟨_, same⟩
      · exact .inr run
      · exact .inl same
    have given := outer_firm (t := t) grown (here ▸ found) resolved reconciled state object
    exact given.imp_left fun holds => ⟨b, found, holds⟩
  | @introduced first merged others free inArms joined =>
    refine fun _ id firm => .inr ?_
    obtain ⟨resolved, state, object⟩ := bound s _ firm
    have covered := joinBindings_object transitive precedes joined resolved object
    rw [joinBindings_assigned _ joined] at state
    obtain ⟨sure, all⟩ := AllGive.of_afterArms state
    refine ⟨sure, fun arm listed => ?_⟩
    obtain ⟨b, found, always⟩ := all arm listed
    have member : b ∈ first :: others := inArms ▸ List.mem_filterMap.mpr ⟨arm, listed, found⟩
    obtain ⟨start, rest⟩ := List.forall_mem_cons.mp covered
    have own : b.unresolved = false ∧ ∃ own, b.type.objectClass? = some own ∧
        t.isA own id = true := by
      rcases List.mem_cons.mp member with rfl | later
      · exact start
      · exact rest b later
    obtain ⟨resolved', own, object', related⟩ := own
    exact ⟨b, own, found, ⟨resolved', always, object'⟩, related⟩
  | conflict => simp

end

/-- A merge makes no name firm that is not so on each of the ways that lead past it. -/
theorem mergeArms_firm (transitive : t.Transitive) {arms : List Arm}
    (grown : ∀ arm ∈ arms, arm.Grown s) (precedes : s.classes.Precedes t) (exhaustive : Bool)
    (span : Span) :
    Gives (mergeArms arms exhaustive span) s fun result s' => result = some () →
      ∀ name id, s'.Firm name id → s.Firm name id ∨ Arm.Supply t arms exhaustive name id := by
  intro result s' ran done name id firm
  cases mergeArms_at name _ _ ran with
  | unbound _ same => exact .inl (firm.of_lookup same.symm)
  | merged classes before ran' after told =>
    have precedes₁ := classes.symm ▸ precedes
    have given := mergeName_firm grown transitive precedes₁ exhaustive span name before _ _ ran'
      (told done) id (firm.of_lookup after.symm)
    exact given.imp_left fun held => held.of_lookup before.symm

end Check

namespace Stmt.Walks

variable {t : ClassTable} {stmt : Stmt} {s s' s₁ : Checker} {checked : Stmt × Option Ty}
  {ends : List ArmEnd} {merged : Option Unit} (walks : stmt.Walks s checked s' ends s₁ merged)
  (accepted : checked.2.isSome = true) {m m' : Memory}
include walks accepted

/-- What is known after a branch was known before it, or one arm is sure to run and each knows
as much. -/
theorem firm (transitive : t.Transitive) (precedes : s.classes.Precedes t) {name : String}
    {id : ClassId} (firm : s'.Firm name id) : s.Firm name id ∨
      (stmt.exhaustive = true ∧ ∀ e ∈ ends, name ∉ e.hidden ∧
        ∃ own, e.last.Firm name own ∧ t.isA own id = true) := by
  have grown := Check.arms_grown walks fun source _ => Check.checkBlock_grows source
  have precedes₁ : s₁.classes.Precedes t := walks.noted.classes ▸ precedes
  obtain ⟨_, done, _⟩ := walks.passed accepted
  have given := Check.mergeArms_firm transitive grown precedes₁ _ _ _ _ walks.merges done
  rcases given name id firm with before | ⟨sure, all⟩
  · exact .inl (before.of_lookup (walks.noted.lookup? name).symm)
  · refine .inr ⟨sure, fun e member => ?_⟩
    obtain ⟨b, own, found, holds, related⟩ := all e.arm (List.mem_map_of_mem member)
    obtain ⟨shown, last⟩ := ArmEnd.find?_arm.mp found
    exact ⟨shown, own, ⟨b, last, holds⟩, related⟩

/-- Where a way leads past the arms, a checker that agreed before them agrees after them. -/
theorem agrees_skipped (transitive : t.Transitive) (precedes : s.classes.Precedes t)
    (unsure : stmt.exhaustive = false) (before : s.Agrees t m) : s'.Agrees t m := by
  intro name id firm
  rcases walks.firm accepted transitive precedes firm with known | ⟨sure, _⟩
  · exact before name id known
  · rw [unsure] at sure
    cases sure

/-- After the arm that was run, the checker agrees with what is held then. -/
theorem agrees_taken (transitive : t.Transitive) (precedes : s.classes.Precedes t) {e : ArmEnd}
    (member : e ∈ ends) (before : s.Agrees t m) (after : e.last.Agrees t m') :
    s'.Agrees t (.leave e.hidden m m') := by
  intro name id firm held found
  rw [Memory.lookup_leave] at found
  have given := walks.firm accepted transitive precedes firm
  by_cases hidden : name ∈ e.hidden
  · rw [if_pos hidden] at found
    rcases given with known | ⟨_, all⟩
    · exact before name id known held found
    · exact absurd hidden (all e member).1
  · rw [if_neg hidden] at found
    rcases given with known | ⟨_, all⟩
    · obtain ⟨b, outside, holds⟩ := known
      obtain ⟨source, _, of⟩ := walks.source member
      obtain ⟨b', last, grown⟩ := Check.arm_grown of (Check.checkBlock_grows source) outside
        holds.1 hidden
      exact after name id ⟨b', last, grown.firm holds⟩ held found
    · obtain ⟨_, own, last, related⟩ := all e member
      exact (after name own last held found).up transitive related

end Stmt.Walks

end ShapeLang
