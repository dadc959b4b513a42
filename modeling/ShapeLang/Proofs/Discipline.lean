import Mathlib.Data.List.Forall2
import ShapeLang.Proofs.Extent
import ShapeLang.Proofs.Preorder
import ShapeLang.Proofs.SoundStatements

/-!
# Disciplines of types

A step of a check makes types from those at hand and from annotations, so that it can keep to
what is known of these. A discipline is such a property of types, in three strengths: for types
that annotations spell out, for types that names are bound to and for types that expressions
have. It depends on the classes that there are and on a bound on the length of tuples; only a
tuple expression may need a larger bound than the one that it starts from.
-/

namespace ShapeLang

/-- Every class of the first table is in the second under the same name. -/
def ClassTable.Renewed (t t' : ClassTable) : Prop :=
  ∀ id c, t.get id = .ok c → ∃ c', t'.get id = .ok c' ∧ c'.name = c.name

theorem ClassTable.Renewed.refl (t : ClassTable) : t.Renewed t := fun _ c got => ⟨c, got, rfl⟩

/-- What is asked of the types that are spelled, bound and given while a check goes on, closed
under all that a check does with types. -/
structure Discipline where
  spelled : Nat → Ty → Prop
  bound : ClassTable → Nat → Ty → Prop
  given : ClassTable → Nat → Ty → Prop
  /-- Whether a tuple within the bound may be too long to be counted. -/
  excess : Nat → Prop
  excess_mono : ∀ {B C}, B ≤ C → excess B → excess C
  spelled_mono : ∀ {B C type}, B ≤ C → spelled B type → spelled C type
  bound_mono : ∀ {t t' B C type}, ClassTable.Renewed t t' → B ≤ C →
    bound t B type → bound t' C type
  given_mono : ∀ {t t' B C type}, ClassTable.Renewed t t' → B ≤ C →
    given t B type → given t' C type
  bound_of_spelled : ∀ {t B type}, spelled B type → bound t B type
  given_of_bound : ∀ {t B type}, bound t B type → given t B type
  /-- Only several values at once are given and not bound. -/
  bound_of_given : ∀ {t B type}, type.isSpread = false → given t B type → bound t B type
  denoted : ∀ {B ids type} {term : TypeTerm}, term.longest ≤ B →
    term.lower.resolve ids = (type, none) → spelled B type
  classValue : ∀ {t B id c}, t.get id = .ok c → bound t B (.classValue id c.name)
  instanceOf : ∀ {t B id name}, bound t B (.instanceOf id name)
  noneType : ∀ {t B}, bound t B .noneType
  func : ∀ {t B os}, bound t B (.func os) ↔
    ∀ o ∈ os, (∀ p ∈ o.params, given t B p) ∧ given t B o.result
  result : ∀ {B os}, spelled B (.func os) → ∀ o ∈ os, spelled B o.result
  array : ∀ {t B item}, bound t B (.array item) ↔ given t B item
  spread : ∀ {t B type spread}, given t B type → type.toSpread? = some spread → given t B spread
  elements : ∀ {t B items}, given t B (.spread items) → items.Forall (bound t B)
  tuple : ∀ {t B C items types}, List.Forall₂ (fun e type => given t B type ∧
      (Expr.opens e = false → bound t B type)) items types → (Extent.ofItems items).Leads B C →
    bound t C (.tuple (Ty.gathered .nil types)) ∧
      ((Ty.gathered .nil types).length < countLimit ∨ excess C)

/-- The type may have been found for the expression. -/
def Discipline.Finds (d : Discipline) (t : ClassTable) (B : Nat) (e : Expr) (type : Ty) : Prop :=
  d.given t B type ∧ (e.opens = false → d.bound t B type)

theorem Discipline.finds_of_bound {d : Discipline} {t : ClassTable} {B : Nat} {e : Expr}
    {type : Ty} (holds : d.bound t B type) : d.Finds t B e type :=
  ⟨d.given_of_bound holds, fun _ => holds⟩

theorem Discipline.finds_of_opens {d : Discipline} {t : ClassTable} {B : Nat} {e : Expr}
    {type : Ty} (opens : e.opens = true) (holds : d.given t B type) : d.Finds t B e type :=
  ⟨holds, fun closed => absurd (opens.symm.trans closed) (by simp)⟩

structure Class.All (P : Ty → Prop) (c : Class) : Prop where
  fields : ∀ entry ∈ c.fields.entries, P entry.2
  constructors : ∀ params ∈ c.constructors, ∀ p ∈ params, P p

/-- The checker has these classes, and all types in it are as the discipline wants them. -/
structure Checker.Obeys (s : Checker) (d : Discipline) (t : ClassTable) (B : Nat) : Prop
    extends Checker.All (d.bound t B) (d.given t B) s where
  classes : s.classes = t
  declared : ∀ c ∈ t.classes, c.All (d.spelled B)

namespace Checker.Obeys

variable {d : Discipline} {t : ClassTable} {B C : Nat} {s s' : Checker} (obeys : s.Obeys d t B)
include obeys

theorem mono (le : B ≤ C) : s.Obeys d t C where
  toAll := obeys.toAll.imp (fun _ => d.bound_mono (.refl t) le) fun _ => d.given_mono (.refl t) le
  classes := obeys.classes
  declared c listed :=
    ⟨fun entry field => d.spelled_mono le ((obeys.declared c listed).fields entry field),
      fun params taken p param =>
        d.spelled_mono le ((obeys.declared c listed).constructors params taken p param)⟩

theorem own : s.Obeys d s.classes B := obeys.classes.symm ▸ obeys

theorem noted (noted : s.Noted s') : s'.Obeys d t B :=
  ⟨obeys.toAll.noted noted, noted.classes.trans obeys.classes, obeys.declared⟩

theorem bind (name : String) {b : Binding} (holds : d.bound t B b.type) :
    (s.bind name b).Obeys d t B :=
  ⟨obeys.toAll.bind name holds, obeys.classes, obeys.declared⟩

theorem setReturns {returns : Option Ty} (holds : ∀ type ∈ returns, d.given t B type) :
    (s.setReturns returns).Obeys d t B :=
  ⟨obeys.toAll.setReturns holds, obeys.classes, obeys.declared⟩

theorem enterBranch : (s.enter .branch).Obeys d t B :=
  ⟨obeys.toAll.enter nofun, obeys.classes, obeys.declared⟩

/-- The checker at the start of a function body. -/
theorem enterFunction {declared : Option Ty} (promised : ∀ type ∈ declared, d.spelled B type)
    (params : List Param) {types : List Ty} (accepted : ∀ type ∈ types, d.spelled B type) :
    (Check.bound (s.enter (.function declared)) params types).Obeys d t B where
  toAll := by
    refine (obeys.toAll.enter fun type same => ?_).bound params
      fun type listed => d.bound_of_spelled (accepted type listed)
    cases same
    exact d.given_of_bound (d.bound_of_spelled (promised type rfl))
  classes := (Check.bound_classes _ params types).1.trans obeys.classes
  declared := obeys.declared

theorem field {id : ClassId} {c : Class} {name : String} {type : Ty}
    (got : s.classes.get id = .ok c) (found : c.fields.find? name = some type) :
    d.spelled B type := by
  rw [obeys.classes] at got
  have listed := List.mem_of_getElem? (ClassTable.get_eq_ok.mp got)
  exact (obeys.declared c listed).fields _ (NameMap.mem_of_lookup found)

end Checker.Obeys

/-! ## Joins -/

namespace ClassTable

variable {t : ClassTable}

/-- A step of the fold over the arms passes over an arm with the type so far or joins it. -/
theorem reconcileGo_cons {merged result : Ty} {arm : Binding} {arms : List Binding}
    (run : reconcile.go t merged (arm :: arms) = .ok (some result)) :
    ∃ next, reconcile.go t next arms = .ok (some result) ∧
      (((arm.type == merged) = true ∧ next = merged) ∨
        (¬(arm.type == merged) = true ∧ t.join merged arm.type = .ok (.ok next))) := by
  rw [reconcile.go] at run
  split at run
  · cases run
  · split at run
    · rename_i same
      exact ⟨merged, run, .inl ⟨same, rfl⟩⟩
    · rename_i differ
      obtain ⟨joined, ran, rest⟩ := bind_eq_ok.mp run
      cases joined with
      | error reason => cases rest
      | ok next => exact ⟨next, rest, .inr ⟨differ, ran⟩⟩

/-- The outer type stays, or what the arms are folded to takes its place. -/
theorem reconcile_outcome {outer type : Ty} {arms : List Binding}
    (run : t.reconcile outer arms = .ok type) : type = outer ∨
      ∃ first others, arms = first :: others ∧
        reconcile.go t first.type others = .ok (some type) := by
  cases arms with
  | nil =>
    cases run
    exact .inl rfl
  | cons first others =>
    obtain ⟨result, ran, final⟩ := bind_eq_ok.mp run
    cases result with
    | none =>
      cases final
      exact .inl rfl
    | some merged =>
      cases final
      by_cases failed : first.unresolved = true
      · exact .inl (if_pos failed)
      · rw [if_neg failed]
        exact .inr ⟨first, others, rfl, ran⟩

/-- A property that joins and failures keep. -/
structure Joinable (P : Ty → Prop) : Prop where
  object : ∀ id name, P (.instanceOf id name)
  noneType : P .noneType

variable {P : Ty → Prop} (joinable : Joinable P)
include joinable

/-- The join of two types is one of them or an instance of a class that both fit. -/
theorem Joinable.join {a b c : Ty} (left : P a) (right : P b) (joined : t.join a b = .ok (.ok c)) :
    P c := by
  cases join_outcome joined with
  | right => exact right
  | left => exact left
  | common => exact joinable.object _ _

/-- What the arms bind is reconciled step by step, so a joinable property carries over. -/
theorem Joinable.reconcile {outer type : Ty} {arms : List Binding} (start : P outer)
    (each : ∀ arm ∈ arms, P arm.type) (run : t.reconcile outer arms = .ok type) : P type := by
  have folded (merged : Ty) (arms : List Binding) (start : P merged)
      (each : ∀ arm ∈ arms, P arm.type)
      (run : reconcile.go t merged arms = .ok (some type)) : P type := by
    induction arms generalizing merged with
    | nil =>
      cases run
      exact start
    | cons arm arms ih =>
      obtain ⟨first, others⟩ := List.forall_mem_cons.mp each
      obtain ⟨next, rest, ⟨_, rfl⟩ | ⟨_, joined⟩⟩ := reconcileGo_cons run
      · exact ih _ start others rest
      · exact ih _ (joinable.join start first joined) others rest
  rcases reconcile_outcome run with rfl | ⟨first, others, rfl, ran⟩
  · exact start
  · obtain ⟨here, rest⟩ := List.forall_mem_cons.mp each
    exact folded first.type others here rest ran

/-- What the arms bind is joined step by step, so a joinable property carries over. -/
theorem Joinable.joinBindings {merged result : Binding} {others : List Binding}
    {failure : Option JoinFailure} (run : t.joinBindings merged others = .ok (result, failure))
    (start : P merged.type) (each : ∀ b ∈ others, P b.type) : P result.type := by
  induction others generalizing merged with
  | nil =>
    cases run
    exact start
  | cons other others ih =>
    obtain ⟨first, rest⟩ := List.forall_mem_cons.mp each
    rw [ClassTable.joinBindings] at run
    split at run
    · cases run
      exact joinable.noneType
    · obtain ⟨joined, ran, answer⟩ := bind_eq_ok.mp run
      cases joined with
      | error reason =>
        cases answer
        exact start
      | ok type => exact ih answer (joinable.join start first ran) rest

end ClassTable

theorem ClassTable.mergeOverloads_holds {t : ClassTable} {P : Overload → Prop} {name : String}
    {merged added result : List Overload} (old : ∀ o ∈ merged, P o) (new : ∀ o ∈ added, P o)
    (run : t.mergeOverloads name merged added = .ok (.ok result)) : ∀ o ∈ result, P o := by
  induction added generalizing merged with
  | nil =>
    cases run
    exact old
  | cons o os ih =>
    obtain ⟨first, others⟩ := List.forall_mem_cons.mp new
    rw [mergeOverloads] at run
    cases found : Overload.find? merged o.params with
    | none =>
      rw [found] at run
      exact ih (List.forall_mem_append.mpr ⟨old, List.forall_mem_singleton.mpr first⟩) others run
    | some previous =>
      rw [found] at run
      obtain ⟨verdict, _, rest⟩ := bind_eq_ok.mp run
      rcases verdict with (_ | feature) | _
      · cases rest
      · cases rest
      · exact ih old others rest

namespace Discipline

variable {d : Discipline} {t t' : ClassTable} {B : Nat}

theorem joinable_bound (d : Discipline) (t : ClassTable) (B : Nat) :
    ClassTable.Joinable (d.bound t B) := ⟨fun _ _ => d.instanceOf, d.noneType⟩

theorem joinable_given (d : Discipline) (t : ClassTable) (B : Nat) :
    ClassTable.Joinable (d.given t B) :=
  ⟨fun _ _ => d.given_of_bound d.instanceOf, d.given_of_bound d.noneType⟩

/-- A name bound anew has one of the two types, or the overloads of both. -/
theorem rebind {name : String} {old new type : Ty} (left : d.bound t B old)
    (right : d.bound t B new) (run : t'.rebind name old new = .ok (.ok type)) :
    d.bound t B type := by
  unfold ClassTable.rebind at run
  split at run
  · obtain ⟨merged, joined, rest⟩ := bind_eq_ok.mp run
    cases merged with
    | error problem => cases rest
    | ok os =>
      cases rest
      exact d.func.mpr
        (ClassTable.mergeOverloads_holds (d.func.mp left) (d.func.mp right) joined)
  · obtain ⟨verdict, _, rest⟩ := bind_eq_ok.mp run
    rcases verdict with (_ | feature) | _
    · cases rest
    · cases rest
    · cases rest
      exact left

end Discipline

/-! ## Steps that find a type -/

namespace Check

variable {α β : Type} {d : Discipline} {t : ClassTable} {B C : Nat} {s : Checker}

theorem fail_gives {Q : Option α → Prop} (problem : Problem) (span : Span) (s : Checker)
    (holds : Q none) : Gives (fail problem span : Check (Option α)) s fun a _ => Q a :=
  .after_modify (.pure holds)

theorem mismatch_gives {Q : Option α → Prop} (reason : Mismatch) (expected received : Ty)
    (span : Span) (s : Checker) (holds : Q none) :
    Gives (mismatch reason expected received span : Check (Option α)) s fun a _ => Q a := by
  cases reason <;> exact fail_gives _ _ s holds

theorem read_bound (obeys : s.Obeys d t B) (name : String) (span : Span) :
    Gives (read name span) s fun result _ => ∀ type ∈ result, d.bound t B type := by
  refine (read_outcome name span).imp fun result s' outcome => ?_
  cases outcome with
  | assigned found =>
    rintro _ ⟨⟩
    exact obeys.frame.bindings name _ found
  | silent => exact nofun
  | refused => exact nofun

theorem resolveTerm_spelled (d : Discipline) {term : TypeTerm} (le : term.longest ≤ B) :
    Gives (resolveTerm term) s fun result _ => ∀ type ∈ result, d.spelled B type :=
  (resolveTerm_denotes term).imp fun _ _ denotes type given => d.denoted le (denotes type given)

theorem resolveTerms_spelled (d : Discipline) {terms : List TypeTerm}
    (le : TypeTerm.longestOf terms ≤ B) :
    Gives (resolveTerms terms) s fun result _ =>
      ∀ types ∈ result, ∀ type ∈ types, d.spelled B type := by
  induction terms generalizing s with
  | nil =>
    refine .pure ?_
    rintro _ ⟨⟩
    simp
  | cons term terms ih =>
    obtain ⟨here, later⟩ := Nat.max_le.mp le
    refine (resolveTerm_spelled d here).bind fun first s₁ own => ?_
    refine (ih later).bind fun others s₂ rest => ?_
    cases first with
    | none => exact .pure nofun
    | some type =>
      cases others with
      | none => exact .pure nofun
      | some types =>
        refine .pure ?_
        rintro _ ⟨⟩
        exact List.forall_mem_cons.mpr ⟨own type rfl, rest types rfl⟩

theorem resolveResult_spelled (d : Discipline) {result : Option TypeTerm}
    (le : TypeTerm.longestOf result.toList ≤ B) :
    Gives (resolveResult result) s fun resolved _ =>
      ∀ declared ∈ resolved, ∀ type ∈ declared, d.spelled B type := by
  cases result with
  | none =>
    refine .pure ?_
    rintro _ ⟨⟩
    exact nofun
  | some term =>
    refine (resolveTerm_spelled d (Nat.max_le.mp le).1).bind fun resolved s₁ own => ?_
    cases resolved with
    | none => exact .pure nofun
    | some type =>
      refine .pure ?_
      rintro _ ⟨⟩ _ ⟨⟩
      exact own type rfl

/-- Fields are spelled out, and only instances have them. -/
theorem member_spelled (obeys : s.Obeys d t B) (receiver : Ty) (name : String) (span : Span) :
    Gives (member receiver name span) s fun result _ =>
      ∀ type ∈ result, d.spelled B type ∧ receiver.isSpread = false := by
  unfold member
  split
  · exact fail_gives _ _ s nofun
  · rename_i id instance_
    have single : receiver.isSpread = false := by
      cases receiver with
      | spread items => cases instance_
      | _ => rfl
    refine .after_get (.after_lift fun c got => ?_)
    cases found : c.fields.find? name with
    | none => exact fail_gives _ _ s nofun
    | some type =>
      refine .pure ?_
      rintro _ ⟨⟩
      exact ⟨obeys.field got found, single⟩

/-- A method is a field, and its result was written down with the field's type. Several values
at once have none. -/
theorem callMember_spelled (obeys : s.Obeys d t B) (receiver : Ty) (name : String)
    (arguments : List Ty) (span : Span) :
    Gives (callMember receiver name arguments span) s fun result _ =>
      ∀ chosen ∈ result, d.spelled B chosen.2 ∧ receiver.isSpread = false := by
  refine (member_spelled obeys receiver name span).bind fun result s₁ own => ?_
  cases result with
  | none => exact .pure nofun
  | some type =>
    obtain ⟨field, single⟩ := own type rfl
    cases type with
    | func overloads =>
      refine (call_index name overloads arguments span s₁).imp fun result _ place chosen given => ?_
      obtain ⟨o, here, same⟩ := place chosen given
      exact ⟨same ▸ d.result field o (List.mem_of_getElem? here), single⟩
    | _ => exact fail_gives _ _ s₁ nofun

/-- A constructor gives an instance, whichever of the overloads was chosen. -/
theorem constructed_instance (id : ClassId) (name : String) (arguments : List Ty) (span : Span) :
    Gives (do
      match ← construct id arguments span with
      | some overload => return some (overload, .instanceOf id name)
      | none => return none : Check (Option (Option Nat × Ty))) s fun result _ =>
        ∀ chosen ∈ result, ∃ id name, chosen.2 = .instanceOf id name := by
  refine Gives.any.bind fun result s₁ _ => ?_
  cases result with
  | none => exact .pure nofun
  | some overload =>
    refine .pure ?_
    rintro _ ⟨⟩
    exact ⟨id, name, rfl⟩

/-- A call gives the result of the overload chosen, or an instance of the class called. -/
theorem callValue_given (callee : String) {value : Ty} (holds : d.given t C value)
    (arguments : List Ty) (span : Span) :
    Gives (callValue callee value arguments span) s fun result _ =>
      ∀ chosen ∈ result, d.given t C chosen.2 := by
  cases value with
  | func overloads =>
    refine (call_index callee overloads arguments span s).bind fun result s₁ place => ?_
    cases result with
    | none => exact .pure nofun
    | some chosen =>
      refine .pure ?_
      rintro _ ⟨⟩
      obtain ⟨o, here, same⟩ := place chosen rfl
      have each := d.func.mp (d.bound_of_given rfl holds)
      exact same ▸ (each o (List.mem_of_getElem? here)).2
  | classValue id name =>
    refine (constructed_instance id name arguments span).imp fun result _ made chosen given => ?_
    obtain ⟨_, _, same⟩ := made chosen given
    exact same ▸ d.given_of_bound d.instanceOf
  | _ => exact fail_gives _ _ s nofun

theorem constructValue_instance (value : Ty) (arguments : List Ty) (span : Span) :
    Gives (constructValue value arguments span) s fun result _ =>
      ∀ chosen ∈ result, ∃ id name, chosen.2 = .instanceOf id name := by
  cases value with
  | classValue id name => exact constructed_instance id name arguments span
  | _ => exact fail_gives _ _ s nofun

theorem castTo_spelled (value : Ty) {target : Ty} (holds : d.spelled B target) (span : Span) :
    Gives (castTo value target span) s fun result _ =>
      ∀ chosen ∈ result, d.spelled B chosen.2 := by
  have cast (overloads : List Overload) : Gives (castBy value target span overloads) s
      fun result _ => ∀ chosen ∈ result, d.spelled B chosen.2 := by
    unfold castBy
    split
    · refine .pure ?_
      rintro _ ⟨⟩
      exact holds
    · exact fail_gives _ _ s nofun
  refine .after_get ?_
  split
  · exact cast []
  · exact .after_lift fun c _ => cast _

theorem spreadType_given {value : Ty} (holds : d.given t C value) (span : Span) :
    Gives (spreadType value span) s fun result _ => ∀ type ∈ result, d.given t C type := by
  unfold spreadType
  split
  · rename_i type spread
    refine .pure ?_
    rintro _ ⟨⟩
    exact d.spread holds spread
  · exact fail_gives _ _ s (by simp)

theorem tupleType_gathered (types : List Ty) : Gives (tupleType types) s fun result _ =>
    ∀ type ∈ result, type = .tuple (Ty.gathered .nil types) := by
  refine .after_lift fun items collected => .pure ?_
  rintro _ ⟨⟩
  rw [(Ty.collect_eq_ok.mp collected).2]

theorem joinItems_given (span : Span) {merged : Ty} {types : List Ty} (start : d.given t C merged)
    (each : ∀ type ∈ types, d.given t C type) :
    Gives (joinItems span merged types) s fun result _ => ∀ type ∈ result, d.given t C type := by
  induction types generalizing merged with
  | nil =>
    refine .pure ?_
    rintro _ ⟨⟩
    exact start
  | cons type types ih =>
    obtain ⟨first, others⟩ := List.forall_mem_cons.mp each
    refine .after_get (.after_lift fun joined ran => ?_)
    cases joined with
    | ok merged => exact ih ((d.joinable_given t C).join start first ran) others
    | error reason => exact mismatch_gives _ _ _ _ s nofun

theorem arrayType_bound (span : Span) {types : List Ty} (each : ∀ type ∈ types, d.given t C type) :
    Gives (arrayType span types) s fun result _ => ∀ type ∈ result, d.bound t C type := by
  cases types with
  | nil => exact fail_gives _ _ s nofun
  | cons first others =>
    obtain ⟨start, rest⟩ := List.forall_mem_cons.mp each
    refine (joinItems_given span start rest).bind fun result s₁ item => ?_
    cases result with
    | none => exact .pure nofun
    | some type =>
      refine .pure ?_
      rintro _ ⟨⟩
      exact d.array.mpr (item type rfl)

/-- An index gives an item of the array, or what the method of that name returns. -/
theorem indexType_given (obeys : s.Obeys d t B) (le : B ≤ C) {object : Ty}
    (holds : d.given t C object) (position : Ty) (positionSpan span : Span) :
    Gives (indexType object position positionSpan span) s fun result _ =>
      ∀ type ∈ result, d.given t C type := by
  cases object with
  | array item =>
    refine .after_get (Gives.any.bind fun fits s₁ _ => ?_)
    cases fits with
    | none => exact .pure nofun
    | some fits =>
      refine .pure ?_
      rintro _ ⟨⟩
      exact d.array.mp (d.bound_of_given rfl holds)
  | object name id generics =>
    refine (callMember_spelled obeys _ "[]" [position] span).bind fun result s₁ given => ?_
    cases result with
    | none => exact .pure nofun
    | some chosen =>
      refine .pure ?_
      rintro _ ⟨⟩
      have called := d.spelled_mono le (given chosen rfl).1
      exact d.given_of_bound (d.bound_of_spelled called)
  | _ => exact fail_gives _ _ s nofun

/-- An operator gives a truth value, what its method returns, or the type on its left if it
assigns. -/
theorem binaryType_bound (obeys : s.Obeys d t B) (le : B ≤ C) (operator : Token) {left : Ty}
    (holds : d.given t C left) (right : Ty) (leftSpan rightSpan span : Span) :
    Gives (binaryType operator left right leftSpan rightSpan span) s fun result _ =>
      ∀ type ∈ result.2, d.bound t C type := by
  have logical : Gives (logicalType left right leftSpan rightSpan) s fun result _ =>
      ∀ type ∈ result.2, d.bound t C type := by
    refine Gives.any.bind fun leftOk s₁ _ => Gives.any.bind fun rightOk s₂ _ => ?_
    cases leftOk <;> cases rightOk
    case some.some =>
      refine .after_get (.pure ?_)
      rintro _ ⟨⟩
      exact d.instanceOf
    all_goals exact .pure (by simp)
  unfold binaryType
  split
  · exact logical
  · exact logical
  · refine (callMember_spelled obeys left _ [right] span).bind fun result s₁ given => ?_
    cases result with
    | none => exact .pure (by simp)
    | some chosen =>
      obtain ⟨called, single⟩ := given chosen rfl
      simp only
      split
      · refine Gives.any.bind fun fits s₂ _ => ?_
        cases fits with
        | none => exact .pure (by simp)
        | some fits =>
          refine .pure ?_
          rintro _ ⟨⟩
          exact d.bound_of_given single holds
      · refine .pure ?_
        rintro _ ⟨⟩
        exact d.bound_of_spelled (d.spelled_mono le called)

/-- A function's type is put together from what it accepts and what it gives back. -/
theorem functionType_bound {params : List Ty} {declared returned : Option Ty}
    (accepted : ∀ type ∈ params, d.given t C type)
    (promised : ∀ type ∈ declared, d.given t C type)
    (given : ∀ type ∈ returned, d.given t C type) (span : Span) :
    Gives (functionType params declared returned span) s fun result _ =>
      ∀ type ∈ result, d.bound t C type := by
  have give {result : Ty} (holds : d.given t C result) : Gives (do
        registerFunction [⟨[], params, result⟩]
        return some (.func [⟨[], params, result⟩]) : Check (Option Ty)) s fun result _ =>
          ∀ type ∈ result, d.bound t C type := by
    refine Gives.any.bind fun _ s₁ _ => .pure ?_
    rintro _ ⟨⟩
    exact d.func.mpr (List.forall_mem_singleton.mpr ⟨accepted, holds⟩)
  cases declared with
  | none =>
    cases returned with
    | none => exact give (d.given_of_bound d.noneType)
    | some returned => exact give (given returned rfl)
  | some declared =>
    cases returned with
    | some returned => exact give (promised declared rfl)
    | none =>
      unfold functionType
      simp only
      split
      · exact give (promised declared rfl)
      · exact fail_gives _ _ s nofun

/-! ## Steps that bind names -/

/-- The step leaves the checker as the discipline wants it. -/
def Upholds (d : Discipline) (t : ClassTable) (B : Nat) (m : Check α) : Prop :=
  ∀ s, s.Obeys d t B → Gives m s fun _ s' => s'.Obeys d t B

namespace Upholds

theorem of_notes {m : Check α} (notes : Notes m) : Upholds d t B m :=
  fun s obeys => (notes s).imp fun _ _ noted => obeys.noted noted

theorem pure (a : α) : Upholds d t B (Pure.pure a : Check α) := of_notes (.pure a)

theorem bind {m : Check α} {f : α → Check β} (first : Upholds d t B m)
    (rest : ∀ a, Upholds d t B (f a)) : Upholds d t B (m >>= f) :=
  fun s obeys => (first s obeys).bind fun a s₁ obeys₁ => rest a s₁ obeys₁

end Upholds

/-- A name is bound with the given type, or with the overloads of two. -/
theorem define_upholds (name : String) {type : Ty} (holds : d.bound t B type) (assigned : Assigned)
    (constant : Bool) (span : Span) : Upholds d t B (define name type assigned constant span) := by
  intro s obeys
  refine (define_outcome name type assigned constant span).imp fun _ s' outcome => ?_
  cases outcome with
  | fresh => exact obeys.bind name holds
  | rebound found resolved open_ fits =>
    exact obeys.bind name (d.rebind (obeys.frame.bindings name _ found) holds fits)
  | refused => exact obeys.noted (.addDiagnostic _ _)

theorem defineUnresolved_upholds (name : String) (span : Span) :
    Upholds d t B (defineUnresolved name span) := by
  intro s obeys
  refine .modify ?_
  split
  · rename_i old found
    have holds := obeys.frame.bindings name old found
    exact obeys.bind name holds
  · exact obeys.bind name d.noneType

theorem defineAllUnresolved_upholds (names : List String) (span : Span) :
    Upholds d t B (defineAllUnresolved names span) := by
  unfold defineAllUnresolved
  induction names.filter (· != "_") with
  | nil => exact .pure _
  | cons name names ih => exact .bind (defineUnresolved_upholds name span) fun _ => ih

theorem defineEach_upholds (constant : Bool) (span : Span) {pairs : List (String × Ty)}
    (holds : ∀ p ∈ pairs, d.bound t B p.2) : Upholds d t B (defineEach constant span pairs) := by
  induction pairs with
  | nil => exact .pure _
  | cons pair pairs ih =>
    obtain ⟨name, type⟩ := pair
    obtain ⟨first, others⟩ := List.forall_mem_cons.mp holds
    rw [defineEach]
    split
    · exact .bind (.pure _) fun _ => .bind (ih others) fun _ => .pure _
    · exact .bind (define_upholds name first _ _ _) fun _ => .bind (ih others) fun _ => .pure _

theorem defineNames_upholds (names : List String) {type : Ty} (holds : d.given t B type)
    (constant : Bool) (span : Span) : Upholds d t B (defineNames names type constant span) := by
  have each {pairs : List (String × Ty)} (holds : ∀ p ∈ pairs, d.bound t B p.2) :
      Upholds d t B (do
        let bound ← defineEach constant span pairs
        return if bound then some type else none : Check (Option Ty)) :=
    .bind (defineEach_upholds constant span holds) fun _ => .pure _
  have every (single : type.isSpread = false) : ∀ p ∈ names.map (·, type), d.bound t B p.2 := by
    intro p listed
    obtain ⟨name, _, rfl⟩ := List.mem_map.mp listed
    exact d.bound_of_given single holds
  cases type with
  | spread items =>
    have elements := (d.elements holds).toList
    rw [defineNames]
    split
    · exact .bind (defineAllUnresolved_upholds names span) fun _ =>
        .of_notes (notesParts.fail _ trivial)
    · rw [items.zip_take]
      exact each fun p listed => elements p.2 (List.of_mem_zip listed).2
  | _ => exact each (every rfl)

/-- Merging a name binds a type that the arms and the outside have led to. -/
theorem mergeName_upholds {arms : List Arm}
    (inArms : ∀ arm ∈ arms, arm.All (d.bound t B) (d.given t B)) (exhaustive : Bool) (span : Span)
    (name : String) :
    Upholds d t B (mergeName arms exhaustive span name) := by
  intro s obeys
  have each := Arm.All.bindingsOf inArms name
  have joinable := d.joinable_bound t B
  refine (mergeName_outcome arms exhaustive span name).imp fun _ s' outcome => ?_
  cases outcome with
  | outer found typed =>
    have outside := obeys.frame.bindings name _ found
    refine obeys.bind name ?_
    rcases typed with ⟨_, _, reconciled⟩ | ⟨_, rfl⟩
    · exact joinable.reconcile outside each reconciled
    · exact outside
  | absent => exact obeys
  | introduced _ listed joined =>
    rw [listed] at each
    obtain ⟨start, rest⟩ := List.forall_mem_cons.mp each
    exact obeys.bind name (joinable.joinBindings joined start rest)
  | conflict _ listed joined =>
    rw [listed] at each
    obtain ⟨start, rest⟩ := List.forall_mem_cons.mp each
    exact (obeys.noted (.addDiagnostic _ _)).bind name (joinable.joinBindings joined start rest)

theorem mergeNames_upholds {arms : List Arm}
    (inArms : ∀ arm ∈ arms, arm.All (d.bound t B) (d.given t B)) (exhaustive : Bool) (span : Span)
    (names : List String) : Upholds d t B (mergeNames arms exhaustive span names) := by
  induction names with
  | nil => exact .pure _
  | cons name names ih =>
    exact .bind (mergeName_upholds inArms exhaustive span name) fun _ =>
      .bind ih fun _ => .pure _

theorem mergeReturns_given (span : Span) {returned : Option Ty} {types : List Ty}
    (before : ∀ type ∈ returned, d.given t B type) (each : ∀ type ∈ types, d.given t B type) :
    Gives (mergeReturns span returned types) s fun result _ =>
      ∀ type ∈ result.2, d.given t B type := by
  induction types generalizing returned s with
  | nil => exact .pure before
  | cons type types ih =>
    obtain ⟨first, others⟩ := List.forall_mem_cons.mp each
    cases returned with
    | none =>
      have start : ∀ given ∈ some type, d.given t B given := by
        rintro _ ⟨⟩
        exact first
      exact ih start others
    | some previous =>
      refine .after_get (.after_lift fun joined ran => ?_)
      cases joined with
      | ok type =>
        have start : ∀ given ∈ some type, d.given t B given := by
          rintro _ ⟨⟩
          exact (d.joinable_given t B).join (before previous rfl) first ran
        exact ih start others
      | error reason =>
        refine Gives.any.bind fun _ s₁ _ => ?_
        exact (ih before others).bind fun (_, returned) s₂ holds => .pure holds

/-- The arms' bindings and returns are merged name by name, so a discipline is upheld. -/
theorem mergeArms_upholds {arms : List Arm}
    (inArms : ∀ arm ∈ arms, arm.All (d.bound t B) (d.given t B)) (exhaustive : Bool)
    (span : Span) : Upholds d t B (mergeArms arms exhaustive span) := by
  refine .bind (mergeNames_upholds inArms exhaustive span _) fun bindings => ?_
  simp only
  split
  · intro s obeys
    refine .after_get ?_
    refine ((mergeReturns_given span obeys.frame.returns (Arm.All.returned inArms)).and
      (notesParts.mergeReturns trivial _ _ s)).bind fun (joined, returned) s₁ ⟨merged, noted⟩ => ?_
    exact .after_modify (.pure ((obeys.noted noted).setReturns merged))
  · exact .pure _

theorem recordReturn_upholds {value : Ty} (holds : d.given t B value) (span : Span) :
    Upholds d t B (recordReturn value span) := by
  intro s obeys
  refine (recordReturn_outcome value span).imp fun _ s' outcome => ?_
  cases outcome with
  | refused => exact obeys.noted (.addDiagnostic _ _)
  | recorded declared function fits returned joined =>
    have now : d.given t B (declared.getD value) := by
      cases declared with
      | none => exact holds
      | some type => exact obeys.toAll.declaredReturn? function type rfl
    refine obeys.setReturns ?_
    rintro _ ⟨⟩
    rcases joined with ⟨_, rfl⟩ | ⟨previous, before, joined⟩
    · exact now
    · exact (d.joinable_given t B).join (obeys.frame.returns previous before) now joined

theorem typePattern_upholds (subject : Ty) (name : String) {term : TypeTerm}
    (le : term.longest ≤ B) (span : Span) :
    Upholds d t B (typePattern subject name term span) := by
  intro s obeys
  refine ((resolveTerm_spelled d le).and (notesParts.resolveTerm trivial s)).bind
    fun result s₁ ⟨spelled, noted⟩ => ?_
  have obeys₁ := obeys.noted noted
  cases result with
  | none => exact .pure obeys₁
  | some pattern =>
    refine (notesParts.narrows pattern subject s₁).bind fun accepted s₂ noted' => ?_
    have obeys₂ := obeys₁.noted noted'
    cases accepted with
    | true => exact .after_modify (.pure (obeys₂.bind name (d.bound_of_spelled (spelled _ rfl))))
    | false => exact .after_fail (.pure (obeys₂.noted (.addDiagnostic _ _)))

/-! ## Class declarations -/

theorem addFields_fields {P : Ty → Prop} {type : Ty} (holds : P type) (span : Span)
    {fields : NameMap Ty} (before : ∀ entry ∈ fields.entries, P entry.2) (names : List String)
    (s : Checker) :
    Gives (addFields type span fields names) s fun result _ =>
      ∀ entry ∈ result.2.entries, P entry.2 := by
  induction names generalizing fields s with
  | nil => exact .pure before
  | cons name names ih =>
    rw [addFields]
    split
    · refine ih (fun entry listed => ?_) s
      rcases NameMap.mem_insertEntry listed with rfl | old
      · exact holds
      · exact before entry old
    · refine .after_fail ?_
      exact (ih before _).bind fun _ _ after => .pure after

/-- The types of the fields are those that the terms of the groups stand for. -/
theorem collectFields_fields {P : Ty → Prop} {fields : NameMap Ty}
    (before : ∀ entry ∈ fields.entries, P entry.2) (groups : List FieldGroup) (s : Checker)
    (each : ∀ group ∈ groups, ∀ type,
      group.term.lower.resolve s.classes.ids = (type, none) → P type) :
    Gives (collectFields fields groups) s fun result _ =>
      ∀ entry ∈ result.2.entries, P entry.2 := by
  induction groups generalizing fields s with
  | nil => exact .pure before
  | cons group groups ih =>
    obtain ⟨first, others⟩ := List.forall_mem_cons.mp each
    have rest (s₁ : Checker) (noted : s.Noted s₁) : ∀ group ∈ groups, ∀ type,
        group.term.lower.resolve s₁.classes.ids = (type, none) → P type := by
      rw [noted.classes]
      exact others
    refine ((resolveTerm_denotes group.term).and (notesParts.resolveTerm trivial s)).bind ?_
    rintro (_ | type) s₁ ⟨denoted, noted⟩
    · exact (ih before s₁ (rest s₁ noted)).bind fun _ _ after => .pure after
    · have own := first type (denoted type rfl)
      refine ((addFields_fields own group.span before group.names s₁).and
        (notesParts.addFields _ trivial _ _ s₁)).bind ?_
      rintro ⟨added, fields⟩ s₂ ⟨sofar, noted'⟩
      exact (ih sofar s₂ (rest s₂ (noted.trans noted'))).bind fun _ _ after => .pure after

theorem collectFields_spelled (d : Discipline) {groups : List FieldGroup}
    (le : TypeTerm.longestOf (groups.map (·.term)) ≤ B) :
    Gives (collectFields .empty groups) s fun result _ =>
      ∀ entry ∈ result.2.entries, d.spelled B entry.2 := by
  have none : ∀ entry ∈ (NameMap.empty : NameMap Ty).entries, d.spelled B entry.2 := nofun
  refine collectFields_fields none groups s fun group listed type denoted => ?_
  have below := TypeTerm.longest_le_of_mem (List.mem_map_of_mem (f := (·.term)) listed)
  exact d.denoted (Nat.le_trans below le) denoted

theorem collectConstructors_spelled (d : Discipline) {constructors : List (List TypeTerm)}
    (le : TypeTerm.longestOf constructors.flatten ≤ B) :
    Gives (collectConstructors constructors) s fun result _ =>
      ∀ params ∈ result.2, ∀ type ∈ params, d.spelled B type := by
  induction constructors generalizing s with
  | nil => exact .pure (by simp)
  | cons terms rest ih =>
    rw [List.flatten_cons, TypeTerm.longestOf_append] at le
    obtain ⟨here, later⟩ := Nat.max_le.mp le
    refine (resolveTerms_spelled d here).bind fun params s₁ own => ?_
    refine (ih later).bind fun (others, constructors) s₂ rest => ?_
    cases params with
    | none => exact .pure rest
    | some params => exact .pure (List.forall_mem_cons.mpr ⟨own params rfl, rest⟩)

/-- A class that is declared brings in its own class value. -/
theorem declareNamed_obeys {decl : ClassDecl} (le : decl.extent.longest ≤ B) (span : Span)
    (obeys : s.Obeys d t B) :
    Gives (declareNamed decl span) s fun _ s' => s'.Obeys d s'.classes B := by
  obtain rfl := obeys.classes
  obtain ⟨few, few'⟩ := Nat.max_le.mp le
  refine (claimClass_outcome decl.name).bind fun result s₁ outcome => ?_
  cases outcome with
  | taken old => exact .after_modify (.pure (obeys.noted (.addDiagnostic _ _)))
  | @claimed id classes free declared =>
    obtain ⟨rfl, rfl⟩ := ClassTable.declare_ok declared
    refine .after_get (.after_lift fun type value => ?_)
    rw [ClassTable.classValue, ClassTable.get_append_new, ok_bind] at value
    cases value
    refine .after_run (define_fresh free) ?_
    refine (((collectFields_spelled d few).and (collectFields_notes _ _ _))).bind ?_
    rintro ⟨fieldsOk, fields⟩ s₃ ⟨fieldsSpelled, noted⟩
    refine ((collectConstructors_spelled d few').and (collectConstructors_notes _ _)).bind ?_
    rintro ⟨constructorsOk, constructors⟩ s₄ ⟨constructorsSpelled, noted'⟩
    obtain ⟨diagnostics, functions, rfl⟩ := noted.trans noted'
    refine .after_get (.after_lift fun filled modified => .after_lift fun registered ran => ?_)
    replace modified := (ClassTable.modify_append _ _ rfl).symm.trans modified
    cases modified
    obtain ⟨_, fits, _, rfl⟩ := ClassTable.register_eq_ok ran
    -- The classes that were there before keep their places and their names.
    have kept : s.classes.Renewed (s.classes.extend ⟨decl.name, constructors, fields⟩ fits) :=
      fun id c got => ⟨c, ClassTable.get_append.mpr (.inl got), rfl⟩
    have before : Checker.Obeys
        { s with classes := s.classes.extend ⟨decl.name, constructors, fields⟩ fits } d
        (s.classes.extend ⟨decl.name, constructors, fields⟩ fits) B := by
      have all := obeys.toAll.imp (fun _ => d.bound_mono kept (Nat.le_refl B))
        fun _ => d.given_mono kept (Nat.le_refl B)
      refine ⟨⟨all.frame, all.outer⟩, rfl, List.forall_mem_append.mpr ⟨obeys.declared, ?_⟩⟩
      exact List.forall_mem_singleton.mpr ⟨fieldsSpelled, constructorsSpelled⟩
    have after := before.bind decl.name
      (b := ⟨.classValue s.classes.classes.length decl.name, .always, true, false, span⟩)
      (d.classValue (c := ⟨decl.name, constructors, fields⟩) ClassTable.get_append_new)
    exact .after_set (.pure (after.noted ⟨diagnostics, functions, rfl⟩))

/-- Declaring a class changes the table. The types bound before are taken over into the new one,
in which every class has kept its name. -/
theorem declareClass_obeys {decl : ClassDecl} (le : decl.extent.longest ≤ B) (span : Span)
    (obeys : s.Obeys d t B) :
    Gives (declareClass decl span) s fun _ s' => s'.Obeys d s'.classes B := by
  cases root : s.atRoot with
  | false =>
    refine .of_run (declareClass_inside decl span root) ?_
    refine (defineUnresolved_upholds _ _ s obeys).bind fun _ s₁ obeys₁ => ?_
    exact .after_modify (.pure (obeys₁.noted (.addDiagnostic _ _)).own)
  | true =>
    refine .of_run (declareClass_root decl span root) ?_
    refine (warnIf_notes _ _ _ s).bind fun _ s₁ first => ?_
    refine (warnIf_notes _ _ _ s₁).bind fun _ s₂ second => ?_
    exact declareNamed_obeys le span (obeys.noted (first.trans second))

end Check

end ShapeLang
