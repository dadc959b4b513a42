import ShapeLang.Proofs.Answers
import ShapeLang.Proofs.Scoping

/-!
# Sound checkers

A checker is sound if its class table is coherent and every type in its frames
mentions classes of the table only. From a sound checker no part of the walk
faults: each ends, in a sound checker, and the types it hands on can be used as
well.
-/

namespace ShapeLang

theorem Class.Over.field {n : Nat} {c : Class} {name : String} {type : Ty}
    (limited : c.Over (· < n)) (found : c.fields.find? name = some type) : type.Known n :=
  (limited.fields _ (NameMap.mem_of_lookup found)).known

theorem Class.Over.constructor {n : Nat} {c : Class} (limited : c.Over (· < n)) :
    ∀ params ∈ c.constructors, ∀ p ∈ params, p.Known n :=
  fun params listed p param => (limited.constructors params listed p param).known

/-! ## Types in frames -/

/-- What names are bound to has the property `P`, what is returned or promised has `Q`. -/
structure Frame.All (P Q : Ty → Prop) (frame : Frame) : Prop where
  bindings : ∀ name b, frame.bindings.find? name = some b → P b.type
  returns : ∀ type ∈ frame.returns, Q type
  declared : ∀ type, frame.kind = .function (some type) → Q type

structure Arm.All (P Q : Ty → Prop) (arm : Arm) : Prop where
  bindings : ∀ name b, arm.bindings.find? name = some b → P b.type
  returns : ∀ type ∈ arm.returns, Q type

/-- The same of all frames of the checker. -/
structure Checker.All (P Q : Ty → Prop) (s : Checker) : Prop where
  frame : s.frame.All P Q
  outer : ∀ frame ∈ s.outer, frame.All P Q

section

variable {P Q P' Q' : Ty → Prop}

namespace Frame.All

variable {frame : Frame} (all : frame.All P Q)
include all

theorem imp (more : ∀ type, P type → P' type) (more' : ∀ type, Q type → Q' type) :
    frame.All P' Q' where
  bindings name b found := more _ (all.bindings name b found)
  returns type given := more' _ (all.returns type given)
  declared type function := more' _ (all.declared type function)

theorem bind (name : String) {b : Binding} (holds : P b.type) :
    Frame.All P Q { frame with bindings := frame.bindings.insert name b } where
  bindings other found bound := by
    rw [NameMap.find?_insert] at bound
    split at bound
    · cases bound
      exact holds
    · exact all.bindings other found bound
  returns := all.returns
  declared := all.declared

end Frame.All

/-- Dropping the names of a pattern leaves the types of the other names. -/
theorem Arm.All.forget {arm : Arm} (all : arm.All P Q) (pattern : Pattern) :
    (arm.forget pattern).All P Q := by
  cases pattern with
  | value _ => exact all
  | type name _ =>
    refine ⟨fun other b found => ?_, all.returns⟩
    have kept : (arm.bindings.erase name).find? other = some b := found
    rw [NameMap.find?_erase] at kept
    split at kept
    · cases kept
    · exact all.bindings other b kept

theorem Arm.All.bindingsOf {arms : List Arm} (all : ∀ arm ∈ arms, arm.All P Q) (name : String) :
    ∀ b ∈ Arm.bindingsOf arms name, P b.type := by
  intro b listed
  obtain ⟨arm, member, found⟩ := List.mem_filterMap.mp listed
  exact (all arm member).bindings name b found

theorem Arm.All.returned {arms : List Arm} (all : ∀ arm ∈ arms, arm.All P Q) :
    ∀ type ∈ arms.filterMap (·.returns), Q type := by
  intro type listed
  obtain ⟨arm, member, returned⟩ := List.mem_filterMap.mp listed
  exact (all arm member).returns type returned

namespace Checker.All

variable {s s' : Checker} (all : s.All P Q)
include all

theorem imp (more : ∀ type, P type → P' type) (more' : ∀ type, Q type → Q' type) :
    s.All P' Q' :=
  ⟨all.frame.imp more more', fun frame listed => (all.outer frame listed).imp more more'⟩

theorem noted (noted : s.Noted s') : s'.All P Q := by
  obtain ⟨diagnostics, functions, rfl⟩ := noted
  exact ⟨all.frame, all.outer⟩

theorem bind (name : String) {b : Binding} (holds : P b.type) : (s.bind name b).All P Q :=
  ⟨all.frame.bind name holds, all.outer⟩

theorem setReturns {returns : Option Ty} (given : ∀ type ∈ returns, Q type) :
    (s.setReturns returns).All P Q :=
  ⟨⟨all.frame.bindings, given, all.frame.declared⟩, all.outer⟩

/-- A new frame starts with what the frame around it binds, and with the result that is
promised. -/
theorem enter {kind : FrameKind} (promised : ∀ type, kind = .function (some type) → Q type) :
    (s.enter kind).All P Q :=
  ⟨⟨all.frame.bindings, nofun, promised⟩, List.forall_mem_cons.mpr ⟨all.frame, all.outer⟩⟩

theorem bound (params : List Param) {types : List Ty} (each : ∀ type ∈ types, P type) :
    (Check.bound s params types).All P Q := by
  have paired : ∀ p ∈ params.zip types, P p.2 :=
    fun p member => each p.2 (List.of_mem_zip member).2
  unfold Check.bound
  generalize params.zip types = pairs at paired
  induction pairs generalizing s with
  | nil => exact all
  | cons p rest ih =>
    obtain ⟨first, others⟩ := List.forall_mem_cons.mp paired
    exact ih (all.bind p.1.name first) others

theorem declaredReturn? {declared : Option Ty} (function : s.declaredReturn? = some declared) :
    ∀ type ∈ declared, Q type := by
  obtain ⟨frame, listed, kind⟩ := List.exists_of_findSome?_eq_some function
  have inside : frame.All P Q := by
    rcases List.mem_cons.mp listed with rfl | listed
    · exact all.frame
    · exact all.outer frame listed
  rintro type ⟨⟩
  split at kind
  · rename_i function
    cases kind
    exact inside.declared type function
  · cases kind

end Checker.All

end

/-! ## Soundness -/

abbrev Arm.Known (n : Nat) (arm : Arm) : Prop := arm.All (Ty.Known n) (Ty.Known n)

/-- The checker has `n` classes, and nothing in it mentions any other. -/
structure Checker.Sound (n : Nat) (s : Checker) : Prop
    extends Checker.All (Ty.Known n) (Ty.Known n) s where
  size : s.classes.classes.length = n
  coherent : s.classes.Coherent
  builtins : s.builtins = .first

namespace Checker.Sound

variable {n : Nat} {s s' : Checker}

/-- Notes have no part in soundness. -/
theorem noted (sound : s.Sound n) (noted : s.Noted s') : s'.Sound n := by
  refine ⟨sound.toAll.noted noted, ?_, ?_, ?_⟩ <;> obtain ⟨_, _, rfl⟩ := noted
  · exact sound.size
  · exact sound.coherent
  · exact sound.builtins

theorem lookup? (sound : s.Sound n) {name : String} {b : Binding}
    (found : s.lookup? name = some b) : b.type.Known n :=
  sound.frame.bindings name b found

theorem bind (sound : s.Sound n) (name : String) {b : Binding} (known : b.type.Known n) :
    (s.bind name b).Sound n :=
  ⟨sound.toAll.bind name known, sound.size, sound.coherent, sound.builtins⟩

theorem setReturns (sound : s.Sound n) {returns : Option Ty}
    (known : ∀ type ∈ returns, type.Known n) : (s.setReturns returns).Sound n :=
  ⟨sound.toAll.setReturns known, sound.size, sound.coherent, sound.builtins⟩

theorem enter (sound : s.Sound n) {kind : FrameKind}
    (known : ∀ type, kind = .function (some type) → type.Known n) : (s.enter kind).Sound n :=
  ⟨sound.toAll.enter known, sound.size, sound.coherent, sound.builtins⟩

/-- Entering a function keeps a sound checker sound if the types of its parameters are known. -/
theorem bound (sound : s.Sound n) (params : List Param) {types : List Ty}
    (known : ∀ type ∈ types, type.Known n) : (Check.bound s params types).Sound n := by
  obtain ⟨same, same'⟩ := Check.bound_classes s params types
  exact ⟨sound.toAll.bound params known, same ▸ sound.size, same ▸ sound.coherent,
    same' ▸ sound.builtins⟩

/-- The type of the instances of a builtin class. -/
theorem builtin (sound : s.Sound n) (kind : Builtin) : (s.builtins.object kind).Known n := by
  have enough := sound.coherent.builtins
  rw [sound.size] at enough
  refine Ty.over_instanceOf.mpr (Nat.lt_of_lt_of_le ?_ enough)
  rw [sound.builtins]
  cases kind <;> decide

theorem get_ok (sound : s.Sound n) {id : ClassId} (known : id < n) :
    ∃ c, s.classes.get id = .ok c ∧ c.Over (· < n) := by
  have found := sound.coherent.get_ok (sound.size ▸ known)
  rwa [sound.size] at found

end Checker.Sound

namespace Check

open Checker (Sound)

variable {α β : Type} {n : Nat} {excess : Prop}

/-- From a checker with the property `I` the step ends in one that has it too, with a result
as `Q` says. -/
def Delivers (excess : Prop) (I : Checker → Prop) (Q : α → Prop) (m : Check α) : Prop :=
  ∀ s, I s → Ends excess m s fun a s' => I s' ∧ Q a

/-- Notes keep the property, and it makes class names stand for one of the first `n`
classes. -/
structure Informed (n : Nat) (I : Checker → Prop) : Prop where
  noted : ∀ s s', I s → s.Noted s' → I s'
  names : ∀ s, I s → ∀ name id, s.classes.ids.find? name = some id → id < n

theorem sound_informed : Informed n (Sound n) where
  noted _ _ sound noted := sound.noted noted
  names _ sound := sound.size ▸ sound.coherent.ids

namespace Delivers

variable {I : Checker → Prop} {Q R : α → Prop} {P : β → Prop}

theorem pure {a : α} (holds : Q a) : Delivers excess I Q (Pure.pure a) :=
  fun _ inv => .pure ⟨inv, holds⟩

/-- Steps that deliver can be put one behind the other, under one invariant. -/
theorem bind {m : Check α} {f : α → Check β} (first : Delivers excess I Q m)
    (rest : ∀ a, Q a → Delivers excess I P (f a)) : Delivers excess I P (m >>= f) :=
  fun s inv => (first s inv).bind fun a s' ⟨inv', holds⟩ => rest a holds s' inv'

theorem imp {m : Check α} (delivers : Delivers excess I Q m) (weaker : ∀ a, Q a → R a) :
    Delivers excess I R m :=
  fun s inv => (delivers s inv).imp fun a _ ⟨inv', holds⟩ => ⟨inv', weaker a holds⟩

theorem mono {excess' : Prop} {m : Check α} (delivers : Delivers excess I Q m)
    (more : excess → excess') : Delivers excess' I Q m := fun s inv => (delivers s inv).mono more

/-- What a step delivers, if it ends. -/
theorem of_ran {m : Check α} {s s' : Checker} {a : α} (delivers : Delivers True I Q m) (inv : I s)
    (ran : m s = .ok (a, s')) : I s' ∧ Q a := (delivers s inv).of_ran ran

theorem report {Q : Option α → Prop} (informed : Informed n I) (problem : Problem) (span : Span)
    (holds : Q none) : Delivers excess I Q (Check.fail problem span : Check (Option α)) :=
  fun s inv => .after_modify (.pure ⟨informed.noted s _ inv (.addDiagnostic s _), holds⟩)

theorem fail {Q : Option α → Prop} (problem : Problem) (span : Span) (holds : Q none) :
    Delivers excess (Sound n) Q (Check.fail problem span : Check (Option α)) :=
  report sound_informed problem span holds

theorem mismatch {Q : Option α → Prop} (reason : Mismatch) (expected received : Ty) (span : Span)
    (holds : Q none) :
    Delivers excess (Sound n) Q
      (Check.mismatch reason expected received span : Check (Option α)) := by
  cases reason <;> exact fail _ _ holds

end Delivers

theorem expectType_delivers {received expected : Ty} (left : received.Known n)
    (right : expected.Known n) (span : Span) :
    Delivers excess (Sound n) (fun _ => True) (expectType received expected span) := by
  intro s sound
  obtain rfl := sound.size
  obtain ⟨verdict, compared⟩ := sound.coherent.compare_ok left right
  refine .after_get (.after_lift compared ?_)
  cases verdict with
  | ok => exact .pure ⟨sound, trivial⟩
  | error reason => exact Delivers.mismatch _ _ _ _ trivial s sound

/-- What an annotation denotes holds no class values. -/
theorem resolveTerm_delivers {I : Checker → Prop} (informed : Informed n I) (term : TypeTerm) :
    Delivers excess I (fun result => ∀ type ∈ result, type.Over (· < n) fun _ => False)
      (resolveTerm term) := by
  intro s inv
  have resolves := TypeTerm.lower_resolves (informed.names s inv) term
  unfold Ty.Resolves at resolves
  refine .after_get ?_
  split
  · rename_i type resolved
    rw [resolved] at resolves
    refine .pure ⟨inv, ?_⟩
    rintro _ ⟨⟩
    exact resolves rfl
  · exact Delivers.report informed _ _ nofun s inv
  · exact Delivers.report informed _ _ nofun s inv

/-- Annotations come to types over the classes there are, or to a report. -/
theorem resolveTerms_delivers {I : Checker → Prop} (informed : Informed n I)
    (terms : List TypeTerm) :
    Delivers excess I (fun result => ∀ types ∈ result, ∀ type ∈ types,
      type.Over (· < n) fun _ => False) (resolveTerms terms) := by
  induction terms with
  | nil =>
    refine .pure ?_
    rintro _ ⟨⟩
    simp
  | cons term terms ih =>
    refine .bind (resolveTerm_delivers informed term) fun first known =>
      .bind ih fun others knowns => ?_
    cases first with
    | none => exact .pure nofun
    | some type =>
      cases others with
      | none => exact .pure nofun
      | some types =>
        refine .pure ?_
        rintro _ ⟨⟩
        exact List.forall_mem_cons.mpr ⟨known type rfl, knowns types rfl⟩

theorem read_delivers (name : String) (span : Span) :
    Delivers excess (Sound n) (fun result => ∀ type ∈ result, type.Known n) (read name span) := by
  intro s sound
  refine .after_get ?_
  cases found : s.lookup? name with
  | none => exact Delivers.fail _ _ nofun s sound
  | some b =>
    simp only
    split
    · exact .pure ⟨sound, nofun⟩
    · split
      · refine .pure ⟨sound, ?_⟩
        rintro _ ⟨⟩
        exact sound.lookup? found
      · exact Delivers.fail _ _ nofun s sound
      · exact Delivers.fail _ _ nofun s sound

theorem registerFunction_delivers (overloads : List Overload) :
    Delivers excess (Sound n) (fun _ => True) (registerFunction overloads) :=
  fun s sound => .of_ok rfl ⟨sound.noted (registerFunction_notes overloads s _ _ rfl), trivial⟩

/-- The overload that is selected is one of the candidates, and takes the arguments. -/
theorem selectOverload_viable (callee : String) (params : α → List Ty) (candidates : List α)
    (arguments : List Ty) (span : Span) (s : Checker) :
    Gives (selectOverload callee params candidates arguments span) s fun result _ =>
      ∀ found ∈ result,
        s.classes.firstViable? params arguments 0 candidates = .ok (.ok (some found)) := by
  have refused (problem : Problem) (span : Span) : Gives (fail problem span) s
      fun (result : Option (Nat × α)) _ => ∀ found ∈ result,
        s.classes.firstViable? params arguments 0 candidates = .ok (.ok (some found)) :=
    .after_modify (.pure nofun)
  refine .after_get (.after_lift fun result ran => ?_)
  rcases result with (_ | feature) | _ | found
  · exact refused _ _
  · exact refused _ _
  · simp only
    split
    · split
      · exact refused _ _
      · exact refused _ _
    · exact refused _ _
  · refine .pure ?_
    rintro _ ⟨⟩
    exact ran

theorem selectOverload_index (callee : String) (params : α → List Ty) (candidates : List α)
    (arguments : List Ty) (span : Span) (s : Checker) :
    Gives (selectOverload callee params candidates arguments span) s fun result _ =>
      ∀ found ∈ result, candidates[found.1]? = some found.2 := by
  refine (selectOverload_viable callee params candidates arguments span s).imp ?_
  intro result _ viable found given
  exact (ClassTable.firstViable?_index (viable found given)).2

/-- The overload that is called is one of the list, and its result is what the call gives. -/
theorem call_index (callee : String) (overloads : List Overload) (arguments : List Ty)
    (span : Span) (s : Checker) :
    Gives (call callee overloads arguments span) s fun result _ =>
      ∀ chosen ∈ result, ∃ o, overloads[chosen.1]? = some o ∧ o.result = chosen.2 := by
  refine (selectOverload_index _ _ _ _ _ s).bind fun result _ place => ?_
  cases result with
  | none => exact .pure nofun
  | some found =>
    refine .pure ?_
    rintro _ ⟨⟩
    exact ⟨found.2, place found rfl, rfl⟩

/-- An overload is selected without a fault, since known types can be compared. -/
theorem selectOverload_delivers (callee : String) {params : α → List Ty} {candidates : List α}
    {arguments : List Ty} (left : ∀ c ∈ candidates, ∀ p ∈ params c, p.Known n)
    (right : ∀ a ∈ arguments, a.Known n) (span : Span) :
    Delivers excess (Sound n) (fun _ => True)
      (selectOverload callee params candidates arguments span) := by
  intro s sound
  obtain rfl := sound.size
  obtain ⟨result, ran⟩ := sound.coherent.firstViable?_ok left right 0
  refine .after_get (.after_lift ran ?_)
  rcases result with reason | _ | found
  · exact Delivers.mismatch _ _ _ _ trivial s sound
  · simp only
    split
    · split
      · exact Delivers.fail _ _ trivial s sound
      · exact Delivers.fail _ _ trivial s sound
    · exact Delivers.fail _ _ trivial s sound
  · exact .pure ⟨sound, trivial⟩

theorem call_delivers (callee : String) {overloads : List Overload} {arguments : List Ty}
    (left : ∀ o ∈ overloads, o.Known n) (right : ∀ a ∈ arguments, a.Known n) (span : Span) :
    Delivers excess (Sound n) (fun result => ∀ chosen ∈ result, chosen.2.Known n)
      (call callee overloads arguments span) := by
  intro s sound
  have ends : Delivers excess (Sound n) (fun _ => True) (call callee overloads arguments span) := by
    refine .bind (selectOverload_delivers callee (fun o listed => (left o listed).1) right span) ?_
    intro result _
    cases result <;> exact .pure trivial
  refine ((ends s sound).and (call_index callee overloads arguments span s)).imp ?_
  rintro result s' ⟨⟨sound', _⟩, place⟩
  refine ⟨sound', fun chosen given => ?_⟩
  obtain ⟨o, here, same⟩ := place chosen given
  exact same ▸ (left o (List.mem_of_getElem? here)).2

theorem construct_delivers {id : ClassId} (known : id < n) {arguments : List Ty}
    (right : ∀ a ∈ arguments, a.Known n) (span : Span) :
    Delivers excess (Sound n) (fun _ => True) (construct id arguments span) := by
  intro s sound
  obtain ⟨c, got, limited⟩ := sound.get_ok known
  refine .after_get (.after_lift got ?_)
  split
  · exact .pure ⟨sound, trivial⟩
  · refine Delivers.bind (selectOverload_delivers c.name limited.constructor right span)
      (fun result _ => ?_) s sound
    cases result <;> exact .pure trivial

theorem member_delivers {receiver : Ty} (known : receiver.Known n) (name : String) (span : Span) :
    Delivers excess (Sound n) (fun result => ∀ type ∈ result, type.Known n)
      (member receiver name span) := by
  intro s sound
  unfold member
  split
  · exact Delivers.fail _ _ nofun s sound
  · rename_i id instance_
    obtain ⟨c, got, limited⟩ := sound.get_ok (known.instanceOf_objectClass? instance_)
    refine .after_get (.after_lift got ?_)
    cases found : c.fields.find? name with
    | none => exact Delivers.fail _ _ nofun s sound
    | some type =>
      refine .pure ⟨sound, ?_⟩
      rintro _ ⟨⟩
      exact limited.field found

theorem callMember_delivers {receiver : Ty} (known : receiver.Known n) (name : String)
    {arguments : List Ty} (right : ∀ a ∈ arguments, a.Known n) (span : Span) :
    Delivers excess (Sound n) (fun result => ∀ chosen ∈ result, chosen.2.Known n)
      (callMember receiver name arguments span) := by
  refine .bind (member_delivers known name span) fun result field => ?_
  cases result with
  | none => exact .pure nofun
  | some type =>
    cases type with
    | func overloads =>
      exact call_delivers name (Ty.over_func.mp (field _ rfl)) right span
    | _ => exact .fail _ _ nofun

theorem constructed_delivers {id : ClassId} {name : String} (known : id < n)
    {arguments : List Ty} (right : ∀ a ∈ arguments, a.Known n) (span : Span) :
    Delivers excess (Sound n) (fun result => ∀ chosen ∈ result, chosen.2.Known n) (do
      match ← construct id arguments span with
      | some overload => return some (overload, .instanceOf id name)
      | none => return none : Check (Option (Option Nat × Ty))) := by
  refine .bind (construct_delivers known right span) fun result _ => ?_
  cases result with
  | none => exact .pure nofun
  | some overload =>
    refine .pure ?_
    rintro _ ⟨⟩
    exact Ty.over_instanceOf.mpr known

theorem callValue_delivers (callee : String) {value : Ty} (known : value.Known n)
    {arguments : List Ty} (right : ∀ a ∈ arguments, a.Known n) (span : Span) :
    Delivers excess (Sound n) (fun result => ∀ chosen ∈ result, chosen.2.Known n)
      (callValue callee value arguments span) := by
  cases value with
  | func overloads =>
    refine .bind (call_delivers callee (Ty.over_func.mp known) right span) fun result given => ?_
    cases result with
    | none => exact .pure nofun
    | some chosen =>
      refine .pure ?_
      rintro _ ⟨⟩
      exact given chosen rfl
  | classValue id name => exact constructed_delivers (Ty.over_classValue.mp known :) right span
  | _ => exact .fail _ _ nofun

theorem constructValue_delivers {value : Ty} (known : value.Known n) {arguments : List Ty}
    (right : ∀ a ∈ arguments, a.Known n) (span : Span) :
    Delivers excess (Sound n) (fun result => ∀ chosen ∈ result, chosen.2.Known n)
      (constructValue value arguments span) := by
  cases value with
  | classValue id name => exact constructed_delivers (Ty.over_classValue.mp known :) right span
  | _ => exact .fail _ _ nofun

theorem checkCondition_delivers {type : Ty} (known : type.Known n) (span : Span) :
    Delivers excess (Sound n) (fun _ => True) (checkCondition type span) := by
  have verdict (accepted : Bool) : Delivers excess (Sound n) (fun _ => True)
      (if accepted then pure (some ())
        else fail (.typeMismatch Builtin.bool.name type.text) span : Check (Option Unit)) := by
    cases accepted
    · exact .fail _ _ trivial
    · exact .pure trivial
  intro s sound
  refine .after_get ?_
  split
  · exact verdict false s sound
  · rename_i id instance_
    obtain ⟨c, got, _⟩ := sound.get_ok (known.instanceOf_objectClass? instance_)
    exact .after_lift got (verdict _ s sound)

theorem castBy_delivers (value : Ty) {target : Ty} (wanted : target.Known n) (span : Span)
    (overloads : List Overload) :
    Delivers excess (Sound n) (fun result => ∀ chosen ∈ result, chosen.2.Known n)
      (castBy value target span overloads) := by
  unfold castBy
  split
  · refine .pure ?_
    rintro _ ⟨⟩
    exact wanted
  · exact .fail _ _ (by simp)

theorem castTo_delivers {value target : Ty} (known : value.Known n) (wanted : target.Known n)
    (span : Span) :
    Delivers excess (Sound n) (fun result => ∀ chosen ∈ result, chosen.2.Known n)
      (castTo value target span) := by
  intro s sound
  refine .after_get ?_
  split
  · exact castBy_delivers value wanted span [] s sound
  · rename_i id instance_
    obtain ⟨c, got, _⟩ := sound.get_ok (known.instanceOf_objectClass? instance_)
    exact .after_lift got (castBy_delivers value wanted span _ s sound)

theorem joinItems_delivers (span : Span) {merged : Ty} {types : List Ty} (start : merged.Known n)
    (each : ∀ type ∈ types, type.Known n) :
    Delivers excess (Sound n) (fun result => ∀ type ∈ result, type.Known n)
      (joinItems span merged types) := by
  induction types generalizing merged with
  | nil =>
    refine .pure ?_
    rintro _ ⟨⟩
    exact start
  | cons type types ih =>
    obtain ⟨first, others⟩ := List.forall_mem_cons.mp each
    intro s sound
    obtain rfl := sound.size
    obtain ⟨joined, ran, known⟩ := sound.coherent.join_ok start first
    refine .after_get (.after_lift ran ?_)
    cases joined with
    | ok merged => exact ih (known merged rfl) others s sound
    | error reason => exact Delivers.mismatch _ _ _ _ nofun s sound

theorem arrayType_delivers (span : Span) {types : List Ty} (each : ∀ type ∈ types, type.Known n) :
    Delivers excess (Sound n) (fun result => ∀ type ∈ result, type.Known n)
      (arrayType span types) := by
  cases types with
  | nil => exact .fail _ _ nofun
  | cons first others =>
    obtain ⟨start, rest⟩ := List.forall_mem_cons.mp each
    refine .bind (joinItems_delivers span start rest) fun result known => ?_
    cases result with
    | none => exact .pure nofun
    | some item =>
      refine .pure ?_
      rintro _ ⟨⟩
      exact known item rfl

theorem indexType_delivers {object position : Ty} (known : object.Known n)
    (place : position.Known n) (positionSpan span : Span) :
    Delivers excess (Sound n) (fun result => ∀ type ∈ result, type.Known n)
      (indexType object position positionSpan span) := by
  cases object with
  | array item =>
    intro s sound
    refine .after_get ?_
    refine Delivers.bind (expectType_delivers place (sound.builtin .int) _)
      (fun fits _ => ?_) s sound
    cases fits with
    | none => exact .pure nofun
    | some fits =>
      refine .pure ?_
      rintro _ ⟨⟩
      exact known
  | object name id generics =>
    have arguments : ∀ a ∈ [position], a.Known n := List.forall_mem_singleton.mpr place
    refine .bind (callMember_delivers known "[]" arguments span) fun result given => ?_
    cases result with
    | none => exact .pure nofun
    | some chosen =>
      refine .pure ?_
      rintro _ ⟨⟩
      exact given chosen rfl
  | _ => exact .fail _ _ nofun

theorem spreadType_delivers {value : Ty} (known : value.Known n) (span : Span) :
    Delivers excess (Sound n) (fun result => ∀ type ∈ result, type.Known n)
      (spreadType value span) := by
  unfold spreadType
  split
  · rename_i type spread
    refine .pure ?_
    rintro _ ⟨⟩
    exact known.toSpread? spread
  · exact .fail _ _ (by simp)

/-- A tuple of known types is known. It is the one step that may not come to an end: there may
be too many elements to count. -/
theorem tupleType_delivers {types : List Ty} (each : ∀ type ∈ types, type.Known n)
    (counted : (Ty.gathered .nil types).length < countLimit ∨ excess) :
    Delivers excess (Sound n) (fun result => ∀ type ∈ result, type.Known n) (tupleType types) := by
  intro s sound
  rcases Ty.collect_cases types with exact_ | overflow
  · refine .after_lift exact_ (.pure ⟨sound, ?_⟩)
    rintro _ ⟨⟩
    exact Ty.over_tuple.mpr (Ty.over_gathered each)
  · have long := Ty.collect_overflow.mp overflow
    exact .overflow (counted.resolve_left (Nat.not_lt.mpr long)) overflow

theorem logicalType_delivers {left right : Ty} (known : left.Known n) (known' : right.Known n)
    (leftSpan rightSpan : Span) :
    Delivers excess (Sound n) (fun result => ∀ type ∈ result.2, type.Known n)
      (logicalType left right leftSpan rightSpan) := by
  refine .bind (checkCondition_delivers known _) fun leftOk _ => ?_
  refine .bind (checkCondition_delivers known' _) fun rightOk _ => ?_
  cases leftOk <;> cases rightOk
  case some.some =>
    refine fun s sound => .after_get (.pure ⟨sound, ?_⟩)
    rintro _ ⟨⟩
    exact sound.builtin .bool
  all_goals exact .pure (by simp)

theorem binaryType_delivers (operator : Token) {left right : Ty} (known : left.Known n)
    (known' : right.Known n) (leftSpan rightSpan span : Span) :
    Delivers excess (Sound n) (fun result => ∀ type ∈ result.2, type.Known n)
      (binaryType operator left right leftSpan rightSpan span) := by
  have arguments : ∀ a ∈ [right], a.Known n := List.forall_mem_singleton.mpr known'
  unfold binaryType
  split
  · exact logicalType_delivers known known' leftSpan rightSpan
  · exact logicalType_delivers known known' leftSpan rightSpan
  · refine .bind (callMember_delivers known _ arguments span) fun result given => ?_
    cases result with
    | none => exact .pure (by simp)
    | some chosen =>
      have result := given chosen rfl
      simp only
      split
      · refine .bind (expectType_delivers result known span) fun fits _ => ?_
        cases fits with
        | none => exact .pure (by simp)
        | some fits =>
          refine .pure ?_
          rintro _ ⟨⟩
          exact known
      · refine .pure ?_
        rintro _ ⟨⟩
        exact result

theorem functionType_delivers {params : List Ty} {declared returned : Option Ty}
    (accepted : ∀ type ∈ params, type.Known n) (promised : ∀ type ∈ declared, type.Known n)
    (given : ∀ type ∈ returned, type.Known n) (span : Span) :
    Delivers excess (Sound n) (fun result => ∀ type ∈ result, type.Known n)
      (functionType params declared returned span) := by
  have give {result : Ty} (known : result.Known n) :
      Delivers excess (Sound n) (fun result => ∀ type ∈ result, type.Known n) (do
        registerFunction [⟨[], params, result⟩]
        return some (.func [⟨[], params, result⟩]) : Check (Option Ty)) := by
    refine .bind (registerFunction_delivers _) fun _ _ => .pure ?_
    rintro _ ⟨⟩
    exact Ty.over_func.mpr (List.forall_mem_singleton.mpr ⟨accepted, known⟩)
  cases declared with
  | none =>
    cases returned with
    | none => exact give Ty.over_noneType
    | some returned => exact give (given returned rfl)
  | some declared =>
    cases returned with
    | some returned => exact give (promised declared rfl)
    | none =>
      unfold functionType
      simp only
      split
      · exact give (promised declared rfl)
      · exact .fail _ _ nofun

end Check

end ShapeLang
