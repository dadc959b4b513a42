import ShapeLang.Proofs.Sound

/-!
# Statements keep a checker sound

Binding names, merging arms and recording returns end from every sound checker
and keep it sound. So does declaring a class, which adds one class to the table.
-/

namespace ShapeLang

namespace Check

open Checker (Sound)

variable {α β : Type} {n : Nat} {excess : Prop}

theorem define_delivers (name : String) {type : Ty} (known : type.Known n) (assigned : Assigned)
    (constant : Bool) (span : Span) :
    Delivers excess (Sound n) (fun _ => True) (define name type assigned constant span) := by
  intro s sound
  refine .after_get ?_
  cases found : s.lookup? name with
  | none => exact .after_set (.pure ⟨sound.bind name known, trivial⟩)
  | some old =>
    simp only
    split
    · exact .after_set (.pure ⟨sound.bind name known, trivial⟩)
    · split
      · exact Delivers.fail _ _ trivial s sound
      · obtain rfl := sound.size
        obtain ⟨result, ran, merged⟩ := sound.coherent.rebind_ok name (sound.lookup? found) known
        refine .after_lift ran ?_
        cases result with
        | error problem => exact Delivers.fail _ _ trivial s sound
        | ok type => exact .after_set (.pure ⟨sound.bind name (merged type rfl), trivial⟩)

theorem defineUnresolved_delivers (name : String) (span : Span) :
    Delivers excess (Sound n) (fun _ => True) (defineUnresolved name span) := by
  intro s sound
  refine .of_ok rfl ⟨?_, trivial⟩
  cases found : s.lookup? name with
  | none =>
    simp only [found]
    exact sound.bind name Ty.over_noneType
  | some old =>
    have known := sound.lookup? found
    simp only [found]
    exact sound.bind name known

theorem shadow_delivers (name : String) {type : Ty} (known : type.Known n) (span : Span) :
    Delivers excess (Sound n) (fun _ => True) (shadow name type span) :=
  fun _ sound => .of_ok rfl ⟨sound.bind name known, trivial⟩

theorem defineAllUnresolved_delivers (names : List String) (span : Span) :
    Delivers excess (Sound n) (fun _ => True) (defineAllUnresolved names span) := by
  unfold defineAllUnresolved
  induction names.filter (· != "_") with
  | nil => exact .pure trivial
  | cons name names ih => exact .bind (defineUnresolved_delivers name span) fun _ _ => ih

theorem defineEach_delivers (constant : Bool) (span : Span) {pairs : List (String × Ty)}
    (known : ∀ p ∈ pairs, p.2.Known n) :
    Delivers excess (Sound n) (fun _ => True) (defineEach constant span pairs) := by
  induction pairs with
  | nil => exact .pure trivial
  | cons pair pairs ih =>
    obtain ⟨name, type⟩ := pair
    obtain ⟨first, others⟩ := List.forall_mem_cons.mp known
    rw [defineEach]
    split
    · exact .bind (Q := fun _ => True) (.pure trivial) fun _ _ =>
        .bind (ih others) fun _ _ => .pure trivial
    · exact .bind (define_delivers name first _ _ _) fun _ _ =>
        .bind (ih others) fun _ _ => .pure trivial

theorem defineNames_delivers (names : List String) {type : Ty} (known : type.Known n)
    (constant : Bool) (span : Span) :
    Delivers excess (Sound n) (fun _ => True) (defineNames names type constant span) := by
  have each {pairs : List (String × Ty)} (known : ∀ p ∈ pairs, p.2.Known n) :
      Delivers excess (Sound n) (fun _ => True) (do
        let bound ← defineEach constant span pairs
        return if bound then some type else none : Check (Option Ty)) :=
    .bind (defineEach_delivers constant span known) fun _ _ => .pure trivial
  have whole : ∀ p ∈ names.map (·, type), p.2.Known n := by
    intro p listed
    obtain ⟨name, _, rfl⟩ := List.mem_map.mp listed
    exact known
  cases type with
  | spread items =>
    rw [defineNames]
    split
    · exact .bind (defineAllUnresolved_delivers names span) fun _ _ => .fail _ _ trivial
    · rw [items.zip_take]
      exact each fun p listed => (Ty.over_spread.mp known).toList p.2 (List.of_mem_zip listed).2
  | _ => exact each whole

theorem mergeName_delivers {arms : List Arm} (known : ∀ arm ∈ arms, arm.Known n)
    (exhaustive : Bool) (span : Span) (name : String) :
    Delivers excess (Sound n) (fun _ => True) (mergeName arms exhaustive span name) := by
  intro s sound
  have inArms := Arm.All.bindingsOf known name
  refine .after_get ?_
  cases found : s.lookup? name with
  | some outer =>
    have outside := sound.lookup? found
    simp only
    split
    · obtain rfl := sound.size
      obtain ⟨type, ran, merged⟩ := sound.coherent.reconcile_ok outside inArms
      exact .after_lift ran (.after_set (.pure ⟨sound.bind name merged, trivial⟩))
    · exact .after_pure (.after_set (.pure ⟨sound.bind name outside, trivial⟩))
  | none =>
    simp only
    split
    · exact .pure ⟨sound, trivial⟩
    · rename_i first others bindings
      rw [bindings] at inArms
      obtain ⟨start, rest⟩ := List.forall_mem_cons.mp inArms
      obtain rfl := sound.size
      obtain ⟨merged, failure, ran, covered⟩ :=
        sound.coherent.joinBindings_ok (t := s.classes) (show Ty.Known _ (Binding.type
          { first with assigned := .afterArms exhaustive (Arm.states arms name) }) from start) rest
      have bindMerged (result : Option Unit) :
          Delivers excess (Sound s.classes.classes.length) (fun _ => True) (do
            modify (·.bind name merged)
            return result) :=
        fun s sound => .after_modify (.pure ⟨sound.bind name covered, trivial⟩)
      refine .after_lift ran ?_
      cases failure with
      | none => exact .after_pure (bindMerged _ s sound)
      | some failure =>
        exact Delivers.bind (Q := fun _ => True) (.mismatch _ _ _ _ trivial)
          (fun result _ => bindMerged result) s sound

theorem mergeNames_delivers {arms : List Arm} (known : ∀ arm ∈ arms, arm.Known n)
    (exhaustive : Bool) (span : Span) (names : List String) :
    Delivers excess (Sound n) (fun _ => True) (mergeNames arms exhaustive span names) := by
  induction names with
  | nil => exact .pure trivial
  | cons name names ih =>
    exact .bind (mergeName_delivers known exhaustive span name) fun _ _ =>
      .bind ih fun _ _ => .pure trivial

/-- The types that arms of known types return are joined to known ones. -/
theorem mergeReturns_delivers (span : Span) {returned : Option Ty} {types : List Ty}
    (before : ∀ type ∈ returned, type.Known n) (each : ∀ type ∈ types, type.Known n) :
    Delivers excess (Sound n) (fun result => ∀ type ∈ result.2, type.Known n)
      (mergeReturns span returned types) := by
  induction types generalizing returned with
  | nil => exact .pure before
  | cons type types ih =>
    obtain ⟨first, others⟩ := List.forall_mem_cons.mp each
    cases returned with
    | none =>
      have start : ∀ given ∈ some type, given.Known n := by
        rintro _ ⟨⟩
        exact first
      exact ih start others
    | some previous =>
      intro s sound
      obtain rfl := sound.size
      obtain ⟨joined, ran, merged⟩ := sound.coherent.join_ok (before previous rfl) first
      refine .after_get (.after_lift ran ?_)
      cases joined with
      | ok type =>
        have start : ∀ given ∈ some type, given.Known s.classes.classes.length := by
          rintro _ ⟨⟩
          exact merged type rfl
        exact ih start others s sound
      | error reason =>
        refine Delivers.bind (Q := fun _ => True) (.mismatch _ _ _ _ trivial)
          (fun _ _ => ?_) s sound
        exact .bind (ih before others) fun (_, returned) known => .pure known

/-- A merge of arms of known types comes to an end and leaves a sound checker. -/
theorem mergeArms_delivers {arms : List Arm} (known : ∀ arm ∈ arms, arm.Known n)
    (exhaustive : Bool) (span : Span) :
    Delivers excess (Sound n) (fun _ => True) (mergeArms arms exhaustive span) := by
  refine .bind (mergeNames_delivers known exhaustive span _) fun bindings _ => ?_
  simp only
  split
  · intro s sound
    refine .after_get ?_
    refine Delivers.bind
      (mergeReturns_delivers span sound.frame.returns (Arm.All.returned known))
      (fun (joined, returned) merged => ?_) s sound
    exact fun s sound => .after_modify (.pure ⟨sound.setReturns merged, trivial⟩)
  · exact .pure trivial

theorem settleReturn_delivers (span : Span) {returned : Option Ty}
    (known : ∀ type ∈ returned, type.Known n) :
    Delivers excess (Sound n) (fun _ => True) (settleReturn span returned) := by
  cases returned with
  | none => exact .pure trivial
  | some returned =>
    intro s sound
    refine .after_get ?_
    cases returns : s.frame.returns with
    | none => exact .after_set (.pure ⟨sound.setReturns known, trivial⟩)
    | some previous =>
      obtain rfl := sound.size
      obtain ⟨joined, ran, merged⟩ :=
        sound.coherent.join_ok (sound.frame.returns previous returns) (known returned rfl)
      refine .after_lift ran ?_
      cases joined with
      | error reason => exact Delivers.mismatch _ _ _ _ trivial s sound
      | ok type =>
        refine .after_set (.pure ⟨sound.setReturns ?_, trivial⟩)
        rintro _ ⟨⟩
        exact merged type rfl

theorem recordReturn_delivers {value : Ty} (known : value.Known n) (span : Span) :
    Delivers excess (Sound n) (fun _ => True) (recordReturn value span) := by
  intro s sound
  refine .of_run (recordReturn_run value span) ?_
  cases function : s.declaredReturn? with
  | none =>
    refine Delivers.bind (Q := (· = none)) (.fail _ _ rfl) (fun returned failed => ?_) s sound
    rw [failed]
    exact .pure trivial
  | some declared =>
    cases declared with
    | none =>
      refine settleReturn_delivers span ?_ s sound
      rintro _ ⟨⟩
      exact known
    | some declared =>
      have promised := sound.declaredReturn? function
      refine Delivers.bind (expectType_delivers known (promised declared rfl) span)
        (fun fits _ => ?_) s sound
      cases fits with
      | none => exact .pure trivial
      | some fits => exact settleReturn_delivers span promised

theorem narrows_delivers {pattern subject : Ty} (known : pattern.Known n)
    (known' : subject.Known n) :
    Delivers excess (Sound n) (fun _ => True) (narrows pattern subject) := by
  intro s sound
  obtain rfl := sound.size
  obtain ⟨verdict, compared⟩ := sound.coherent.compare_ok known known'
  refine .after_get (.after_lift compared ?_)
  cases verdict with
  | ok => exact .pure ⟨sound, trivial⟩
  | error reason =>
    cases subject with
    | maybe inner =>
      obtain ⟨verdict, compared⟩ := sound.coherent.compare_ok known (Ty.over_maybe.mp known')
      refine .after_lift compared ?_
      cases verdict <;> exact .pure ⟨sound, trivial⟩
    | _ => exact .pure ⟨sound, trivial⟩

theorem typePattern_delivers {subject : Ty} (known : subject.Known n) (name : String)
    (term : TypeTerm) (span : Span) :
    Delivers excess (Sound n) (fun _ => True) (typePattern subject name term span) := by
  refine .bind (resolveTerm_delivers sound_informed term) fun result resolved => ?_
  cases result with
  | none => exact .pure trivial
  | some pattern =>
    have pattern' := (resolved pattern rfl).known
    refine .bind (narrows_delivers pattern' known) fun accepted _ => ?_
    cases accepted with
    | true => exact .bind (shadow_delivers name pattern' span) fun _ _ => .pure trivial
    | false => exact .bind (Q := fun _ => True) (.fail _ _ trivial) fun _ _ => .pure trivial

theorem valuePattern_delivers {subject value : Ty} (known : subject.Known n)
    (known' : value.Known n) (span : Span) :
    Delivers excess (Sound n) (fun _ => True) (valuePattern subject value span) := by
  have arguments : ∀ a ∈ [value], a.Known n := List.forall_mem_singleton.mpr known'
  refine .bind (callMember_delivers known "==" arguments span) fun result _ => ?_
  cases result with
  | none => exact .pure trivial
  | some chosen =>
    intro s sound
    refine .after_get ?_
    split
    · exact .pure ⟨sound, trivial⟩
    · exact Delivers.bind (Q := fun _ => True) (.fail _ _ trivial)
        (fun _ _ => .pure trivial) s sound

theorem resolveResult_delivers (result : Option TypeTerm) :
    Delivers excess (Sound n) (fun resolved => ∀ declared ∈ resolved, ∀ type ∈ declared,
      type.Known n) (resolveResult result) := by
  cases result with
  | none =>
    refine .pure ?_
    rintro _ ⟨⟩
    exact nofun
  | some term =>
    refine .bind (resolveTerm_delivers sound_informed term) fun resolved known => ?_
    cases resolved with
    | none => exact .pure nofun
    | some type =>
      refine .pure ?_
      rintro _ ⟨⟩ _ ⟨⟩
      exact (known type rfl).known

theorem conditionType_delivers {type : Option Ty} (known : ∀ t ∈ type, t.Known n) (span : Span) :
    Delivers excess (Sound n) (fun _ => True) (conditionType type span) := by
  cases type with
  | none => exact .pure trivial
  | some type =>
    exact .bind (checkCondition_delivers (known type rfl) span) fun _ _ => .pure trivial

/-! ## Class declarations

Between the declaration of a class and its registration the table is not coherent,
but class names can be resolved, and nothing else is done. -/

def Names (n : Nat) (s : Checker) : Prop :=
  ∀ name id, s.classes.ids.find? name = some id → id < n

theorem names_informed : Informed n (Names n) where
  noted _ _ names noted := by
    unfold Names
    rw [noted.classes]
    exact names
  names _ names := names

section

variable {I : Checker → Prop} (informed : Informed n I)
include informed

/-- The fields of a class mention classes there are, among them the class itself. -/
theorem addFields_delivers {type : Ty} (known : type.Over (· < n) fun _ => False) (span : Span)
    {fields : NameMap Ty} (limited : ∀ entry ∈ fields.entries, entry.2.Over (· < n) fun _ => False)
    (names : List String) :
    Delivers excess I (fun result => ∀ entry ∈ result.2.entries,
      entry.2.Over (· < n) fun _ => False) (addFields type span fields names) := by
  induction names generalizing fields with
  | nil => exact .pure limited
  | cons name names ih =>
    rw [addFields]
    split
    · refine ih fun entry listed => ?_
      rcases NameMap.mem_insertEntry listed with rfl | old
      · exact known
      · exact limited entry old
    · refine .bind (Q := fun _ => True) (.report informed _ _ trivial) fun _ _ => ?_
      exact .bind (ih limited) fun _ limited => .pure limited

theorem collectFields_delivers {fields : NameMap Ty}
    (limited : ∀ entry ∈ fields.entries, entry.2.Over (· < n) fun _ => False)
    (groups : List FieldGroup) :
    Delivers excess I (fun result => ∀ entry ∈ result.2.entries,
      entry.2.Over (· < n) fun _ => False) (collectFields fields groups) := by
  induction groups generalizing fields with
  | nil => exact .pure limited
  | cons group groups ih =>
    refine .bind (resolveTerm_delivers informed group.term) fun type known => ?_
    cases type with
    | none => exact .bind (ih limited) fun _ limited => .pure limited
    | some type =>
      refine .bind (addFields_delivers informed (known type rfl) group.span limited group.names)
        fun (added, fields) limited => ?_
      exact .bind (ih limited) fun _ limited => .pure limited

theorem collectConstructors_delivers (constructors : List (List TypeTerm)) :
    Delivers excess I (fun result => ∀ params ∈ result.2, ∀ p ∈ params,
      p.Over (· < n) fun _ => False) (collectConstructors constructors) := by
  induction constructors with
  | nil => exact .pure (by simp)
  | cons terms rest ih =>
    refine .bind (resolveTerms_delivers informed terms) fun params known => ?_
    refine .bind ih fun (others, constructors) knowns => ?_
    cases params with
    | none => exact .pure knowns
    | some params => exact .pure (List.forall_mem_cons.mpr ⟨known params rfl, knowns⟩)

end

theorem claimClass_ends {s : Checker} (sound : s.Sound n) (name : String) :
    Ends excess (claimClass name) s (ClaimOutcome s name) := by
  have claim : Ends excess (claimFree s name) s fun _ _ => True := by
    unfold claimFree
    split
    · exact .after_set (.pure trivial)
    · rename_i existing declared
      have listed : s.classes.lookup? name = some existing := by
        unfold ClassTable.declare at declared
        split at declared
        · cases declared
          assumption
        · cases declared
      obtain ⟨c, got, _⟩ := sound.coherent.get_ok (sound.coherent.ids name existing listed)
      have object : s.classes.objectOf existing = .ok (.instanceOf existing c.name) := by
        rw [ClassTable.objectOf, got]
        rfl
      exact .after_lift object (.pure trivial)
  have ends : Ends excess (claimClass name) s fun _ _ => True := by
    refine .of_run (claimClass_run name) ?_
    split
    · split
      · exact claim
      · exact .pure trivial
    · exact claim
  exact (ends.and (claimClass_outcome name)).imp fun _ _ both => both.2

/-- From a sound checker the step ends in a sound one, which may have more classes. -/
def Proceeds (excess : Prop) (n : Nat) (m : Check α) : Prop :=
  ∀ s, s.Sound n → Ends excess m s fun _ s' => s'.Sound s'.classes.classes.length

namespace Proceeds

variable {m : Check α} {f : α → Check β} {Q : α → Prop}

theorem of_delivers (delivers : Delivers excess (Sound n) Q m) : Proceeds excess n m :=
  fun s sound => (delivers s sound).imp fun _ _ after => after.1.size.symm ▸ after.1

theorem after (first : Delivers excess (Sound n) Q m) (rest : ∀ a, Q a → Proceeds excess n (f a)) :
    Proceeds excess n (m >>= f) :=
  fun s sound => (first s sound).bind fun a s₁ ⟨sound₁, holds⟩ => rest a holds s₁ sound₁

end Proceeds

/-- The class declared last is registered with the fields and constructors it was given. -/
theorem register_declared {s : Checker} (sound : s.Sound n) (root : s.atRoot = true)
    {c : Class} (limited : c.Over (· < n + 1)) {frame : Frame}
    (known : frame.All (Ty.Known (n + 1)) (Ty.Known (n + 1)))
    (diagnostics : List Diagnostic) (functions : List (List Overload)) :
    ∃ registered, (s.classes.append c).register n = .ok registered ∧
      Sound (n + 1) { s with classes := registered, frame, diagnostics, functions } := by
  obtain rfl := sound.size
  have within : c.Over (· ≤ s.classes.classes.length) := limited.mono fun _ => Nat.le_of_lt_succ
  obtain ⟨fits, ran, compared⟩ := sound.coherent.register_append within
  refine ⟨_, ran, ⟨known, ?_⟩, ?_, sound.coherent.extend compared within, sound.builtins⟩
  · rw [List.isEmpty_iff.mp root]
    simp
  · simp [ClassTable.extend, ClassTable.append]

/-- A class name may stand for the class that is being declared. -/
theorem declared_names {s s' : Checker} (sound : s.Sound n) {name : String}
    (appended : s'.classes = s.classes.append { name }) : Names (n + 1) s' := by
  obtain rfl := sound.size
  intro other id found
  rw [appended] at found
  have inserted : (s.classes.ids.insert name s.classes.classes.length).find? other = some id :=
    found
  rw [NameMap.find?_insert] at inserted
  split at inserted
  · cases inserted
    exact Nat.lt_succ_self _
  · exact Nat.lt_succ_of_lt (sound.coherent.ids other id inserted)

/-- A named class is declared without a fault: its fields mention known classes, so that it can
be compared with all others. -/
theorem declareNamed_ends (decl : ClassDecl) (span : Span) {s : Checker} (sound : s.Sound n)
    (root : s.atRoot = true) :
    Ends excess (declareNamed decl span) s fun _ s' => s'.Sound s'.classes.classes.length := by
  refine (claimClass_ends sound decl.name).bind fun result s₁ outcome => ?_
  cases outcome with
  | taken old =>
    exact Proceeds.of_delivers (Q := fun _ => True) (.fail _ _ trivial) s sound
  | @claimed id classes free declared =>
    obtain rfl := sound.size
    obtain ⟨rfl, rfl⟩ := ClassTable.declare_ok declared
    have value : (s.classes.append { name := decl.name }).classValue s.classes.classes.length =
        .ok (.classValue s.classes.classes.length decl.name) := by
      rw [ClassTable.classValue, ClassTable.get_append_new]
      rfl
    refine .after_get (.after_lift value ?_)
    refine .after_run (define_fresh free) ?_
    -- the class can be mentioned in its own fields
    have none : ∀ entry ∈ (NameMap.empty : NameMap Ty).entries,
        entry.2.Over (· < s.classes.classes.length + 1) fun _ => False := nofun
    refine ((collectFields_delivers names_informed none decl.fields _
      (declared_names sound rfl)).and (collectFields_notes _ _ _)).bind
      fun (fieldsOk, fields) s₃ ⟨⟨names, fieldsOver⟩, noted₃⟩ => ?_
    refine ((collectConstructors_delivers names_informed decl.constructors s₃ names).and
      (collectConstructors_notes _ _)).bind
      fun (constructorsOk, constructors) s₄ ⟨⟨_, constructorsOver⟩, noted₄⟩ => ?_
    obtain ⟨diagnostics, functions, rfl⟩ := noted₃.trans noted₄
    have more (type : Ty) (known : type.Known s.classes.classes.length) :=
      known.mono (Nat.le_succ s.classes.classes.length)
    have known := (sound.frame.imp more more).bind decl.name
      (b := ⟨.classValue s.classes.classes.length decl.name, .always, true, false, span⟩)
      (Ty.over_classValue.mpr (Nat.lt_succ_self _))
    obtain ⟨registered, ran, sound'⟩ := register_declared sound root
      (c := ⟨decl.name, constructors, fields⟩) ⟨fieldsOver, constructorsOver⟩ known _ _
    refine .after_get (.after_lift (ClassTable.modify_append _ _ rfl) (.after_lift ran ?_))
    exact .after_set (.pure (sound'.size.symm ▸ sound'))

theorem warnIf_ends (wanted : Bool) (problem : Problem) (span : Span) (s : Checker) :
    Ends excess (warnIf wanted problem span) s fun _ s' => s.Noted s' := by
  cases wanted with
  | false => exact .pure (.refl s)
  | true => exact .of_ok rfl (.addDiagnostic _ _)

/-- A class declaration leaves a sound checker, with one class more or none. -/
theorem declareClass_proceeds (decl : ClassDecl) (span : Span) :
    Proceeds excess n (declareClass decl span) := by
  intro s sound
  cases root : s.atRoot with
  | false =>
    refine .of_run (declareClass_inside decl span root) ?_
    refine Proceeds.after (defineUnresolved_delivers _ _) (fun _ _ => ?_) s sound
    exact .of_delivers (Q := fun _ => True) (.fail _ _ trivial)
  | true =>
    refine .of_run (declareClass_root decl span root) ?_
    refine (warnIf_ends _ _ _ s).bind fun _ s₁ noted => ?_
    refine (warnIf_ends _ _ _ s₁).bind fun _ s₂ noted' => ?_
    have warned := noted.trans noted'
    exact declareNamed_ends decl span (sound.noted warned)
      ((Checker.Advanced.of_noted warned).atRoot.trans root)

end Check

end ShapeLang
