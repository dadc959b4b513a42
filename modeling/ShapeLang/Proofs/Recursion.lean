import ShapeLang.Proofs.ClassNames

/-!
# Comparisons come to an end

A comparison asks for others: of the parts of two types, of the overloads of two functions, of
the fields of two classes. To follow class values leads from a class to the types of its fields,
which need not be smaller than what was compared before. But in all tables that a check works
with, fields mention instances only, and these are compared by what is kept about their classes.
So class values are followed at most once, whichever classes mention each other, and the limit
on following them is never reached.
-/

namespace ShapeLang

/-- What is compared at a time: two types, two classes by their fields, two functions, or two
overloads of them. -/
inductive Comparison where
  | types (actual expected : Ty)
  | classes (actual expected : ClassId)
  | functions (candidates wanted : List Overload)
  | overloads (candidate wanted : Overload)

/-! ## One level of the recursion -/

namespace Comparison

/-- The second answer counts if the first is a yes. -/
def andThen : Except Fault Verdict → Except Fault Verdict → Except Fault Verdict
  | .ok (.ok ()), second => second
  | first, _ => first

/-- The second answer counts if the first is a no. -/
def orElse : Except Fault Verdict → Except Fault Verdict → Except Fault Verdict
  | .ok (.error .incompatible), second => second
  | first, _ => first

/-- A yes if all answers are, else the first that is not. -/
def allFit (answers : List (Except Fault Verdict)) : Except Fault Verdict :=
  answers.foldr andThen (.ok (.ok ()))

/-- A no if all answers are, else the first that is not. -/
def someFits (answers : List (Except Fault Verdict)) : Except Fault Verdict :=
  answers.foldr orElse (.ok (.error .incompatible))

/-- The answer to the comparison of a field with the one of its name, which has to be there. -/
def fieldAnswer (ask : Comparison → Except Fault Verdict) (actual : NameMap Ty)
    (field : String × Ty) : Except Fault Verdict :=
  match actual.find? field.1 with
  | none => .ok (.error .incompatible)
  | some own => ask (types own field.2)

section

variable (t : ClassTable)

def answer : Comparison → Except Fault Verdict
  | types actual expected => t.compare actual expected
  | classes actual expected => t.satisfies actual expected
  | functions candidates wanted => t.serveAll t.satisfies candidates wanted
  | overloads candidate wanted => t.serve t.satisfies candidate wanted

/-- The answer to a comparison by those to the comparisons that it asks for. There is no limit
to how often a class value leads to fields. -/
def answerBy (ask : Comparison → Except Fault Verdict) : Comparison → Except Fault Verdict
  | types (.object m a _) (.object n b _) => do
      let a ← resolvedClass m a
      let b ← resolvedClass n b
      return if t.isA a b then .ok () else .error .incompatible
  | types (.classValue a _) (.classValue b _) => ask (classes a b)
  | types (.func candidates) (.func wanted) => ask (functions candidates wanted)
  | types (.array a) (.array b) | types (.maybe a) (.maybe b) =>
      andThen (ask (types a b)) (ask (types b a))
  | types (.tuple _) (.tuple _) | types (.tuple _) (.spread _) | types (.spread _) (.tuple _)
  | types (.spread _) (.spread _) => .ok (.error (.unsupported "Tuple comparisons"))
  | types .noneType .noneType => .ok (.ok ())
  | types _ _ => .ok (.error .incompatible)
  | classes actual expected =>
      if actual = expected then .ok (.ok ())
      else do
        let a ← t.get actual
        let e ← t.get expected
        allFit (e.fields.entries.map (fieldAnswer ask a.fields))
  | functions candidates wanted =>
      allFit (wanted.map fun w => someFits (candidates.map fun c => ask (overloads c w)))
  | overloads candidate wanted =>
      if !candidate.generics.isEmpty || !wanted.generics.isEmpty then
        .ok (.error (.unsupported "Generic functions"))
      else if candidate.params.length != wanted.params.length then .ok (.error .incompatible)
      else andThen
        (allFit ((candidate.params.zip wanted.params).map fun p => ask (types p.2 p.1)))
        (ask (types candidate.result wanted.result))

/-- The first comparison is one that the second asks for, or would ask for after other
answers. -/
inductive CalledBy : Comparison → Comparison → Prop where
  | values {a b : ClassId} {m n : String} :
      CalledBy (classes a b) (types (.classValue a m) (.classValue b n))
  | functions {candidates wanted : List Overload} :
      CalledBy (functions candidates wanted) (types (.func candidates) (.func wanted))
  | items {a b : Ty} : CalledBy (types a b) (types (.array a) (.array b))
  | itemsBack {a b : Ty} : CalledBy (types b a) (types (.array a) (.array b))
  | options {a b : Ty} : CalledBy (types a b) (types (.maybe a) (.maybe b))
  | optionsBack {a b : Ty} : CalledBy (types b a) (types (.maybe a) (.maybe b))
  | field {a b : ClassId} {own wanted : Class} {field : String × Ty} {actual : Ty}
      (left : t.get a = .ok own) (right : t.get b = .ok wanted)
      (listed : field ∈ wanted.fields.entries) (found : own.fields.find? field.1 = some actual) :
      CalledBy (types actual field.2) (classes a b)
  | overload {candidates wanted : List Overload} {c w : Overload} (listed : c ∈ candidates)
      (among : w ∈ wanted) : CalledBy (overloads c w) (functions candidates wanted)
  | argument {candidate wanted : Overload} {p : Ty × Ty}
      (paired : p ∈ candidate.params.zip wanted.params) :
      CalledBy (types p.2 p.1) (overloads candidate wanted)
  | result {candidate wanted : Overload} :
      CalledBy (types candidate.result wanted.result) (overloads candidate wanted)

end

variable {t : ClassTable} {fit : ClassId → ClassId → Except Fault Verdict}

theorem serveOne_eq (candidates : List Overload) (wanted : Overload) :
    t.serveOne fit candidates wanted =
      someFits (candidates.map fun c => t.serve fit c wanted) := by
  induction candidates with
  | nil => rw [ClassTable.serveOne]; rfl
  | cons c cs ih =>
    rw [ClassTable.serveOne, ih]
    show _ = orElse (t.serve fit c wanted) (someFits _)
    rcases t.serve fit c wanted with fault | (_ | feature) | _ <;> rfl

/-- Serving all is a conjunction over the overloads wanted, each a disjunction over the
candidates. -/
theorem serveAll_eq (candidates wanted : List Overload) :
    t.serveAll fit candidates wanted =
      allFit (wanted.map fun w => someFits (candidates.map fun c => t.serve fit c w)) := by
  induction wanted with
  | nil => rw [ClassTable.serveAll]; rfl
  | cons w ws ih =>
    rw [ClassTable.serveAll, ih, serveOne_eq]
    show _ = andThen (someFits _) (allFit _)
    rcases someFits (candidates.map fun c => t.serve fit c w) with fault | reason | _ <;> rfl

theorem acceptAll_eq (accepted passed : List Ty) :
    t.acceptAll fit accepted passed =
      allFit ((accepted.zip passed).map fun p => t.compareWith fit p.2 p.1) := by
  induction accepted generalizing passed with
  | nil => rw [ClassTable.acceptAll]; rfl; simp
  | cons a as ih =>
    cases passed with
    | nil => rw [ClassTable.acceptAll]; rfl; simp
    | cons p ps =>
      rw [ClassTable.acceptAll, ih]
      show _ = andThen (t.compareWith fit p a) (allFit _)
      rcases t.compareWith fit p a with fault | reason | _ <;> rfl

/-- Fields fit if every field that is wanted has its answer, asked one level down. -/
theorem fieldsFit_eq (ask : Comparison → Except Fault Verdict) (actual : NameMap Ty)
    (expected : List (String × Ty)) :
    ClassTable.fieldsFit (fun own wanted => ask (types own wanted)) actual expected =
      allFit (expected.map (fieldAnswer ask actual)) := by
  induction expected with
  | nil => rfl
  | cons field rest ih =>
    show _ = andThen (fieldAnswer ask actual field) (allFit _)
    rw [ClassTable.fieldsFit, ih, fieldAnswer]
    cases actual.find? field.1 with
    | none => rfl
    | some own =>
      simp only
      rcases ask (types own field.2) with fault | reason | _ <;> rfl

theorem answer_types (actual expected : Ty) :
    (types actual expected).answer t = (types actual expected).answerBy t (answer t) := by
  rw [answer, ClassTable.compare, ClassTable.compareWith.eq_def]
  split
  case h_4 a b | h_5 a b =>
    show _ = andThen (t.compare a b) (t.compare b a)
    unfold ClassTable.compare
    rcases t.compareWith t.satisfies a b with fault | reason | _ <;> rfl
  case h_11 =>
    rw [answerBy]
    all_goals assumption
  all_goals rfl

theorem answer_functions (candidates wanted : List Overload) :
    (functions candidates wanted).answer t = (functions candidates wanted).answerBy t (answer t) :=
  serveAll_eq candidates wanted

theorem answer_overloads (candidate wanted : Overload) :
    (overloads candidate wanted).answer t =
      (overloads candidate wanted).answerBy t (answer t) := by
  obtain ⟨generics, accepted, result⟩ := candidate
  obtain ⟨wantedGenerics, passed, wantedResult⟩ := wanted
  rw [answer, ClassTable.serve, acceptAll_eq, answerBy]
  congr 2
  show _ = andThen (allFit ((accepted.zip passed).map fun p =>
    t.compareWith t.satisfies p.2 p.1)) (t.compareWith t.satisfies result wantedResult)
  generalize allFit _ = taken
  rcases taken with fault | reason | _ <;> rfl

/-! ## What a comparison asks for -/

variable {c d : Comparison} {ask ask' : Comparison → Except Fault Verdict}

/-- The answer for a field hangs on the comparison of that field's types alone. -/
theorem fieldAnswer_congr {actual : NameMap Ty} {field : String × Ty}
    (same : ∀ own, actual.find? field.1 = some own →
      ask (types own field.2) = ask' (types own field.2)) :
    fieldAnswer ask actual field = fieldAnswer ask' actual field := by
  unfold fieldAnswer
  split
  · rfl
  · rename_i own found
    exact same own found

/-- Of the answers to other comparisons only those count that are asked for. -/
theorem answerBy_congr (same : ∀ d, CalledBy t d c → ask d = ask' d) :
    c.answerBy t ask = c.answerBy t ask' := by
  fun_cases answerBy t ask c with
  | case2 => exact same _ .values
  | case3 => exact same _ .functions
  | case4 a b => rw [answerBy, same _ .items, same _ .itemsBack]
  | case5 a b => rw [answerBy, same _ .options, same _ .optionsBack]
  | case11 =>
    rw [answerBy]
    all_goals assumption
  | case13 a b differ =>
    rw [answerBy, if_neg differ]
    cases left : t.get a with
    | error fault => rfl
    | ok own =>
      cases right : t.get b with
      | error fault => rfl
      | ok wanted =>
        refine congrArg allFit (List.map_congr_left fun field listed => ?_)
        exact fieldAnswer_congr fun actual found => same _ (.field left right listed found)
  | case14 candidates wanted =>
    refine congrArg allFit (List.map_congr_left fun w among => ?_)
    exact congrArg someFits (List.map_congr_left fun c listed => same _ (.overload listed among))
  | case17 candidate wanted plain alike =>
    rw [answerBy, if_neg plain, if_neg alike, same _ .result]
    congr 2
    exact List.map_congr_left fun p paired => same _ (.argument paired)
  | _ => simp_all [answerBy]

/-! ## Why the recursion ends

Each comparison is smaller than the one that asks for it, unless the latter is one of classes.
These are asked for on account of class values, and fields do not mention any. -/

theorem CalledBy.sizeOf_lt (called : CalledBy t d c) (apart : ∀ a b, c ≠ classes a b) :
    sizeOf d < sizeOf c := by
  cases called with
  | values =>
    simp only [types.sizeOf_spec, classes.sizeOf_spec, Ty.classValue.sizeOf_spec]
    omega
  | functions =>
    simp only [types.sizeOf_spec, functions.sizeOf_spec, Ty.func.sizeOf_spec]
    omega
  | items | itemsBack =>
    simp only [types.sizeOf_spec, Ty.array.sizeOf_spec]
    omega
  | options | optionsBack =>
    simp only [types.sizeOf_spec, Ty.maybe.sizeOf_spec]
    omega
  | field => exact absurd rfl (apart _ _)
  | overload listed among =>
    have first := List.sizeOf_lt_of_mem listed
    have second := List.sizeOf_lt_of_mem among
    simp only [overloads.sizeOf_spec, functions.sizeOf_spec]
    omega
  | @argument candidate wanted p paired =>
    obtain ⟨generics, accepted, result⟩ := candidate
    obtain ⟨wantedGenerics, passed, wantedResult⟩ := wanted
    replace paired : p ∈ accepted.zip passed := paired
    obtain ⟨left, right⟩ := List.of_mem_zip paired
    have first := List.sizeOf_lt_of_mem left
    have second := List.sizeOf_lt_of_mem right
    simp only [types.sizeOf_spec, overloads.sizeOf_spec, Overload.mk.sizeOf_spec]
    omega
  | @result candidate wanted =>
    obtain ⟨generics, accepted, result⟩ := candidate
    obtain ⟨wantedGenerics, passed, wantedResult⟩ := wanted
    simp only [types.sizeOf_spec, overloads.sizeOf_spec, Overload.mk.sizeOf_spec]
    omega

/-- What is compared mentions instances of allowed classes only. -/
def Over (objects : ClassId → Prop) : Comparison → Prop
  | types actual expected =>
      actual.Over objects (fun _ => False) ∧ expected.Over objects fun _ => False
  | classes _ _ => False
  | functions candidates wanted =>
      (∀ o ∈ candidates, o.Over objects fun _ => False) ∧
        ∀ o ∈ wanted, o.Over objects fun _ => False
  | overloads candidate wanted =>
      candidate.Over objects (fun _ => False) ∧ wanted.Over objects fun _ => False

variable {objects : ClassId → Prop}

/-- What a comparison asks for mentions no other classes than it does itself. -/
theorem Over.calledBy (limited : c.Over objects) (called : CalledBy t d c) : d.Over objects := by
  cases called with
  | values => exact (Ty.over_classValue.mp limited.1).elim
  | functions => exact ⟨Ty.over_func.mp limited.1, Ty.over_func.mp limited.2⟩
  | items | options => exact limited
  | itemsBack | optionsBack => exact ⟨limited.2, limited.1⟩
  | field => exact limited.elim
  | overload listed among => exact ⟨limited.1 _ listed, limited.2 _ among⟩
  | argument paired =>
    obtain ⟨left, right⟩ := List.of_mem_zip paired
    exact ⟨limited.2.1 _ right, limited.1.1 _ left⟩
  | result => exact ⟨limited.1.2, limited.2.2⟩

/-- By induction on the size: below a comparison that meets no class values the recursion ends. -/
theorem Over.ends (limited : c.Over objects) : Acc (CalledBy t) c := by
  induction size : sizeOf c using Nat.strongRecOn generalizing c with
  | ind n ih =>
    refine .intro c fun d called => ih (sizeOf d) ?_ (limited.calledBy called) rfl
    have apart (a b : ClassId) : c ≠ classes a b := by
      rintro rfl
      exact limited
    exact size ▸ called.sizeOf_lt apart

end Comparison

/-- The fields of all classes mention instances only. -/
def ClassTable.Flat (t : ClassTable) : Prop :=
  ∀ id c, t.get id = .ok c → c.FieldsOver fun _ => True

namespace Comparison

variable {t : ClassTable} (flat : t.Flat)
include flat

/-- Classes that mention each other in their fields do no harm. -/
theorem calledBy_wellFounded : WellFounded (CalledBy t) := by
  constructor
  intro c
  induction size : sizeOf c using Nat.strongRecOn generalizing c with
  | ind n ih =>
    refine .intro c fun d called => ?_
    by_cases apart : ∀ a b, c ≠ classes a b
    · exact ih (sizeOf d) (size ▸ called.sizeOf_lt apart) d rfl
    · -- the fields have no class values in them that could lead to classes again
      cases called with
      | @field _ _ _ _ field actual left right listed found =>
        have limited : (types actual field.2).Over fun _ => True :=
          ⟨flat _ _ left _ (NameMap.mem_of_lookup found), flat _ _ right _ listed⟩
        exact limited.ends
      | _ => exact absurd (by simp) apart

/-- The limit on following class values makes no difference. -/
theorem answer_classes (a b : ClassId) :
    (classes a b).answer t = (classes a b).answerBy t (answer t) := by
  rw [answer, ClassTable.satisfies, ClassTable.depthLimit, ClassTable.classFits, answerBy]
  split
  · rfl
  · cases left : t.get a with
    | error fault => rfl
    | ok own =>
      cases right : t.get b with
      | error fault => rfl
      | ok wanted =>
        rw [ok_bind, ok_bind, ok_bind, ok_bind, ← fieldsFit_eq]
        have same (fit : ClassId → ClassId → Except Fault Verdict) (a b : Ty) :
            a.Over (fun _ => True) (fun _ => False) → b.Over (fun _ => True) (fun _ => False) →
              t.compareWith fit a b = t.compare a b :=
          ClassTable.compareWith_congr (fun _ _ _ _ => rfl)
            (fun _ _ impossible => impossible.elim) a b
        exact ClassTable.fieldsFit_congr (same _) (flat a own left) (flat b wanted right)

/-- The function of the checker unfolds as the recursion says. -/
theorem answer_eq (c : Comparison) : c.answer t = c.answerBy t (answer t) := by
  cases c with
  | types actual expected => exact answer_types actual expected
  | classes actual expected => exact answer_classes flat actual expected
  | functions candidates wanted => exact answer_functions candidates wanted
  | overloads candidate wanted => exact answer_overloads candidate wanted

/-- An answer is found from the answers to the comparisons that are asked for. -/
theorem answerBy_eq {ask : Comparison → Except Fault Verdict} {c : Comparison}
    (right : ∀ d, CalledBy t d c → ask d = d.answer t) : c.answerBy t ask = c.answer t := by
  rw [answer_eq flat c]
  exact answerBy_congr right

end Comparison

/-! ## The limit -/

namespace Comparison

variable {t : ClassTable} {c : Comparison} {ask : Comparison → Except Fault Verdict}
  {x y : Except Fault Verdict} {answers : List (Except Fault Verdict)}

/-- The answer was not given up on. -/
def Found (x : Except Fault Verdict) : Prop := x ≠ .error .endlessComparison

theorem Found.ok {verdict : Verdict} : Found (.ok verdict) := by simp [Found]

/-- Where the depth is enough for two answers, it is enough for the one after the other. -/
theorem Found.andThen (first : Found x) (second : Found y) : Found (andThen x y) := by
  rcases x with fault | reason | _
  · exact first
  · exact .ok
  · exact second

theorem Found.orElse (first : Found x) (second : Found y) : Found (orElse x y) := by
  rcases x with fault | (_ | feature) | _
  · exact first
  · exact second
  · exact .ok
  · exact .ok

theorem Found.allFit (each : ∀ x ∈ answers, Found x) : Found (allFit answers) := by
  induction answers with
  | nil => exact .ok
  | cons x answers ih =>
    obtain ⟨first, others⟩ := List.forall_mem_cons.mp each
    exact first.andThen (ih others)

theorem Found.someFits (each : ∀ x ∈ answers, Found x) : Found (someFits answers) := by
  induction answers with
  | nil => exact .ok
  | cons x answers ih =>
    obtain ⟨first, others⟩ := List.forall_mem_cons.mp each
    exact first.orElse (ih others)

theorem Found.fieldAnswer {actual : NameMap Ty} {field : String × Ty}
    (found : ∀ own, actual.find? field.1 = some own → Found (ask (types own field.2))) :
    Found (fieldAnswer ask actual field) := by
  unfold Comparison.fieldAnswer
  split
  · exact .ok
  · rename_i own same
    exact found own same

theorem Found.of_get {id : ClassId} {f : Class → Except Fault Verdict}
    (rest : ∀ c, t.get id = .ok c → Found (f c)) : Found (t.get id >>= f) := by
  unfold ClassTable.get at rest ⊢
  split
  · rename_i c found
    exact rest c (by rw [found])
  · rw [error_bind]
    simp [Found]

theorem Found.of_resolved {name : String} {id : Option ClassId}
    {f : ClassId → Except Fault Verdict} (rest : ∀ known, Found (f known)) :
    Found (resolvedClass name id >>= f) := by
  cases id with
  | none =>
    rw [resolvedClass, error_bind]
    simp [Found]
  | some known => exact rest known

theorem found_answerBy (found : ∀ d, CalledBy t d c → Found (ask d)) :
    Found (c.answerBy t ask) := by
  fun_cases answerBy t ask c with
  | case1 => exact .of_resolved fun _ => .of_resolved fun _ => .ok
  | case2 => exact found _ .values
  | case3 => exact found _ .functions
  | case4 a b => exact (found _ .items).andThen (found _ .itemsBack)
  | case5 a b => exact (found _ .options).andThen (found _ .optionsBack)
  | case13 a b differ =>
    refine .of_get fun own left => .of_get fun wanted right => ?_
    refine .allFit (List.forall_mem_map.mpr fun field listed => ?_)
    exact .fieldAnswer fun actual same => found _ (.field left right listed same)
  | case14 candidates wanted =>
    refine .allFit (List.forall_mem_map.mpr fun w among => ?_)
    exact .someFits (List.forall_mem_map.mpr fun c listed => found _ (.overload listed among))
  | case17 candidate wanted plain alike =>
    refine Found.andThen (.allFit (List.forall_mem_map.mpr fun p paired => ?_)) (found _ .result)
    exact found _ (.argument paired)
  | _ => exact .ok

/-- In a flat table the depth is never used up. -/
theorem found_answer (flat : t.Flat) (c : Comparison) : Found (c.answer t) := by
  induction c using (calledBy_wellFounded flat).induction with
  | h c ih =>
    rw [answer_eq flat]
    exact found_answerBy ih

end Comparison

/-! ## The tables of a check -/

open Check in
/-- The check of the program works with the table. -/
inductive Program.MeetsTable (p : Program) (w : Bool) : ClassTable → Prop where
  | outside {code : Code} {s : Checker} (met : p.Meets w code s) : MeetsTable p w s.classes
  /-- In a class declaration, with the fields of some of the groups. -/
  | inside {decl : ClassDecl} {span : Span} {s s₁ s₂ : Checker} {id : ClassId}
      {t : ClassTable} {groups : List FieldGroup} {ok : Bool} {fields : NameMap Ty}
      {constructors : List (List Ty)} (met : p.Meets w (.stmt (.classDecl decl span)) s)
      (declared : s.classes.declare decl.name = .ok (id, s₁.classes))
      (begun : groups <+: decl.fields)
      (collected : collectFields .empty groups s₁ = .ok ((ok, fields), s₂))
      (filled : s₁.classes.modify id (fun c => { c with fields, constructors }) = .ok t) :
      MeetsTable p w t

/-- The tables of a check are flat, since a class mentions builtin classes and earlier ones
only. -/
theorem ClassTable.Coherent.flat {t : ClassTable} (coherent : t.Coherent) : t.Flat :=
  fun id c got => ((coherent.mentions id c got).mono fun _ _ => trivial).fields

/-- Fields are annotations, which name instances. -/
theorem Program.MeetsTable.flat {p : Program} {w : Bool} {t : ClassTable}
    (met : p.MeetsTable w t) : t.Flat := by
  cases met with
  | outside met => exact met.sound.coherent.flat
  | @inside decl span s s₁ s₂ id _ groups ok fields constructors met declared begun collected
      filled =>
    have sound := met.sound
    obtain ⟨rfl, appended⟩ := ClassTable.declare_ok declared
    rw [appended, ClassTable.modify_append _ _ rfl] at filled
    cases filled
    have names := Check.declared_names sound appended
    have none : ∀ entry ∈ (NameMap.empty : NameMap Ty).entries,
        entry.2.Over (· < s.classes.classes.length + 1) fun _ => False := by
      intro entry listed
      cases listed
    obtain ⟨_, limited⟩ :=
      (Check.collectFields_delivers Check.names_informed none groups).of_ran names collected
    intro id c got
    rcases ClassTable.get_append.mp got with old | ⟨_, rfl⟩
    · exact sound.coherent.flat id c old
    · exact fun entry field => (limited entry field).mono (fun _ _ => trivial) fun _ => False.elim

/-- Comparisons come to an end in every table that a check works with, whatever classes mention
in their fields: no chain of comparisons of which each asks for the next is endless, each gets
the answer that those it asks for determine, and none is given up on. -/
theorem Program.comparisons_end {p : Program} {w : Bool} {t : ClassTable}
    (met : p.MeetsTable w t) :
    WellFounded (Comparison.CalledBy t) ∧
    (∀ c ask, (∀ d, Comparison.CalledBy t d c → ask d = d.answer t) →
      c.answerBy t ask = c.answer t) ∧
    ∀ c : Comparison, c.answer t ≠ .error .endlessComparison := by
  have flat := met.flat
  exact ⟨Comparison.calledBy_wellFounded flat, fun _ _ => Comparison.answerBy_eq flat,
    Comparison.found_answer flat⟩

/-- To compare the third class with the second, its field is compared, which is an instance of
the third class again. -/
theorem Program.comparisons_end_selfMention : ∃ t, Program.selfMention.MeetsTable false t ∧
    (∃ c type, t.get 6 = .ok c ∧ c.fields.find? "f" = some type ∧ type.objectClass? = some 6) ∧
    WellFounded (Comparison.CalledBy t) ∧
    t.compare (.classValue 6 "B") (.classValue 5 "C") ≠ .error .endlessComparison := by
  obtain ⟨s, reached, computed⟩ := Program.reach_of_any false Program.selfMention.body
    (fun s => (s.classes.get 6).toOption.any fun c =>
      (c.fields.find? "f").any fun type => type.objectClass? == some 6)
    (by decide +kernel)
  have met : Program.selfMention.MeetsTable false s.classes :=
    .outside (.of_reach (List.append_nil _).symm reached)
  obtain ⟨ends, _, found⟩ := Program.comparisons_end met
  refine ⟨s.classes, met, ?_, ends, found (.types _ _)⟩
  cases got : s.classes.get 6 with
  | error fault =>
    rw [got] at computed
    cases computed
  | ok c =>
    simp only [got, Except.toOption, Option.any_some, Option.any_eq_true, beq_iff_eq] at computed
    obtain ⟨type, field, own⟩ := computed
    exact ⟨c, type, rfl, field, own⟩

end ShapeLang
