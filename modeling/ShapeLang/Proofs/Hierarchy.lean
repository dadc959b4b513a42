import ShapeLang.Proofs.Totality

/-!
# What the kept answers say

How two classes relate is worked out when the later of them is registered, and
kept. The answer is the one that their fields give as long as nothing is known yet
about the later class. With all classes registered the fields may give another
answer, if they mention the later class beside a class that it turned out to fit;
but a yes that was kept does not become a no.
-/

namespace ShapeLang

namespace ClassTable

/-- If the first comparison says yes, the second does not say no. It may still refuse to
compare. -/
def Upheld (first second : Except Fault Verdict) : Prop :=
  first = .ok (.ok ()) → second ≠ .ok (.error .incompatible)

theorem Upheld.fault {fault : Fault} {second : Except Fault Verdict} :
    Upheld (.error fault) second := nofun

theorem Upheld.refused {reason : Mismatch} {second : Except Fault Verdict} :
    Upheld (.ok (.error reason)) second := nofun

/-- One comparison after another, as long as they say yes. -/
theorem Upheld.andThen {x x' y y' : Except Fault Verdict} (first : Upheld x x')
    (second : Upheld y y') : Upheld
      (do match ← x with | .ok () => y | .error m => return .error m)
      (do match ← x' with | .ok () => y' | .error m => return .error m) := by
  intro yes
  rcases x with fault | reason | _
  · cases yes
  · cases yes
  · rcases x' with fault | reason | _
    · exact nofun
    · intro no
      cases no
      exact first rfl rfl
    · exact second yes

/-- One comparison after another, as long as they say no. Where the second one said yes, the
first may now refuse to compare. -/
theorem Upheld.orElse {x x' y y' : Except Fault Verdict} (first : Upheld x x')
    (second : Upheld y y') : Upheld
      (do match ← x with | .error .incompatible => y | verdict => return verdict)
      (do match ← x' with | .error .incompatible => y' | verdict => return verdict) := by
  intro yes
  rcases x' with fault | (_ | feature) | _
  · exact nofun
  · rcases x with fault | (_ | feature) | _
    · cases yes
    · exact second yes
    · cases yes
    · exact absurd rfl (first rfl)
  · exact nofun
  · exact nofun

section

variable {t t' : ClassTable} {fit fit' : ClassId → ClassId → Except Fault Verdict}

mutual

/-- Where more classes fit each other, what stood for something still does, unless types are
then looked at that are not compared. -/
theorem compareWith_upheld (grown : ∀ a b, t.isA a b = true → t'.isA a b = true)
    (fits : ∀ a b, Upheld (fit a b) (fit' a b)) (actual expected : Ty) :
    Upheld (t.compareWith fit actual expected) (t'.compareWith fit' actual expected) := by
  rw [compareWith.eq_def t fit]
  split
  · rename_i m a _ n b _
    rw [compareWith]
    rcases a with _ | a
    · exact nofun
    · rcases b with _ | b
      · exact nofun
      · show Upheld (.ok (if t.isA a b then _ else _)) (.ok (if t'.isA a b then _ else _))
        intro yes
        cases related : t.isA a b with
        | false => simp [related] at yes
        | true => simp [grown a b related]
  · rw [compareWith]
    exact fits _ _
  · rw [compareWith]
    exact serveAll_upheld grown fits _ _
  · rw [compareWith]
    exact (compareWith_upheld grown fits _ _).andThen (compareWith_upheld grown fits _ _)
  · rw [compareWith]
    exact (compareWith_upheld grown fits _ _).andThen (compareWith_upheld grown fits _ _)
  all_goals
    rw [compareWith]
    all_goals first | assumption | exact nofun
termination_by sizeOf actual + sizeOf expected
decreasing_by
  all_goals
    subst_vars
    simp only [Ty.func.sizeOf_spec, Ty.array.sizeOf_spec, Ty.maybe.sizeOf_spec]
    omega

theorem serveAll_upheld (grown : ∀ a b, t.isA a b = true → t'.isA a b = true)
    (fits : ∀ a b, Upheld (fit a b) (fit' a b)) (candidates wanted : List Overload) :
    Upheld (t.serveAll fit candidates wanted) (t'.serveAll fit' candidates wanted) := by
  cases wanted with
  | nil =>
    rw [serveAll, serveAll]
    exact nofun
  | cons w ws =>
    rw [serveAll, serveAll]
    exact (serveOne_upheld grown fits candidates w).andThen
      (serveAll_upheld grown fits candidates ws)
termination_by sizeOf candidates + sizeOf wanted
decreasing_by
  all_goals
    subst_vars
    simp only [List.cons.sizeOf_spec]
    omega

theorem serveOne_upheld (grown : ∀ a b, t.isA a b = true → t'.isA a b = true)
    (fits : ∀ a b, Upheld (fit a b) (fit' a b)) (candidates : List Overload) (wanted : Overload) :
    Upheld (t.serveOne fit candidates wanted) (t'.serveOne fit' candidates wanted) := by
  cases candidates with
  | nil =>
    rw [serveOne, serveOne]
    exact nofun
  | cons c cs =>
    rw [serveOne, serveOne]
    exact (serve_upheld grown fits c wanted).orElse (serveOne_upheld grown fits cs wanted)
termination_by sizeOf candidates + sizeOf wanted
decreasing_by
  all_goals
    subst_vars
    simp only [List.cons.sizeOf_spec]
    omega

theorem serve_upheld (grown : ∀ a b, t.isA a b = true → t'.isA a b = true)
    (fits : ∀ a b, Upheld (fit a b) (fit' a b)) : (candidate wanted : Overload) →
    Upheld (t.serve fit candidate wanted) (t'.serve fit' candidate wanted)
  | ⟨generics, accepted, result⟩, ⟨wantedGenerics, passed, wantedResult⟩ => by
      rw [serve, serve]
      split
      · exact nofun
      · split
        · exact nofun
        · exact (acceptAll_upheld grown fits accepted passed).andThen
            (compareWith_upheld grown fits result wantedResult)
termination_by candidate wanted => sizeOf candidate + sizeOf wanted
decreasing_by
  all_goals
    simp only [Overload.mk.sizeOf_spec]
    omega

theorem acceptAll_upheld (grown : ∀ a b, t.isA a b = true → t'.isA a b = true)
    (fits : ∀ a b, Upheld (fit a b) (fit' a b)) (accepted passed : List Ty) :
    Upheld (t.acceptAll fit accepted passed) (t'.acceptAll fit' accepted passed) := by
  rw [acceptAll.eq_def t fit]
  split
  · rename_i a as p ps
    rw [acceptAll]
    exact (compareWith_upheld grown fits p a).andThen (acceptAll_upheld grown fits as ps)
  · rw [acceptAll]
    · exact nofun
    · assumption
termination_by sizeOf accepted + sizeOf passed
decreasing_by
  all_goals
    subst_vars
    simp only [List.cons.sizeOf_spec]
    omega

end

theorem fieldsFit_upheld {compare compare' : Ty → Ty → Except Fault Verdict}
    (compared : ∀ own wanted, Upheld (compare own wanted) (compare' own wanted))
    (actual : NameMap Ty) (expected : List (String × Ty)) :
    Upheld (fieldsFit compare actual expected) (fieldsFit compare' actual expected) := by
  induction expected with
  | nil => exact fun _ => by simp [fieldsFit]
  | cons entry rest ih =>
    obtain ⟨name, wanted⟩ := entry
    rw [fieldsFit, fieldsFit]
    cases actual.find? name with
    | none => exact .refused
    | some own => exact (compared own wanted).andThen ih

/-- By induction on the depth: a class that fits another still does so where more classes fit. -/
theorem classFits_upheld (same : t'.classes = t.classes)
    (grown : ∀ a b, t.isA a b = true → t'.isA a b = true) (depth : Nat) (a b : ClassId) :
    Upheld (t.classFits depth a b) (t'.classFits depth a b) := by
  have got (id : ClassId) : t'.get id = t.get id := by rw [get, get, same]
  induction depth generalizing a b with
  | zero => exact .fault
  | succ depth ih =>
    rw [classFits, classFits]
    split
    · exact fun _ => by simp
    · rw [got a, got b]
      cases t.get a with
      | error fault => exact .fault
      | ok own =>
        cases t.get b with
        | error fault => exact .fault
        | ok wanted => exact fieldsFit_upheld (compareWith_upheld grown ih) _ _

end

/-- No class of the set is related to `id`, if `id` is in the set itself. -/
def Apart (t : ClassTable) (id : ClassId) (objects : ClassId → Prop) : Prop :=
  objects id → ∀ other, objects other → other ≠ id →
    t.isA id other = false ∧ t.isA other id = false

variable {t : ClassTable} {a b : ClassId}

theorem Apart.isA_left {id other : ClassId} {objects : ClassId → Prop}
    (apart : t.Apart id objects) (inside : objects id) (member : objects other) :
    t.isA id other = true ↔ id = other := by
  constructor
  · intro related
    by_cases same : other = id
    · exact same.symm
    · rw [(apart inside other member same).1] at related
      cases related
  · rintro rfl
    exact isA_iff.mpr (.inl rfl)

theorem Apart.isA_right {id other : ClassId} {objects : ClassId → Prop}
    (apart : t.Apart id objects) (inside : objects id) (member : objects other) :
    t.isA other id = true ↔ other = id := by
  constructor
  · intro related
    by_cases same : other = id
    · exact same
    · rw [(apart inside other member same).2] at related
      cases related
  · rintro rfl
    exact isA_iff.mpr (.inl rfl)

/-- Forgetting the later class changes nothing for fields that do not mention it beside a
class that is related to it. -/
theorem satisfies_without {objects : ClassId → Prop} (apart : t.Apart (max a b) objects)
    (own : ∀ c, t.get a = .ok c → c.FieldsOver objects)
    (wanted : ∀ c, t.get b = .ok c → c.FieldsOver objects) :
    (t.without (max a b)).satisfies a b = t.satisfies a b := by
  refine satisfies_congr_of_fields (fun x y left right => ?_) rfl rfl own wanted
  by_cases first : x = max a b
  · subst first
    rw [Bool.eq_iff_iff, isA_without_left, apart.isA_left left right]
  · by_cases second : y = max a b
    · subst second
      rw [Bool.eq_iff_iff, isA_without_right, apart.isA_right right left]
    · exact isA_without first second

/-- What two classes come to without knowledge of a third is upheld with it. -/
theorem satisfies_upheld (id : ClassId) :
    Upheld ((t.without id).satisfies a b) (t.satisfies a b) := by
  have same : t.classes = (t.without id).classes := rfl
  refine classFits_upheld same (fun x y related => ?_) t.depthLimit a b
  rw [isA_iff] at related ⊢
  refine related.imp_right fun kept => ?_
  exact (List.mem_filter.mp kept).1

theorem Coherent.satisfies_without_ok (coherent : t.Coherent) (id : ClassId)
    (left : a < t.classes.length) (right : b < t.classes.length) :
    ∃ verdict, (t.without id).satisfies a b = .ok verdict := by
  obtain ⟨own, actual, ownOver⟩ := coherent.get_ok left
  obtain ⟨wanted, expected, wantedOver⟩ := coherent.get_ok right
  exact satisfies_total actual expected ownOver wantedOver

end ClassTable

theorem Verdict.isOk_iff (verdict : Verdict) : verdict.isOk = true ↔ verdict = .ok () := by
  cases verdict <;> simp [Except.isOk, Except.toBool]

/-- The kept answer is the verdict on the fields before anything was known about the later of
the two classes. It is also the verdict on the fields with everything known, unless these
mention the later class beside a class that is related to it; and even then a yes is not
contradicted. -/
theorem Program.check_hierarchy (p : Program) (w : Bool) :
    (∃ q c, p.check w = .ok (q, c) ∧
      ∀ a ∈ c.classes.registered, ∀ b ∈ c.classes.registered, ∃ before after,
        (c.classes.without (max a b)).satisfies a b = .ok before ∧
        c.classes.satisfies a b = .ok after ∧
        c.classes.isA a b = before.isOk ∧
        (∀ objects, c.classes.Apart (max a b) objects →
          (∀ own, c.classes.get a = .ok own → own.FieldsOver objects) →
          (∀ wanted, c.classes.get b = .ok wanted → wanted.FieldsOver objects) →
          c.classes.isA a b = after.isOk) ∧
        (c.classes.isA a b = true → after ≠ .error .incompatible)) ∨
    p.check w = .error .countOverflow := by
  refine (p.ran w).imp_left ?_
  rintro ⟨start, q, ok, s, c, ran, _, _, sound⟩
  obtain rfl := Checker.finish_eq_ok ran.finished
  have coherent := sound.coherent
  refine ⟨q, _, Program.check_eq_ok.mpr ⟨start, ok, s, ran⟩, fun a listed b listed' => ?_⟩
  rw [coherent.registered, List.mem_range] at listed listed'
  obtain ⟨before, first⟩ := coherent.satisfies_without_ok (max a b) listed listed'
  obtain ⟨after, last⟩ := coherent.satisfies_ok listed listed'
  have kept : s.classes.isA a b = before.isOk := by
    rw [Bool.eq_iff_iff, coherent.answers a b listed listed', first, Verdict.isOk_iff]
    simp
  refine ⟨before, after, first, last, kept, ?_, ?_⟩
  · intro objects apart own wanted
    have same := ClassTable.satisfies_without apart own wanted
    rw [first, last] at same
    cases same
    exact kept
  · intro yes no
    have upheld := ClassTable.satisfies_upheld (t := s.classes) (a := a) (b := b) (max a b)
    rw [first, last] at upheld
    rw [kept, Verdict.isOk_iff] at yes
    subst yes no
    exact upheld rfl rfl

/-- Three classes, of which the last mentions itself where the second mentions the first. -/
def Program.selfMention : Program :=
  let field (name : String) : FieldGroup := ⟨["f"], .named name [] .null, .null⟩
  let decl (name : String) (fields : List FieldGroup) : Stmt :=
    .classDecl ⟨name, [], [], [], fields⟩ .null
  ⟨[decl "A" [], decl "C" [field "A"], decl "B" [field "B"]], .null⟩

/-- The kept answer need not be the verdict with everything known: the last class fits the
second because it fits the first, but that was not known when it was registered. -/
theorem Program.hierarchy_outdated : ∃ q c, Program.selfMention.check false = .ok (q, c) ∧
    c.isOk = true ∧ ∃ a ∈ c.classes.registered, ∃ b ∈ c.classes.registered,
      c.classes.isA a b = false ∧ c.classes.satisfies a b = .ok (.ok ()) := by
  obtain ⟨q, c, run, computed⟩ := Program.check_of_any (p := .selfMention) (w := false)
    (P := fun _ c => c.isOk = true ∧ 6 ∈ c.classes.registered ∧ 5 ∈ c.classes.registered ∧
      c.classes.isA 6 5 = false ∧ (c.classes.satisfies 6 5).toOption.any (·.isOk))
    (by decide +kernel)
  obtain ⟨accepted, last, second, unrelated, fits⟩ := of_decide_eq_true computed
  refine ⟨q, c, run, accepted, 6, last, 5, second, unrelated, ?_⟩
  cases verdict : c.classes.satisfies 6 5 with
  | error fault =>
    rw [verdict] at fits
    cases fits
  | ok verdict' =>
    rw [verdict] at fits
    rw [(Verdict.isOk_iff verdict').mp fits]

end ShapeLang
