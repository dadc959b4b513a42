import ShapeLang.Proofs.Placement
import ShapeLang.Proofs.Recheck

/-!
# Where diagnostics point

A check takes the places that it reports from the tree. So what holds of every span
of a tree holds of every span that is reported about it: here, that it lies in the
source.
-/

namespace ShapeLang

/-- Everything was reported at a place with the property. -/
def Checker.Points (P : Span → Prop) (s : Checker) : Prop := ∀ d ∈ s.diagnostics, P d.span

theorem Checker.Points.addDiagnostic {P : Span → Prop} {s : Checker} {d : Diagnostic}
    (points : s.Points P) (here : P d.span) : (s.addDiagnostic d).Points P :=
  List.forall_mem_append.mpr ⟨points, List.forall_mem_singleton.mpr here⟩

namespace Check

variable {α β : Type} {P : Span → Prop} {m : Check α} {f : α → Check β}

/-- The step reports only at places with the property. -/
def Points (P : Span → Prop) {α : Type} (m : Check α) : Prop :=
  ∀ s, s.Points P → Gives m s fun _ s' => s'.Points P

namespace Points

theorem pure (a : α) : Points P (Pure.pure a) := fun _ points => .pure points

theorem bind (first : Points P m) (rest : ∀ a, Yields m a → Points P (f a)) :
    Points P (m >>= f) := by
  intro s points
  refine (first s points).ran.bind ?_
  rintro a s' ⟨ran, points'⟩
  exact rest a ⟨s, s', ran⟩ s' points'

/-- A change that is not to the diagnostics. -/
theorem modify {g : Checker → Checker} (same : ∀ s, (g s).diagnostics = s.diagnostics) :
    Points P (modify g) := by
  intro s points
  refine .modify ?_
  rwa [Checker.Points, same]

theorem of_reports {m : Check (Option α)} (reports : ∀ s, Reports P m s) : Points P m := by
  intro s points
  refine (reports s).gives.imp fun result s' outcome => ?_
  rcases outcome with ⟨_, rfl⟩ | ⟨_, problem, span, here, rfl⟩
  · exact points
  · exact points.addDiagnostic here

end Points

theorem read_points (name : String) {span : Span} (here : P span) :
    Points P (read name span) := by
  intro s points
  refine .after_get ?_
  split
  · exact .after_modify (.pure (points.addDiagnostic here))
  · split
    · exact .pure points
    · split
      · exact .pure points
      · exact .after_modify (.pure (points.addDiagnostic here))
      · exact .after_modify (.pure (points.addDiagnostic here))

theorem registerFunction_points (overloads : List Overload) :
    Points P (registerFunction overloads) := by
  refine .modify fun s => ?_
  split <;> rfl

theorem pointingParts : ExprParts P (Always (Points P)) where
  pure _ := .pure _
  bind := .bind
  resume _ := id
  lift x s points := by
    cases x with
    | error fault =>
      intro _ _ ran
      cases ran
    | ok a => exact .pure points
  asks _ rest s := rest s s
  reports := .of_reports
  read name _ := read_points name
  registerFunction := registerFunction_points

theorem defineUnresolved_points (name : String) (span : Span) :
    Points P (defineUnresolved name span) := by
  refine .modify fun s => ?_
  split <;> rfl

section

variable {span : Span} (here : P span)
include here

theorem define_points (name : String) (type : Ty) (assigned : Assigned) (constant : Bool) :
    Points P (define name type assigned constant span) := by
  intro s points
  refine (define_outcome name type assigned constant span).imp fun _ s' outcome => ?_
  cases outcome with
  | fresh => exact points
  | rebound => exact points
  | refused => exact points.addDiagnostic here

theorem mergeName_points (arms : List Arm) (exhaustive : Bool) (name : String) :
    Points P (mergeName arms exhaustive span name) := by
  intro s points
  refine (mergeName_outcome arms exhaustive span name).imp fun _ s' outcome => ?_
  cases outcome with
  | conflict => exact points.addDiagnostic here
  | outer => exact points
  | absent => exact points
  | introduced => exact points

theorem settleReturn_points (returned : Option Ty) : Points P (settleReturn span returned) := by
  cases returned with
  | none => exact .pure _
  | some returned =>
    intro s points
    refine .after_get ?_
    cases s.frame.returns with
    | none => exact .after_set (.pure points)
    | some previous =>
      refine .after_lift fun joined _ => ?_
      cases joined with
      | ok merged => exact .after_set (.pure points)
      | error reason =>
        exact Points.of_reports (fun _ => mismatch_reports _ _ _ here) s points

theorem recordReturn_points (value : Ty) : Points P (recordReturn value span) := by
  intro s points
  refine .of_run (recordReturn_run value span) ?_
  cases s.declaredReturn? with
  | none =>
    exact Points.bind (pointingParts.fail _ here)
      (fun returned _ => settleReturn_points here returned) s points
  | some declared =>
    cases declared with
    | none => exact settleReturn_points here _ s points
    | some declared =>
      refine Points.bind (pointingParts.expectType value declared here) (fun fits _ => ?_) s points
      cases fits <;> exact settleReturn_points here _

theorem warnIf_points (wanted : Bool) (problem : Problem) :
    Points P (warnIf wanted problem span) := by
  cases wanted with
  | false => exact .pure _
  | true =>
    intro s points
    refine .modify (points.addDiagnostic ?_)
    cases s.warningsAsErrors <;> exact here

variable {decl : ClassDecl} (all : Layout.AllRows P decl.rows)
include all

theorem declareNamed_points : Points P (declareNamed decl span) := by
  obtain ⟨fields, constructors⟩ := ClassDecl.all_rows all
  intro s points
  refine (claimClass_outcome decl.name).bind fun result s₁ outcome => ?_
  cases outcome with
  | taken old => exact pointingParts.fail _ here s points
  | @claimed id classes =>
    have points : ({ s with classes } : Checker).Points P := points
    refine .after_get (.after_lift fun type _ => ?_)
    refine (define_points here _ _ _ _ _ points).bind fun bound s₂ points => ?_
    cases bound with
    | none => exact .pure points
    | some bound =>
      refine (pointingParts.collectFields _ fields s₂ points).bind fun _ s₃ points => ?_
      refine (pointingParts.collectConstructors constructors s₃ points).bind fun _ s₄ points => ?_
      refine .after_get (.after_lift fun classes _ => .after_lift fun registered _ => ?_)
      exact .after_set (.pure points)

theorem declareClass_points : Points P (declareClass decl span) := by
  intro s points
  cases root : s.atRoot with
  | false =>
    refine .of_run (declareClass_inside decl span root) ?_
    refine (defineUnresolved_points decl.name span s points).bind fun _ s₁ points => ?_
    exact pointingParts.fail _ here s₁ points
  | true =>
    refine .of_run (declareClass_root decl span root) ?_
    exact Points.bind (warnIf_points here _ _) (fun _ _ => .bind (warnIf_points here _ _)
      fun _ _ => declareNamed_points here all) s points

end

/-! ## Frames -/

theorem exitBranch_points : Points P exitBranch := by
  intro s points
  refine .after_get ?_
  split
  · exact .after_set (.pure points)
  · intro _ _ run
    cases run

theorem exitFunction_points : Points P exitFunction := by
  intro s points
  refine .after_get ?_
  split
  · exact .after_set (.pure points)
  · intro _ _ run
    cases run

theorem bindParams_points (params : List Param) (types : List Ty) :
    Points P (bindParams params types) := by
  unfold bindParams
  induction params.zip types with
  | nil => exact .pure _
  | cons pair pairs ih => exact .bind (.modify fun _ => rfl) fun _ _ => ih

theorem pointing : WalkParts P (fun _ => True) (Always (Points P)) (Throughout (Points P)) where
  toExprParts := pointingParts
  inFunction _ params types inside rest :=
    .bind (.modify fun _ => rfl) fun _ _ => .bind (bindParams_points params types) fun _ _ =>
      .bind inside fun a _ => .bind exitFunction_points fun returned _ => rest a returned
  statement := id
  sequence := .bind
  continues _ := id
  weaken _ := id
  refuses _ _ first here := .bind first fun _ _ => pointingParts.fail _ here
  define name type assigned constant _ here := define_points here name type assigned constant
  defineUnresolved := defineUnresolved_points
  shadow _ _ _ := .modify fun _ => rfl
  declareClass here all := declareClass_points here all
  mergeName merged exhaustive _ name here := mergeName_points here merged exhaustive name
  setReturns _ := .modify fun _ => rfl
  recordReturn value _ here := recordReturn_points here value
  forget _ _ := trivial
  inBranch inside rest :=
    .bind (.modify fun _ => rfl) fun _ _ => .bind inside fun a _ =>
      .bind exitBranch_points fun arm _ => rest a arm

end Check

/-- A check of a program that ends reports only at places of the tree. -/
theorem Program.check_points {P : Span → Prop} {p : Program} (all : p.layout.All P) (w : Bool) :
    (∃ q c, p.check w = .ok (q, c) ∧ ∀ d ∈ c.diagnostics, P d.span) ∨
      p.check w = .error .countOverflow := by
  refine (p.ran w).imp_left ?_
  rintro ⟨start, q, ok, s, c, ran, fresh, _, _⟩
  have silent : start.Points P := by
    rw [Checker.Points, fresh.diagnostics]
    simp
  have reported : s.Points P := Check.pointing.checkProgram p all start silent _ _ ran.walked
  refine ⟨q, c, Program.check_eq_ok.mpr ⟨start, ok, s, ran⟩, ?_⟩
  obtain rfl := Checker.finish_eq_ok ran.finished
  exact reported

/-- The spans of what is read from a source that is not too long are nested as the tree is, with
the parts of every row in the order of the source, and whatever is reported when the source is
cut into tokens, read or checked is reported at a place in it. -/
theorem Program.spans_nested {source : String} (short : source.utf8ByteSize < UInt32.size)
    (file : String) :
    match Token.tokenize source file with
    | .error d => d.span.Within file source.utf8ByteSize
    | .ok tokens =>
      match Program.read file tokens with
      | .error r => r.diagnostic.span.Within file source.utf8ByteSize
      | .ok (p, _) => p.layout.In file 0 source.utf8ByteSize ∧
          ∀ w, (∃ q c, p.check w = .ok (q, c) ∧
              ∀ d ∈ c.diagnostics, d.span.Within file source.utf8ByteSize) ∨
            p.check w = .error .countOverflow := by
  have outcome := Token.tokenize_outcome short file
  generalize Token.tokenize source file = result at outcome ⊢
  cases outcome with
  | @stuck text rest c _ whole _ _ =>
    have size : byteLength text + byteLength (c :: rest) = source.utf8ByteSize := by
      rw [← byteLength_append, ← whole, byteLength_toList]
    have place : (Position.of file (byteLength text)).offset.toNat = byteLength text :=
      Position.offset_of (by omega)
    refine ⟨⟨rfl, rfl⟩, Nat.le_refl _, ?_⟩
    simp only [Diagnostic.error, Span.point, Span.last, place]
    omega
  | @finished tokens tiled =>
    have marked : (Token.endMark source file).kind = .eof := rfl
    have end_ : (Token.endMark source file).span.first = source.utf8ByteSize :=
      Position.offset_of short
    have place : (Layout.leaf (Token.endMark source file).span).In file source.utf8ByteSize
        source.utf8ByteSize :=
      Layout.leaf_in.mpr ⟨⟨rfl, rfl⟩, Nat.le_of_eq end_.symm, Nat.le_refl _, Nat.le_of_eq end_⟩
    obtain ⟨ready, unread⟩ := tiled.ready marked place
    have laid := Program.read_lays ready unread
    dsimp only
    cases reading : Program.read file (tokens ++ [Token.endMark source file]) with
    | error r =>
      rw [reading] at laid
      exact laid
    | ok result =>
      obtain ⟨p, c⟩ := result
      rw [reading] at laid
      have all := Layout.In.all p.layout laid (Nat.le_refl _)
      exact ⟨laid, p.check_points all⟩

def nestedSource : String := "x = 1 y = (x, [nope, 2])"

theorem Program.spans_nested_nestedSource : nestedSource.utf8ByteSize < UInt32.size ∧
    ∃ tokens p cursor q c, Token.tokenize nestedSource "main.sp" = .ok tokens ∧
      Program.read "main.sp" tokens = .ok (p, cursor) ∧ p.body.length = 2 ∧
      p.layout.In "main.sp" 0 24 ∧ p.check false = .ok (q, c) ∧ c.diagnostics.length = 1 ∧
      ∀ d ∈ c.diagnostics, d.span.Within "main.sp" 24 := by
  have short : nestedSource.utf8ByteSize < UInt32.size := by decide
  have computed : ((Token.tokenize nestedSource "main.sp").toOption.any fun tokens =>
      (Program.read "main.sp" tokens).toOption.any fun read => read.1.body.length == 2 &&
        (read.1.check false).toOption.any (·.2.diagnostics.length == 1)) = true := by
    decide +kernel
  obtain ⟨tokens, cut, computed⟩ := exists_ok_of_any computed
  obtain ⟨⟨p, cursor⟩, reading, computed⟩ := exists_ok_of_any computed
  obtain ⟨two, computed⟩ := Bool.and_eq_true_iff.mp computed
  obtain ⟨⟨q, c⟩, ran, one⟩ := exists_ok_of_any computed
  have nested := Program.spans_nested short "main.sp"
  rw [cut] at nested
  dsimp only at nested
  rw [reading] at nested
  obtain ⟨laid, each⟩ := nested
  rcases each false with ⟨_, _, ran', reported⟩ | overflow
  · cases ran.symm.trans ran'
    exact ⟨short, tokens, p, cursor, q, c, cut, reading, eq_of_beq two, laid, ran, eq_of_beq one,
      reported⟩
  · cases ran.symm.trans overflow

end ShapeLang
