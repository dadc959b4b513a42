import ShapeLang.Proofs.Failures
import ShapeLang.Proofs.Flow
import ShapeLang.Proofs.Growth

/-!
# Assignments along every route

A route takes each arm of a branching statement once or not at all, goes on behind a
return, and lists the names that are assigned on it. For code that goes well the
checker knows of every name whether all routes assign it, some of them or none, although
it never looks at a route as a whole: it only merges the arms of one statement at a time.
-/

namespace ShapeLang

/-! ## Routes -/

/-- Each of the first routes, followed by each of the others. -/
def inTurn (first rest : List (List String)) : List (List String) :=
  first.flatMap fun route => rest.map (route ++ ·)

mutual

/-- The routes through the statement: the names that are assigned on each of them. -/
def Stmt.routes : Stmt → List (List String)
  | .define names _ _ _ => [names.filter (· != "_")]
  | .declare name _ (some _) _ _ => [[name]]
  | .classDecl decl _ => [[decl.name]]
  | .expr .. | .declare _ _ none _ _ | .methods .. | .return .. => [[]]
  | .ifElse _ yes none _ => [] :: yes.routes
  | .ifElse _ yes (some no) _ => yes.routes ++ no.routes
  | .whileLoop _ body _ | .doWhile body _ _ => [] :: body.routes
  | .switch _ cases none _ => [] :: Case.routesOf cases
  | .switch _ cases (some otherwise) _ => Case.routesOf cases ++ otherwise.routes

def Stmt.routesOf : List Stmt → List (List String)
  | [] => [[]]
  | stmt :: stmts => inTurn stmt.routes (Stmt.routesOf stmts)

def Block.routes : Block → List (List String)
  | ⟨body, _⟩ => Stmt.routesOf body

/-- The name that the pattern binds is another one inside the case. -/
def Case.routesOf : List Case → List (List String)
  | [] => []
  | ⟨pattern, body, _⟩ :: cases =>
      body.routes.map (·.filter (· ∉ pattern.binds)) ++ Case.routesOf cases

end

section

variable {x : String} {first rest : List (List String)}

/-- A name is on all routes through two parts if it is on all routes through one of them. -/
theorem forall_mem_inTurn : (∀ route ∈ inTurn first rest, x ∈ route) ↔
    (∀ route ∈ first, x ∈ route) ∨ ∀ route ∈ rest, x ∈ route := by
  simp only [inTurn, List.mem_flatMap, List.mem_map]
  constructor
  · intro all
    by_cases early : ∀ route ∈ first, x ∈ route
    · exact .inl early
    · simp only [not_forall] at early
      obtain ⟨route, listed, missing⟩ := early
      refine .inr fun later listed' => ?_
      have both := all _ ⟨route, listed, later, listed', rfl⟩
      exact (List.mem_append.mp both).resolve_left missing
  · rintro all _ ⟨route, listed, later, listed', rfl⟩
    rcases all with early | late
    · exact List.mem_append_left _ (early route listed)
    · exact List.mem_append_right _ (late later listed')

/-- A name is on no route through two parts if it is on no route through either. -/
theorem forall_not_mem_inTurn (nonempty : first ≠ []) (nonempty' : rest ≠ []) :
    (∀ route ∈ inTurn first rest, x ∉ route) ↔
      (∀ route ∈ first, x ∉ route) ∧ ∀ route ∈ rest, x ∉ route := by
  simp only [inTurn, List.mem_flatMap, List.mem_map]
  constructor
  · intro none
    have apart (route) (listed : route ∈ first) (later) (listed' : later ∈ rest) :
        x ∉ route ∧ x ∉ later := by
      have neither := none _ ⟨route, listed, later, listed', rfl⟩
      exact ⟨fun here => neither (List.mem_append_left _ here),
        fun here => neither (List.mem_append_right _ here)⟩
    obtain ⟨route, listed⟩ := List.exists_mem_of_ne_nil first nonempty
    obtain ⟨later, listed'⟩ := List.exists_mem_of_ne_nil rest nonempty'
    exact ⟨fun route' member => (apart route' member later listed').1,
      fun later' member => (apart route listed later' member).2⟩
  · rintro ⟨early, late⟩ _ ⟨route, listed, later, listed', rfl⟩ here
    rcases List.mem_append.mp here with here | here
    · exact early route listed here
    · exact late later listed' here

end

namespace Stmt

theorem routesOf_ne_nil_of {stmts : List Stmt} (each : ∀ stmt ∈ stmts, stmt.routes ≠ []) :
    routesOf stmts ≠ [] := by
  induction stmts with
  | nil => simp [routesOf]
  | cons stmt stmts ih =>
    obtain ⟨here, others⟩ := List.forall_mem_cons.mp each
    obtain ⟨route, listed⟩ := List.exists_mem_of_ne_nil _ here
    obtain ⟨later, listed'⟩ := List.exists_mem_of_ne_nil _ (ih others)
    refine List.ne_nil_of_mem (a := route ++ later) ?_
    rw [routesOf, inTurn]
    exact List.mem_flatMap.mpr ⟨route, listed, List.mem_map_of_mem listed'⟩

/-- There is a route through every statement. -/
theorem routes_ne_nil (stmt : Stmt) : stmt.routes ≠ [] := by
  induction stmt using Stmt.induction with
  | step stmt ih =>
    have block (arm : Block) (listed : arm ∈ stmt.arms) : arm.routes ≠ [] := by
      obtain ⟨body, span⟩ := arm
      rw [Block.routes]
      exact routesOf_ne_nil_of (ih _ listed)
    match stmt with
    | .ifElse condition yes (some no) span =>
      rw [routes]
      exact List.append_ne_nil_of_left_ne_nil (block yes List.mem_cons_self) _
    | .switch subject cases (some otherwise) span =>
      rw [routes]
      refine List.append_ne_nil_of_right_ne_nil _ (block otherwise ?_)
      simp [arms]
    | .ifElse _ _ none _ | .switch _ _ none _ | .whileLoop .. | .doWhile .. | .define ..
    | .declare _ _ none _ _ | .declare _ _ (some _) _ _ | .classDecl .. | .expr .. | .methods ..
    | .return .. => simp [routes]

theorem routesOf_ne_nil (stmts : List Stmt) : routesOf stmts ≠ [] :=
  routesOf_ne_nil_of fun stmt _ => stmt.routes_ne_nil

end Stmt

/-- A route through cases is one through a block, without the names of the pattern. -/
theorem Case.mem_routesOf {cases : List Case} {route : List String} :
    route ∈ Case.routesOf cases ↔ ∃ c ∈ cases, ∃ inner ∈ Stmt.routesOf c.body.body,
      route = inner.filter (· ∉ c.pattern.binds) := by
  induction cases with
  | nil => simp [Case.routesOf]
  | cons c cases ih =>
    obtain ⟨pattern, ⟨body, span'⟩, span⟩ := c
    rw [Case.routesOf, Block.routes, List.mem_append, ih, List.mem_map]
    simp [eq_comm]

/-- A route through a branching statement is one through one of the blocks that may be run,
without the names that are bound for the block alone. -/
theorem Stmt.mem_routes {stmt : Stmt} (branching : stmt.branching = true) {route : List String} :
    route ∈ stmt.routes ↔ (stmt.exhaustive = false ∧ route = []) ∨
      ∃ way ∈ stmt.ways, ∃ inner ∈ Stmt.routesOf way.2.body,
        route = inner.filter (· ∉ way.1) := by
  have block (b : Block) : b.routes = Stmt.routesOf b.body := by
    obtain ⟨body, span⟩ := b
    rw [Block.routes]
  match stmt with
  | .ifElse condition yes none span => simp [routes, exhaustive, ways, block]
  | .ifElse condition yes (some no) span => simp [routes, exhaustive, ways, block]
  | .whileLoop condition body span => simp [routes, exhaustive, ways, block]
  | .doWhile body condition span => simp [routes, exhaustive, ways, block]
  | .switch subject cases none span => simp [routes, exhaustive, ways, Case.mem_routesOf]
  | .switch subject cases (some otherwise) span =>
    simp [routes, exhaustive, ways, block, Case.mem_routesOf, or_and_right, exists_or]

/-! ## What a step does to a name -/

namespace Assigned

theorem max_eq_never {a b : Assigned} : a.max b = .never ↔ a = .never ∧ b = .never := by
  cases a <;> cases b <;> decide

@[simp] theorem never_max (a : Assigned) : Assigned.never.max a = a := by
  cases a <;> rfl

@[simp] theorem max_never (a : Assigned) : a.max .never = a := by
  cases a <;> rfl

/-- A name is always assigned after the arms if it is so in each of them and none can be passed
by. -/
theorem afterArms_eq_always {exhaustive : Bool} {states : List Assigned} :
    afterArms exhaustive states = .always ↔
      exhaustive = true ∧ ∀ state ∈ states, state = .always := by
  unfold afterArms
  split
  · rename_i all
    simpa using all
  · rename_i some_
    split <;> simpa using some_

/-- A name is never assigned after the arms if it is so in each of them. -/
theorem afterArms_eq_never {exhaustive : Bool} {states : List Assigned}
    (real : exhaustive = true → states ≠ []) :
    afterArms exhaustive states = .never ↔ ∀ state ∈ states, state = .never := by
  unfold afterArms
  split
  · rename_i all
    obtain ⟨sure, always⟩ := Bool.and_eq_true_iff.mp all
    obtain ⟨state, listed⟩ := List.exists_mem_of_ne_nil _ (real sure)
    have here : state = .always := by simpa using List.all_eq_true.mp always state listed
    simp only [reduceCtorEq, false_iff]
    intro none
    cases here.symm.trans (none state listed)
  · split
    · rename_i some_
      simpa using some_
    · rename_i none
      simpa using none

/-- From one state to the other along the routes: all assign the name or it was assigned
before, or none does and it was not. -/
structure Along (x : String) (routes : List (List String)) (before after : Assigned) : Prop where
  always : after = .always ↔ before = .always ∨ ∀ route ∈ routes, x ∈ route
  never : after = .never ↔ before = .never ∧ ∀ route ∈ routes, x ∉ route

namespace Along

variable {x : String} {routes more : List (List String)} {a b c : Assigned}

theorem inTurn (first : Along x routes a b) (second : Along x more b c) (nonempty : routes ≠ [])
    (nonempty' : more ≠ []) : Along x (ShapeLang.inTurn routes more) a c where
  always := by rw [second.always, first.always, forall_mem_inTurn, or_assoc]
  never := by
    rw [second.never, first.never, forall_not_mem_inTurn nonempty nonempty', and_assoc]

theorem max (always : b = .always ↔ ∀ route ∈ routes, x ∈ route)
    (never : b = .never ↔ ∀ route ∈ routes, x ∉ route) : Along x routes a (a.max b) where
  always := by rw [max_eq_always, always]
  never := by rw [max_eq_never, never]

theorem skip (a : Assigned) {names : List String} (other : x ∉ names) : Along x [names] a a where
  always := by simp [other]
  never := by simp [other]

end Along

end Assigned

namespace Checker

/-- On which part of the routes the name has been assigned; one that is not bound on none. -/
def assignment (s : Checker) (x : String) : Assigned := (s.lookup? x).elim .never (·.assigned)

def Resolved (s : Checker) (x : String) : Prop := ∀ b, s.lookup? x = some b → b.unresolved = false

/-- If a value for the name failed, the name counts as assigned. -/
def Tidy (s : Checker) (x : String) : Prop :=
  ∀ b, s.lookup? x = some b → b.assigned = .never → b.unresolved = false

/-- What a step does to the name, if the names listed in the routes are assigned in it. Only a
step that went well follows the routes. -/
structure Tracks (x : String) (routes : List (List String)) (ok : Prop) (s s' : Checker) :
    Prop where
  tidy : s.Tidy x → s'.Tidy x
  told : ok → s.Resolved x →
    s'.Resolved x ∧ Assigned.Along x routes (s.assignment x) (s'.assignment x)

variable {s s₁ s₂ : Checker} {x : String}

theorem assignment_of_lookup (same : s₁.lookup? x = s.lookup? x) :
    s₁.assignment x = s.assignment x := by
  rw [assignment, same, assignment]

theorem Tidy.of_lookup (same : s₁.lookup? x = s.lookup? x) (tidy : s.Tidy x) : s₁.Tidy x := by
  intro b found
  exact tidy b (same ▸ found)

theorem Resolved.of_lookup (same : s₁.lookup? x = s.lookup? x) (resolved : s.Resolved x) :
    s₁.Resolved x := by
  intro b found
  exact resolved b (same ▸ found)

/-- A name that was never assigned, in a tidy checker, has not failed. -/
theorem Tidy.resolved (tidy : s.Tidy x) (unset : s.assignment x = .never) : s.Resolved x := by
  intro b found
  refine tidy b found ?_
  simpa [assignment, found] using unset

theorem Tidy.bind {name : String} {b : Binding} (tidy : s.Tidy x) (always : b.assigned = .always) :
    (s.bind name b).Tidy x := by
  intro b' found never
  rw [lookup?_bind] at found
  split at found
  · cases found
    cases always.symm.trans never
  · exact tidy b' found never

namespace Tracks

variable {names more : List String} {routes routes' : List (List String)} {ok ok' : Prop}

/-- The step does not touch the name. -/
theorem of_lookup (same : s₁.lookup? x = s.lookup? x) (other : x ∉ names) :
    s.Tracks x [names] ok s₁ where
  tidy := .of_lookup same
  told _ resolved := by
    rw [assignment_of_lookup same]
    exact ⟨resolved.of_lookup same, .skip _ other⟩

theorem of_noted (noted : s.Noted s₁) : s.Tracks x [[]] ok s₁ :=
  of_lookup (noted.lookup? x) List.not_mem_nil

theorem imp (tracks : s.Tracks x routes ok s₁) (fewer : ok' → ok) : s.Tracks x routes ok' s₁ :=
  ⟨tracks.tidy, fun holds => tracks.told (fewer holds)⟩

/-- What is tracked along one part and then along another is tracked along both. -/
theorem inTurn (first : s.Tracks x routes ok s₁) (second : s₁.Tracks x routes' ok' s₂)
    (nonempty : routes ≠ []) (nonempty' : routes' ≠ []) :
    s.Tracks x (ShapeLang.inTurn routes routes') (ok ∧ ok') s₂ where
  tidy tidy := second.tidy (first.tidy tidy)
  told holds resolved := by
    obtain ⟨resolved₁, along⟩ := first.told holds.1 resolved
    obtain ⟨resolved₂, along'⟩ := second.told holds.2 resolved₁
    exact ⟨resolved₂, along.inTurn along' nonempty nonempty'⟩

theorem append (first : s.Tracks x [names] ok s₁) (second : s₁.Tracks x [more] ok' s₂) :
    s.Tracks x [names ++ more] (ok ∧ ok') s₂ :=
  first.inTurn second (List.cons_ne_nil _ _) (List.cons_ne_nil _ _)

/-- Before the step nothing happens to the name. -/
theorem after_lookup (same : s₁.lookup? x = s.lookup? x) (tracks : s₁.Tracks x routes ok s₂) :
    s.Tracks x routes ok s₂ where
  tidy tidy := tracks.tidy (tidy.of_lookup same)
  told holds resolved := by
    rw [← assignment_of_lookup same]
    exact tracks.told holds (resolved.of_lookup same)

theorem then_lookup (tracks : s.Tracks x routes ok s₁) (same : s₂.lookup? x = s₁.lookup? x) :
    s.Tracks x routes ok s₂ where
  tidy tidy := (tracks.tidy tidy).of_lookup same
  told holds resolved := by
    obtain ⟨resolved₁, along⟩ := tracks.told holds resolved
    rw [assignment_of_lookup same]
    exact ⟨resolved₁.of_lookup same, along⟩

/-- The step failed, so that only tidiness is left of what it does. -/
theorem failed (tidy : s.Tidy x → s₁.Tidy x) (fails : ¬ ok) : s.Tracks x routes ok s₁ :=
  ⟨tidy, fun holds => absurd holds fails⟩

/-- The step binds a name and nothing else. -/
theorem bind {name : String} {b : Binding} (only : ∀ other ∈ names, other = name)
    (tidy : s.Tidy name → b.assigned = .never → b.unresolved = false)
    (told : ok → s.Resolved name →
      b.unresolved = false ∧ Assigned.Along name [names] (s.assignment name) b.assigned) :
    s.Tracks x [names] ok (s.bind name b) := by
  by_cases same : x = name
  · subst same
    have found : (s.bind x b).lookup? x = some b := by rw [lookup?_bind, if_pos rfl]
    refine ⟨fun before b' found' => ?_, fun holds resolved => ⟨fun b' found' => ?_, ?_⟩⟩
    · cases found.symm.trans found'
      exact tidy before
    · cases found.symm.trans found'
      exact (told holds resolved).1
    · have after : (s.bind x b).assignment x = b.assigned := by rw [assignment, found]; rfl
      rw [after]
      exact (told holds resolved).2
  · refine of_lookup ?_ fun listed => same (only x listed)
    rw [lookup?_bind, if_neg same]

end Tracks

end Checker

namespace Check

open Checker (Tracks)

variable {s : Checker} (x : String)

/-! ## Binding names -/

/-- A name is bound to a value, or only announced. -/
theorem define_tracks (name : String) (type : Ty) {assigned : Assigned} (constant : Bool)
    (span : Span) {names : List String} (only : ∀ other ∈ names, other = name)
    (always : assigned = .always ↔ name ∈ names) (never : assigned = .never ↔ name ∉ names) :
    Gives (define name type assigned constant span) s fun result s' =>
      s.Tracks x [names] (result.isSome = true) s' := by
  have along (a : Assigned) : Assigned.Along name [names] a (a.max assigned) :=
    .max (by simpa using always) (by simpa using never)
  refine (define_outcome name type assigned constant span).imp fun _ s' outcome => ?_
  cases outcome with
  | fresh free =>
    refine .bind only (fun _ _ => rfl) fun _ resolved => ⟨rfl, ?_⟩
    have missing : s.lookup? name = none := by
      cases found : s.lookup? name with
      | none => rfl
      | some b => cases (resolved b found).symm.trans (free b found)
    have unset : s.assignment name = .never := by simp [Checker.assignment, missing]
    rw [unset]
    simpa using along .never
  | @rebound old merged found resolved =>
    refine .bind only (fun _ _ => resolved) fun _ _ => ⟨resolved, ?_⟩
    have before : s.assignment name = old.assigned := by simp [Checker.assignment, found]
    rw [before]
    exact along _
  | refused => exact .failed (.of_lookup rfl) (by simp)

theorem define_always_tracks (name : String) (type : Ty) (constant : Bool) (span : Span) :
    Gives (define name type .always constant span) s fun result s' =>
      s.Tracks x [[name]] (result.isSome = true) s' :=
  define_tracks x name type constant span (by simp) (by simp) (by simp)

theorem define_never_tracks (name : String) (type : Ty) (constant : Bool) (span : Span) :
    Gives (define name type .never constant span) s fun result s' =>
      s.Tracks x [[]] (result.isSome = true) s' :=
  define_tracks x name type constant span (by simp) (by simp) (by simp)

theorem defineUnresolved_tidy (name : String) (span : Span) :
    Gives (defineUnresolved name span) s fun _ s' => s.Tidy x → s'.Tidy x := by
  refine .modify fun tidy => ?_
  split
  · exact tidy.bind rfl
  · exact tidy.bind rfl

theorem defineAllUnresolved_tidy (names : List String) (span : Span) :
    Gives (defineAllUnresolved names span) s fun _ s' => s.Tidy x → s'.Tidy x := by
  unfold defineAllUnresolved
  induction names.filter (· != "_") generalizing s with
  | nil => exact .pure id
  | cons name names ih =>
    refine (defineUnresolved_tidy x name span).bind fun _ s₁ first => ?_
    exact ih.imp fun _ _ rest tidy => rest (first tidy)

/-- Several definitions track their names; an underscore names nothing. -/
theorem defineEach_tracks (constant : Bool) (span : Span) (pairs : List (String × Ty)) :
    Gives (defineEach constant span pairs) s fun all s' =>
      s.Tracks x [(pairs.map (·.1)).filter (· != "_")] (all = true) s' := by
  induction pairs generalizing s with
  | nil => exact .pure (.of_lookup rfl (by simp))
  | cons pair pairs ih =>
    obtain ⟨name, type⟩ := pair
    rw [defineEach]
    split
    · rename_i discarded
      obtain rfl : name = "_" := by simpa using discarded
      exact .after_pure (ih.bind fun others s₁ tracks => .pure (by simpa using tracks))
    · rename_i named
      have kept : (((name, type) :: pairs).map (·.1)).filter (· != "_") =
          name :: (pairs.map (·.1)).filter (· != "_") :=
        List.filter_cons_of_pos (by simpa using named)
      rw [kept]
      refine (define_always_tracks x name type constant span).bind fun bound s₁ first => ?_
      refine ih.bind fun others s₂ rest => .pure ?_
      exact (first.append rest).imp Bool.and_eq_true_iff.mp

theorem defineNames_tracks (names : List String) (type : Ty) (constant : Bool) (span : Span) :
    Gives (defineNames names type constant span) s fun result s' =>
      s.Tracks x [names.filter (· != "_")] (result.isSome = true) s' := by
  have each (pairs : List (String × Ty)) (same : pairs.map (·.1) = names) : Gives (do
      let bound ← defineEach constant span pairs
      return if bound then some type else none : Check (Option Ty)) s fun result s' =>
        s.Tracks x [names.filter (· != "_")] (result.isSome = true) s' := by
    refine (defineEach_tracks x constant span pairs).bind fun bound s₁ tracks => .pure ?_
    rw [same] at tracks
    exact tracks.imp (by cases bound <;> simp)
  have plain := each (names.map (·, type)) (by simp [Function.comp_def])
  cases type with
  | spread items =>
    rw [defineNames]
    split
    · refine (defineAllUnresolved_tidy x names span).bind fun _ s₁ tidy => ?_
      exact .after_fail (.pure (.failed (fun before => (tidy before).of_lookup rfl) (by simp)))
    · rename_i fitting
      have sized : items.length = names.length := by simpa using fitting
      rw [items.zip_take]
      exact each _ (List.map_fst_zip (sized ▸ Nat.le_of_eq items.length_toList.symm))
  | _ => exact plain

theorem declareClass_tracks (decl : ClassDecl) (span : Span) :
    Gives (declareClass decl span) s fun result s' =>
      s.Tracks x [[decl.name]] (result.isSome = true) s' := by
  have named (s : Checker) : Gives (declareNamed decl span) s fun result s' =>
      s.Tracks x [[decl.name]] (result.isSome = true) s' := by
    refine (claimClass_outcome decl.name).bind fun result s₁ outcome => ?_
    cases outcome with
    | taken => exact Gives.after_modify (.pure (.failed (.of_lookup rfl) (by simp)))
    | @claimed id classes =>
      refine .after_get (.after_lift fun type _ => ?_)
      refine (define_always_tracks x decl.name type true span).bind fun bound s₂ tracks => ?_
      have same : ({ s with classes } : Checker).lookup? x = s.lookup? x := rfl
      have defined := tracks.after_lookup same
      cases bound with
      | none => exact .pure (defined.imp (by simp))
      | some bound =>
        refine (collectFields_notes _ _ s₂).bind fun (_, fields) s₃ noted => ?_
        refine (collectConstructors_notes _ s₃).bind fun (_, constructors) s₄ noted' => ?_
        refine .after_get (.after_lift fun _ _ => .after_lift fun _ _ => .after_set (.pure ?_))
        refine (defined.then_lookup ?_).imp (by simp)
        exact (noted.trans noted').lookup? x
  cases root : s.atRoot with
  | false =>
    refine .of_run (declareClass_inside decl span root) ?_
    refine (defineUnresolved_tidy x decl.name span).bind fun _ s₁ tidy => ?_
    exact .after_fail (.pure (.failed (fun before => (tidy before).of_lookup rfl) (by simp)))
  | true =>
    refine .of_run (declareClass_root decl span root) ?_
    refine (warnIf_notes _ _ _ s).bind fun _ s₁ first => ?_
    refine (warnIf_notes _ _ _ s₁).bind fun _ s₂ second => ?_
    exact (named s₂).imp fun _ _ tracks => tracks.after_lookup ((first.trans second).lookup? x)

theorem recordReturn_tracks (value : Ty) (span : Span) :
    Gives (recordReturn value span) s fun _ s' => ∀ ok, s.Tracks x [[]] ok s' := by
  refine (recordReturn_outcome value span).imp fun _ s' outcome ok => ?_
  cases outcome with
  | recorded => exact .of_lookup rfl List.not_mem_nil
  | refused => exact .of_lookup rfl List.not_mem_nil

/-- Statements without arms have one route. -/
theorem PlainOutcome.tracks {stmt : Stmt} {checked : Stmt × Option Ty} {s' : Checker}
    (outcome : PlainOutcome s stmt checked s') :
    s.Tracks x stmt.routes (checked.2.isSome = true) s' := by
  have looks {e : Expr} {a : Expr × Option Ty} {s₁ s₂ : Checker}
      (looked : checkExpr e s₁ = .ok (a, s₂)) : s₂.lookup? x = s₁.lookup? x :=
    (checkExpr_notes e s₁ _ _ looked).lookup? x
  have finds {term : TypeTerm} {type : Option Ty} {s₁ : Checker}
      (found : resolveTerm term s = .ok (type, s₁)) : s₁.lookup? x = s.lookup? x :=
    (scoping.resolveTerm trivial s _ _ found).lookup? x
  cases outcome with
  | expr looked =>
    rw [Stmt.routes]
    exact .of_noted (checkExpr_notes _ _ _ _ looked)
  | defined looked stored =>
    rw [Stmt.routes]
    exact (defineNames_tracks x _ _ _ _ _ _ stored).after_lookup (looks looked)
  | undefined looked marked =>
    have tidy := defineAllUnresolved_tidy x _ _ _ _ marked
    exact .failed (fun before => tidy (before.of_lookup (looks looked))) (by simp)
  | announced found stored =>
    rw [Stmt.routes]
    have tracks := (define_never_tracks x _ _ _ _ _ _ stored).after_lookup (finds found)
    exact tracks.imp (by simp)
  | unannounced found marked =>
    have tidy := defineUnresolved_tidy x _ _ _ _ marked
    exact .failed (fun before => tidy (before.of_lookup (finds found))) (by simp)
  | declared found looked compared stored =>
    rw [Stmt.routes]
    have same := (scoping.expectType _ _ trivial _ _ _ compared).lookup? x
    have tracks := (define_always_tracks x _ _ _ _ _ _ stored).after_lookup
      (same.trans ((looks looked).trans (finds found)))
    exact tracks.imp fun accepted => (show _ ∧ _ by simpa using accepted).1
  | valueless found looked stored =>
    have tracks := (define_always_tracks x _ _ _ _ _ _ stored).after_lookup
      ((looks looked).trans (finds found))
    exact .failed tracks.tidy (by simp)
  | undeclared found looked marked =>
    have tidy := defineUnresolved_tidy x _ _ _ _ marked
    have same := (looks looked).trans (finds found)
    exact .failed (fun before => tidy (before.of_lookup same)) (by simp)
  | classDecl declared =>
    rw [Stmt.routes]
    exact declareClass_tracks x _ _ _ _ declared
  | methods => exact .failed (.of_lookup rfl) (by simp)
  | returnedNone recorded =>
    rw [Stmt.routes]
    exact recordReturn_tracks x _ _ _ _ recorded _
  | returned looked recorded =>
    rw [Stmt.routes]
    exact (recordReturn_tracks x _ _ _ _ recorded _).after_lookup (looks looked)
  | unreturned looked => exact .failed (.of_lookup (looks looked)) (by simp)

end Check

/-! ## Merging arms -/

namespace Arm

variable {arms : List Arm} {x : String}

theorem assigned_mem_states {b : Binding} (member : b ∈ bindingsOf arms x) :
    b.assigned ∈ states arms x := by
  obtain ⟨arm, listed, found⟩ := List.mem_filterMap.mp member
  refine List.mem_map.mpr ⟨arm, listed, ?_⟩
  rw [found]

/-- A name that no arm binds is assigned in none. -/
theorem states_never (nowhere : bindingsOf arms x = []) :
    ∀ state ∈ states arms x, state = .never := by
  intro state member
  obtain ⟨arm, listed, rfl⟩ := List.mem_map.mp member
  have missing : arm.bindings.find? x = none := by
    simpa using List.filterMap_eq_nil_iff.mp nowhere arm listed
  rw [missing]

end Arm

/-- What merging arms does to the name, where the arms give it the state. -/
structure Checker.Absorbs (arms : List Arm) (exhaustive : Bool) (x : String) (gain : Assigned)
    (ok : Prop) (s s' : Checker) : Prop where
  tidy : (∀ b ∈ Arm.bindingsOf arms x, b.assigned = .never → b.unresolved = false) →
    s.Tidy x → s'.Tidy x
  told : ok → (exhaustive = true → arms ≠ []) →
    (∀ b ∈ Arm.bindingsOf arms x, b.unresolved = false) → s.Resolved x →
      s'.Resolved x ∧ s'.assignment x = (s.assignment x).max gain

namespace Check

variable {s : Checker} (x : String) (arms : List Arm) (exhaustive : Bool) (span : Span)

/-- If the arms introduce a name without a value, none of their values for it failed. -/
theorem joinBindings_tidy {t : ClassTable} {first merged : Binding} {others : List Binding}
    {failure : Option JoinFailure} (inArms : Arm.bindingsOf arms x = first :: others)
    (joined : t.joinBindings
      { first with assigned := .afterArms exhaustive (Arm.states arms x) } others =
        .ok (merged, failure))
    (tidy : ∀ b ∈ Arm.bindingsOf arms x, b.assigned = .never → b.unresolved = false)
    (unset : merged.assigned = .never) : merged.unresolved = false := by
  have state := (joinBindings_assigned _ joined).symm.trans unset
  have listed : first ∈ Arm.bindingsOf arms x := inArms ▸ List.mem_cons_self
  have never := (Assigned.afterArms_eq_never fun _ =>
    List.ne_nil_of_mem (Arm.assigned_mem_states listed)).mp state
  have each (b : Binding) (member : b ∈ Arm.bindingsOf arms x) : b.unresolved = false :=
    tidy b member (never _ (Arm.assigned_mem_states member))
  refine joinBindings_resolved _ ?_ (fun b member => each b ?_) joined
  · exact each first listed
  · exact inArms ▸ List.mem_cons_of_mem _ member

theorem mergeName_absorbs :
    Gives (mergeName arms exhaustive span x) s fun result s' =>
      s.Absorbs arms exhaustive x (.afterArms exhaustive (Arm.states arms x))
        (result.isSome = true) s' := by
  have bound (s : Checker) (b : Binding) : (s.bind x b).lookup? x = some b := by
    rw [Checker.lookup?_bind, if_pos rfl]
  have state (s : Checker) (b : Binding) : (s.bind x b).assignment x = b.assigned := by
    simp [Checker.assignment, bound]
  refine (mergeName_outcome arms exhaustive span x).imp fun _ s' outcome => ?_
  cases outcome with
  | @outer b type found typed =>
    refine ⟨fun _ tidy b' found' never => ?_, fun _ _ _ resolved => ⟨fun b' found' => ?_, ?_⟩⟩
    · cases (bound _ _).symm.trans found'
      exact tidy b found (Assigned.max_eq_never.mp never).1
    · cases (bound _ _).symm.trans found'
      exact resolved b found
    · rw [state]
      simp [Checker.assignment, found]
  | absent free nowhere =>
    refine ⟨fun _ => id, fun _ real _ resolved => ⟨resolved, ?_⟩⟩
    have none : Assigned.afterArms exhaustive (Arm.states arms x) = .never := by
      refine (Assigned.afterArms_eq_never fun sure => ?_).mpr (Arm.states_never nowhere)
      exact fun empty => real sure (List.map_eq_nil_iff.mp empty)
    rw [none, Assigned.max_never]
  | @introduced first merged others free inArms joined =>
    have same := joinBindings_assigned _ joined
    refine ⟨fun tidy _ b' found' never => ?_, fun _ _ each _ => ⟨fun b' found' => ?_, ?_⟩⟩
    · cases (bound _ _).symm.trans found'
      exact joinBindings_tidy x arms exhaustive inArms joined tidy never
    · cases (bound _ _).symm.trans found'
      rw [inArms] at each
      obtain ⟨here, rest⟩ := List.forall_mem_cons.mp each
      refine joinBindings_resolved _ ?_ rest joined
      exact here
    · rw [state, same]
      simp [Checker.assignment, free]
  | @conflict first merged others failure free inArms joined problem =>
    refine ⟨fun tidy _ b' found' never => ?_, by simp⟩
    cases (bound _ _).symm.trans found'
    exact joinBindings_tidy x arms exhaustive inArms joined tidy never

/-- A merge takes on what is assigned in the arms, whichever name is asked for. -/
theorem mergeArms_absorbs :
    Gives (mergeArms arms exhaustive span) s fun result s' =>
      s.Absorbs arms exhaustive x (.afterArms exhaustive (Arm.states arms x))
        (result = some ()) s' := by
  refine (mergeArms_at x).imp fun result s' given => ?_
  cases given with
  | unbound nowhere same =>
    refine ⟨fun _ tidy => tidy.of_lookup same, fun _ real _ resolved => ?_⟩
    have never : Assigned.afterArms exhaustive (Arm.states arms x) = .never := by
      refine (Assigned.afterArms_eq_never fun sure => ?_).mpr (Arm.states_never nowhere)
      exact fun empty => real sure (List.map_eq_nil_iff.mp empty)
    rw [Checker.assignment_of_lookup same, never, Assigned.max_never]
    exact ⟨resolved.of_lookup same, rfl⟩
  | merged _ before ran after told =>
    have absorbs := mergeName_absorbs x arms exhaustive span _ _ ran
    refine ⟨fun each tidy => (absorbs.tidy each (tidy.of_lookup before)).of_lookup after, ?_⟩
    intro done real each resolved
    obtain ⟨resolved', state⟩ :=
      absorbs.told (told done ▸ rfl) real each (resolved.of_lookup before)
    rw [Checker.assignment_of_lookup after, state, Checker.assignment_of_lookup before]
    exact ⟨resolved'.of_lookup after, rfl⟩

end Check

/-! ## Statements -/

/-- The routes through a branching statement lead through its ways, or past them. -/
theorem Stmt.forall_mem_routes {stmt : Stmt} (branching : stmt.branching = true)
    {P : List String → Prop} : (∀ route ∈ stmt.routes, P route) ↔
      (stmt.exhaustive = false → P []) ∧ ∀ way ∈ stmt.ways,
        ∀ inner ∈ Stmt.routesOf way.2.body, P (inner.filter (· ∉ way.1)) := by
  constructor
  · intro all
    refine ⟨fun skipped => ?_, fun way listed inner member => ?_⟩
    · exact all [] ((mem_routes branching).mpr (.inl ⟨skipped, rfl⟩))
    · exact all _ ((mem_routes branching).mpr (.inr ⟨way, listed, inner, member, rfl⟩))
  · rintro ⟨skip, each⟩ route listed
    rcases (mem_routes branching).mp listed with ⟨skipped, rfl⟩ | ⟨way, taken, inner, member, rfl⟩
    · exact skip skipped
    · exact each way taken inner member

theorem Stmt.ways_ne_nil {stmt : Stmt} (sure : stmt.exhaustive = true) : stmt.ways ≠ [] := by
  match stmt with
  | .ifElse condition yes no span => simp [ways]
  | .switch subject cases (some otherwise) span => simp [ways]

theorem forall_mem_iff_of_forall₂ {α β : Type} {R : α → β → Prop} {P : α → Prop} {Q : β → Prop}
    {as : List α} {bs : List β} (each : List.Forall₂ R as bs)
    (agree : ∀ a ∈ as, ∀ b ∈ bs, R a b → (P a ↔ Q b)) : (∀ a ∈ as, P a) ↔ ∀ b ∈ bs, Q b := by
  constructor
  · intro all b listed
    obtain ⟨a, listed', related⟩ := exists_left_of_forall₂ each listed
    exact (agree a listed' b listed related).mp (all a listed')
  · intro all a listed
    obtain ⟨b, listed', related⟩ := exists_right_of_forall₂ each listed
    exact (agree a listed b listed' related).mpr (all b listed')

namespace ArmEnd

variable {x : String} {s : Checker} {source : Block} {e : ArmEnd}

theorem find?_eq (e : ArmEnd) (x : String) :
    e.arm.bindings.find? x = if x ∈ e.hidden then none else e.last.lookup? x := by
  apply Option.ext
  intro b
  rw [find?_arm]
  split <;> simp_all

/-- The state of the name that is merged of the arm. -/
def state (e : ArmEnd) (x : String) : Assigned :=
  if x ∈ e.hidden then .never else e.last.assignment x

/-- What the arms say about a name is what was assigned at their ends, if they do not hide it. -/
theorem states_eq (ends : List ArmEnd) (x : String) :
    Arm.states (ends.map (·.arm)) x = ends.map (·.state x) := by
  unfold Arm.states
  rw [List.map_map]
  refine List.map_congr_left fun e _ => ?_
  simp only [Function.comp_apply, find?_eq, state, Checker.assignment]
  by_cases hidden : x ∈ e.hidden
  · simp [hidden]
  · cases e.last.lookup? x <;> simp [hidden]

/-- In an arm that shows the name the routes are those of its block. -/
theorem Of.tracks (of : e.Of s source) (shown : x ∉ e.hidden)
    (inside : ∀ s, Check.Gives (Check.checkBlock source) s fun checked s' =>
      s.Tracks x (Stmt.routesOf source.body) (checked.2 = true) s') :
    s.Tracks x (Stmt.routesOf source.body) (e.ok = true) e.last := by
  obtain ⟨base, start, mid, ok, ran⟩ := of
  have opened : start.lookup? x = s.lookup? x :=
    (ran.opened.others x shown).trans (ran.reached.lookup? x)
  have tracks := inside start _ _ ran.ran
  exact ((tracks.after_lookup opened).then_lookup (ran.noted.lookup? x)).imp ran.passed

/-- The arm assigns the name on all routes through its block or on none, unless that is
settled before it. -/
theorem Of.state_along {way : List String × Block} (of : e.Of s way.2) (same : way.1 = e.hidden)
    (passed : e.ok = true) (resolved : s.Resolved x)
    (inside : ∀ s, Check.Gives (Check.checkBlock way.2) s fun checked s' =>
      s.Tracks x (Stmt.routesOf way.2.body) (checked.2 = true) s') :
    (s.assignment x ≠ .always → (e.state x = .always ↔
      ∀ inner ∈ Stmt.routesOf way.2.body, x ∈ inner.filter (· ∉ way.1))) ∧
    (s.assignment x = .never → (e.state x = .never ↔
      ∀ inner ∈ Stmt.routesOf way.2.body, x ∉ inner.filter (· ∉ way.1))) := by
  obtain ⟨route, listed⟩ := List.exists_mem_of_ne_nil _ (Stmt.routesOf_ne_nil way.2.body)
  simp only [List.mem_filter, decide_eq_true_eq, same]
  by_cases hidden : x ∈ e.hidden
  · simp only [state, if_pos hidden, reduceCtorEq, false_iff, true_iff]
    exact ⟨fun _ all => (all route listed).2 hidden, fun _ inner _ here => here.2 hidden⟩
  · obtain ⟨_, along⟩ := (of.tracks hidden inside).told passed resolved
    simp only [state, hidden, if_false, not_false_eq_true, and_true]
    exact ⟨fun unsettled => along.always.trans (or_iff_right unsettled),
      fun unset => along.never.trans (and_iff_right unset)⟩

end ArmEnd

namespace Stmt.Walks

variable {x : String} {stmt : Stmt} {s s' s₁ : Checker} {checked : Stmt × Option Ty}
  {ends : List ArmEnd} {merged : Option Unit} (walks : stmt.Walks s checked s' ends s₁ merged)
include walks

/-- The arms of a statement that went well, with the blocks that they are of. -/
theorem paired (bare : checked.1.bare = stmt.bare) (accepted : checked.2.isSome = true) :
    List.Forall₂ (fun way e => way.1 = e.hidden ∧ e.Of s way.2) stmt.ways ends := by
  have blocks := walks.matched accepted
  rw [← stmt.map_ways, List.forall₂_map_left_iff] at blocks
  have names : stmt.ways.map (·.1) = ends.map (·.hidden) := by
    have ways := congrArg (·.ways.map (·.1)) bare
    simpa [Stmt.ways_bare, (walks.passed accepted).1, Function.comp_def, ArmEnd.way] using ways.symm
  rw [← List.forall₂_eq_eq_eq, List.forall₂_map_left_iff, List.forall₂_map_right_iff] at names
  exact names.mp (fun _ _ same of => ⟨same, of⟩) blocks

/-- A branching statement tracks a name along its routes, if its blocks do. -/
theorem tracks (branching : stmt.branching = true) (bare : checked.1.bare = stmt.bare)
    (inside : ∀ source ∈ stmt.arms, ∀ s, Check.Gives (Check.checkBlock source) s
      fun checked s' => s.Tracks x (Stmt.routesOf source.body) (checked.2 = true) s') :
    s.Tracks x stmt.routes (checked.2.isSome = true) s' := by
  have absorbs := Check.mergeArms_absorbs x _ _ _ _ _ walks.merges
  -- what is merged of the name comes from an arm that shows it
  have shown (b : Binding) (member : b ∈ Arm.bindingsOf (ends.map (·.arm)) x) :
      ∃ e ∈ ends, e.last.lookup? x = some b ∧ ∃ source,
        s.Tracks x (Stmt.routesOf source) (e.ok = true) e.last := by
    obtain ⟨arm, listed, found⟩ := List.mem_filterMap.mp member
    obtain ⟨e, inEnds, rfl⟩ := List.mem_map.mp listed
    obtain ⟨shown, last⟩ := ArmEnd.find?_arm.mp found
    obtain ⟨source, inArms, of⟩ := walks.source inEnds
    exact ⟨e, inEnds, last, _, of.tracks shown (inside source inArms)⟩
  have before := walks.noted.lookup? x
  constructor
  · intro tidy
    refine absorbs.tidy (fun b member => ?_) (tidy.of_lookup before)
    obtain ⟨e, _, last, _, tracks⟩ := shown b member
    exact tracks.tidy tidy b last
  · intro accepted resolved
    obtain ⟨_, done, passed⟩ := walks.passed accepted
    have each := walks.paired bare accepted
    have arms (b : Binding) (member : b ∈ Arm.bindingsOf (ends.map (·.arm)) x) :
        b.unresolved = false := by
      obtain ⟨e, inEnds, last, _, tracks⟩ := shown b member
      exact (tracks.told (passed e inEnds) resolved).1 b last
    have real (sure : stmt.exhaustive = true) : ends ≠ [] := by
      intro empty
      rw [empty, List.forall₂_nil_right_iff] at each
      exact ways_ne_nil sure each
    obtain ⟨resolved', state⟩ := absorbs.told done (fun sure empty =>
      real sure (List.map_eq_nil_iff.mp empty)) arms (resolved.of_lookup before)
    refine ⟨resolved', ?_⟩
    rw [Checker.assignment_of_lookup before, ArmEnd.states_eq] at state
    have along (way) (listed : way ∈ stmt.ways) (e) (inEnds : e ∈ ends)
        (related : way.1 = e.hidden ∧ e.Of s way.2) := related.2.state_along (x := x) related.1
      (passed e inEnds) resolved (inside way.2 (stmt.map_ways ▸ List.mem_map_of_mem listed))
    constructor
    · rw [state, Assigned.max_eq_always, Assigned.afterArms_eq_always]
      by_cases settled : s.assignment x = .always
      · simp [settled]
      · rw [or_iff_right settled, or_iff_right settled, forall_mem_routes branching,
          List.forall_mem_map]
        apply and_congr
        · cases stmt.exhaustive <;> simp
        · refine (forall_mem_iff_of_forall₂ each fun way listed e inEnds related => ?_).symm
          exact ((along way listed e inEnds related).1 settled).symm
    · rw [state, Assigned.max_eq_never, forall_mem_routes branching]
      apply and_congr_right
      intro unset
      rw [Assigned.afterArms_eq_never fun sure empty => real sure (List.map_eq_nil_iff.mp empty),
        List.forall_mem_map]
      simp only [List.not_mem_nil, not_false_eq_true, implies_true, true_and]
      refine (forall_mem_iff_of_forall₂ each fun way listed e inEnds related => ?_).symm
      exact ((along way listed e inEnds related).2 unset).symm

end Stmt.Walks

namespace Check

variable (x : String)

theorem checkStmts_tracks_of {stmts : List Stmt}
    (each : ∀ stmt ∈ stmts, ∀ s, Gives (checkStmt stmt) s fun checked s' =>
      s.Tracks x stmt.routes (checked.2.isSome = true) s') (s : Checker) :
    Gives (checkStmts stmts) s fun checked s' =>
      s.Tracks x (Stmt.routesOf stmts) (checked.2 = true) s' := by
  induction stmts generalizing s with
  | nil =>
    rw [checkStmts, Stmt.routesOf]
    exact .pure (.of_lookup rfl List.not_mem_nil)
  | cons stmt stmts ih =>
    obtain ⟨first, others⟩ := List.forall_mem_cons.mp each
    rw [checkStmts, Stmt.routesOf]
    refine (first s).bind fun (stmt', type) s₁ tracks => ?_
    refine (ih others s₁).bind fun (stmts', ok) s₂ tracks' => .pure ?_
    have both := tracks.inTurn tracks' stmt.routes_ne_nil (Stmt.routesOf_ne_nil stmts)
    exact both.imp Bool.and_eq_true_iff.mp

/-- By induction on the arms: a statement tracks each name along its routes. -/
theorem checkStmt_tracks (stmt : Stmt) (s : Checker) :
    Gives (checkStmt stmt) s fun checked s' =>
      s.Tracks x stmt.routes (checked.2.isSome = true) s' := by
  induction stmt using Stmt.induction generalizing s with
  | step stmt ih =>
    cases branching : stmt.branching with
    | false => exact (checkStmt_plain branching).imp fun _ _ outcome => outcome.tracks x
    | true =>
      refine ((checkStmt_walks stmt branching).and (checkStmt_bare stmt s)).imp ?_
      rintro checked s' ⟨⟨ends, s₁, merged, walks⟩, bare⟩
      refine walks.tracks branching bare fun source inArms s => ?_
      have body := checkStmts_tracks_of x (ih source inArms) s
      refine (checkBlock_stmts source).imp fun checked s' ran => ?_
      exact body _ _ ran

theorem checkStmts_tracks (stmts : List Stmt) (s : Checker) :
    Gives (checkStmts stmts) s fun checked s' =>
      s.Tracks x (Stmt.routesOf stmts) (checked.2 = true) s' :=
  checkStmts_tracks_of x (fun stmt _ => checkStmt_tracks x stmt) s

end Check

/-! ## Everything that a check comes across -/

namespace Checker

variable {s : Checker} {x : String}

theorem Tidy.bound (tidy : s.Tidy x) (params : List Param) (types : List Ty) :
    (Check.bound s params types).Tidy x := by
  unfold Check.bound
  induction params.zip types generalizing s with
  | nil => exact tidy
  | cons pair pairs ih => exact ih (tidy.bind rfl)

end Checker

namespace Check

variable {s : Checker} {x : String}

theorem typePattern_tidy (subject : Ty) (name : String) (term : TypeTerm) (span : Span) :
    Gives (typePattern subject name term span) s fun _ s' => s.Tidy x → s'.Tidy x := by
  refine (scoping.resolveTerm trivial s).bind fun pattern s₁ noted => ?_
  cases pattern with
  | none => exact .pure (.of_lookup (noted.lookup? x))
  | some pattern =>
    refine (scoping.narrows pattern subject s₁).bind fun accepted s₂ noted' => ?_
    have same := (noted.trans noted').lookup? x
    cases accepted with
    | false => exact .after_fail (.pure (.of_lookup same))
    | true => exact .after_modify (.pure fun tidy => (tidy.of_lookup same).bind rfl)

theorem checkPattern_tidy (subject : Ty) (span : Span) (pattern : Pattern) :
    Gives (checkPattern subject span pattern) s fun _ s' => s.Tidy x → s'.Tidy x := by
  cases pattern with
  | type name term =>
    rw [checkPattern]
    exact (typePattern_tidy subject name term span).bind fun _ _ tidy => .pure tidy
  | value e =>
    refine (checkPattern_opened subject span (.value e)).imp fun _ _ ⟨_, opened, _⟩ => ?_
    exact .of_lookup (opened.others x List.not_mem_nil)

end Check

open Check in
/-- Whenever a check comes across some code, each name is tidy. -/
theorem Program.Meets.tidy {p : Program} {w : Bool} {code : Code} {s : Checker}
    (met : p.Meets w code s) (x : String) : s.Tidy x := by
  have noted {s s' : Checker} (tidy : s.Tidy x) (noted : s.Noted s') : s'.Tidy x :=
    tidy.of_lookup (noted.lookup? x)
  have enter {s : Checker} (kind : FrameKind) (tidy : s.Tidy x) : (s.enter kind).Tidy x := tidy
  induction met with
  | start initial =>
    obtain ⟨start, initial', _, fresh⟩ := Checker.initial_ok w
    cases initial'.symm.trans initial
    exact fun b found _ => (fresh.bindings x b found).1
  | first _ ih => exact ih
  | next _ ran ih => exact (checkStmt_tracks x _ _ _ _ ran).tidy ih
  | inside _ leads ih =>
    cases leads with
    | value _ later => exact noted ih later
    | branch _ later => exact enter _ (noted ih later)
    | repeated ran =>
      have body := checkBlock_stmts _ _ _ ran
      exact (checkStmts_tracks x _ _ _ _ body).tidy (enter _ ih)
    | pattern _ _ later => exact enter _ (noted ih later)
    | case _ looked later matched =>
      have opened := enter .branch (noted (noted ih (checkExpr_notes _ _ _ _ looked)) later)
      exact checkPattern_tidy _ _ _ _ _ matched opened
  | part _ _ later ih => exact noted ih later
  | body _ taken promised ih =>
    have before := noted (noted ih (scoping.resolveTerms (fun _ _ => trivial) _ _ _ taken))
      (scoping.resolveResult (fun _ _ => trivial) _ _ _ promised)
    exact (enter _ before).bound _ _

open Check in
/-- A name whose value failed counts as assigned wherever a check comes. From any checker where
that holds and the name has not been assigned, code that goes well leaves the name assigned on
all paths if every route through the code assigns it, on some if some do, and on none if none
does. -/
theorem Program.assigned_along_routes (x : String) :
    (∀ p w code s, Program.Meets p w code s → s.Tidy x) ∧
    ∀ (stmts checked : List Stmt) (s s' : Checker), s.Tidy x → s.assignment x = .never →
      checkStmts stmts s = .ok ((checked, true), s') →
      (s'.assignment x = .always ↔ ∀ route ∈ Stmt.routesOf stmts, x ∈ route) ∧
      (s'.assignment x = .sometimes ↔
        (∃ route ∈ Stmt.routesOf stmts, x ∈ route) ∧ ∃ route ∈ Stmt.routesOf stmts, x ∉ route) ∧
      (s'.assignment x = .never ↔ ∀ route ∈ Stmt.routesOf stmts, x ∉ route) := by
  refine ⟨fun p w code s met => met.tidy x, fun stmts checked s s' tidy unset ran => ?_⟩
  have tracks := checkStmts_tracks x stmts s _ _ ran
  obtain ⟨_, along⟩ := tracks.told rfl (tidy.resolved unset)
  have always := along.always
  have never := along.never
  rw [unset] at always never
  simp only [reduceCtorEq, false_or, true_and] at always never
  refine ⟨always, ?_, never⟩
  have neither : s'.assignment x = .sometimes ↔
      ¬ s'.assignment x = .never ∧ ¬ s'.assignment x = .always := by
    cases s'.assignment x <;> simp
  rw [neither, always, never]
  simp only [not_forall, not_not, exists_prop]

/-- `x` is assigned in all arms, `y` in a loop, and `z` only where it is the name of a pattern. -/
def Stmt.mixedRoutes : List Stmt :=
  let int : TypeTerm := .named "int" [] .null
  let number (n : Int) : Expr := .literal (.int n) ⟨.null, none, none⟩
  let truth : Expr := .literal (.bool true) ⟨.null, none, none⟩
  let set (x : String) (n : Int) : Stmt := .define [x] (number n) false .null
  [.declare "x" int none false .null,
    .ifElse truth ⟨[set "x" 1, .whileLoop truth ⟨[set "y" 2], .null⟩ .null], .null⟩
      (some ⟨[.switch (number 3)
        [⟨.type "z" int, ⟨[set "z" 4, set "x" 5], .null⟩, .null⟩]
        (some ⟨[set "x" 6], .null⟩) .null], .null⟩) .null]

open Check in
theorem Program.assigned_along_routes_mixedRoutes : ∃ s checked s',
    Program.Meets ⟨Stmt.mixedRoutes, .null⟩ false (.stmts Stmt.mixedRoutes) s ∧
    (∀ x ∈ ["x", "y", "z"], s.assignment x = .never) ∧
    checkStmts Stmt.mixedRoutes s = .ok ((checked, true), s') ∧
    s'.assignment "x" = .always ∧ s'.assignment "y" = .sometimes ∧
    s'.assignment "z" = .never := by
  obtain ⟨s, reached, computed⟩ := Program.reach_of_any false []
    (fun s => (["x", "y", "z"].all fun x => s.assignment x == .never) &&
      (checkStmts Stmt.mixedRoutes s).toOption.any (·.1.2)) (by decide +kernel)
  have met : Program.Meets ⟨Stmt.mixedRoutes, .null⟩ false (.stmts Stmt.mixedRoutes) s :=
    .of_reach rfl reached
  simp only [Bool.and_eq_true, List.all_eq_true, beq_iff_eq] at computed
  obtain ⟨unset, accepted⟩ := computed
  rcases ran : checkStmts Stmt.mixedRoutes s with fault | ⟨⟨checked, ok⟩, s'⟩
  · simp [ran, Except.toOption] at accepted
  · obtain rfl : ok = true := by simpa [ran, Except.toOption] using accepted
    have along (x : String) (listed : x ∈ ["x", "y", "z"]) :=
      (Program.assigned_along_routes x).2 _ checked s s'
        ((Program.assigned_along_routes x).1 _ _ _ s met) (unset x listed) ran
    exact ⟨s, checked, s', met, unset, ran, (along "x" (by simp)).1.mpr (by decide),
      (along "y" (by simp)).2.1.mpr (by decide), (along "z" (by simp)).2.2.mpr (by decide)⟩

end ShapeLang
