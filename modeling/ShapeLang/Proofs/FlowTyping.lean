import ShapeLang.Proofs.DefiniteAssignment
import ShapeLang.Proofs.Stored
import ShapeLang.Proofs.Transitivity

/-!
# Reads of variables that hold instances

The type that a read of a variable returns, if it is that of the instances of a class,
covers what was stored last in the variable on the path to the read. The checker agrees
with what the variables hold: an expression finds this when it is evaluated and a
statement keeps it, on whichever way a path leads through it.
-/

namespace ShapeLang

/-- If the read returned the type of instances of a class, the value that the name holds stands
for it. -/
def Sight.Typed (t : ClassTable) (r : Sight) : Prop :=
  ∀ name id generics, r.type = some (.object name id generics) →
    ∀ held, r.held = some (.value held) → ∃ stored, held = some stored ∧
      t.compare stored (.object name id generics) = .ok (.ok ())

/-- Only a compound assignment to a variable stores something. -/
theorem Expr.stores_cases (e : Expr) (t : ClassTable) : e.stores t = [] ∨
    ∃ name target operator right note, e = .binary (.symbol name target) operator right note ∧
      operator.kind.isCompoundAssignment = true := by
  unfold stores
  split
  · rename_i name target operator right note
    by_cases compound : operator.kind.isCompoundAssignment = true
    · exact .inr ⟨name, target, operator, right, note, rfl, compound⟩
    · exact .inl (if_neg compound)
  · exact .inl rfl

theorem ClassTable.operatorResult?_eq_some {t : ClassTable} {type : Ty} {field : String}
    {index : Nat} {id : ClassId} {c : Class} {overloads : List Overload} {o : Overload}
    (object : type.objectClass? = some id) (got : t.get id = .ok c)
    (found : c.fields.find? field = some (.func overloads)) (chosen : overloads[index]? = some o) :
    t.operatorResult? (some type) field (some index) = some o.result := by
  simp [operatorResult?, object, got, found, chosen, Ty.overloads?, Except.toOption]

/-- How the body of a function is checked where the function is made: with its parameters
bound, and well. -/
structure Checker.Calls (s : Checker) (params : List Param) (body : Block)
    (start s' : Checker) : Prop where
  ran : ∃ source, Check.checkBlock source start = .ok ((body, true), s')
  sound : ∀ n, s.Sound n → start.Sound n
  classes : start.classes = s.classes
  kept : s'.classes = s.classes
  others : ∀ name, name ∉ params.map (·.name) → start.lookup? name = s.lookup? name

namespace Check

variable {s : Checker}

/-! ## Expressions -/

/-- A name that is read with success is bound, assigned on all paths, and noted with its type. -/
theorem checkExpr_symbol (name : String) (note : Note) :
    Gives (checkExpr (.symbol name note)) s fun checked _ => ∀ type, checked.2 = some type →
      ∃ b, s.lookup? name = some b ∧ b.unresolved = false ∧ b.assigned = .always ∧
        b.type = type := by
  rw [checkExpr]
  refine (read_outcome name note.span).bind fun result s₁ outcome => .pure ?_
  cases outcome with
  | assigned found resolved always =>
    rintro type ⟨⟩
    exact ⟨_, found, resolved, always, rfl⟩
  | silent => nofun
  | refused => nofun

theorem member_found (receiver : Ty) (name : String) (span : Span) :
    Gives (member receiver name span) s fun result _ => ∀ type, result = some type →
      ∃ id c, receiver.objectClass? = some id ∧ s.classes.get id = .ok c ∧
        c.fields.find? name = some type := by
  unfold member
  split
  · exact .after_modify (.pure nofun)
  · rename_i id object
    refine .after_get (.after_lift fun c got => ?_)
    split
    · rename_i field found
      refine .pure fun type same => ?_
      cases same
      exact ⟨id, c, object, got, found⟩
    · exact .after_modify (.pure nofun)

/-- A call of a field gives what the overload with its index gives, also when there are more
classes. -/
theorem callMember_result (receiver : Ty) (name : String) (arguments : List Ty) (span : Span) :
    Gives (callMember receiver name arguments span) s fun result s' => s.Noted s' ∧
      ∀ chosen, result = some chosen → ∀ t, s.classes.Precedes t →
        t.operatorResult? (some receiver) name (some chosen.1) = some chosen.2 := by
  refine .and (scoping.callMember receiver name arguments trivial s) ?_
  unfold callMember
  refine (member_found receiver name span).bind fun field s₁ known => ?_
  cases field with
  | none => exact .pure nofun
  | some field =>
    obtain ⟨id, c, object, got, found⟩ := known field rfl
    cases field with
    | func overloads =>
      refine (call_index name overloads arguments span s₁).imp fun result _ index => ?_
      intro chosen same t precedes
      obtain ⟨o, listed, gives⟩ := index chosen same
      rw [← gives]
      exact ClassTable.operatorResult?_eq_some object
        (ClassTable.get_prolonged precedes.classes got) found listed
    | _ => exact .after_modify (.pure nofun)

/-- A compound assignment is accepted if the chosen overload returns something that fits the
left side's type. -/
theorem binaryType_assigns (operator : Token) (left right : Ty) (leftSpan rightSpan span : Span)
    (compound : operator.kind.isCompoundAssignment = true) :
    Gives (binaryType operator left right leftSpan rightSpan span) s fun result _ =>
      result.2.isSome = true → ∀ t, s.classes.Precedes t → ∃ value,
        t.operatorResult? (some left) operator.operatorField result.1 = some value ∧
          s.classes.compare value left = .ok (.ok ()) := by
  unfold binaryType
  split
  · rename_i kind
    rw [kind] at compound
    cases compound
  · rename_i kind
    rw [kind] at compound
    cases compound
  · refine (callMember_result left _ [right] span).bind ?_
    rintro result s₁ ⟨noted, known⟩
    cases result with
    | none => exact .pure (by simp)
    | some result =>
      simp only [compound, if_true]
      refine (expectType_outcome result.2 left span).bind fun fitting s₂ outcome => ?_
      cases outcome with
      | refused => exact .pure (by simp)
      | fits compared =>
        refine .pure fun _ t precedes => ⟨result.2, known result rfl t precedes, ?_⟩
        rw [← noted.classes]
        exact compared

/-- In an accepted compound assignment the noted overload returns something that fits the type
noted on the left. -/
theorem checkExpr_assigns (left : Expr) (operator : Token) (right : Expr) (note : Note)
    (compound : operator.kind.isCompoundAssignment = true) :
    Gives (checkExpr (.binary left operator right note)) s fun checked _ =>
      checked.2.isSome = true → ∃ left' right' note',
        checked.1 = .binary left' operator right' note' ∧
          ∀ t, s.classes.Precedes t → ∃ type value, left'.note.type = some type ∧
            t.operatorResult? (some type) operator.operatorField note'.overload = some value ∧
              s.classes.compare value type = .ok (.ok ()) := by
  rw [checkExpr]
  refine ((checkExpr_notes left s).and (checkExpr_note left s)).bind ?_
  rintro ⟨left', leftType⟩ s₁ ⟨noted, filled⟩
  refine (checkExpr_notes right s₁).bind ?_
  rintro ⟨right', rightType⟩ s₂ noted'
  have classes := (noted.trans noted').classes
  rcases leftType with _ | leftType <;> rcases rightType with _ | rightType
  case some.some =>
    refine (binaryType_assigns operator leftType rightType _ _ _ compound).bind ?_
    rintro ⟨overload, type⟩ s₃ given
    refine .pure fun typed => ⟨left', right', _, rfl, fun t precedes => ?_⟩
    obtain ⟨value, result, compared⟩ := given typed t (classes ▸ precedes)
    exact ⟨leftType, value, filled, result, classes ▸ compared⟩
  all_goals exact .pure nofun

/-- An accepted function was checked with its parameters bound, and its body went well. -/
theorem checkExpr_calls (generics : List String) (params : List Param)
    (result : Option TypeTerm) (body : Block) (note : Note) :
    Gives (checkExpr (.function generics params result body note)) s fun checked _ =>
      checked.2.isSome = true → ∃ body' note' start s',
        checked.1 = .function generics params result body' note' ∧
          s.Calls params body' start s' := by
  refine (checkExpr_made generics params result body note).imp fun checked _ made some_ => ?_
  obtain ⟨type, same⟩ := Option.isSome_iff_exists.mp some_
  obtain ⟨types, declared, before, body', last, whole, made⟩ := made type same
  obtain ⟨s₁, taken, promised⟩ := made.annotated
  have opened := Checker.Advanced.bound (before.enter (.function declared)) params types
  refine ⟨body', _, _, last, whole, ⟨body, made.ran⟩, fun n sound => ?_,
    (opened.classes rfl).trans made.noted.classes, made.left.classes.trans made.noted.classes,
    fun name apart => ?_⟩
  · obtain ⟨sound₁, known⟩ := (resolveTerms_delivers sound_informed _).of_ran sound taken
    obtain ⟨sound₂, given⟩ := (resolveResult_delivers result).of_ran sound₁ promised
    exact (sound₂.enterFunction (given declared rfl)).bound params
      fun type listed => (known _ rfl type listed).known
  · exact (lookup?_bound _ params types apart).trans (made.noted.lookup? name)

theorem checkStmts_nil {sources : List Stmt} {ok : Bool} {s' : Checker}
    (ran : checkStmts sources s = .ok (([], ok), s')) : s' = s := by
  cases sources with
  | nil =>
    rw [checkStmts] at ran
    cases ran
    rfl
  | cons source sources =>
    have nonempty : Gives (checkStmts (source :: sources)) s fun checked _ => checked.1 ≠ [] := by
      rw [checkStmts]
      exact Gives.any.bind fun _ _ _ => Gives.any.bind fun _ _ _ => .pure nofun
    exact absurd rfl (nonempty _ _ ran)

/-- Of accepted statements, the first was accepted and the others were from where it has led to. -/
theorem checkStmts_cons {sources : List Stmt} {stmt : Stmt} {stmts : List Stmt} {s' : Checker}
    (ran : checkStmts sources s = .ok ((stmt :: stmts, true), s')) : ∃ source rest type s₁,
      sources = source :: rest ∧ checkStmt source s = .ok ((stmt, some type), s₁) ∧
        checkStmts rest s₁ = .ok ((stmts, true), s') := by
  cases sources with
  | nil =>
    rw [checkStmts] at ran
    cases ran
  | cons source rest =>
    have steps : Gives (checkStmts (source :: rest)) s fun checked s' => ∃ stmt type s₁ stmts ok,
        checkStmt source s = .ok ((stmt, type), s₁) ∧ checkStmts rest s₁ = .ok ((stmts, ok), s') ∧
          checked = (stmt :: stmts, type.isSome && ok) := by
      rw [checkStmts]
      refine Gives.bind (fun _ _ run => run) fun (stmt, type) s₁ first => ?_
      refine Gives.bind (fun _ _ run => run) fun (stmts, ok) s₂ others => .pure ?_
      exact ⟨stmt, type, s₁, stmts, ok, first, others, rfl⟩
    obtain ⟨_, type, s₁, _, ok, first, others, same⟩ := steps _ _ ran
    cases type with
    | none => cases same
    | some type =>
      cases ok with
      | false => cases same
      | true =>
        cases same
        exact ⟨source, rest, type, s₁, rfl, first, others⟩

end Check

namespace Checker

variable {t : ClassTable} {s s₁ : Checker} {m : Memory} {e : Expr} {name : String} {note : Note}

namespace Evaluates

theorem parts (evaluates : s.Evaluates e) : ∀ part ∈ e.parts, s.Evaluates part := by
  obtain ⟨source, s₁, type, s₂, alike, ran⟩ := evaluates
  intro part listed
  have each := (Check.checkExpr_parts source _ s₂ ran rfl).2
  obtain ⟨_, _, checks⟩ := exists_left_of_forall₂ each listed
  exact checks.evaluates.of_alike alike

/-- A name that evaluates is bound, and its note is the type that it is bound with. -/
theorem symbol (evaluates : s.Evaluates (.symbol name note)) : ∃ b, s.lookup? name = some b ∧
    b.unresolved = false ∧ b.assigned = .always ∧ note.type = some b.type := by
  obtain ⟨source, s₁, type, s₂, alike, ran⟩ := evaluates
  obtain ⟨_, rfl⟩ := Expr.bare_eq_symbol (Check.checkExpr_bare source s₁ _ _ ran).symm
  obtain ⟨b, found, resolved, always, rfl⟩ := Check.checkExpr_symbol _ _ _ _ ran _ rfl
  have filled := Check.checkExpr_note _ s₁ _ _ ran
  rw [alike.lookup?] at found
  exact ⟨b, found, resolved, always, filled⟩

/-- A function that evaluates had its body checked with the parameters bound. -/
theorem calls {generics : List String} {params : List Param} {result : Option TypeTerm}
    {body : Block} (evaluates : s.Evaluates (.function generics params result body note)) :
    ∃ start s', s.Calls params body start s' := by
  obtain ⟨source, s₁, type, s₂, alike, ran⟩ := evaluates
  obtain ⟨_, _, rfl, _⟩ := Expr.bare_eq_function (Check.checkExpr_bare source s₁ _ _ ran).symm
  obtain ⟨_, _, start, s', checked, calls⟩ := Check.checkExpr_calls _ _ _ _ _ _ _ ran rfl
  cases checked
  refine ⟨start, s', calls.ran, fun n sound => calls.sound n (alike.sound n sound),
    calls.classes.trans alike.classes, calls.kept.trans alike.classes, fun name apart => ?_⟩
  exact (calls.others name apart).trans (alike.lookup? name)

/-- What a compound assignment stores was compared with the type of the variable. -/
theorem moves (evaluates : s.Evaluates e) (precedes : s.classes.Precedes t) :
    s.Moves t (e.stores t) s := by
  rcases e.stores_cases t with none_ | ⟨name, target, operator, right, note, rfl, compound⟩
  · rw [none_]
    exact .of_lookup fun _ => rfl
  · obtain ⟨b, found, _, _, typed⟩ := (evaluates.parts _ List.mem_cons_self).symbol
    obtain ⟨source, s₁, type, s₂, alike, ran⟩ := evaluates
    obtain ⟨_, _, _, rfl⟩ := Expr.bare_eq_binary (Check.checkExpr_bare source s₁ _ _ ran).symm
    obtain ⟨_, _, _, checked, assigns⟩ := Check.checkExpr_assigns _ _ _ _ compound _ _ ran rfl
    cases checked
    rw [alike.classes] at assigns
    obtain ⟨type, value, typed', result, compared⟩ := assigns t precedes
    cases typed.symm.trans typed'
    rw [Expr.stores, if_pos compound, typed, result]
    refine .assign fun id firm => ?_
    obtain ⟨b', found', _, _, object⟩ := firm
    cases found.symm.trans found'
    obtain ⟨own, instance_, related⟩ := ClassTable.compare_object compared object
    exact ⟨value, own, rfl, instance_, precedes.isA_mono related⟩

end Evaluates

/-- The checker agrees with what the variables hold, and its classes are among those of the
table. -/
structure Ready (t : ClassTable) (s : Checker) (m : Memory) : Prop where
  sound : ∃ n, s.Sound n
  precedes : s.classes.Precedes t
  agrees : s.Agrees t m

/-- An expression that evaluates reads values that stand for the types noted, if the checker
agrees with what the variables hold. -/
theorem Evaluates.typed (evaluates : s.Evaluates e) (ready : s.Ready t m) :
    ∀ r ∈ e.sights m, r.Typed t := by
  cases e with
  | symbol name note =>
    refine List.forall_mem_singleton.mpr ?_
    intro shown id generics same held found
    obtain ⟨b, bound, resolved, always, typed⟩ := evaluates.symbol
    obtain ⟨n, sound⟩ := ready.sound
    have known := sound.lookup? bound
    have object : b.type = .object shown id generics := Option.some.inj (typed.symm.trans same)
    rw [object] at known
    obtain ⟨⟨own, rfl, _⟩, _⟩ := Ty.over_object.mp known
    have firm : s.Firm name own := ⟨b, bound, resolved, always, object ▸ rfl⟩
    exact (ready.agrees name own firm held found).compare rfl
  | construct => exact List.forall_mem_singleton.mpr nofun
  | _ => exact nofun

/-- Parameters may hold anything, so a checker that was ready outside of the function is ready
in it. -/
theorem Ready.calls {params : List Param} {body : Block} {start s' : Checker}
    (ready : s.Ready t m) (calls : s.Calls params body start s') :
    start.Ready t (.given (params.map (·.name)) ++ m) := by
  obtain ⟨n, sound⟩ := ready.sound
  refine ⟨⟨n, calls.sound n sound⟩, calls.classes ▸ ready.precedes, ?_⟩
  exact ready.agrees.moves (.given calls.others)

end Checker

/-! ## Flows -/

/-- What a flow may rely on: from a checker that is ready for what the variables hold at the
start, code that came of a check which went well reads as noted, and leads to a checker that
agrees with what they hold at the end, if the flow gets there. -/
def Code.Keeps (t : ClassTable) (code : Code) (m : Memory) (sights : List Sight) (m' : Memory)
    (exit : Exit) : Prop :=
  match code with
  | .expr e => ∀ s : Checker, s.Ready t m → s.Evaluates e →
      (∀ r ∈ sights, r.Typed t) ∧ s.Agrees t m'
  | .exprs es => ∀ s : Checker, s.Ready t m → (∀ e ∈ es, s.Evaluates e) →
      (∀ r ∈ sights, r.Typed t) ∧ s.Agrees t m'
  | .stmt node => ∀ (source : Stmt) (s s' : Checker) (type : Ty), s.Ready t m →
      Check.checkStmt source s = .ok ((node, some type), s') → s'.classes.Precedes t →
        (∀ r ∈ sights, r.Typed t) ∧ (exit = .falls → s'.Agrees t m')
  | .stmts nodes => ∀ (sources : List Stmt) (s s' : Checker), s.Ready t m →
      Check.checkStmts sources s = .ok ((nodes, true), s') → s'.classes.Precedes t →
        (∀ r ∈ sights, r.Typed t) ∧ (exit = .falls → s'.Agrees t m')

section

variable {t : ClassTable} {s s' : Checker} {source node : Stmt} {type : Ty} {m m' : Memory}
  {sights : List Sight} {exit : Exit}

theorem Stmt.branching_of_way {way : List String × Block} (listed : way ∈ node.ways) :
    node.branching = true := by
  cases node <;> first | rfl | cases listed

/-- Whether a statement has arms is not changed by its check. -/
theorem Check.checkStmt_branching {stmt : Stmt} {checked : Stmt × Option Ty} {s s' : Checker}
    (ran : Check.checkStmt stmt s = .ok (checked, s')) : checked.1.branching = stmt.branching := by
  rw [← checked.1.branching_bare, Check.checkStmt_bare stmt s checked s' ran, stmt.branching_bare]

/-- A checked statement with arms came of a walk over them. -/
theorem Check.walks_of_branching (ran : Check.checkStmt source s = .ok ((node, some type), s'))
    (branching : node.branching = true) :
    ∃ ends s₁ merged, source.Walks s (node, some type) s' ends s₁ merged :=
  checkStmt_walks source ((checkStmt_branching ran).symm.trans branching) _ _ ran

/-- The block of an arm runs from what the variables hold once the arm is chosen. -/
theorem Stmt.Walks.keeps {checked : Stmt × Option Ty} {ends : List ArmEnd} {s₁ : Checker}
    {merged : Option Unit} (walks : source.Walks s checked s' ends s₁ merged)
    (accepted : checked.2.isSome = true) (ready : s.Ready t m) {way : List String × Block}
    (listed : way ∈ checked.1.ways)
    (keeps : (Code.stmts way.2.body).Keeps t (.given way.1 ++ m) sights m' exit) :
    ∃ e ∈ ends, e.hidden = way.1 ∧ (∀ r ∈ sights, r.Typed t) ∧
      (exit = .falls → e.last.Ready t m') := by
  obtain ⟨ways, _, passed⟩ := walks.passed accepted
  rw [ways] at listed
  obtain ⟨e, member, rfl⟩ := List.mem_map.mp listed
  obtain ⟨source, _, of⟩ := walks.source member
  obtain ⟨n, sound⟩ := ready.sound
  have ended := of.sound sound
  obtain ⟨base, start, mid, ok, ran⟩ := of
  obtain rfl : ok = true := ran.passed (passed e member)
  obtain ⟨opened, closed, last⟩ := ran.classes
  have entered : start.Ready t (.given e.hidden ++ m) := by
    refine ⟨⟨n, ran.sound n sound⟩, opened ▸ ready.precedes, ready.agrees.moves ?_⟩
    exact .given fun name apart => (ran.opened.others name apart).trans (ran.reached.lookup? name)
  have walked := Check.checkBlock_stmts source _ _ ran.ran
  obtain ⟨typed, after⟩ := keeps source.body start mid entered walked (closed ▸ ready.precedes)
  refine ⟨e, member, rfl, typed, fun falls => ⟨⟨n, ended⟩, ?_, ?_⟩⟩
  · rw [last]
    exact ready.precedes
  · exact (after falls).moves (.of_noted ran.noted)

end

/-- By induction on the flow: an accepted program's reads see what their notes say. -/
theorem Flow.keeps {t : ClassTable} (transitive : t.Transitive) {code : Code} {m m' : Memory}
    {sights : List Sight} {exit : Exit} (flow : Flow t code m sights m' exit) :
    code.Keeps t m sights m' exit := by
  induction flow with
  | eval subset _ parts =>
    intro s ready evaluates
    obtain ⟨typed, agrees⟩ := parts s ready fun part chosen => evaluates.parts part (subset chosen)
    refine ⟨List.forall_mem_append.mpr ⟨evaluates.typed ready, typed⟩, ?_⟩
    exact agrees.moves (evaluates.moves ready.precedes)
  | called _ _ run others =>
    intro s ready evaluates
    obtain ⟨start, s', calls⟩ := evaluates.calls
    obtain ⟨source, ran⟩ := calls.ran
    have walked := Check.checkBlock_stmts source _ _ ran
    obtain ⟨typed, _⟩ := run source.body start s' (ready.calls calls) walked
      (calls.kept ▸ ready.precedes)
    obtain ⟨typed', agrees⟩ := others s ready evaluates
    exact ⟨List.forall_mem_append.mpr ⟨typed, typed'⟩, agrees⟩
  | noExprs => exact fun s ready _ => ⟨nofun, ready.agrees⟩
  | nextExpr _ _ first rest =>
    intro s ready evaluates
    obtain ⟨head, tail⟩ := List.forall_mem_cons.mp evaluates
    obtain ⟨typed, agrees⟩ := first s ready head
    obtain ⟨typed', agrees'⟩ := rest s { ready with agrees } tail
    exact ⟨List.forall_mem_append.mpr ⟨typed, typed'⟩, agrees'⟩
  | noStmts =>
    intro sources s s' ready ran precedes
    obtain rfl := Check.checkStmts_nil ran
    exact ⟨nofun, fun _ => ready.agrees⟩
  | nextStmt _ _ first rest =>
    intro sources s s' ready ran precedes
    obtain ⟨source, others, type, s₁, _, here, later⟩ := Check.checkStmts_cons ran
    have precedes₁ := (Check.checkStmts_precedes others s₁ _ _ later).trans precedes
    obtain ⟨typed, agrees⟩ := first source s s₁ type ready here precedes₁
    obtain ⟨n, sound⟩ := ready.sound
    have sound₁ := (Check.checkStmt_proceeds n source).of_ran sound here
    have ready₁ : s₁.Ready t _ := ⟨⟨_, sound₁⟩, precedes₁, agrees rfl⟩
    obtain ⟨typed', agrees'⟩ := rest others s₁ s' ready₁ later precedes
    exact ⟨List.forall_mem_append.mpr ⟨typed, typed'⟩, agrees'⟩
  | halt => exact fun _ _ _ _ _ _ => ⟨nofun, nofun⟩
  | cut _ first =>
    intro sources s s' ready ran precedes
    obtain ⟨source, others, type, s₁, _, here, later⟩ := Check.checkStmts_cons ran
    have precedes₁ := (Check.checkStmts_precedes others s₁ _ _ later).trans precedes
    exact ⟨(first source s s₁ type ready here precedes₁).1, nofun⟩
  | plain straight _ values =>
    intro source s s' type ready ran _
    have plain := (Check.checkStmt_branching ran).symm.trans straight
    have outcome := Check.checkStmt_plain plain _ _ ran
    obtain ⟨typed, agrees⟩ := values s ready fun e listed => (outcome.makes rfl e listed).evaluates
    exact ⟨typed, fun _ => agrees.moves (outcome.stores transitive ready.precedes rfl)⟩
  | skipped branching unsure subset _ tests =>
    intro source s s' type ready ran _
    obtain ⟨ends, s₁, merged, walks⟩ := Check.walks_of_branching ran branching
    obtain ⟨typed, agrees⟩ :=
      tests s ready fun e chosen => (walks.tests rfl e (subset chosen)).evaluates
    have unsure' := walks.exhaustive.symm.trans unsure
    exact ⟨typed, fun _ => walks.agrees_skipped rfl transitive ready.precedes unsure' agrees⟩
  | taken listed subset _ _ _ tests run closes =>
    intro source s s' type ready ran _
    obtain ⟨ends, s₁, merged, walks⟩ :=
      Check.walks_of_branching ran (Stmt.branching_of_way listed)
    obtain ⟨typed, agrees⟩ :=
      tests s ready fun e chosen => (walks.tests rfl e (subset chosen)).evaluates
    obtain ⟨e, member, hidden, typed', after⟩ := walks.keeps rfl { ready with agrees } listed run
    obtain ⟨typed'', last⟩ := closes e.last (after rfl) fun test listed =>
      (walks.closing rfl e member test listed).evaluates
    have merged := walks.agrees_taken rfl transitive ready.precedes member agrees last
    refine ⟨?_, fun _ => hidden ▸ merged⟩
    exact List.forall_mem_append.mpr ⟨List.forall_mem_append.mpr ⟨typed, typed'⟩, typed''⟩
  | ended listed subset _ _ tests run =>
    intro source s s' type ready ran _
    obtain ⟨ends, s₁, merged, walks⟩ :=
      Check.walks_of_branching ran (Stmt.branching_of_way listed)
    obtain ⟨typed, agrees⟩ :=
      tests s ready fun e chosen => (walks.tests rfl e (subset chosen)).evaluates
    obtain ⟨_, _, _, typed', _⟩ := walks.keeps rfl { ready with agrees } listed run
    exact ⟨List.forall_mem_append.mpr ⟨typed, typed'⟩, nofun⟩
  | again _ _ _ round rest =>
    -- the loop was checked once, where no more was known than there is before the next round
    intro source s s' type ready ran precedes
    obtain ⟨typed, after⟩ := round source s s' type ready ran precedes
    have grown := (Check.checkStmt_kept source s _ _ ran).grown
    have agrees : s.Agrees t _ := fun name id firm => after rfl name id (grown.firm firm)
    obtain ⟨typed', agrees'⟩ := rest source s s' type { ready with agrees } ran precedes
    exact ⟨List.forall_mem_append.mpr ⟨typed, typed'⟩, agrees'⟩

/-! ## Programs -/

/-- An accepted program was accepted with all of its nodes. -/
theorem Program.ran_of_accepted {p q : Program} {w : Bool} {c : Checked}
    (checked : p.check w = .ok (q, c)) (accepted : c.isOk = true) :
    ∃ start s, p.Ran w start q true s c := by
  obtain ⟨start, tree, s, c', ran, _⟩ := Program.ran_of_isOk checked accepted
  cases w with
  | false =>
    rw [Program.check_eq_ok.mpr ⟨start, true, s, ran⟩] at checked
    cases checked
    exact ⟨start, s, ran⟩
  | true =>
    rw [Program.check_eq_ok.mpr ⟨_, true, _, ran.strict⟩] at checked
    cases checked
    exact ⟨_, _, ran.strict⟩

/-- Every path of an accepted program can be followed through the checked program with what the
variables hold. However it is followed, a read that returns the type of the instances of a class
finds a value whose type stands for it, if a value was stored last. -/
theorem Program.flow_typed {p q : Program} {w : Bool} {c : Checked}
    (checked : p.check w = .ok (q, c)) (accepted : c.isOk = true) (founded : p.Founded) :
    (∀ reads env exit, Path (.stmts p.body) [] reads env exit →
      ∃ sights m, Flow c.classes (.stmts q.body) [] sights m exit ∧
        sights.map (·.name) = reads.map (·.name)) ∧
    ∀ sights m exit, Flow c.classes (.stmts q.body) [] sights m exit →
      ∀ r ∈ sights, ∀ name id generics, r.type = some (.object name id generics) →
        ∀ held, r.held = some (.value held) → ∃ stored, held = some stored ∧
          c.classes.compare stored (.object name id generics) = .ok (.ok ()) := by
  obtain ⟨start, s, ran⟩ := Program.ran_of_accepted checked accepted
  obtain rfl := Checker.finish_eq_ok ran.finished
  have walked := Check.checkProgram_stmts p _ s ran.walked
  constructor
  · intro reads env exit path
    exact path.followed s.classes q.body (Check.checkStmts_bare p.body start _ _ walked) []
  · intro sights m exit flow
    have transitive := (ran.ordered founded).transitive
    obtain ⟨_, initial, sound, _⟩ := Checker.initial_ok w
    cases initial.symm.trans ran.initial
    have precedes := Check.checkStmts_precedes p.body start _ _ walked
    have ready : start.Ready s.classes [] := ⟨⟨4, sound⟩, precedes, nofun⟩
    exact (flow.keeps transitive p.body start s ready walked (.refl _)).1

/-- A variable that is assigned instances of two classes in the arms of a branch, one of which
fits the other, and again in a loop, before it is read. -/
def Program.storedInArms : Program :=
  let note : Note := ⟨.null, none, none⟩
  let decl (name : String) (fields : List String) : Stmt :=
    .classDecl ⟨name, [], [], [[]], [⟨fields, .named "int" [] .null, .null⟩]⟩ .null
  let store (class_ : String) : Block :=
    ⟨[.define ["a"] (.construct class_ [] note) false .null], .null⟩
  let yes : Expr := .literal (.bool true) note
  ⟨[decl "A" ["x"], decl "B" ["x", "y"], .ifElse yes (store "B") (some (store "A")) .null,
    .whileLoop yes (store "B") .null, .expr (.symbol "a" note) .null], .null⟩

/-- In a checked program of this shape, what the first arm stores and the note of what is read
last. -/
def Program.storedInArms? (q : Program) : Option (Expr × Note) :=
  match q.body with
  | [.classDecl .., .classDecl ..,
      .ifElse _ ⟨[.define ["a"] (.construct class_ [] note) _ _], _⟩ _ _, .whileLoop ..,
      .expr (.symbol "a" last) _] => some (.construct class_ [] note, last)
  | _ => none

/-- The first arm is taken and the loop is not run. -/
theorem Program.storedInArms_flow (t : ClassTable) {q : Program} {value : Expr} {last : Note}
    (shape : q.storedInArms? = some (value, last)) {stored : Ty} {id : ClassId}
    (filled : value.note.type = some stored) (object : stored.objectClass? = some id) :
    ∃ sights m, Flow t (.stmts q.body) [] sights m .falls ∧
      ⟨"a", last.type, some (.value (some stored))⟩ ∈ sights := by
  unfold Program.storedInArms? at shape
  split at shape
  · rename_i body
    cases shape
    obtain ⟨name, generics, rfl⟩ := Ty.eq_object object
    rw [body]
    refine ⟨_, _, .nextStmt (.plain rfl .noExprs) (.nextStmt (.plain rfl .noExprs)
      (.nextStmt (.taken List.mem_cons_self (List.nil_subset _) .noExprs
        (.nextStmt (.plain rfl (.nextExpr (.eval (List.nil_subset _) .noExprs) .noExprs)) .noStmts)
        .noExprs)
      (.nextStmt (.skipped rfl rfl (List.nil_subset _) .noExprs)
      (.nextStmt (.plain rfl (.nextExpr (.eval (List.nil_subset _) .noExprs) .noExprs))
        .noStmts)))), ?_⟩
    simp [Expr.sights, Stmt.stores, Memory.handOut, Memory.leave, Memory.given, filled]
  · cases shape

/-- An instance of `B`, which is class 5, is read as one of `A`, which is class 4. -/
theorem Program.flow_typed_storedInArms : ∃ q c,
    Program.storedInArms.check true = .ok (q, c) ∧ c.isOk = true ∧ Program.storedInArms.Founded ∧
    ∃ sights m, Flow c.classes (.stmts q.body) [] sights m .falls ∧
      ∃ r ∈ sights, ∃ type stored, r.name = "a" ∧ r.type = some type ∧
        type.objectClass? = some 4 ∧ r.held = some (.value (some stored)) ∧
          stored.objectClass? = some 5 ∧ c.classes.compare stored type = .ok (.ok ()) := by
  obtain ⟨q, c, checked, computed⟩ := Program.check_of_any (p := .storedInArms) (w := true)
    (P := fun q c => c.isOk && q.storedInArms?.any fun found =>
      found.1.note.type.bind Ty.objectClass? == some 5 &&
        found.2.type.bind Ty.objectClass? == some 4) (by decide +kernel)
  simp only [Bool.and_eq_true, Option.any_eq_true, beq_iff_eq, Option.bind_eq_some_iff] at computed
  obtain ⟨accepted, ⟨value, last⟩, shape, ⟨stored, filled, below⟩, type, typed, above⟩ := computed
  have founded : Program.storedInArms.Founded := by
    intro decl span listed
    simp only [storedInArms, List.mem_cons, Stmt.classDecl.injEq, reduceCtorEq, List.not_mem_nil,
      or_false] at listed
    rcases listed with ⟨rfl, rfl⟩ | ⟨rfl, rfl⟩ <;> decide
  obtain ⟨sights, m, flow, listed⟩ := Program.storedInArms_flow c.classes shape filled below
  obtain ⟨name, generics, rfl⟩ := Ty.eq_object above
  obtain ⟨_, same, compared⟩ := (Program.flow_typed checked accepted founded).2 sights m .falls
    flow _ listed name (some 4) generics typed (some stored) rfl
  cases same
  exact ⟨q, c, checked, accepted, founded, sights, m, flow, _, listed, _, stored, rfl, typed, above,
    rfl, below, compared⟩

end ShapeLang
