import ShapeLang.Proofs.Arms

/-!
# What variables hold along a path

Paths through a checked program on which it is kept what each variable holds. A read
is noted with the type that the check found for it and with what was stored last in
the variable on this path. Every path of the program is one of these.
-/

namespace ShapeLang

/-- What a name was given last: a value of the type that the check found for it, or something
that no statement stores in a variable, like an argument, what a case takes, or a class. -/
inductive Held where
  | value (type : Option Ty)
  | given

/-- What the names hold, the latest first. -/
abbrev Memory := List (String × Held)

/-- A name that is read, with the type that the read returned and what the name holds. -/
structure Sight where
  name : String
  type : Option Ty
  held : Option Held

/-- What an operator of a value of the type gives, if it is the overload with that index that
is called. -/
def ClassTable.operatorResult? (t : ClassTable) (left : Option Ty) (field : String)
    (overload : Option Nat) : Option Ty := do
  let id ← (← left).objectClass?
  let c ← (t.get id).toOption
  let overloads ← (← c.fields.find? field).overloads?
  let o ← overloads[← overload]?
  return o.result

namespace Expr

/-- What the expression itself reads. No type is noted for the class that is constructed. -/
def sights (m : Memory) : Expr → List Sight
  | symbol name note => [⟨name, note.type, m.lookup name⟩]
  | construct name _ _ => [⟨name, none, m.lookup name⟩]
  | _ => []

/-- A compound assignment stores what its operator gives. -/
def stores (t : ClassTable) : Expr → Memory
  | binary (symbol name target) operator _ note =>
      if operator.kind.isCompoundAssignment then
        [(name, .value (t.operatorResult? target.type operator.operatorField note.overload))]
      else []
  | _ => []

/-- The sights of an expression are the names it reads, with what they hold. -/
theorem names_sights (e : Expr) (m : Memory) : (e.sights m).map (·.name) = e.names := by
  cases e <;> rfl

end Expr

/-- A value for each name; a spread tuple is taken apart. -/
def Memory.handOut (names : List String) : Option Ty → Memory
  | some (.spread items) => names.zip (items.toList.map fun type => .value (some type))
  | type => names.map (·, .value type)

namespace Stmt

/-- What is stored once the values of the statement are there. -/
def stores : Stmt → Memory
  | define names value _ _ =>
      ((Memory.handOut names value.note.type).filter (·.1 != "_")).reverse
  | declare name _ (some value) _ _ => [(name, .value value.note.type)]
  | classDecl decl _ => [(decl.name, .given)]
  | _ => []

def exit : Stmt → Exit
  | .return .. => .ends
  | _ => .falls

def loops : Stmt → Bool
  | whileLoop .. | doWhile .. => true
  | ifElse .. | switch .. | expr .. | define .. | declare .. | classDecl .. | methods ..
  | .return .. => false

end Stmt

namespace Memory

def given (names : List String) : Memory := names.map (·, .given)

/-- What is held after a block: the names bound for it alone are what they were before. -/
def leave (hidden : List String) (before after : Memory) : Memory :=
  before.filter (·.1 ∈ hidden) ++ after.filter (·.1 ∉ hidden)

theorem lookup_given (names : List String) (name : String) :
    (given names).lookup name = if name ∈ names then some .given else none := by
  unfold given
  induction names with
  | nil => simp
  | cons first names ih => grind

theorem lookup_filter (m : Memory) (keep : String → Bool) (name : String) :
    (m.filter fun entry => keep entry.1).lookup name =
      if keep name then m.lookup name else none := by
  induction m with
  | nil => simp
  | cons entry m ih => grind

/-- Leaving a scope brings back what the hidden names held before and keeps the rest. -/
theorem lookup_leave (hidden : List String) (before after : Memory) (name : String) :
    (leave hidden before after).lookup name =
      if name ∈ hidden then before.lookup name else after.lookup name := by
  rw [leave, List.lookup_append, lookup_filter before fun name => decide (name ∈ hidden),
    lookup_filter after fun name => decide (name ∉ hidden)]
  by_cases inside : name ∈ hidden <;> simp [inside]

end Memory

/-- A path with what the variables hold. The classes are those of the checked program. -/
inductive Flow (t : ClassTable) : Code → Memory → List Sight → Memory → Exit → Prop where
  | eval {e : Expr} {chosen : List Expr} {m m' : Memory} {sights : List Sight}
      (subset : chosen ⊆ e.parts) (parts : Flow t (.exprs chosen) m sights m' .falls) :
      Flow t (.expr e) m (e.sights m ++ sights) (e.stores t ++ m') .falls
  /-- What is stored during a call is gone after it. -/
  | called {generics : List String} {params : List Param} {result : Option TypeTerm}
      {body : Block} {note : Note} {m m₁ m₂ : Memory} {sights more : List Sight} {exit : Exit}
      (run : Flow t (.stmts body.body) (.given (params.map (·.name)) ++ m) sights m₁ exit)
      (others : Flow t (.expr (.function generics params result body note)) m more m₂ .falls) :
      Flow t (.expr (.function generics params result body note)) m (sights ++ more) m₂ .falls
  | noExprs {m : Memory} : Flow t (.exprs []) m [] m .falls
  | nextExpr {e : Expr} {es : List Expr} {m m₁ m₂ : Memory} {sights more : List Sight}
      (first : Flow t (.expr e) m sights m₁ .falls) (rest : Flow t (.exprs es) m₁ more m₂ .falls) :
      Flow t (.exprs (e :: es)) m (sights ++ more) m₂ .falls
  | noStmts {m : Memory} : Flow t (.stmts []) m [] m .falls
  | nextStmt {stmt : Stmt} {stmts : List Stmt} {m m₁ m₂ : Memory} {sights more : List Sight}
      {exit : Exit} (first : Flow t (.stmt stmt) m sights m₁ .falls)
      (rest : Flow t (.stmts stmts) m₁ more m₂ exit) :
      Flow t (.stmts (stmt :: stmts)) m (sights ++ more) m₂ exit
  | halt {stmts : List Stmt} {m : Memory} : Flow t (.stmts stmts) m [] m .ends
  | cut {stmt : Stmt} {stmts : List Stmt} {m m' : Memory} {sights : List Sight}
      (first : Flow t (.stmt stmt) m sights m' .ends) :
      Flow t (.stmts (stmt :: stmts)) m sights m' .ends
  | plain {stmt : Stmt} {m m' : Memory} {sights : List Sight} (straight : stmt.branching = false)
      (values : Flow t (.exprs stmt.values) m sights m' .falls) :
      Flow t (.stmt stmt) m sights (stmt.stores ++ m') stmt.exit
  | skipped {stmt : Stmt} {chosen : List Expr} {m m' : Memory} {sights : List Sight}
      (branching : stmt.branching = true) (unsure : stmt.exhaustive = false)
      (subset : chosen ⊆ stmt.tests) (tests : Flow t (.exprs chosen) m sights m' .falls) :
      Flow t (.stmt stmt) m sights m' .falls
  | taken {stmt : Stmt} {way : List String × Block} {chosen : List Expr} {m m₁ m₂ m₃ : Memory}
      {tested sights closed : List Sight} (listed : way ∈ stmt.ways) (subset : chosen ⊆ stmt.tests)
      (tests : Flow t (.exprs chosen) m tested m₁ .falls)
      (run : Flow t (.stmts way.2.body) (.given way.1 ++ m₁) sights m₂ .falls)
      (closes : Flow t (.exprs stmt.closing) m₂ closed m₃ .falls) :
      Flow t (.stmt stmt) m (tested ++ sights ++ closed) (.leave way.1 m₁ m₃) .falls
  | ended {stmt : Stmt} {way : List String × Block} {chosen : List Expr} {m m₁ m₂ : Memory}
      {tested sights : List Sight} (listed : way ∈ stmt.ways) (subset : chosen ⊆ stmt.tests)
      (tests : Flow t (.exprs chosen) m tested m₁ .falls)
      (run : Flow t (.stmts way.2.body) (.given way.1 ++ m₁) sights m₂ .ends) :
      Flow t (.stmt stmt) m (tested ++ sights) m₂ .ends
  | again {stmt : Stmt} {m m₁ m₂ : Memory} {sights more : List Sight} {exit : Exit}
      (loops : stmt.loops = true) (round : Flow t (.stmt stmt) m sights m₁ .falls)
      (rest : Flow t (.stmt stmt) m₁ more m₂ exit) :
      Flow t (.stmt stmt) m (sights ++ more) m₂ exit

/-! ## Every path is a flow -/

/-! Paths do not depend on the slots of notes. -/

namespace Stmt

theorem branching_bare (stmt : Stmt) : stmt.bare.branching = stmt.branching := by
  cases stmt <;> simp [bare, branching]

theorem exhaustive_bare (stmt : Stmt) : stmt.bare.exhaustive = stmt.exhaustive := by
  cases stmt <;> simp [bare, exhaustive]

/-- The values of a statement are written in the source, not in the notes. -/
theorem values_bare (stmt : Stmt) : stmt.bare.values = stmt.values.map Expr.bare := by
  cases stmt <;> simp [bare, values, Option.toList_map]

theorem tests_bare (stmt : Stmt) : stmt.bare.tests = stmt.tests.map Expr.bare := by
  cases stmt <;> simp [bare, tests, List.map_flatMap, List.flatMap_map, Case.bare,
    Pattern.parts_bare]

theorem closing_bare (stmt : Stmt) : stmt.bare.closing = stmt.closing.map Expr.bare := by
  cases stmt <;> simp [bare, closing]

/-- The ways through a statement are written in the source, not in the notes. -/
theorem ways_bare (stmt : Stmt) :
    stmt.bare.ways = stmt.ways.map fun way => (way.1, way.2.bare) := by
  cases stmt <;> simp [bare, ways, Function.comp_def, Case.bare, Pattern.binds_bare,
    Option.toList_map]

theorem exit_bare (stmt : Stmt) : stmt.bare.exit = stmt.exit := by
  cases stmt <;> rfl

theorem loops_bare (stmt : Stmt) : stmt.bare.loops = stmt.loops := by
  cases stmt <;> rfl

end Stmt

/-- What is chosen from a list can be chosen from one with the same images. -/
theorem exists_subset_of_map_eq {α β : Type} {f : α → β} {as as' chosen : List α}
    (same : as'.map f = as.map f) (subset : chosen ⊆ as) :
    ∃ chosen' ⊆ as', chosen'.map f = chosen.map f := by
  induction chosen with
  | nil => exact ⟨[], List.nil_subset _, rfl⟩
  | cons a chosen ih =>
    obtain ⟨here, others⟩ := List.cons_subset.mp subset
    obtain ⟨chosen', subset', images⟩ := ih others
    have image : f a ∈ as'.map f := same ▸ List.mem_map_of_mem here
    obtain ⟨a', listed, equal⟩ := List.mem_map.mp image
    refine ⟨a' :: chosen', List.cons_subset.mpr ⟨listed, subset'⟩, ?_⟩
    rw [List.map_cons, List.map_cons, equal, images]

namespace Code

/-- Whatever the variables hold, there is a flow that reads the same names and ends alike. -/
def Follows (t : ClassTable) (code : Code) (reads : List Read) (exit : Exit) : Prop :=
  ∀ m, ∃ sights m', Flow t code m sights m' exit ∧ sights.map (·.name) = reads.map (·.name)

/-- There is such a flow through all code that differs in the slots of its notes only. -/
def Followed (t : ClassTable) (code : Code) (reads : List Read) (exit : Exit) : Prop :=
  match code with
  | .expr e => ∀ e' : Expr, e'.bare = e.bare → (Code.expr e').Follows t reads exit
  | .exprs es => ∀ es' : List Expr, es'.map Expr.bare = es.map Expr.bare →
      (Code.exprs es').Follows t reads exit
  | .stmt node => ∀ node' : Stmt, node'.bare = node.bare → (Code.stmt node').Follows t reads exit
  | .stmts nodes => ∀ nodes' : List Stmt, nodes'.map Stmt.bare = nodes.map Stmt.bare →
      (Code.stmts nodes').Follows t reads exit

namespace Followed

variable {t : ClassTable} {node : Stmt} {e : Expr} {chosen : List Expr}
  {reads tested more : List Read} {exit : Exit}

theorem noExprs : (Code.exprs []).Followed t [] .falls := by
  intro es' same m
  obtain rfl := List.map_eq_nil_iff.mp same
  exact ⟨[], m, .noExprs, rfl⟩

/-- Flows through the expressions of a list are put one behind the other. -/
theorem nextExpr {es : List Expr} (first : (Code.expr e).Followed t reads .falls)
    (rest : (Code.exprs es).Followed t more .falls) :
    (Code.exprs (e :: es)).Followed t (reads ++ more) .falls := by
  intro es' same m
  obtain ⟨e', rest', rfl, here, others⟩ := List.map_eq_cons_iff.mp same
  obtain ⟨sights, m₁, flow, names⟩ := first e' here m
  obtain ⟨sights', m₂, flow', names'⟩ := rest rest' others m₁
  exact ⟨_, m₂, .nextExpr flow flow', by rw [List.map_append, List.map_append, names, names']⟩

theorem single (first : (Code.expr e).Followed t reads .falls) :
    (Code.exprs [e]).Followed t reads .falls := by
  have both := first.nextExpr noExprs
  rwa [List.append_nil] at both

theorem plain (straight : node.branching = false)
    (values : (Code.exprs node.values).Followed t reads .falls) :
    (Code.stmt node).Followed t reads node.exit := by
  intro node' same m
  have branching : node'.branching = node.branching := by
    rw [← node'.branching_bare, same, node.branching_bare]
  have exit : node'.exit = node.exit := by rw [← node'.exit_bare, same, node.exit_bare]
  have alike : node'.values.map Expr.bare = node.values.map Expr.bare := by
    rw [← node'.values_bare, same, node.values_bare]
  obtain ⟨sights, m', flow, names⟩ := values _ alike m
  rw [← exit]
  exact ⟨sights, _, .plain (branching.trans straight) flow, names⟩

/-- The tests that are chosen can be chosen wherever the slots differ only. -/
theorem tests {node' : Stmt} (same : node'.bare = node.bare) (subset : chosen ⊆ node.tests)
    (tests : (Code.exprs chosen).Followed t tested .falls) :
    ∃ chosen' ⊆ node'.tests, (Code.exprs chosen').Follows t tested .falls := by
  have alike : node'.tests.map Expr.bare = node.tests.map Expr.bare := by
    rw [← node'.tests_bare, same, node.tests_bare]
  obtain ⟨chosen', subset', images⟩ := exists_subset_of_map_eq alike subset
  exact ⟨chosen', subset', tests chosen' images⟩

/-- A flow may pass by the arms of a statement that is not exhaustive. -/
theorem skipped (branching : node.branching = true) (unsure : node.exhaustive = false)
    (subset : chosen ⊆ node.tests) (tests : (Code.exprs chosen).Followed t tested .falls) :
    (Code.stmt node).Followed t tested .falls := by
  intro node' same m
  have branching' : node'.branching = true := by
    rw [← node'.branching_bare, same, node.branching_bare, branching]
  have unsure' : node'.exhaustive = false := by
    rw [← node'.exhaustive_bare, same, node.exhaustive_bare, unsure]
  obtain ⟨chosen', subset', follows⟩ := tests.tests same subset
  obtain ⟨sights, m', flow, names⟩ := follows m
  exact ⟨sights, m', .skipped branching' unsure' subset' flow, names⟩

/-- The block that is run is one of the blocks wherever the slots differ only. -/
theorem block {node' : Stmt} {way : List String × Block} (same : node'.bare = node.bare)
    (listed : way ∈ node.ways) (run : (Code.stmts way.2.body).Followed t reads exit) :
    ∃ block, (way.1, block) ∈ node'.ways ∧ (Code.stmts block.body).Follows t reads exit := by
  have image : (way.1, way.2.bare) ∈ node.bare.ways := by
    rw [node.ways_bare]
    exact List.mem_map_of_mem listed
  rw [← same, node'.ways_bare] at image
  obtain ⟨⟨hidden, block⟩, listed', equal⟩ := List.mem_map.mp image
  obtain ⟨rfl, blocks⟩ := Prod.mk.inj equal
  refine ⟨block, listed', run block.body ?_⟩
  rw [← block.body_bare, blocks, way.2.body_bare]

section

variable {way : List String × Block} (listed : way ∈ node.ways) (subset : chosen ⊆ node.tests)
  (tests : (Code.exprs chosen).Followed t tested .falls)
include listed subset tests

/-- A flow that comes to the end of an arm goes on behind the statement. -/
theorem taken (run : (Code.stmts way.2.body).Followed t reads .falls)
    (closes : (Code.exprs node.closing).Followed t more .falls) :
    (Code.stmt node).Followed t (tested ++ reads ++ more) .falls := by
  intro node' same m
  have closing : node'.closing.map Expr.bare = node.closing.map Expr.bare := by
    rw [← node'.closing_bare, same, node.closing_bare]
  obtain ⟨chosen', subset', follows⟩ := tests.tests same subset
  obtain ⟨block, listed', follows'⟩ := run.block same listed
  obtain ⟨first, m₁, flow₁, names₁⟩ := follows m
  obtain ⟨second, m₂, flow₂, names₂⟩ := follows' (.given way.1 ++ m₁)
  obtain ⟨third, m₃, flow₃, names₃⟩ := closes _ closing m₂
  refine ⟨_, _, .taken listed' subset' flow₁ flow₂ flow₃, ?_⟩
  simp only [List.map_append, names₁, names₂, names₃]

theorem ended (run : (Code.stmts way.2.body).Followed t reads .ends) :
    (Code.stmt node).Followed t (tested ++ reads) .ends := by
  intro node' same m
  obtain ⟨chosen', subset', follows⟩ := tests.tests same subset
  obtain ⟨block, listed', follows'⟩ := run.block same listed
  obtain ⟨first, m₁, flow₁, names₁⟩ := follows m
  obtain ⟨second, m₂, flow₂, names₂⟩ := follows' (.given way.1 ++ m₁)
  refine ⟨_, _, .ended listed' subset' flow₁ flow₂, ?_⟩
  simp only [List.map_append, names₁, names₂]

/-- The block of a statement after which nothing is evaluated. -/
theorem arm (run : (Code.stmts way.2.body).Followed t reads exit) (open_ : node.closing = []) :
    (Code.stmt node).Followed t (tested ++ reads) exit := by
  cases exit with
  | falls =>
    have closes : (Code.exprs node.closing).Followed t [] .falls := open_ ▸ noExprs
    have whole := taken listed subset tests run closes
    rwa [List.append_nil] at whole
  | ends => exact ended listed subset tests run

end

theorem again (loops : node.loops = true) (round : (Code.stmt node).Followed t reads .falls)
    (rest : (Code.stmt node).Followed t more exit) :
    (Code.stmt node).Followed t (reads ++ more) exit := by
  intro node' same m
  have loops' : node'.loops = true := by rw [← node'.loops_bare, same, node.loops_bare, loops]
  obtain ⟨sights, m₁, flow, names⟩ := round node' same m
  obtain ⟨sights', m₂, flow', names'⟩ := rest node' same m₁
  exact ⟨_, m₂, .again loops' flow flow', by rw [List.map_append, List.map_append, names, names']⟩

end Followed

end Code

/-- By induction on the path: every path is followed by a flow that reads the same names. -/
theorem Path.followed (t : ClassTable) {code : Code} {ρ env : List String} {reads : List Read}
    {exit : Exit} (path : Path code ρ reads env exit) : code.Followed t reads exit := by
  -- which patterns of a switch are tried
  have tries {subject : Expr} {cases : List Case} {otherwise : Option Block} {span : Span}
      {tried : List Expr} (patterns : ∀ e ∈ tried, ∃ c ∈ cases, e ∈ c.pattern.parts) :
      subject :: tried ⊆ (Stmt.switch subject cases otherwise span).tests := by
    refine List.cons_subset_cons _ fun e listed => ?_
    obtain ⟨c, member, part⟩ := patterns e listed
    exact List.mem_flatMap.mpr ⟨c, member, part⟩
  induction path with
  | @eval e chosen _ _ subset _ parts =>
    intro e' same m
    have alike : e'.parts.map Expr.bare = e.parts.map Expr.bare := by
      rw [← e'.parts_bare, same, e.parts_bare]
    have read : e'.names = e.names := by rw [← e'.names_bare, same, e.names_bare]
    obtain ⟨chosen', subset', images⟩ := exists_subset_of_map_eq alike subset
    obtain ⟨sights, m', flow, names⟩ := parts chosen' images m
    refine ⟨_, _, .eval subset' flow, ?_⟩
    rw [List.map_append, List.map_append, e'.names_sights, read, names, List.map_map]
    exact congrArg (· ++ _) (List.map_id e.names).symm
  | called _ _ run others =>
    intro e' same m
    obtain ⟨body', note', rfl, bodies⟩ := Expr.bare_eq_function same
    obtain ⟨sights, m₁, flow, names⟩ := run body'.body bodies _
    obtain ⟨sights', m₂, flow', names'⟩ := others _ same m
    exact ⟨_, m₂, .called flow flow', by rw [List.map_append, List.map_append, names, names']⟩
  | noExprs => exact .noExprs
  | nextExpr _ _ first rest => exact .nextExpr first rest
  | noStmts =>
    intro nodes' same m
    obtain rfl := List.map_eq_nil_iff.mp same
    exact ⟨[], m, .noStmts, rfl⟩
  | nextStmt _ _ first rest =>
    intro nodes' same m
    obtain ⟨node', rest', rfl, here, later⟩ := List.map_eq_cons_iff.mp same
    obtain ⟨sights, m₁, flow, names⟩ := first node' here m
    obtain ⟨sights', m₂, flow', names'⟩ := rest rest' later m₁
    exact ⟨_, m₂, .nextStmt flow flow', by rw [List.map_append, List.map_append, names, names']⟩
  | halt => exact fun _ _ m => ⟨[], m, .halt, rfl⟩
  | cut _ first =>
    intro nodes' same m
    obtain ⟨node', rest', rfl, here, _⟩ := List.map_eq_cons_iff.mp same
    obtain ⟨sights, m', flow, names⟩ := first node' here m
    exact ⟨sights, m', .cut flow, names⟩
  | value _ value => exact .plain rfl value.single
  | define _ value => exact .plain rfl value.single
  | announce => exact .plain rfl .noExprs
  | declare _ value => exact .plain rfl value.single
  | classDecl => exact .plain rfl .noExprs
  | methods => exact .plain rfl .noExprs
  | taken chosen _ _ test run =>
    exact .arm (List.mem_map_of_mem chosen) (List.Subset.refl _) test.single run rfl
  | skipped _ test => exact .skipped rfl rfl (List.Subset.refl _) test.single
  | whileDone _ test => exact .skipped rfl rfl (List.Subset.refl _) test.single
  | whileNext _ _ _ test run again =>
    refine .again rfl (.arm (List.mem_singleton_self _) (List.Subset.refl _) test.single run rfl) ?_
    exact again
  | whileLeft _ _ test run =>
    exact .arm (List.mem_singleton_self _) (List.Subset.refl _) test.single run rfl
  | doDone _ _ run test =>
    exact .taken (List.mem_singleton_self _) (List.nil_subset _) .noExprs run test.single
  | doNext _ _ _ run test again =>
    refine .again rfl ?_ again
    exact .taken (List.mem_singleton_self _) (List.nil_subset _) .noExprs run test.single
  | doLeft _ run => exact .ended (List.mem_singleton_self _) (List.nil_subset _) .noExprs run
  | case listed patterns _ _ _ look tried run =>
    exact .arm (List.mem_append_left _ (List.mem_map_of_mem listed)) (tries patterns)
      (look.nextExpr tried) run rfl
  | otherwise patterns _ _ _ look tried run =>
    exact .arm (List.mem_append_right _ (List.mem_singleton_self _)) (tries patterns)
      (look.nextExpr tried) run rfl
  | unmatched patterns _ _ look tried =>
    exact .skipped rfl rfl (tries patterns) (look.nextExpr tried)
  | returnNone => exact .plain rfl .noExprs
  | returnValue _ value => exact .plain rfl value.single

end ShapeLang
