import ShapeLang.Tree

/-!
# Paths through a program

What can happen when a program runs, as far as it matters for the names it reads.
A path does not know values: every condition may hold or not, every case may be
taken. It goes from the names bound at its start to those bound at its end and
lists what is read on the way, together with the names bound by then.
-/

namespace ShapeLang

/-- A recursion over a list that treats each member alike is a map. -/
theorem eq_map_of_cons {α β : Type} {f : List α → List β} {g : α → β} (nil : f [] = [])
    (cons : ∀ a as, f (a :: as) = g a :: f as) (as : List α) : f as = as.map g := by
  induction as with
  | nil => exact nil
  | cons a as ih => rw [cons, ih, List.map_cons]

/-- A name that is read, and the names bound at that moment. -/
structure Read where
  name : String
  bound : List String

/-- Whether a path goes on behind the code or ends inside, by a return or for good. -/
inductive Exit where
  | falls
  | ends
deriving DecidableEq

namespace Expr

def names : Expr → List String
  | symbol name _ | construct name _ _ => [name]
  | _ => []

/-- The expressions whose values it needs. The body of a function is not among them. -/
def parts : Expr → List Expr
  | literal .. | symbol .. | function .. => []
  | member object _ _ => [object]
  | call callee args _ => callee :: args
  | index object position _ => [object, position]
  | construct _ args _ => args
  | cast value _ _ | spread value _ => [value]
  | tuple items _ | array items _ => items
  | binary left _ right _ => [left, right]

end Expr

namespace Pattern

def binds : Pattern → List String
  | type name _ => [name]
  | value _ => []

def parts : Pattern → List Expr
  | type .. => []
  | value e => [e]

end Pattern

/-- What a path leads through. -/
inductive Code where
  | expr (e : Expr)
  | exprs (es : List Expr)
  | stmt (stmt : Stmt)
  | stmts (stmts : List Stmt)

inductive Path : Code → List String → List Read → List String → Exit → Prop where
  /-- Not all parts need be evaluated, as with the second operand of a logical operator. -/
  | eval {e : Expr} {chosen : List Expr} {ρ : List String} {reads : List Read}
      (subset : chosen ⊆ e.parts) (parts : Path (.exprs chosen) ρ reads ρ .falls) :
      Path (.expr e) ρ (e.names.map (⟨·, ρ⟩) ++ reads) ρ .falls
  /-- The function may be called later, and again. Its body starts from what was bound when
  the function was made; what it binds itself is gone afterwards. -/
  | called {generics : List String} {params : List Param} {result : Option TypeTerm}
      {body : Block} {note : Note} {ρ env : List String} {reads more : List Read} {exit : Exit}
      (run : Path (.stmts body.body) (params.map (·.name) ++ ρ) reads env exit)
      (others : Path (.expr (.function generics params result body note)) ρ more ρ .falls) :
      Path (.expr (.function generics params result body note)) ρ (reads ++ more) ρ .falls
  | noExprs {ρ : List String} : Path (.exprs []) ρ [] ρ .falls
  | nextExpr {e : Expr} {es : List Expr} {ρ : List String} {reads more : List Read}
      (first : Path (.expr e) ρ reads ρ .falls) (rest : Path (.exprs es) ρ more ρ .falls) :
      Path (.exprs (e :: es)) ρ (reads ++ more) ρ .falls
  | noStmts {ρ : List String} : Path (.stmts []) ρ [] ρ .falls
  | nextStmt {stmt : Stmt} {stmts : List Stmt} {ρ env env' : List String}
      {reads more : List Read} {exit : Exit} (first : Path (.stmt stmt) ρ reads env .falls)
      (rest : Path (.stmts stmts) env more env' exit) :
      Path (.stmts (stmt :: stmts)) ρ (reads ++ more) env' exit
  /-- A run may stop anywhere, say with an error or because it is stopped. -/
  | halt {stmts : List Stmt} {ρ : List String} : Path (.stmts stmts) ρ [] ρ .ends
  /-- What follows a return is not reached. -/
  | cut {stmt : Stmt} {stmts : List Stmt} {ρ env : List String} {reads : List Read}
      (first : Path (.stmt stmt) ρ reads env .ends) :
      Path (.stmts (stmt :: stmts)) ρ reads env .ends
  | value {e : Expr} {span : Span} {ρ : List String} {reads : List Read}
      (value : Path (.expr e) ρ reads ρ .falls) : Path (.stmt (.expr e span)) ρ reads ρ .falls
  | define {names : List String} {e : Expr} {constant : Bool} {span : Span} {ρ : List String}
      {reads : List Read} (value : Path (.expr e) ρ reads ρ .falls) :
      Path (.stmt (.define names e constant span)) ρ reads (names.filter (· != "_") ++ ρ) .falls
  | announce {name : String} {term : TypeTerm} {constant : Bool} {span : Span}
      {ρ : List String} : Path (.stmt (.declare name term none constant span)) ρ [] ρ .falls
  | declare {name : String} {term : TypeTerm} {e : Expr} {constant : Bool} {span : Span}
      {ρ : List String} {reads : List Read} (value : Path (.expr e) ρ reads ρ .falls) :
      Path (.stmt (.declare name term (some e) constant span)) ρ reads (name :: ρ) .falls
  | classDecl {decl : ClassDecl} {span : Span} {ρ : List String} :
      Path (.stmt (.classDecl decl span)) ρ [] (decl.name :: ρ) .falls
  | methods {name : String} {body : Block} {span : Span} {ρ : List String} :
      Path (.stmt (.methods name body span)) ρ [] ρ .falls
  | taken {condition : Expr} {yes : Block} {no : Option Block} {span : Span} {arm : Block}
      {ρ env : List String} {tested reads : List Read} {exit : Exit}
      (chosen : arm ∈ yes :: no.toList) (test : Path (.expr condition) ρ tested ρ .falls)
      (run : Path (.stmts arm.body) ρ reads env exit) :
      Path (.stmt (.ifElse condition yes no span)) ρ (tested ++ reads) env exit
  | skipped {condition : Expr} {yes : Block} {span : Span} {ρ : List String}
      {tested : List Read} (test : Path (.expr condition) ρ tested ρ .falls) :
      Path (.stmt (.ifElse condition yes none span)) ρ tested ρ .falls
  | whileDone {condition : Expr} {body : Block} {span : Span} {ρ : List String}
      {tested : List Read} (test : Path (.expr condition) ρ tested ρ .falls) :
      Path (.stmt (.whileLoop condition body span)) ρ tested ρ .falls
  | whileNext {condition : Expr} {body : Block} {span : Span} {ρ env env' : List String}
      {tested reads more : List Read} {exit : Exit}
      (test : Path (.expr condition) ρ tested ρ .falls)
      (run : Path (.stmts body.body) ρ reads env .falls)
      (again : Path (.stmt (.whileLoop condition body span)) env more env' exit) :
      Path (.stmt (.whileLoop condition body span)) ρ (tested ++ reads ++ more) env' exit
  | whileLeft {condition : Expr} {body : Block} {span : Span} {ρ env : List String}
      {tested reads : List Read} (test : Path (.expr condition) ρ tested ρ .falls)
      (run : Path (.stmts body.body) ρ reads env .ends) :
      Path (.stmt (.whileLoop condition body span)) ρ (tested ++ reads) env .ends
  | doDone {body : Block} {condition : Expr} {span : Span} {ρ env : List String}
      {reads tested : List Read} (run : Path (.stmts body.body) ρ reads env .falls)
      (test : Path (.expr condition) env tested env .falls) :
      Path (.stmt (.doWhile body condition span)) ρ (reads ++ tested) env .falls
  | doNext {body : Block} {condition : Expr} {span : Span} {ρ env env' : List String}
      {reads tested more : List Read} {exit : Exit}
      (run : Path (.stmts body.body) ρ reads env .falls)
      (test : Path (.expr condition) env tested env .falls)
      (again : Path (.stmt (.doWhile body condition span)) env more env' exit) :
      Path (.stmt (.doWhile body condition span)) ρ (reads ++ tested ++ more) env' exit
  | doLeft {body : Block} {condition : Expr} {span : Span} {ρ env : List String}
      {reads : List Read} (run : Path (.stmts body.body) ρ reads env .ends) :
      Path (.stmt (.doWhile body condition span)) ρ reads env .ends
  /-- Any patterns may have been tried before the one that is taken. The name that it binds
  is gone afterwards, unless it was bound before. -/
  | case {subject : Expr} {cases : List Case} {otherwise : Option Block} {span : Span}
      {chosen : Case} {tried : List Expr} {ρ env : List String}
      {looked tested reads : List Read} {exit : Exit} (listed : chosen ∈ cases)
      (patterns : ∀ e ∈ tried, ∃ c ∈ cases, e ∈ c.pattern.parts)
      (look : Path (.expr subject) ρ looked ρ .falls)
      (tries : Path (.exprs tried) ρ tested ρ .falls)
      (run : Path (.stmts chosen.body.body) (chosen.pattern.binds ++ ρ) reads env exit) :
      Path (.stmt (.switch subject cases otherwise span)) ρ (looked ++ tested ++ reads)
        (env.filter (· ∉ chosen.pattern.binds) ++ ρ) exit
  | otherwise {subject : Expr} {cases : List Case} {default : Block} {span : Span}
      {tried : List Expr} {ρ env : List String} {looked tested reads : List Read} {exit : Exit}
      (patterns : ∀ e ∈ tried, ∃ c ∈ cases, e ∈ c.pattern.parts)
      (look : Path (.expr subject) ρ looked ρ .falls)
      (tries : Path (.exprs tried) ρ tested ρ .falls)
      (run : Path (.stmts default.body) ρ reads env exit) :
      Path (.stmt (.switch subject cases (some default) span)) ρ (looked ++ tested ++ reads)
        env exit
  | unmatched {subject : Expr} {cases : List Case} {span : Span} {tried : List Expr}
      {ρ : List String} {looked tested : List Read}
      (patterns : ∀ e ∈ tried, ∃ c ∈ cases, e ∈ c.pattern.parts)
      (look : Path (.expr subject) ρ looked ρ .falls)
      (tries : Path (.exprs tried) ρ tested ρ .falls) :
      Path (.stmt (.switch subject cases none span)) ρ (looked ++ tested) ρ .falls
  | returnNone {span : Span} {ρ : List String} : Path (.stmt (.return none span)) ρ [] ρ .ends
  | returnValue {e : Expr} {span : Span} {ρ : List String} {reads : List Read}
      (value : Path (.expr e) ρ reads ρ .falls) :
      Path (.stmt (.return (some e) span)) ρ reads ρ .ends

/-- Nothing is ever unbound. -/
theorem Path.grows {code : Code} {ρ env : List String} {reads : List Read} {exit : Exit}
    (path : Path code ρ reads env exit) : ρ ⊆ env := by
  induction path with
  | nextStmt _ _ first rest => exact List.Subset.trans first rest
  | cut _ first => exact first
  | define => exact List.subset_append_right _ _
  | declare => exact List.subset_cons_self _ _
  | classDecl => exact List.subset_cons_self _ _
  | taken _ _ _ _ run => exact run
  | whileNext _ _ _ _ run again => exact List.Subset.trans run again
  | whileLeft _ _ _ run => exact run
  | doDone _ _ run => exact run
  | doNext _ _ _ run _ again => exact List.Subset.trans run again
  | doLeft _ run => exact run
  | case => exact List.subset_append_right _ _
  | otherwise _ _ _ _ _ _ run => exact run
  | _ => exact List.Subset.refl _

end ShapeLang
