import ShapeLang.Proofs.Path

/-!
# Places in a tree

What a tree says about places, apart from everything else: the span of each node
and, below it, the spans of its parts. Parts that follow each other in the source
form a row. A layout is in order if every span lies in that of its parent and the
spans of a row come one after the other.
-/

namespace ShapeLang

structure Span.Of (file : String) (span : Span) : Prop where
  start : span.start.file = file
  stop : span.stop.file = file

/-- The span is in the first `size` bytes of the file. -/
structure Span.Within (file : String) (size : Nat) (span : Span) : Prop where
  file : span.Of file
  order : span.first ≤ span.last
  bound : span.last ≤ size

inductive Layout where
  | node (span : Span) (rows : List (List Layout))

namespace Layout

def span : Layout → Span
  | node span _ => span

def leaf (span : Span) : Layout := node span []

mutual

/-- The span is between the offsets, and so are the rows below it within the span. -/
def In (file : String) (lo hi : Nat) : Layout → Prop
  | node span rows => span.Of file ∧ lo ≤ span.first ∧ span.first ≤ span.last ∧
      span.last ≤ hi ∧ RowsIn file span.first span.last rows

def RowsIn (file : String) (lo hi : Nat) : List (List Layout) → Prop
  | [] => True
  | row :: rows => RowIn file lo hi row ∧ RowsIn file lo hi rows

/-- The parts stand between the offsets, each behind the one before it. -/
def RowIn (file : String) (lo hi : Nat) : List Layout → Prop
  | [] => True
  | part :: row => part.In file lo hi ∧ RowIn file part.span.last hi row

end

mutual

def All (P : Span → Prop) : Layout → Prop
  | node span rows => P span ∧ AllRows P rows

def AllRows (P : Span → Prop) : List (List Layout) → Prop
  | [] => True
  | row :: rows => AllRow P row ∧ AllRows P rows

def AllRow (P : Span → Prop) : List Layout → Prop
  | [] => True
  | part :: row => part.All P ∧ AllRow P row

end

variable {file : String} {lo lo' hi hi' mid : Nat} {x y : Layout} {row row' : List Layout}
  {rows : List (List Layout)}

theorem rowsIn_iff : RowsIn file lo hi rows ↔ ∀ row ∈ rows, RowIn file lo hi row := by
  induction rows with
  | nil => simp [RowsIn]
  | cons row rows ih => rw [RowsIn, ih, List.forall_mem_cons]

theorem rowIn_singleton : RowIn file lo hi [x] ↔ x.In file lo hi := by
  simp [RowIn]

/-- A place without parts lies between two offsets if its own do, in order. -/
theorem leaf_in {span : Span} : (leaf span).In file lo hi ↔
    span.Of file ∧ lo ≤ span.first ∧ span.first ≤ span.last ∧ span.last ≤ hi := by
  simp [leaf, In, RowsIn]

namespace In

/-- What a layout that is in order says about its own span. -/
theorem bounds (inside : x.In file lo hi) : x.span.Of file ∧ lo ≤ x.span.first ∧
    x.span.first ≤ x.span.last ∧ x.span.last ≤ hi := by
  obtain ⟨span, rows⟩ := x
  obtain ⟨here, low, order, high, _⟩ := inside
  exact ⟨here, low, order, high⟩

theorem below {span : Span} (inside : (node span rows).In file lo hi) :
    RowsIn file span.first span.last rows := inside.2.2.2.2

theorem mono (inside : x.In file lo hi) (low : lo' ≤ lo) (high : hi ≤ hi') :
    x.In file lo' hi' := by
  obtain ⟨span, rows⟩ := x
  obtain ⟨here, low', order, high', below⟩ := inside
  exact ⟨here, by omega, order, by omega, below⟩

theorem self (inside : x.In file lo hi) : x.In file x.span.first x.span.last := by
  obtain ⟨span, rows⟩ := x
  obtain ⟨here, _, order, _, below⟩ := inside
  exact ⟨here, Nat.le_refl _, order, Nat.le_refl _, below⟩

/-- Only the start of the span is held against the lower offset. -/
theorem onward (inside : x.In file lo hi) (low : lo' ≤ x.span.first) : x.In file lo' hi := by
  obtain ⟨_, _, _, high⟩ := inside.bounds
  exact inside.self.mono low high

end In

/-- The parts of a row are disjoint and in the order of the source. -/
theorem rowIn_iff : RowIn file lo hi row ↔
    (∀ x ∈ row, x.In file lo hi) ∧ row.Pairwise fun x y => x.span.last ≤ y.span.first := by
  induction row generalizing lo with
  | nil => simp [RowIn]
  | cons x row ih =>
    rw [RowIn, ih, List.forall_mem_cons, List.pairwise_cons]
    constructor
    · rintro ⟨first, others, ordered⟩
      obtain ⟨_, low, order, _⟩ := first.bounds
      have below : lo ≤ x.span.last := by omega
      refine ⟨⟨first, fun y listed => (others y listed).mono below (Nat.le_refl _)⟩, ?_, ordered⟩
      intro y listed
      exact (others y listed).bounds.2.1
    · rintro ⟨⟨first, others⟩, behind, ordered⟩
      exact ⟨first, fun y listed => (others y listed).onward (behind y listed), ordered⟩

namespace RowIn

theorem mono (inside : RowIn file lo hi row) (low : lo' ≤ lo) (high : hi ≤ hi') :
    RowIn file lo' hi' row := by
  induction row generalizing lo lo' with
  | nil => trivial
  | cons x row ih => exact ⟨inside.1.mono low high, ih inside.2 (Nat.le_refl _)⟩

theorem append (first : RowIn file lo mid row) (second : RowIn file mid hi row') (low : lo ≤ mid)
    (high : mid ≤ hi) : RowIn file lo hi (row ++ row') := by
  induction row generalizing lo with
  | nil => exact second.mono low (Nat.le_refl _)
  | cons x row ih =>
    obtain ⟨_, _, _, below⟩ := first.1.bounds
    exact ⟨first.1.mono (Nat.le_refl _) high, ih first.2 below⟩

theorem sublist (inside : RowIn file lo hi row) (fewer : row'.Sublist row) :
    RowIn file lo hi row' := by
  induction fewer generalizing lo with
  | slnil => trivial
  | cons x _ ih =>
    obtain ⟨_, low, order, _⟩ := inside.1.bounds
    exact (ih inside.2).mono (by omega) (Nat.le_refl _)
  | cons_cons x _ ih => exact ⟨inside.1, ih inside.2⟩

theorem onward (inside : RowIn file lo hi (x :: row)) : RowIn file x.span.first hi (x :: row) :=
  ⟨inside.1.onward (Nat.le_refl _), inside.2⟩

theorem upto (inside : RowIn file lo hi (row ++ [x])) :
    RowIn file lo x.span.last (row ++ [x]) := by
  induction row generalizing lo with
  | nil =>
    have last := rowIn_singleton.mp inside
    obtain ⟨_, low, _, _⟩ := last.bounds
    exact rowIn_singleton.mpr (last.self.mono low (Nat.le_refl _))
  | cons y row ih =>
    have last := rowIn_singleton.mp (inside.2.sublist (List.sublist_append_right row [x]))
    obtain ⟨_, low, order, _⟩ := last.bounds
    obtain ⟨_, low', _, _⟩ := inside.1.bounds
    exact ⟨inside.1.self.mono low' (by omega), ih inside.2⟩

end RowIn

mutual

/-- The spans of a layout that is in order are all in the source. -/
theorem In.all {size : Nat} : (x : Layout) → {lo hi : Nat} → x.In file lo hi → hi ≤ size →
    x.All (Span.Within file size)
  | node span rows, lo, hi, inside, bound => by
      obtain ⟨here, _, order, high, below⟩ := inside
      exact ⟨⟨here, order, by omega⟩, RowsIn.all rows below (by omega)⟩

/-- Places between two offsets of a file are places within the file. -/
theorem RowsIn.all {size : Nat} : (rows : List (List Layout)) → {lo hi : Nat} →
    RowsIn file lo hi rows → hi ≤ size → AllRows (Span.Within file size) rows
  | [], _, _, _, _ => trivial
  | row :: rows, _, _, inside, bound =>
      ⟨RowIn.all row inside.1 bound, RowsIn.all rows inside.2 bound⟩

theorem RowIn.all {size : Nat} : (row : List Layout) → {lo hi : Nat} → RowIn file lo hi row →
    hi ≤ size → AllRow (Span.Within file size) row
  | [], _, _, _, _ => trivial
  | x :: row, _, _, inside, bound =>
      ⟨In.all x inside.1 bound, RowIn.all row inside.2 bound⟩

end

section

variable {P : Span → Prop}

theorem All.here (all : x.All P) : P x.span := by
  cases x
  exact all.1

mutual

/-- What holds of every span holds of those of a layout. -/
theorem all_of (every : ∀ span, P span) : (x : Layout) → x.All P
  | node span rows => ⟨every span, allRows_of every rows⟩

theorem allRows_of (every : ∀ span, P span) : (rows : List (List Layout)) → AllRows P rows
  | [] => trivial
  | row :: rows => ⟨allRow_of every row, allRows_of every rows⟩

theorem allRow_of (every : ∀ span, P span) : (row : List Layout) → AllRow P row
  | [] => trivial
  | x :: row => ⟨all_of every x, allRow_of every row⟩

end

/-- A property holds throughout a row if it holds throughout each of its parts. -/
theorem allRow_iff : AllRow P row ↔ ∀ x ∈ row, x.All P := by
  induction row with
  | nil => simp [AllRow]
  | cons x row ih => rw [AllRow, ih, List.forall_mem_cons]

theorem allRows_iff : AllRows P rows ↔ ∀ row ∈ rows, AllRow P row := by
  induction rows with
  | nil => simp [AllRows]
  | cons row rows ih => rw [AllRows, ih, List.forall_mem_cons]

end

end Layout

/-! ## Annotations and programs -/

mutual

def TypeTerm.layout : TypeTerm → Layout
  | .named _ generics span => .node span [TypeTerm.layouts generics]
  | .noneType span => .leaf span
  | .tuple items span => .node span [TypeTerm.layouts items]
  | .function signature => signature.layout
  | .overloads members span => .node span [Signature.layouts members]
  | .array item span | .maybe item span => .node span [[item.layout]]

def TypeTerm.layouts : List TypeTerm → List Layout
  | [] => []
  | term :: terms => term.layout :: TypeTerm.layouts terms

def Signature.layout : Signature → Layout
  | ⟨params, result, span⟩ => .node span [TypeTerm.layouts params ++ [result.layout]]

def Signature.layouts : List Signature → List Layout
  | [] => []
  | signature :: signatures => signature.layout :: Signature.layouts signatures

end

def FieldGroup.layout (group : FieldGroup) : Layout := .node group.span [[group.term.layout]]

/-- The fields of a class are a row, and so are the parameters of each constructor. -/
def ClassDecl.rows (decl : ClassDecl) : List (List Layout) :=
  decl.fields.map (·.layout) :: decl.constructors.map TypeTerm.layouts

mutual

def Expr.layout : Expr → Layout
  | .literal _ note | .symbol _ note => .leaf note.span
  | .member object _ note => .node note.span [[object.layout]]
  | .call callee args note => .node note.span [callee.layout :: Expr.layouts args]
  | .index object position note => .node note.span [[object.layout, position.layout]]
  | .construct _ args note => .node note.span [Expr.layouts args]
  | .cast value target note => .node note.span [[value.layout, target.layout]]
  | .tuple items note | .array items note => .node note.span [Expr.layouts items]
  | .spread value note => .node note.span [[value.layout]]
  | .binary left operator right note =>
      .node note.span [[left.layout, .leaf operator.span, right.layout]]
  | .function _ params none body note =>
      .node note.span [params.map (·.term.layout) ++ [body.layout]]
  | .function _ params (some result) body note =>
      .node note.span [params.map (·.term.layout) ++ [result.layout, body.layout]]

def Expr.layouts : List Expr → List Layout
  | [] => []
  | e :: es => e.layout :: Expr.layouts es

/-- A default may stand anywhere among the cases, so it is a row of its own. -/
def Stmt.layout : Stmt → Layout
  | .expr value span | .define _ value _ span | .return (some value) span =>
      .node span [[value.layout]]
  | .declare _ term none _ span => .node span [[term.layout]]
  | .declare _ term (some value) _ span => .node span [[term.layout, value.layout]]
  | .classDecl decl span => .node span decl.rows
  | .methods _ body span => .node span [[body.layout]]
  | .ifElse condition yes none span => .node span [[condition.layout, yes.layout]]
  | .ifElse condition yes (some no) span =>
      .node span [[condition.layout, yes.layout, no.layout]]
  | .whileLoop condition body span => .node span [[condition.layout, body.layout]]
  | .doWhile body condition span => .node span [[body.layout, condition.layout]]
  | .switch subject cases none span => .node span [subject.layout :: Case.layouts cases]
  | .switch subject cases (some otherwise) span =>
      .node span [subject.layout :: Case.layouts cases, [otherwise.layout]]
  | .return none span => .leaf span

def Stmt.layouts : List Stmt → List Layout
  | [] => []
  | stmt :: stmts => stmt.layout :: Stmt.layouts stmts

def Block.layout : Block → Layout
  | ⟨body, span⟩ => .node span [Stmt.layouts body]

def Case.layout : Case → Layout
  | ⟨pattern, body, span⟩ => .node span [[pattern.layout, body.layout]]

def Case.layouts : List Case → List Layout
  | [] => []
  | case :: cases => case.layout :: Case.layouts cases

def Pattern.layout : Pattern → Layout
  | .type _ term => term.layout
  | .value value => value.layout

end

def Program.layout (p : Program) : Layout := .node p.span [Stmt.layouts p.body]

@[simp] theorem TypeTerm.span_layout (term : TypeTerm) : term.layout.span = term.span := by
  cases term with
  | function signature =>
    cases signature
    rfl
  | _ => rfl

@[simp] theorem Expr.span_layout (e : Expr) : e.layout.span = e.span := by
  cases e with
  | function generics params result body note => cases result <;> rfl
  | _ => rfl

@[simp] theorem Stmt.span_layout (stmt : Stmt) : stmt.layout.span = stmt.span := by
  cases stmt with
  | declare name term value constant span => cases value <;> rfl
  | ifElse condition yes no span => cases no <;> rfl
  | switch subject cases otherwise span => cases otherwise <;> rfl
  | «return» value span => cases value <;> rfl
  | _ => rfl

theorem TypeTerm.layouts_eq_map (terms : List TypeTerm) : layouts terms = terms.map layout :=
  eq_map_of_cons rfl (fun _ _ => rfl) terms

theorem Signature.layouts_append (first second : List Signature) :
    Signature.layouts (first ++ second) = Signature.layouts first ++ Signature.layouts second := by
  induction first with
  | nil => rfl
  | cons signature first ih => rw [List.cons_append, layouts, layouts, ih, List.cons_append]

theorem TypeTerm.all_span {P : Span → Prop} {term : TypeTerm} (all : term.layout.All P) :
    P term.span := by
  rw [← term.span_layout]
  exact all.here

/-- The places in a class declaration are those of its fields and of its constructors'
parameters. -/
theorem ClassDecl.all_rows {P : Span → Prop} {decl : ClassDecl} (all : Layout.AllRows P decl.rows) :
    (∀ group ∈ decl.fields, group.layout.All P) ∧
      ∀ terms ∈ decl.constructors, ∀ term ∈ terms, P term.span := by
  obtain ⟨fields, constructors⟩ := all
  rw [Layout.allRow_iff, List.forall_mem_map] at fields
  rw [Layout.allRows_iff, List.forall_mem_map] at constructors
  refine ⟨fields, fun terms listed => ?_⟩
  have params := constructors terms listed
  rw [TypeTerm.layouts_eq_map, Layout.allRow_iff, List.forall_mem_map] at params
  intro term within
  exact TypeTerm.all_span (params term within)

/-- The places in a function are its own, those of its annotations and those of its body. -/
theorem Expr.all_function {P : Span → Prop} {generics : List String} {params : List Param}
    {result : Option TypeTerm} {body : Block} {note : Note}
    (all : (Expr.function generics params result body note).layout.All P) :
    P note.span ∧ (∀ term ∈ params.map (·.term), P term.span) ∧
      (∀ term ∈ result, P term.span) ∧ body.layout.All P := by
  have terms (each : ∀ x ∈ params.map (·.term.layout), x.All P) :
      ∀ term ∈ params.map (·.term), P term.span := by
    rw [List.forall_mem_map] at each ⊢
    intro param listed
    exact TypeTerm.all_span (each param listed)
  cases result with
  | none =>
    obtain ⟨here, row, _⟩ := all
    obtain ⟨params', rest⟩ := List.forall_mem_append.mp (Layout.allRow_iff.mp row)
    exact ⟨here, terms params', by simp, rest _ (by simp)⟩
  | some term =>
    obtain ⟨here, row, _⟩ := all
    obtain ⟨params', rest⟩ := List.forall_mem_append.mp (Layout.allRow_iff.mp row)
    have there : P term.span := TypeTerm.all_span (rest term.layout (by simp))
    exact ⟨here, terms params', by simpa using there, rest _ (by simp)⟩

end ShapeLang
