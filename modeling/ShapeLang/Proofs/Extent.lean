import Mathlib.Algebra.GroupWithZero.Nat
import ShapeLang.Tree

/-!
# How far code can widen tuples

The extent of code says how long the tuples are that it writes down, and how many times longer
than those at hand it can make them by spreading. So there is a bound on the length of tuples
that can be read off the code.
-/

namespace ShapeLang

/-! ## Annotations -/

mutual

/-- The length of the longest tuple that the annotation spells out. -/
def TypeTerm.longest : TypeTerm → Nat
  | .named _ generics _ => TypeTerm.longestOf generics
  | .noneType _ => 0
  | .tuple items _ => max items.length (TypeTerm.longestOf items)
  | .function signature => signature.longest
  | .overloads members _ => TypeTerm.longestMember members
  | .array item _ => item.longest
  | .maybe item _ => item.longest

def TypeTerm.longestOf : List TypeTerm → Nat
  | [] => 0
  | a :: as => max a.longest (TypeTerm.longestOf as)

def TypeTerm.longestMember : List Signature → Nat
  | [] => 0
  | s :: ss => max s.longest (TypeTerm.longestMember ss)

def Signature.longest : Signature → Nat
  | ⟨params, result, _⟩ => max (TypeTerm.longestOf params) result.longest

end

theorem TypeTerm.longest_le_of_mem {term : TypeTerm} {terms : List TypeTerm}
    (listed : term ∈ terms) : term.longest ≤ TypeTerm.longestOf terms := by
  induction terms with
  | nil => cases listed
  | cons first terms ih =>
    rcases List.mem_cons.mp listed with rfl | listed
    · exact Nat.le_max_left _ _
    · exact Nat.le_trans (ih listed) (Nat.le_max_right _ _)

theorem TypeTerm.longestOf_append (terms more : List TypeTerm) :
    TypeTerm.longestOf (terms ++ more) =
      max (TypeTerm.longestOf terms) (TypeTerm.longestOf more) := by
  induction terms with
  | nil => exact (Nat.zero_max _).symm
  | cons term terms ih =>
    rw [List.cons_append, TypeTerm.longestOf, ih, TypeTerm.longestOf, Nat.max_assoc]

/-! ## Extents -/

def Ty.isSpread : Ty → Bool
  | spread _ => true
  | _ => false

/-- The value of the expression may be several elements of the tuple that lists it. -/
def Expr.opens : Expr → Bool
  | .spread .. | .call .. | .index .. => true
  | _ => false

structure Extent where
  /-- The length of the longest tuple that is written down. -/
  longest : Nat
  /-- How many times longer than before a tuple can get. -/
  growth : Nat
  positive : 0 < growth

namespace Extent

def nothing : Extent := ⟨0, 1, Nat.one_pos⟩

def ofTerm (term : TypeTerm) : Extent := ⟨term.longest, 1, Nat.one_pos⟩

def ofTerms (terms : List TypeTerm) : Extent := ⟨TypeTerm.longestOf terms, 1, Nat.one_pos⟩

/-- A tuple by itself, whatever its items are. -/
def ofItems (items : List Expr) : Extent where
  longest := items.length
  growth := if items.any Expr.opens then items.length else 1
  positive := by
    cases items with
    | nil => exact Nat.one_pos
    | cons e es =>
      split
      · exact Nat.succ_pos _
      · exact Nat.one_pos

def and (x y : Extent) : Extent :=
  ⟨max x.longest y.longest, x.growth * y.growth, Nat.mul_pos x.positive y.positive⟩

/-- From tuples of at most `B` elements the code leads to none with more than `C`. -/
structure Leads (x : Extent) (B C : Nat) : Prop where
  start : 0 < B
  longest : x.longest ≤ B
  growth : B * x.growth ≤ C

namespace Leads

variable {x y : Extent} {B C : Nat}

theorem le (leads : x.Leads B C) : B ≤ C :=
  Nat.le_trans (Nat.le_mul_of_pos_right B x.positive) leads.growth

theorem left (leads : (x.and y).Leads B C) : x.Leads B C where
  start := leads.start
  longest := Nat.le_trans (Nat.le_max_left _ _) leads.longest
  growth := Nat.le_trans (Nat.mul_le_mul_left B (Nat.le_mul_of_pos_right _ y.positive))
    leads.growth

theorem right (leads : (x.and y).Leads B C) : y.Leads B C where
  start := leads.start
  longest := Nat.le_trans (Nat.le_max_right _ _) leads.longest
  growth := Nat.le_trans (Nat.mul_le_mul_left B (Nat.le_mul_of_pos_left _ x.positive))
    leads.growth

/-- From tuples no shorter than the ones it writes down, code leads as far as it can. -/
theorem self (x : Extent) {B : Nat} (start : 0 < B) (longest : x.longest ≤ B) :
    x.Leads B (B * x.growth) := ⟨start, longest, Nat.le_refl _⟩

/-- What the first piece leads to is what the second starts from. -/
theorem through (leads : (x.and y).Leads B C) : ∃ M, x.Leads B M ∧ y.Leads M C := by
  refine ⟨B * x.growth, ⟨leads.start, leads.left.longest, Nat.le_refl _⟩, ?_, ?_, ?_⟩
  · exact Nat.mul_pos leads.start x.positive
  · exact Nat.le_trans leads.right.longest (Nat.le_mul_of_pos_right B x.positive)
  · rw [Nat.mul_assoc]
    exact leads.growth

end Leads

end Extent

def ClassDecl.extent (decl : ClassDecl) : Extent :=
  (Extent.ofTerms (decl.fields.map (·.term))).and (.ofTerms decl.constructors.flatten)

mutual

def Expr.extent : Expr → Extent
  | .literal .. => .nothing
  | .symbol .. => .nothing
  | .member object _ _ => object.extent
  | .call callee args _ => callee.extent.and (Expr.extents args)
  | .index object position _ => object.extent.and position.extent
  | .construct _ args _ => Expr.extents args
  | .cast value target _ => value.extent.and (.ofTerm target)
  | .tuple items _ => (Expr.extents items).and (.ofItems items)
  | .spread value _ => value.extent
  | .array items _ => Expr.extents items
  | .binary left _ right _ => left.extent.and right.extent
  | .function _ params result body _ =>
      ((Extent.ofTerms (params.map (·.term))).and (.ofTerms result.toList)).and body.extent

def Expr.extents : List Expr → Extent
  | [] => .nothing
  | e :: es => e.extent.and (Expr.extents es)

def Stmt.extent : Stmt → Extent
  | .expr value _ => value.extent
  | .define _ value _ _ => value.extent
  | .declare _ term none _ _ => .ofTerm term
  | .declare _ term (some value) _ _ => (Extent.ofTerm term).and value.extent
  | .classDecl decl _ => decl.extent
  | .methods .. => .nothing
  | .ifElse condition yes none _ => condition.extent.and yes.extent
  | .ifElse condition yes (some no) _ => condition.extent.and (yes.extent.and no.extent)
  | .whileLoop condition body _ => condition.extent.and body.extent
  | .doWhile body condition _ => body.extent.and condition.extent
  | .switch subject cases none _ => subject.extent.and (Case.extents cases)
  | .switch subject cases (some otherwise) _ =>
      subject.extent.and ((Case.extents cases).and otherwise.extent)
  | .return none _ => .nothing
  | .return (some value) _ => value.extent

def Stmt.extents : List Stmt → Extent
  | [] => .nothing
  | s :: ss => s.extent.and (Stmt.extents ss)

def Block.extent : Block → Extent
  | ⟨body, _⟩ => Stmt.extents body

def Case.extents : List Case → Extent
  | [] => .nothing
  | ⟨pattern, body, _⟩ :: cases => (pattern.extent.and body.extent).and (Case.extents cases)

def Pattern.extent : Pattern → Extent
  | .type _ term => .ofTerm term
  | .value value => value.extent

end

/-- More elements than that no tuple has that a check of the program comes across. -/
def Program.capacity (p : Program) : Nat :=
  max 1 (Stmt.extents p.body).longest * (Stmt.extents p.body).growth

/-- The capacity of a program is where its own code leads from the tuples in its annotations. -/
theorem Program.leads (p : Program) :
    (Stmt.extents p.body).Leads (max 1 (Stmt.extents p.body).longest) p.capacity :=
  .self _ (Nat.le_max_left _ _) (Nat.le_max_right _ _)

end ShapeLang
