import ShapeLang.Proofs.Mentions
import ShapeLang.Proofs.ReadBack
import ShapeLang.Proofs.Rescan

/-!
# How annotations are shown

An annotation is shown as the type that it denotes. A tuple is stored as runs of equal types,
and since annotations only name classes, equal types are the same type and the runs show the
elements as they were written. What is shown is cut into lexemes again in which there are no
parentheses but those of tuples and of parameter lists.
-/

namespace ShapeLang

/-! ## Equal types -/

/-- Equality of types ignores the name of a class that is a value. It is the same as being equal
for types of which each class is only named. -/
inductive Ty.Named : Ty → Prop where
  | object {name : String} {id : Option ClassId} {generics : List Ty}
      (each : ∀ g ∈ generics, Named g) : Named (.object name id generics)
  | func {os : List Overload} (params : ∀ o ∈ os, ∀ p ∈ o.params, Named p)
      (results : ∀ o ∈ os, Named o.result) : Named (.func os)
  | array {item : Ty} (named : Named item) : Named (.array item)
  | tuple {r : Runs Ty} (each : ∀ a ∈ r.toPairs, Named a.1) : Named (.tuple r)
  | maybe {item : Ty} (named : Named item) : Named (.maybe item)
  | noneType : Named .noneType

namespace Ty

/-- Only the type itself is found equal to it. -/
def Lawful (a : Ty) : Prop := ∀ b, a.beq b = true → a = b

theorem eq_of_beqList {as bs : List Ty} (each : ∀ a ∈ as, ∀ b ∈ bs, a.beq b = true → a = b)
    (same : beqList as bs = true) : as = bs := by
  induction as generalizing bs with
  | nil =>
    cases bs with
    | nil => rfl
    | cons b bs => simp [beqList] at same
  | cons a as ih =>
    cases bs with
    | nil => simp [beqList] at same
    | cons b bs =>
      simp only [List.forall_mem_cons] at each
      rw [beqList, Bool.and_eq_true] at same
      rw [each.1.1 same.1, ih (fun a listed => (each.2 a listed).2) same.2]

theorem eq_of_beqRuns {r s : Runs Ty}
    (each : ∀ a ∈ r.toPairs, ∀ b ∈ s.toPairs, a.1.beq b.1 = true → a.1 = b.1)
    (same : beqRuns r s = true) : r = s := by
  induction r generalizing s with
  | nil =>
    cases s with
    | nil => rfl
    | cons b n s => simp [beqRuns] at same
  | cons a n r ih =>
    cases s with
    | nil => simp [beqRuns] at same
    | cons b m s =>
      simp only [Runs.toPairs, List.forall_mem_cons] at each
      rw [beqRuns, Bool.and_eq_true, Bool.and_eq_true, beq_iff_eq] at same
      rw [each.1.1 same.1.1, same.1.2, ih (fun a listed => (each.2 a listed).2) same.2]

/-- Overloads that are equal are the same, if equal types in them are. -/
theorem eq_of_beqOverloads {os ps : List Overload}
    (params : ∀ o ∈ os, ∀ p ∈ ps, ∀ a ∈ o.params, ∀ b ∈ p.params, a.beq b = true → a = b)
    (results : ∀ o ∈ os, ∀ p ∈ ps, o.result.beq p.result = true → o.result = p.result)
    (same : beqOverloads os ps = true) : os = ps := by
  induction os generalizing ps with
  | nil =>
    cases ps with
    | nil => rfl
    | cons p ps => simp [beqOverloads] at same
  | cons o os ih =>
    cases ps with
    | nil => simp [beqOverloads] at same
    | cons p ps =>
      obtain ⟨generics, takes, result⟩ := o
      obtain ⟨generics', takes', result'⟩ := p
      simp only [List.forall_mem_cons] at params results
      simp only [beqOverloads, Overload.beq, Bool.and_eq_true, beq_iff_eq] at same
      obtain ⟨⟨⟨rfl, first⟩, last⟩, rest⟩ := same
      obtain rfl : takes = takes' := eq_of_beqList params.1.1 first
      obtain rfl : result = result' := results.1.1 last
      rw [ih (fun o listed => (params.2 o listed).2) (fun o listed => (results.2 o listed).2) rest]

/-- By induction on the type: named types are equal only if they are the same. -/
theorem Named.lawful {a : Ty} (named : a.Named) : a.Lawful := by
  induction named with
  | object _ ih =>
    intro b same
    cases b <;> simp only [beq, Bool.and_eq_true, beq_iff_eq, Bool.false_eq_true] at same
    obtain ⟨⟨rfl, rfl⟩, rest⟩ := same
    rw [eq_of_beqList (fun a listed b _ => ih a listed b) rest]
  | func _ _ params results =>
    intro b same
    cases b <;> simp only [beq, Bool.false_eq_true] at same
    rw [eq_of_beqOverloads (fun o listed _ _ a param b _ => params o listed a param b)
      (fun o listed p _ => results o listed p.result) same]
  | array _ ih =>
    intro b same
    cases b <;> simp only [beq, Bool.false_eq_true] at same
    rw [ih _ same]
  | tuple _ ih =>
    intro b same
    cases b <;> simp only [beq, Bool.false_eq_true] at same
    rw [eq_of_beqRuns (fun a listed b _ => ih a listed b.1) same]
  | maybe _ ih =>
    intro b same
    cases b <;> simp only [beq, Bool.false_eq_true] at same
    rw [ih _ same]
  | noneType =>
    intro b same
    cases b <;> simp only [beq, Bool.false_eq_true] at same
    rfl

end Ty

/-! ## Runs -/

namespace Runs

variable {α : Type} [BEq α] {P : α → Prop} {r : Runs α}

theorem toList_pushRun {a : α} (lawful : ∀ b, P b → (b == a) = true → b = a) (holds : r.Forall P)
    (n : Nat) : (r.pushRun a n).toList = r.toList ++ List.replicate n a := by
  fun_induction Runs.pushRun a n r with
  | case1 none_ => simp [toList, none_]
  | case2 => simp [toList]
  | case3 _ _ none_ => simp [none_]
  | case4 b m _ same =>
    obtain rfl := lawful b (forall_cons.mp holds).1 same
    simp [toList]
  | case5 => simp [toList]
  | case6 b m r _ ih => simp [toList, ih (forall_cons.mp holds).2]

theorem toList_ofList {as : List α} (lawful : ∀ a b, P a → (a == b) = true → a = b)
    (holds : ∀ a ∈ as, P a) : (ofList as).toList = as := by
  have pushed (r : Runs α) (start : r.Forall P) :
      (as.foldl (fun r a => r.push a) r).toList = r.toList ++ as := by
    induction as generalizing r with
    | nil => simp
    | cons a as ih =>
      obtain ⟨first, rest⟩ := List.forall_mem_cons.mp holds
      have next := ih rest (r.push a) (start.pushRun first 1)
      rw [List.foldl_cons, next, push, toList_pushRun (fun b => lawful b a) start]
      simp
  simpa [ofList, toList] using pushed nil forall_nil

end Runs

/-! ## What an annotation denotes -/

mutual

/-- By structural induction: an annotation comes to a type in which classes go by name. -/
theorem TypeTerm.lower_named : (a : TypeTerm) → a.lower.Named
  | .named _ generics _ => by
      rw [TypeTerm.lower, TypeTerm.lowerList_eq]
      exact .object (List.forall_mem_map.mpr (TypeTerm.lower_named_of_mem generics))
  | .noneType _ => .noneType
  | .tuple items _ => by
      rw [TypeTerm.lower, TypeTerm.lowerList_eq]
      refine .tuple (Runs.forall_ofList ?_)
      exact List.forall_mem_map.mpr (TypeTerm.lower_named_of_mem items)
  | .function signature => by
      obtain ⟨params, result⟩ := Signature.lower_named signature
      rw [TypeTerm.lower]
      exact .func (by simpa using params) (by simpa using result)
  | .overloads members _ => by
      rw [TypeTerm.lower, TypeTerm.lowerSignatures_eq]
      refine .func (List.forall_mem_map.mpr fun s among => ?_)
        (List.forall_mem_map.mpr fun s among => ?_)
      · exact (Signature.lower_named_of_mem members s among).1
      · exact (Signature.lower_named_of_mem members s among).2
  | .array item _ => .array (TypeTerm.lower_named item)
  | .maybe item _ => .maybe (TypeTerm.lower_named item)
termination_by structural a => a

theorem TypeTerm.lower_named_of_mem : (as : List TypeTerm) → ∀ a ∈ as, a.lower.Named
  | [] => by simp
  | a :: as =>
      List.forall_mem_cons.mpr ⟨TypeTerm.lower_named a, TypeTerm.lower_named_of_mem as⟩
termination_by structural as => as

theorem Signature.lower_named : (s : Signature) →
    (∀ p ∈ s.lower.params, p.Named) ∧ s.lower.result.Named
  | ⟨params, result, _⟩ => by
      rw [Signature.lower, TypeTerm.lowerList_eq]
      exact ⟨List.forall_mem_map.mpr (TypeTerm.lower_named_of_mem params),
        TypeTerm.lower_named result⟩
termination_by structural s => s

theorem Signature.lower_named_of_mem : (ss : List Signature) →
    ∀ s ∈ ss, (∀ p ∈ s.lower.params, p.Named) ∧ s.lower.result.Named
  | [] => by simp
  | s :: ss =>
      List.forall_mem_cons.mpr ⟨Signature.lower_named s, Signature.lower_named_of_mem ss⟩
termination_by structural ss => ss

end

/-! ## How an annotation is shown -/

namespace TypeTerm

variable {name : String} {as : List TypeTerm} {a : TypeTerm} {s : Signature}
  {members : List Signature} {span : Span}

theorem text_named_nil : (named name [] span).text = name := by
  rw [text, lower, lowerList, Ty.text]

theorem text_named (some_ : as ≠ []) :
    (named name as span).text = name ++ "<" ++ commaList (as.map text) ++ ">" := by
  rw [text, lower, lowerList_eq, Ty.text_object (by simpa using some_), List.map_map]
  rfl

theorem text_noneType : (noneType span).text = "none" := by
  rw [text, lower, Ty.text]

theorem toList_lowered : (Runs.ofList (as.map lower)).toList = as.map lower :=
  Runs.toList_ofList (fun _ b named => named.lawful b)
    (List.forall_mem_map.mpr (lower_named_of_mem as))

theorem text_tuple : (tuple as span).text =
    "(" ++ commaList (as.map text) ++ (if as.length = 1 then "," else "") ++ ")" := by
  have length : (Runs.ofList (as.map lower)).length = as.length := by
    rw [← Runs.length_toList, toList_lowered, List.length_map]
  rw [text, lower, lowerList_eq, Ty.text_tuple, toList_lowered, length, List.map_map]
  rfl

/-- A function is shown with its parameters in parentheses and its result behind an arrow. -/
theorem text_function : (function s).text =
    "(" ++ commaList (s.params.map text) ++ ") -> " ++ s.result.text := by
  rw [text, lower, Ty.text_func, List.map_singleton, String.intercalate_singleton,
    Signature.lower_eq, Overload.text_eq, List.map_map]
  rfl

theorem text_overloads : (overloads members span).text =
    String.intercalate " & " (members.map fun s => (function s).text) := by
  have each (s : Signature) : s.lower.text = (function s).text := by
    rw [text, lower, Ty.text_func, List.map_singleton, String.intercalate_singleton]
  rw [text, lower, lowerSignatures_eq, Ty.text_func, List.map_map]
  exact congrArg _ (List.map_congr_left fun s _ => each s)

theorem text_array : (array a span).text = a.text ++ "[]" := by
  rw [text, lower, Ty.text, text]

theorem text_maybe : (maybe a span).text = a.text ++ "?" := by
  rw [text, lower, Ty.text, text]

end TypeTerm

/-! ## The lexemes of what is shown -/

open Lexeme

mutual

def TypeTerm.shown : TypeTerm → List Lexeme
  | .named name generics _ => .name name :: angled (TypeTerm.shownAll generics)
  | .noneType _ => [mark .noneWord]
  | .tuple items _ => tupled (TypeTerm.shownAll items)
  | .function signature => signature.shown
  | .overloads members _ => separated .ampersand (Signature.shownAll members)
  | .array item _ => item.shown ++ brackets []
  | .maybe item _ => item.shown ++ [mark .question]

def TypeTerm.shownAll : List TypeTerm → List (List Lexeme)
  | [] => []
  | a :: as => a.shown :: TypeTerm.shownAll as

def Signature.shown : Signature → List Lexeme
  | ⟨params, result, _⟩ =>
      parens (separated .comma (TypeTerm.shownAll params)) ++ mark .arrow :: result.shown

def Signature.shownAll : List Signature → List (List Lexeme)
  | [] => []
  | s :: ss => s.shown :: Signature.shownAll ss

end

@[simp] theorem TypeTerm.shownAll_eq (as : List TypeTerm) :
    TypeTerm.shownAll as = as.map TypeTerm.shown :=
  eq_map_of_cons rfl (fun _ _ => rfl) as

@[simp] theorem Signature.shownAll_eq (ss : List Signature) :
    Signature.shownAll ss = ss.map Signature.shown :=
  eq_map_of_cons rfl (fun _ _ => rfl) ss

/-- An annotation as it can be read from a source: its names are names, and where there are
overloads there are at least two. -/
inductive TypeTerm.Legible : TypeTerm → Prop where
  | named {name : String} {generics : List TypeTerm} {span : Span} (word : Token.IsName name)
      (each : ∀ g ∈ generics, Legible g) : Legible (.named name generics span)
  | noneType {span : Span} : Legible (.noneType span)
  | tuple {items : List TypeTerm} {span : Span} (each : ∀ a ∈ items, Legible a) :
      Legible (.tuple items span)
  | function {params : List TypeTerm} {result : TypeTerm} {span : Span}
      (each : ∀ p ∈ params, Legible p) (last : Legible result) :
      Legible (.function ⟨params, result, span⟩)
  | overloads {members : List Signature} {span : Span} (two : 2 ≤ members.length)
      (each : ∀ s ∈ members, Legible (.function s)) : Legible (.overloads members span)
  | array {item : TypeTerm} {span : Span} (legible : Legible item) : Legible (.array item span)
  | maybe {item : TypeTerm} {span : Span} (legible : Legible item) : Legible (.maybe item span)

/-- What is shown of an annotation is cut into the lexemes again. -/
theorem TypeTerm.Legible.lexes {a : TypeTerm} (legible : a.Legible) :
    Token.Lexes a.text a.shown := by
  induction legible with
  | @named name generics span word _ each =>
    rw [shown, shownAll_eq]
    cases generics with
    | nil =>
      rw [text_named_nil]
      exact .name word
    | cons g generics =>
      rw [text_named (by simp)]
      exact .generic word (by simp) each
  | noneType =>
    rw [text_noneType]
    exact .noneWord
  | tuple _ each =>
    rw [text_tuple, shown, shownAll_eq]
    exact .tuple each
  | function _ _ each last =>
    rw [text_function, shown, Signature.shown, shownAll_eq]
    exact .arrow each last
  | @overloads members span two _ each =>
    have some_ : members ≠ [] := List.ne_nil_of_length_pos (by omega)
    rw [text_overloads, shown, Signature.shownAll_eq]
    exact .joined some_ each
  | array _ item =>
    rw [text_array, shown]
    exact item.array
  | maybe _ item =>
    rw [text_maybe, shown]
    exact item.maybe

end ShapeLang
