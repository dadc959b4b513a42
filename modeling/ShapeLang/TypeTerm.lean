import ShapeLang.Span
import ShapeLang.Ty

/-!
# Type annotations

Types as they are written, with their places. Lowering forgets the places and
leaves class names unresolved.
-/

namespace ShapeLang

mutual

inductive TypeTerm where
  | named (name : String) (generics : List TypeTerm) (span : Span)
  | noneType (span : Span)
  | tuple (items : List TypeTerm) (span : Span)
  | function (signature : Signature)
  /-- Function types joined by an ampersand. -/
  | overloads (members : List Signature) (span : Span)
  | array (item : TypeTerm) (span : Span)
  | maybe (item : TypeTerm) (span : Span)

/-- A function type as written. -/
structure Signature where
  params : List TypeTerm
  result : TypeTerm
  span : Span

end

instance : Inhabited TypeTerm := ⟨.noneType .null⟩

namespace TypeTerm

def span : TypeTerm → Span
  | named _ _ s | noneType s | tuple _ s | overloads _ s | array _ s | maybe _ s => s
  | function signature => signature.span

/-- The members that a function type brings to an overload set. -/
def signatures? : TypeTerm → Option (List Signature)
  | function signature => some [signature]
  | overloads members _ => some members
  | _ => none

def isFunction (a : TypeTerm) : Bool := a.signatures?.isSome

end TypeTerm

mutual

/-- The type an annotation denotes, its class names not yet resolved. -/
def TypeTerm.lower : TypeTerm → Ty
  | .named name generics _ => .object name none (TypeTerm.lowerList generics)
  | .noneType _ => .noneType
  | .tuple items _ => .tuple (.ofList (TypeTerm.lowerList items))
  | .function signature => .func [signature.lower]
  | .overloads members _ => .func (TypeTerm.lowerSignatures members)
  | .array item _ => .array item.lower
  | .maybe item _ => .maybe item.lower

def TypeTerm.lowerList : List TypeTerm → List Ty
  | [] => []
  | a :: as => a.lower :: TypeTerm.lowerList as

def TypeTerm.lowerSignatures : List Signature → List Overload
  | [] => []
  | s :: ss => s.lower :: TypeTerm.lowerSignatures ss

def Signature.lower : Signature → Overload
  | ⟨params, result, _⟩ => ⟨[], TypeTerm.lowerList params, result.lower⟩

end

theorem TypeTerm.lowerList_eq (as : List TypeTerm) :
    TypeTerm.lowerList as = as.map TypeTerm.lower := by
  induction as with
  | nil => rfl
  | cons a as ih => rw [TypeTerm.lowerList, ih, List.map_cons]

theorem TypeTerm.lowerSignatures_eq (ss : List Signature) :
    TypeTerm.lowerSignatures ss = ss.map Signature.lower := by
  induction ss with
  | nil => rfl
  | cons s ss ih => rw [TypeTerm.lowerSignatures, ih, List.map_cons]

theorem Signature.lower_eq (s : Signature) :
    s.lower = ⟨[], s.params.map TypeTerm.lower, s.result.lower⟩ := by
  obtain ⟨params, result, span⟩ := s
  rw [Signature.lower, TypeTerm.lowerList_eq]

/-- An annotation is shown as the type it denotes. -/
def TypeTerm.text (a : TypeTerm) : String := a.lower.text

end ShapeLang
