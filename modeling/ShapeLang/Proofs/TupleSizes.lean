import ShapeLang.Proofs.Breadth
import ShapeLang.Proofs.Reached

/-!
# Tuples stay within the capacity of the program

A program starts without tuples, and the bound on their length is a discipline. So the capacity
of a program, which is read off its code, bounds all tuples that its check comes across; if it is
below that of machine words, no count ever overflows and every tuple has the elements that its
items bring with them. Otherwise one may: in a chain of tuples of which each spreads the one
before sixteen times, the sixteenth is too long.
-/

namespace ShapeLang

/-- No tuple that a variable, a return type, a field or a constructor holds is longer. -/
def Checker.Within (limit : Nat) (s : Checker) : Prop := s.Obeys breadth s.classes limit

/-- At the start there are no tuples. -/
theorem Checker.initial_within {w : Bool} {s : Checker} (initial : Checker.initial w = .ok s) :
    s.Within 1 := by
  have computed : ((Checker.initial w).toOption.any fun s => decide (
      (∀ entry ∈ s.frame.bindings.entries,
        entry.2.type.isSpread = false ∧ entry.2.type.AtMost 1 true) ∧
      ∀ c ∈ s.classes.classes, c.constructors.isEmpty = true ∧
        ∀ entry ∈ c.fields.entries, entry.2.AtMost 1 false)) = true := by
    cases w <;> decide +kernel
  obtain ⟨_, ran, holds⟩ := exists_ok_of_any computed
  obtain ⟨⟨builtins, classes⟩, _, rest⟩ := bind_eq_ok.mp initial
  obtain ⟨bindings, _, same⟩ := bind_eq_ok.mp rest
  cases initial.symm.trans ran
  obtain ⟨bound, declared⟩ := of_decide_eq_true holds
  cases same
  refine ⟨⟨⟨fun name b found => bound _ (NameMap.mem_of_lookup found), nofun, nofun⟩, nofun⟩, rfl,
    fun c listed => ⟨(declared c listed).2, ?_⟩⟩
  rw [List.isEmpty_iff.mp (declared c listed).1]
  exact nofun

namespace Check

theorem tupleType_run {types : List Ty} (fits : (Ty.gathered .nil types).length < countLimit)
    (s : Checker) : tupleType types s = .ok (some (.tuple (Ty.gathered .nil types)), s) := by
  have collected := Ty.collect_eq_ok.mpr ⟨fits, rfl⟩
  rw [tupleType, collected]
  rfl

/-- A tuple whose items lead to few enough elements has all of them. -/
theorem tuple_gathers {B C : Nat} {items : List Expr} {note : Note} {s s' : Checker}
    {checked : Expr} {type : Ty} (small : C < countLimit) (orderly : s.Orderly breadth s.classes B)
    (leads : (Expr.tuple items note).extent.Leads B C)
    (ran : checkExpr (.tuple items note) s = .ok ((checked, some type), s')) :
    ∃ listed types, checkExprs items s = .ok ((listed, some types), s') ∧
      (Ty.gathered .nil types).length ≤ C ∧ type = .tuple (Ty.gathered .nil types) := by
  rw [Expr.extent] at leads
  obtain ⟨M, before, widened⟩ := leads.through
  rw [checkExpr] at ran
  obtain ⟨⟨⟨listed, types⟩, s₁⟩, looked, rest⟩ := bind_eq_ok.mp ran
  have found := ((checkExprs_orderly items before s orderly).of_ran looked).2
  cases types with
  | none => cases rest
  | some types =>
    have few := Ty.length_gathered_le (found types rfl).2 widened
    have made := tupleType_run (Nat.lt_of_le_of_lt few small) s₁
    cases (bind_ok made).symm.trans rest
    exact ⟨listed, types, looked, few, rfl⟩

end Check

open Check in
/-- In a program of small capacity no count overflows: the check ends, and so does that of every
expression on the way. No type that the checker holds or that is found for an expression is that
of a tuple with more elements than the capacity, and the type of a tuple expression has all the
elements that its items bring with them. -/
theorem Program.counts_fit {p : Program} {w : Bool} (small : p.capacity < countLimit) :
    (∃ q c, p.check w = .ok (q, c)) ∧
    ∀ code s, p.Meets w code s → s.Within p.capacity ∧
      ∀ e, code = .expr e → ∃ checked found s', checkExpr e s = .ok ((checked, found), s') ∧
        ∀ type ∈ found, type.AtMost p.capacity true ∧
          ∀ items note, e = .tuple items note → ∃ listed types,
            checkExprs items s = .ok ((listed, some types), s') ∧
            (Ty.gathered .nil types).length ≤ p.capacity ∧
            type = .tuple (Ty.gathered .nil types) := by
  have short : ¬breadth.excess p.capacity := Nat.not_le.mpr small
  refine ⟨?_, fun code s met => ?_⟩
  · rcases p.ran_orderly fun _ => Checker.initial_within with
      ⟨start, q, ok, s, c, ran, _⟩ | ⟨long, _⟩
    · exact ⟨q, c, Program.check_eq_ok.mpr ⟨start, ok, s, ran⟩⟩
    · exact absurd long short
  obtain ⟨B, orderly, leads⟩ := met.orderly fun _ => Checker.initial_within
  refine ⟨orderly.obeys.mono leads.le, ?_⟩
  rintro e rfl
  obtain ⟨⟨checked, found⟩, s', ran, _, limited⟩ :=
    (checkExpr_orderly e leads s orderly).resolve short
  refine ⟨checked, found, s', ran, fun type given => ⟨(limited type given).2.1, ?_⟩⟩
  rintro items note rfl
  cases given
  exact tuple_gathers small orderly leads ran

/-! ## A chain of tuples -/

namespace Program

def link (k : Nat) : String := String.singleton (Char.ofNat (97 + k))

/-- Sixteen numbers to begin with, then sixteen times the tuple before. -/
def links : Nat → List Expr
  | 0 => List.replicate 16 (.literal (.int 1) ⟨.null, none, none⟩)
  | k + 1 =>
      List.replicate 16 (.spread (.symbol (link k) ⟨.null, none, none⟩) ⟨.null, none, none⟩)

/-- `a = (1, 1, …); b = (...a, ...a, …); c = (...b, ...b, …)` and so on. -/
def chain (n : Nat) : Program :=
  ⟨(List.range n).map fun k =>
    .define [link k] (.tuple (links k) ⟨.null, none, none⟩) false .null, .null⟩

/-- The last tuple of the chain is met, with what is known of the checker then. -/
theorem chain_meets {n : Nat} {P : Checker → Bool}
    (computed : ((Program.reach false (chain n).body).toOption.any P) = true) :
    ∃ s, (chain (n + 1)).Meets false (.expr (.tuple (links n) ⟨.null, none, none⟩)) s ∧
      P s = true := by
  obtain ⟨s, reached, holds⟩ := exists_ok_of_any computed
  have last : (chain (n + 1)).body = (chain n).body ++
      [.define [link n] (.tuple (links n) ⟨.null, none, none⟩) false .null] := by
    simp [chain, List.range_succ]
  have met := (Program.Meets.of_reach last reached).first
  exact ⟨s, met.value (List.mem_singleton_self _), holds⟩

open Check in
/-- Fifteen links have fewer elements than a machine word counts. -/
theorem counts_fit_chain : (chain 15).capacity < countLimit ∧
    (∃ q c, (chain 15).check false = .ok (q, c)) ∧
    ∃ s checked type s', (chain 15).Meets false
        (.expr (.tuple (links 14) ⟨.null, none, none⟩)) s ∧ s.Within (chain 15).capacity ∧
      checkExpr (.tuple (links 14) ⟨.null, none, none⟩) s = .ok ((checked, some type), s') ∧
      type.AtMost (chain 15).capacity true ∧
      type.toSpread?.any (·.share == 1152921504606846976) = true := by
  have small : (chain 15).capacity < countLimit := by decide +kernel
  have computed : ((Program.reach false (chain 14).body).toOption.any fun s =>
      (checkExpr (.tuple (links 14) ⟨.null, none, none⟩) s).toOption.any fun result =>
        result.1.2.any fun type =>
          type.toSpread?.any (·.share == 1152921504606846976)) = true := by
    decide +kernel
  obtain ⟨s, met, later⟩ := chain_meets computed
  obtain ⟨⟨⟨checked, found⟩, s'⟩, ran, holds⟩ := exists_ok_of_any later
  obtain ⟨ends, each⟩ := Program.counts_fit (w := false) small
  obtain ⟨within, typed⟩ := each _ s met
  obtain ⟨_, _, _, ran', limited⟩ := typed _ rfl
  cases ran.symm.trans ran'
  cases found with
  | none => cases holds
  | some type => exact ⟨small, ends, s, checked, type, s', met, within, ran,
      (limited type rfl).1, holds⟩

open Check in
/-- The sixteenth link has one element more than a machine word counts: adding them up overflows,
and so does the check of the program. -/
theorem counts_overflow : (∃ s listed types s', (chain 16).Meets false
        (.expr (.tuple (links 15) ⟨.null, none, none⟩)) s ∧
      checkExprs (links 15) s = .ok ((listed, some types), s') ∧
      (Ty.gathered .nil types).length = countLimit ∧
      Ty.collect types = .error .countOverflow) ∧
    (chain 16).check false = .error .countOverflow := by
  have computed : ((Program.reach false (chain 15).body).toOption.any fun s =>
      (checkExprs (links 15) s).toOption.any fun result => result.1.2.any fun types =>
        (Ty.gathered .nil types).length == countLimit) = true := by
    decide +kernel
  have failed : ((chain 16).check false).toOption.isNone = true := by decide +kernel
  constructor
  · obtain ⟨s, met, later⟩ := chain_meets computed
    obtain ⟨⟨⟨listed, found⟩, s'⟩, ran, holds⟩ := exists_ok_of_any later
    cases found with
    | none => cases holds
    | some types =>
      have long := beq_iff_eq.mp holds
      exact ⟨s, listed, types, s', met, ran, long, Ty.collect_overflow.mpr (Nat.le_of_eq long.symm)⟩
  · rcases (chain 16).ran false with ⟨_, q, _, _, c, ran, _⟩ | overflow
    · rw [Program.check_eq_ok.mpr ⟨_, _, _, ran⟩] at failed
      cases failed
    · exact overflow

end Program

end ShapeLang
