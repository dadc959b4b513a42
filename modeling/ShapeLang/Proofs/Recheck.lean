import ShapeLang.Proofs.Annotation
import ShapeLang.Proofs.Totality

/-!
# Checking a tree again

Two trees that differ in their slots only are checked side by side. If the second is what
the first check made of the first, it is not changed any more.
-/

namespace ShapeLang

def Program.bare (p : Program) : Program := ⟨p.body.map Stmt.bare, p.span⟩

namespace Check

/-- Two programs that are the same but for their notes are checked alike. -/
theorem checkProgram_again (p d : Program) (same : d.bare = p.bare) (s : Checker) :
    Paired (checkProgram p) (checkProgram d) s (Again Program.bare d) := by
  obtain ⟨body, span⟩ := p
  obtain ⟨body₂, span₂⟩ := d
  simp only [Program.bare, Program.mk.injEq] at same
  obtain ⟨inside, rfl⟩ := same
  refine (checkStmts_again body body₂ inside s).bind ?_
  rintro _ _ s₁ _ _ ⟨body', body'', ok, kept, again⟩
  refine .pure (.intro _ _ _ ?_ ?_)
  · simp [Program.bare, kept]
  · rintro ⟨⟩
    rw [again rfl]

/-- A check writes into the notes of a program and leaves the rest of it as it was. -/
theorem checkProgram_bare (p : Program) (s : Checker) :
    Gives (checkProgram p) s fun checked _ => checked.1.bare = p.bare :=
  (checkProgram_again p p rfl s).kept

end Check

/-- A program that differs in its slots only is checked to the same end. If it is what the
first check made of the program, it stays as it is. -/
theorem Program.Ran.again {p d q : Program} {w ok : Bool} {start s : Checker} {c : Checked}
    (ran : p.Ran w start q ok s c) (same : d.bare = p.bare) :
    ∃ q', d.Ran w start q' ok s c ∧ (d = q → q' = q) := by
  rcases Check.checkProgram_again p d same start with
    ⟨fault, faulted, _⟩ | ⟨_, _, s', left, right, ⟨a, b, result, _, again⟩⟩
  · cases ran.walked.symm.trans faulted
  · cases ran.walked.symm.trans left
    exact ⟨b, ⟨ran.initial, right, ran.finished⟩, again⟩

/-- A check does not see what stood in the slots before: with other slots the same is handed
on. A second check of the checked program hands on the same too and changes no slot. Where a
tuple is too long to be counted, it is so with other slots too. -/
theorem Program.recheck_same (p p' : Program) (w : Bool) (same : p'.bare = p.bare) :
    (∃ q q' c, p.check w = .ok (q, c) ∧ p'.check w = .ok (q', c) ∧ q.check w = .ok (q, c)) ∨
      p.check w = .error .countOverflow ∧ p'.check w = .error .countOverflow := by
  rcases p.ran w with ⟨start, q, ok, s, c, ran, _⟩ | overflow
  case inr =>
    refine .inr ⟨overflow, (p'.ran w).resolve_left ?_⟩
    rintro ⟨start, q, ok, s, c, ran, _⟩
    obtain ⟨_, other, _⟩ := ran.again same.symm
    cases (Program.check_eq_ok.mpr ⟨start, ok, s, other⟩).symm.trans overflow
  left
  obtain ⟨q', other, _⟩ := ran.again same
  have left : q.bare = p.bare := Check.checkProgram_bare p start _ _ ran.walked
  obtain ⟨q'', second, unchanged⟩ := ran.again left
  obtain rfl := unchanged rfl
  exact ⟨_, q', c, Program.check_eq_ok.mpr ⟨start, ok, s, ran⟩,
    Program.check_eq_ok.mpr ⟨start, ok, s, other⟩, Program.check_eq_ok.mpr ⟨start, ok, s, second⟩⟩

/-- A function, a call of it, a call that fails and a generic function, whose body is left out,
all with the note. -/
def Program.noted (note : Note) : Program :=
  let one : Expr := .literal (.int 1) note
  let text : Expr := .literal (.string "a") note
  let body : Block := ⟨[.return (some (.symbol "x" note)) .null], .null⟩
  ⟨[.define ["f"] (.function [] [⟨"x", .named "int" [] .null⟩] none body note) false .null,
    .expr (.call (.symbol "f" note) [one] note) .null,
    .expr (.call (.symbol "f" note) [text] note) .null,
    .define ["g"] (.function ["T"] [] none body note) false .null], .null⟩

/-- Slots that hold what no check would write there are of no account. -/
theorem Program.recheck_same_noted :
    (noted ⟨.null, some .noneType, some 7⟩).bare = (noted ⟨.null, none, none⟩).bare ∧
    ∃ q q' c, (noted ⟨.null, none, none⟩).check true = .ok (q, c) ∧
      (noted ⟨.null, some .noneType, some 7⟩).check true = .ok (q', c) ∧
      q.check true = .ok (q, c) := by
  have same : (noted ⟨.null, some .noneType, some 7⟩).bare = (noted ⟨.null, none, none⟩).bare := rfl
  refine ⟨same, (recheck_same _ _ true same).resolve_right ?_⟩
  obtain ⟨_, _, checked, _⟩ := Program.check_of_any (p := noted ⟨.null, none, none⟩) (w := true)
    (P := fun _ _ => true) (by decide +kernel)
  rintro ⟨overflow, _⟩
  cases checked.symm.trans overflow

end ShapeLang
