import ShapeLang.Proofs.Growth
import ShapeLang.Proofs.Hierarchy

/-!
# What later declarations leave alone

A class declaration puts one class behind those that are there. It neither changes
an earlier class nor how two earlier classes relate, so that a verdict about types
that mention earlier classes only is the same from then on.
-/

namespace ShapeLang

namespace ClassTable

variable {t t' t'' : ClassTable}

/-- The second table has the classes of the first and may have others behind them. All that
it knows in addition is about one of these. -/
structure Precedes (t t' : ClassTable) : Prop where
  classes : t.classes <+: t'.classes
  kept : t.fits ⊆ t'.fits
  added : ∀ pair ∈ t'.fits,
    pair ∈ t.fits ∨ t.classes.length ≤ pair.1 ∨ t.classes.length ≤ pair.2

namespace Precedes

theorem refl (t : ClassTable) : t.Precedes t :=
  ⟨List.prefix_rfl, List.Subset.refl _, fun _ listed => .inl listed⟩

theorem trans (first : t.Precedes t') (second : t'.Precedes t'') : t.Precedes t'' := by
  refine ⟨first.classes.trans second.classes, List.Subset.trans first.kept second.kept, ?_⟩
  intro pair listed
  have fewer := first.classes.length_le
  rcases second.added pair listed with before | new | new
  · exact first.added pair before
  · exact .inr (.inl (by omega))
  · exact .inr (.inr (by omega))

variable (precedes : t.Precedes t')
include precedes

theorem get {id : ClassId} (known : id < t.classes.length) : t'.get id = t.get id := by
  obtain ⟨more, same⟩ := precedes.classes
  unfold ClassTable.get
  rw [← same, List.getElem?_append_left known]

theorem isA_mono {a b : ClassId} (fits : t.isA a b = true) : t'.isA a b = true := by
  rw [isA_iff] at fits ⊢
  exact fits.imp id fun listed => precedes.kept listed

theorem isA {a b : ClassId} (left : a < t.classes.length) (right : b < t.classes.length) :
    t'.isA a b = t.isA a b := by
  have back (fits : t'.isA a b = true) : t.isA a b = true := by
    rw [isA_iff] at fits ⊢
    refine fits.imp id fun listed => ?_
    rcases precedes.added _ listed with before | new | new
    · exact before
    · exact absurd left (by simpa using new)
    · exact absurd right (by simpa using new)
  exact Bool.eq_iff_iff.mpr ⟨back, precedes.isA_mono⟩

variable (coherent : t.Coherent)
include coherent

theorem satisfies {a b : ClassId} (left : a < t.classes.length) (right : b < t.classes.length) :
    t.satisfies a b = t'.satisfies a b := by
  have limited {id : ClassId} (known : id < t.classes.length) (c : Class)
      (got : t.get id = .ok c) : c.Over (· < t.classes.length) :=
    (coherent.mentions id c got).mono fun _ mentioned => coherent.below known mentioned
  exact satisfies_congr (fun _ _ known known' => (precedes.isA known known').symm)
    (precedes.get left).symm (precedes.get right).symm (limited left) (limited right)

/-- Two types over classes that were there compare as before. -/
theorem compare {a b : Ty} (left : a.Known t.classes.length) (right : b.Known t.classes.length) :
    t.compare a b = t'.compare a b :=
  compareWith_congr (fun _ _ known known' => (precedes.isA known known').symm)
    (fun x y known known' => precedes.satisfies (a := x) (b := y) coherent known known')
    a b left right

end Precedes

/-- Every pair that comes of registering a class has it on one side. -/
theorem newFits_mentions {id : ClassId} {others : List ClassId} {fits : List (ClassId × ClassId)}
    (ran : t.newFits id others = .ok fits) : ∀ pair ∈ fits, pair.1 = id ∨ pair.2 = id := by
  induction others generalizing fits with
  | nil =>
    cases ran
    simp
  | cons other others ih =>
    rw [newFits] at ran
    obtain ⟨up, _, ran⟩ := bind_eq_ok.mp ran
    obtain ⟨down, _, ran⟩ := bind_eq_ok.mp ran
    obtain ⟨rest, found, same⟩ := bind_eq_ok.mp ran
    cases same
    intro pair listed
    rcases List.mem_append.mp listed with new | later
    · rcases List.mem_append.mp new with above | below
      · split at above
        · exact .inl (congrArg Prod.fst (List.mem_singleton.mp above))
        · cases above
      · split at below
        · exact .inr (congrArg Prod.snd (List.mem_singleton.mp below))
        · cases below
    · exact ih found pair later

/-- Registering the class appended last changes nothing between the others. -/
theorem precedes_register {c : Class}
    (ran : (t.append c).register t.classes.length = .ok t') : t.Precedes t' := by
  obtain ⟨_, fits, compared, rfl⟩ := register_eq_ok ran
  refine ⟨List.prefix_append _ _, List.subset_append_left _ _, ?_⟩
  intro pair listed
  rcases List.mem_append.mp listed with before | new
  · exact .inl before
  · rcases newFits_mentions compared pair new with same | same
    · exact .inr (.inl (Nat.le_of_eq same.symm))
    · exact .inr (.inr (Nat.le_of_eq same.symm))

end ClassTable

/-- The type of a field of the class, as its term says. -/
def ClassDecl.Denotes (decl : ClassDecl) (ids : NameMap ClassId) (type : Ty) : Prop :=
  ∃ group ∈ decl.fields, group.term.lower.resolve ids = (type, none)

namespace Check

/-! ## Class declarations -/

/-- What a class declaration makes of the classes: nothing, or one more class, which can be
mentioned in its own fields and is registered. -/
inductive DeclOutcome (decl : ClassDecl) (t : ClassTable) : ClassTable → Prop where
  | refused : DeclOutcome decl t t
  | declared {constructors : List (List Ty)} {fields : NameMap Ty} {t' : ClassTable}
      (denoted : ∀ entry ∈ fields.entries,
        decl.Denotes (t.ids.insert decl.name t.classes.length) entry.2)
      (registered : (t.append ⟨decl.name, constructors, fields⟩).register t.classes.length =
        .ok t') :
      DeclOutcome decl t t'

theorem declareNamed_classes (decl : ClassDecl) (span : Span) {s : Checker} :
    Gives (declareNamed decl span) s fun _ s' => DeclOutcome decl s.classes s'.classes := by
  refine (claimClass_outcome decl.name).bind fun result s₁ outcome => ?_
  cases outcome with
  | taken old => exact .after_modify (.pure .refused)
  | @claimed id classes free declared =>
    obtain ⟨rfl, rfl⟩ := ClassTable.declare_ok declared
    refine .after_get (.after_lift fun type _ => ?_)
    refine .after_run (define_fresh free) ?_
    have none : ∀ entry ∈ (NameMap.empty : NameMap Ty).entries,
        decl.Denotes (s.classes.ids.insert decl.name s.classes.classes.length) entry.2 := nofun
    refine ((collectFields_fields none decl.fields _ fun group listed type found =>
      ⟨group, listed, found⟩).and (collectFields_notes _ _ _)).bind ?_
    rintro ⟨fieldsOk, fields⟩ s₃ ⟨denoted, noted⟩
    refine (collectConstructors_notes _ _).bind ?_
    rintro ⟨constructorsOk, constructors⟩ s₄ noted'
    have classes : s₄.classes = s.classes.append { name := decl.name } :=
      (noted.trans noted').classes
    refine .after_get (.after_lift fun filled modified => .after_lift fun registered ran => ?_)
    rw [classes, ClassTable.modify_append _ _ rfl] at modified
    cases modified
    exact .after_set (.pure (.declared denoted ran))

theorem declareClass_classes (decl : ClassDecl) (span : Span) {s : Checker} :
    Gives (declareClass decl span) s fun _ s' => DeclOutcome decl s.classes s'.classes := by
  cases root : s.atRoot with
  | false =>
    refine (declareClass_advances decl span s).imp fun _ s' advanced => ?_
    rw [advanced.classes root]
    exact .refused
  | true =>
    refine .of_run (declareClass_root decl span root) ?_
    refine (warnIf_notes _ _ _ s).bind fun _ s₁ noted => ?_
    refine (warnIf_notes _ _ _ s₁).bind fun _ s₂ noted' => ?_
    rw [← (noted.trans noted').classes]
    exact declareNamed_classes decl span

theorem DeclOutcome.precedes {decl : ClassDecl} {t t' : ClassTable}
    (outcome : DeclOutcome decl t t') : t.Precedes t' := by
  cases outcome with
  | refused => exact .refl t
  | declared _ registered => exact ClassTable.precedes_register registered

/-- A statement adds classes behind those that there were. -/
theorem checkStmt_precedes (stmt : Stmt) (s : Checker) :
    Gives (checkStmt stmt) s fun _ s' => s.classes.Precedes s'.classes := by
  by_cases declares : ∃ decl span, stmt = .classDecl decl span
  · obtain ⟨decl, span, rfl⟩ := declares
    rw [checkStmt]
    exact (declareClass_classes decl span).bind fun _ _ outcome => .pure outcome.precedes
  · refine (checkStmt_kept stmt s).imp fun _ s' kept => ?_
    rw [kept.classes fun decl span same => declares ⟨decl, span, same⟩]
    exact .refl _

theorem checkStmts_precedes (stmts : List Stmt) (s : Checker) :
    Gives (checkStmts stmts) s fun _ s' => s.classes.Precedes s'.classes := by
  induction stmts generalizing s with
  | nil =>
    rw [checkStmts]
    exact .pure (.refl _)
  | cons stmt stmts ih =>
    rw [checkStmts]
    refine (checkStmt_precedes stmt s).bind fun _ s₁ first => ?_
    exact (ih s₁).bind fun _ s₂ rest => .pure (first.trans rest)

theorem checkStmts_append (before more : List Stmt) :
    checkStmts (before ++ more) = do
      let first ← checkStmts before
      let rest ← checkStmts more
      return (first.1 ++ rest.1, first.2 && rest.2) := by
  induction before with
  | nil =>
    rw [List.nil_append, checkStmts, pure_bind]
    exact (bind_pure _).symm
  | cons stmt before ih =>
    simp only [List.cons_append, checkStmts, ih, bind_assoc, pure_bind, Bool.and_assoc]

end Check

open Check in
/-- Between two statements of the top level. -/
theorem Program.reach_append {w : Bool} {before more : List Stmt} {s' : Checker}
    (reached : Program.reach w (before ++ more) = .ok s') :
    ∃ s, Program.reach w before = .ok s ∧ s.classes.Precedes s'.classes := by
  obtain ⟨start, initial, rest⟩ := bind_eq_ok.mp reached
  obtain ⟨⟨checked, s₂⟩, ran, same⟩ := bind_eq_ok.mp rest
  cases same
  rw [checkStmts_append] at ran
  obtain ⟨⟨first, s⟩, ran₁, ran⟩ := bind_eq_ok.mp ran
  obtain ⟨⟨others, s₂⟩, ran₂, same⟩ := bind_eq_ok.mp ran
  cases same
  exact ⟨s, Program.reach_of_ran initial ran₁, checkStmts_precedes more s _ _ ran₂⟩

/-- At two points between statements of the top level the verdict about types is the same, if
the classes that they mention are registered at the earlier one. Neither these classes nor how
they relate changes. The later point is reached, and with it the earlier one, unless a tuple
before it is too long to be counted. -/
theorem Program.verdicts_stable (p : Program) (w : Bool) {i j : Nat} (le : i ≤ j) :
    (∃ s s', Program.reach w (p.body.take i) = .ok s ∧
      Program.reach w (p.body.take j) = .ok s' ∧
      (∀ a b : Ty,
        a.Over (· ∈ s.classes.registered) (· ∈ s.classes.registered) →
        b.Over (· ∈ s.classes.registered) (· ∈ s.classes.registered) →
        ∃ verdict, s.classes.compare a b = .ok verdict ∧
          s'.classes.compare a b = .ok verdict) ∧
      (∀ a ∈ s.classes.registered, ∀ b ∈ s.classes.registered,
        s'.classes.isA a b = s.classes.isA a b) ∧
      ∀ id ∈ s.classes.registered, ∃ c,
        s.classes.get id = .ok c ∧ s'.classes.get id = .ok c) ∨
    Program.reach w (p.body.take j) = .error .countOverflow := by
  refine (Program.reach_ends w (p.body.take j)).imp_left ?_
  rintro ⟨s', reached', _⟩
  have split : p.body.take j = p.body.take i ++ (p.body.take j).drop i := by
    have first : (p.body.take j).take i = p.body.take i := by
      rw [List.take_take, Nat.min_eq_left le]
    rw [← first, List.take_append_drop]
  obtain ⟨s, reached, precedes⟩ := Program.reach_append (split ▸ reached')
  have sound := Program.sound_of_reach reached
  have known (id : ClassId) (listed : id ∈ s.classes.registered) :
      id < s.classes.classes.length := by
    rw [sound.coherent.registered] at listed
    exact List.mem_range.mp listed
  refine ⟨s, s', reached, reached', fun a b left right => ?_, fun a left b right => ?_,
    fun id listed => ?_⟩
  · have left' : a.Known s.classes.classes.length := left.mono known known
    have right' : b.Known s.classes.classes.length := right.mono known known
    obtain ⟨verdict, compared⟩ := sound.coherent.compare_ok left' right'
    refine ⟨verdict, compared, ?_⟩
    rw [← precedes.compare sound.coherent left' right', compared]
  · exact precedes.isA (known a left) (known b right)
  · obtain ⟨c, got, _⟩ := sound.coherent.get_ok (known id listed)
    exact ⟨c, got, (precedes.get (known id listed)).trans got⟩

/-- The third class, which mentions itself, leaves the first two as they were: the second still
fits the first, and not the other way round. -/
theorem Program.verdicts_stable_selfMention : ∃ s s',
    Program.reach false (Program.selfMention.body.take 2) = .ok s ∧
    Program.reach false (Program.selfMention.body.take 3) = .ok s' ∧
    s.classes ≠ s'.classes ∧
    s'.classes.compare (.instanceOf 5 "C") (.instanceOf 4 "A") = .ok (.ok ()) ∧
    s'.classes.compare (.classValue 4 "A") (.classValue 5 "C") = .ok (.error .incompatible) := by
  obtain ⟨s, reached, computed⟩ := Program.reach_of_any false (Program.selfMention.body.take 2)
    (fun s => s.classes.registered == [0, 1, 2, 3, 4, 5] &&
      (s.classes.compare (.instanceOf 5 "C") (.instanceOf 4 "A")).toOption == some (.ok ()) &&
      (s.classes.compare (.classValue 4 "A") (.classValue 5 "C")).toOption ==
        some (.error .incompatible))
    (by decide +kernel)
  obtain ⟨s', reached', more⟩ := Program.reach_of_any false (Program.selfMention.body.take 3)
    (fun s => s.classes.registered.length == 7) (by decide +kernel)
  rcases Program.verdicts_stable .selfMention false (show 2 ≤ 3 by decide) with
    ⟨_, _, same, same', compared, _⟩ | overflow
  case inr => cases reached'.symm.trans overflow
  cases reached.symm.trans same
  cases reached'.symm.trans same'
  simp only [Bool.and_eq_true, beq_iff_eq] at computed more
  obtain ⟨⟨registered, fits⟩, refused⟩ := computed
  have answer {x : Except Fault Verdict} {verdict : Verdict} (found : x.toOption = some verdict) :
      x = .ok verdict := by
    cases x with
    | error fault => cases found
    | ok v =>
      cases found
      rfl
  have stable {a b : Ty} {verdict : Verdict}
      (found : (s.classes.compare a b).toOption = some verdict)
      (left : a.Over (· ∈ s.classes.registered) (· ∈ s.classes.registered))
      (right : b.Over (· ∈ s.classes.registered) (· ∈ s.classes.registered)) :
      s'.classes.compare a b = .ok verdict := by
    obtain ⟨verdict', before, after⟩ := compared a b left right
    cases (answer found).symm.trans before
    exact after
  refine ⟨s, s', reached, reached', fun same => ?_, stable fits ?_ ?_, stable refused ?_ ?_⟩
  · rw [same] at registered
    rw [registered] at more
    cases more
  all_goals simp [registered]

end ShapeLang
