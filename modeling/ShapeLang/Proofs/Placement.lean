import ShapeLang.Proofs.Layout
import ShapeLang.Proofs.Reading
import ShapeLang.Proofs.Tiling

/-!
# Where reading puts things

Reading goes from left to right, and every span it makes runs from the start of
something read to the end of something read later. What was read so far is kept as
a row that ends where the cursor is: reading on appends to the row, and making a
node replaces the end of the row by the node.
-/

namespace ShapeLang

open Layout (RowIn RowsIn)

namespace Cursor

/-- How far the source has been read. -/
def reached (c : Cursor) : Nat := (c.last.map (·.offset.toNat)).getD 0

def start (c : Cursor) : Nat := c.current.span.first

/-- The tokens ahead stand one after the other in what is left of a source of `size` bytes,
and the end mark is at its end. -/
structure Ready (file : String) (size : Nat) (c : Cursor) : Prop where
  stop : (Layout.leaf c.stop.span).In file size size
  bound : c.reached ≤ size
  ahead : RowIn file c.reached size (c.rest.map fun t => .leaf t.span)
  named : c.file = file
  past : ∀ p ∈ c.last, p.file = file

/-- The row was read from the offset on, up to where the cursor is. -/
structure Laid (file : String) (size lo : Nat) (row : List Layout) (c : Cursor) : Prop
    extends Ready file size c where
  read : ∃ p, c.last = some p
  low : lo ≤ c.reached
  row : RowIn file lo c.reached row

variable {file : String} {size lo : Nat} {row row' : List Layout} {c c₁ : Cursor}

namespace Ready

theorem current (ready : c.Ready file size) :
    (Layout.leaf c.current.span).In file c.reached size := by
  obtain ⟨stop, bound, ahead, _, _⟩ := ready
  unfold Cursor.current
  cases tokens : c.rest with
  | nil => exact stop.mono bound (Nat.le_refl _)
  | cons t ts =>
    rw [tokens] at ahead
    exact ahead.1

theorem reached_le_start (ready : c.Ready file size) : c.reached ≤ c.start :=
  (Layout.leaf_in.mp ready.current).2.1

theorem within (ready : c.Ready file size) : c.current.span.Within file size := by
  obtain ⟨here, _, order, bound⟩ := Layout.leaf_in.mp ready.current
  exact ⟨here, order, bound⟩

theorem next? (ready : c.Ready file size) {t : Token} {h : c₁.rest.length < c.size}
    (next : c.next? = some ⟨t, c₁, h⟩) : c₁.Laid file size c.start [.leaf t.span] := by
  obtain ⟨name, last, rest, stop, beyond⟩ := c
  cases rest with
  | nil => cases next
  | cons t ts =>
    cases next
    obtain ⟨mark, _, ⟨first, others⟩, named, _⟩ := ready
    obtain ⟨here, _, order, bound⟩ := first.bounds
    have self := Layout.rowIn_singleton.mpr first.self
    have past : ∀ p ∈ some t.span.stop, p.file = file := by
      rintro _ ⟨⟩
      exact here.stop
    exact ⟨⟨mark, bound, others, named, past⟩, ⟨_, rfl⟩, order, self⟩

/-- All that was read, from the start of the source on. -/
theorem spanFrom_start (ready : c.Ready file size) :
    (c.spanFrom ⟨0, file⟩).Of file ∧ (c.spanFrom ⟨0, file⟩).last = c.reached := by
  unfold spanFrom reached Span.last
  cases last : c.last with
  | none => exact ⟨⟨rfl, ready.named⟩, rfl⟩
  | some p => exact ⟨⟨rfl, ready.past p last⟩, rfl⟩

theorem take? (ready : c.Ready file size) {kind : Token.Kind} {t : Token}
    {h : c₁.rest.length < c.size} (taken : c.take? kind = some ⟨t, c₁, h⟩) :
    c₁.Laid file size c.start [.leaf t.span] := by
  unfold Cursor.take? at taken
  split at taken
  · rename_i read next
    split at taken
    · cases taken
      exact ready.next? next
    · cases taken
  · cases taken

end Ready

namespace Laid

theorem after (laid : c.Laid file size lo row) (later : c₁.Laid file size c.start row') :
    c₁.Laid file size lo (row ++ row') := by
  have start := laid.reached_le_start
  have low := laid.low
  have low' := later.low
  have rest := later.row.mono start (Nat.le_refl _)
  exact ⟨later.toReady, later.read, by omega, laid.row.append rest low (by omega)⟩

theorem sublist (laid : c.Laid file size lo row) (fewer : row'.Sublist row) :
    c.Laid file size lo row' :=
  ⟨laid.toReady, laid.read, laid.low, laid.row.sublist fewer⟩

theorem clear (laid : c.Laid file size lo row) : c.Laid file size lo [] :=
  laid.sublist (List.nil_sublist _)

/-- A token that leaves no trace. -/
theorem skip (laid : c.Laid file size lo row) {kind : Token.Kind} {t : Token}
    {h : c₁.rest.length < c.size} (taken : c.take? kind = some ⟨t, c₁, h⟩) :
    c₁.Laid file size lo row :=
  (laid.after (laid.take? taken)).sublist (List.sublist_append_left _ _)

/-- A node up to the end of the row, with anything below it that fits. -/
theorem enclose {start : Position} {rows : List (List Layout)} (laid : c.Laid file size lo row)
    (here : start.file = file) (low : lo ≤ start.offset.toNat)
    (high : start.offset.toNat ≤ c.reached)
    (below : RowsIn file start.offset.toNat c.reached rows) :
    c.Laid file size lo [.node (c.spanFrom start) rows] := by
  obtain ⟨p, read⟩ := laid.read
  have there := laid.past p read
  have reached : p.offset.toNat = c.reached := by rw [Cursor.reached, read]; rfl
  have span : c.spanFrom start = ⟨start, p⟩ := by rw [spanFrom, read]; rfl
  refine ⟨laid.toReady, laid.read, laid.low, Layout.rowIn_singleton.mpr ?_⟩
  rw [span]
  rw [← reached] at high below ⊢
  exact ⟨⟨here, there⟩, low, high, Nat.le_refl _, below⟩

/-- A node from the start of the token on that the row begins with, with parts of the row
below it. -/
theorem whole {rows : List (List Layout)} {c₀ : Cursor} (laid : c.Laid file size c₀.start row)
    (here : c₀.current.span.Within file size) (each : ∀ r ∈ rows, r.Sublist row) :
    c.Laid file size c₀.start [.node (c.spanFrom c₀.current.span.start) rows] := by
  refine laid.enclose here.file.start (Nat.le_refl _) laid.low
    (Layout.rowsIn_iff.mpr fun r listed => ?_)
  exact laid.row.sublist (each r listed)

/-- A node from the start of the row on, with parts of the row below it. -/
theorem node {x : Layout} {start : Position} {rows : List (List Layout)}
    (laid : c.Laid file size lo (x :: row)) (first : x.span.start = start)
    (each : ∀ r ∈ rows, r.Sublist (x :: row)) :
    c.Laid file size lo [.node (c.spanFrom start) rows] := by
  subst first
  obtain ⟨here, low, order, high⟩ := laid.row.1.bounds
  refine laid.enclose here.start low (Nat.le_trans order high)
    (Layout.rowsIn_iff.mpr fun r listed => ?_)
  exact laid.row.onward.sublist (each r listed)

/-- A node from the start of the first part to the end of the last. -/
theorem join {x y : Layout} {first last : Span} {rows : List (List Layout)}
    (laid : c.Laid file size lo (x :: row ++ [y])) (left : x.span = first) (right : y.span = last)
    (each : ∀ r ∈ rows, r.Sublist (x :: row ++ [y])) :
    c.Laid file size lo [.node (first.join last) rows] := by
  subst left right
  have whole : RowIn file x.span.first c.reached (x :: row ++ [y]) := laid.row.onward
  have below : RowsIn file x.span.first y.span.last rows :=
    Layout.rowsIn_iff.mpr fun r listed => whole.upto.sublist (each r listed)
  have end_ := Layout.rowIn_singleton.mp
    (whole.sublist (List.sublist_append_right (x :: row) [y]))
  obtain ⟨here, low, _, _⟩ := laid.row.1.bounds
  obtain ⟨there, behind, order, high⟩ := end_.bounds
  refine ⟨laid.toReady, laid.read, laid.low, Layout.rowIn_singleton.mpr ?_⟩
  exact ⟨⟨here.start, there.stop⟩, low, Nat.le_trans behind order, high, below⟩

theorem first_within {x : Layout} (laid : c.Laid file size lo (x :: row)) :
    x.span.Within file size := by
  obtain ⟨here, _, order, high⟩ := laid.row.1.bounds
  have bound := laid.bound
  exact ⟨here, order, by omega⟩

/-- A node around a single part, at the same place. -/
theorem wrap {x : Layout} {span : Span} (laid : c.Laid file size lo [x]) (same : x.span = span) :
    c.Laid file size lo [.node span [[x]]] := by
  subst same
  have inside := Layout.rowIn_singleton.mp laid.row
  obtain ⟨here, low, order, high⟩ := inside.bounds
  have below : RowsIn file x.span.first x.span.last [[x]] :=
    ⟨Layout.rowIn_singleton.mpr inside.self, trivial⟩
  exact ⟨laid.toReady, laid.read, laid.low, ⟨here, low, order, high, below⟩, trivial⟩

end Laid

end Cursor

namespace Reads

variable {α β : Type} {n m : Nat} {file : String} {size lo : Nat} {row : List Layout}
  {x : Reads α n} {c : Cursor}

/-- What was read is as `post` says, and what is refused is in the source. -/
def Gives (file : String) (size : Nat) (post : α → Cursor → Prop) : Reads α n → Prop
  | .ok p => post p.value p.cursor
  | .error r => r.diagnostic.span.Within file size

theorem Gives.bind {mid : α → Cursor → Prop} {post : β → Cursor → Prop}
    {f : Parsed α n → Reads β m} (first : Gives file size mid x)
    (rest : ∀ value d (fewer : d.size < n), mid value d →
      Gives file size post (f ⟨value, d, fewer⟩)) : Gives file size post (x >>= f) := by
  cases x with
  | ok p => exact rest p.value p.cursor p.fewer first
  | error r => exact first

theorem Gives.imp {post post' : α → Cursor → Prop} (gives : Gives file size post x)
    (weaker : ∀ value d, post value d → post' value d) : Gives file size post' x := by
  cases x with
  | ok p => exact weaker _ _ gives
  | error r => exact gives

/-- What was read takes its place from the offset on. -/
abbrev Lays (file : String) (size lo : Nat) (rows : α → List Layout) : Reads α n → Prop :=
  Gives file size fun value d => d.Laid file size lo (rows value)

variable {rows : α → List Layout} (later : Lays file size c.start rows x)
  (laid : c.Laid file size lo row)
include later laid

theorem Lays.after : Lays file size lo (fun value => row ++ rows value) x :=
  Gives.imp later fun _ _ further => laid.after further

/-- Reading on without a trace. -/
theorem Lays.silent : Lays file size lo (fun _ => row) x :=
  Gives.imp later fun _ _ further =>
    (laid.after further).sublist (List.sublist_append_left _ _)

end Reads

open Reads (Lays)

namespace Cursor

variable {file : String} {size lo : Nat} {row : List Layout} {c : Cursor}

/-- A token that is taken is laid, and if it is not there the rejection has its place in the
file. -/
theorem takeOr_lays (ready : c.Ready file size) (kind : Token.Kind) {r : Rejection}
    (inside : r.diagnostic.span.Within file size) :
    Lays file size c.start (fun t => [.leaf t.span]) (c.takeOr kind r) := by
  unfold takeOr
  cases taken : c.take? kind with
  | none => exact inside
  | some read => exact ready.take? taken

theorem take_lays (ready : c.Ready file size) (kind : Token.Kind) :
    Lays file size c.start (fun t => [.leaf t.span]) (c.take kind) :=
  takeOr_lays ready kind ready.within

/-- A token that has to follow and leaves no trace. -/
theorem Laid.pass (laid : c.Laid file size lo row) (kind : Token.Kind) :
    Lays file size lo (fun _ => row) (c.take kind) :=
  (take_lays laid.toReady kind).silent laid

end Cursor

/-! ## Annotations -/

namespace TypeTerm

open Cursor

variable {file : String} {size : Nat}

theorem signatures?_in {term : TypeTerm} {signatures : List Signature} {lo hi : Nat}
    (found : term.signatures? = some signatures) (inside : term.layout.In file lo hi) :
    RowIn file lo hi (Signature.layouts signatures) := by
  cases term with
  | function signature =>
    cases found
    exact ⟨inside, trivial⟩
  | overloads members span =>
    cases found
    obtain ⟨_, low, _, high⟩ := inside.bounds
    exact inside.below.1.mono low high
  | _ => cases found

mutual

/-- By induction on what is left to read: an annotation lies behind the cursor, with its parts
in it. -/
theorem read_lays (power : Power) (c : Cursor) (ready : c.Ready file size) :
    Lays file size c.start (fun term => [term.layout]) (read power c) := by
  rw [read]
  refine (readHead_lays c ready).bind ?_
  intro left c₁ h₁ laid₁
  refine (readSuffixes_lays power left c₁ laid₁).bind ?_
  intro whole c₂ h₂ laid₂
  exact laid₂
termination_by 4 * c.size + 1
decreasing_by all_goals omega

theorem readHead_lays (c : Cursor) (ready : c.Ready file size) :
    Lays file size c.start (fun term => [term.layout]) (readHead c) := by
  rw [readHead]
  cases next : c.next? with
  | none => exact ready.within
  | some p =>
    obtain ⟨t, c₁, h₁⟩ := p
    have laid₁ := ready.next? next
    have less₁ : c₁.size < c.size := h₁
    dsimp only
    cases t.kind with
    | identifier =>
      dsimp only
      cases less : c₁.take? .less with
      | none => exact laid₁.node rfl (by simp [layouts])
      | some p =>
        obtain ⟨_, c₂, h₂⟩ := p
        have laid₂ := laid₁.skip less
        have less₂ : c₂.size < c₁.size := h₂
        refine ((readGenerics_lays c₂ laid₂.toReady).after laid₂).bind ?_
        intro generics c₃ h₃ laid₃
        refine (laid₃.pass .greater).bind ?_
        intro _ c₄ h₄ laid₄
        exact laid₄.node rfl (by simp)
    | noneWord => exact laid₁
    | openParen =>
      refine ((readItems_lays false c₁ laid₁.toReady).after laid₁).bind ?_
      rintro ⟨items, trailing⟩ c₂ h₂ laid₂
      dsimp only
      cases arrow : c₂.take? .arrow with
      | none =>
        dsimp only
        split
        · exact laid₂.sublist (by simp [layouts])
        · exact laid₂.node rfl (by simp)
      | some p =>
        obtain ⟨_, c₃, h₃⟩ := p
        have laid₃ := laid₂.skip arrow
        have less₃ : c₃.size < c₂.size := h₃
        refine ((read_lays .logical c₃ laid₃.toReady).after laid₃).bind ?_
        intro result c₄ h₄ laid₄
        exact laid₄.node rfl (by simp)
    | _ => exact ready.within
termination_by 4 * c.size
decreasing_by all_goals omega

/-- The annotation read so far is laid, and grows at its end with each suffix. -/
theorem readSuffixes_lays {lo : Nat} (power : Power) (left : TypeTerm) (c : Cursor)
    (laid : c.Laid file size lo [left.layout]) :
    Lays file size lo (fun term => [term.layout]) (readSuffixes power left c) := by
  rw [readSuffixes]
  cases c.kind.suffixPower? with
  | none => exact laid
  | some tightness =>
    dsimp only
    split
    · exact laid
    · refine (readSuffix_lays tightness left c laid).bind ?_
      intro longer c₁ h₁ laid₁
      refine (readSuffixes_lays power longer c₁ laid₁).bind ?_
      intro whole c₂ h₂ laid₂
      exact laid₂
termination_by 4 * c.size + 1
decreasing_by all_goals omega

theorem readSuffix_lays {lo : Nat} (power : Power) (left : TypeTerm) (c : Cursor)
    (laid : c.Laid file size lo [left.layout]) :
    Lays file size lo (fun term => [term.layout]) (readSuffix power left c) := by
  rw [readSuffix]
  cases next : c.next? with
  | none => exact laid.within
  | some p =>
    obtain ⟨t, c₁, h₁⟩ := p
    have less₁ : c₁.size < c.size := h₁
    have start : left.layout.span.start = left.span.start := by simp
    have laid₁ : c₁.Laid file size lo [left.layout] :=
      (laid.after (laid.next? next)).sublist (List.sublist_append_left _ _)
    dsimp only
    cases t.kind with
    | openBracket =>
      refine (laid₁.pass .closeBracket).bind ?_
      intro _ c₂ h₂ laid₂
      exact laid₂.node start (by simp)
    | question => exact laid₁.node start (by simp)
    | ampersand =>
      dsimp only
      cases mine : left.signatures? with
      | none => exact laid.within
      | some firsts =>
        refine ((read_lays power c₁ laid₁.toReady).after laid₁).bind ?_
        intro right c₂ h₂ laid₂
        dsimp only
        cases others : right.signatures? with
        | none => exact laid₂.within
        | some seconds =>
          -- the signatures of both sides lie in their terms, so they follow each other too
          obtain ⟨first, second, _⟩ := laid₂.row
          obtain ⟨here, low, order, high⟩ := first.bounds
          have both := (signatures?_in mine first.self).append (signatures?_in others second)
            order high
          have same : left.layout.span.first = left.span.first := by
            rw [Span.first, start, Span.first]
          rw [same, ← Signature.layouts_append] at both
          rw [same] at low order
          exact laid₂.enclose (start ▸ here.start) low (Nat.le_trans order high) ⟨both, trivial⟩
    | _ => exact laid.within
termination_by 4 * c.size
decreasing_by all_goals omega

theorem readGenerics_lays (c : Cursor) (ready : c.Ready file size) :
    Lays file size c.start layouts (readGenerics c) := by
  rw [readGenerics]
  refine (read_lays .default c ready).bind ?_
  intro first c₁ h₁ laid₁
  dsimp only
  cases comma : c₁.take? .comma with
  | none => exact laid₁
  | some p =>
    obtain ⟨_, c₂, h₂⟩ := p
    have laid₂ := laid₁.skip comma
    have less₂ : c₂.size < c₁.size := h₂
    refine ((readGenerics_lays c₂ laid₂.toReady).after laid₂).bind ?_
    intro others c₃ h₃ laid₃
    exact laid₃
termination_by 4 * c.size + 2
decreasing_by all_goals omega

/-- The items lie one behind the other, whether or not a comma ends them. -/
theorem readItems_lays (afterComma : Bool) (c : Cursor) (ready : c.Ready file size) :
    Lays file size c.start (fun items => layouts items.1) (readItems afterComma c) := by
  rw [readItems]
  cases close : c.take? .closeParen with
  | some p => exact (ready.take? close).clear
  | none =>
    refine (read_lays .default c ready).bind ?_
    intro first c₁ h₁ laid₁
    dsimp only
    cases comma : c₁.take? .comma with
    | none =>
      refine (laid₁.pass .closeParen).bind ?_
      intro _ c₂ h₂ laid₂
      exact laid₂
    | some p =>
      obtain ⟨_, c₂, h₂⟩ := p
      have laid₂ := laid₁.skip comma
      have less₂ : c₂.size < c₁.size := h₂
      refine ((readItems_lays true c₂ laid₂.toReady).after laid₂).bind ?_
      rintro ⟨others, trailing⟩ c₃ h₃ laid₃
      exact laid₃
termination_by 4 * c.size + 2
decreasing_by all_goals omega

end

end TypeTerm

/-! ## Names and classes -/

section

open Cursor

variable {file : String} {size : Nat}

/-- Names take up room, but have no places in the tree. -/
theorem Cursor.readNames_lays {refuse : Cursor → Rejection} {c : Cursor}
    (inside : ∀ c, c.Ready file size → (refuse c).diagnostic.span.Within file size)
    (ready : c.Ready file size) : Lays file size c.start (fun _ => []) (c.readNames refuse) := by
  rw [readNames]
  refine (takeOr_lays ready .identifier (inside c ready)).bind ?_
  intro name c₁ h₁ laid₁
  have laid₁ := laid₁.clear
  dsimp only
  cases comma : c₁.take? .comma with
  | none => exact laid₁
  | some p =>
    obtain ⟨_, c₂, h₂⟩ := p
    have laid₂ := laid₁.skip comma
    have less₂ : c₂.size < c₁.size := h₂
    refine ((readNames_lays inside laid₂.toReady).after laid₂).bind ?_
    intro others c₃ h₃ laid₃
    exact laid₃
termination_by c.size
decreasing_by omega

/-- Names that may be missing leave the row as it is. -/
theorem Cursor.readGenericNames_lays {lo : Nat} {row : List Layout} {c : Cursor}
    (laid : c.Laid file size lo row) : Lays file size lo (fun _ => row) c.readGenericNames := by
  unfold readGenericNames
  cases less : c.take? .less with
  | none => exact laid
  | some p =>
    obtain ⟨_, c₁, h₁⟩ := p
    have laid₁ := laid.skip less
    refine ((readNames_lays (fun _ ready => ready.within) laid₁.toReady).silent laid₁).bind ?_
    intro names c₂ h₂ laid₂
    refine (laid₂.pass .greater).bind ?_
    intro _ c₃ h₃ laid₃
    exact laid₃

theorem Param.readList_lays (c : Cursor) (ready : c.Ready file size) :
    Lays file size c.start (fun params => params.map (·.term.layout)) (Param.readList c) := by
  rw [Param.readList]
  cases close : c.take? .closeParen with
  | some p => exact (ready.take? close).clear
  | none =>
    refine (takeOr_lays ready .identifier ready.within).bind ?_
    intro name c₁ h₁ laid₁
    have laid₁ := laid₁.clear
    refine (laid₁.pass .colon).bind ?_
    intro _ c₂ h₂ laid₂
    refine ((TypeTerm.read_lays .default c₂ laid₂.toReady).after laid₂).bind ?_
    intro term c₃ h₃ laid₃
    dsimp only
    cases comma : c₃.take? .comma with
    | none =>
      refine (laid₃.pass .closeParen).bind ?_
      intro _ c₄ h₄ laid₄
      exact laid₄
    | some p =>
      obtain ⟨_, c₄, h₄⟩ := p
      have laid₄ := laid₃.skip comma
      have less₄ : c₄.size < c₃.size := h₄
      refine ((Param.readList_lays c₄ laid₄.toReady).after laid₄).bind ?_
      intro others c₅ h₅ laid₅
      exact laid₅
termination_by c.size
decreasing_by omega

namespace ClassDecl

theorem readFieldNames_lays (c : Cursor) (ready : c.Ready file size) :
    Lays file size c.start (fun _ => []) (readFieldNames c) := by
  rw [readFieldNames]
  cases next : c.next? with
  | none => exact ready.within
  | some p =>
    obtain ⟨t, c₁, h₁⟩ := p
    have laid₁ := (ready.next? next).clear
    have less₁ : c₁.size < c.size := h₁
    dsimp only
    split
    · cases comma : c₁.take? .comma with
      | none => exact laid₁
      | some p =>
        obtain ⟨_, c₂, h₂⟩ := p
        have laid₂ := laid₁.skip comma
        have less₂ : c₂.size < c₁.size := h₂
        refine ((readFieldNames_lays c₂ laid₂.toReady).after laid₂).bind ?_
        intro others c₃ h₃ laid₃
        exact laid₃
    · exact ready.within
termination_by c.size
decreasing_by omega

def Part.row : Part → List Layout
  | .constructor params => TypeTerm.layouts params
  | .fields group => [group.layout]

theorem fields_sublist {group? : Part → Option FieldGroup} {parts : List Part}
    (laid : ∀ part group, group? part = some group → part.row = [group.layout]) :
    ((parts.filterMap group?).map (·.layout)).Sublist (parts.flatMap Part.row) := by
  induction parts with
  | nil => exact List.nil_sublist _
  | cons part parts ih =>
    rw [List.flatMap_cons]
    cases found : group? part with
    | none =>
      rw [List.filterMap_cons_none found]
      exact ih.trans (List.sublist_append_right _ _)
    | some group =>
      rw [List.filterMap_cons_some found, laid part group found]
      exact ih.cons_cons _

theorem constructor_sublist {params? : Part → Option (List TypeTerm)} {parts : List Part}
    (laid : ∀ part params, params? part = some params → part.row = TypeTerm.layouts params) :
    ∀ params ∈ parts.filterMap params?,
      (TypeTerm.layouts params).Sublist (parts.flatMap Part.row) := by
  intro params member
  obtain ⟨part, listed, found⟩ := List.mem_filterMap.mp member
  rw [← laid part params found]
  exact List.sublist_flatten_of_mem (List.mem_map_of_mem listed)

/-- A part of a class lies behind the cursor, whichever kind it is of. -/
theorem readPart_lays (c : Cursor) (ready : c.Ready file size) :
    Lays file size c.start Part.row (readPart c) := by
  unfold readPart
  cases c.kind
  case newWord =>
    refine (take_lays ready .newWord).bind ?_
    intro _ c₁ h₁ laid₁
    have laid₁ := laid₁.clear
    refine (laid₁.pass .openParen).bind ?_
    intro _ c₂ h₂ laid₂
    refine ((TypeTerm.readItems_lays false c₂ laid₂.toReady).after laid₂).bind ?_
    rintro ⟨params, _⟩ c₃ h₃ laid₃
    exact laid₃
  case identifier | string =>
    refine (readFieldNames_lays c ready).bind ?_
    intro names c₁ h₁ laid₁
    refine (laid₁.pass .colon).bind ?_
    intro _ c₂ h₂ laid₂
    refine ((TypeTerm.read_lays .default c₂ laid₂.toReady).after laid₂).bind ?_
    intro term c₃ h₃ laid₃
    exact laid₃.whole ready.within (by simp)
  all_goals exact ready.within

theorem readParts_lays (c : Cursor) (ready : c.Ready file size) :
    Lays file size c.start (·.flatMap Part.row) (readParts c) := by
  rw [readParts]
  cases close : c.take? .closeCurly with
  | some p => exact (ready.take? close).clear
  | none =>
    refine (readPart_lays c ready).bind ?_
    intro part c₁ h₁ laid₁
    dsimp only
    cases comma : c₁.take? .comma with
    | some p =>
      obtain ⟨_, c₂, h₂⟩ := p
      have laid₂ := laid₁.skip comma
      have less₂ : c₂.size < c₁.size := h₂
      refine ((readParts_lays c₂ laid₂.toReady).after laid₂).bind ?_
      intro others c₃ h₃ laid₃
      exact laid₃
    | none =>
      dsimp only
      cases semicolon : c₁.take? .semicolon with
      | some p =>
        obtain ⟨_, c₂, h₂⟩ := p
        have laid₂ := laid₁.skip semicolon
        have less₂ : c₂.size < c₁.size := h₂
        refine ((readParts_lays c₂ laid₂.toReady).after laid₂).bind ?_
        intro others c₃ h₃ laid₃
        exact laid₃
      | none =>
        refine ((readParts_lays c₁ laid₁.toReady).after laid₁).bind ?_
        intro others c₂ h₂ laid₂
        exact laid₂
termination_by c.size
decreasing_by all_goals omega

theorem readSupers_lays {lo : Nat} {row : List Layout} {c : Cursor}
    (laid : c.Laid file size lo row) : Lays file size lo (fun _ => row) (readSupers c) := by
  unfold readSupers
  cases colon : c.take? .colon with
  | none => exact laid
  | some p =>
    obtain ⟨_, c₁, h₁⟩ := p
    have laid₁ := laid.skip colon
    refine ((readNames_lays (fun _ ready => ready.within) laid₁.toReady).silent laid₁).bind ?_
    intro names c₂ h₂ laid₂
    exact laid₂

/-- A class declaration keeps the order of its fields and the order of its constructors'
parameters, though it sorts them out of one row. -/
theorem read_lays (c : Cursor) (ready : c.Ready file size) :
    Reads.Gives file size (fun decl d => ∃ row, d.Laid file size c.start row ∧
      ∀ r ∈ decl.rows, r.Sublist row) (read c) := by
  unfold read
  refine (takeOr_lays ready .identifier ready.within).bind ?_
  intro name c₁ h₁ laid₁
  have laid₁ := laid₁.clear
  refine (readGenericNames_lays laid₁).bind ?_
  intro generics c₂ h₂ laid₂
  refine (readSupers_lays laid₂).bind ?_
  intro supers c₃ h₃ laid₃
  refine (laid₃.pass .openCurly).bind ?_
  intro _ c₄ h₄ laid₄
  refine ((readParts_lays c₄ laid₄.toReady).after laid₄).bind ?_
  intro parts c₅ h₅ laid₅
  refine ⟨parts.flatMap Part.row, laid₅, List.forall_mem_cons.mpr ⟨?_, ?_⟩⟩
  · refine fields_sublist fun part group found => ?_
    cases part <;> cases found
    rfl
  · refine List.forall_mem_map.mpr (constructor_sublist fun part params found => ?_)
    cases part <;> cases found
    rfl

end ClassDecl

end

/-! ## Expressions and statements -/

section

open Cursor

variable {file : String} {size : Nat}

theorem Literal.ofToken?_span {t : Token} {d : Diagnostic} (failed : ofToken? t = .error d) :
    d.span = t.span := by
  unfold ofToken? at failed
  split at failed
  · dsimp only at failed
    split at failed
    · cases failed
    · cases failed
      rfl
  all_goals cases failed

mutual

/-- By induction on what is left to read: an expression lies behind the cursor, with its parts
in it. -/
theorem Expr.read_lays (power : Power) (c : Cursor) (ready : c.Ready file size) :
    Lays file size c.start (fun e => [e.layout]) (Expr.read power c) := by
  rw [Expr.read]
  refine (Expr.readOperand_lays c ready).bind ?_
  intro left c₁ h₁ laid₁
  refine (Expr.readOperators_lays power left c₁ laid₁).bind ?_
  intro whole c₂ h₂ laid₂
  exact laid₂
termination_by 8 * c.size + 1
decreasing_by all_goals omega

theorem Expr.readOperand_lays (c : Cursor) (ready : c.Ready file size) :
    Lays file size c.start (fun e => [e.layout]) (Expr.readOperand c) := by
  rw [Expr.readOperand]
  cases next : c.next? with
  | none => exact ready.within
  | some p =>
    obtain ⟨t, c₁, h₁⟩ := p
    have laid₁ := ready.next? next
    have less₁ : c₁.size < c.size := h₁
    dsimp only
    cases t.kind with
    | identifier => exact laid₁
    | openParen =>
      refine ((Expr.readItems_lays .closeParen false c₁ laid₁.toReady).after laid₁).bind ?_
      rintro ⟨items, trailing⟩ c₂ h₂ laid₂
      dsimp only
      split
      -- parentheses around a single expression leave no trace
      · exact laid₂.sublist (by simp [Expr.layouts])
      · exact laid₂.node rfl (by simp)
    | openBracket =>
      refine ((Expr.readItems_lays .closeBracket false c₁ laid₁.toReady).after laid₁).bind ?_
      rintro ⟨items, trailing⟩ c₂ h₂ laid₂
      exact laid₂.node rfl (by simp)
    | ellipsis =>
      refine ((Expr.read_lays .unary c₁ laid₁.toReady).after laid₁).bind ?_
      intro value c₂ h₂ laid₂
      exact laid₂.node rfl (by simp)
    | newWord =>
      refine ((takeOr_lays laid₁.toReady .identifier laid₁.within).silent laid₁).bind ?_
      intro name c₂ h₂ laid₂
      refine (laid₂.pass .openParen).bind ?_
      intro _ c₃ h₃ laid₃
      refine ((Expr.readItems_lays .closeParen false c₃ laid₃.toReady).after laid₃).bind ?_
      rintro ⟨args, _⟩ c₄ h₄ laid₄
      exact laid₄.node rfl (by simp)
    | fnWord =>
      refine (readGenericNames_lays laid₁).bind ?_
      intro generics c₂ h₂ laid₂
      refine (laid₂.pass .openParen).bind ?_
      intro _ c₃ h₃ laid₃
      refine ((Param.readList_lays c₃ laid₃.toReady).after laid₃).bind ?_
      intro params c₄ h₄ laid₄
      dsimp only
      cases arrow : c₄.take? .arrow with
      | none =>
        refine ((Block.read_lays c₄ laid₄.toReady).after laid₄).bind ?_
        intro body c₅ h₅ laid₅
        exact laid₅.node rfl (by simp)
      | some p =>
        obtain ⟨_, c₅, h₅⟩ := p
        have laid₅ := laid₄.skip arrow
        have less₅ : c₅.size < c₄.size := h₅
        refine ((TypeTerm.read_lays .default c₅ laid₅.toReady).after laid₅).bind ?_
        intro result c₆ h₆ laid₆
        refine ((Block.read_lays c₆ laid₆.toReady).after laid₆).bind ?_
        intro body c₇ h₇ laid₇
        exact laid₇.node rfl (by simp)
    | _ =>
      dsimp only
      cases literal : Literal.ofToken? t with
      | error problem =>
        have place : problem.span = t.span := Literal.ofToken?_span literal
        have within : t.span.Within file size := laid₁.first_within
        exact place ▸ within
      | ok value =>
        cases value with
        | none => exact ready.within
        | some value => exact laid₁
termination_by 8 * c.size
decreasing_by all_goals omega

/-- The expression read so far is laid, and grows at its end with each operator. -/
theorem Expr.readOperators_lays {lo : Nat} (power : Power) (left : Expr) (c : Cursor)
    (laid : c.Laid file size lo [left.layout]) :
    Lays file size lo (fun e => [e.layout]) (Expr.readOperators power left c) := by
  rw [Expr.readOperators]
  cases c.kind.power? with
  | none => exact laid
  | some tightness =>
    dsimp only
    split
    · exact laid
    · refine (Expr.readOperator_lays tightness left c laid).bind ?_
      intro longer c₁ h₁ laid₁
      refine (Expr.readOperators_lays power longer c₁ laid₁).bind ?_
      intro whole c₂ h₂ laid₂
      exact laid₂
termination_by 8 * c.size + 1
decreasing_by all_goals omega

theorem Expr.readOperator_lays {lo : Nat} (power : Power) (left : Expr) (c : Cursor)
    (laid : c.Laid file size lo [left.layout]) :
    Lays file size lo (fun e => [e.layout]) (Expr.readOperator power left c) := by
  rw [Expr.readOperator]
  cases next : c.next? with
  | none => exact laid.within
  | some p =>
    obtain ⟨t, c₁, h₁⟩ := p
    have less₁ : c₁.size < c.size := h₁
    have here : left.layout.span = left.span := left.span_layout
    have laid₁ : c₁.Laid file size lo [left.layout, .leaf t.span] := laid.after (laid.next? next)
    dsimp only
    cases t.kind with
    | cast =>
      refine ((TypeTerm.read_lays power c₁ laid₁.toReady).after laid₁).bind ?_
      intro target c₂ h₂ laid₂
      exact laid₂.join here target.span_layout (by simp)
    | openParen =>
      refine ((Expr.readItems_lays .closeParen false c₁ laid₁.toReady).after laid₁).bind ?_
      rintro ⟨args, _⟩ c₂ h₂ laid₂
      exact laid₂.node (congrArg Span.start here) (by simp)
    | openBracket =>
      refine ((Expr.read_lays .default c₁ laid₁.toReady).after laid₁).bind ?_
      intro position c₂ h₂ laid₂
      refine (laid₂.pass .closeBracket).bind ?_
      intro _ c₃ h₃ laid₃
      exact laid₃.node (congrArg Span.start here) (by simp)
    | dot =>
      refine ((takeOr_lays laid₁.toReady .identifier laid₁.within).after laid₁).bind ?_
      intro name c₂ h₂ laid₂
      exact laid₂.join here rfl (by simp)
    | _ =>
      dsimp only
      split
      · exact laid.within
      · refine ((Expr.read_lays power c₁ laid₁.toReady).after laid₁).bind ?_
        intro right c₂ h₂ laid₂
        exact laid₂.join here right.span_layout (by simp)
termination_by 8 * c.size
decreasing_by all_goals omega

theorem Expr.readItems_lays (close : Token.Kind) (afterComma : Bool) (c : Cursor)
    (ready : c.Ready file size) : Lays file size c.start (fun items => Expr.layouts items.1)
      (Expr.readItems close afterComma c) := by
  rw [Expr.readItems]
  cases closed : c.take? close with
  | some p => exact (ready.take? closed).clear
  | none =>
    refine (Expr.read_lays .default c ready).bind ?_
    intro first c₁ h₁ laid₁
    dsimp only
    cases comma : c₁.take? .comma with
    | none =>
      refine (laid₁.pass close).bind ?_
      intro _ c₂ h₂ laid₂
      exact laid₂
    | some p =>
      obtain ⟨_, c₂, h₂⟩ := p
      have laid₂ := laid₁.skip comma
      have less₂ : c₂.size < c₁.size := h₂
      refine ((Expr.readItems_lays close true c₂ laid₂.toReady).after laid₂).bind ?_
      rintro ⟨others, trailing⟩ c₃ h₃ laid₃
      exact laid₃
termination_by 8 * c.size + 2
decreasing_by all_goals omega

theorem Block.read_lays (c : Cursor) (ready : c.Ready file size) :
    Lays file size c.start (fun block => [block.layout]) (Block.read c) := by
  rw [Block.read]
  refine (take_lays ready .openCurly).bind ?_
  intro brace c₁ h₁ laid₁
  refine ((Block.readBody_lays c₁ laid₁.toReady).after laid₁).bind ?_
  intro body c₂ h₂ laid₂
  exact laid₂.node rfl (by simp)
termination_by 8 * c.size
decreasing_by all_goals omega

theorem Block.readBody_lays (c : Cursor) (ready : c.Ready file size) :
    Lays file size c.start Stmt.layouts (Block.readBody c) := by
  rw [Block.readBody]
  cases close : c.take? .closeCurly with
  | some p => exact (ready.take? close).clear
  | none =>
    dsimp only
    split
    · exact ready.within
    · refine (Stmt.read_lays c ready).bind ?_
      intro first c₁ h₁ laid₁
      refine ((Block.readBody_lays c₁ laid₁.toReady).after laid₁).bind ?_
      intro others c₂ h₂ laid₂
      exact laid₂
termination_by 8 * c.size + 4
decreasing_by all_goals omega

/-- By induction on what is left to read: a statement lies behind the cursor, with its parts in
it. -/
theorem Stmt.read_lays (c : Cursor) (ready : c.Ready file size) :
    Lays file size c.start (fun stmt => [stmt.layout]) (Stmt.read c) := by
  rw [Stmt.read]
  refine (Stmt.readBare_lays c ready).bind ?_
  intro stmt c₁ h₁ laid₁
  dsimp only
  cases semicolon : c₁.take? .semicolon with
  | some p => exact laid₁.skip semicolon
  | none => exact laid₁
termination_by 8 * c.size + 3
decreasing_by all_goals omega

theorem Stmt.readBare_lays (c : Cursor) (ready : c.Ready file size) :
    Lays file size c.start (fun stmt => [stmt.layout]) (Stmt.readBare c) := by
  have value : Lays file size c.start (fun stmt => [stmt.layout]) (do
      let p ← Expr.read .default c
      return (⟨.expr p.value p.value.span, p.cursor, p.fewer⟩ : Parsed Stmt c.size)) := by
    refine (Expr.read_lays .default c ready).bind ?_
    intro value c₁ h₁ laid₁
    exact laid₁.wrap value.span_layout
  rw [Stmt.readBare]
  cases c.kind with
  | constWord =>
    refine (take_lays ready .constWord).bind ?_
    intro _ c₁ h₁ laid₁
    have laid₁ := laid₁.clear
    dsimp only
    split
    · refine ((Stmt.readDeclaration_lays true c₁ laid₁.toReady).after laid₁).bind ?_
      intro stmt c₂ h₂ laid₂
      exact laid₂
    · refine ((Stmt.readDefinition_lays true c₁ laid₁.toReady).after laid₁).bind ?_
      intro stmt c₂ h₂ laid₂
      exact laid₂
    · exact laid₁.within
  | classWord =>
    refine (take_lays ready .classWord).bind ?_
    intro word c₁ h₁ laid₁
    refine (ClassDecl.read_lays c₁ laid₁.toReady).bind ?_
    rintro decl c₂ h₂ ⟨row, laid₂, each⟩
    exact (laid₁.after laid₂).node rfl fun r listed => (each r listed).cons _
  | implWord =>
    refine (take_lays ready .implWord).bind ?_
    intro word c₁ h₁ laid₁
    refine (laid₁.pass .identifier).bind ?_
    intro name c₂ h₂ laid₂
    refine ((Block.read_lays c₂ laid₂.toReady).after laid₂).bind ?_
    intro body c₃ h₃ laid₃
    exact laid₃.node rfl (by simp)
  | ifWord => exact Stmt.readIf_lays c ready
  | whileWord =>
    refine (take_lays ready .whileWord).bind ?_
    intro word c₁ h₁ laid₁
    refine ((Expr.read_lays .default c₁ laid₁.toReady).after laid₁).bind ?_
    intro condition c₂ h₂ laid₂
    refine ((Block.read_lays c₂ laid₂.toReady).after laid₂).bind ?_
    intro body c₃ h₃ laid₃
    exact laid₃.node rfl (by simp)
  | doWord =>
    refine (take_lays ready .doWord).bind ?_
    intro word c₁ h₁ laid₁
    refine ((Block.read_lays c₁ laid₁.toReady).after laid₁).bind ?_
    intro body c₂ h₂ laid₂
    refine (laid₂.pass .whileWord).bind ?_
    intro _ c₃ h₃ laid₃
    refine ((Expr.read_lays .default c₃ laid₃.toReady).after laid₃).bind ?_
    intro condition c₄ h₄ laid₄
    exact laid₄.node rfl (by simp)
  | switchWord =>
    refine (take_lays ready .switchWord).bind ?_
    intro word c₁ h₁ laid₁
    refine ((Expr.read_lays .default c₁ laid₁.toReady).after laid₁).bind ?_
    intro subject c₂ h₂ laid₂
    refine (laid₂.pass .openCurly).bind ?_
    intro _ c₃ h₃ laid₃
    refine (Stmt.readCases_lays none c₃ laid₃.toReady).bind ?_
    rintro ⟨cases, otherwise⟩ c₄ h₄ ⟨row, laid₄, below, last⟩
    have laid := laid₃.after laid₄
    have arms := (below.cons_cons subject.layout).cons (.leaf word.span)
    rcases last with rfl | ⟨block, rfl, last⟩
    · exact laid.node rfl (List.forall_mem_singleton.mpr arms)
    · have last := (last.cons subject.layout).cons (.leaf word.span)
      exact laid.node rfl (List.forall_mem_cons.mpr ⟨arms, List.forall_mem_singleton.mpr last⟩)
  | returnWord =>
    refine (take_lays ready .returnWord).bind ?_
    intro word c₁ h₁ laid₁
    dsimp only
    cases c₁.kind
    case semicolon | closeCurly | eof => exact laid₁.node rfl (by simp)
    all_goals
      refine ((Expr.read_lays .default c₁ laid₁.toReady).after laid₁).bind ?_
      intro value c₂ h₂ laid₂
      exact laid₂.node rfl (by simp)
  | identifier =>
    dsimp only
    cases c.peek 1 with
    | assignment => exact Stmt.readDefinition_lays false c ready
    | comma => exact Stmt.readDefinition_lays false c ready
    | colon => exact Stmt.readDeclaration_lays false c ready
    | _ => exact value
  | _ => exact value
termination_by 8 * c.size + 2
decreasing_by all_goals omega

theorem Stmt.readDefinition_lays (constant : Bool) (c : Cursor) (ready : c.Ready file size) :
    Lays file size c.start (fun stmt => [stmt.layout]) (Stmt.readDefinition constant c) := by
  rw [Stmt.readDefinition]
  refine (readNames_lays (fun _ ready => ready.within) ready).bind ?_
  intro names c₁ h₁ laid₁
  refine (laid₁.pass .assignment).bind ?_
  intro _ c₂ h₂ laid₂
  refine ((Expr.read_lays .default c₂ laid₂.toReady).after laid₂).bind ?_
  intro value c₃ h₃ laid₃
  exact laid₃.whole ready.within (by simp)
termination_by 8 * c.size
decreasing_by all_goals omega

theorem Stmt.readDeclaration_lays (constant : Bool) (c : Cursor) (ready : c.Ready file size) :
    Lays file size c.start (fun stmt => [stmt.layout]) (Stmt.readDeclaration constant c) := by
  rw [Stmt.readDeclaration]
  refine (take_lays ready .identifier).bind ?_
  intro name c₁ h₁ laid₁
  refine (laid₁.pass .colon).bind ?_
  intro _ c₂ h₂ laid₂
  refine ((TypeTerm.read_lays .default c₂ laid₂.toReady).after laid₂).bind ?_
  intro term c₃ h₃ laid₃
  dsimp only
  cases assignment : c₃.take? .assignment with
  | none => exact laid₃.node rfl (by simp)
  | some p =>
    obtain ⟨_, c₄, h₄⟩ := p
    have laid₄ := laid₃.skip assignment
    have less₄ : c₄.size < c₃.size := h₄
    refine ((Expr.read_lays .default c₄ laid₄.toReady).after laid₄).bind ?_
    intro value c₅ h₅ laid₅
    exact laid₅.node rfl (by simp)
termination_by 8 * c.size
decreasing_by all_goals omega

/-- The branches of an `if` lie behind its condition, the `else` last. -/
theorem Stmt.readIf_lays (c : Cursor) (ready : c.Ready file size) :
    Lays file size c.start (fun stmt => [stmt.layout]) (Stmt.readIf c) := by
  rw [Stmt.readIf]
  refine (take_lays ready .ifWord).bind ?_
  intro word c₁ h₁ laid₁
  refine ((Expr.read_lays .default c₁ laid₁.toReady).after laid₁).bind ?_
  intro condition c₂ h₂ laid₂
  refine ((Block.read_lays c₂ laid₂.toReady).after laid₂).bind ?_
  intro yes c₃ h₃ laid₃
  dsimp only
  cases else_ : c₃.take? .elseWord with
  | none => exact laid₃.node rfl (by simp)
  | some p =>
    obtain ⟨_, c₄, h₄⟩ := p
    have laid₄ := laid₃.skip else_
    have less₄ : c₄.size < c₃.size := h₄
    dsimp only
    split
    · refine (Stmt.readIf_lays c₄ laid₄.toReady).bind ?_
      intro nested c₅ h₅ laid₅
      -- the block around the nested conditional has the conditional's own place
      have block := laid₅.wrap nested.span_layout
      exact (laid₄.after block).node rfl (by simp [Block.layout, Stmt.layouts])
    · refine ((Block.read_lays c₄ laid₄.toReady).after laid₄).bind ?_
      intro no c₅ h₅ laid₅
      exact laid₅.node rfl (by simp)
termination_by 8 * c.size
decreasing_by all_goals omega

/-- The default that was read before stays; one that is read now stands in the row. -/
theorem Stmt.readCases_lays (otherwise : Option Block) (c : Cursor) (ready : c.Ready file size) :
    Reads.Gives file size (fun result d => ∃ row, d.Laid file size c.start row ∧
      (Case.layouts result.1).Sublist row ∧ (result.2 = otherwise ∨
        ∃ block, result.2 = some block ∧ [block.layout].Sublist row))
      (Stmt.readCases otherwise c) := by
  rw [Stmt.readCases.eq_def]
  cases close : c.take? .closeCurly with
  | some p => exact ⟨[], (ready.take? close).clear, .slnil, .inl rfl⟩
  | none =>
    dsimp only
    cases c.kind
    case caseWord =>
      refine (take_lays ready .caseWord).bind ?_
      intro word c₁ h₁ laid₁
      refine ((Stmt.readPattern_lays c₁ laid₁.toReady).after laid₁).bind ?_
      intro pattern c₂ h₂ laid₂
      refine ((Block.read_lays c₂ laid₂.toReady).after laid₂).bind ?_
      intro body c₃ h₃ laid₃
      refine (Stmt.readCases_lays otherwise c₃ laid₃.toReady).bind ?_
      rintro ⟨others, result⟩ c₄ h₄ ⟨row, laid₄, below, last⟩
      have case := laid₃.node rfl (List.forall_mem_singleton.mpr (List.sublist_cons_self _ _))
      refine ⟨_, case.after laid₄, below.cons_cons _, ?_⟩
      rcases last with rfl | ⟨block, rfl, last⟩
      · exact .inl rfl
      · exact .inr ⟨block, rfl, last.cons _⟩
    case defaultWord =>
      cases otherwise with
      | none =>
        refine (take_lays ready .defaultWord).bind ?_
        intro _ c₁ h₁ laid₁
        refine ((Block.read_lays c₁ laid₁.toReady).after laid₁).bind ?_
        intro body c₂ h₂ laid₂
        refine (Stmt.readCases_lays (some body) c₂ laid₂.toReady).bind ?_
        rintro ⟨others, result⟩ c₃ h₃ ⟨row, laid₃, below, last⟩
        -- of the row, the word goes and the block stays, which is not one of the cases
        have laid₃ := (laid₂.after laid₃).sublist (List.sublist_cons_self _ _)
        refine ⟨_, laid₃, below.cons _, .inr ?_⟩
        rcases last with rfl | ⟨block, rfl, last⟩
        · exact ⟨body, rfl, (List.nil_sublist _).cons_cons _⟩
        · exact ⟨block, rfl, last.cons _⟩
      | some _ => exact ready.within
    all_goals exact ready.within
termination_by 8 * c.size + 2
decreasing_by all_goals omega

theorem Stmt.readPattern_lays (c : Cursor) (ready : c.Ready file size) :
    Lays file size c.start (fun pattern => [pattern.layout]) (Stmt.readPattern c) := by
  rw [Stmt.readPattern]
  split
  · refine (take_lays ready .identifier).bind ?_
    intro name c₁ h₁ laid₁
    have laid₁ := laid₁.clear
    refine (laid₁.pass .colon).bind ?_
    intro _ c₂ h₂ laid₂
    refine ((TypeTerm.read_lays .default c₂ laid₂.toReady).after laid₂).bind ?_
    intro term c₃ h₃ laid₃
    exact laid₃
  · refine (Expr.read_lays .default c ready).bind ?_
    intro value c₁ h₁ laid₁
    exact laid₁
termination_by 8 * c.size + 2
decreasing_by all_goals omega

end

/-! ## Programs -/

/-- Everything up to the end is read, so the statements fill a row from here on. -/
theorem Stmt.readAll_lays (c : Cursor) (ready : c.Ready file size) :
    match Stmt.readAll c with
    | .ok (body, d) => d.Ready file size ∧ c.reached ≤ d.reached ∧
        RowIn file c.reached d.reached (Stmt.layouts body)
    | .error r => r.diagnostic.span.Within file size := by
  rw [Stmt.readAll]
  by_cases done : c.rest.isEmpty
  · rw [if_pos done]
    exact ⟨ready, Nat.le_refl _, trivial⟩
  · rw [if_neg done]
    have first := Stmt.read_lays c ready
    cases one : Stmt.read c with
    | error r =>
      rw [one] at first
      exact first
    | ok p =>
      obtain ⟨stmt, c₁, h₁⟩ := p
      rw [one] at first
      have laid : c₁.Laid file size c.start [stmt.layout] := first
      have less : c₁.size < c.size := h₁
      have others := Stmt.readAll_lays c₁ laid.toReady
      dsimp only [bind, Except.bind]
      cases rest : Stmt.readAll c₁ with
      | error r =>
        rw [rest] at others
        exact others
      | ok q =>
        obtain ⟨body, d⟩ := q
        rw [rest] at others
        obtain ⟨ready', further, row⟩ := others
        have start := ready.reached_le_start
        have low := laid.low
        have here := laid.row.mono start (Nat.le_refl _)
        have along : c.reached ≤ d.reached := by omega
        exact ⟨ready', along, here.append row (by omega) further⟩
termination_by c.size
decreasing_by omega

/-- A program that is read lies within the source, and so does the reason for one that is not. -/
theorem Program.read_lays {tokens : List Token}
    (ready : (Cursor.ofTokens file tokens).Ready file size)
    (unread : (Cursor.ofTokens file tokens).reached = 0) :
    match Program.read file tokens with
    | .ok (p, _) => p.layout.In file 0 size
    | .error r => r.diagnostic.span.Within file size := by
  have all := Stmt.readAll_lays _ ready
  rw [Program.read]
  cases read : Stmt.readAll (.ofTokens file tokens) with
  | error r =>
    rw [read] at all
    exact all
  | ok result =>
    obtain ⟨body, c⟩ := result
    rw [read] at all
    obtain ⟨ended, _, row⟩ := all
    obtain ⟨here, last⟩ := ended.spanFrom_start
    rw [unread, ← last] at row
    exact ⟨here, Nat.zero_le _, Nat.zero_le _, last ▸ ended.bound, row, trivial⟩

/-- Tokens that tile a source are ready to be read. -/
theorem Token.Tiled.ready {source : List Char} {tokens : List Token} {mark : Token}
    (tiled : Token.Tiled source file 0 tokens size) (marked : mark.kind = .eof)
    (place : (Layout.leaf mark.span).In file size size) :
    (Cursor.ofTokens file (tokens ++ [mark])).Ready file size ∧
      (Cursor.ofTokens file (tokens ++ [mark])).reached = 0 := by
  rw [Cursor.ofTokens_marked (fun t listed => (tiled.spells t listed).kind) marked]
  refine ⟨⟨place, Nat.zero_le _, Layout.rowIn_iff.mpr ⟨?_, ?_⟩, rfl, nofun⟩, rfl⟩
  · refine List.forall_mem_map.mpr fun t listed => ?_
    obtain ⟨here, there⟩ := tiled.files t listed
    obtain ⟨low, high⟩ := tiled.placed t listed
    have order := (tiled.spells t listed).nonempty
    exact Layout.leaf_in.mpr ⟨⟨here, there⟩, low, Nat.le_of_lt order, high⟩
  · exact List.pairwise_map.mpr tiled.ordered

end

end ShapeLang
