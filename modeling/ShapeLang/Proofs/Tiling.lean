import ShapeLang.Proofs.Lexemes
import ShapeLang.Token.Scan

/-!
# Tokens tile the source

Cutting a source into tokens loses nothing: the tokens stand in it one after the
other, each spells its stretch of the source, and between them there are blanks
and comments only. Where the source cannot be cut any further, this holds of what
comes before, and no rule applies. The places are right if there is a word for each
of them; a source that is longer has tokens that seem to stand elsewhere.
-/

namespace ShapeLang

theorem Position.offset_of {file : String} {n : Nat} (fits : n < UInt32.size) :
    (Position.of file n).offset.toNat = n := UInt32.toNat_ofNat_of_lt' fits

theorem byteLength_toList (s : String) : byteLength s.toList = s.utf8ByteSize := by
  have each (cs : List Char) : (String.ofList cs).utf8ByteSize = byteLength cs := by
    induction cs with
    | nil => rfl
    | cons c cs ih =>
      rw [String.ofList_cons, String.utf8ByteSize_append, ih, String.utf8ByteSize_singleton,
        byteLength]
  rw [← each, String.ofList_toList]

/-- The text that the source has from one offset to another. -/
def Slice (source : List Char) (start stop : Nat) (text : List Char) : Prop :=
  ∃ before after, source = before ++ text ++ after ∧ byteLength before = start ∧
    byteLength (before ++ text) = stop

namespace Token

/-- What may stand before `after` without being a token: blanks, and comments that go to the
end of their line. -/
inductive Gap (after : List Char) : List Char → Prop where
  | nil : Gap after []
  | blank {c : Char} {rest : List Char} (blank : Text.isBlank c = true) (later : Gap after rest) :
      Gap after (c :: rest)
  | comment {line rest : List Char} (inside : '\n' ∉ line)
      (ends : ∀ c ∈ (rest ++ after).head?, c = '\n') (later : Gap after rest) :
      Gap after ('/' :: '/' :: line ++ rest)

theorem Gap.append {after gap gap' : List Char} (first : Gap (gap' ++ after) gap)
    (second : Gap after gap') : Gap after (gap ++ gap') := by
  induction first with
  | nil => exact second
  | blank blank _ ih => exact .blank blank ih
  | @comment line rest inside ends _ ih =>
    rw [List.append_assoc]
    refine .comment inside ?_ ih
    rw [List.append_assoc]
    exact ends

theorem Gap.of_blanks {after blanks : List Char}
    (each : ∀ c ∈ blanks, Text.isBlank c = true) : Gap after blanks := by
  induction blanks with
  | nil => exact .nil
  | cons c cs ih =>
    obtain ⟨first, others⟩ := List.forall_mem_cons.mp each
    exact .blank first (ih others)

/-- What a rule takes without making a token of it is such a gap. -/
theorem Gap.of_lexeme {rule : Rule} {lexeme after : List Char} (matched : rule.Matches lexeme)
    (silent : rule.token? lexeme = none)
    (ends : rule = .comment → ∀ c ∈ after.head?, c = '\n') : Gap after lexeme := by
  cases matched with
  | blank blanks => exact .of_blanks blanks
  | @comment line inside =>
    have gap : Gap after ('/' :: '/' :: line ++ []) := .comment inside (ends rfl) .nil
    rwa [List.append_nil] at gap
  | word => cases silent
  | whole => cases silent
  | fraction => cases silent
  | text => cases silent
  | mark => cases silent

/-- Between the two offsets there is only a gap. -/
def Between (source : List Char) (start stop : Nat) : Prop :=
  ∃ before gap after, source = before ++ gap ++ after ∧ byteLength before = start ∧
    byteLength (before ++ gap) = stop ∧ Gap after gap

/-- There are only gaps before, between and after the tokens. -/
def Spaced (source : List Char) : Nat → List Token → Nat → Prop
  | start, [], stop => Between source start stop
  | start, t :: tokens, stop =>
      Between source start t.span.first ∧ Spaced source t.span.last tokens stop

/-- The token is what the source has at its place: the very text, or the literal of a string. -/
structure Spells (source : List Char) (t : Token) : Prop where
  nonempty : t.span.first < t.span.last
  kind : t.kind ≠ .eof
  plain : t.kind ≠ .string → Slice source t.span.first t.span.last t.text.toList
  quoted : t.kind = .string → ∃ inner,
    Slice source t.span.first t.span.last ('"' :: inner ++ ['"']) ∧
      t.text = String.ofList (StringLiteral.decode inner)

/-- The tokens stand one after the other between the two offsets of the source, with only gaps
between them. -/
structure Tiled (source : List Char) (file : String) (start : Nat) (tokens : List Token)
    (stop : Nat) : Prop where
  files : ∀ t ∈ tokens, t.span.start.file = file ∧ t.span.stop.file = file
  placed : ∀ t ∈ tokens, start ≤ t.span.first ∧ t.span.last ≤ stop
  ordered : tokens.Pairwise fun a b => a.span.last ≤ b.span.first
  spells : ∀ t ∈ tokens, t.Spells source
  spaced : Spaced source start tokens stop

/-! ## Scanning -/

/-- The token that a rule makes of a lexeme at the offset, if it makes one. -/
def Rule.tokens (rule : Rule) (file : String) (offset : Nat) (lexeme : List Char) : List Token :=
  match rule.token? lexeme with
  | none => []
  | some (kind, value) =>
      [⟨kind, value, ⟨.of file offset, .of file (offset + byteLength lexeme)⟩⟩]

/-- The scanner takes what the first rule takes and goes on behind it. -/
theorem scan_cons (file : String) (offset : Nat) {c : Char} {cs : List Char} {rule : Rule} {n : Nat}
    (found : firstRule? c cs = some (rule, n)) :
    scan file offset (c :: cs) =
      (scan file (offset + byteLength (c :: cs.take n)) (cs.drop n)).map
        (rule.tokens file offset (c :: cs.take n) ++ ·) := by
  rw [scan, found, Rule.tokens]
  simp only
  cases scan file (offset + byteLength (c :: cs.take n)) (cs.drop n) with
  | error d => rfl
  | ok tokens => cases rule.token? (c :: cs.take n) <;> rfl

/-- The text before `rest`, at the offset, is cut into lexemes, which make the tokens. -/
inductive Scanned (file : String) (rest : List Char) : Nat → List Char → List Token → Prop where
  | done {offset : Nat} : Scanned file rest offset [] []
  | lexeme {offset : Nat} {rule : Rule} {lexeme text : List Char} {tokens : List Token}
      (listed : rule ∈ rules) (matched : rule.Matches lexeme)
      (ends : rule = .comment → ∀ c ∈ (text ++ rest).head?, c = '\n')
      (later : Scanned file rest (offset + byteLength lexeme) text tokens) :
      Scanned file rest offset (lexeme ++ text) (rule.tokens file offset lexeme ++ tokens)

inductive ScanOutcome (file : String) (offset : Nat) (cs : List Char) :
    Except Diagnostic (List Token) → Prop where
  | finished {tokens : List Token} (scanned : Scanned file [] offset cs tokens) :
      ScanOutcome file offset cs
        (.ok (tokens ++ [⟨.eof, "EOF", .point (.of file (offset + byteLength cs))⟩]))
  | stuck {text rest : List Char} {c : Char} {tokens : List Token} (whole : cs = text ++ c :: rest)
      (scanned : Scanned file (c :: rest) offset text tokens) (none : firstRule? c rest = none) :
      ScanOutcome file offset cs (.error (.error (.unrecognisedToken (String.singleton c))
        (.point (.of file (offset + byteLength text)))))

/-- A lexeme in front of what has been scanned. -/
theorem ScanOutcome.lexeme {file : String} {offset : Nat} {rule : Rule} {lexeme cs : List Char}
    {result : Except Diagnostic (List Token)} (listed : rule ∈ rules)
    (matched : rule.Matches lexeme) (ends : rule = .comment → ∀ c ∈ cs.head?, c = '\n')
    (later : ScanOutcome file (offset + byteLength lexeme) cs result) :
    ScanOutcome file offset (lexeme ++ cs)
      (result.map (rule.tokens file offset lexeme ++ ·)) := by
  cases later with
  | @finished tokens scanned =>
    have whole := Scanned.lexeme listed matched (by simpa using ends) scanned
    have outcome := ScanOutcome.finished whole
    rwa [byteLength_append, ← Nat.add_assoc, List.append_assoc] at outcome
  | @stuck text rest c tokens split scanned none =>
    subst split
    have outcome := ScanOutcome.stuck (List.append_assoc lexeme text (c :: rest)).symm
      (.lexeme listed matched ends scanned) none
    rwa [byteLength_append, ← Nat.add_assoc] at outcome

/-- By induction on what is left: the scanner cuts the source into lexemes and gaps, or stops at
what no rule takes. -/
theorem scan_outcome (file : String) (offset : Nat) (cs : List Char) :
    ScanOutcome file offset cs (scan file offset cs) := by
  match cs with
  | [] =>
    rw [scan]
    exact .finished .done
  | c :: cs =>
    cases found : firstRule? c cs with
    | none =>
      rw [scan, found]
      exact .stuck rfl .done found
    | some taken =>
      obtain ⟨rule, n⟩ := taken
      obtain ⟨listed, taken⟩ := firstRule?_eq_some found
      have ends (comment : rule = .comment) : ∀ d ∈ (cs.drop n).head?, d = '\n' := by
        subst comment
        exact Rule.comment_ends taken
      have outcome := ScanOutcome.lexeme listed (Rule.matches_of_tail? taken) ends
        (scan_outcome file (offset + byteLength (c :: cs.take n)) (cs.drop n))
      rwa [← scan_cons file offset found, List.cons_append, List.take_append_drop] at outcome
termination_by cs.length
decreasing_by simp only [List.length_drop, List.length_cons]; omega

/-! ## From lexemes to tiles -/

theorem Rule.Matches.nonempty {rule : Rule} {lexeme : List Char} (matched : rule.Matches lexeme) :
    0 < byteLength lexeme := by
  have first (c : Char) (cs : List Char) : 0 < byteLength (c :: cs) :=
    Nat.add_pos_left c.utf8Size_pos _
  cases matched <;> exact first _ _

theorem Rule.token?_ne_eof {rule : Rule} {lexeme : List Char} {kind : Kind} {value : String}
    (listed : rule ∈ rules) (made : rule.token? lexeme = some (kind, value)) : kind ≠ .eof := by
  by_cases literal : rule = .text
  · subst literal
    cases made
    simp
  · exact (Rule.token?_plain listed literal made).2.1

/-- The scanner makes no end mark. -/
theorem Scanned.kinds {file : String} {rest text : List Char} {offset : Nat} {tokens : List Token}
    (scanned : Scanned file rest offset text tokens) : ∀ t ∈ tokens, t.kind ≠ .eof := by
  induction scanned with
  | done => simp
  | @lexeme offset rule lexeme text tokens listed _ _ _ ih =>
    refine List.forall_mem_append.mpr ⟨?_, ih⟩
    rw [Rule.tokens]
    cases made : rule.token? lexeme with
    | none => simp
    | some token => exact List.forall_mem_singleton.mpr (Rule.token?_ne_eof listed made)

/-- A token spells what its rule has matched. -/
theorem Rule.spells {rule : Rule} {source lexeme : List Char} {t : Token}
    (listed : rule ∈ rules) (matched : rule.Matches lexeme)
    (slice : Slice source t.span.first t.span.last lexeme)
    (made : rule.token? lexeme = some (t.kind, t.text)) : t.Spells source := by
  have nonempty : t.span.first < t.span.last := by
    obtain ⟨before, _, _, start, stop⟩ := slice
    have some_ := matched.nonempty
    rw [byteLength_append] at stop
    omega
  refine ⟨nonempty, Rule.token?_ne_eof listed made, fun other => ?_, fun string => ?_⟩
  · have literal : rule ≠ .text := by
      rintro rfl
      exact other (Prod.mk.inj (Option.some.inj made)).1.symm
    rw [(Rule.token?_plain listed literal made).2.2, String.toList_ofList]
    exact slice
  · have literal : rule = .text := Decidable.byContradiction fun literal =>
      (Rule.token?_plain listed literal made).1 string
    subst literal
    cases matched with
    | @text body inside =>
      refine ⟨body, slice, ?_⟩
      rw [← (Prod.mk.inj (Option.some.inj made)).2]
      simp

theorem Tiled.cons {source : List Char} {file : String} {start stop : Nat} {t : Token}
    {tokens : List Token} (between : Between source start t.span.first)
    (here : t.span.start.file = file ∧ t.span.stop.file = file)
    (spells : t.Spells source) (later : Tiled source file t.span.last tokens stop)
    (le : t.span.last ≤ stop) : Tiled source file start (t :: tokens) stop := by
  have before : start ≤ t.span.first := by
    obtain ⟨before, gap, _, _, rfl, size, _⟩ := between
    rw [byteLength_append] at size
    omega
  refine ⟨List.forall_mem_cons.mpr ⟨here, later.files⟩,
    List.forall_mem_cons.mpr ⟨⟨before, le⟩, fun u listed => ?_⟩, ?_,
    List.forall_mem_cons.mpr ⟨spells, later.spells⟩, between, later.spaced⟩
  · obtain ⟨low, high⟩ := later.placed u listed
    have nonempty := spells.nonempty
    exact ⟨by omega, high⟩
  · exact List.pairwise_cons.mpr ⟨fun u listed => (later.placed u listed).1, later.ordered⟩

/-- What has been scanned is tiled, if only a gap was read since the last token. -/
theorem Scanned.tiled {file : String} {source before gap text rest : List Char} {offset : Nat}
    {tokens : List Token} (short : byteLength source < UInt32.size)
    (scanned : Scanned file rest offset text tokens)
    (whole : source = before ++ gap ++ (text ++ rest)) (pending : Gap (text ++ rest) gap)
    (place : byteLength (before ++ gap) = offset) :
    Tiled source file (byteLength before) tokens (offset + byteLength text) := by
  induction scanned generalizing before gap with
  | done =>
    refine ⟨by simp, by simp, .nil, by simp, ?_⟩
    exact ⟨before, gap, rest, whole, rfl, place, pending⟩
  | @lexeme offset rule lexeme text tokens listed matched ends later ih =>
    have size : offset + byteLength (lexeme ++ text) =
        offset + byteLength lexeme + byteLength text := by
      rw [byteLength_append, Nat.add_assoc]
    rw [size, Rule.tokens]
    cases made : rule.token? lexeme with
    | none =>
      -- the gap goes on
      have whole' : source = before ++ (gap ++ lexeme) ++ (text ++ rest) := by
        simpa using whole
      have longer : Gap (text ++ rest) (gap ++ lexeme) := by
        rw [List.append_assoc] at pending
        exact pending.append (.of_lexeme matched made ends)
      refine ih whole' longer ?_
      rw [← List.append_assoc, byteLength_append, place]
    | some token =>
      obtain ⟨kind, value⟩ := token
      have whole' : source = before ++ gap ++ lexeme ++ [] ++ (text ++ rest) := by
        simpa using whole
      have stop : byteLength (before ++ gap ++ lexeme) = offset + byteLength lexeme := by
        rw [byteLength_append, place]
      have tiled := ih whole' .nil (by rw [List.append_nil, stop])
      rw [stop] at tiled
      -- the places have words, as the source has
      have reaches : offset + byteLength lexeme < UInt32.size := by
        rw [whole'] at short
        simp only [byteLength_append] at short stop
        omega
      have low : (Position.of file offset).offset.toNat = offset := Position.offset_of (by omega)
      have high : (Position.of file (offset + byteLength lexeme)).offset.toNat =
          offset + byteLength lexeme := Position.offset_of reaches
      have between : Between source (byteLength before) offset :=
        ⟨before, gap, lexeme ++ text ++ rest, whole, rfl, place, pending⟩
      have slice : Slice source offset (offset + byteLength lexeme) lexeme :=
        ⟨before ++ gap, text ++ rest, by simpa using whole, place, stop⟩
      refine .cons ?_ ⟨rfl, rfl⟩ (Rule.spells listed matched ?_ made) ?_ ?_
      · rwa [Span.first, low]
      · rwa [Span.first, Span.last, low, high]
      · rwa [Span.last, high]
      · rw [Span.last, high]
        exact Nat.le_add_right _ _

def endMark (source file : String) : Token :=
  ⟨.eof, "EOF", .point (.of file source.utf8ByteSize)⟩

inductive TokenizeOutcome (source file : String) : Except Diagnostic (List Token) → Prop where
  | finished {tokens : List Token}
      (tiled : Tiled source.toList file 0 tokens source.utf8ByteSize) :
      TokenizeOutcome source file (.ok (tokens ++ [endMark source file]))
  | stuck {text rest : List Char} {c : Char} {tokens : List Token}
      (whole : source.toList = text ++ c :: rest)
      (tiled : Tiled source.toList file 0 tokens (byteLength text))
      (none : firstRule? c rest = none) :
      TokenizeOutcome source file (.error (.error (.unrecognisedToken (String.singleton c))
        (.point (.of file (byteLength text)))))

/-- What a source comes to: tiles up to its end, or the place that no rule matches. -/
theorem tokenize_outcome {source : String} (short : source.utf8ByteSize < UInt32.size)
    (file : String) : TokenizeOutcome source file (tokenize source file) := by
  have tiled {text rest : List Char} {tokens : List Token} (whole : source.toList = text ++ rest)
      (scanned : Scanned file rest 0 text tokens) :
      Tiled source.toList file 0 tokens (byteLength text) := by
    have all : source.toList = [] ++ [] ++ (text ++ rest) := whole
    have tiled := scanned.tiled (byteLength_toList source ▸ short) all .nil rfl
    rwa [Nat.zero_add] at tiled
  have outcome := scan_outcome file 0 source.toList
  rw [← tokenize] at outcome
  generalize tokenize source file = result at outcome ⊢
  cases outcome with
  | finished scanned =>
    have whole := tiled (List.append_nil _).symm scanned
    rw [byteLength_toList] at whole
    rw [Nat.zero_add, byteLength_toList]
    exact .finished whole
  | stuck whole scanned none =>
    rw [Nat.zero_add]
    exact .stuck whole (tiled whole scanned) none

/-- A source that is not too long is cut into tokens, up to its end or to a place where no rule
applies. -/
theorem tokenize_lossless {source : String} (short : source.utf8ByteSize < UInt32.size)
    (file : String) :
    match tokenize source file with
    | .ok tokens => ∃ body place,
        tokens = body ++ [⟨.eof, "EOF", .point place⟩] ∧
          place.file = file ∧ place.offset.toNat = source.utf8ByteSize ∧
          Tiled source.toList file 0 body source.utf8ByteSize
    | .error d => ∃ before c after tokens place, source.toList = before ++ c :: after ∧
        d = .error (.unrecognisedToken (String.singleton c)) (.point place) ∧
        place.file = file ∧ place.offset.toNat = byteLength before ∧
        Tiled source.toList file 0 tokens (byteLength before) ∧
        ∀ rule ∈ rules, ∀ lexeme rest, c :: after = lexeme ++ rest → ¬ rule.Matches lexeme := by
  have outcome := tokenize_outcome short file
  generalize tokenize source file = result at outcome ⊢
  cases outcome with
  | finished tiled => exact ⟨_, _, rfl, rfl, Position.offset_of short, tiled⟩
  | @stuck before _ _ _ whole tiled none =>
    have reaches : byteLength before < UInt32.size := by
      rw [← byteLength_toList, whole, byteLength_append] at short
      omega
    exact ⟨_, _, _, _, _, whole, rfl, rfl, Position.offset_of reaches, tiled,
      not_matches_of_firstRule? none⟩

def commentedSource : String := "x = \"é\" // y"

theorem tokenize_lossless_commentedSource : commentedSource.utf8ByteSize < UInt32.size ∧
    ∃ body place, tokenize commentedSource "main.sp" = .ok (body ++ [⟨.eof, "EOF", .point place⟩]) ∧
      body.map (·.text) = ["x", "=", "é"] ∧ place.offset.toNat = 13 ∧
      Tiled commentedSource.toList "main.sp" 0 body 13 := by
  have short : commentedSource.utf8ByteSize < UInt32.size := by decide
  have size : commentedSource.utf8ByteSize = 13 := by decide
  have texts : (tokenize commentedSource "main.sp").toOption.map (·.map Token.text) =
      some ["x", "=", "é", "EOF"] := by decide +kernel
  have parts := tokenize_lossless short "main.sp"
  cases ran : tokenize commentedSource "main.sp" with
  | error d =>
    rw [ran] at texts
    cases texts
  | ok tokens =>
    rw [ran] at parts texts
    obtain ⟨body, place, rfl, _, reaches, tiled⟩ := parts
    rw [size] at reaches tiled
    have named : body.map Token.text ++ ["EOF"] = ["x", "=", "é"] ++ ["EOF"] :=
      List.map_append.symm.trans (Option.some.inj texts)
    exact ⟨short, body, place, rfl, (List.append_inj' named rfl).1, reaches, tiled⟩

/-! ## A name out of reach -/

def farName (n : Nat) : String := String.ofList (List.replicate n ' ' ++ ['a'])

theorem scan_blanks (file : String) (offset n : Nat) {cs : List Char}
    (stops : ∀ c ∈ cs.head?, Text.isBlank c = false) :
    scan file offset (List.replicate n ' ' ++ cs) = scan file (offset + n) cs := by
  cases n with
  | zero => rfl
  | succ n =>
    have blanks : ∀ c ∈ List.replicate n ' ', Text.isBlank c = true := by
      intro c listed
      rw [List.eq_of_mem_replicate listed]
      decide
    have taken : spanLength Text.isBlank (List.replicate n ' ' ++ cs) = n := by
      rw [spanLength_append blanks stops, List.length_replicate]
    have found : firstRule? ' ' (List.replicate n ' ' ++ cs) = some (.blank, n) := by
      rw [firstRule?_space, taken]
    have size (m : Nat) : byteLength (List.replicate m ' ') = m := by
      induction m with
      | zero => rfl
      | succ m ih =>
        rw [List.replicate_succ, byteLength, ih, Nat.add_comm]
        rfl
    have first : (List.replicate n ' ' ++ cs).take n = List.replicate n ' ' :=
      List.take_left' List.length_replicate
    have others : (List.replicate n ' ' ++ cs).drop n = cs :=
      List.drop_left' List.length_replicate
    rw [List.replicate_succ, List.cons_append, scan_cons file offset found, first, others,
      ← List.replicate_succ, size]
    cases scan file (offset + (n + 1)) cs <;> rfl

theorem tokenize_farName (n : Nat) (file : String) :
    tokenize (farName n) file = .ok
      [⟨.identifier, "a", ⟨.of file n, .of file (n + 1)⟩⟩,
        ⟨.eof, "EOF", .point (.of file (n + 1))⟩] := by
  have found : firstRule? 'a' [] = some (.word, 0) := by decide
  have stops : ∀ c ∈ ['a'].head?, Text.isBlank c = false := by
    rintro _ ⟨⟩
    decide
  rw [tokenize, farName, String.toList_ofList, scan_blanks file 0 n stops, Nat.zero_add,
    scan_cons file n found]
  simp only [List.drop_nil, List.take_nil, scan]
  rfl

/-- One blank more than there are words for places, and the name seems to stand where the first
blank is and the source to end behind it. -/
theorem tokenize_wraps :
    tokenize (farName UInt32.size) "main.sp" = .ok
      [⟨.identifier, "a", ⟨⟨0, "main.sp"⟩, ⟨1, "main.sp"⟩⟩⟩, ⟨.eof, "EOF", .point ⟨1, "main.sp"⟩⟩] ∧
    ¬ Slice (farName UInt32.size).toList 0 1 ['a'] := by
  refine ⟨tokenize_farName _ _, ?_⟩
  rintro ⟨before, after, whole, start, -⟩
  have first (n : Nat) : (farName (n + 1)).toList.head? = some ' ' := by
    rw [farName, String.toList_ofList]
    rfl
  cases before with
  | nil =>
    have head := first 4294967295
    rw [whole] at head
    cases head
  | cons c before =>
    have size := c.utf8Size_pos
    rw [byteLength] at start
    omega

end Token

end ShapeLang
