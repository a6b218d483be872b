import GeoLang.Proofs.Reading.Cursor
import GeoLang.Proofs.Reading.Program

namespace GeoLang

/-- The state of a reader: the index of a raw token, the errors noted so far and the levels
    entered. -/
structure Reader where
  pos : Nat
  errors : List ParseError
  depth : Nat
deriving DecidableEq, Repr

namespace Reader

open Grammar

section

variable (tokens : List Token)

/-- Stands behind the last token. -/
def endToken : Token := .eofAt (tokens.getLast?.elim .start (·.span.stop))

/-- The tokens from the current one on, without the comments. -/
def ahead (s : Reader) : List Token := (tokens.drop s.pos).filter (!·.kind.isComment)

/-- The current token: the first one ahead that is no comment. -/
def peek (s : Reader) : Token := (s.ahead tokens).headD (endToken tokens)

/-- Whether the end of the text has been reached. -/
def atEnd (s : Reader) : Bool := (s.peek tokens).kind.isEof

/-- The token behind the current one; behind the end of the text there is none but the end. -/
def second (s : Reader) : Token :=
  if s.atEnd tokens then s.peek tokens else ((s.ahead tokens).drop 1).headD (endToken tokens)

/-- The reader moved over the comments in front of it. -/
def skipComments (s : Reader) : Reader :=
  { s with pos := s.pos + ((tokens.drop s.pos).takeWhile (·.kind.isComment)).length }

/-- Consumes the current token and the comments behind it; at the end there is nothing to
    consume. -/
def advance (s : Reader) : Reader :=
  if s.atEnd tokens then s else skipComments tokens { s with pos := s.pos + 1 }

/-- The token consumed last. -/
def previous (s : Reader) : Option Token :=
  (tokens.take s.pos).reverse.find? (!·.kind.isComment)

/-- The span from the start of another one to the last token that was passed. -/
def spanSince (s : Reader) (start : Span) : Span :=
  match s.previous tokens with
  | some t => if start.start.offset ≤ t.span.stop.offset then start.merge t.span else start
  | none => start

/-- The reader with one error more. -/
def record (s : Reader) (e : ParseError) : Reader := { s with errors := s.errors ++ [e] }

/-- A reader in front of the first token that is no comment. -/
def initial : Reader := skipComments tokens ⟨0, [], 0⟩

/-- What the reader has in sight. -/
def cursor (s : Reader) : Cursor :=
  ⟨s.previous tokens, code (tokens.drop s.pos),
    ((tokens.drop s.pos).find? (·.kind.isEof)).getD (endToken tokens)⟩

/-- The invariant of readers: the index is in the list or just behind it and never at a comment, and
    no more levels are entered than there are. -/
structure Sound (s : Reader) : Prop where
  pos_le : s.pos ≤ tokens.length
  rests : ∀ t ∈ tokens[s.pos]?, t.kind.isComment = false
  depth_le : s.depth ≤ maxNesting

/-- On its way from `s` to `s'` a reader leaves exactly the tokens `passed` behind, comments among
    them but no end of the text. -/
structure Passes (s : Reader) (passed : List Token) (s' : Reader) : Prop where
  pos : s'.pos = s.pos + passed.length
  ahead : tokens.drop s.pos = passed ++ tokens.drop s'.pos
  inside : ∀ t ∈ passed, t.kind.isEof = false

end

variable {tokens : List Token}

theorem isComment_of_isEof {t : Token} (heof : t.kind.isEof = true) : t.kind.isComment = false := by
  cases hkind : t.kind <;> simp_all [TokenKind.isEof, TokenKind.isComment]

private theorem isEof_of_isComment {t : Token} (hcomment : t.kind.isComment = true) :
    t.kind.isEof = false := by
  cases hkind : t.kind <;> simp_all [TokenKind.isEof, TokenKind.isComment]

/-- The first token of the code, or the end where there is none, is the first token that is no
    comment. -/
theorem headD_code (ts : List Token) (last : Token) :
    (code ts).headD ((ts.find? (·.kind.isEof)).getD last) =
      (ts.filter (!·.kind.isComment)).headD last := by
  induction ts with
  | nil => rfl
  | cons t ts ih =>
    by_cases heof : t.kind.isEof = true
    · simp [code, heof, isComment_of_isEof heof]
    · by_cases hcomment : t.kind.isComment = true
      · simp_all [code]
      · simp [code, heof, hcomment]

/-- The rules have the same token in sight as the reader. -/
@[simp] theorem peek_cursor (s : Reader) : (s.cursor tokens).peek = s.peek tokens :=
  headD_code _ _

theorem kind_eof_cursor (s : Reader) : (s.cursor tokens).eof.kind = .eof := by
  simp only [cursor]
  cases hfound : (tokens.drop s.pos).find? (·.kind.isEof) with
  | none => rfl
  | some t =>
    have heof := List.find?_some (p := fun t : Token => t.kind.isEof) hfound
    exact TokenKind.isEof_iff.1 heof

/-- Nothing is in sight at the end, and only there. -/
theorem rest_cursor_eq_nil_iff {s : Reader} :
    (s.cursor tokens).rest = [] ↔ s.atEnd tokens = true := by
  rw [atEnd, ← peek_cursor]
  constructor
  · intro hrest
    rw [Cursor.peek, hrest, List.headD_nil, TokenKind.isEof_iff]
    exact kind_eof_cursor s
  · intro heof
    cases hrest : (s.cursor tokens).rest with
    | nil => rfl
    | cons t ts =>
      have hmem : t ∈ code (tokens.drop s.pos) := by
        change t ∈ (s.cursor tokens).rest
        rw [hrest]
        exact List.mem_cons_self
      rw [Cursor.peek, hrest, List.headD_cons, TokenKind.isEof_iff] at heof
      exact absurd heof (kind_ne_eof_of_mem_code hmem)

/-- Where the text goes on, the current token is the one at the index. -/
theorem Sound.drop_eq {s : Reader} (hs : s.Sound tokens) (hend : s.atEnd tokens = false) :
    tokens.drop s.pos = s.peek tokens :: tokens.drop (s.pos + 1) := by
  cases hdrop : tokens.drop s.pos with
  | nil =>
    have heof : s.atEnd tokens = true := by simp [atEnd, peek, ahead, hdrop, endToken, Token.eofAt, TokenKind.isEof]
    rw [heof] at hend
    cases hend
  | cons t ts =>
    have hget : tokens[s.pos]? = some t := by rw [← List.head?_drop, hdrop, List.head?_cons]
    have hcomment := hs.rests t hget
    have hpeek : s.peek tokens = t := by simp [peek, ahead, hdrop, hcomment]
    have hbehind : tokens.drop (s.pos + 1) = ts := by
      rw [← List.drop_drop, hdrop, List.drop_one, List.tail_cons]
    rw [hpeek, hbehind]

/-- Outside of the end, the current token is no comment. -/
theorem Sound.isComment_peek {s : Reader} (hs : s.Sound tokens) (hend : s.atEnd tokens = false) :
    (s.peek tokens).kind.isComment = false := by
  have hget : tokens[s.pos]? = some (s.peek tokens) := by
    rw [← List.head?_drop, hs.drop_eq hend, List.head?_cons]
  exact hs.rests _ hget

theorem Sound.second_cursor {s : Reader} (hs : s.Sound tokens) :
    (s.cursor tokens).second = s.second tokens := by
  cases hend : s.atEnd tokens with
  | true =>
    have hrest := rest_cursor_eq_nil_iff.2 hend
    rw [second, if_pos hend, ← peek_cursor, Cursor.peek, Cursor.second, hrest]
    rfl
  | false =>
    have hcomment := hs.isComment_peek hend
    have heof : (s.peek tokens).kind.isEof = false := hend
    have hdrop := hs.drop_eq hend
    have hhead := headD_code (tokens.drop (s.pos + 1)) (endToken tokens)
    rw [second, if_neg (by simp [hend])]
    simp only [Cursor.second, cursor, ahead, code] at hhead ⊢
    rw [hdrop]
    simpa [hcomment, heof] using hhead

/-- The code is what stands in front of the first end, without the comments. -/
theorem code_eq_takeWhile (ts : List Token) :
    code ts = (ts.filter (!·.kind.isComment)).takeWhile (!·.kind.isEof) := by
  induction ts with
  | nil => rfl
  | cons t ts ih =>
    by_cases heof : t.kind.isEof = true
    · simp [code, heof, isComment_of_isEof heof]
    · by_cases hcomment : t.kind.isComment = true
      · simp_all [code]
      · simp_all [code]

/-- Looking for an assignment ends in front of the end of the text. -/
theorem assignsPath_takeWhile (ts : List Token) :
    assignsPath (ts.takeWhile (!·.kind.isEof)) = assignsPath ts := by
  fun_induction assignsPath ts with
  | case1 t u ts ih =>
    by_cases ht : t.kind.isEof = true
    · simp [TokenKind.isEof_iff.1 ht, TokenKind.isEof, assignsPath, TokenKind.isName]
    by_cases hu : u.kind.isEof = true
    · have htake : (t :: u :: ts).takeWhile (!·.kind.isEof) = [t] := by
        simp [ht, hu]
      rw [htake]
      simp [TokenKind.isEof_iff.1 hu, TokenKind.isPunctuation, TokenKind.assignment?, assignsPath]
    · simp [ht, hu, assignsPath, ih]
  | case2 ts hne =>
    obtain _ | ⟨t, _ | ⟨u, ts⟩⟩ := ts
    · rfl
    · by_cases ht : t.kind.isEof = true
      · simp [ht, assignsPath]
      · simp [ht, assignsPath]
    · exact absurd rfl (hne t u ts)

/-- The look ahead sees the same tokens from a cursor as from the reader. -/
theorem assignsPath_cursor (s : Reader) :
    assignsPath (s.cursor tokens).rest = assignsPath (s.ahead tokens) := by
  simp only [cursor]
  rw [code_eq_takeWhile, assignsPath_takeWhile, ahead]

theorem Passes.refl (s : Reader) : s.Passes tokens [] s := ⟨rfl, rfl, by simp⟩

/-- What is passed on the way is passed in turn. -/
theorem Passes.trans {s s' s'' : Reader} {passed more : List Token}
    (hfirst : s.Passes tokens passed s') (hsecond : s'.Passes tokens more s'') :
    s.Passes tokens (passed ++ more) s'' where
  pos := by
    have hlength := @List.length_append _ passed more
    have hpos := hfirst.pos
    have hpos' := hsecond.pos
    omega
  ahead := by rw [hfirst.ahead, hsecond.ahead, List.append_assoc]
  inside := by
    intro t ht
    obtain ht | ht := List.mem_append.1 ht
    · exact hfirst.inside t ht
    · exact hsecond.inside t ht

/-- Code behind tokens without an end begins with the code among those. -/
theorem code_append {passed : List Token} (hinside : ∀ t ∈ passed, t.kind.isEof = false)
    (ts : List Token) : code (passed ++ ts) = passed.filter (!·.kind.isComment) ++ code ts := by
  have hall : ∀ t ∈ passed, (!t.kind.isEof) = true := by simpa using hinside
  rw [code, List.takeWhile_append_of_pos hall, List.filter_append, code]

/-- Of the tokens that a reader leaves behind, its cursor reads all but the comments. -/
theorem Passes.reads {s s' : Reader} {passed : List Token} (hpasses : s.Passes tokens passed s') :
    (s.cursor tokens).Reads (passed.filter (!·.kind.isComment)) (s'.cursor tokens) where
  rest := by
    change code (tokens.drop s.pos) = _ ++ code (tokens.drop s'.pos)
    rw [hpasses.ahead, code_append hpasses.inside]
  eof := by
    have hnone : passed.find? (·.kind.isEof) = none := by
      rw [List.find?_eq_none]
      intro t ht
      rw [hpasses.inside t ht]
      exact Bool.false_ne_true
    simp only [cursor]
    rw [hpasses.ahead, List.find?_append, hnone, Option.none_or]
  previous := by
    have htake : tokens.take s'.pos = tokens.take s.pos ++ passed := by
      rw [hpasses.pos, List.take_add, hpasses.ahead, List.take_left]
    simp only [cursor, previous]
    rw [htake, List.reverse_append, List.find?_append, List.getLast?_filter]

/-- A reader that has left nothing behind is where it was. -/
theorem Passes.pos_lt_iff {s s' : Reader} {passed : List Token}
    (hs : s.Sound tokens) (hpasses : s.Passes tokens passed s') :
    s.pos < s'.pos ↔ (s'.cursor tokens).remaining < (s.cursor tokens).remaining := by
  have hremaining := hpasses.reads.remaining_eq
  have hpos := hpasses.pos
  cases passed with
  | nil =>
    simp only [List.length_nil, List.filter_nil] at hpos hremaining
    omega
  | cons t ts =>
    have hget : tokens[s.pos]? = some t := by
      rw [← List.head?_drop, hpasses.ahead, List.cons_append, List.head?_cons]
    have hfilter : (t :: ts).filter (!·.kind.isComment) = t :: ts.filter (!·.kind.isComment) :=
      List.filter_cons_of_pos (by simp [hs.rests t hget])
    rw [hfilter, List.length_cons] at hremaining
    rw [List.length_cons] at hpos
    omega

theorem drop_skipComments (s : Reader) :
    tokens.drop (s.skipComments tokens).pos =
      (tokens.drop s.pos).dropWhile (·.kind.isComment) := by
  let comments := (tokens.drop s.pos).takeWhile (·.kind.isComment)
  have hprefix : comments <+: tokens.drop s.pos := List.takeWhile_prefix _
  have hsplit : comments ++ (tokens.drop s.pos).drop comments.length = tokens.drop s.pos :=
    List.prefix_iff_eq_append.1 hprefix
  have hwhile : comments ++ (tokens.drop s.pos).dropWhile (·.kind.isComment) = tokens.drop s.pos :=
    List.takeWhile_append_dropWhile
  have hdrop := List.append_cancel_left (hsplit.trans hwhile.symm)
  rw [List.drop_drop] at hdrop
  exact hdrop

/-- Skipping comments passes exactly these. -/
theorem passes_skipComments (s : Reader) :
    s.Passes tokens ((tokens.drop s.pos).takeWhile (·.kind.isComment)) (s.skipComments tokens) where
  pos := rfl
  ahead := by rw [drop_skipComments, List.takeWhile_append_dropWhile]
  inside := by
    intro t ht
    exact isEof_of_isComment (List.all_eq_true.1 List.all_takeWhile t ht)

/-- Passing tokens never leads back and never past the end of the list. -/
theorem Passes.pos_le {s s' : Reader} {passed : List Token} (hpasses : s.Passes tokens passed s')
    (hs : s.pos ≤ tokens.length) : s.pos ≤ s'.pos ∧ s'.pos ≤ tokens.length := by
  have hlength := congrArg List.length hpasses.ahead
  rw [List.length_append, List.length_drop, List.length_drop] at hlength
  have hpos := hpasses.pos
  omega

/-- Behind comments a reader is sound. -/
theorem sound_skipComments {s : Reader} (hpos : s.pos ≤ tokens.length)
    (hdepth : s.depth ≤ maxNesting) : (s.skipComments tokens).Sound tokens where
  pos_le := ((passes_skipComments s).pos_le hpos).2
  rests := by
    intro t ht
    rw [← List.head?_drop, drop_skipComments] at ht
    have hhead := List.head?_dropWhile_not (fun t : Token => t.kind.isComment) (tokens.drop s.pos)
    rw [ht] at hhead
    exact hhead
  depth_le := hdepth

/-- Reading begins with a sound reader. -/
theorem sound_initial : (initial tokens).Sound tokens :=
  sound_skipComments (Nat.zero_le _) (Nat.zero_le _)

/-- At the end of the text there is no further step. -/
theorem advance_of_atEnd {s : Reader} (hend : s.atEnd tokens = true) : s.advance tokens = s := by
  rw [advance, if_pos hend]

/-- Advancing leaves the current token behind and the comments that follow it. -/
theorem Sound.passes_advance {s : Reader} (hs : s.Sound tokens) (hend : s.atEnd tokens = false) :
    ∃ comments, s.Passes tokens (s.peek tokens :: comments) (s.advance tokens) ∧
      comments.filter (!·.kind.isComment) = [] := by
  let next : Reader := { s with pos := s.pos + 1 }
  have hstep : s.Passes tokens [s.peek tokens] next := by
    refine ⟨rfl, hs.drop_eq hend, ?_⟩
    intro t ht
    obtain rfl := List.mem_singleton.1 ht
    exact hend
  have hskip := @passes_skipComments tokens next
  have hadvance : s.advance tokens = next.skipComments tokens := by
    rw [advance, if_neg (by simp [hend])]
  refine ⟨(tokens.drop next.pos).takeWhile (·.kind.isComment), ?_, ?_⟩
  · rw [hadvance]
    exact hstep.trans hskip
  · rw [List.filter_eq_nil_iff]
    intro t ht
    have hcomment := List.all_eq_true.1 List.all_takeWhile t ht
    simpa using hcomment

/-- Steps keep readers sound. -/
theorem Sound.advance {s : Reader} (hs : s.Sound tokens) : (s.advance tokens).Sound tokens := by
  cases hend : s.atEnd tokens with
  | true =>
    rw [advance_of_atEnd hend]
    exact hs
  | false =>
    have hlength := congrArg List.length (hs.drop_eq hend)
    rw [List.length_drop, List.length_cons, List.length_drop] at hlength
    rw [Reader.advance, if_neg (by simp [hend])]
    exact sound_skipComments (by simp only; omega) hs.depth_le

/-- The cursor of a reader advances with it. -/
theorem Sound.cursor_advance {s : Reader} (hs : s.Sound tokens) :
    (s.advance tokens).cursor tokens = (s.cursor tokens).advance := by
  cases hend : s.atEnd tokens with
  | true =>
    rw [advance_of_atEnd hend, Cursor.advance_of_rest_nil (rest_cursor_eq_nil_iff.2 hend)]
  | false =>
    obtain ⟨comments, hpasses, hcomments⟩ := hs.passes_advance hend
    have hpeek := hs.isComment_peek hend
    have hreads := hpasses.reads
    rw [List.filter_cons_of_pos (by simp [hpeek]), hcomments] at hreads
    exact hreads.of_singleton.2

theorem pos_lt_length {s : Reader} (hend : s.atEnd tokens = false) : s.pos < tokens.length := by
  by_cases hpos : s.pos < tokens.length
  · exact hpos
  · have hdrop : tokens.drop s.pos = [] := List.drop_eq_nil_of_le (by omega)
    simp [atEnd, peek, ahead, hdrop, endToken, Token.eofAt, TokenKind.isEof] at hend

/-- Outside of the end, every step makes progress. -/
theorem pos_lt_pos_advance {s : Reader} (hend : s.atEnd tokens = false) :
    s.pos < (s.advance tokens).pos := by
  rw [Reader.advance, if_neg (by simp [hend])]
  simp only [skipComments]
  omega

/-- Skips tokens up to the first boundary outside of the braces skipped so far. -/
def skipToBoundary (tokens : List Token) (braces : Nat) (s : Reader) : Reader :=
  if _ : s.atEnd tokens = true then s
  else if braces = 0 ∧ isBoundary (s.previous tokens) (s.peek tokens) then s
  else skipToBoundary tokens (braceDepth braces (s.peek tokens)) (s.advance tokens)
termination_by tokens.length - s.pos
decreasing_by
  have hend : s.atEnd tokens = false := eq_false_of_ne_true (by assumption)
  have hinside := pos_lt_length hend
  have hmoves := pos_lt_pos_advance hend
  omega

/-- Skips to the next boundary after a statement failed that began at the index `start`. If it
    consumed nothing, its first token is skipped in any case. -/
def synchronize (tokens : List Token) (start : Nat) (s : Reader) : Reader :=
  if s.pos = start then
    skipToBoundary tokens (braceDepth 0 (s.peek tokens)) (s.advance tokens)
  else skipToBoundary tokens 0 s

/-- Moving on leaves all but the index as it is. -/
structure Moves (tokens : List Token) (s s' : Reader) : Prop where
  passes : ∃ passed, s.Passes tokens passed s'
  sound : s'.Sound tokens
  errors : s'.errors = s.errors
  depth : s'.depth = s.depth

theorem Moves.refl {s : Reader} (hs : s.Sound tokens) : s.Moves tokens s :=
  ⟨⟨[], .refl s⟩, hs, rfl, rfl⟩

theorem Moves.trans {s s' s'' : Reader} (hfirst : s.Moves tokens s') (hsecond : s'.Moves tokens s'') :
    s.Moves tokens s'' := by
  obtain ⟨passed, hpassed⟩ := hfirst.passes
  obtain ⟨more, hmore⟩ := hsecond.passes
  exact ⟨⟨passed ++ more, hpassed.trans hmore⟩, hsecond.sound,
    hsecond.errors.trans hfirst.errors, hsecond.depth.trans hfirst.depth⟩

/-- A step moves the reader on. -/
theorem Sound.moves_advance {s : Reader} (hs : s.Sound tokens) :
    s.Moves tokens (s.advance tokens) := by
  cases hend : s.atEnd tokens with
  | true =>
    rw [advance_of_atEnd hend]
    exact .refl hs
  | false =>
    obtain ⟨comments, hpasses, _⟩ := hs.passes_advance hend
    have hadvance : s.advance tokens = skipComments tokens { s with pos := s.pos + 1 } := by
      rw [Reader.advance, if_neg (by simp [hend])]
    refine ⟨⟨_, hpasses⟩, hs.advance, ?_, ?_⟩
    · rw [hadvance]
      rfl
    · rw [hadvance]
      rfl

/-- Skipping moves the reader on, by induction on the tokens that are left. -/
theorem moves_skipToBoundary (braces : Nat) {s : Reader} (hs : s.Sound tokens) :
    s.Moves tokens (s.skipToBoundary tokens braces) := by
  fun_induction skipToBoundary tokens braces s with
  | case1 braces s hend => exact .refl hs
  | case2 braces s hend hboundary => exact .refl hs
  | case3 braces s hend hboundary ih => exact hs.moves_advance.trans (ih hs.advance)

theorem exists_rest_cursor {s : Reader} (hend : ¬ s.atEnd tokens = true) :
    ∃ ts, (s.cursor tokens).rest = s.peek tokens :: ts := by
  cases hrest : (s.cursor tokens).rest with
  | nil => exact absurd (rest_cursor_eq_nil_iff.1 hrest) hend
  | cons t ts =>
    have hpeek := @peek_cursor tokens s
    rw [Cursor.peek, hrest, List.headD_cons] at hpeek
    exact ⟨ts, by rw [hpeek]⟩

/-- Skipping is the same for a reader and for its cursor. -/
theorem Sound.cursor_skipToBoundary {s : Reader} (hs : s.Sound tokens) (braces : Nat) :
    (s.skipToBoundary tokens braces).cursor tokens =
      Grammar.skipToBoundary braces (s.cursor tokens).previous (s.cursor tokens).eof
        (s.cursor tokens).rest := by
  fun_induction skipToBoundary tokens braces s with
  | case1 braces s hend =>
    have hrest := rest_cursor_eq_nil_iff.2 hend
    rw [hrest, Grammar.skipToBoundary, ← hrest]
  | case2 braces s hend hboundary =>
    obtain ⟨ts, hrest⟩ := exists_rest_cursor hend
    have hstop : braces = 0 ∧ isBoundary (s.cursor tokens).previous (s.peek tokens) := hboundary
    rw [hrest, Grammar.skipToBoundary, if_pos hstop, ← hrest]
  | case3 braces s hend hboundary ih =>
    obtain ⟨ts, hrest⟩ := exists_rest_cursor hend
    have hadvance : (s.cursor tokens).advance =
        ⟨some (s.peek tokens), ts, (s.cursor tokens).eof⟩ := by
      rw [Cursor.advance, hrest]
    have hgo : ¬ (braces = 0 ∧ isBoundary (s.cursor tokens).previous (s.peek tokens)) := hboundary
    have hskip := ih hs.advance
    rw [hs.cursor_advance, hadvance] at hskip
    rw [hskip, hrest]
    simp only [Grammar.skipToBoundary, if_neg hgo]

/-- Recovery moves the reader on. -/
theorem Sound.moves_synchronize {s : Reader} (hs : s.Sound tokens) (start : Nat) :
    s.Moves tokens (s.synchronize tokens start) := by
  unfold synchronize
  split
  · exact hs.moves_advance.trans (moves_skipToBoundary _ hs.advance)
  · exact moves_skipToBoundary 0 hs

/-- Recovery on raw indices is recovery of the rules; the attempt was stuck where its index did not
    change. -/
theorem Sound.cursor_synchronize {s : Reader} (hs : s.Sound tokens) (start : Nat) :
    (s.synchronize tokens start).cursor tokens = resume (s.pos == start) (s.cursor tokens) := by
  unfold synchronize
  by_cases hstuck : s.pos = start
  · rw [if_pos hstuck, hs.advance.cursor_skipToBoundary, hs.cursor_advance, beq_iff_eq.2 hstuck]
    cases hend : s.atEnd tokens with
    | true =>
      have hrest := rest_cursor_eq_nil_iff.2 hend
      simp only [Cursor.advance_of_rest_nil hrest, resume, hrest, Grammar.skipToBoundary]
    | false =>
      obtain ⟨ts, hrest⟩ := exists_rest_cursor (ne_true_of_eq_false hend)
      simp only [resume, Cursor.advance, hrest]
  · rw [if_neg hstuck, hs.cursor_skipToBoundary, beq_false_of_ne hstuck]
    rfl

end Reader

end GeoLang
