import GeoLang.Lexical.Tokens
import GeoLang.Proofs.Vocabulary.Operator

namespace GeoLang.Lexical

/-- Text in front of the first `#` holds none. -/
theorem beforeHash?_eq_some {cs body : List Char} (hbody : beforeHash? cs = some body) :
    '#' ∉ body ∧ ∃ rest, cs = body ++ '#' :: rest := by
  induction cs generalizing body with
  | nil => cases hbody
  | cons c cs ih =>
    rw [beforeHash?] at hbody
    split at hbody
    · next hc =>
      obtain rfl := Option.some.inj hbody
      exact ⟨List.not_mem_nil, cs, by rw [hc]; rfl⟩
    · next hc =>
      obtain ⟨body, hrest, rfl⟩ := Option.map_eq_some_iff.1 hbody
      obtain ⟨hmark, rest, rfl⟩ := ih hrest
      exact ⟨by simp [Ne.symm hc, hmark], rest, rfl⟩

/-- The body of a comment ends in front of the first double mark. -/
theorem beforeHashes?_eq_some {cs body : List Char} (hbody : beforeHashes? cs = some body) :
    ¬ ['#', '#'] <:+: body ++ ['#'] ∧ ∃ rest, cs = body ++ '#' :: '#' :: rest := by
  induction cs generalizing body with
  | nil => cases hbody
  | cons c cs ih =>
    rw [beforeHashes?] at hbody
    split at hbody
    · next hmarks =>
      obtain rfl := Option.some.inj hbody
      obtain ⟨rfl, hhead⟩ := hmarks
      obtain ⟨rest, rfl⟩ := List.head?_eq_some_iff.1 hhead
      exact ⟨by decide, rest, rfl⟩
    · next hmarks =>
      obtain ⟨body, hrest, rfl⟩ := Option.map_eq_some_iff.1 hbody
      obtain ⟨hmark, rest, rfl⟩ := ih hrest
      refine ⟨?_, rest, rfl⟩
      intro hinfix
      obtain hprefix | hinfix := List.infix_cons_iff.1 hinfix
      · obtain ⟨rfl, hbehind⟩ := List.cons_prefix_cons.1 hprefix
        have hhead : (body ++ '#' :: '#' :: rest).head? = some '#' := by
          cases body with
          | nil => rfl
          | cons d body => exact congrArg some (List.cons_prefix_cons.1 hbehind).1.symm
        exact hmarks ⟨rfl, hhead⟩
      · exact hmark hinfix

private theorem isBlankChar_of_shape {lead : Lead} {c : Char} {cs : List Char}
    (hshape : shape lead c cs = .blank) : isBlankChar c := by
  unfold shape at hshape
  grind

theorem startsWith_of_shape {lead : Lead} {c : Char} {cs : List Char}
    (hshape : shape lead c cs = .writtenBlank) : c = '\\' ∧ startsWith isBlankLetter cs := by
  by_cases hwritten : (c == '\\' && startsWith isBlankLetter cs) = true
  · simpa using hwritten
  · have hblank : isBlankChar c ≠ true := fun hblank => by
      rw [shape, if_pos hblank] at hshape
      cases hshape
    rw [shape, if_neg hblank, if_neg hwritten] at hshape
    grind

private theorem eq_mark_of_shape {lead : Lead} {c : Char} {cs : List Char}
    (hshape : shape lead c cs = .comment) : c = '#' := by
  unfold shape at hshape
  grind

/-- Comments that are closed, with the marks at both ends. -/
inductive ClosedComment : List Char → Prop where
  | single {body : List Char} (hbody : body ≠ []) (hmark : '#' ∉ body) :
      ClosedComment ('#' :: (body ++ ['#']))
  | double {body : List Char} (hmark : ¬ ['#', '#'] <:+: body ++ ['#']) :
      ClosedComment ('#' :: '#' :: (body ++ ['#', '#']))

/-- The kinds of the tokens that the scanner finds. Operators have the class that the text in front
    of them calls for. -/
inductive ScannedKind (afterValue : Bool) : TokenKind → Prop where
  | literal (v : Literal) : ScannedKind afterValue (.literal v)
  | word (s : String) : ScannedKind afterValue (.ofWord s)
  | owner (s : String) : ScannedKind afterValue (.ofOwner s)
  | punctuation (p : Punctuation) : ScannedKind afterValue (.punctuation p)
  | operator (op : Operator) : ScannedKind afterValue (.operator (operatorClass afterValue op) op)

/-- What is scanned as a token is no comment. -/
theorem ScannedKind.isComment_eq_false {afterValue : Bool} {kind : TokenKind}
    (hkind : ScannedKind afterValue kind) : kind.isComment = false := by
  cases hkind with
  | word s =>
    unfold TokenKind.ofWord
    split <;> rfl
  | owner s =>
    unfold TokenKind.ofOwner
    split <;> rfl
  | literal | punctuation | operator => rfl

/-- No text is scanned as the end of a text. -/
theorem ScannedKind.ne_eof {afterValue : Bool} {kind : TokenKind}
    (hkind : ScannedKind afterValue kind) : kind ≠ .eof := by
  cases hkind with
  | word s =>
    unfold TokenKind.ofWord
    split <;> simp
  | owner s =>
    unfold TokenKind.ofOwner
    split <;> simp
  | literal | punctuation | operator => simp

/-- Only symbols are operators. -/
theorem ScannedKind.class_eq {afterValue : Bool} {kind : TokenKind}
    (hkind : ScannedKind afterValue kind) {cls : Operator.Class} {op : Operator}
    (hop : kind = .operator cls op) : cls = operatorClass afterValue op := by
  cases hkind with
  | operator op' =>
    obtain ⟨rfl, rfl⟩ := TokenKind.operator.inj hop
    rfl
  | word s =>
    unfold TokenKind.ofWord at hop
    split at hop <;> cases hop
  | owner s =>
    unfold TokenKind.ofOwner at hop
    split at hop <;> cases hop
  | literal | punctuation => cases hop

/-- What the text of a segment is, by its content. -/
inductive Piece (afterValue : Bool) : List Char → Content → Prop where
  | blank {c : Char} (hc : isBlankChar c) : Piece afterValue [c] .blank
  | writtenBlank {c : Char} (hc : isBlankLetter c) : Piece afterValue ['\\', c] .blank
  | comment {chars : List Char} {body : String} (hclosed : ClosedComment chars) :
      Piece afterValue chars (.comment body)
  | token {chars : List Char} {kind : TokenKind} {lexeme : String}
      (hkind : ScannedKind afterValue kind) : Piece afterValue chars (.token kind lexeme)
  | fault {chars : List Char} {f : LexFault} : Piece afterValue chars (.fault f)

section

variable (afterValue : Bool) (chars : List Char)

/-- Comments end behind the marks that close them, and at the end of the text otherwise. -/
theorem piece_comment (cs : List Char) :
    Piece afterValue ('#' :: cs.take (Scan.comment cs).extra) (Scan.comment cs).content := by
  unfold Scan.comment
  split
  · next ds =>
    cases hbody : beforeHashes? ds with
    | none => exact .fault
    | some body =>
      obtain ⟨hmark, rest, rfl⟩ := beforeHashes?_eq_some hbody
      have htake : (body ++ '#' :: '#' :: rest).take (2 + body.length) = body ++ ['#', '#'] := by
        rw [Nat.add_comm, List.take_length_add_append]
        rfl
      have hextra : 3 + body.length = (2 + body.length) + 1 := by omega
      rw [Scan.ofComment, hextra, List.take_succ_cons, htake]
      exact .comment (.double hmark)
  · next hsingle =>
    cases hbody : beforeHash? cs with
    | none => exact .fault
    | some body =>
      obtain ⟨hmark, rest, rfl⟩ := beforeHash?_eq_some hbody
      have htake : (body ++ '#' :: rest).take (1 + body.length) = body ++ ['#'] := by
        rw [Nat.add_comm, List.take_length_add_append]
        rfl
      have hne : body ≠ [] := by
        rintro rfl
        exact hsingle rest rfl
      rw [Scan.ofComment, htake]
      exact .comment (.single hne hmark)

private theorem piece_string (cs : List Char) : Piece afterValue chars
    (Scan.string cs).content := by
  unfold Scan.string
  split
  · exact .token (.literal _)
  · exact .fault

theorem piece_closeCharacter (value : Char) (taken : Nat) (cs : List Char) :
    Piece afterValue chars (Scan.closeCharacter value taken cs).content := by
  unfold Scan.closeCharacter
  split
  · exact .token (.literal _)
  · split
    · exact .fault
    · exact .fault

private theorem piece_character (cs : List Char) : Piece afterValue chars
    (Scan.character cs).content := by
  unfold Scan.character
  split
  · exact .fault
  · exact .fault
  · exact .fault
  · exact .fault
  · apply piece_closeCharacter
  · apply piece_closeCharacter

private theorem piece_number (c : Char) (cs : List Char) :
    Piece afterValue chars (Scan.number c cs).content := by
  unfold Scan.number
  dsimp only
  split
  · exact .token (.literal _)
  · exact .fault

private theorem piece_word (c : Char) (cs : List Char) :
    Piece afterValue chars (Scan.word c cs).content := by
  unfold Scan.word
  dsimp only
  split
  · exact .token (.owner _)
  · exact .token (.word _)

private theorem piece_symbol (c : Char) (cs : List Char) :
    Piece afterValue chars (Scan.symbol afterValue c cs).content := by
  unfold Scan.symbol
  dsimp only
  split
  · exact .token (.operator _)
  · exact .token (.punctuation _)
  · exact .fault

end

/-- What the scanner takes is what it says it is. -/
theorem piece_scan (lead : Lead) (c : Char) (cs : List Char) :
    Piece (lead == .value) (c :: cs.take (scan lead c cs).extra) (scan lead c cs).content := by
  unfold scan
  split
  · next hshape => exact .blank (isBlankChar_of_shape hshape)
  · next hshape =>
    obtain ⟨rfl, hletter⟩ := startsWith_of_shape hshape
    cases cs with
    | nil => cases hletter
    | cons d cs => exact .writtenBlank hletter
  · next hshape =>
    obtain rfl := eq_mark_of_shape hshape
    apply piece_comment
  · apply piece_string
  · apply piece_character
  · apply piece_number
  · apply piece_word
  · exact .token (.punctuation .dot)
  · apply piece_symbol
  · exact .fault

/-- Each segment is what the scanner takes somewhere in the text. -/
theorem exists_scan_of_mem_segments {lead : Lead} {cs : List Char} {s : Segment}
    (hs : s ∈ segments lead cs) :
    ∃ lead' c ds, s = ⟨c :: ds.take (scan lead' c ds).extra, (scan lead' c ds).content⟩ := by
  fun_induction segments lead cs with
  | case1 => simp at hs
  | case2 lead c cs _ _ ih =>
    obtain rfl | hs := List.mem_cons.1 hs
    · exact ⟨lead, c, cs, rfl⟩
    · exact ih hs

/-- Every segment is one of the pieces that a text may fall into. -/
theorem exists_piece_of_mem_segments {lead : Lead} {cs : List Char} {s : Segment}
    (hs : s ∈ segments lead cs) : ∃ afterValue, Piece afterValue s.chars s.content := by
  obtain ⟨lead', c, ds, rfl⟩ := exists_scan_of_mem_segments hs
  exact ⟨_, piece_scan lead' c ds⟩

theorem mem_of_mem_place {p : Position} {segs : List Segment} {x : Segment × Span}
    (hx : x ∈ place p segs) : x.1 ∈ segs := by
  induction segs generalizing p with
  | nil => simp [place] at hx
  | cons s rest ih =>
    obtain rfl | hx := List.mem_cons.1 hx
    · exact List.mem_cons_self
    · exact List.mem_cons_of_mem s (ih hx)

/-- A segment is a token if it was scanned as one, or if it is a comment and comments are kept. -/
theorem token?_eq_some_iff {keepComments : Bool} {s : Segment} {span : Span} {t : Token} :
    token? keepComments (s, span) = some t ↔
      (∃ kind lexeme, s.content = .token kind lexeme ∧ t = ⟨kind, lexeme, span⟩) ∨
        keepComments = true ∧ ∃ body, s.content = .comment body ∧ t = ⟨.comment body, body, span⟩ := by
  obtain ⟨chars, content⟩ := s
  cases content with
  | token kind lexeme =>
    constructor
    · intro htoken
      exact .inl ⟨kind, lexeme, rfl, (Option.some.inj htoken).symm⟩
    · rintro (⟨_, _, ⟨⟩, rfl⟩ | ⟨_, _, ⟨⟩, _⟩)
      rfl
  | comment body => simp [token?, eq_comm]
  | blank => simp [token?]
  | fault f => simp [token?]

/-- A segment is an error if it is faulty. -/
theorem error?_eq_some_iff {s : Segment} {span : Span} {e : LexError} :
    error? (s, span) = some e ↔ ∃ f, s.content = .fault f ∧ e = ⟨f, span⟩ := by
  obtain ⟨chars, content⟩ := s
  cases content with
  | fault f => simp [error?, eq_comm]
  | blank => simp [error?]
  | comment body => simp [error?]
  | token kind lexeme => simp [error?]

private theorem mayHaveClass_operatorClass (afterValue : Bool) (op : Operator) :
    op.MayHaveClass (operatorClass afterValue op) := by
  unfold operatorClass
  split
  · next hsign =>
    rw [Bool.and_eq_true] at hsign
    exact .inr ⟨rfl, hsign.1⟩
  · exact .inl rfl

end GeoLang.Lexical

namespace GeoLang

open Lexical in
/-- Operators among the tokens of a text have the class of the operator, save that signs may be
    unary. -/
theorem Lexed.mayHaveClass_of_mem_tokens {keepComments : Bool} {source : String} {t : Token}
    (ht : t ∈ (Lexed.ofSource keepComments source).tokens) {cls : Operator.Class} {op : Operator}
    (hkind : t.kind = .operator cls op) : op.MayHaveClass cls := by
  obtain ht | ht := List.mem_append.1 ht
  · obtain ⟨⟨⟨chars, content⟩, span⟩, hplaced, htoken⟩ := List.mem_filterMap.1 ht
    obtain ⟨afterValue, hpiece⟩ := exists_piece_of_mem_segments (mem_of_mem_place hplaced)
    obtain ⟨kind, lexeme, rfl, rfl⟩ | ⟨_, body, _, rfl⟩ := token?_eq_some_iff.1 htoken
    · cases hpiece with
      | token hscanned =>
        rw [hscanned.class_eq hkind]
        exact mayHaveClass_operatorClass afterValue op
    · cases hkind
  · obtain rfl := List.mem_singleton.1 ht
    cases hkind

end GeoLang
