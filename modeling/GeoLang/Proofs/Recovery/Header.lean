import GeoLang.Proofs.Locality.Program
import GeoLang.Proofs.Recovery.Notes
import GeoLang.Proofs.Recovery.Skip

namespace GeoLang

namespace Grammar

/-- The tokens of a statement with a header and a block, whatever the header and the block are like.
    In the header there is nothing that a statement begins with, no comment, and no end of a text;
    in the block every brace is closed, and the text goes on. -/
structure Headed where
  word : Token
  header : List Token
  left : Token
  body : List Token
  right : Token
  keyword : ∃ kw ∈ [Keyword.ifKw, .whileKw, .forKw, .repeatKw], word.kind = .keyword kw
  inHeader : ∀ t ∈ header, InHeader t
  code : ∀ t ∈ header, t.kind.isComment = false ∧ t.kind.isEof = false
  lCurly : left.kind = .punctuation .lCurly
  balanced : Balanced body
  inside : ∀ t ∈ body, t.kind.isEof = false
  rCurly : right.kind = .punctuation .rCurly

namespace Headed

variable (x : Headed)

/-- The tokens of the block, its braces included. -/
def block : List Token := x.left :: (x.body ++ [x.right])

/-- The whole statement. -/
def tokens : List Token := x.word :: (x.header ++ x.block)

theorem isEof_of_mem_block : ∀ t ∈ x.block, t.kind.isEof = false := by
  refine List.forall_mem_cons.2 ⟨by rw [x.lCurly]; rfl, List.forall_mem_append.2 ⟨x.inside, ?_⟩⟩
  exact List.forall_mem_singleton.2 (by rw [x.rCurly]; rfl)

private theorem isEof_of_mem_tokens : ∀ t ∈ x.tokens, t.kind.isEof = false := by
  obtain ⟨kw, -, hkw⟩ := x.keyword
  refine List.forall_mem_cons.2 ⟨by rw [hkw]; rfl, List.forall_mem_append.2 ⟨?_, ?_⟩⟩
  · exact fun t ht => (x.code t ht).2
  · exact x.isEof_of_mem_block

/-- The body of the block without its comments. -/
def bodyCode : List Token := x.body.filter (!·.kind.isComment)

private theorem balanced_bodyCode : Balanced x.bodyCode := by
  refine (leavesOpen_filter_iff fun t _ hleft => ?_).2 x.balanced
  cases hkind : t.kind with
  | punctuation p => simp [hkind, TokenKind.isComment] at hleft
  | _ => rfl

theorem filter_block :
    x.block.filter (!·.kind.isComment) = x.left :: (x.bodyCode ++ [x.right]) := by
  rw [block, List.filter_cons_of_pos (by rw [x.lCurly]; rfl), List.filter_append,
    List.filter_cons_of_pos (by rw [x.rCurly]; rfl), List.filter_nil, bodyCode]

private theorem filter_tokens :
    x.tokens.filter (!·.kind.isComment) =
      x.word :: (x.header ++ x.left :: (x.bodyCode ++ [x.right])) := by
  obtain ⟨kw, -, hkw⟩ := x.keyword
  have hheader : x.header.filter (!·.kind.isComment) = x.header :=
    List.filter_eq_self.2 fun t ht => by simp [(x.code t ht).1]
  rw [tokens, List.filter_cons_of_pos (by rw [hkw]; rfl), List.filter_append, hheader,
    x.filter_block]

/-- The statement in front of a text. -/
theorem ofTokens (rest : List Token) (last : Token) :
    Cursor.ofTokens (x.tokens ++ rest) last =
      ⟨none, x.word :: (x.header ++ x.left :: (x.bodyCode ++ x.right :: Grammar.code rest)),
        endOfText rest last⟩ := by
  rw [ofTokens_append x.isEof_of_mem_tokens, x.filter_tokens]
  simp

/-- The code of the block, and what stands behind it. -/
theorem code_block (rest : List Token) :
    Grammar.code (x.block ++ rest) =
      x.left :: (x.bodyCode ++ x.right :: Grammar.code rest) := by
  rw [Reader.code_append x.isEof_of_mem_block, x.filter_block]
  simp

variable {x} {rest : List Token} {last : Token} {d : Cursor} {e : ParseError} {es : List ParseError}

/-- What fails in front of the block notes only numbers of arguments on the way. -/
theorem countsArguments_of_fails
    (hfails : (statement maxNesting).Fails (Cursor.ofTokens (x.tokens ++ rest) last) e d es)
    (hahead : Grammar.code (x.block ++ rest) <:+ d.rest) : ∀ n ∈ es, n.CountsArguments := by
  have hcounts := Rule.Counts.statement maxNesting (Cursor.ofTokens (x.tokens ++ rest) last)
    (kind_endOfText _ _)
  rw [Rule.CountsAt, hfails] at hcounts
  obtain ⟨used, hused, hnone⟩ := hcounts
  apply hnone
  have hused' : used <+: x.word :: x.header := by
    obtain ⟨ahead, hahead⟩ := hahead
    refine ⟨ahead, ?_⟩
    have hwhole := hused.rest
    rw [x.ofTokens, ← hahead, x.code_block, ← List.append_assoc, ← List.cons_append] at hwhole
    exact (List.append_cancel_right hwhole).symm
  intro t ht
  obtain ⟨kw, -, hkw⟩ := x.keyword
  obtain rfl | ht := List.mem_cons.1 (hused'.subset ht)
  · rw [hkw]
    rfl
  · have hbrace := (x.inHeader t ht).brace
    have hstarts := (x.inHeader t ht).starts
    cases hkind : t.kind <;>
      simp_all [TokenKind.opensInner, TokenKind.dataType?, TokenKind.isPunctuation,
        TokenKind.startsStatement, TokenKind.isBrace]

/-- After it failed in front of the block, reading goes on behind the block, if a statement begins
    there. -/
theorem returns_recovering (hstarts : ∃ t ∈ rest.head?, t.kind.startsStatement = true)
    (hfails : (statement maxNesting).Fails (Cursor.ofTokens (x.tokens ++ rest) last) e d es)
    (hahead : Grammar.code (x.block ++ rest) <:+ d.rest) :
    (recovering (statement maxNesting)).Returns (Cursor.ofTokens (x.tokens ++ rest) last) none
      ⟨some x.right, Grammar.code rest, endOfText rest last⟩ (es ++ [e]) := by
  obtain ⟨used, hused⟩ := (Composed.statement maxNesting).exists_reads
    (Cursor.ofTokens (x.tokens ++ rest) last)
  rw [hfails] at hused
  rw [x.code_block] at hahead
  obtain ⟨kw, -, hkw⟩ := x.keyword
  have hresume := resume_block (by rw [x.ofTokens]) (by rw [hkw]; rfl) (by simp [hkw]) x.inHeader
    x.lCurly x.balanced_bodyCode x.rCurly hused hahead
  obtain ⟨t, ht, hstart⟩ := hstarts
  obtain ⟨ts, rfl⟩ := List.head?_eq_some_iff.1 ht
  have hcode : Grammar.code (t :: ts) = t :: Grammar.code ts := by
    cases hkind : t.kind <;> simp_all [Grammar.code, TokenKind.isEof, TokenKind.isComment,
      TokenKind.startsStatement]
  have hboundary : isBoundary (some x.right) t = true := by simp [isBoundary, hstart]
  have hskipped := returns_recovering_iff.2 (.skipped hfails)
  rw [hresume, hcode, skipToBoundary_of_boundary hboundary, x.ofTokens, hcode] at hskipped
  rw [hcode, x.ofTokens, hcode]
  exact hskipped

end Headed

end Grammar

open Grammar

/-- One more attempt in front of those that follow it. -/
theorem Grammar.attempts_cons {c c' d : Cursor} {s : Option Statement}
    {others : List (Option Statement)} {es fs : List ParseError} (hne : c.rest ≠ [])
    (hpeek : c.peek.kind ≠ .eof) (hfirst : (recovering (statement maxNesting)).Returns c s c' es)
    (hrest : attempts.Returns c' others d fs) : attempts.Returns c (s :: others) d (es ++ fs) := by
  have hnext : insideProgram c.peek = some () := insideProgram_eq_some_iff.2 hpeek
  have hless := remaining_recovering_lt maxNesting (List.length_pos_iff.2 hne)
  rw [hfirst] at hless
  exact returns_many_iff.2 (.more hnext hfirst hless (returns_many_iff.1 hrest))

/-- A malformed header costs one error. If the rule of the statement fails in front of the block,
    that error is noted behind the numbers of arguments found wrong in the header, there is no
    statement for the block, and the text behind it, which begins with a statement, is read as on
    its own. -/
theorem Parsed.exists_malformed_header (x : Headed) {rest : List Token} {last : Token} {d : Cursor}
    {e : ParseError} {es : List ParseError} (hlast : rest.getLast? = some last)
    (hstarts : ∃ t ∈ rest.head?, t.kind.startsStatement = true)
    (hfails : (statement maxNesting).Fails (Cursor.ofTokens (x.tokens ++ rest) last) e d es)
    (hahead : code (x.block ++ rest) <:+ d.rest) :
    e.isSyntactic = true ∧ (∀ n ∈ es, n.CountsArguments) ∧
      ∃ q fs, Parsed.ofTokens rest = ⟨some q, fs⟩ ∧
        Parsed.ofTokens (x.tokens ++ rest) = ⟨some q, es ++ e :: fs⟩ := by
  obtain ⟨hsyntactic, -⟩ := (Composed.statement maxNesting).error_at_peek hfails
  refine ⟨hsyntactic, x.countsArguments_of_fails hfails hahead, ?_⟩
  obtain ⟨others, d', fs, hothers⟩ := exists_returns_attempts (Cursor.ofTokens rest last)
  refine ⟨⟨others.reduceOption⟩, fs, parsed_of_attempts hlast hothers, ?_⟩
  obtain ⟨d'', hbehind⟩ :=
    exists_returns_attempts_previous (some x.right) (kind_endOfText rest last) hothers
  have hfirst := Headed.returns_recovering hstarts hfails hahead
  have hpeek : (Cursor.ofTokens (x.tokens ++ rest) last).peek.kind ≠ .eof := by
    obtain ⟨kw, -, hkw⟩ := x.keyword
    rw [x.ofTokens, Cursor.peek, List.headD_cons, hkw]
    simp
  have hattempts := attempts_cons (by rw [x.ofTokens]; simp) hpeek hfirst hbehind
  have hwhole : (x.tokens ++ rest).getLast? = some last := by
    rw [List.getLast?_append, hlast, Option.some_or]
  rw [parsed_of_attempts hwhole hattempts, List.reduceOption_cons_of_none, List.append_assoc]
  rfl

/-- A call in the header has two arguments instead of one and the parenthesis of the header is not
    closed; in the block there is another block and a statement. -/
theorem Parsed.exists_malformed_header_call :
    let token (k : TokenKind) : Token := ⟨k, "", .empty .start⟩
    let x : Headed := {
      word := token (.keyword .whileKw)
      header := List.map token [.punctuation .lParen, .reserved .circle, .punctuation .lParen,
        .literal (.boolean true), .punctuation .comma, .literal (.boolean true),
        .punctuation .rParen]
      left := token (.punctuation .lCurly)
      body := List.map token [.punctuation .lCurly, .comment "", .punctuation .rCurly,
        .identifier "a", .punctuation .semicolon]
      right := token (.punctuation .rCurly)
      keyword := ⟨.whileKw, by decide, rfl⟩
      inHeader := by decide
      code := by decide
      lCurly := rfl
      balanced := by decide
      inside := by decide
      rCurly := rfl }
    let rest := List.map token [.identifier "b", .punctuation .semicolon, .eof]
    ∃ d e es, rest.getLast? = some (token .eof) ∧
      (∃ t ∈ rest.head?, t.kind.startsStatement = true) ∧
      (statement maxNesting).Fails (Cursor.ofTokens (x.tokens ++ rest) (token .eof)) e d es ∧
      code (x.block ++ rest) <:+ d.rest ∧ es.length = 1 ∧
      e.isSyntactic = true ∧ (∀ n ∈ es, n.CountsArguments) ∧
        ∃ q fs, Parsed.ofTokens rest = ⟨some q, fs⟩ ∧
          Parsed.ofTokens (x.tokens ++ rest) = ⟨some q, es ++ e :: fs⟩ := by
  intro token x rest
  let c := Cursor.ofTokens (x.tokens ++ rest) (token .eof)
  have hnot : ((statement maxNesting) c).result.toOption.isNone := by decide +kernel
  have hahead : code (x.block ++ rest) <:+ ((statement maxNesting) c).cursor.rest := by
    decide +kernel
  have hnoted : ((statement maxNesting) c).errors.length = 1 := by decide +kernel
  obtain ⟨s, d, es, hreturns⟩ | ⟨e, d, es, hfails⟩ := Rule.returns_or_fails (statement maxNesting) c
  · rw [hreturns] at hnot
    cases hnot
  · rw [hfails] at hahead hnoted
    have hstarts : ∃ t ∈ rest.head?, t.kind.startsStatement = true := ⟨_, rfl, rfl⟩
    exact ⟨d, e, es, rfl, hstarts, hfails, hahead, hnoted,
      Parsed.exists_malformed_header x rfl hstarts hfails hahead⟩

end GeoLang
