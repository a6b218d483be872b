import GeoLang.Proofs.Recovery.Skip
import GeoLang.Proofs.Sentence.Bare
import GeoLang.Proofs.Threshold.Expression

namespace GeoLang.Grammar

open Rule (Exhausts)

/-- Whether a token may stand in a header is told by its kind. -/
theorem inHeader_of_kinds {ts : List Token}
    (hkinds : ∀ kind ∈ ts.map Token.kind,
      kind.isBrace = false ∧ kind ≠ .punctuation .semicolon ∧ kind.startsStatement = false) :
    ∀ t ∈ ts, InHeader t := by
  intro t ht
  obtain ⟨hbrace, hsemicolon, hstarts⟩ := hkinds t.kind (List.mem_map_of_mem ht)
  exact ⟨hbrace, hsemicolon, hstarts⟩

/-- The tokens of `if (1) {`. -/
def headerKinds : List TokenKind :=
  [.keyword .ifKw, .punctuation .lParen, .literal (.integer 1), .punctuation .rParen,
    .punctuation .lCurly]

/-- The tokens of `k` conditionals, each but the outermost one in the block of another one. -/
def conditionalKinds : (k : Nat) → List TokenKind
  | 0 => []
  | k + 1 => headerKinds ++ (conditionalKinds k ++ [.punctuation .rCurly])

/-- The trees of such conditionals, without spans: the outermost one, if there is any. -/
def conditionals : (k : Nat) → List Statement
  | 0 => []
  | k + 1 => [.conditional (.mk (.literal (.integer 1) .none) (.mk (conditionals k) .none) .none .nothing
      .none)]

/-- The tokens of one conditional around those of the statements in its block. -/
structure Enclosing where
  word : Token
  lParen : Token
  one : Token
  rParen : Token
  left : Token
  right : Token
  kind_word : word.kind = .keyword .ifKw
  kind_lParen : lParen.kind = .punctuation .lParen
  kind_one : one.kind = .literal (.integer 1)
  kind_rParen : rParen.kind = .punctuation .rParen
  kind_left : left.kind = .punctuation .lCurly
  kind_right : right.kind = .punctuation .rCurly

namespace Enclosing

/-- The conditional with the tokens in its block. -/
def around (x : Enclosing) (body : List Token) : List Token :=
  x.word :: ([x.lParen, x.one, x.rParen] ++ x.left :: (body ++ [x.right]))

/-- Tokens of these kinds are a conditional around fewer of them. -/
theorem exists_of_kinds {k : Nat} {ts : List Token}
    (hkinds : ts.map Token.kind = conditionalKinds (k + 1)) :
    ∃ (x : Enclosing) (body : List Token), ts = x.around body ∧
      body.map Token.kind = conditionalKinds k := by
  obtain ⟨header, us, rfl, hheader, hus⟩ := List.map_eq_append_iff.1 hkinds
  obtain ⟨body, last, rfl, hbody, hlast⟩ := List.map_eq_append_iff.1 hus
  obtain ⟨right, rfl, hright⟩ := List.map_eq_singleton_iff.1 hlast
  obtain ⟨word, _, rfl, hword, hheader⟩ := List.map_eq_cons_iff.1 hheader
  obtain ⟨lParen, _, rfl, hlParen, hheader⟩ := List.map_eq_cons_iff.1 hheader
  obtain ⟨one, _, rfl, hone, hheader⟩ := List.map_eq_cons_iff.1 hheader
  obtain ⟨rParen, _, rfl, hrParen, hheader⟩ := List.map_eq_cons_iff.1 hheader
  obtain ⟨left, rfl, hleft⟩ := List.map_eq_singleton_iff.1 hheader
  exact ⟨⟨word, lParen, one, rParen, left, right, hword, hlParen, hone, hrParen, hleft, hright⟩, body,
    rfl, hbody⟩

variable {x : Enclosing} {body : List Token} {c d : Cursor}

/-- Nothing in the header is a boundary. -/
theorem inHeader : ∀ t ∈ [x.lParen, x.one, x.rParen], InHeader t := by
  refine inHeader_of_kinds ?_
  simp only [List.map_cons, List.map_nil, x.kind_lParen, x.kind_one, x.kind_rParen]
  decide

private theorem balanced_around (hbody : Balanced body) : Balanced (x.around body) := by
  have hword : x.word.kind.isBrace = false := by rw [x.kind_word]; rfl
  have hheader : LeavesOpen (x.word :: [x.lParen, x.one, x.rParen]) 0 :=
    .of_not_isBrace (List.forall_mem_cons.2 ⟨hword, fun t ht => (x.inHeader t ht).brace⟩)
  have hopened := (hheader.snoc_lCurly x.kind_left).append hbody
  simpa [around] using hopened.snoc_rCurly x.kind_right

/-- Where three levels and two more are left, the conditional is read if the statements in its block
    are. -/
theorem exists_returns (n : Nat) (hreads : c.Reads (x.around body) d)
    (helse : d.peek.kind ≠ .keyword .elseKw) :
    ∃ c' d', c'.Reads body d' ∧ c'.eof = c.eof ∧ d'.peek.kind = .punctuation .rCurly ∧
      ∀ statements es,
        Repeats insideBlock (fun _ => recovering (statement (n + 2))) c' statements d' es →
          ∃ s, (statement (n + 5)).Returns c s d es ∧
            s.bare = .conditional (.mk (.literal (.integer 1) .none)
              (.mk (statements.reduceOption.map Statement.bare) .none) .none .nothing .none) := by
  obtain ⟨hword, hpeek⟩ := hreads.of_cons
  obtain ⟨hlParen, hpeek₁⟩ := hword.of_cons
  obtain ⟨hone, hpeek₂⟩ := hlParen.of_cons
  obtain ⟨hrParen, hpeek₃⟩ := hone.of_cons
  obtain ⟨hleft, hpeek₄⟩ := hrParen.of_cons
  obtain ⟨d', hbody, hlast⟩ := hleft.of_append
  have heof := hbody.eof.symm.trans (hlast.eof.symm.trans hreads.eof)
  obtain ⟨hpeek₅, rfl⟩ := hlast.of_singleton
  have hif : c.peek.kind = .keyword .ifKw := by rw [hpeek, x.kind_word]
  have hopen : c.advance.peek.kind = .punctuation .lParen := by rw [hpeek₁, x.kind_lParen]
  have hcondition : (expression (n + 3)).Returns c.advance.advance _ _ [] :=
    returns_binary_of_factor (returns_factor_literal (n + 1) (by rw [hpeek₂, x.kind_one]))
      (by simp [jointAt, hpeek₃, x.kind_rParen, TokenKind.operator?])
  refine ⟨_, d', hbody, heof, by rw [hpeek₅, x.kind_right], fun statements es hstatements => ?_⟩
  · have hblock : (block (n + 3)).Returns _ _ d'.advance es := returns_blockRule_iff.2
      ⟨by rw [hpeek₄, x.kind_left], statements, d', hstatements, by rw [hpeek₅, x.kind_right], rfl, rfl⟩
    have hconditional : (conditional (n + 4)).Returns c _ d'.advance es :=
      returns_conditionalRule_iff.2 ⟨hif, hopen, _, _, [], _, _, es, _, [], hcondition,
        by rw [hpeek₃, x.kind_rParen], hblock, .nothing helse, rfl, by simp⟩
    refine ⟨_, returns_statementRule_iff.2 (.conditional hif hconditional), ?_⟩
    simp [Statement.bare, Conditional.bare, Block.bare, Otherwise.bare, Expr.bare,
      Statement.bareList_eq_map]

/-- Where two levels are left there is none for the condition. -/
theorem exhausts (hreads : c.Reads (x.around body) d) :
    (statement 2).Exhausts c c.advance.advance := by
  obtain ⟨hword, hpeek⟩ := hreads.of_cons
  obtain ⟨-, hpeek₁⟩ := hword.of_cons
  have hif : c.peek.kind = .keyword .ifKw := by rw [hpeek, x.kind_word]
  have hopen : c.advance.peek.kind = .punctuation .lParen := by rw [hpeek₁, x.kind_lParen]
  have hconditional : (conditional 1).Exhausts c c.advance.advance :=
    .bind_behind (returns_keyword_iff.2 ⟨hif, rfl, rfl, rfl⟩) <|
      .bind_behind (returns_mark_iff.2 ⟨hopen, rfl, rfl, rfl⟩) <|
        (exhausts_binary_of_le_one (Nat.zero_le 1) 1 _).bind _
  refine Exhausts.peek_bind ?_
  simp only [hif]
  exact hconditional.bind _

/-- Such a conditional in a block is skipped up to the brace that closes the block. -/
theorem returns_recovering (hbody : Balanced body) (hreads : c.Reads (x.around body) d)
    (heof : c.eof.kind = .eof) (hclose : d.peek.kind = .punctuation .rCurly) :
    (recovering (statement 2)).Returns c none d
      [.nestingTooDeep maxNesting c.advance.advance.peek.span] := by
  have hfails := exhausts hreads
  obtain ⟨used, hused⟩ := (Composed.statement 2).exists_reads c
  rw [hfails] at hused
  obtain ⟨hword, -⟩ := hreads.of_cons
  obtain ⟨hlParen, -⟩ := hword.of_cons
  have hrest : c.rest =
      x.word :: ([x.lParen, x.one, x.rParen] ++ x.left :: (body ++ x.right :: d.rest)) := by
    rw [hreads.rest, around]
    simp
  have hahead : x.left :: (body ++ x.right :: d.rest) <:+ c.advance.advance.rest :=
    ⟨[x.one, x.rParen], by rw [hlParen.rest]; simp⟩
  have hbrace : x.word.kind.isBrace = false := by rw [x.kind_word]; rfl
  have hresume := resume_block hrest hbrace (by simp [x.kind_word]) x.inHeader x.kind_left hbody
    x.kind_right hused hahead
  have hend : skipToBoundary 0 (some x.right) c.eof d.rest = d := by
    have hne := Cursor.rest_ne_nil_of_peek (by rw [hreads.eof, heof]) (by simp [hclose] : d.peek.kind ≠ .eof)
    obtain ⟨t, ts, hts⟩ := List.exists_cons_of_ne_nil hne
    have hboundary : isBoundary (some x.right) t = true := by
      rw [Cursor.peek, hts, List.headD_cons] at hclose
      simp [isBoundary, hclose, TokenKind.isPunctuation]
    have hprevious : d.previous = some x.right := by
      rw [hreads.previous, around, ← List.cons_append, ← List.cons_append, ← List.append_assoc,
        List.getLast?_concat, Option.some_or]
    rw [hts, skipToBoundary_of_boundary hboundary, ← hts, ← hprevious, ← hreads.eof]
  have hskipped := returns_recovering_iff.2 (.skipped hfails)
  rwa [hresume, hend] at hskipped

end Enclosing

private theorem balanced_of_conditionalKinds (k : Nat) {ts : List Token}
    (hkinds : ts.map Token.kind = conditionalKinds k) : Balanced ts := by
  induction k generalizing ts with
  | zero =>
    obtain rfl := List.map_eq_nil_iff.1 hkinds
    exact .nil
  | succ k ih =>
    obtain ⟨x, body, rfl, hbody⟩ := Enclosing.exists_of_kinds hkinds
    exact Enclosing.balanced_around (ih hbody)

/-- What is noted where `k` conditionals stand in each other and there are levels for `j` of
    them. -/
def NotesDepth (k j : Nat) (es : List ParseError) : Prop :=
  if k ≤ j then es = [] else ∃ span, es = [.nestingTooDeep maxNesting span]

/-- One conditional more, and one level for it. -/
theorem notesDepth_succ_iff {k j : Nat} {es : List ParseError} :
    NotesDepth (k + 1) (j + 1) es ↔ NotesDepth k j es := by
  simp only [NotesDepth, Nat.add_le_add_iff_right]

/-- The statements in a block are conditionals nested `k` deep, and there are levels for `j` of
    them. -/
theorem exists_repeats_conditionals (j k : Nat) {c d : Cursor} {ts : List Token}
    (hkinds : ts.map Token.kind = conditionalKinds k) (hreads : c.Reads ts d)
    (heof : c.eof.kind = .eof) (hclose : d.peek.kind = .punctuation .rCurly) :
    ∃ statements es,
      Repeats insideBlock (fun _ => recovering (statement (3 * j + 2))) c statements d es ∧
        statements.reduceOption.map Statement.bare = conditionals (min k j) ∧ NotesDepth k j es := by
  have hstop : insideBlock d.peek = none := insideBlock_eq_none_iff.2 (.inl hclose)
  cases k with
  | zero =>
    obtain rfl := List.map_eq_nil_iff.1 hkinds
    obtain rfl := hreads.eq_of_nil
    have hnotes : NotesDepth 0 j [] := by simp [NotesDepth]
    exact ⟨[], [], .stop hstop, by rw [Nat.zero_min]; rfl, hnotes⟩
  | succ k =>
    obtain ⟨x, body, rfl, hbody⟩ := Enclosing.exists_of_kinds hkinds
    have hnext : insideBlock c.peek = some () := by
      obtain ⟨-, hpeek⟩ := hreads.of_cons
      rw [hpeek, insideBlock_eq_some_iff, x.kind_word]
      simp
    have hless : d.remaining < c.remaining := by
      rw [hreads.remaining_eq, Enclosing.around, List.length_cons]
      omega
    cases j with
    | zero =>
      have hattempt :=
        Enclosing.returns_recovering (balanced_of_conditionalKinds k hbody) hreads heof hclose
      exact ⟨_, _, .more hnext hattempt hless (.stop hstop), rfl, ⟨_, rfl⟩⟩
    | succ j =>
      obtain ⟨c', d', hinside, heof', hclose', hwhole⟩ :=
        Enclosing.exists_returns (3 * j) hreads (by simp [hclose])
      obtain ⟨statements, es, hstatements, hsame, hnotes⟩ :=
        exists_repeats_conditionals j k hbody hinside (by rw [heof', heof]) hclose'
      obtain ⟨s, hs, hbare⟩ := hwhole statements es hstatements
      have hattempt := returns_recovering_iff.2 (.read hs)
      refine ⟨[some s], es ++ [], .more hnext hattempt hless (.stop hstop), ?_, ?_⟩
      · have hone : [some s].reduceOption = [s] := rfl
        rw [hone, List.map_singleton, hbare, hsame, Nat.succ_min_succ, conditionals]
      · rw [List.append_nil, notesDepth_succ_iff]
        exact hnotes

/-- A conditional with others in it, nested `k` deep, where there are levels for `j` of these. -/
theorem exists_returns_conditionals (j k : Nat) {c d : Cursor} {ts : List Token}
    (hkinds : ts.map Token.kind = conditionalKinds (k + 1)) (hreads : c.Reads ts d)
    (heof : c.eof.kind = .eof) (helse : d.peek.kind ≠ .keyword .elseKw) :
    ∃ s es, (statement (3 * j + 5)).Returns c s d es ∧
      [s.bare] = conditionals (min (k + 1) (j + 1)) ∧ NotesDepth k j es := by
  obtain ⟨x, body, rfl, hbody⟩ := Enclosing.exists_of_kinds hkinds
  obtain ⟨c', d', hinside, heof', hclose, hwhole⟩ := Enclosing.exists_returns (3 * j) hreads helse
  obtain ⟨statements, es, hstatements, hsame, hnotes⟩ :=
    exists_repeats_conditionals j k hbody hinside (by rw [heof', heof]) hclose
  obtain ⟨s, hs, hbare⟩ := hwhole statements es hstatements
  refine ⟨s, es, hs, ?_, hnotes⟩
  rw [hbare, hsame, Nat.succ_min_succ, conditionals]

end GeoLang.Grammar
