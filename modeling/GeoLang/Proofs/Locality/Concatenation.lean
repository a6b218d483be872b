import GeoLang.Lexical.Tokens
import GeoLang.Proofs.Locality.Ending
import GeoLang.Proofs.Locality.Program

namespace GeoLang

namespace Grammar

/-- A text is closed by a semicolon or a closing brace. -/
theorem closes_eq_true_iff {k : TokenKind} :
    k.closes = true ↔ k = .punctuation .semicolon ∨ k = .punctuation .rCurly := by
  constructor
  · intro hcloses
    unfold TokenKind.closes at hcloses
    split at hcloses
    · exact .inl rfl
    · exact .inr rfl
    · cases hcloses
  · rintro (rfl | rfl) <;> rfl

/-- The text without its comments, in front of its first token. -/
def Cursor.ofText (text : List Token) (eof : Token) : Cursor :=
  ⟨none, text.filter (!·.kind.isComment), eof⟩

variable {a b : List Token} {eof : Token}

private theorem closed_ofText (hinside : ∀ t ∈ a, t.kind ≠ .eof)
    (hlast : ∃ t ∈ a.getLast?, t.kind.closes = true) (heof : eof.kind = .eof) :
    (Cursor.ofText a eof).Closed := by
  obtain ⟨t, ht, hcloses⟩ := hlast
  obtain ⟨ts, rfl⟩ := List.getLast?_eq_some_iff.1 ht
  have hcode : t.kind.isComment = false := by
    obtain hkind | hkind := closes_eq_true_iff.1 hcloses
    · rw [hkind]
      rfl
    · rw [hkind]
      rfl
  have hrest : (Cursor.ofText (ts ++ [t]) eof).rest = ts.filter (!·.kind.isComment) ++ [t] := by
    rw [Cursor.ofText, List.filter_append, List.filter_cons_of_pos (by simp [hcode]), List.filter_nil]
  refine ⟨heof, fun u hu => hinside u (List.mem_filter.1 hu).1, fun u hu => ?_⟩
  rw [hrest, List.getLast?_concat] at hu
  obtain rfl : t = u := Option.some.inj hu
  exact hcloses

/-- Two texts in turn are the first one, followed by the code of the second. -/
theorem ofTokens_append_eq_followedBy (hinside : ∀ t ∈ a, t.kind ≠ .eof) (eof last : Token) :
    Cursor.ofTokens (a ++ b) last =
      (Cursor.ofText a eof).followedBy ⟨code b, endOfText b last⟩ := by
  have hisEof : ∀ t ∈ a, t.kind.isEof = false := fun t ht =>
    eq_false_of_ne_true (mt TokenKind.isEof_iff.1 (hinside t ht))
  exact ofTokens_append hisEof last

private theorem ofTokens_append_end (hinside : ∀ t ∈ a, t.kind ≠ .eof) (heof : eof.kind = .eof) :
    Cursor.ofTokens (a ++ [eof]) eof = Cursor.ofText a eof := by
  have hisEof : eof.kind.isEof = true := TokenKind.isEof_iff.2 heof
  rw [ofTokens_append_eq_followedBy hinside eof eof]
  simp [code, endOfText, hisEof, Cursor.followedBy, Cursor.ofText]

/-- The attempts of a text without errors come first, and those of what follows it behind them. -/
theorem attempts_append {c d e : Cursor} {tail : Tail} {statements others : List (Option Statement)}
    {fs : List ParseError} (helse : tail.peek.kind ≠ .keyword .elseKw) (hc : c.Closed)
    (hattempts : attempts.Returns c statements d [])
    (hothers : attempts.Returns (d.followedBy tail) others e fs) :
    attempts.Returns (c.followedBy tail) (statements ++ others) e fs := by
  have hstatement := (persists_statement_and_parts helse maxNesting).1
  obtain ⟨_, _, happend⟩ := (returns_many_iff.1 hattempts).followedBy
    (fun _ c hc _ => persists_recovering (hstatement c hc)) (fun _ => consumes_recovering maxNesting)
    (fun t ht => insideProgram_eq_none_iff.2 ht) rfl hc
  exact returns_many_iff.2 (happend (returns_many_iff.1 hothers))

/-- Where the attempts have come to an end, those of what follows begin. -/
theorem followedBy_of_attempts {c d : Cursor} {statements : List (Option Statement)}
    {es : List ParseError} (hc : c.Closed) (hattempts : attempts.Returns c statements d es)
    (tail : Tail) : d.followedBy tail = ⟨d.previous, tail.rest, tail.eof⟩ := by
  have hprogram := returns_program_iff.2 ⟨statements, returns_many_iff.1 hattempts, rfl⟩
  have hrest : d.rest = [] := rest_eq_nil_of_returns_program hc.eof hc.inside hprogram
  rw [Cursor.followedBy, hrest, List.nil_append]

end Grammar

open Grammar

/-- A text that is read without an error and ends with a statement, and any text that does not begin
    with an `else`: together they give the statements of both and the errors of the second. -/
theorem Parsed.exists_concatenation {a b : List Token} {eof : Token}
    (hinside : ∀ t ∈ a, t.kind ≠ .eof)
    (hlast : ∃ t ∈ a.getLast?, t.kind = .punctuation .semicolon ∨ t.kind = .punctuation .rCurly)
    (heof : eof.kind = .eof) (hquiet : (Parsed.ofTokens (a ++ [eof])).errors = []) (hne : b ≠ [])
    (helse : ∀ t ∈ (b.filter (!·.kind.isComment)).head?, t.kind ≠ .keyword .elseKw) :
    ∃ p q fs, Parsed.ofTokens (a ++ [eof]) = ⟨some p, []⟩ ∧ Parsed.ofTokens b = ⟨some q, fs⟩ ∧
      Parsed.ofTokens (a ++ b) = ⟨some ⟨p.statements ++ q.statements⟩, fs⟩ := by
  let last := b.getLast hne
  let tail : Tail := ⟨code b, endOfText b last⟩
  have hb : b.getLast? = some last := List.getLast?_eq_some_getLast hne
  have hc : (Cursor.ofText a eof).Closed := by
    obtain ⟨t, ht, hkind⟩ := hlast
    exact closed_ofText hinside ⟨t, ht, closes_eq_true_iff.2 hkind⟩ heof
  have htail : tail.peek.kind ≠ .keyword .elseKw := by
    have hpeek : tail.peek = (b.filter (!·.kind.isComment)).headD (.eofAt last.span.stop) :=
      Reader.headD_code b _
    rw [hpeek, List.headD_eq_head?_getD]
    cases hhead : (b.filter (!·.kind.isComment)).head? with
    | none => exact TokenKind.noConfusion
    | some t => exact helse t hhead
  -- The first text on its own.
  obtain ⟨statements, d, es, hattempts⟩ := exists_returns_attempts (Cursor.ofText a eof)
  have hfirst : Parsed.ofTokens (a ++ [eof]) = ⟨some ⟨statements.reduceOption⟩, es⟩ := by
    rw [← ofTokens_append_end hinside heof] at hattempts
    exact parsed_of_attempts (List.getLast?_concat ..) hattempts
  obtain rfl : es = [] := by rw [hfirst] at hquiet; exact hquiet
  -- The second text on its own and behind the first one.
  obtain ⟨others, e, fs, hothers⟩ := exists_returns_attempts (Cursor.ofTokens b last)
  obtain ⟨e', hbehind⟩ := exists_returns_attempts_previous d.previous (kind_endOfText b last) hothers
  rw [← followedBy_of_attempts hc hattempts tail] at hbehind
  have hboth := attempts_append htail hc hattempts hbehind
  rw [← ofTokens_append_eq_followedBy hinside eof last] at hboth
  have hjoined : (a ++ b).getLast? = some last := by rw [List.getLast?_append, hb, Option.some_or]
  refine ⟨⟨statements.reduceOption⟩, ⟨others.reduceOption⟩, fs, hfirst, parsed_of_attempts hb hothers,
    ?_⟩
  rw [parsed_of_attempts hjoined hboth, List.reduceOption_append]

/-- Behind a conditional a stray parenthesis, and an `else` behind that, are what they are
    anyway. -/
theorem Parsed.exists_concatenation_stray :
    let a := (Lexed.ofSource false "if (x > 1) \x7b y; \x7d").tokens.dropLast
    let b := (Lexed.ofSource true "# none # ) else \x7b z;").tokens
    let eof := Token.eofAt .start
    (∀ t ∈ a, t.kind ≠ .eof) ∧
      (∃ t ∈ a.getLast?, t.kind = .punctuation .semicolon ∨ t.kind = .punctuation .rCurly) ∧
      eof.kind = .eof ∧ (Parsed.ofTokens (a ++ [eof])).errors = [] ∧ b ≠ [] ∧
      (∀ t ∈ (b.filter (!·.kind.isComment)).head?, t.kind ≠ .keyword .elseKw) ∧
      ∃ p q fs, Parsed.ofTokens (a ++ [eof]) = ⟨some p, []⟩ ∧ Parsed.ofTokens b = ⟨some q, fs⟩ ∧
        Parsed.ofTokens (a ++ b) = ⟨some ⟨p.statements ++ q.statements⟩, fs⟩ := by
  intro a b eof
  have hinside : ∀ t ∈ a, t.kind ≠ .eof := by decide +kernel
  have hlast : ∃ t ∈ a.getLast?, t.kind = .punctuation .semicolon ∨ t.kind = .punctuation .rCurly := by
    decide +kernel
  have hquiet : (Parsed.ofTokens (a ++ [eof])).errors = [] := by decide +kernel
  have hne : b ≠ [] := by decide +kernel
  have helse : ∀ t ∈ (b.filter (!·.kind.isComment)).head?, t.kind ≠ .keyword .elseKw := by
    decide +kernel
  exact ⟨hinside, hlast, rfl, hquiet, hne, helse,
    Parsed.exists_concatenation hinside hlast rfl hquiet hne helse⟩

end GeoLang
