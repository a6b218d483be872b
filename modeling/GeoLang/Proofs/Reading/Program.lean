import GeoLang.Proofs.Reading.Statement

namespace GeoLang.Grammar

/-- The two ways in which a statement is attempted. -/
inductive RecoveringReturns (statement : Rule Statement) (c : Cursor) :
    Option Statement → Cursor → List ParseError → Prop where
  | read {s : Statement} {d : Cursor} {es : List ParseError}
      (hstatement : statement.Returns c s d es) : RecoveringReturns statement c (some s) d es
  | skipped {e : ParseError} {c' : Cursor} {es : List ParseError}
      (hstatement : statement.Fails c e c' es) :
      RecoveringReturns statement c none (resume (c'.remaining == c.remaining) c') (es ++ [e])

/-- An attempt gives what was read, or nothing behind tokens that are skipped. -/
theorem returns_recovering_iff {statement : Rule Statement} {c d : Cursor} {s : Option Statement}
    {es : List ParseError} :
    (recovering statement).Returns c s d es ↔ RecoveringReturns statement c s d es := by
  constructor
  · intro hreturns
    rw [Rule.Returns, recovering] at hreturns
    split at hreturns
    · next a hok =>
      simp only [Reply.mk.injEq, Except.ok.injEq] at hreturns
      obtain ⟨rfl, rfl, rfl⟩ := hreturns
      exact .read (Rule.returns_of_result hok)
    · next e herror =>
      simp only [Reply.mk.injEq, Except.ok.injEq] at hreturns
      obtain ⟨rfl, rfl, rfl⟩ := hreturns
      exact .skipped (Rule.fails_of_result herror)
  · intro hreturns
    cases hreturns with
    | read hstatement =>
      rw [Rule.Returns] at hstatement
      simp only [Rule.Returns, recovering, hstatement]
    | skipped hstatement =>
      rw [Rule.Fails] at hstatement
      simp only [Rule.Returns, recovering, hstatement]

/-- An attempt at a statement never fails. -/
theorem exists_returns_recovering (statement : Rule Statement) (c : Cursor) :
    ∃ s d es, (recovering statement).Returns c s d es := by
  obtain ⟨s, d, es, hstatement⟩ | ⟨e, d, es, hstatement⟩ := statement.returns_or_fails c
  · exact ⟨_, _, _, returns_recovering_iff.2 (.read hstatement)⟩
  · exact ⟨_, _, _, returns_recovering_iff.2 (.skipped hstatement)⟩

/-- Running an item that never fails again and again never fails. -/
theorem exists_repeats {α β : Type} {next? : Token → Option β} {item : β → Rule α}
    (hitem : ∀ b c, ∃ a d es, (item b).Returns c a d es) (c : Cursor) :
    ∃ as d es, Repeats next? item c as d es := by
  cases hnext : next? c.peek with
  | none => exact ⟨[], c, [], .stop hnext⟩
  | some b =>
    obtain ⟨a, c', es, hreturns⟩ := hitem b c
    by_cases hless : c'.remaining < c.remaining
    · obtain ⟨as, d, es', hrest⟩ := exists_repeats hitem c'
      exact ⟨_, _, _, .more hnext hreturns hless hrest⟩
    · exact ⟨_, _, _, .stuck hnext hreturns hless⟩
termination_by c.remaining

/-- A program keeps the statements of the attempts that succeeded. -/
theorem returns_program_iff {c d : Cursor} {p : Program} {es : List ParseError} :
    program.Returns c p d es ↔
      ∃ statements, Repeats insideProgram (fun _ => recovering (statement maxNesting)) c
        statements d es ∧ p = ⟨statements.reduceOption⟩ := by
  rw [program, Rule.returns_bind_iff]
  constructor
  · rintro ⟨statements, d', es', _, hstatements, hpure, rfl⟩
    obtain ⟨rfl, rfl, rfl⟩ := Rule.returns_pure_iff.1 hpure
    exact ⟨statements, by simpa using hstatements, rfl⟩
  · rintro ⟨statements, hstatements, rfl⟩
    exact ⟨statements, d, es, [], returns_many_iff.2 hstatements, by simp, by simp⟩

/-- What is parsed is what the rule for programs returns. -/
theorem parsed_of_returns {tokens : List Token} {last : Token} {p : Program} {d : Cursor}
    {es : List ParseError} (hlast : tokens.getLast? = some last)
    (hprogram : program.Returns (Cursor.ofTokens tokens last) p d es) :
    Parsed.ofTokens tokens = ⟨some p, es⟩ := by
  rw [Rule.Returns] at hprogram
  simp only [Parsed.ofTokens, hlast, hprogram, Except.toOption]

/-- Every list of tokens but the empty one is read as a program, perhaps a partial one. -/
theorem exists_returns_program {tokens : List Token} (hne : tokens ≠ []) :
    ∃ last p d es, tokens.getLast? = some last ∧
      program.Returns (Cursor.ofTokens tokens last) p d es ∧
        Parsed.ofTokens tokens = ⟨some p, es⟩ := by
  have hlast := List.getLast?_eq_some_getLast hne
  obtain ⟨statements, d, es, hstatements⟩ : ∃ statements d es,
      Repeats insideProgram (fun _ => recovering (statement maxNesting))
        (Cursor.ofTokens tokens (tokens.getLast hne)) statements d es :=
    exists_repeats (fun _ c => exists_returns_recovering _ c) _
  have hprogram := returns_program_iff.2 ⟨statements, hstatements, rfl⟩
  exact ⟨_, _, d, es, hlast, hprogram, parsed_of_returns hlast hprogram⟩

theorem mem_of_mem_code {tokens : List Token} {t : Token} (ht : t ∈ code tokens) : t ∈ tokens :=
  (List.takeWhile_sublist _).subset (List.mem_filter.1 ht).1

/-- No end of the text is among the tokens that are read. -/
theorem kind_ne_eof_of_mem_code {tokens : List Token} {t : Token} (ht : t ∈ code tokens) :
    t.kind ≠ .eof := by
  obtain ⟨htake, _⟩ := List.mem_filter.1 ht
  have hnot := List.all_eq_true.1 List.all_takeWhile t htake
  intro heof
  rw [TokenKind.isEof_iff.2 heof] at hnot
  cases hnot

/-- A list without an end of the text is read as if one were behind its last token. -/
theorem kind_endOfText (tokens : List Token) (last : Token) :
    (endOfText tokens last).kind = .eof := by
  unfold endOfText
  cases hfind : tokens.find? (·.kind.isEof) with
  | none => rfl
  | some t =>
    have heof := List.find?_some hfind
    exact TokenKind.isEof_iff.1 heof

end GeoLang.Grammar
