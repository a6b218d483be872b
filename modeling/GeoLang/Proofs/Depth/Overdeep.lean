import GeoLang.Proofs.Braces.Inside
import GeoLang.Proofs.Braces.Matching
import GeoLang.Proofs.Depth.Front
import GeoLang.Proofs.Depth.Gap
import GeoLang.Proofs.Recovery.Skip

namespace GeoLang.Grammar

variable {n m : Nat} {s : Statement} {ts : List Token} {eof : Token} {c d : Cursor}

/-- A derived statement reports wrong types and numbers of arguments only. -/
theorem StatementDerives.clean_reports (hs : StatementDerives n s ts) (heof : eof.kind = .eof) :
    Clean (statement n ⟨none, ts, eof⟩).reports := by
  obtain ⟨x, es, hreturns, hclean⟩ := hs.exists_returns heof
  rwa [hreturns]

/-- So does a program of nothing else. -/
theorem StatementDerives.clean_errors (hs : StatementDerives maxNesting s ts)
    (heof : eof.kind = .eof) : Clean (Parsed.ofTokens (ts ++ [eof])).errors := by
  have hprogram : ProgramDerives ⟨[s]⟩ (ts ++ []) := Items.cons hs .nil
  rw [List.append_nil] at hprogram
  obtain ⟨q, d, es, hreturns, -, -, hclean⟩ := exists_returns_of_programDerives hprogram heof
  rw [← ofTokens_append_eof heof hs.isCode eof] at hreturns
  rwa [parsed_of_returns (by simp) hreturns]

/-- A statement that needs more levels than are allowed is nested too deeply. -/
theorem StatementDerives.overruns (hs : StatementDerives n s ts)
    (hdeep : ¬ StatementDerives m s ts) (hreads : c.Reads ts d)
    (helse : d.peek.kind ≠ .keyword .elseKw) : (statement m).Overruns c :=
  ((statement_and_parts_confine m n).1 _ _ _ _ hs hreads helse).resolve_left hdeep

/-- Reading a derived statement begins at a token that begins a statement. -/
theorem StatementDerives.beginsStatement_peek (hs : StatementDerives n s ts) (hreads : c.Reads ts d) :
    BeginsStatement c.peek := by
  obtain ⟨t, us, rfl, ht⟩ := statementDerives_begins n _ _ hs
  obtain ⟨_, rfl⟩ := hreads.of_cons
  exact ht

/-- A program overruns where its first statement does. -/
theorem overruns_program (hbegins : BeginsStatement c.peek)
    (hover : (statement maxNesting).Overruns c) : program.Overruns c := by
  have hnext : insideProgram c.peek = some () := insideProgram_eq_some_iff.2 hbegins.notEof
  exact (overruns_many hnext (overruns_recovering hover)).bind _

/-- What overruns reports that the nesting is too deep, as the first error of an attempt. -/
theorem Rule.Overruns.exists_reports {α : Type} {r : Rule α} (hover : r.Overruns c) :
    ∃ noted t others, (r c).reports = noted ++ .nestingTooDeep maxNesting t.span :: others ∧
      Clean noted ∧ t ∈ c.rest := by
  obtain ⟨used, d, hused, hrest, ⟨noted, others, hreports, hnoted⟩, -⟩ := hover
  obtain ⟨t, after, hafter⟩ := List.exists_cons_of_ne_nil hrest
  have hpeek : d.peek = t := by simp [Cursor.peek, hafter]
  refine ⟨noted, t, others, ?_, hnoted, ?_⟩
  · rw [hreports, ← hpeek]
    rfl
  · rw [hused.rest, hafter]
    simp

/-- The error that a rule fails with is reported behind those that it noted. -/
theorem Reply.exists_reports {α : Type} (x : Reply α) : ∃ more, x.reports = x.errors ++ more := by
  cases hresult : x.result with
  | ok a => exact ⟨[], by simp only [Reply.reports, hresult, List.append_nil]⟩
  | error e => exact ⟨[e], by simp only [Reply.reports, hresult]⟩

/-- Where a statement is nested too deeply its rule fails, or it has opened a block and an attempt
    in the block fails. -/
theorem Rule.Overruns.fails_or_opens (hover : (statement m).Overruns c) (heof : c.eof.kind = .eof) :
    ∃ noted used d others,
      (statement m c).reports = noted ++ .nestingTooDeep maxNesting d.peek.span :: others ∧
      Clean noted ∧ c.Reads used d ∧
      ((d.rest ≠ [] ∧ (statement m).Fails c (.nestingTooDeep maxNesting d.peek.span) d noted) ∨
        ∃ k, 0 < k ∧ LeavesOpen used k) := by
  obtain ⟨used, d, hused, hrest, ⟨noted, others, hreports, hnoted⟩, hstops⟩ := hover
  have hreports : (statement m c).reports =
      noted ++ .nestingTooDeep maxNesting d.peek.span :: others := hreports
  by_cases hclean : Clean (statement m c).errors
  · have hdirty : ¬ Clean ((tooDeep : Rule Unit) d).reports := fun hquiet => by
      cases hquiet _ List.mem_cons_self
    obtain ⟨-, hcursor⟩ := hstops hdirty hclean
    obtain ⟨s, d', es, hreturns⟩ | ⟨e, d', es, hfails⟩ := Rule.returns_or_fails (statement m) c
    · rw [hreturns] at hclean hreports
      cases hclean _ (hreports ▸ List.mem_append_right _ List.mem_cons_self)
    · have hsyntactic := ((Composed.statement m).error_at_peek hfails).1
      have hends := hreports
      rw [hfails] at hcursor hclean hends
      obtain rfl : d' = d := hcursor
      obtain ⟨rfl, rfl, -⟩ := Clean.append_cons_inj hclean hnoted hsyntactic rfl hends
      exact ⟨es, used, d', others, hreports, hnoted, hused, .inl ⟨hrest, hfails⟩⟩
  · obtain ⟨noted', e, rest, herrors, hnoted', he⟩ := exists_of_not_clean hclean
    obtain ⟨used, k, d, hused, hk, hpositive, hspan⟩ := Rule.NotesWithin.statement m c heof e
      (herrors ▸ List.mem_append_right _ List.mem_cons_self) he
    obtain ⟨more, hmore⟩ := (statement m c).exists_reports
    have hsplit := hreports.symm.trans hmore
    rw [herrors, List.append_assoc, List.cons_append] at hsplit
    obtain ⟨-, rfl, -⟩ := Clean.append_cons_inj hnoted hnoted' rfl he hsplit
    rw [Option.some.inj hspan] at hreports
    exact ⟨noted, used, d, others, hreports, hnoted, hused, .inr ⟨k, hpositive, hk⟩⟩

/-- The tokens are a statement that needs more than `n` levels. -/
def Exceeds (n : Nat) (ts : List Token) : Prop :=
  ∃ more s, StatementDerives more s ts ∧ ¬ StatementDerives n s ts

/-- A statement that is nested too deeply, with the tokens `mid`, for which `m` levels are left
    behind `front`. What stands in front of it, and the text from `back` on, can be derived with the
    levels that are allowed, the statements and blocks in which it stands among it. -/
structure Overdeep (m : Nat) (front mid behind back : List Token) : Prop where
  frame : ProgramEncloses m front back
  exceeds : Exceeds m mid
  follows : ∀ t ∈ behind.head?, t.kind ≠ .keyword .elseKw

namespace Overdeep

variable {front mid behind back : List Token} (x : Overdeep m front mid behind back)

include x

/-- Its rule fails, or has opened a block in which an attempt fails. -/
theorem begins_and_overruns (heof : eof.kind = .eof) :
    BeginsStatement (Cursor.mk front.getLast? (mid ++ behind) eof).peek ∧
      (statement m).Overruns ⟨front.getLast?, mid ++ behind, eof⟩ := by
  obtain ⟨n, s, hs, hdeep⟩ := x.exceeds
  have hreads : Cursor.Reads ⟨front.getLast?, mid ++ behind, eof⟩ mid
      ⟨mid.getLast?.or front.getLast?, behind, eof⟩ := ⟨rfl, rfl, rfl⟩
  have helse : (Cursor.mk (mid.getLast?.or front.getLast?) behind eof).peek.kind ≠
      .keyword .elseKw := by
    cases hbehind : behind with
    | nil => simp [Cursor.peek, heof]
    | cons t ts => exact x.follows t (by rw [hbehind]; rfl)
  exact ⟨hs.beginsStatement_peek hreads, hs.overruns hdeep hreads helse⟩

/-- Where the statement fails, recovery skips tokens and reading goes on at `back`. -/
theorem exists_attempted (heof : eof.kind = .eof) {used skipped : List Token} {e : ParseError}
    {noted : List ParseError} (hused : Cursor.Reads ⟨front.getLast?, mid ++ behind, eof⟩ used d)
    (hfails : (statement m).Fails ⟨front.getLast?, mid ++ behind, eof⟩ e d noted)
    (hrest : d.rest = skipped ++ back) (hskipped : SkippedBehind back used skipped) :
    ∃ previous, Attempted m ⟨front.getLast?, mid ++ behind, eof⟩ ⟨previous, back, eof⟩
      (noted ++ [e]) := by
  obtain ⟨previous, hresume⟩ := hskipped.rest_resume hused hrest
  have hreturns := returns_recovering_iff.2 (.skipped hfails)
  rw [hresume] at hreturns
  have hbegins := (x.begins_and_overruns heof).1
  have hremaining := List.length_pos_iff.2
    (Cursor.rest_ne_nil_of_peek (c := ⟨front.getLast?, mid ++ behind, eof⟩) heof hbegins.notEof)
  exact ⟨previous, ⟨none, hreturns⟩, hbegins, hremaining⟩

/-- Nothing else than what the statement reports is then reported in the text, apart from wrong
    types and numbers of arguments. -/
theorem exists_errors_of_fails (heof : eof.kind = .eof) {used skipped : List Token} {e : ParseError}
    {noted : List ParseError} (hused : Cursor.Reads ⟨front.getLast?, mid ++ behind, eof⟩ used c)
    (hfails : (statement m).Fails ⟨front.getLast?, mid ++ behind, eof⟩ e c noted)
    (hrest : c.rest = skipped ++ back) (hskipped : SkippedBehind back used skipped) {p : Program}
    {es : List ParseError}
    (hprogram : program.Returns ⟨none, front ++ (mid ++ behind), eof⟩ p d es) :
    ∃ before more, es = (before ++ noted) ++ e :: more ∧ Clean before ∧ Clean more := by
  obtain ⟨previous, hattempt⟩ := x.exists_attempted heof hused hfails hrest hskipped
  have hfront : Cursor.Reads ⟨none, front ++ (mid ++ behind), eof⟩ front
      ⟨front.getLast?, mid ++ behind, eof⟩ := ⟨rfl, rfl, by rw [Option.or_none]⟩
  have hback : Cursor.Reads ⟨previous, back, eof⟩ back ⟨back.getLast?.or previous, [], eof⟩ :=
    ⟨by rw [List.append_nil], rfl, rfl⟩
  obtain ⟨_, before, more, haround, hbefore, hmore⟩ :=
    exists_returns_around hattempt x.frame hfront hback heof
  obtain ⟨_, _, rfl⟩ := hprogram.unique haround
  exact ⟨before, more, by simp, hbefore, hmore⟩

/-- No tokens that are skipped from inside of a block of the statement lead to `back`. -/
theorem not_skippedBehind {used skipped : List Token} {k : Nat}
    (hwhole : Balanced (front ++ (used ++ (skipped ++ back)))) (hk : LeavesOpen used k)
    (hpositive : 0 < k) : ¬ SkippedBehind back used skipped := by
  intro hskipped
  have htotal := hwhole.total
  have hused := hk.total
  have haround := x.frame.balanced.total
  have hbetween := hskipped.balanced.total
  simp only [opening_append, closing_append] at htotal haround
  omega

/-- What is nested too deeply is reported at one of the tokens behind `front`, and nothing is in
    front of it. Nothing is behind it either if recovery comes to `back`. -/
theorem exists_errors (heof : eof.kind = .eof) (hwhole : Balanced (front ++ (mid ++ behind)))
    {p : Program} {es : List ParseError}
    (hprogram : program.Returns ⟨none, front ++ (mid ++ behind), eof⟩ p d es) :
    ∃ noted used t after others, mid ++ behind = used ++ t :: after ∧
      es = noted ++ .nestingTooDeep maxNesting t.span :: others ∧ Clean noted ∧
      ∀ skipped, t :: after = skipped ++ back → SkippedBehind back used skipped → Clean others := by
  have hfront : Cursor.Reads ⟨none, front ++ (mid ++ behind), eof⟩ front
      ⟨front.getLast?, mid ++ behind, eof⟩ := ⟨rfl, rfl, by rw [Option.or_none]⟩
  obtain ⟨hbegins, hover⟩ := x.begins_and_overruns heof
  obtain ⟨noted, used, d, others, hreports, hnoted, hused, hstops⟩ := hover.fails_or_opens heof
  obtain ⟨⟨before, more, hcarries, hbefore⟩, -⟩ := x.frame.carries hfront (.refl _) hbegins
  rw [hprogram, hreports] at hcarries
  have hes : es = (before ++ noted) ++ .nestingTooDeep maxNesting d.peek.span :: (others ++ more) := by
    simpa [Reply.reports] using hcarries
  have hsplit : mid ++ behind = used ++ d.rest := hused.rest
  have hrest : d.rest ≠ [] := by
    obtain ⟨hrest, -⟩ | ⟨k, hpositive, hk⟩ := hstops
    · exact hrest
    · intro hnil
      rw [hsplit, hnil, List.append_nil] at hwhole
      have hopen := (hwhole.of_append.append hk).eq hwhole
      omega
  obtain ⟨t, after, hafter⟩ := List.exists_cons_of_ne_nil hrest
  have hpeek : d.peek = t := by simp [Cursor.peek, hafter]
  rw [hpeek] at hes hstops
  refine ⟨before ++ noted, used, t, after, others ++ more, by rw [hsplit, hafter], hes,
    hbefore.append hnoted, fun skipped hskip hskipped => ?_⟩
  rw [← hafter] at hskip
  obtain ⟨-, hfails⟩ | ⟨k, hpositive, hk⟩ := hstops
  · obtain ⟨before', more', hes', hbefore', hmore'⟩ :=
      x.exists_errors_of_fails heof hused hfails hskip hskipped hprogram
    obtain ⟨-, -, rfl⟩ := Clean.append_cons_inj (hbefore.append hnoted) (hbefore'.append hnoted)
      rfl rfl (hes.symm.trans hes')
    exact hmore'
  · rw [hsplit, hskip] at hwhole
    exact absurd hskipped (x.not_skippedBehind hwhole hk hpositive)

end Overdeep

end GeoLang.Grammar
