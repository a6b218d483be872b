import GeoLang.Proofs.Errors.Program

namespace GeoLang

namespace Grammar

variable {α β : Type}

private theorem Cursor.peek_eq_eof_or_mem (c : Cursor) : c.peek = c.eof ∨ c.peek ∈ c.rest := by
  cases hrest : c.rest with
  | nil => exact .inl (by rw [peek, hrest, List.headD_nil])
  | cons t ts =>
    rw [peek, hrest, List.headD_cons]
    exact .inr List.mem_cons_self

/-- If the error made a statement fail, it stands at a token in front of `c`, the end of the text
    among them. -/
def Cursor.Locates (c : Cursor) (e : ParseError) : Prop :=
  e.isSyntactic = true → ∃ t, (t = c.eof ∨ t ∈ c.rest) ∧ e.span? = some t.span

/-- An error that is located further on is located from here. -/
theorem Cursor.Reads.locates {c d : Cursor} {used : List Token} (hreads : c.Reads used d)
    {e : ParseError} (hlocates : d.Locates e) : c.Locates e := by
  intro hsyntactic
  obtain ⟨t, ht, hspan⟩ := hlocates hsyntactic
  refine ⟨t, ?_, hspan⟩
  obtain rfl | ht := ht
  · exact .inl hreads.eof
  · exact .inr (hreads.subset ht)

/-- What holds of the errors of each single run holds of those of all runs. -/
theorem locates_of_mem_many {next? : Token → Option β} {item : β → Rule α}
    (hcomposed : ∀ b, Composed (item b))
    (hitem : ∀ b (c : Cursor), ∀ e ∈ (item b c).errors, c.Locates e) (c : Cursor) :
    ∀ e ∈ (many next? item c).errors, c.Locates e := by
  rw [many]
  cases next? c.peek with
  | none => exact List.forall_mem_nil _
  | some b =>
    have hfirst := hitem b c
    cases hresult : (item b c).result with
    | error e => simpa only [hresult] using hfirst
    | ok a =>
      by_cases hless : (item b c).cursor.remaining < c.remaining
      · have hrest : ∀ e ∈ (many next? item (item b c).cursor).errors, (item b c).cursor.Locates e :=
          locates_of_mem_many hcomposed hitem (item b c).cursor
        obtain ⟨used, hreads⟩ := (hcomposed b).exists_reads c
        simp only [hresult, if_pos hless]
        exact List.forall_mem_append.2 ⟨hfirst, fun e he => hreads.locates (hrest e he)⟩
      · simpa only [hresult, if_neg hless] using hfirst
termination_by c.remaining

/-- Only attempts at statements note errors that made a rule fail, and each of these stands at the
    token where that rule stopped. -/
theorem Composed.locates {r : Rule α} (hr : Composed r) (c : Cursor) :
    ∀ e ∈ (r c).errors, c.Locates e := by
  induction hr generalizing c with
  | @bind α β r f hr _ ihfirst ihrest =>
    cases hresult : (r c).result with
    | error e =>
      rw [Rule.bind_apply_error hresult]
      exact ihfirst c
    | ok a =>
      obtain ⟨used, hreads⟩ := hr.exists_reads c
      rw [Rule.bind_apply_ok hresult]
      exact List.forall_mem_append.2
        ⟨ihfirst c, fun e he => hreads.locates (ihrest a (r c).cursor e he)⟩
  | @note e hnote =>
    intro e' he' hsyntactic
    obtain rfl := List.mem_singleton.1 he'
    rw [hnote] at hsyntactic
    cases hsyntactic
  | many hitem ih => exact locates_of_mem_many hitem ih c
  | @recovering r hr ih =>
    cases hresult : (r c).result with
    | ok s => simpa only [Grammar.recovering, hresult] using ih c
    | error e =>
      obtain ⟨used, hreads⟩ := hr.exists_reads c
      obtain ⟨-, hspan⟩ := hr.error_at_peek (Rule.fails_of_result hresult)
      have hfailed : (r c).cursor.Locates e := fun _ =>
        ⟨_, (r c).cursor.peek_eq_eof_or_mem, hspan⟩
      simp only [Grammar.recovering, hresult]
      exact List.forall_mem_append.2
        ⟨ih c, List.forall_mem_singleton.2 (hreads.locates hfailed)⟩
  | closeParenthesis =>
    obtain ⟨s, d, es, hreturns⟩ | ⟨e, d, es, hfails⟩ :=
      Rule.returns_or_fails Grammar.closeParenthesis c
    · obtain ⟨-, -, -, rfl⟩ := returns_closeParenthesis_iff.1 hreturns
      rw [hreturns]
      exact List.forall_mem_nil _
    · obtain ⟨-, -, -, rfl⟩ := fails_closeParenthesis_iff.1 hfails
      rw [hfails]
      exact List.forall_mem_nil _
  | _ => exact List.forall_mem_nil _

private theorem isComment_of_mem_code {tokens : List Token} {t : Token} (ht : t ∈ code tokens) :
    t.kind.isComment = false := by
  have hcode := (List.mem_filter.1 ht).2
  simpa using hcode

/-- Reading a list of tokens that says where its text ends, the error of a statement that failed
    stands at one of the tokens. -/
theorem exists_token_of_mem_errors {tokens : List Token} {last eof : Token} (hmem : eof ∈ tokens)
    (heof : eof.kind = .eof) {e : ParseError}
    (he : e ∈ (program (Cursor.ofTokens tokens last)).errors) (hsyntactic : e.isSyntactic = true) :
    ∃ t ∈ tokens, t.kind.isComment = false ∧ e.span? = some t.span := by
  obtain ⟨t, ht, hspan⟩ := Composed.program.locates _ e he hsyntactic
  refine ⟨t, ?_, ?_, hspan⟩
  · obtain rfl | ht := ht
    · have hfound : (tokens.find? (·.kind.isEof)).isSome = true :=
        List.find?_isSome.2 ⟨eof, hmem, TokenKind.isEof_iff.2 heof⟩
      obtain ⟨t, ht⟩ := Option.isSome_iff_exists.1 hfound
      change endOfText tokens last ∈ tokens
      rw [endOfText, ht]
      exact List.mem_of_find?_eq_some ht
    · exact mem_of_mem_code ht
  · obtain rfl | ht := ht
    · change (endOfText tokens last).kind.isComment = false
      rw [kind_endOfText]
      rfl
    · exact isComment_of_mem_code ht

end Grammar

open Grammar

/-- What is listed before a later error ends nowhere behind it. -/
theorem ParseError.ListedBefore.stop_le {e f : ParseError} (hlisted : e.ListedBefore f) :
    ∃ s ∈ e.span?, ∃ t ∈ f.span?, s.stop.offset ≤ t.stop.offset := by
  obtain ⟨s, hs, t, ht, hbefore | ⟨hinside, -⟩⟩ := hlisted
  · exact ⟨s, hs, t, ht, hbefore.2⟩
  · exact ⟨s, hs, t, ht, hinside.2⟩

/-- Each error in a text ends nowhere in front of the one listed before it, and the error of a
    statement that failed covers exactly one token, or the end of the text. -/
theorem Analysis.sorted_and_located_parseErrors (config : AnalysisConfig) (source : String) :
    let a := Analysis.ofSource config source
    (a.parseErrors.Pairwise fun e f =>
      ∃ s ∈ e.span?, ∃ t ∈ f.span?, s.stop.offset ≤ t.stop.offset) ∧
    ∀ e ∈ a.parseErrors, e.isSyntactic = true →
      ∃ t ∈ a.tokens, t.kind.isComment = false ∧ e.span? = some t.span := by
  intro a
  let tokens := (Lexed.ofSource config.keepComments source).tokens
  let eof := Token.eofAt (Position.start.advanceBy source.toList)
  have hmem : eof ∈ tokens := List.mem_append_right _ List.mem_cons_self
  have hlast : tokens.getLast? = some eof := List.getLast?_concat ..
  have hparsed :
      (Parsed.ofTokens tokens).errors = (Grammar.program (Cursor.ofTokens tokens eof)).errors := by
    simp only [Parsed.ofTokens, hlast]
  have herrors : a.parseErrors = (Parsed.ofTokens tokens).errors ∨ a.parseErrors = [] := by
    unfold a Analysis.ofSource Analysis.parseLexed
    dsimp only
    split
    · exact .inl rfl
    · exact .inr rfl
  obtain herrors | herrors := herrors
  · rw [herrors, hparsed]
    have hordered := Lexed.ordered_cursor config.keepComments source eof
    refine ⟨(Rule.KeepsOrder.program _ hordered).listed.imp ParseError.ListedBefore.stop_le, ?_⟩
    exact fun e he => exists_token_of_mem_errors hmem rfl he
  · rw [herrors]
    exact ⟨.nil, List.forall_mem_nil _⟩

end GeoLang
