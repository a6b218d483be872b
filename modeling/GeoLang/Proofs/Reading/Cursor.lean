import GeoLang.Grammar.Program

namespace GeoLang.Grammar.Cursor

/-- On the way from `c` to `d` exactly the tokens `used` are consumed. -/
structure Reads (c : Cursor) (used : List Token) (d : Cursor) : Prop where
  rest : c.rest = used ++ d.rest
  eof : d.eof = c.eof
  previous : d.previous = used.getLast?.or c.previous

/-- A cursor reads nothing to itself. -/
theorem Reads.refl (c : Cursor) : c.Reads [] c := ⟨rfl, rfl, rfl⟩

/-- What is read on two stretches is read on both together. -/
theorem Reads.trans {c d e : Cursor} {used more : List Token} (hfirst : c.Reads used d)
    (hsecond : d.Reads more e) : c.Reads (used ++ more) e where
  rest := by rw [hfirst.rest, hsecond.rest, List.append_assoc]
  eof := hsecond.eof.trans hfirst.eof
  previous := by
    rw [hsecond.previous, hfirst.previous, List.getLast?_append, Option.or_assoc]

/-- Where there is a token to consume, consuming it leads over that one token. -/
theorem reads_advance {c : Cursor} (hne : c.rest ≠ []) : c.Reads [c.peek] c.advance := by
  obtain ⟨previous, rest, eof⟩ := c
  cases rest with
  | nil => exact absurd rfl hne
  | cons t ts => exact ⟨rfl, rfl, rfl⟩

/-- At the end of the text there is nothing to advance over. -/
theorem advance_of_rest_nil {c : Cursor} (hrest : c.rest = []) : c.advance = c := by
  rw [advance, hrest]

/-- Advancing reads one token, or none at the end of the text. -/
theorem exists_reads_advance (c : Cursor) : ∃ used, c.Reads used c.advance := by
  by_cases hrest : c.rest = []
  · rw [advance_of_rest_nil hrest]
    exact ⟨[], .refl c⟩
  · exact ⟨[c.peek], reads_advance hrest⟩

/-- At the end of the text the current token is the end itself. -/
theorem rest_ne_nil_of_peek {c : Cursor} (heof : c.eof.kind = .eof) (hpeek : c.peek.kind ≠ .eof) :
    c.rest ≠ [] := by
  intro hrest
  rw [peek, hrest] at hpeek
  exact hpeek heof

/-- What is read and what remains is all there was. -/
theorem Reads.remaining_eq {c d : Cursor} {used : List Token} (hreads : c.Reads used d) :
    c.remaining = used.length + d.remaining := by
  rw [remaining, hreads.rest, List.length_append, remaining]

theorem Reads.subset {c d : Cursor} {used : List Token} (hreads : c.Reads used d) :
    d.rest ⊆ c.rest := by
  intro t ht
  rw [hreads.rest]
  exact List.mem_append_right used ht

/-- What remains is the end of what there was. -/
theorem Reads.suffix {c d : Cursor} {used : List Token} (hreads : c.Reads used d) :
    d.rest <:+ c.rest :=
  ⟨used, hreads.rest.symm⟩

theorem Reads.eq_of_nil {c d : Cursor} (hreads : c.Reads [] d) : d = c := by
  obtain ⟨previous, rest, eof⟩ := c
  obtain ⟨previous', rest', eof'⟩ := d
  obtain ⟨hrest, heof, hprevious⟩ := hreads
  simp_all

/-- The first of the tokens that are consumed is the current one. -/
theorem Reads.of_cons {c d : Cursor} {t : Token} {ts : List Token} (hreads : c.Reads (t :: ts) d) :
    c.advance.Reads ts d ∧ c.peek = t := by
  have hpeek : c.peek = t := by rw [peek, hreads.rest, List.cons_append, List.headD_cons]
  have hadvance : c.advance = ⟨some t, ts ++ d.rest, c.eof⟩ := by
    rw [advance, hreads.rest, List.cons_append]
  refine ⟨?_, hpeek⟩
  rw [hadvance]
  refine ⟨rfl, hreads.eof, ?_⟩
  rw [hreads.previous, List.getLast?_cons]
  cases ts.getLast? <;> rfl

/-- Over a single token there is one way to go. -/
theorem Reads.of_singleton {c d : Cursor} {t : Token} (hreads : c.Reads [t] d) :
    c.peek = t ∧ d = c.advance := by
  obtain ⟨hnil, hpeek⟩ := hreads.of_cons
  exact ⟨hpeek, hnil.eq_of_nil⟩

/-- Consuming a list of tokens leads past each of its parts. -/
theorem Reads.of_append {c e : Cursor} {ts us : List Token} (hreads : c.Reads (ts ++ us) e) :
    ∃ d, c.Reads ts d ∧ d.Reads us e := by
  refine ⟨⟨ts.getLast?.or c.previous, us ++ e.rest, c.eof⟩, ⟨?_, rfl, rfl⟩, ⟨rfl, hreads.eof, ?_⟩⟩
  · rw [hreads.rest, List.append_assoc]
  · rw [hreads.previous, List.getLast?_append, Option.or_assoc]

/-- So it does past a part and the token that ends it. -/
theorem Reads.of_append_cons {c e : Cursor} {ts us : List Token} {u : Token}
    (hreads : c.Reads (ts ++ u :: us) e) :
    ∃ d, c.Reads ts d ∧ d.peek = u ∧ d.advance.Reads us e := by
  obtain ⟨d, hts, hrest⟩ := hreads.of_append
  obtain ⟨hus, hpeek⟩ := hrest.of_cons
  exact ⟨d, hts, hpeek, hus⟩

/-- Headers begin with a word and a part in parentheses. -/
theorem Reads.of_parenthesized {c e : Cursor} {ts us : List Token} {t u v : Token}
    (hreads : c.Reads (t :: u :: (ts ++ v :: us)) e) :
    ∃ d, c.peek = t ∧ c.advance.peek = u ∧ c.advance.advance.Reads ts d ∧ d.peek = v ∧
      d.advance.Reads us e := by
  obtain ⟨hrest, hword⟩ := hreads.of_cons
  obtain ⟨hinside, hopen⟩ := hrest.of_cons
  obtain ⟨d, hts, hclose, hus⟩ := hinside.of_append_cons
  exact ⟨d, hword, hopen, hts, hclose, hus⟩

/-- Behind the current token stands the second one. -/
theorem peek_advance (c : Cursor) : c.advance.peek = c.second := by
  obtain ⟨previous, rest, eof⟩ := c
  cases rest <;> rfl

/-- Skipping leads over the tokens that are skipped. -/
theorem exists_reads_skipToBoundary (depth : Nat) (previous : Option Token) (eof : Token)
    (rest : List Token) :
    ∃ used, (⟨previous, rest, eof⟩ : Cursor).Reads used (skipToBoundary depth previous eof rest) := by
  induction rest generalizing depth previous with
  | nil => exact ⟨[], ⟨rfl, rfl, rfl⟩⟩
  | cons t ts ih =>
    rw [skipToBoundary]
    split
    · exact ⟨[], .refl _⟩
    · obtain ⟨used, hused⟩ := ih (braceDepth depth t) (some t)
      exact ⟨[t] ++ used, (reads_advance (c := ⟨previous, t :: ts, eof⟩) (by simp)).trans hused⟩

/-- Recovery only moves on. -/
theorem exists_reads_resume (stuck : Bool) (c : Cursor) : ∃ used, c.Reads used (resume stuck c) := by
  obtain ⟨previous, rest, eof⟩ := c
  cases stuck with
  | false => exact exists_reads_skipToBoundary 0 previous eof rest
  | true =>
    cases rest with
    | nil => exact ⟨[], ⟨rfl, rfl, rfl⟩⟩
    | cons t ts =>
      obtain ⟨used, hused⟩ := exists_reads_skipToBoundary (braceDepth 0 t) (some t) eof ts
      exact ⟨[t] ++ used, (reads_advance (c := ⟨previous, t :: ts, eof⟩) (by simp)).trans hused⟩

end GeoLang.Grammar.Cursor
