import GeoLang.Proofs.Reader.Run
import GeoLang.Proofs.Reading.Consumption

namespace GeoLang

open Grammar

namespace Reader

/-- What is guaranteed about a call, whether the rule succeeds or fails. -/
structure Call.Kept (tokens : List Token) (x : Call) : Prop where
  entry : x.entry.Sound tokens
  exit : x.exit.Sound tokens
  pos_le : x.entry.pos ≤ x.exit.pos
  errors : x.entry.errors <+: x.exit.errors
  depth : x.exit.depth = x.entry.depth
  headway : x.attempt = true → x.entry.pos < x.exit.pos

/-- What is guaranteed from a reader on: a token that is consumed is in the list, every call in the
    run of a rule is kept if there are as many levels left as the rule may use, and the loops of
    programs and blocks end where they have nothing more to attempt. -/
structure Guarded (tokens : List Token) (s : Reader) : Prop where
  inside : s.atEnd tokens = false → tokens[s.pos]? = some (s.peek tokens)
  calls : ∀ {n : Nat} {α : Type} {r : Rule α} (p : FullPlan n r), s.depth + n = maxNesting →
    ∀ call ∈ (p.run tokens s).calls, call.Kept tokens
  loops : ∀ {n : Nat} {next? : Token → Option Unit} (hloop : Loop n next?)
    (attempt : FullPlan n (statement n)), s.depth + n = maxNesting →
      next? (((Plan.attempts hloop attempt).run tokens s).reader.peek tokens) = none

variable {tokens : List Token}

/-- A call that follows its rule keeps what every call has to keep. -/
theorem Call.Follows.kept {x : Call} (hx : x.Follows tokens) : x.Kept tokens := by
  obtain ⟨passed, hpassed⟩ := hx.passes
  refine ⟨hx.entry, hx.exit, (hpassed.pos_le hx.entry.pos_le).1, hx.errors, hx.depth, ?_⟩
  intro hattempt
  obtain ⟨hend, n, _, hcursor⟩ := hx.attempt hattempt
  have hrest : (x.entry.cursor tokens).rest ≠ [] := by
    rw [ne_eq, rest_cursor_eq_nil_iff, hend]
    exact Bool.false_ne_true
  have hlt := remaining_recovering_lt n (List.length_pos_iff.2 hrest)
  rw [← hcursor] at hlt
  exact (hpassed.pos_lt_iff hx.entry).2 hlt

/-- Where the text goes on, the current token is in the list at the index of the reader. -/
theorem Sound.getElem?_pos {s : Reader} (hs : s.Sound tokens) (hend : s.atEnd tokens = false) :
    tokens[s.pos]? = some (s.peek tokens) := by
  rw [← List.head?_drop, hs.drop_eq hend, List.head?_cons]

/-- The reader begins with the whole code of the tokens in sight. -/
theorem cursor_initial {last : Token} (hlast : tokens.getLast? = some last) :
    (initial tokens).cursor tokens = Cursor.ofTokens tokens last := by
  let start : Reader := ⟨0, [], 0⟩
  have hstart : start.cursor tokens = Cursor.ofTokens tokens last := by
    simp [start, cursor, previous, Cursor.ofTokens, endOfText, endToken, hlast]
  have hnone : ((tokens.drop start.pos).takeWhile (·.kind.isComment)).filter
      (!·.kind.isComment) = [] := by
    rw [List.filter_eq_nil_iff]
    intro t ht
    have hcomment := List.all_eq_true.1 List.all_takeWhile t ht
    simpa using hcomment
  have hreads := (@passes_skipComments tokens start).reads
  rw [hnone] at hreads
  rw [← hstart]
  exact hreads.eq_of_nil

private theorem next?_peek_eq_none_of_attempts {n : Nat} {next? : Token → Option Unit}
    (hloop : Loop n next?) (attempt : FullPlan n (statement n)) {s : Reader}
    (hs : s.Sound tokens) (hdepth : s.depth + n = maxNesting) :
    next? (((Plan.attempts hloop attempt).run tokens s).reader.peek tokens) = none := by
  have hfollows := (Plan.attempts hloop attempt).run_follows hs hdepth
  obtain ⟨statements, d, es, hrepeats⟩ :=
    @exists_repeats _ _ next? _ (fun _ c => exists_returns_recovering (statement n) c)
      (s.cursor tokens)
  have hreturns := returns_many_iff.2 hrepeats
  rw [hreturns] at hfollows
  rw [← peek_cursor, hfollows.cursor]
  exact next?_eq_none_of_returns_many hloop.eof (kind_eof_cursor s) hreturns

/-- From a sound reader on, all of this is guaranteed. -/
theorem Sound.guarded {s : Reader} (hs : s.Sound tokens) : s.Guarded tokens where
  inside := hs.getElem?_pos
  calls p hdepth call hcall := ((p.run_follows hs hdepth).calls call hcall).kept
  loops hloop attempt hdepth := next?_peek_eq_none_of_attempts hloop attempt hs hdepth

end Reader

open Reader in
/-- What a list of tokens gives is what running the grammar on a reader gives. -/
theorem Parsed.ofTokens_eq_run {tokens : List Token} (hne : tokens ≠ []) :
    Parsed.ofTokens tokens = ⟨(Plan.program.run tokens (initial tokens)).result.toOption,
      (Plan.program.run tokens (initial tokens)).reader.errors⟩ := by
  have hlast := List.getLast?_eq_some_getLast hne
  have hfollows := Plan.program.run_follows (@sound_initial tokens) (Nat.zero_add maxNesting)
  rw [cursor_initial hlast] at hfollows
  have herrors := hfollows.errors
  rw [Parsed.ofTokens, hlast, hfollows.result, herrors]
  rfl

open Reader in
/-- Reading a list of tokens is running the grammar on a reader. The run comes to the end, each call
    in it keeps the invariant, and from every reader that does, whatever rule is run on it is
    safe. -/
theorem Parsed.kept_of_run {tokens : List Token} (hne : tokens ≠ []) :
    let run := Plan.program.run tokens (initial tokens)
    Parsed.ofTokens tokens = ⟨run.result.toOption, run.reader.errors⟩ ∧
      run.reader.atEnd tokens = true ∧ (∀ call ∈ run.calls, call.Kept tokens) ∧
        ∀ s : Reader, s.Sound tokens → s.Guarded tokens := by
  intro run
  have hfollows : run.Follows tokens (initial tokens)
      (Grammar.program ((initial tokens).cursor tokens)) :=
    Plan.program.run_follows sound_initial (Nat.zero_add maxNesting)
  obtain ⟨last, p, d, es, hlast, hreturns, hparsed⟩ := exists_returns_program hne
  rw [cursor_initial hlast, hreturns] at hfollows
  have hnil : d.rest = [] :=
    rest_eq_nil_of_returns_program (kind_endOfText tokens last)
      (fun _ => kind_ne_eof_of_mem_code) hreturns
  have hresult : run.result = .ok p := hfollows.result
  have herrors : run.reader.errors = es := hfollows.errors
  refine ⟨?_, ?_, sound_initial.guarded.calls Plan.program (Nat.zero_add maxNesting),
    fun _ hs => hs.guarded⟩
  · rw [hparsed, hresult, herrors]
    rfl
  · rw [← rest_cursor_eq_nil_iff, hfollows.cursor]
    exact hnil

open Reader in
/-- A comment in front, an end of the text in the middle and none at the end. -/
theorem Parsed.kept_of_run_scattered :
    let tokens : List Token :=
      [⟨.comment "one", "one", .empty .start⟩, ⟨.punctuation .rCurly, "\x7d", .empty .start⟩,
        .eofAt .start, ⟨.comment "two", "two", .empty .start⟩, ⟨.identifier "x", "x", .empty .start⟩]
    let run := Plan.program.run tokens (initial tokens)
    tokens ≠ [] ∧ Parsed.ofTokens tokens = ⟨run.result.toOption, run.reader.errors⟩ ∧
      run.reader.atEnd tokens = true ∧ (∀ call ∈ run.calls, call.Kept tokens) ∧
        ∀ s : Reader, s.Sound tokens → s.Guarded tokens := by
  intro tokens run
  have hne : tokens ≠ [] := List.cons_ne_nil _ _
  exact ⟨hne, Parsed.kept_of_run hne⟩

end GeoLang
