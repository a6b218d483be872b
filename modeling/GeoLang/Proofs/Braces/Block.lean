import GeoLang.Proofs.Braces.Statement
import GeoLang.Proofs.Reading.Consumption
import GeoLang.Proofs.Sentence.Statement

namespace GeoLang.Grammar

open Cursor (Nests)

variable {α β : Type} {c d e : Cursor}

/-- On the way from `c` to `d` no brace is closed that was not opened on it. -/
def Cursor.Opens (c d : Cursor) : Prop := ∃ used k, c.Reads used d ∧ LeavesOpen used k

/-- On the way from `c` to `d` a brace is opened that is not closed; in an orderly text it is the
    only one. -/
def Cursor.Enters (c d : Cursor) : Prop :=
  ∃ used k, c.Reads used d ∧ LeavesOpen used (k + 1) ∧ (c.Orderly → k = 0)

namespace Cursor

theorem Opens.refl (c : Cursor) : c.Opens c := ⟨[], 0, .refl c, .nil⟩

theorem Opens.trans (hfirst : c.Opens d) (hsecond : d.Opens e) : c.Opens e := by
  obtain ⟨used, j, hused, hj⟩ := hfirst
  obtain ⟨more, k, hmore, hk⟩ := hsecond
  exact ⟨used ++ more, j + k, hused.trans hmore, hj.append hk⟩

/-- A rule that nests leaves no brace open. -/
theorem Nests.opens (h : c.Nests d) : c.Opens d := by
  obtain ⟨used, k, hused, hk, _⟩ := h
  exact ⟨used, k, hused, hk⟩

/-- Behind an opening brace one is open. -/
theorem Enters.opens (h : c.Enters d) : c.Opens d := by
  obtain ⟨used, k, hused, hk, _⟩ := h
  exact ⟨used, k + 1, hused, hk⟩

/-- In a text that is not orderly, braces may be left open. -/
theorem Nests.of_not_orderly (hopens : c.Opens d) (hc : ¬ c.Orderly) : c.Nests d := by
  obtain ⟨used, k, hused, hk⟩ := hopens
  exact ⟨used, k, hused, hk, fun horderly => absurd horderly hc⟩

/-- Where there is nothing to read, nothing is read. -/
theorem nests_of_rest_nil {r : Rule α} (hr : Composed r) (hrest : c.rest = []) :
    r.NestsFrom c c := by
  obtain ⟨used, hused⟩ := hr.exists_reads c
  obtain ⟨hnil, _⟩ := List.append_eq_nil_iff.1 (hused.rest.symm.trans hrest)
  rw [hnil] at hused
  exact ⟨[], 0, hused, .nil, fun _ => rfl⟩

/-- A block is entered by its brace. -/
theorem Enters.of_advance (hrest : c.rest ≠ []) (hopen : c.peek.kind = .punctuation .lCurly)
    (hinner : c.advance.Nests d) : c.Enters d := by
  obtain ⟨used, k, hused, hk, hzero⟩ := hinner
  have hadvance := reads_advance hrest
  have hone : LeavesOpen [c.peek] 1 := LeavesOpen.nil.snoc_lCurly hopen
  refine ⟨[c.peek] ++ used, k, hadvance.trans hused, ?_, fun hc => hzero (hc.of_reads hadvance)⟩
  rw [Nat.add_comm]
  exact hone.append hk

/-- In an orderly text no brace is open at the end. -/
theorem Enters.rest_ne_nil (h : c.Enters d) (hc : c.Orderly) : d.rest ≠ [] := by
  intro hrest
  obtain ⟨used, k, hused, hk, _⟩ := h
  have hall : c.rest = used := by rw [hused.rest, hrest, List.append_nil]
  have hclosed := hc.closed used (hall ▸ List.suffix_rfl)
  have htotal := hk.total
  omega

/-- The brace that closes makes a pair. -/
theorem Enters.close (h : c.Enters d) (hclose : d.peek.kind = .punctuation .rCurly) :
    c.Nests d.advance := by
  by_cases hrest : d.rest = []
  · rw [advance_of_rest_nil hrest]
    exact .of_not_orderly h.opens fun hc => h.rest_ne_nil hc hrest
  · obtain ⟨used, k, hused, hk, hzero⟩ := h
    exact ⟨used ++ [d.peek], k, hused.trans (reads_advance hrest), hk.snoc_rCurly hclose, hzero⟩

end Cursor

open Cursor

/-- A mark that is not there is refused. -/
theorem mark_of_ne {p : Punctuation} {x : Expectation} (hc : c.peek.kind ≠ .punctuation p) :
    mark p x c = unexpected x c := by
  have hnot : c.peek.kind.isPunctuation p = false := by simpa [TokenKind.isPunctuation] using hc
  change (if c.peek.kind.isPunctuation p = true then _ else unexpected x : Rule Span) c = _
  rw [if_neg (by simp [hnot])]

/-- A rule with a punctuation mark behind it stops where the rule inside fails, in front of a token
    that is not the mark, or behind the mark. -/
theorem cursor_bind_mark {r : Rule α} {p : Punctuation} {x : Expectation} {f : α → Span → Rule β}
    (hf : ∀ a s d, (f a s d).cursor = d) (c : Cursor) :
    let whole := (r >>= fun a => mark p x >>= f a) c
    (∃ e d es, r.Fails c e d es ∧ whole.cursor = d) ∨
      ∃ a d es, r.Returns c a d es ∧
        (d.peek.kind = .punctuation p ∧ whole.cursor = d.advance ∨
          d.peek.kind ≠ .punctuation p ∧ whole.cursor = d) := by
  intro whole
  obtain ⟨a, d, es, hreturns⟩ | ⟨e, d, es, hfails⟩ := Rule.returns_or_fails r c
  · have hwhole : whole.cursor = ((mark p x >>= f a) d).cursor := by
      change ((r >>= fun a => mark p x >>= f a) c).cursor = _
      rw [Rule.bind_apply_ok (by rw [hreturns]), hreturns]
    refine .inr ⟨a, d, es, hreturns, ?_⟩
    by_cases hkind : d.peek.kind = .punctuation p
    · have hmark : (mark p x).Returns d d.peek.span d.advance [] :=
        returns_mark_iff.2 ⟨hkind, rfl, rfl, rfl⟩
      rw [Rule.bind_apply_ok (by rw [hmark]), hmark] at hwhole
      exact .inl ⟨hkind, hwhole.trans (hf _ _ _)⟩
    · have hmark := mark_of_ne (x := x) hkind
      rw [Rule.bind_apply_error (by rw [hmark]; rfl), hmark] at hwhole
      exact .inr ⟨hkind, hwhole⟩
  · refine .inl ⟨e, d, es, hfails, ?_⟩
    change ((r >>= fun a => mark p x >>= f a) c).cursor = _
    rw [Rule.bind_apply_error (by rw [hfails]), hfails]

/-- A rule in braces keeps them in pairs if the closing one is read. -/
theorem nests_or_enters {r : Rule α} {x : Expectation} {f : α → Span → Rule β}
    (hf : ∀ a s d, (f a s d).cursor = d) (hrest : c.rest ≠ [])
    (hopen : c.peek.kind = .punctuation .lCurly) (hr : r.NestsFrom c.advance c.advance) :
    let whole := (r >>= fun a => mark .rCurly x >>= f a) c.advance
    (∃ a d es, r.Returns c.advance a d es ∧ d.peek.kind = .punctuation .rCurly ∧
      c.Nests whole.cursor) ∨
    c.Enters whole.cursor ∧ ∀ a d es, r.Returns c.advance a d es →
      d.peek.kind ≠ .punctuation .rCurly ∧ whole.cursor = d := by
  intro whole
  have henters : c.Enters (r c.advance).cursor := .of_advance hrest hopen hr
  obtain ⟨e, d, es, hfails, hcursor⟩ | ⟨a, d, es, hreturns, hcursor⟩ :=
    cursor_bind_mark (p := .rCurly) (x := x) hf (r := r) c.advance
  · rw [hfails] at henters
    refine .inr ⟨by rw [hcursor]; exact henters, fun a' d' es' hreturns => ?_⟩
    rw [Rule.Returns, hfails] at hreturns
    simp at hreturns
  · rw [hreturns] at henters
    obtain ⟨hclose, hcursor⟩ | ⟨hnot, hcursor⟩ := hcursor
    · exact .inl ⟨a, d, es, hreturns, hclose, by rw [hcursor]; exact henters.close hclose⟩
    · refine .inr ⟨by rw [hcursor]; exact henters, fun a' d' es' hreturns' => ?_⟩
      obtain ⟨_, rfl, _⟩ := hreturns.unique hreturns'
      exact ⟨hnot, hcursor⟩

/-- A placeholder that cannot be read leaves its brace open. -/
theorem enters_of_fails_placeholder {e : ParseError} {es : List ParseError} (hrest : c.rest ≠ [])
    (hopen : c.peek.kind = .punctuation .lCurly) (hfails : placeholder.Fails c e d es) :
    c.Enters d := by
  have hcursor : (placeholder c).cursor = d := by rw [hfails]
  obtain ⟨p, d', fs, hpath, hclose, _⟩ | ⟨hleft, _⟩ := nests_or_enters (r := path)
    (x := .placeholderEnd) (f := fun p _ => pure p) (fun _ _ _ => rfl) hrest hopen (nests_path _)
  · have hreturns : placeholder.Returns c p d'.advance fs :=
      returns_placeholder_iff.2 ⟨d', hpath, hclose, rfl⟩
    rw [Rule.Fails, hreturns] at hfails
    simp at hfails
  · rw [← hcursor]
    exact hleft

/-- A placeholder that fails may leave its brace open. -/
theorem opens_placeholder (hopen : c.peek.kind = .punctuation .lCurly) :
    c.Opens (placeholder c).cursor := by
  by_cases hrest : c.rest = []
  · exact (nests_of_rest_nil .placeholder hrest).opens
  obtain ⟨_, _, _, _, _, hpair⟩ | ⟨hleft, _⟩ := nests_or_enters (r := path) (x := .placeholderEnd)
    (f := fun p _ => pure p) (fun _ _ _ => rfl) hrest hopen (nests_path _)
  · exact hpair.opens
  · exact hleft.opens

private theorem isBrace_of_members {members : List String} {ts : List Token}
    (hmembers : Items (Led .dot NameForm) members ts) : ∀ t ∈ ts, t.kind.isBrace = false := by
  induction hmembers with
  | nil => simp
  | cons hitem _ ih =>
    obtain ⟨hdot, ⟨hname⟩⟩ := hitem
    intro t ht
    simp only [List.cons_append, List.nil_append, List.mem_cons] at ht
    obtain rfl | rfl | ht := ht
    · rw [hdot]
      rfl
    · exact isBrace_of_isName hname
    · exact ih t ht

private theorem balanced_of_placeholder {p : Path} {ts : List Token}
    (hplaceholder : PlaceholderForm p ts) :
    Balanced ts := by
  cases hplaceholder with
  | mk hopen hpath hclose =>
    cases hpath with
    | mk hname hmembers =>
      have hinside := LeavesOpen.of_not_isBrace
        (List.forall_mem_cons.2 ⟨isBrace_of_isName hname, isBrace_of_members hmembers⟩)
      have hone := LeavesOpen.nil.snoc_lCurly hopen
      exact (hone.append hinside).snoc_rCurly hclose

private theorem balanced_of_placeholders {paths : List Path} {row : List Token}
    (hrow : Items PlaceholderForm paths row) : Balanced row := by
  induction hrow with
  | nil => exact .nil
  | cons hplaceholder _ ih => exact (balanced_of_placeholder hplaceholder).append ih

/-- Placeholders that are all closed are read to their end. -/
theorem nests_placeholders_of_closes {ts : List Token} (hts : c.Reads ts d)
    (hbalanced : Balanced ts) (hcloses : ClosesPlaceholders d.rest) (heof : d.eof.kind = .eof) :
    (many (markAt .lCurly) fun _ => placeholder).NestsFrom c d := by
  obtain ⟨paths, row, rest, hrow, hitems, hend⟩ := hcloses
  let e : Cursor := ⟨row.getLast?.or d.previous, rest, d.eof⟩
  have hreads : d.Reads row e := ⟨hrow, rfl, rfl⟩
  have hpeek : e.peek.kind ≠ .punctuation .lCurly := by
    cases rest with
    | nil =>
      have hkind : e.peek.kind = .eof := heof
      rw [hkind]
      exact nofun
    | cons t ts => exact hend t rfl
  obtain ⟨_, _, hrepeats, _⟩ :=
    Repeats.of_items placeholderForm_begins (fun _ ht => ⟨markAt_eq_some_iff.2 ht, trivial⟩)
      placeholder_accepts hitems hreads (markAt_eq_none_iff.2 hpeek) trivial
  have hreturns := returns_many_iff.2 hrepeats
  rw [Rule.NestsFrom, hreturns]
  exact ⟨ts ++ row, 0, hts.trans hreads, hbalanced.append (balanced_of_placeholders hitems),
    fun _ => rfl⟩

/-- The beginning of an output statement. -/
theorem reads_head {newline : Bool} {text : String} (heof : c.eof.kind = .eof)
    (hword : c.peek.kind = .keyword (outputKeyword newline))
    (hparen : c.advance.peek.kind = .punctuation .lParen)
    (htext : c.advance.advance.peek.kind = .literal (.string text)) :
    c.Reads [c.peek, c.advance.peek, c.advance.advance.peek] c.advance.advance.advance := by
  have hone := reads_advance (rest_ne_nil_of_peek heof (by rw [hword]; exact nofun))
  have heof₁ : c.advance.eof.kind = .eof := by rw [hone.eof, heof]
  have htwo := reads_advance (rest_ne_nil_of_peek heof₁ (by rw [hparen]; exact nofun))
  have heof₂ : c.advance.advance.eof.kind = .eof := by rw [htwo.eof, heof₁]
  have hthree := reads_advance (rest_ne_nil_of_peek heof₂ (by rw [htext]; exact nofun))
  exact (hone.trans htwo).trans hthree

/-- The placeholders behind a template, read from the beginning of the output statement. -/
theorem nests_placeholders {newline : Bool} {text : String}
    (hword : c.peek.kind = .keyword (outputKeyword newline))
    (hparen : c.advance.peek.kind = .punctuation .lParen)
    (htext : c.advance.advance.peek.kind = .literal (.string text))
    (h : c.Nests c.advance.advance.advance) :
    (many (markAt .lCurly) fun _ => placeholder).NestsFrom c c.advance.advance.advance := by
  by_cases hc : c.Orderly
  · have hreads := reads_head hc.eof hword hparen htext
    have hbalanced : Balanced [c.peek, c.advance.peek, c.advance.advance.peek] := by
      apply LeavesOpen.of_not_isBrace
      simp [hword, hparen, htext, TokenKind.isBrace, TokenKind.isPunctuation]
    have heof : c.advance.advance.advance.eof.kind = .eof := by rw [hreads.eof, hc.eof]
    refine nests_placeholders_of_closes hreads hbalanced (Classical.byContradiction fun hopen => ?_) heof
    refine hc.placeholders c.rest List.suffix_rfl ?_
    exact ⟨_, _, _, _, hreads.rest, ⟨newline, hword⟩, hparen, ⟨text, htext⟩, hopen⟩
  · refine Nests.of_not_orderly (h.opens.trans ?_) hc
    refine rel_many Opens.refl Opens.trans ?_ _
    intro _ d hnext
    exact opens_placeholder (markAt_eq_some_iff.1 hnext)

/-- In an orderly text, the placeholders behind the word of an output statement are closed. -/
theorem nests_output {newline : Bool} (hword : c.peek.kind = .keyword (outputKeyword newline)) :
    (output newline).NestsFrom c c := by
  have hkeyword : c.peek.kind.isBrace = false := by rw [hword]; rfl
  refine .peek_bind ((Nests.refl c).advance_bind hkeyword fun h => ?_)
  refine .of_bind (h.call (nests_mark _ (by decide))) fun _ d _ hmark h => ?_
  obtain ⟨hparen, _, rfl, _⟩ := returns_mark_iff.1 hmark
  refine .of_bind (h.call nests_template) fun _ d _ htemplate h => ?_
  obtain ⟨htext, rfl, _⟩ := returns_template_iff.1 htemplate
  refine .of_bind (nests_placeholders hword hparen htext h) fun _ _ _ _ h => ?_
  refine h.bind nests_closeParenthesis fun _ _ h => ?_
  refine h.bind (nests_mark _ (by decide)) fun _ _ h => ?_
  exact .spanSince_bind fun _ => h.pure _

/-- Skipping keeps count of the braces, up to a place where none is open or to the end. -/
theorem exists_leavesOpen_skipToBoundary {depth : Nat} {previous : Option Token} {eof : Token}
    {skipped rest : List Token} (hskipped : LeavesOpen skipped depth) :
    let d := skipToBoundary depth previous eof rest
    ∃ used k, (⟨previous, rest, eof⟩ : Cursor).Reads used d ∧ LeavesOpen (skipped ++ used) k ∧
      (k = 0 ∨ d.rest = []) := by
  induction rest generalizing depth previous skipped with
  | nil => exact ⟨[], depth, .refl _, by rwa [List.append_nil], .inr rfl⟩
  | cons t ts ih =>
    by_cases hstop : depth = 0 ∧ isBoundary previous t
    · have hd : skipToBoundary depth previous eof (t :: ts) = ⟨previous, t :: ts, eof⟩ := by
        rw [skipToBoundary, if_pos hstop]
      rw [hd]
      exact ⟨[], depth, .refl _, by rwa [List.append_nil], .inl hstop.1⟩
    · have hd : skipToBoundary depth previous eof (t :: ts) =
          skipToBoundary (braceDepth depth t) (some t) eof ts := by
        rw [skipToBoundary, if_neg hstop]
      have hclose : depth = 0 → t.kind.isPunctuation .rCurly = false := by
        rintro rfl
        have hboundary : isBoundary previous t = false := by simpa using hstop
        simp only [isBoundary, Bool.or_eq_false_iff] at hboundary
        exact hboundary.1.2
      obtain ⟨used, k, hused, hk, hend⟩ := @ih _ (some t) _ (hskipped.snoc hclose)
      have hadvance := reads_advance (c := ⟨previous, t :: ts, eof⟩) (by simp)
      rw [hd]
      refine ⟨[t] ++ used, k, hadvance.trans hused, ?_, hend⟩
      rwa [← List.append_assoc]

/-- What leaves braces open only at the end of the text leaves none open in an orderly one. -/
theorem nests_of_end {used : List Token} {k : Nat} (hreads : c.Reads used d)
    (hused : LeavesOpen used k) (hend : k = 0 ∨ d.rest = []) : c.Nests d := by
  refine ⟨used, k, hreads, hused, fun hc => ?_⟩
  obtain hzero | hrest := hend
  · exact hzero
  · have hall : c.rest = used := by rw [hreads.rest, hrest, List.append_nil]
    have hclosed := hc.closed used (hall ▸ List.suffix_rfl)
    have htotal := hused.total
    omega

/-- Recovery keeps braces in pairs unless the token that it skips in any case closes one. -/
theorem nests_resume {stuck : Bool} (hc : stuck = true → c.peek.kind ≠ .punctuation .rCurly) :
    c.Nests (resume stuck c) := by
  obtain ⟨previous, rest, eof⟩ := c
  have hplain : (⟨previous, rest, eof⟩ : Cursor).Nests (skipToBoundary 0 previous eof rest) := by
    obtain ⟨used, k, hused, hk, hend⟩ :=
      @exists_leavesOpen_skipToBoundary 0 previous eof [] rest .nil
    exact nests_of_end hused hk hend
  cases stuck with
  | false => exact hplain
  | true =>
    cases rest with
    | nil => exact hplain
    | cons t ts =>
      have hfirst : LeavesOpen [t] (braceDepth 0 t) := by
        have ht : t.kind ≠ .punctuation .rCurly := hc rfl
        apply LeavesOpen.nil.snoc
        simpa [TokenKind.isPunctuation] using ht
      obtain ⟨used, k, hused, hk, hend⟩ :=
        @exists_leavesOpen_skipToBoundary _ (some t) eof _ ts hfirst
      have hadvance := reads_advance (c := ⟨previous, t :: ts, eof⟩) (by simp)
      exact nests_of_end (hadvance.trans hused) hk hend

/-- An attempt keeps braces in pairs, whether it succeeds or fails, unless it is made in front of a
    closing brace. -/
theorem nests_recovering {r : Rule Statement} (hr : r.Nests)
    (hc : c.peek.kind ≠ .punctuation .rCurly) : (recovering r).NestsFrom c c := by
  have hread := hr c
  obtain ⟨s, d, es, hreturns⟩ | ⟨e, d, es, hfails⟩ := Rule.returns_or_fails r c
  · rw [Rule.NestsFrom, recovering, hreturns]
    rwa [Rule.NestsFrom, hreturns] at hread
  · have hread : c.Nests d := by rwa [Rule.NestsFrom, hfails] at hread
    have hresume : d.Nests (resume (d.remaining == c.remaining) d) := by
      apply nests_resume
      intro hstuck
      obtain ⟨used, k, hused, _⟩ := hread
      have hremaining := hused.remaining_eq
      rw [beq_iff_eq] at hstuck
      have hnil : used = [] := List.length_eq_zero_iff.1 (by omega)
      rw [hnil] at hused
      rwa [hused.eq_of_nil]
    rw [Rule.NestsFrom, recovering, hfails]
    exact hread.trans hresume

/-- In an orderly text the attempts in a block end in front of the brace that closes it. -/
theorem peek_eq_rCurly_of_attempts {n : Nat} {statements : List (Option Statement)}
    {es : List ParseError} (hc : c.Orderly) (henters : c.Enters d)
    (hreturns : (many insideBlock fun _ => recovering (statement n)).Returns c.advance statements d es) :
    d.peek.kind = .punctuation .rCurly := by
  have heof : c.advance.eof.kind = .eof := by
    obtain ⟨used, hused⟩ := c.exists_reads_advance
    rw [hused.eof, hc.eof]
  have hend := next?_eq_none_of_returns_many (@Plan.loop_insideBlock n).eof heof hreturns
  obtain hclose | hlast := insideBlock_eq_none_iff.1 hend
  · exact hclose
  · obtain ⟨t, ts, hrest⟩ := List.exists_cons_of_ne_nil (henters.rest_ne_nil hc)
    obtain ⟨used, k, hused, _⟩ := henters
    have hpeek : d.peek = t := by rw [Cursor.peek, hrest, List.headD_cons]
    have hmem : t ∈ d.rest := by
      rw [hrest]
      exact List.mem_cons_self
    rw [hpeek] at hlast
    exact absurd hlast (hc.code t (hused.subset hmem))

private theorem nests_blockRule {n : Nat} (hstatement : (statement n).Nests) :
    (blockRule (statement n)).Nests := by
  intro c
  by_cases hopen : c.peek.kind = .punctuation .lCurly
  · by_cases hrest : c.rest = []
    · exact nests_of_rest_nil (.blockRule (.statement n)) hrest
    have hmark : (mark .lCurly .blockStart).Returns c c.peek.span c.advance [] :=
      returns_mark_iff.2 ⟨hopen, rfl, rfl, rfl⟩
    have hattempts : (many insideBlock fun _ => recovering (statement n)).Nests := by
      refine nests_many fun _ d hnext => ?_
      exact nests_recovering hstatement (insideBlock_eq_some_iff.1 hnext).1
    obtain ⟨statements, d, es, hrepeats⟩ :=
      @exists_repeats _ _ insideBlock _ (fun _ d => exists_returns_recovering (statement n) d) c.advance
    have hreturns := returns_many_iff.2 hrepeats
    rw [Rule.NestsFrom, blockRule, Rule.bind_apply_ok (by rw [hmark]), hmark]
    obtain ⟨_, _, _, _, _, hpair⟩ | ⟨hleft, hstop⟩ := nests_or_enters (x := .blockEnd)
      (f := fun statements _ => spanSince c.peek.span >>= fun span =>
        pure (Block.mk statements.reduceOption span)) (fun _ _ _ => rfl) hrest hopen (hattempts _)
    · exact hpair
    · refine .of_not_orderly hleft.opens fun hc => ?_
      obtain ⟨hnot, hcursor⟩ := hstop _ _ _ hreturns
      rw [hcursor] at hleft
      exact hnot (peek_eq_rCurly_of_attempts hc hleft hreturns)
  · have hmark := mark_of_ne (x := .blockStart) hopen
    rw [Rule.NestsFrom, blockRule, Rule.bind_apply_error (by rw [hmark]; rfl), hmark]
    exact Nests.refl c

section

variable {expression : Rule Expr} {conditional : Rule Conditional} {block : Rule Block}

private theorem nests_whileLoop (hexpression : expression.Nests) (hblock : block.Nests) :
    (whileLoop expression block).Nests := by
  intro c
  refine (Nests.refl c).bind (nests_keyword _) fun _ _ h => ?_
  refine h.bind (nests_mark _ (by decide)) fun _ _ h => ?_
  refine h.bind hexpression fun _ _ h => ?_
  refine h.bind nests_closeParenthesis fun _ _ h => ?_
  exact h.bind hblock fun _ _ h => .spanSince_bind fun _ => h.pure _

private theorem nests_forLoop (hexpression : expression.Nests) (hblock : block.Nests) :
    (forLoop expression block).Nests := by
  intro c
  refine (Nests.refl c).bind (nests_keyword _) fun _ _ h => ?_
  refine h.bind (nests_mark _ (by decide)) fun _ _ h => ?_
  refine h.bind (nests_forInit hexpression) fun _ _ h => ?_
  refine h.bind (nests_mark _ (by decide)) fun _ _ h => ?_
  refine h.bind hexpression fun _ _ h => ?_
  refine h.bind (nests_mark _ (by decide)) fun _ _ h => ?_
  refine h.bind (nests_update hexpression) fun _ _ h => ?_
  refine h.bind nests_closeParenthesis fun _ _ h => ?_
  exact h.bind hblock fun _ _ h => .spanSince_bind fun _ => h.pure _

private theorem nests_repeatLoop (hexpression : expression.Nests) (hblock : block.Nests) :
    (repeatLoop expression block).Nests := by
  intro c
  refine (Nests.refl c).bind (nests_keyword _) fun _ _ h => ?_
  refine h.bind hexpression fun _ _ h => ?_
  refine h.bind (nests_keyword _) fun _ _ h => ?_
  exact h.bind hblock fun _ _ h => .spanSince_bind fun _ => h.pure _

private theorem nests_otherwiseRule (hconditional : conditional.Nests) (hblock : block.Nests) :
    (otherwiseRule conditional block).Nests := by
  intro c
  refine .peek_bind ?_
  split
  · next helse =>
    rw [TokenKind.isKeyword, beq_iff_eq] at helse
    refine (Nests.refl c).advance_bind (by rw [helse]; rfl) fun h => .peek_bind ?_
    split
    · exact h.bind hconditional fun _ _ h => h.pure _
    · exact h.bind hblock fun _ _ h => h.pure _
  · exact (Nests.refl c).pure _

private theorem nests_conditionalRule (hexpression : expression.Nests)
    (hconditional : conditional.Nests)
    (hblock : block.Nests) : (conditionalRule expression conditional block).Nests := by
  intro c
  refine (Nests.refl c).bind (nests_keyword _) fun _ _ h => ?_
  refine h.bind (nests_mark _ (by decide)) fun _ _ h => ?_
  refine h.bind hexpression fun _ _ h => ?_
  refine h.bind nests_closeParenthesis fun _ _ h => ?_
  refine h.bind hblock fun _ _ h => .spanSince_bind fun _ => ?_
  refine h.bind (nests_otherwiseRule hconditional hblock) fun _ _ h => ?_
  exact .spanSince_bind fun _ => h.pure _

private theorem nests_statementRule (hexpression : expression.Nests)
    (hconditional : conditional.Nests)
    (hblock : block.Nests) : (statementRule expression conditional block).Nests := by
  intro c
  refine .peek_bind ?_
  split
  · next htype => exact .of_bind (nests_declaration hexpression true htype) fun _ _ _ _ h => h.pure _
  · exact (Nests.refl c).bind hconditional fun _ _ h => h.pure _
  · exact nests_whileLoop hexpression hblock c
  · exact nests_forLoop hexpression hblock c
  · exact nests_repeatLoop hexpression hblock c
  · next hprint => exact nests_output hprint
  · next hprintln => exact nests_output hprintln
  · exact nests_input c
  · exact nests_terminatedSimple hexpression c

end

/-- By induction on the levels that are left. -/
theorem nests_parts (n : Nat) : (statement n).Nests ∧ (conditional n).Nests ∧ (block n).Nests := by
  induction n with
  | zero => exact ⟨nests_tooDeep, nests_tooDeep, nests_tooDeep⟩
  | succ n ih =>
    obtain ⟨hstatement, hconditional, hblock⟩ := ih
    have hexpression := nests_expression n
    exact ⟨nests_statementRule hexpression hconditional hblock,
      nests_conditionalRule hexpression hconditional hblock, nests_blockRule hstatement⟩

/-- In an orderly text a statement takes whole pairs of braces. -/
theorem nests_statement (n : Nat) : (statement n).Nests := (nests_parts n).1

end GeoLang.Grammar
