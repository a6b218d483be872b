import GeoLang.Proofs.Braces.Block

namespace GeoLang.Grammar

open Cursor

variable {c d : Cursor}

/-- A name is not the end. -/
theorem kind_ne_eof_of_isName {t : Token} (hname : t.kind.isName = true) : t.kind ≠ .eof := by
  intro hkind
  rw [hkind] at hname
  cases hname

private theorem exists_memberForm {name : String} {es : List ParseError} (heof : c.eof.kind = .eof)
    (hdot : c.peek.kind = .punctuation .dot) (hreturns : member.Returns c name d es) :
    ∃ ts, c.Reads ts d ∧ Led .dot NameForm name ts := by
  obtain ⟨hname, rfl, rfl, _⟩ := returns_member_iff.1 hreturns
  have hfirst := reads_advance (rest_ne_nil_of_peek heof (by rw [hdot]; exact nofun))
  have heof₁ : c.advance.eof.kind = .eof := by rw [hfirst.eof, heof]
  have hsecond := reads_advance (rest_ne_nil_of_peek heof₁ (kind_ne_eof_of_isName hname))
  exact ⟨_, hfirst.trans hsecond, .mk hdot (.mk hname)⟩

/-- A path that is read is a name with members behind it. -/
theorem exists_pathForm {p : Path} {es : List ParseError} (heof : c.eof.kind = .eof)
    (hreturns : path.Returns c p d es) : ∃ ts, c.Reads ts d ∧ PathForm p ts := by
  obtain ⟨hname, members, hrepeats, rfl⟩ := returns_path_iff.1 hreturns
  have hhead := reads_advance (rest_ne_nil_of_peek heof (kind_ne_eof_of_isName hname))
  have heof₁ : c.advance.eof.kind = .eof := by rw [hhead.eof, heof]
  obtain ⟨ts, hts, hitems⟩ := hrepeats.exists_items
    (fun _ _ _ _ _ hnext heof => exists_memberForm heof (markAt_eq_some_iff.1 hnext)) heof₁
  exact ⟨[c.peek] ++ ts, hhead.trans hts, .mk hname hitems⟩

private theorem exists_placeholderForm {p : Path} {es : List ParseError} (heof : c.eof.kind = .eof)
    (hopen : c.peek.kind = .punctuation .lCurly) (hreturns : placeholder.Returns c p d es) :
    ∃ ts, c.Reads ts d ∧ PlaceholderForm p ts := by
  obtain ⟨d', hpath, hclose, rfl⟩ := returns_placeholder_iff.1 hreturns
  have hhead := reads_advance (rest_ne_nil_of_peek heof (by rw [hopen]; exact nofun))
  have heof₁ : c.advance.eof.kind = .eof := by rw [hhead.eof, heof]
  obtain ⟨ts, hts, hform⟩ := exists_pathForm heof₁ hpath
  have heof₂ : d'.eof.kind = .eof := by rw [hts.eof, heof₁]
  have hend := reads_advance (rest_ne_nil_of_peek heof₂ (by rw [hclose]; exact nofun))
  exact ⟨[c.peek] ++ (ts ++ [d'.peek]), hhead.trans (hts.trans hend), .mk hopen hform hclose⟩

private theorem closesPlaceholders_of_returns {paths : List Path} {es : List ParseError}
    (heof : c.eof.kind = .eof)
    (hreturns : (many (markAt .lCurly) fun _ => placeholder).Returns c paths d es) :
    ClosesPlaceholders c.rest := by
  have hrepeats := returns_many_iff.1 hreturns
  have hform : ∀ b (c : Cursor) p d es, markAt .lCurly c.peek = some b → c.eof.kind = .eof →
      placeholder.Returns c p d es → ∃ ts, c.Reads ts d ∧ PlaceholderForm p ts :=
    fun _ _ _ _ _ hnext heof => exists_placeholderForm heof (markAt_eq_some_iff.1 hnext)
  obtain ⟨row, hrow, hitems⟩ := hrepeats.exists_items hform heof
  have hend : markAt .lCurly d.peek = none := by
    refine hrepeats.next?_eq_none (fun c => c.eof.kind = .eof) ?_ heof
    intro b c p d es heof hnext hreturns _
    obtain ⟨ts, hts, ⟨_, _, _⟩⟩ := hform b c p d es hnext heof hreturns
    have hremaining := hts.remaining_eq
    rw [List.length_cons] at hremaining
    exact ⟨by rw [hts.eof, heof], by omega⟩
  refine ⟨paths, row, d.rest, hrow.rest, hitems, fun t ht => ?_⟩
  have hpeek : d.peek = t := by
    rw [Cursor.peek, List.headD_eq_head?_getD, Option.mem_def.1 ht, Option.getD_some]
  rw [← hpeek]
  exact markAt_eq_none_iff.1 hend

/-- A row of placeholders of which one is not closed cannot be read, and its brace is left open. -/
theorem exists_fails_placeholders (heof : c.eof.kind = .eof) (hopen : ¬ ClosesPlaceholders c.rest) :
    ∃ e d es used k, (many (markAt .lCurly) fun _ => placeholder).Fails c e d es ∧
      c.Reads used d ∧ LeavesOpen used (k + 1) := by
  obtain ⟨paths, d, es, hreturns⟩ | ⟨e, d, es, hfails⟩ :=
    Rule.returns_or_fails (many (markAt .lCurly) fun _ => placeholder) c
  · exact absurd (closesPlaceholders_of_returns heof hreturns) hopen
  obtain ⟨_, c', es', hnext, ⟨used, j, hused, hj⟩, hfails'⟩ :=
    exists_fails_of_many Opens.refl Opens.trans
      (fun _ d hnext => opens_placeholder (markAt_eq_some_iff.1 hnext)) hfails
  have hkind := markAt_eq_some_iff.1 hnext
  have heof' : c'.eof.kind = .eof := by rw [hused.eof, heof]
  have hne := rest_ne_nil_of_peek heof' (by rw [hkind]; exact nofun)
  obtain ⟨more, k, hmore, hk, _⟩ := enters_of_fails_placeholder hne hkind hfails'
  exact ⟨e, d, es, used ++ more, j + k, hfails, hused.trans hmore, hj.append hk⟩

private theorem fails_output {newline : Bool} {text : String} {e : ParseError}
    {es : List ParseError}
    (hparen : c.advance.peek.kind = .punctuation .lParen)
    (htext : c.advance.advance.peek.kind = .literal (.string text))
    (hfails : (many (markAt .lCurly) fun _ => placeholder).Fails c.advance.advance.advance e d es) :
    (output newline).Fails c e d es := by
  have hmark : (mark .lParen .outputHeader).Returns c.advance c.advance.peek.span
      c.advance.advance [] := returns_mark_iff.2 ⟨hparen, rfl, rfl, rfl⟩
  have htemplate : template.Returns c.advance.advance text c.advance.advance.advance [] :=
    returns_template_iff.2 ⟨htext, rfl, rfl⟩
  refine Rule.fails_bind_iff.2 (.inr ⟨_, c, [], es, rfl, ?_, rfl⟩)
  refine Rule.fails_bind_iff.2 (.inr ⟨_, c.advance, [], es, rfl, ?_, rfl⟩)
  refine Rule.fails_bind_iff.2 (.inr ⟨_, _, [], es, hmark, ?_, rfl⟩)
  refine Rule.fails_bind_iff.2 (.inr ⟨_, _, [], es, htemplate, ?_, rfl⟩)
  exact Rule.fails_bind_iff.2 (.inl hfails)

private theorem statement_of_output {newline : Bool} {n : Nat}
    (hword : c.peek.kind = .keyword (outputKeyword newline)) :
    statement (n + 1) c = output newline c := by
  have hpeek : (peek c).result = .ok c.peek := rfl
  change statementRule (expression n) (conditional n) (block n) c = _
  rw [statementRule, Rule.bind_apply_ok hpeek]
  cases newline with
  | false => simp only [show c.peek.kind = .keyword .printKw from hword]; rfl
  | true => simp only [show c.peek.kind = .keyword .printlnKw from hword]; rfl

/-- An attempt at an output statement with a placeholder that is not closed consumes more opening
    braces than closing ones. -/
theorem exists_leavesOpen_recovering {n : Nat} (heof : c.eof.kind = .eof)
    (hunclosed : BeginsUnclosed c.rest) :
    ∃ used k, c.Reads used (recovering (statement (n + 1)) c).cursor ∧ LeavesOpen used (k + 1) := by
  obtain ⟨word, paren, template, rest, hrest, ⟨newline, hword⟩, hparen, ⟨text, htext⟩, hopen⟩ :=
    hunclosed
  obtain ⟨previous, _, eof⟩ := c
  obtain rfl : _ = word :: paren :: template :: rest := hrest
  let c : Cursor := ⟨previous, word :: paren :: template :: rest, eof⟩
  let behind : Cursor := ⟨some template, rest, eof⟩
  have hhead : c.Reads [word, paren, template] behind := ⟨rfl, rfl, rfl⟩
  have hplain : Balanced [word, paren, template] := by
    apply LeavesOpen.of_not_isBrace
    simp [hword, hparen, htext, TokenKind.isBrace, TokenKind.isPunctuation]
  obtain ⟨e, d, es, row, j, hfails, hrow, hj⟩ := @exists_fails_placeholders behind heof hopen
  have hoverall : (statement (n + 1)).Fails c e d es := by
    rw [Rule.Fails, statement_of_output (c := c) hword]
    exact fails_output hparen htext hfails
  have hread := hhead.trans hrow
  have hstuck : (d.remaining == c.remaining) = false := by
    have hremaining := hread.remaining_eq
    rw [List.length_append] at hremaining
    simp only [List.length_cons, List.length_nil] at hremaining
    rw [beq_eq_false_iff_ne]
    omega
  obtain ⟨skipped, k, hskipped, hk, _⟩ := @nests_resume d false (absurd · Bool.false_ne_true)
  rw [recovering, hoverall, hstuck]
  have hall := (hplain.append hj).append hk
  refine ⟨_, j + k, hread.trans hskipped, ?_⟩
  rwa [show 0 + (j + 1) + k = j + k + 1 by omega] at hall

end GeoLang.Grammar
