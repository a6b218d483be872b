import GeoLang.Proofs.Braces.Block
import GeoLang.Proofs.Braces.Pairs
import GeoLang.Proofs.Depth.Frame
import GeoLang.Proofs.Spelling.Statement

namespace GeoLang.Grammar

variable {α : Type} {n : Nat} {s : Statement} {ts : List Token}

/-- From the start of a text to its end. -/
theorem Cursor.reads_text (ts : List Token) (eof : Token) :
    Cursor.Reads ⟨none, ts, eof⟩ ts ⟨ts.getLast?, [], eof⟩ :=
  ⟨by rw [List.append_nil], rfl, by rw [Option.or_none]⟩

/-- A text that is derived is read to its end. -/
theorem StatementDerives.exists_returns {eof : Token} (hs : StatementDerives n s ts)
    (heof : eof.kind = .eof) :
    ∃ x es, (statement n).Returns ⟨none, ts, eof⟩ x ⟨ts.getLast?, [], eof⟩ es ∧ Clean es := by
  have helse : (Cursor.mk ts.getLast? [] eof).peek.kind ≠ .keyword .elseKw := by
    simp [Cursor.peek, heof]
  obtain ⟨x, es, hreturns, _, hclean⟩ :=
    (statement_and_parts_accept n).1 _ _ _ _ hs (Cursor.reads_text ts eof) helse
  exact ⟨x, es, hreturns, hclean⟩

private theorem StatementDerives.exists_spelled (hs : StatementDerives n s ts) :
    ∃ x : Statement, Written x.terminals ts := by
  have heof : (Token.eofAt .start).kind = .eof := rfl
  obtain ⟨x, es, hreturns, hclean⟩ := hs.exists_returns heof
  obtain ⟨used, hused, hwritten⟩ := (statement_and_parts_spell n).1 _ _ _ _ hreturns hclean heof
  have hts : ts = used := by simpa using hused.rest
  exact ⟨x, hts ▸ hwritten⟩

/-- No end of text and no comment is part of a statement. -/
theorem StatementDerives.isCode (hs : StatementDerives n s ts) :
    ∀ t ∈ ts, t.kind ≠ .eof ∧ t.kind.isComment = false := by
  obtain ⟨x, hwritten⟩ := hs.exists_spelled
  intro t ht
  obtain ⟨_, _, hfits⟩ := hwritten.exists_fits t ht
  exact ⟨hfits.kind_ne_eof, hfits.isComment_eq_false⟩

/-- A statement closes the braces that it opens, and no others. -/
theorem StatementDerives.balanced (hs : StatementDerives n s ts) : Balanced ts := by
  have heof : (Token.eofAt .start).kind = .eof := rfl
  obtain ⟨x, hwritten⟩ := hs.exists_spelled
  obtain ⟨_, _, hreturns, _⟩ := hs.exists_returns heof
  obtain ⟨used, k, hused, hk⟩ := (nests_statement n ⟨none, ts, .eofAt .start⟩).opens
  rw [hreturns] at hused
  have hts : ts = used := by simpa using hused.rest
  rw [← hts] at hk
  have htotal := opening_eq_closing_of_written x.paired_terminals hwritten
  exact ⟨hk.within, htotal⟩

/-- Balanced items in a row are balanced. -/
theorem Items.balanced {item : Language α} {as : List α}
    (hitem : ∀ a us, item a us → Balanced us) (has : Items item as ts) : Balanced ts := by
  induction has with
  | nil => exact .nil
  | cons ha _ ih => exact (hitem _ _ ha).append ih

/-- Two rows of items make one. -/
theorem Items.append {item : Language α} {as bs : List α} {us : List Token}
    (has : Items item as ts) (hbs : Items item bs us) : Items item (as ++ bs) (ts ++ us) := by
  induction has with
  | nil => exact hbs
  | cons hitem _ ih =>
    rw [List.cons_append, List.append_assoc]
    exact .cons hitem ih

/-- What stands in front of a gap and what stands behind it are together in the language. -/
def Frame.Joins (frame : Frame) (language : Language α) : Prop :=
  ∀ front back, frame front back → ∃ a, language a (front ++ back)

private theorem ItemsFrame.exists_items {statements : Language Statement} {here : Prop}
    {statement : Frame} (hstatement : statement.Joins statements) {front back : List Token}
    (hframe : ItemsFrame statements here statement front back) :
    ∃ ss, Items statements ss (front ++ back) := by
  cases hframe with
  | here _ hbefore hafter => exact ⟨_, hbefore.append hafter⟩
  | inside hbefore hframe hafter =>
    obtain ⟨s, hs⟩ := hstatement _ _ hframe
    have hall := hbefore.append (Items.cons hs hafter)
    exact ⟨_, by simpa only [List.append_assoc] using hall⟩

section

variable {expressions : Language Expr} {conditionals : Language Conditional} {blocks : Language Block}
  {conditional block : Frame} (hconditional : conditional.Joins conditionals)
  (hblock : block.Joins blocks)

include hconditional hblock

private theorem statementFrame_joins : (StatementFrame expressions conditional block).Joins
    (StatementForm expressions conditionals blocks) := by
  intro front back hframe
  cases hframe with
  | conditional hframe =>
    obtain ⟨c, hc⟩ := hconditional _ _ hframe
    exact ⟨_, .conditional hc⟩
  | loop hheader hframe =>
    obtain ⟨b, hb⟩ := hblock _ _ hframe
    cases hheader with
    | whileLoop hword hopen hcondition hclose =>
      have hloop : WhileForm expressions blocks (.whileLoop _ b .none) _ :=
        .mk hword hopen hcondition hclose hb
      exact ⟨_, .whileLoop (by simpa using hloop)⟩
    | forLoop hword hopen hinit hinitEnd hcondition hconditionEnd hupdate hclose =>
      have hloop : ForForm expressions blocks (.forLoop _ _ _ b .none) _ :=
        .mk hword hopen hinit hinitEnd hcondition hconditionEnd hupdate hclose hb
      exact ⟨_, .forLoop (by simpa using hloop)⟩
    | repeatLoop hword hcount htimes =>
      have hloop : RepeatForm expressions blocks (.repeatLoop _ b .none) _ :=
        .mk hword hcount htimes hb
      exact ⟨_, .repeatLoop (by simpa using hloop)⟩

private theorem otherwiseFrame_joins :
    (OtherwiseFrame conditional block).Joins (OtherwiseForm conditionals blocks) := by
  intro front back hframe
  cases hframe with
  | conditional helse hframe =>
    obtain ⟨c, hc⟩ := hconditional _ _ hframe
    exact ⟨_, .conditional helse hc⟩
  | block helse hframe =>
    obtain ⟨b, hb⟩ := hblock _ _ hframe
    exact ⟨_, .block helse hb⟩

private theorem conditionalFrame_joins :
    (ConditionalFrame expressions conditionals blocks conditional block).Joins
      (ConditionalForm expressions conditionals blocks) := by
  intro front back hframe
  cases hframe with
  | body hword hopen hcondition hclose hframe hotherwise =>
    obtain ⟨b, hb⟩ := hblock _ _ hframe
    have hform : ConditionalForm expressions conditionals blocks (.mk _ b .none _ .none) _ :=
      .mk hword hopen hcondition hclose hb hotherwise
    exact ⟨_, by simpa using hform⟩
  | otherwise hword hopen hcondition hclose hbody hframe =>
    obtain ⟨o, ho⟩ := otherwiseFrame_joins hconditional hblock _ _ hframe
    have hform : ConditionalForm expressions conditionals blocks (.mk _ _ .none o .none) _ :=
      .mk hword hopen hcondition hclose hbody ho
    exact ⟨_, by simpa using hform⟩

end

private theorem statement_and_parts_join (m n : Nat) :
    (StatementEncloses m n).Joins (StatementDerives n) ∧
      (ConditionalEncloses m n).Joins (ConditionalDerives n) ∧
        (BlockEncloses m n).Joins (BlockDerives n) := by
  induction n with
  | zero =>
    exact ⟨fun _ _ hframe => hframe.elim, fun _ _ hframe => hframe.elim,
      fun _ _ hframe => hframe.elim⟩
  | succ n ih =>
    obtain ⟨hstatement, hconditional, hblock⟩ := ih
    refine ⟨statementFrame_joins hconditional hblock, conditionalFrame_joins hconditional hblock, ?_⟩
    rintro front back ⟨hopen, hframe, hclose⟩
    obtain ⟨ss, hss⟩ := hframe.exists_items hstatement
    have hblock : BlockDerives (n + 1) (.mk ss .none) _ := BlockForm.mk hopen hss hclose
    exact ⟨_, by simpa only [List.cons_append, List.append_assoc] using hblock⟩

/-- What stands around a gap in a program closes the braces that it opens. -/
theorem ProgramEncloses.balanced {m : Nat} {front back : List Token}
    (hframe : ProgramEncloses m front back) : Balanced (front ++ back) := by
  obtain ⟨ss, hss⟩ := ItemsFrame.exists_items (statement_and_parts_join m maxNesting).1 hframe
  exact hss.balanced fun _ _ hs => hs.balanced

end GeoLang.Grammar
