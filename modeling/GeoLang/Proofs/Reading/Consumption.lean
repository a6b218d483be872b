import GeoLang.Proofs.Reading.Composed

namespace GeoLang.Grammar

/-- Reading leaves no more tokens than there were. -/
theorem Cursor.Reads.remaining_le {c d : Cursor} {used : List Token} (hreads : c.Reads used d) :
    d.remaining ≤ c.remaining := by
  have hremaining := hreads.remaining_eq
  omega

/-- No rule moves back. -/
theorem Composed.remaining_le {α : Type} {r : Rule α} (hr : Composed r) {c d : Cursor} {a : α}
    {es : List ParseError} (hreturns : r.Returns c a d es) : d.remaining ≤ c.remaining := by
  obtain ⟨used, hused⟩ := hr.exists_reads_of_returns hreturns
  exact hused.remaining_le

/-- Nor does a loop. -/
theorem Repeats.remaining_le {α β : Type} {next? : Token → Option β} {item : β → Rule α}
    (hitem : ∀ b, Composed (item b)) {c d : Cursor} {as : List α} {es : List ParseError}
    (hrepeats : Repeats next? item c as d es) : d.remaining ≤ c.remaining :=
  (Composed.many hitem).remaining_le (returns_many_iff.2 hrepeats)

private theorem remaining_skipTerminator_le (c : Cursor) (owned : Bool) :
    (c.skipTerminator owned).remaining ≤ c.remaining := by
  unfold Cursor.skipTerminator
  split
  · rw [Cursor.remaining_advance]
    omega
  · exact Nat.le_refl _

/-- A rule that consumes at least one token wherever there is one, if it succeeds. -/
def Rule.Consumes {α : Type} (r : Rule α) : Prop :=
  ∀ c a d es, 0 < c.remaining → r.Returns c a d es → d.remaining < c.remaining

section

variable {expression : Rule Expr} {conditional : Rule Conditional} {block : Rule Block}

private theorem consumes_declaration (hexpression : Composed expression) (terminated : Bool)
    (type : DataType) : (declaration expression terminated type).Consumes := by
  intro c x d es hc hreturns
  obtain ⟨_, c₁, _, _, c₂, _, hfirst, hothers, rfl, _, _⟩ := returns_declaration_iff.1 hreturns
  have hdeclarator := Composed.declarator hexpression type
  have h₁ := hdeclarator.remaining_le hfirst
  have h₂ := hothers.remaining_le fun _ => .bind .advance fun _ => hdeclarator
  have h₃ := remaining_skipTerminator_le c₂ terminated
  rw [Cursor.remaining_advance] at h₁
  omega

private theorem consumes_whileLoop (hexpression : Composed expression) (hblock : Composed block) :
    (whileLoop expression block).Consumes := by
  intro c s d es hc hreturns
  obtain ⟨_, _, _, c', _, _, _, hcondition, _, hbody, _, _⟩ := returns_whileLoop_iff.1 hreturns
  have h₁ := hexpression.remaining_le hcondition
  have h₂ := hblock.remaining_le hbody
  simp only [Cursor.remaining_advance] at h₁ h₂
  omega

private theorem consumes_forLoop (hexpression : Composed expression) (hblock : Composed block) :
    (forLoop expression block).Consumes := by
  intro c s d es hc hreturns
  obtain ⟨_, _, _, c₁, _, _, c₂, _, _, c₃, _, _, _, hinit, _, hcondition, _, hchange, _, hbody, _, _⟩ :=
    returns_forLoop_iff.1 hreturns
  have h₁ := (Composed.forInit hexpression).remaining_le hinit
  have h₂ := hexpression.remaining_le hcondition
  have h₃ := (Composed.update hexpression).remaining_le hchange
  have h₄ := hblock.remaining_le hbody
  simp only [Cursor.remaining_advance] at h₁ h₂ h₃ h₄
  omega

private theorem consumes_repeatLoop (hexpression : Composed expression) (hblock : Composed block) :
    (repeatLoop expression block).Consumes := by
  intro c s d es hc hreturns
  obtain ⟨_, _, c', _, _, _, hcount, _, hbody, _, _⟩ := returns_repeatLoop_iff.1 hreturns
  have h₁ := hexpression.remaining_le hcount
  have h₂ := hblock.remaining_le hbody
  simp only [Cursor.remaining_advance] at h₁ h₂
  omega

private theorem consumes_output (newline : Bool) : (output newline).Consumes := by
  intro c s d es hc hreturns
  obtain ⟨_, _, _, c', _, hplaceholders, _, _, rfl, _⟩ := returns_output_iff.1 hreturns
  have h₁ := hplaceholders.remaining_le fun _ => .placeholder
  simp only [Cursor.remaining_advance] at h₁ ⊢
  omega

private theorem consumes_input : input.Consumes := by
  intro c s d es hc hreturns
  obtain ⟨_, _, _, _, rfl, _, _⟩ := returns_input_iff.1 hreturns
  simp only [Cursor.remaining_advance]
  omega

private theorem consumes_terminatedSimple (hexpression : Composed expression) :
    (terminatedSimple expression).Consumes := by
  intro c s d es hc hreturns
  obtain ⟨_, c', hsimple, _, rfl, _⟩ := returns_terminatedSimple_iff.1 hreturns
  have h₁ := (Composed.simple hexpression).remaining_le hsimple
  rw [Cursor.remaining_advance]
  omega

private theorem consumes_conditionalRule (hexpression : Composed expression)
    (hconditional : Composed conditional) (hblock : Composed block) :
    (conditionalRule expression conditional block).Consumes := by
  intro c x d es hc hreturns
  obtain ⟨_, _, _, c₁, _, _, c₂, _, _, _, hcondition, _, hbody, hotherwise, _, _⟩ :=
    returns_conditionalRule_iff.1 hreturns
  have h₁ := hexpression.remaining_le hcondition
  have h₂ := hblock.remaining_le hbody
  have h₃ := (Composed.otherwiseRule hconditional hblock).remaining_le
    (returns_otherwiseRule_iff.2 hotherwise)
  simp only [Cursor.remaining_advance] at h₁ h₂
  omega

private theorem consumes_statementRule (hexpression : Composed expression) (hblock : Composed block)
    (hconditional : conditional.Consumes) :
    (statementRule expression conditional block).Consumes := by
  intro c s d es hc hreturns
  cases returns_statementRule_iff.1 hreturns with
  | declaration _ hdeclaration =>
    exact consumes_declaration hexpression true _ _ _ _ _ hc hdeclaration
  | conditional _ hif => exact hconditional _ _ _ _ hc hif
  | whileLoop _ hloop => exact consumes_whileLoop hexpression hblock _ _ _ _ hc hloop
  | forLoop _ hloop => exact consumes_forLoop hexpression hblock _ _ _ _ hc hloop
  | repeatLoop _ hloop => exact consumes_repeatLoop hexpression hblock _ _ _ _ hc hloop
  | output _ houtput => exact consumes_output _ _ _ _ _ hc houtput
  | input _ hinput => exact consumes_input _ _ _ _ hc hinput
  | simple _ hsimple => exact consumes_terminatedSimple hexpression _ _ _ _ hc hsimple

end

private theorem consumes_conditional (n : Nat) : (conditional n).Consumes := by
  cases n with
  | zero =>
    intro c x d es _ hreturns
    exact absurd hreturns not_returns_tooDeep
  | succ n =>
    exact consumes_conditionalRule (.expression n) (.conditional n) (.block n)

private theorem consumes_statement (n : Nat) : (statement n).Consumes := by
  cases n with
  | zero =>
    intro c x d es _ hreturns
    exact absurd hreturns not_returns_tooDeep
  | succ n => exact consumes_statementRule (.expression n) (.block n) (consumes_conditional n)

/-- Skipping the first token in any case makes headway. -/
theorem remaining_resume_lt {c : Cursor} (hc : 0 < c.remaining) :
    (resume true c).remaining < c.remaining := by
  obtain ⟨previous, rest, eof⟩ := c
  cases rest with
  | nil => cases hc
  | cons t ts =>
    obtain ⟨used, hused⟩ := Cursor.exists_reads_skipToBoundary (braceDepth 0 t) (some t) eof ts
    have hskip := hused.remaining_le
    exact Nat.lt_succ_of_le hskip

/-- An attempt at a statement makes headway, whether it succeeds or fails. -/
theorem remaining_recovering_lt (n : Nat) {c : Cursor} (hc : 0 < c.remaining) :
    (recovering (statement n) c).cursor.remaining < c.remaining := by
  obtain ⟨s, d, es, hreturns⟩ | ⟨e, d, es, hfails⟩ := Rule.returns_or_fails (statement n) c
  · have hlt := consumes_statement n _ _ _ _ hc hreturns
    rw [recovering, hreturns]
    exact hlt
  · obtain ⟨used, hused⟩ := (Composed.statement n).exists_reads c
    rw [hfails] at hused
    have hle : d.remaining ≤ c.remaining := hused.remaining_le
    rw [recovering, hfails]
    by_cases hstuck : d.remaining = c.remaining
    · simp only [beq_iff_eq.2 hstuck]
      rw [← hstuck] at hc ⊢
      exact remaining_resume_lt hc
    · obtain ⟨more, hmore⟩ := Cursor.exists_reads_resume false d
      have hresume := hmore.remaining_le
      simp only [beq_false_of_ne hstuck]
      omega

/-- A loop of attempts ends at a token on which no attempt is made, and not earlier. -/
theorem next?_eq_none_of_returns_many {n : Nat} {next? : Token → Option Unit}
    (hnext : ∀ t, t.kind = .eof → next? t = none) {c d : Cursor}
    {statements : List (Option Statement)} {es : List ParseError} (heof : c.eof.kind = .eof)
    (hreturns : (many next? fun _ => recovering (statement n)).Returns c statements d es) :
    next? d.peek = none := by
  refine (returns_many_iff.1 hreturns).next?_eq_none (fun c => c.eof.kind = .eof) ?_ heof
  intro b c s d fs heof hb hreturns _
  have hattempt : Composed (recovering (statement n)) := .recovering (.statement n)
  obtain ⟨used, hused⟩ := hattempt.exists_reads_of_returns hreturns
  have hpeek : c.peek.kind ≠ .eof := by
    intro hkind
    rw [hnext _ hkind] at hb
    cases hb
  have hne := Cursor.rest_ne_nil_of_peek heof hpeek
  have hlt := remaining_recovering_lt n (List.length_pos_iff.2 hne)
  rw [hreturns] at hlt
  exact ⟨by rw [hused.eof, heof], hlt⟩

/-- A program ends with the text. -/
theorem rest_eq_nil_of_returns_program {c d : Cursor} {p : Program} {es : List ParseError}
    (heof : c.eof.kind = .eof) (hcode : ∀ t ∈ c.rest, t.kind ≠ .eof)
    (hreturns : program.Returns c p d es) : d.rest = [] := by
  obtain ⟨statements, hstatements, _⟩ := returns_program_iff.1 hreturns
  obtain ⟨used, hused⟩ := Composed.program.exists_reads_of_returns hreturns
  have hend : insideProgram d.peek = none :=
    next?_eq_none_of_returns_many Plan.loop_insideProgram.eof heof
      (returns_many_iff.2 hstatements)
  cases hrest : d.rest with
  | nil => rfl
  | cons t ts =>
    have hpeek : d.peek = t := by rw [Cursor.peek, hrest, List.headD_cons]
    have hnot := hcode t (hused.subset (by rw [hrest]; exact List.mem_cons_self))
    rw [insideProgram_eq_none_iff, hpeek] at hend
    exact absurd hend hnot

end GeoLang.Grammar
