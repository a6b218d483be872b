import GeoLang.Proofs.Sentence.Program

namespace GeoLang.Grammar

/-- The tokens in front of a gap, and those behind it. -/
abbrev Frame := List Token → List Token → Prop

/-- The header of a loop, up to its block. -/
inductive HeaderForm (expression : Language Expr) : List Token → Prop
  | whileLoop {condition : Expr} {t u v : Token} {ts : List Token}
      (hword : t.kind = .keyword .whileKw) (hopen : u.kind = .punctuation .lParen)
      (hcondition : expression condition ts) (hclose : v.kind = .punctuation .rParen) :
      HeaderForm expression (t :: u :: (ts ++ [v]))
  | forLoop {init : ForInit} {condition : Expr} {update : Simple} {t u v w x : Token}
      {ts us vs : List Token} (hword : t.kind = .keyword .forKw)
      (hopen : u.kind = .punctuation .lParen) (hinit : ForInitForm expression init ts)
      (hinitEnd : v.kind = .punctuation .semicolon) (hcondition : expression condition us)
      (hconditionEnd : w.kind = .punctuation .semicolon) (hupdate : UpdateForm expression update vs)
      (hclose : x.kind = .punctuation .rParen) :
      HeaderForm expression (t :: u :: (ts ++ v :: (us ++ w :: (vs ++ [x]))))
  | repeatLoop {count : Expr} {t u : Token} {ts : List Token} (hword : t.kind = .keyword .repeatKw)
      (hcount : expression count ts) (htimes : u.kind = .keyword .timesKw) :
      HeaderForm expression (t :: (ts ++ [u]))

/-- A gap between statements: in the place of one of them, or inside of it. -/
inductive ItemsFrame (statements : Language Statement) (here : Prop) (statement : Frame) : Frame
  | here {before after : List Statement} {ts us : List Token} (hhere : here)
      (hbefore : Items statements before ts) (hafter : Items statements after us) :
      ItemsFrame statements here statement ts us
  | inside {before after : List Statement} {ts us vs ws : List Token}
      (hbefore : Items statements before ts) (hframe : statement us vs)
      (hafter : Items statements after ws) :
      ItemsFrame statements here statement (ts ++ us) (vs ++ ws)

/-- A gap between the statements of a block. -/
inductive BlockFrame (items : Frame) : Frame
  | mk {t u : Token} {ts us : List Token} (hopen : t.kind = .punctuation .lCurly)
      (hframe : items ts us) (hclose : u.kind = .punctuation .rCurly) :
      BlockFrame items (t :: ts) (us ++ [u])

/-- A gap behind `else`. -/
inductive OtherwiseFrame (conditional block : Frame) : Frame
  | conditional {t : Token} {ts us : List Token} (helse : t.kind = .keyword .elseKw)
      (hframe : conditional ts us) : OtherwiseFrame conditional block (t :: ts) us
  | block {t : Token} {ts us : List Token} (helse : t.kind = .keyword .elseKw)
      (hframe : block ts us) : OtherwiseFrame conditional block (t :: ts) us

/-- A gap in the block of a conditional, or in what follows that block. -/
inductive ConditionalFrame (expression : Language Expr) (conditionals : Language Conditional)
    (blocks : Language Block) (conditional block : Frame) : Frame
  | body {condition : Expr} {otherwise : Otherwise} {t u v : Token} {ts us vs ws : List Token}
      (hword : t.kind = .keyword .ifKw) (hopen : u.kind = .punctuation .lParen)
      (hcondition : expression condition ts) (hclose : v.kind = .punctuation .rParen)
      (hframe : block us vs) (hotherwise : OtherwiseForm conditionals blocks otherwise ws) :
      ConditionalFrame expression conditionals blocks conditional block
        (t :: u :: (ts ++ v :: us)) (vs ++ ws)
  | otherwise {condition : Expr} {body : Block} {t u v : Token} {ts us vs ws : List Token}
      (hword : t.kind = .keyword .ifKw) (hopen : u.kind = .punctuation .lParen)
      (hcondition : expression condition ts) (hclose : v.kind = .punctuation .rParen)
      (hbody : blocks body us) (hframe : OtherwiseFrame conditional block vs ws) :
      ConditionalFrame expression conditionals blocks conditional block
        (t :: u :: (ts ++ v :: (us ++ vs))) ws

inductive StatementFrame (expression : Language Expr) (conditional block : Frame) : Frame
  | conditional {ts us : List Token} (hframe : conditional ts us) :
      StatementFrame expression conditional block ts us
  | loop {ts us vs : List Token} (hheader : HeaderForm expression ts) (hframe : block us vs) :
      StatementFrame expression conditional block (ts ++ us) vs

mutual

/-- Statements of no more than `n` levels with a gap in which `m` levels are left. -/
def StatementEncloses (m : Nat) : (n : Nat) → Frame
  | 0 => fun _ _ => False
  | n + 1 => StatementFrame (ExpressionDerives n) (ConditionalEncloses m n) (BlockEncloses m n)

/-- Conditionals of no more than `n` levels with a gap in which `m` levels are left. -/
def ConditionalEncloses (m : Nat) : (n : Nat) → Frame
  | 0 => fun _ _ => False
  | n + 1 => ConditionalFrame (ExpressionDerives n) (ConditionalDerives n) (BlockDerives n)
      (ConditionalEncloses m n) (BlockEncloses m n)

/-- Blocks of no more than `n` levels with a gap in which `m` levels are left. -/
def BlockEncloses (m : Nat) : (n : Nat) → Frame
  | 0 => fun _ _ => False
  | n + 1 => BlockFrame (ItemsFrame (StatementDerives n) (n = m) (StatementEncloses m n))

end

/-- Programs with a gap in which `m` levels are left. -/
def ProgramEncloses (m : Nat) : Frame :=
  ItemsFrame (StatementDerives maxNesting) (maxNesting = m) (StatementEncloses m maxNesting)

/-- An attempt at a statement with `n` levels left, from `c` to `d`. -/
structure Attempted (n : Nat) (c d : Cursor) (es : List ParseError) : Prop where
  returns : ∃ s, (recovering (statement n)).Returns c s d es
  begins : BeginsStatement c.peek
  remaining : 0 < c.remaining

/-- The rule reads what stands around a gap from `gap` to `behind`, where the errors `es` are noted,
    and notes none besides but wrong types and numbers of arguments. -/
def Rule.ReadsAround {α : Type} (r : Rule α) (frame : Frame) (follows : Token → Prop)
    (gap behind : Cursor) (es : List ParseError) : Prop :=
  ∀ c front back d, frame front back → c.Reads front gap → behind.Reads back d → follows d.peek →
    ∃ a noted more, r.Returns c a d (noted ++ (es ++ more)) ∧ Clean noted ∧ Clean more

/-- Whatever stands in front of the gap begins with such a token. -/
def Frame.Begins (frame : Frame) (first : Token → Prop) : Prop :=
  ∀ front back, frame front back → ∃ t us, front = t :: us ∧ first t

/-- A conditional begins with its word, wherever its gap is. -/
theorem conditionalEncloses_begins (m n : Nat) :
    (ConditionalEncloses m n).Begins fun t => t.kind = .keyword .ifKw := by
  cases n with
  | zero => exact fun _ _ hframe => hframe.elim
  | succ n =>
    intro front back hframe
    cases hframe with
    | body hword | otherwise hword => exact ⟨_, _, rfl, hword⟩

/-- A block begins with its brace, wherever its gap is. -/
theorem blockEncloses_begins (m n : Nat) :
    (BlockEncloses m n).Begins fun t => t.kind = .punctuation .lCurly := by
  cases n with
  | zero => exact fun _ _ hframe => hframe.elim
  | succ n =>
    rintro front back ⟨hopen⟩
    exact ⟨_, _, rfl, hopen⟩

/-- A statement with a gap begins as a statement. -/
theorem statementEncloses_begins (m n : Nat) : (StatementEncloses m n).Begins BeginsStatement := by
  cases n with
  | zero => exact fun _ _ hframe => hframe.elim
  | succ n =>
    intro front back hframe
    cases hframe with
    | conditional hframe =>
      obtain ⟨t, us, rfl, hword⟩ := conditionalEncloses_begins m n _ _ hframe
      exact ⟨t, us, rfl, by simp [hword], by simp [hword], by simp [hword]⟩
    | loop hheader =>
      cases hheader with
      | whileLoop hword | forLoop hword | repeatLoop hword =>
        exact ⟨_, _, rfl, by simp [hword], by simp [hword], by simp [hword]⟩

section

variable {expression : Rule Expr} {conditional : Rule Conditional} {block : Rule Block}
  {expressions : Language Expr} {conditionals : Language Conditional} {blocks : Language Block}
  {conditionalFrame blockFrame : Frame} {gap behind : Cursor} {gs : List ParseError}
  (hexpression : expression.Accepts Expr.bare expressions (EndsRow 1))
  (hbegins : expressions.Begins fun t => t.kind.startsOperand = true)
  (hassigns : expressions.NeverAssigns)
  (hconditional : conditional.ReadsAround conditionalFrame (fun t => t.kind ≠ .keyword .elseKw)
    gap behind gs)
  (hblock : block.ReadsAround blockFrame (fun _ => True) gap behind gs)

include hexpression hbegins hassigns

omit hblock in
/-- Behind the header of a loop its block is read, and with it the loop. -/
theorem HeaderForm.exists_returns {c c' : Cursor} {ts : List Token}
    (hheader : HeaderForm expressions ts) (hreads : c.Reads ts c') :
    ∃ es, Clean es ∧ ∀ body d fs, block.Returns c' body d fs →
      ∃ s, (statementRule expression conditional block).Returns c s d (es ++ fs) := by
  cases hheader with
  | whileLoop hword hopen hcondition hclose =>
    obtain ⟨c₁, rfl, rfl, hreadsCondition, rfl, hend⟩ := hreads.of_parenthesized
    obtain rfl := hend.eq_of_nil
    have hbehind : EndsRow 1 c₁.peek := .of_punctuation hclose (by simp) (by simp)
    obtain ⟨condition, es, hreturns, _, hclean⟩ :=
      hexpression _ _ _ _ hcondition hreadsCondition hbehind
    refine ⟨es, hclean, fun body d fs hbody => ?_⟩
    have hloop := returns_whileLoop_iff.2
      ⟨hword, hopen, condition, c₁, es, body, fs, hreturns, hclose, hbody, rfl, rfl⟩
    exact ⟨_, returns_statementRule_iff.2 (.whileLoop hword hloop)⟩
  | forLoop hword hopen hinit hinitEnd hcondition hconditionEnd hupdate hclose =>
    obtain ⟨c₁, rfl, rfl, hreadsInit, rfl, hinside₁⟩ := hreads.of_parenthesized
    obtain ⟨c₂, hreadsCondition, rfl, hinside₂⟩ := hinside₁.of_append_cons
    obtain ⟨c₃, hreadsUpdate, hrest₃⟩ := hinside₂.of_append
    obtain ⟨rfl, rfl⟩ := hrest₃.of_singleton
    obtain ⟨init, es, hreturnsInit, _, hcleanInit⟩ :=
      forInit_accepts hexpression hassigns hbegins _ _ _ _ hinit hreadsInit hinitEnd
    have hbehind : EndsRow 1 c₂.peek := .of_punctuation hconditionEnd (by simp) (by simp)
    obtain ⟨condition, fs, hreturns, _, hclean⟩ :=
      hexpression _ _ _ _ hcondition hreadsCondition hbehind
    obtain ⟨change, gs, hreturnsUpdate, _, hcleanUpdate⟩ :=
      update_accepts hexpression _ _ _ _ hupdate hreadsUpdate hclose
    refine ⟨es ++ (fs ++ gs), hcleanInit.append (hclean.append hcleanUpdate), ?_⟩
    intro body d hs hbody
    have hloop := returns_forLoop_iff.2 ⟨hword, hopen, init, c₁, es, condition, c₂, fs, change, c₃, gs,
      body, hs, hreturnsInit, hinitEnd, hreturns, hconditionEnd, hreturnsUpdate, hclose, hbody, rfl, rfl⟩
    rw [List.append_assoc, List.append_assoc]
    exact ⟨_, returns_statementRule_iff.2 (.forLoop hword hloop)⟩
  | repeatLoop hword hcount htimes =>
    obtain ⟨hinside, rfl⟩ := hreads.of_cons
    obtain ⟨c₁, hreadsCount, hend⟩ := hinside.of_append
    obtain ⟨rfl, rfl⟩ := hend.of_singleton
    obtain ⟨count, es, hreturns, _, hclean⟩ :=
      hexpression _ _ _ _ hcount hreadsCount (.of_keyword htimes)
    refine ⟨es, hclean, fun body d fs hbody => ?_⟩
    have hloop := returns_repeatLoop_iff.2
      ⟨hword, count, c₁, es, body, fs, hreturns, htimes, hbody, rfl, rfl⟩
    exact ⟨_, returns_statementRule_iff.2 (.repeatLoop hword hloop)⟩

include hconditional hblock

private theorem statementRule_readsAround
    (hframes : conditionalFrame.Begins fun t => t.kind = .keyword .ifKw) :
    (statementRule expression conditional block).ReadsAround
      (StatementFrame expressions conditionalFrame blockFrame) (fun t => t.kind ≠ .keyword .elseKw)
      gap behind gs := by
  intro c front back d hframe hfront hback hfollows
  cases hframe with
  | conditional hframe =>
    obtain ⟨x, noted, more, hreturns, hnoted, hmore⟩ := hconditional _ _ _ _ hframe hfront hback hfollows
    obtain ⟨t, us, rfl, hword⟩ := hframes _ _ hframe
    obtain ⟨_, rfl⟩ := hfront.of_cons
    exact ⟨_, noted, more, returns_statementRule_iff.2 (.conditional hword hreturns), hnoted, hmore⟩
  | loop hheader hframe =>
    obtain ⟨c', hreadsHeader, hreadsFront⟩ := hfront.of_append
    obtain ⟨es, hclean, hloop⟩ := hheader.exists_returns hexpression hbegins hassigns hreadsHeader
    obtain ⟨body, noted, more, hreturns, hnoted, hmore⟩ :=
      hblock _ _ _ _ hframe hreadsFront hback trivial
    obtain ⟨s, hstatement⟩ := hloop body d _ hreturns
    rw [← List.append_assoc] at hstatement
    exact ⟨s, es ++ noted, more, hstatement, hclean.append hnoted, hmore⟩

omit hbegins hassigns

omit hexpression in
private theorem otherwiseRule_readsAround
    (hconditionals : conditionalFrame.Begins fun t => t.kind = .keyword .ifKw)
    (hblocks : blockFrame.Begins fun t => t.kind = .punctuation .lCurly) :
    (otherwiseRule conditional block).ReadsAround (OtherwiseFrame conditionalFrame blockFrame)
      (fun t => t.kind ≠ .keyword .elseKw) gap behind gs := by
  intro c front back d hframe hfront hback hfollows
  cases hframe with
  | conditional helse hframe =>
    obtain ⟨hrest, rfl⟩ := hfront.of_cons
    obtain ⟨x, noted, more, hreturns, hnoted, hmore⟩ := hconditional _ _ _ _ hframe hrest hback hfollows
    obtain ⟨t, us, rfl, hword⟩ := hconditionals _ _ hframe
    obtain ⟨_, rfl⟩ := hrest.of_cons
    exact ⟨_, noted, more, returns_otherwiseRule_iff.2 (.conditional helse hword hreturns), hnoted, hmore⟩
  | block helse hframe =>
    obtain ⟨hrest, rfl⟩ := hfront.of_cons
    obtain ⟨x, noted, more, hreturns, hnoted, hmore⟩ := hblock _ _ _ _ hframe hrest hback trivial
    obtain ⟨t, us, rfl, hopen⟩ := hblocks _ _ hframe
    obtain ⟨_, rfl⟩ := hrest.of_cons
    have hif : c.advance.peek.kind ≠ .keyword .ifKw := by simp [hopen]
    exact ⟨_, noted, more, returns_otherwiseRule_iff.2 (.block helse hif hreturns), hnoted, hmore⟩

private theorem conditionalRule_readsAround
    (hconditionalAccepts : conditional.Accepts Conditional.bare conditionals
      fun t => t.kind ≠ .keyword .elseKw)
    (hblockAccepts : block.Accepts Block.bare blocks fun _ => True)
    (hconditionals : conditionals.Begins fun t => t.kind = .keyword .ifKw)
    (hblocks : blocks.Begins fun t => t.kind = .punctuation .lCurly)
    (hconditionalFrames : conditionalFrame.Begins fun t => t.kind = .keyword .ifKw)
    (hblockFrames : blockFrame.Begins fun t => t.kind = .punctuation .lCurly) :
    (conditionalRule expression conditional block).ReadsAround
      (ConditionalFrame expressions conditionals blocks conditionalFrame blockFrame)
      (fun t => t.kind ≠ .keyword .elseKw) gap behind gs := by
  intro c front back d hframe hfront hback hfollows
  cases hframe with
  | body hword hopen hcondition hclose hframe hotherwise =>
    obtain ⟨c₁, rfl, rfl, hreadsCondition, rfl, hreadsFront⟩ := hfront.of_parenthesized
    obtain ⟨c₂, hreadsBack, hreadsOtherwise⟩ := hback.of_append
    have hend : EndsRow 1 c₁.peek := .of_punctuation hclose (by simp) (by simp)
    obtain ⟨condition, es, hreturns, _, hclean⟩ :=
      hexpression _ _ _ _ hcondition hreadsCondition hend
    obtain ⟨body, noted, more, hreturnsBody, hnoted, hmore⟩ :=
      hblock _ _ _ _ hframe hreadsFront hreadsBack trivial
    obtain ⟨otherwise, fs, hreturnsOtherwise, _, hcleanOtherwise⟩ :=
      otherwiseRule_accepts hconditionalAccepts hconditionals hblockAccepts hblocks _ _ _ _ hotherwise
        hreadsOtherwise hfollows
    have hrule := returns_conditionalRule_iff.2 ⟨hword, hopen, condition, c₁, es, body, c₂, _,
      otherwise, fs, hreturns, hclose, hreturnsBody, returns_otherwiseRule_iff.1 hreturnsOtherwise,
      rfl, rfl⟩
    have hsplit : es ++ (noted ++ (gs ++ more) ++ fs) = es ++ noted ++ (gs ++ (more ++ fs)) := by
      simp only [List.append_assoc]
    rw [hsplit] at hrule
    exact ⟨_, es ++ noted, more ++ fs, hrule, hclean.append hnoted, hmore.append hcleanOtherwise⟩
  | otherwise hword hopen hcondition hclose hbody hframe =>
    obtain ⟨c₁, rfl, rfl, hreadsCondition, rfl, hrest₂⟩ := hfront.of_parenthesized
    obtain ⟨c₂, hreadsBody, hreadsFront⟩ := hrest₂.of_append
    have hend : EndsRow 1 c₁.peek := .of_punctuation hclose (by simp) (by simp)
    obtain ⟨condition, es, hreturns, _, hclean⟩ :=
      hexpression _ _ _ _ hcondition hreadsCondition hend
    obtain ⟨body, fs, hreturnsBody, _, hcleanBody⟩ := hblockAccepts _ _ _ _ hbody hreadsBody trivial
    obtain ⟨otherwise, noted, more, hreturnsOtherwise, hnoted, hmore⟩ :=
      otherwiseRule_readsAround hconditional hblock hconditionalFrames hblockFrames _ _ _ _ hframe
        hreadsFront hback hfollows
    have hrule := returns_conditionalRule_iff.2 ⟨hword, hopen, condition, c₁, es, body, c₂, fs,
      otherwise, _, hreturns, hclose, hreturnsBody, returns_otherwiseRule_iff.1 hreturnsOtherwise,
      rfl, rfl⟩
    have hsplit : es ++ (fs ++ (noted ++ (gs ++ more))) = es ++ (fs ++ noted) ++ (gs ++ more) := by
      simp only [List.append_assoc]
    rw [hsplit] at hrule
    exact ⟨_, es ++ (fs ++ noted), more, hrule, hclean.append (hcleanBody.append hnoted), hmore⟩

end

/-- Statements are read in front of an attempt and behind it, whatever the attempt gives. -/
theorem exists_repeats_around {n : Nat} {next? : Token → Option Unit}
    (hnext : ∀ t, BeginsStatement t → next? t = some ()) {c c₁ c₂ d : Cursor}
    {before after : List Statement} {ts us : List Token} {s : Option Statement}
    {es : List ParseError} (hbefore : Items (StatementDerives n) before ts) (hts : c.Reads ts c₁)
    (hbegins : BeginsStatement c₁.peek) (hremaining : 0 < c₁.remaining)
    (hattempt : (recovering (statement n)).Returns c₁ s c₂ es)
    (hafter : Items (StatementDerives n) after us) (hus : c₂.Reads us d)
    (hend : next? d.peek = none) (helse : d.peek.kind ≠ .keyword .elseKw) :
    ∃ attempts noted more,
      Repeats next? (fun _ => recovering (statement n)) c attempts d (noted ++ (es ++ more)) ∧
        Clean noted ∧ Clean more := by
  have hstatement := (statement_and_parts_accept n).1
  have hless : c₂.remaining < c₁.remaining := by
    have hlt := remaining_recovering_lt n hremaining
    rwa [hattempt] at hlt
  obtain ⟨_, noted, hleads, _, hnoted⟩ :=
    Leads.of_items (attemptForm_begins (statementDerives_begins n))
      (fun t ht => ⟨hnext t ht, ht.notElse⟩) (recovering_accepts hstatement) hbefore.attempts hts
      hbegins.notElse
  obtain ⟨_, more, hrepeats, _, hmore⟩ :=
    exists_repeats_recovering (statementDerives_begins n) hnext hstatement hafter hus hend helse
  have hmiddle := Repeats.more (hnext _ hbegins) hattempt hless hrepeats
  exact ⟨_, noted, more, hleads.repeats hmiddle, hnoted, hmore⟩

/-- The attempts of a loop read what stands in front of the gap, the gap and what stands behind
    it. -/
theorem ItemsFrame.exists_repeats {m n : Nat} {gap behind : Cursor} {gs : List ParseError}
    {statementFrame : Frame} (hattempt : Attempted m gap behind gs)
    (hstatement : (statement n).ReadsAround statementFrame (fun t => t.kind ≠ .keyword .elseKw)
      gap behind gs)
    (hframes : statementFrame.Begins BeginsStatement) {next? : Token → Option Unit}
    (hnext : ∀ t, BeginsStatement t → next? t = some ()) {c d : Cursor} {front back : List Token}
    (hframe : ItemsFrame (StatementDerives n) (n = m) statementFrame front back)
    (hfront : c.Reads front gap) (hback : behind.Reads back d) (hend : next? d.peek = none)
    (helse : d.peek.kind ≠ .keyword .elseKw) :
    ∃ attempts noted more,
      Repeats next? (fun _ => recovering (statement n)) c attempts d (noted ++ (gs ++ more)) ∧
        Clean noted ∧ Clean more := by
  cases hframe with
  | here hhere hbefore hafter =>
    obtain ⟨⟨s, hreturns⟩, hbegins, hremaining⟩ := hattempt
    rw [← hhere] at hreturns
    exact exists_repeats_around hnext hbefore hfront hbegins hremaining hreturns hafter hback hend helse
  | inside hbefore hframe hafter =>
    obtain ⟨c₁, hts, hreadsFront⟩ := hfront.of_append
    obtain ⟨c₂, hreadsBack, hus⟩ := hback.of_append
    have hbehind : c₂.peek.kind ≠ .keyword .elseKw :=
      hafter.follows (statementDerives_begins n) (fun _ ht => ht.notElse) hus helse
    obtain ⟨s, noted, more, hreturns, hnoted, hmore⟩ :=
      hstatement _ _ _ _ hframe hreadsFront hreadsBack hbehind
    have hbegins : BeginsStatement c₁.peek := by
      obtain ⟨t, us, rfl, ht⟩ := hframes _ _ hframe
      rwa [hreadsFront.of_cons.2]
    have hremaining : 0 < c₁.remaining := by
      have hpos := hattempt.remaining
      rw [hreadsFront.remaining_eq]
      omega
    obtain ⟨attempts, noted', more', hrepeats, hnoted', hmore'⟩ :=
      exists_repeats_around hnext hbefore hts hbegins hremaining
        (returns_recovering_iff.2 (.read hreturns)) hafter hus hend helse
    refine ⟨attempts, noted' ++ noted, more ++ more', ?_, hnoted'.append hnoted, hmore.append hmore'⟩
    simpa using hrepeats

private theorem blockRule_readsAround {m n : Nat} {gap behind : Cursor} {gs : List ParseError}
    {statementFrame : Frame} (hattempt : Attempted m gap behind gs)
    (hstatement : (statement n).ReadsAround statementFrame (fun t => t.kind ≠ .keyword .elseKw)
      gap behind gs)
    (hframes : statementFrame.Begins BeginsStatement) :
    (blockRule (statement n)).ReadsAround
      (BlockFrame (ItemsFrame (StatementDerives n) (n = m) statementFrame)) (fun _ => True)
      gap behind gs := by
  rintro c front back d ⟨hopen, hframe, hclose⟩ hfront hback _
  obtain ⟨hreadsFront, rfl⟩ := hfront.of_cons
  obtain ⟨c', hreadsBack, hend⟩ := hback.of_append
  obtain ⟨rfl, rfl⟩ := hend.of_singleton
  have hnext : ∀ t, BeginsStatement t → insideBlock t = some () := fun t ht =>
    insideBlock_eq_some_iff.2 ⟨ht.notEnd, ht.notEof⟩
  have hstop : insideBlock c'.peek = none := insideBlock_eq_none_iff.2 (.inl hclose)
  obtain ⟨attempts, noted, more, hrepeats, hnoted, hmore⟩ :=
    hframe.exists_repeats hattempt hstatement hframes hnext hreadsFront hreadsBack hstop
      (by simp [hclose])
  have hrule := returns_blockRule_iff.2 ⟨hopen, attempts, c', hrepeats, hclose, rfl, rfl⟩
  exact ⟨_, noted, more, hrule, hnoted, hmore⟩

private theorem statement_and_parts_readAround {m : Nat} {gap behind : Cursor}
    {gs : List ParseError}
    (hattempt : Attempted m gap behind gs) (n : Nat) :
    (statement n).ReadsAround (StatementEncloses m n) (fun t => t.kind ≠ .keyword .elseKw)
        gap behind gs ∧
      (conditional n).ReadsAround (ConditionalEncloses m n) (fun t => t.kind ≠ .keyword .elseKw)
        gap behind gs ∧
      (block n).ReadsAround (BlockEncloses m n) (fun _ => True) gap behind gs := by
  induction n with
  | zero =>
    exact ⟨fun _ _ _ _ hframe => hframe.elim, fun _ _ _ _ hframe => hframe.elim,
      fun _ _ _ _ hframe => hframe.elim⟩
  | succ n ih =>
    obtain ⟨hstatement, hconditional, hblock⟩ := ih
    obtain ⟨_, hconditionalAccepts, hblockAccepts⟩ := statement_and_parts_accept n
    have hconditionalFrames := conditionalEncloses_begins m n
    refine ⟨?_, ?_, ?_⟩
    · exact statementRule_readsAround (expression_accepts n) (rowDerives_begins n 1)
        (rowDerives_neverAssigns n 1) hconditional hblock hconditionalFrames
    · exact conditionalRule_readsAround (expression_accepts n) hconditional hblock
        hconditionalAccepts hblockAccepts (conditionalDerives_begins n) (blockDerives_begins n)
        hconditionalFrames (blockEncloses_begins m n)
    · exact blockRule_readsAround hattempt hstatement (statementEncloses_begins m n)

/-- A program is read around a gap in it. -/
theorem exists_returns_around {m : Nat} {c gap behind d : Cursor} {gs : List ParseError}
    {front back : List Token} (hattempt : Attempted m gap behind gs)
    (hframe : ProgramEncloses m front back) (hfront : c.Reads front gap)
    (hback : behind.Reads back d) (heof : d.peek.kind = .eof) :
    ∃ p noted more, program.Returns c p d (noted ++ (gs ++ more)) ∧ Clean noted ∧ Clean more := by
  have hnext : ∀ t, BeginsStatement t → insideProgram t = some () := fun t ht =>
    insideProgram_eq_some_iff.2 ht.notEof
  obtain ⟨attempts, noted, more, hrepeats, hnoted, hmore⟩ :=
    hframe.exists_repeats hattempt (statement_and_parts_readAround hattempt maxNesting).1
      (statementEncloses_begins m maxNesting) hnext hfront hback (insideProgram_eq_none_iff.2 heof)
      (by simp [heof])
  exact ⟨_, noted, more, returns_program_iff.2 ⟨attempts, hrepeats, rfl⟩, hnoted, hmore⟩

end GeoLang.Grammar
