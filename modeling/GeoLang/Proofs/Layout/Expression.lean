import GeoLang.Proofs.Checks.Expression
import GeoLang.Proofs.Layout.Order
import GeoLang.Proofs.Spelling.Expression

namespace GeoLang.Grammar

variable {α β : Type}

/-- The tokens to come stand in the order of the text. -/
structure Cursor.InOrder (c : Cursor) : Prop where
  eof : c.eof.kind = .eof
  rest : InSourceOrder c.rest

namespace Cursor

/-- Reading keeps the tokens ahead in the order of the text. -/
theorem InOrder.of_reads {c d : Cursor} {used : List Token} (hc : c.InOrder)
    (hreads : c.Reads used d) : d.InOrder where
  eof := hreads.eof ▸ hc.eof
  rest := (hreads.rest ▸ hc.rest).right

/-- The tokens that were consumed are in that order too. -/
theorem InOrder.used {c d : Cursor} {used : List Token} (hc : c.InOrder)
    (hreads : c.Reads used d) : InSourceOrder used :=
  (hreads.rest ▸ hc.rest).left

/-- What `spanSince` gives on the span of the first of the tokens that were consumed, or of a
    construct that begins with it, bounds all of them. -/
theorem Reads.bounds_spanSince {c d : Cursor} {us vs : List Token} {start : Span}
    (hreads : c.Reads (us ++ vs) d) (hordered : InSourceOrder (us ++ vs)) (hstart : start.Bounds us) :
    (d.spanSince start).Bounds (us ++ vs) := by
  obtain ⟨first, hfirst, stop, hstop, rfl⟩ := hstart
  have hhead : first ∈ (us ++ vs).head? := by
    rw [List.head?_append, hfirst]
    rfl
  cases hlast : vs.getLast? with
  | none =>
    obtain rfl := List.getLast?_eq_none_iff.1 hlast
    rw [List.append_nil] at *
    have hprevious : d.previous = some stop := by rw [hreads.previous, hstop, Option.some_or]
    refine ⟨first, hhead, stop, hstop, ?_⟩
    have hle := hordered.start_head_le hfirst (List.mem_of_getLast? hstop)
    simp [spanSince, hprevious, Span.merge, Nat.not_lt.2 hle]
  | some last =>
    have hwhole : (us ++ vs).getLast? = some last := by
      rw [List.getLast?_append, hlast, Option.some_or]
    have hprevious : d.previous = some last := by rw [hreads.previous, hwhole, Option.some_or]
    have hmem := List.mem_of_getLast? hwhole
    have hstart := hordered.start_head_le hhead hmem
    have hforward := hordered.start_lt_stop hmem
    have hbefore := (List.pairwise_append.1 hordered.before).2.2 stop (List.mem_of_getLast? hstop) last
      (List.mem_of_getLast? hlast)
    unfold Span.Before at hbefore
    refine ⟨first, hhead, last, hwhole, ?_⟩
    simp only [spanSince, hprevious, Span.merge]
    rw [if_pos (by omega), if_neg (by omega), if_pos (by omega)]

/-- The tokens between `c` and `d` are those of a part of a construct, if they stand in the order of
    the text. -/
def Lays (c : Cursor) (part : List Token → Prop) (d : Cursor) : Prop :=
  c.InOrder → ∃ used, c.Reads used d ∧ part used

namespace Lays

variable {c c' d : Cursor} {part first second : List Token → Prop}
  {parts : List (List Token → Prop)} {a b start : Span} {x : Terminal}

/-- Weakening what is known of the tokens between. -/
theorem mono {weaker : List Token → Prop} (hpart : c.Lays part d)
    (himplies : ∀ ts, part ts → weaker ts) : c.Lays weaker d := by
  intro hc
  obtain ⟨used, hused, hover⟩ := hpart hc
  exact ⟨used, hused, himplies used hover⟩

/-- Tokens that are spelled stand over themselves. -/
theorem of_spells {xs : List Terminal} (hspells : c.Spells xs d) : c.Lays (Written xs) d :=
  fun hc => hspells hc.eof

theorem nil (c : Cursor) : c.Lays (InTurn []) c := fun _ => ⟨[], .refl c, rfl⟩

/-- One more part in front. -/
theorem cons (hpart : c.Lays part c') (hparts : c'.Lays (InTurn parts) d) :
    c.Lays (InTurn (part :: parts)) d := by
  intro hc
  obtain ⟨used, hused, hover⟩ := hpart hc
  obtain ⟨more, hmore, hrest⟩ := hparts (hc.of_reads hused)
  exact ⟨used ++ more, hused.trans hmore, used, more, rfl, hover, hrest⟩

theorem last (hpart : c.Lays part d) : c.Lays (InTurn [part]) d := hpart.cons (nil d)

/-- The current token, and the parts behind it. -/
theorem token (hfits : x.Fits c.peek) (hparts : c.advance.Lays (InTurn parts) d) :
    c.Lays (InTurn (Written [x] :: parts)) d :=
  (of_spells (.token hfits)).cons hparts

/-- The parts of a construct, with the span that bounds the tokens of them all. -/
theorem encloses (hparts : c.Lays (InTurn parts) d)
    (hbounds : ∀ ts, c.Reads ts d → InSourceOrder ts → InTurn parts ts → a.Bounds ts) :
    c.Lays (a.Encloses parts) d := by
  intro hc
  obtain ⟨used, hused, hover⟩ := hparts hc
  exact ⟨used, hused, hbounds used hused (hc.used hused) hover, hover⟩

/-- A construct whose span reaches from that of its first part to the token consumed last. -/
theorem since (hpart : c.Lays part c') (hstart : ∀ ts, part ts → start.Bounds ts)
    (hparts : c'.Lays (InTurn parts) d) : c.Lays ((d.spanSince start).Encloses (part :: parts)) d := by
  refine (hpart.cons hparts).encloses ?_
  rintro _ hreads hordered ⟨us, vs, rfl, hus, -⟩
  exact hreads.bounds_spanSince hordered (hstart us hus)

/-- A construct whose span reaches from the current token to the token consumed last. -/
theorem fromPeek (hparts : c.Lays (InTurn (part :: parts)) d) (hne : ∀ ts, part ts → ts ≠ []) :
    c.Lays ((d.spanSince c.peek.span).Encloses (part :: parts)) d := by
  refine hparts.encloses ?_
  rintro _ hreads hordered ⟨us, vs, rfl, hus, -⟩
  cases us with
  | nil => exact absurd rfl (hne [] hus)
  | cons t us =>
    have hreads : c.Reads ([t] ++ (us ++ vs)) d := hreads
    obtain ⟨-, rfl⟩ := hreads.of_cons
    exact hreads.bounds_spanSince hordered (Span.bounds_singleton c.peek)

/-- Just the current token is consumed. -/
theorem peek (hfits : x.Fits c.peek) : c.Lays (· = [c.peek]) c.advance :=
  fun hc => ⟨[c.peek], reads_advance (rest_ne_nil_of_peek hc.eof hfits.kind_ne_eof), rfl⟩

/-- A construct that begins with the current token. -/
theorem opened (hfits : x.Fits c.peek) (hparts : c.advance.Lays (InTurn parts) d) :
    c.Lays ((d.spanSince c.peek.span).Encloses (Written [x] :: parts)) d := by
  refine (((peek hfits).cons hparts).fromPeek ?_).mono ?_
  · rintro _ rfl
    exact List.cons_ne_nil _ _
  · rintro _ ⟨hbounds, _, vs, rfl, rfl, hvs⟩
    exact ⟨hbounds, _, vs, rfl, .token hfits .nil, hvs⟩

/-- A construct that is just the current token. -/
theorem single (hfits : x.Fits c.peek) :
    c.Lays (c.peek.span.Encloses [Written [x]]) c.advance := by
  refine (peek hfits).mono ?_
  rintro _ rfl
  exact ⟨Span.bounds_singleton c.peek, [c.peek], [], rfl, .token hfits .nil, rfl⟩

/-- Two constructs with a token between them, and the least span around both. -/
theorem joined (hfirst : c.Lays first c') (ha : ∀ ts, first ts → a.Bounds ts)
    (hfits : x.Fits c'.peek) (hsecond : c'.advance.Lays second d)
    (hb : ∀ ts, second ts → b.Bounds ts) :
    c.Lays ((a.merge b).Encloses [first, Written [x], second]) d := by
  refine (hfirst.cons (.token hfits hsecond.last)).encloses ?_
  rintro _ - hordered ⟨us, _, rfl, hus, ws, _, rfl, -, vs, _, rfl, hvs, rfl⟩
  rw [List.append_nil] at hordered ⊢
  exact (ha us hus).merge (hb vs hvs) hordered

end Lays

end Cursor

/-- If each run of an item reads the tokens of its value, all of them read those of their values in
    turn. -/
theorem Repeats.lays {next? : Token → Option β} {item : β → Rule α} {covers : α → List Token → Prop}
    {c d : Cursor} {as : List α} {es : List ParseError} (hrepeats : Repeats next? item c as d es)
    (hitem : ∀ b c a d es, next? c.peek = some b → (item b).Returns c a d es → c.Lays (covers a) d) :
    c.Lays (InTurn (as.map covers)) d := by
  induction hrepeats with
  | stop => exact .nil _
  | stuck hnext hreturns => exact (hitem _ _ _ _ _ hnext hreturns).last
  | more hnext hreturns _ _ ih => exact (hitem _ _ _ _ _ hnext hreturns).cons ih

/-- The value that a rule gives stands over the tokens that it consumes. -/
def Rule.Lays (r : Rule α) (covers : α → List Token → Prop) : Prop :=
  ∀ c a d es, r.Returns c a d es → c.Lays (covers a) d

/-- Below the last level there is nothing to stand over. -/
theorem tooDeep_lays {covers : α → List Token → Prop} : (tooDeep : Rule α).Lays covers :=
  fun _ _ _ _ hreturns => absurd hreturns not_returns_tooDeep

/-- Paths stand over their tokens. -/
theorem path_lays : path.Lays Path.Over := by
  intro c p d es hreturns
  have hclean : Clean es := by
    rw [path_notes _ _ _ _ hreturns]
    exact List.forall_mem_nil _
  have hspells := path_spells _ _ _ _ hreturns hclean
  obtain ⟨_, members, _, rfl⟩ := returns_path_iff.1 hreturns
  refine (Cursor.Lays.of_spells hspells).last.fromPeek ?_
  rintro _ (_ | _)
  exact List.cons_ne_nil _ _

section

variable {factor expression : Rule Expr} (hexpression : expression.Lays Expr.Over)

include hexpression

/-- Arguments stand over theirs, parentheses and commas included. -/
theorem arguments_lays : (arguments expression).Lays Expr.ArgumentsOver := by
  intro c args d es hreturns
  cases returns_arguments_iff.1 hreturns with
  | none hopen hclose => exact .token hopen (.token hclose (.nil _))
  | @some first others c' d _ _ hopen _ hfirst hothers hclose =>
    have hothers : c'.Lays (Expr.OthersOver others) d := by
      have hnext : c'.Lays (InTurn (others.map fun e => InTurn [Written [.mark .comma], e.Over])) d := by
        refine hothers.lays ?_
        intro _ c e d es hcomma hargument
        have he := hexpression _ _ _ _ (returns_argument_iff.1 hargument)
        exact .token (markAt_eq_some_iff.1 hcomma) he.last
      exact hnext.mono fun _ => Expr.othersOver_iff.2
    exact .token hopen (.cons (hexpression _ _ _ _ hfirst) (.cons hothers (.token hclose (.nil _))))

private theorem pathExpression_lays : (pathExpression expression).Lays Expr.Over := by
  intro c e d es hreturns
  cases returns_pathExpression_iff.1 hreturns with
  | call hpath hargs =>
    have hargs := arguments_lays hexpression _ _ _ _ hargs
    exact (path_lays _ _ _ _ hpath).since (fun _ hover => hover.1) hargs.last
  | post hpath hstep =>
    obtain ⟨hop, _⟩ := stepAt_eq_some_iff.1 hstep
    exact (path_lays _ _ _ _ hpath).since (fun _ hover => hover.1) (.token hop (.nil _))
  | path hpath => exact path_lays _ _ _ _ hpath

private theorem factorRule_lays (hfactor : factor.Lays Expr.Over) :
    (factorRule factor expression).Lays Expr.Over := by
  intro c e d es hreturns
  cases returns_factorRule_iff.1 hreturns with
  | unary hop _ hoperand =>
    have hfits : (Terminal.operator _).Fits c.peek := TokenKind.operator?_eq_some_iff.2 ⟨_, hop⟩
    exact .opened hfits (hfactor _ _ _ _ hoperand).last
  | literal hliteral => exact .single hliteral
  | grouped hopen hinner hclose =>
    exact .opened hopen (.cons (hexpression _ _ _ _ hinner) (.token hclose (.nil _)))
  | reserved hword _ hargs => exact .opened hword (arguments_lays hexpression _ _ _ _ hargs).last
  | path _ _ hpath => exact pathExpression_lays hexpression _ _ _ _ (returns_pathExpression_iff.2 hpath)

end

section

variable {operand : Nat → Rule Expr} (hoperand : ∀ least, (operand least).Lays Expr.Over)

include hoperand

/-- A row that is joined to its next operand stands over both, and over the operator. -/
theorem join_lays {least : Nat} {joint : Operator × Nat} {c c' d : Cursor} {lhs : Expr}
    {l : Operator × Expr} {es : List ParseError} (hlhs : c.Lays lhs.Over c')
    (hjoint : jointAt least c'.peek = some joint) (hlink : (link operand joint).Returns c' l d es) :
    c.Lays (lhs.join l).Over d := by
  obtain ⟨rhs, hrhs, rfl⟩ := returns_link_iff.1 hlink
  obtain ⟨hop, _, _⟩ := jointAt_eq_some_iff.1 hjoint
  have hrhs := hoperand _ _ _ _ _ hrhs
  exact hlhs.joined (fun _ hover => hover.bounds) hop hrhs fun _ hover => hover.bounds

/-- Each operand that is joined moves the end of the whole expression on. -/
theorem Cursor.Lays.foldl_join {least : Nat} {c c' d : Cursor} {lhs : Expr}
    {links : List (Operator × Expr)} {es : List ParseError} (hlhs : c.Lays lhs.Over c')
    (hlinks : Repeats (jointAt least) (link operand) c' links d es) :
    c.Lays (links.foldl Expr.join lhs).Over d := by
  induction hlinks generalizing lhs with
  | stop => exact hlhs
  | stuck hjoint hlink => exact join_lays hoperand hlhs hjoint hlink
  | more hjoint hlink _ _ ih => exact ih (join_lays hoperand hlhs hjoint hlink)

private theorem binaryRule_lays {factor : Rule Expr} (hfactor : factor.Lays Expr.Over)
    (least : Nat) :
    (binaryRule factor operand least).Lays Expr.Over := by
  intro c e d es hreturns
  obtain ⟨lhs, c', es₁, links, es₂, hlhs, hlinks, rfl, rfl⟩ := returns_binaryRule_iff.1 hreturns
  exact .foldl_join hoperand (hfactor _ _ _ _ hlhs) hlinks

end

private theorem binary_and_factor_lay (n : Nat) :
    (∀ least, (binary n least).Lays Expr.Over) ∧ (factor n).Lays Expr.Over := by
  induction n with
  | zero => exact ⟨fun _ => tooDeep_lays, tooDeep_lays⟩
  | succ n ih =>
    obtain ⟨hbinary, hfactor⟩ := ih
    exact ⟨binaryRule_lays hbinary hfactor, factorRule_lays (hbinary 1) hfactor⟩

/-- By induction on the levels that are left. -/
theorem expression_lays (n : Nat) : (expression n).Lays Expr.Over := (binary_and_factor_lay n).1 1

end GeoLang.Grammar
