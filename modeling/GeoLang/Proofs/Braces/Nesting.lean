import GeoLang.Proofs.Braces.Count
import GeoLang.Proofs.Reading.Composed
import GeoLang.Proofs.Sentence.Grammar

namespace GeoLang.Grammar

/-- The tokens begin with placeholders that are closed, and no brace is opened behind them. -/
def ClosesPlaceholders (ts : List Token) : Prop :=
  ∃ paths row rest, ts = row ++ rest ∧ Items PlaceholderForm paths row ∧
    ∀ t ∈ rest.head?, t.kind ≠ .punctuation .lCurly

/-- The tokens begin with an output statement that has a placeholder which is not closed. -/
def BeginsUnclosed (ts : List Token) : Prop :=
  ∃ word paren template rest, ts = word :: paren :: template :: rest ∧
    (∃ newline, word.kind = .keyword (outputKeyword newline)) ∧
      paren.kind = .punctuation .lParen ∧ (∃ s, template.kind = .literal (.string s)) ∧
        ¬ ClosesPlaceholders rest

/-- The placeholders of all output statements are closed, wherever they begin. -/
def PlaceholdersClosed (ts : List Token) : Prop := ∀ us, us <:+ ts → ¬ BeginsUnclosed us

/-- The rest of a balanced text, in which the placeholders of all output statements are closed. -/
structure Cursor.Orderly (c : Cursor) : Prop where
  closed : ∀ ts, ts <:+ c.rest → opening ts ≤ closing ts
  placeholders : PlaceholdersClosed c.rest
  code : ∀ t ∈ c.rest, t.kind ≠ .eof
  eof : c.eof.kind = .eof

/-- On the way from `c` to `d` only braces are closed that are opened on it, and in an orderly text
    none is left open. -/
def Cursor.Nests (c d : Cursor) : Prop :=
  ∃ used k, c.Reads used d ∧ LeavesOpen used k ∧ (c.Orderly → k = 0)

/-- The same on the way from `start` to where the rule stops if it is run at `c`, whether it
    succeeds or fails. -/
def Rule.NestsFrom {α : Type} (r : Rule α) (start c : Cursor) : Prop := start.Nests (r c).cursor

/-- A rule that takes whole pairs of braces, wherever it begins. -/
def Rule.Nests {α : Type} (r : Rule α) : Prop := ∀ c, r.NestsFrom c c

variable {α β : Type} {start c d e : Cursor}

/-- What remains of an orderly text is orderly. -/
theorem Cursor.Orderly.of_reads (hc : c.Orderly) {used : List Token} (hreads : c.Reads used d) :
    d.Orderly where
  closed ts hts := hc.closed ts (hts.trans hreads.suffix)
  placeholders us hus := hc.placeholders us (hus.trans hreads.suffix)
  code t ht := hc.code t (hreads.subset ht)
  eof := by rw [hreads.eof, hc.eof]

namespace Cursor.Nests

theorem refl (c : Cursor) : c.Nests c := ⟨[], 0, .refl c, .nil, fun _ => rfl⟩

theorem trans (hfirst : c.Nests d) (hsecond : d.Nests e) : c.Nests e := by
  obtain ⟨used, j, hused, hj, hj_zero⟩ := hfirst
  obtain ⟨more, k, hmore, hk, hk_zero⟩ := hsecond
  refine ⟨used ++ more, j + k, hused.trans hmore, hj.append hk, ?_⟩
  intro hc
  have hj' := hj_zero hc
  have hk' := hk_zero (hc.of_reads hused)
  omega

/-- Any token but a brace may be consumed. -/
theorem advance (h : start.Nests c) (hbrace : c.peek.kind.isBrace = false) :
    start.Nests c.advance := by
  refine h.trans ?_
  by_cases hrest : c.rest = []
  · rw [advance_of_rest_nil hrest]
    exact .refl c
  · exact ⟨[c.peek], 0, reads_advance hrest, LeavesOpen.nil.snoc_other hbrace, fun _ => rfl⟩

/-- One rule inside of another, where braces are whole so far. -/
theorem call {r : Rule α} (h : start.Nests c) (hr : r.Nests) : r.NestsFrom start c :=
  h.trans (hr c)

theorem pure (h : start.Nests c) (a : α) : (pure a : Rule α).NestsFrom start c := h

theorem unexpected (h : start.Nests c) (x : Expectation) :
    (unexpected x : Rule α).NestsFrom start c := h

/-- Rules in turn: the second one goes on where the first one stopped. -/
theorem of_bind {r : Rule α} {f : α → Rule β} (hfirst : r.NestsFrom start c)
    (hrest : ∀ a d es, r.Returns c a d es → start.Nests d → (f a).NestsFrom start d) :
    (r >>= f).NestsFrom start c := by
  unfold Rule.NestsFrom at hfirst ⊢
  obtain ⟨a, d, es, hreturns⟩ | ⟨e, d, es, hfails⟩ := Rule.returns_or_fails r c
  · rw [hreturns] at hfirst
    have hrest := hrest a d es hreturns hfirst
    rw [Rule.bind_apply_ok (by rw [hreturns]), hreturns]
    exact hrest
  · rwa [Rule.bind_apply_error (by rw [hfails])]

/-- The same for a first rule that nests wherever it begins. -/
theorem bind {r : Rule α} {f : α → Rule β} (h : start.Nests c) (hr : r.Nests)
    (hrest : ∀ a d, start.Nests d → (f a).NestsFrom start d) : (r >>= f).NestsFrom start c :=
  of_bind (h.call hr) fun a d _ _ => hrest a d

theorem peek_bind {f : Token → Rule β} (hrest : (f c.peek).NestsFrom start c) :
    (Grammar.peek >>= f).NestsFrom start c := hrest

theorem peekSecond_bind {f : Token → Rule β} (hrest : (f c.second).NestsFrom start c) :
    (peekSecond >>= f).NestsFrom start c := hrest

theorem atAssignment_bind {f : Bool → Rule β} (hrest : ∀ b, (f b).NestsFrom start c) :
    (atAssignment >>= f).NestsFrom start c := hrest _

theorem spanSince_bind {f : Span → Rule β} {span : Span} (hrest : ∀ s, (f s).NestsFrom start c) :
    (Grammar.spanSince span >>= f).NestsFrom start c := hrest _

/-- A step over a token that is no brace. -/
theorem advance_bind {f : Unit → Rule β} (h : start.Nests c) (hbrace : c.peek.kind.isBrace = false)
    (hrest : start.Nests c.advance → (f ()).NestsFrom start c.advance) :
    (Grammar.advance >>= f).NestsFrom start c := hrest (h.advance hbrace)

end Cursor.Nests

open Cursor (Nests)

/-- Only the two marks are braces. -/
theorem isBrace_of_isPunctuation {k : TokenKind} {p : Punctuation} (hk : k.isPunctuation p = true)
    (hp : p ≠ .lCurly ∧ p ≠ .rCurly) : k.isBrace = false := by
  rw [TokenKind.isPunctuation, beq_iff_eq] at hk
  simp [hk, TokenKind.isBrace, TokenKind.isPunctuation, hp]

theorem isBrace_of_isName {k : TokenKind} (hname : k.isName = true) : k.isBrace = false := by
  cases k with
  | punctuation p => simp [TokenKind.isName] at hname
  | _ => rfl

/-- Every mark but a brace nests. -/
theorem nests_mark {p : Punctuation} (x : Expectation) (hp : p ≠ .lCurly ∧ p ≠ .rCurly) :
    (mark p x).Nests := by
  intro c
  refine .peek_bind ?_
  split
  · next hmark =>
    exact (Nests.refl c).advance_bind (isBrace_of_isPunctuation hmark hp) fun h => h.pure _
  · exact (Nests.refl c).unexpected x

theorem nests_keyword (word : Keyword) : (keyword word).Nests := by
  intro c
  refine .peek_bind ?_
  split
  · next hword =>
    rw [TokenKind.isKeyword, beq_iff_eq] at hword
    exact (Nests.refl c).advance_bind (by rw [hword]; rfl) fun h => h.pure _
  · exact (Nests.refl c).unexpected _

theorem nests_closeParenthesis : closeParenthesis.Nests := by
  intro c
  refine .peek_bind ?_
  split
  · next hclose =>
    have hbrace := isBrace_of_isPunctuation hclose (by decide)
    exact (Nests.refl c).advance_bind hbrace fun h => h.pure _
  · exact Nests.refl c

theorem nests_name (x : Expectation) : (name x).Nests := by
  intro c
  refine .peek_bind ?_
  split
  · next hname => exact (Nests.refl c).advance_bind (isBrace_of_isName hname) fun h => h.pure _
  · exact (Nests.refl c).unexpected x

/-- A loop nests when its turns do, by induction on the tokens that remain. -/
theorem nests_many {next? : Token → Option β} {item : β → Rule α}
    (hitem : ∀ b (c : Cursor), next? c.peek = some b → (item b).NestsFrom c c) :
    (many next? item).Nests :=
  rel_many Nests.refl Nests.trans hitem

/-- Items with a punctuation mark in front of each. -/
theorem nests_many_led {p : Punctuation} {item : Rule α} (hp : p ≠ .lCurly ∧ p ≠ .rCurly)
    (hitem : item.Nests) : (many (markAt p) fun _ => advance >>= fun _ => item).Nests := by
  refine nests_many fun _ c hnext => ?_
  have hmark : c.peek.kind.isPunctuation p = true := by
    rw [markAt_eq_some_iff.1 hnext, TokenKind.isPunctuation, beq_self_eq_true]
  exact (Nests.refl c).advance_bind (isBrace_of_isPunctuation hmark hp) fun h => h.call hitem

/-- Paths have no braces, and neither have arguments and expressions. -/
theorem nests_path : path.Nests := by
  intro c
  refine .peek_bind ?_
  refine (Nests.refl c).bind (nests_name _) fun _ _ hname => ?_
  refine hname.bind (nests_many_led (by decide) (nests_name _)) fun _ _ h => ?_
  exact .spanSince_bind fun _ => h.pure _

section

variable {expression factor : Rule Expr}

theorem nests_arguments (hexpression : expression.Nests) : (arguments expression).Nests := by
  intro c
  refine (Nests.refl c).bind (nests_mark _ (by decide)) fun _ d hopen => .peek_bind ?_
  split
  · exact hopen.bind nests_closeParenthesis fun _ _ h => h.pure _
  · refine hopen.bind hexpression fun _ _ hfirst => ?_
    refine hfirst.bind (nests_many_led (by decide) hexpression) fun _ _ hothers => ?_
    exact hothers.bind nests_closeParenthesis fun _ _ h => h.pure _

private theorem nests_checkArity (word : ReservedWord) (args : List Expr) (span : Span) :
    (checkArity word args span).Nests := by
  intro c
  unfold checkArity
  split <;> exact .refl c

private theorem nests_reservedCall (hexpression : expression.Nests) {word : ReservedWord}
    {span : Span}
    (hword : c.peek.kind = .reserved word) : (reservedCall expression word span).NestsFrom c c := by
  refine (Nests.refl c).advance_bind (by rw [hword]; rfl) fun h => ?_
  refine h.bind (nests_arguments hexpression) fun args _ hargs => .spanSince_bind fun s => ?_
  exact hargs.bind (nests_checkArity word args s) fun _ _ h => h.pure _

theorem nests_pathExpression (hexpression : expression.Nests) :
    (pathExpression expression).Nests := by
  intro c
  refine (Nests.refl c).bind nests_path fun _ d hpath => .peek_bind ?_
  split
  · refine hpath.bind (nests_arguments hexpression) fun _ _ h => ?_
    exact .spanSince_bind fun _ => h.pure _
  · next hop =>
    split
    · refine hpath.advance_bind (by rw [hop]; rfl) fun h => ?_
      exact .spanSince_bind fun _ => h.pure _
    · exact hpath.pure _
  · exact hpath.pure _

private theorem nests_factorRule (hfactor : factor.Nests) (hexpression : expression.Nests) :
    (factorRule factor expression).Nests := by
  intro c
  have hstart := Nests.refl c
  refine .peek_bind ?_
  split
  · next hop =>
    split
    · refine hstart.advance_bind (by rw [hop]; rfl) fun h => ?_
      exact h.bind hfactor fun _ _ h => .spanSince_bind fun _ => h.pure _
    · exact hstart.unexpected _
  · next hliteral => exact hstart.advance_bind (by rw [hliteral]; rfl) fun h => h.pure _
  · next hopen =>
    refine hstart.advance_bind (by rw [hopen]; rfl) fun h => ?_
    refine h.bind hexpression fun _ _ hinner => ?_
    refine hinner.bind nests_closeParenthesis fun _ _ h => ?_
    exact .spanSince_bind fun _ => h.pure _
  · next hword =>
    refine .peekSecond_bind ?_
    split
    · exact nests_reservedCall hexpression hword
    · exact nests_pathExpression hexpression c
  · exact nests_pathExpression hexpression c
  · exact nests_pathExpression hexpression c
  · exact hstart.unexpected _

private theorem nests_binaryRule {operand : Nat → Rule Expr} (hfactor : factor.Nests)
    (hoperand : ∀ least, (operand least).Nests) (least : Nat) :
    (binaryRule factor operand least).Nests := by
  intro c
  refine (Nests.refl c).bind hfactor fun _ _ hlhs => ?_
  refine hlhs.bind (nests_many fun joint d hjoint => ?_) fun _ _ h => h.pure _
  obtain ⟨hop, _⟩ := jointAt_eq_some_iff.1 hjoint
  obtain ⟨cls, hkind⟩ := TokenKind.operator?_eq_some_iff.1 hop
  refine (Nests.refl d).advance_bind (by rw [hkind]; rfl) fun h => ?_
  exact h.bind (hoperand _) fun _ _ h => h.pure _

end

theorem nests_tooDeep : (tooDeep : Rule α).Nests := fun c => Nests.refl c

private theorem nests_binary_and_factor (n : Nat) : (∀ least, (binary n least).Nests) ∧
    (factor n).Nests := by
  induction n with
  | zero => exact ⟨fun _ => nests_tooDeep, nests_tooDeep⟩
  | succ n ih =>
    obtain ⟨hbinary, hfactor⟩ := ih
    exact ⟨nests_binaryRule hfactor hbinary, nests_factorRule hfactor (hbinary 1)⟩

/-- By induction on the levels that are left. -/
theorem nests_expression (n : Nat) : (expression n).Nests := (nests_binary_and_factor n).1 1

end GeoLang.Grammar
