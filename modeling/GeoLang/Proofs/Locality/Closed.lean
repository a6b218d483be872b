import GeoLang.Proofs.Reading.Composed

namespace GeoLang

/-- Statements end with a semicolon or a brace. -/
def TokenKind.closes : TokenKind → Bool
  | .punctuation .semicolon | .punctuation .rCurly => true
  | _ => false

namespace Grammar

/-- What follows a text. -/
structure Tail where
  rest : List Token
  eof : Token

/-- The first token of what follows. -/
def Tail.peek (tail : Tail) : Token := tail.rest.headD tail.eof

/-- The same place in a text that goes on. -/
def Cursor.followedBy (c : Cursor) (tail : Tail) : Cursor :=
  ⟨c.previous, c.rest ++ tail.rest, tail.eof⟩

/-- The same reply, given in a text that goes on. -/
def Reply.followedBy {α : Type} (x : Reply α) (tail : Tail) : Reply α :=
  { x with cursor := x.cursor.followedBy tail }

/-- The last one of the tokens to come, if there are any, ends a statement. -/
structure Cursor.Closed (c : Cursor) : Prop where
  eof : c.eof.kind = .eof
  inside : ∀ t ∈ c.rest, t.kind ≠ .eof
  last : ∀ t ∈ c.rest.getLast?, t.kind.closes = true

/-- In front of a token that ends a statement and the text. -/
structure Cursor.Ahead (c : Cursor) : Prop extends c.Closed where
  ne_nil : c.rest ≠ []

/-- Whatever follows the text, the rule does the same at `c`, and does not reach its end. -/
structure Rule.Stays {α : Type} (r : Rule α) (c : Cursor) : Prop where
  ahead : (r c).cursor.Ahead
  followed : ∀ tail, r (c.followedBy tail) = (r c).followedBy tail

variable {α β : Type} {c d : Cursor}

namespace Cursor

/-- The tokens that remain, with those that follow. -/
theorem remaining_followedBy (c : Cursor) (tail : Tail) :
    (c.followedBy tail).remaining = c.remaining + tail.rest.length := List.length_append

/-- What follows does not change which of two places is further on. -/
theorem remaining_followedBy_lt_iff (tail : Tail) :
    (d.followedBy tail).remaining < (c.followedBy tail).remaining ↔ d.remaining < c.remaining := by
  rw [remaining_followedBy, remaining_followedBy]
  omega

/-- Reading keeps a text closed. -/
theorem Closed.of_reads {used : List Token} (hc : c.Closed) (hreads : c.Reads used d) :
    d.Closed where
  eof := by rw [hreads.eof, hc.eof]
  inside := fun t ht => hc.inside t (hreads.subset ht)
  last := by
    intro t ht
    refine hc.last t ?_
    rw [hreads.rest, List.getLast?_append, Option.mem_def.1 ht]
    rfl

theorem Closed.advance (hc : c.Closed) : c.advance.Closed := by
  obtain ⟨used, hreads⟩ := c.exists_reads_advance
  exact hc.of_reads hreads

/-- A closed text goes on until its end. -/
theorem Closed.ahead_of_peek (hc : c.Closed) (hpeek : c.peek.kind ≠ .eof) : c.Ahead :=
  ⟨hc, rest_ne_nil_of_peek hc.eof hpeek⟩

/-- A loop that ends with the text goes on only in front of a token. -/
theorem Closed.ahead_of_next {next? : Token → Option β} {b : β}
    (hend : ∀ t, t.kind = .eof → next? t = none) (hc : c.Closed) (hnext : next? c.peek = some b) :
    c.Ahead := by
  refine hc.ahead_of_peek fun hkind => ?_
  rw [hend _ hkind] at hnext
  cases hnext

theorem Ahead.remaining_pos (hc : c.Ahead) : 0 < c.remaining := List.length_pos_iff.2 hc.ne_nil

/-- As long as the text goes on, what follows is out of sight. -/
theorem peek_followedBy (hne : c.rest ≠ []) (tail : Tail) : (c.followedBy tail).peek = c.peek := by
  obtain ⟨previous, rest, eof⟩ := c
  cases rest with
  | nil => exact absurd rfl hne
  | cons t ts => rfl

/-- A step stays inside a text that goes on. -/
theorem advance_followedBy (hne : c.rest ≠ []) (tail : Tail) :
    (c.followedBy tail).advance = c.advance.followedBy tail := by
  obtain ⟨previous, rest, eof⟩ := c
  cases rest with
  | nil => exact absurd rfl hne
  | cons t ts => rfl

namespace Ahead

/-- Behind any token that ends no statement there is another one. -/
theorem advance (hc : c.Ahead) (hpeek : c.peek.kind.closes = false) : c.advance.Ahead := by
  refine ⟨hc.toClosed.advance, fun hnil => ?_⟩
  have hreads := reads_advance hc.ne_nil
  have hlast : c.rest.getLast? = some c.peek := by rw [hreads.rest, hnil]; rfl
  have hcloses := hc.last c.peek hlast
  rw [hpeek] at hcloses
  cases hcloses

private theorem second_followedBy (hc : c.Ahead) (hpeek : c.peek.kind.closes = false)
    (tail : Tail) :
    (c.followedBy tail).second = c.second := by
  rw [← peek_advance, ← peek_advance, advance_followedBy hc.ne_nil,
    peek_followedBy (hc.advance hpeek).ne_nil]

end Ahead

end Cursor

theorem closes_of_isPunctuation {k : TokenKind} {p : Punctuation} (hk : k.isPunctuation p = true) :
    k.closes = (TokenKind.punctuation p).closes := by
  rw [TokenKind.isPunctuation, beq_iff_eq] at hk
  rw [hk]

/-- Names close nothing. -/
theorem closes_of_isName {k : TokenKind} (hname : k.isName = true) : k.closes = false := by
  cases k with
  | punctuation p => cases hname
  | _ => rfl

/-- Looking for an assignment ends at a token that ends a statement at the latest. -/
theorem assignsPath_append {ts : List Token} (hne : ts ≠ [])
    (hlast : ∀ t ∈ ts.getLast?, t.kind.closes = true) (us : List Token) :
    assignsPath (ts ++ us) = assignsPath ts := by
  match ts with
  | [] => exact absurd rfl hne
  | [t] =>
    have hname : t.kind.isName = false := by
      refine eq_false_of_ne_true fun hname => ?_
      have hcloses := hlast t rfl
      rw [closes_of_isName hname] at hcloses
      cases hcloses
    cases us <;> simp [assignsPath, hname]
  | [t, u] =>
    have hdot : u.kind.isPunctuation .dot = false := by
      refine eq_false_of_ne_true fun hdot => ?_
      have hcloses := hlast u rfl
      rw [closes_of_isPunctuation hdot] at hcloses
      cases hcloses
    simp [assignsPath, hdot]
  | t :: u :: v :: ts =>
    have hmore : assignsPath (v :: ts ++ us) = assignsPath (v :: ts) :=
      assignsPath_append (List.cons_ne_nil v ts) hlast us
    simp only [List.cons_append, assignsPath] at hmore ⊢
    rw [hmore]

namespace Rule.Stays

theorem pure (hc : c.Ahead) (a : α) : (pure a : Rule α).Stays c := ⟨hc, fun _ => rfl⟩

theorem fail (hc : c.Ahead) (e : ParseError) : (Grammar.fail e : Rule α).Stays c :=
  ⟨hc, fun _ => rfl⟩

theorem note (hc : c.Ahead) (e : ParseError) : (Grammar.note e).Stays c := ⟨hc, fun _ => rfl⟩

/-- A look at the current token stays in sight. -/
theorem peek_bind {h : Token → Rule β} (hc : c.Ahead) (hrest : (h c.peek).Stays c) :
    (Grammar.peek >>= h).Stays c := by
  refine ⟨hrest.ahead, fun tail => ?_⟩
  refine Eq.trans ?_ (hrest.followed tail)
  rw [← Cursor.peek_followedBy hc.ne_nil tail]
  rfl

theorem unexpected (hc : c.Ahead) (x : Expectation) : (Grammar.unexpected x : Rule α).Stays c :=
  .peek_bind hc (.fail hc _)

theorem tooDeep (hc : c.Ahead) : (Grammar.tooDeep : Rule α).Stays c := .peek_bind hc (.fail hc _)

/-- So does a look behind it, unless the token closes the text. -/
theorem peekSecond_bind {h : Token → Rule β} (hc : c.Ahead) (hpeek : c.peek.kind.closes = false)
    (hrest : (h c.second).Stays c) : (peekSecond >>= h).Stays c := by
  refine ⟨hrest.ahead, fun tail => ?_⟩
  refine Eq.trans ?_ (hrest.followed tail)
  rw [← hc.second_followedBy hpeek tail]
  rfl

/-- The look ahead passes names and dots alone, and these close nothing. -/
theorem atAssignment_bind {h : Bool → Rule β} (hc : c.Ahead) (hrest : ∀ b, (h b).Stays c) :
    (atAssignment >>= h).Stays c := by
  refine ⟨(hrest (assignsPath c.rest)).ahead, fun tail => ?_⟩
  refine Eq.trans ?_ ((hrest (assignsPath c.rest)).followed tail)
  rw [← assignsPath_append hc.ne_nil hc.last tail.rest]
  rfl

/-- Any token may be consumed but those that end statements. -/
theorem advance_bind {h : Unit → Rule β} (hc : c.Ahead) (hpeek : c.peek.kind.closes = false)
    (hrest : c.advance.Ahead → (h ()).Stays c.advance) : (advance >>= h).Stays c := by
  have hmore := hrest (hc.advance hpeek)
  refine ⟨hmore.ahead, fun tail => ?_⟩
  refine Eq.trans ?_ (hmore.followed tail)
  rw [← Cursor.advance_followedBy hc.ne_nil tail]
  rfl

/-- A rule stays when its parts do, one behind the other. -/
theorem bind {r : Rule α} {h : α → Rule β} (hr : r.Stays c)
    (hrest : ∀ a d, d.Ahead → (h a).Stays d) : (r >>= h).Stays c := by
  cases hresult : (r c).result with
  | error e =>
    have hreply := Rule.bind_apply_error (f := h) hresult
    refine ⟨by rw [hreply]; exact hr.ahead, fun tail => ?_⟩
    have hfollowed : (r (c.followedBy tail)).result = .error e := by rw [hr.followed]; exact hresult
    rw [hreply, Rule.bind_apply_error hfollowed, hr.followed]
    rfl
  | ok a =>
    have hmore := hrest a (r c).cursor hr.ahead
    have hreply := Rule.bind_apply_ok (f := h) hresult
    refine ⟨by rw [hreply]; exact hmore.ahead, fun tail => ?_⟩
    have hfollowed : (r (c.followedBy tail)).result = .ok a := by rw [hr.followed]; exact hresult
    rw [hreply, Rule.bind_apply_ok hfollowed, hr.followed]
    simp only [Reply.followedBy, hmore.followed]

theorem spanSince_bind {start : Span} {h : Span → Rule β} (hrest : ∀ s, (h s).Stays c) :
    (Grammar.spanSince start >>= h).Stays c :=
  ⟨(hrest (c.spanSince start)).ahead, (hrest (c.spanSince start)).followed⟩

/-- A loop goes round as often, whatever follows the text. -/
theorem many {next? : Token → Option β} {item : β → Rule α}
    (hitem : ∀ b c, c.Ahead → next? c.peek = some b → (item b).Stays c) {c : Cursor}
    (hc : c.Ahead) : (Grammar.many next? item).Stays c := by
  have hpeek := Cursor.peek_followedBy hc.ne_nil
  cases hnext : next? c.peek with
  | none =>
    have hreply : Grammar.many next? item c = ⟨.ok [], c, []⟩ := by rw [Grammar.many, hnext]
    refine ⟨by rw [hreply]; exact hc, fun tail => ?_⟩
    rw [hreply, Grammar.many, hpeek, hnext]
    rfl
  | some b =>
    have hfirst := hitem b c hc hnext
    cases hresult : (item b c).result with
    | error e =>
      have hreply : Grammar.many next? item c = ⟨.error e, (item b c).cursor, (item b c).errors⟩ := by
        rw [Grammar.many]
        simp only [hnext, hresult]
      refine ⟨by rw [hreply]; exact hfirst.ahead, fun tail => ?_⟩
      rw [hreply, Grammar.many]
      simp only [hpeek, hnext, hfirst.followed, Reply.followedBy, hresult]
    | ok a =>
      by_cases hless : (item b c).cursor.remaining < c.remaining
      · have hmore : (Grammar.many next? item).Stays (item b c).cursor := many hitem hfirst.ahead
        have hreply : Grammar.many next? item c =
            ⟨(Grammar.many next? item (item b c).cursor).result.map (a :: ·),
              (Grammar.many next? item (item b c).cursor).cursor,
              (item b c).errors ++ (Grammar.many next? item (item b c).cursor).errors⟩ := by
          rw [Grammar.many]
          simp only [hnext, hresult, if_pos hless]
        refine ⟨by rw [hreply]; exact hmore.ahead, fun tail => ?_⟩
        rw [hreply, Grammar.many]
        simp only [hpeek, hnext, hfirst.followed, Reply.followedBy, hresult,
          Cursor.remaining_followedBy_lt_iff, if_pos hless, hmore.followed]
      · have hreply : Grammar.many next? item c =
            ⟨.ok [a], (item b c).cursor, (item b c).errors⟩ := by
          rw [Grammar.many]
          simp only [hnext, hresult, if_neg hless]
        refine ⟨by rw [hreply]; exact hfirst.ahead, fun tail => ?_⟩
        rw [hreply, Grammar.many]
        simp only [hpeek, hnext, hfirst.followed, Reply.followedBy, hresult,
          Cursor.remaining_followedBy_lt_iff, if_neg hless]
termination_by c.remaining

end Rule.Stays

open Rule (Stays)

/-- A mark that closes nothing is looked for inside the text. -/
theorem stays_mark {p : Punctuation} (hp : (TokenKind.punctuation p).closes = false)
    (x : Expectation) (hc : c.Ahead) : (mark p x).Stays c := by
  refine .peek_bind hc ?_
  split
  · next hmark =>
    exact .advance_bind hc (by rw [closes_of_isPunctuation hmark, hp]) fun hc => .pure hc _
  · exact .unexpected hc x

theorem stays_closeParenthesis (hc : c.Ahead) : closeParenthesis.Stays c := by
  refine .peek_bind hc ?_
  split
  · next hclose => exact .advance_bind hc (closes_of_isPunctuation hclose) fun hc => .pure hc _
  · exact .fail hc _

theorem stays_keyword (word : Keyword) (hc : c.Ahead) : (keyword word).Stays c := by
  refine .peek_bind hc ?_
  split
  · next hword =>
    rw [TokenKind.isKeyword, beq_iff_eq] at hword
    exact .advance_bind hc (by rw [hword]; rfl) fun hc => .pure hc _
  · exact .unexpected hc _

theorem stays_name (x : Expectation) (hc : c.Ahead) : (name x).Stays c := by
  refine .peek_bind hc ?_
  split
  · next hname => exact .advance_bind hc (closes_of_isName hname) fun hc => .pure hc _
  · exact .unexpected hc x

/-- Items with a punctuation mark in front of each. -/
theorem stays_many_led {p : Punctuation} {item : Rule α}
    (hp : (TokenKind.punctuation p).closes = false) (hitem : ∀ c : Cursor, c.Ahead → item.Stays c)
    (hc : c.Ahead) : (many (markAt p) fun _ => advance >>= fun _ => item).Stays c := by
  refine .many (fun _ c hc hnext => ?_) hc
  exact .advance_bind hc (by rw [markAt_eq_some_iff.1 hnext, hp]) (hitem _)

/-- Paths stay inside the text, and so do the rules below. -/
theorem stays_path (hc : c.Ahead) : path.Stays c := by
  refine .peek_bind hc (.bind (stays_name _ hc) fun _ c hc => ?_)
  refine .bind (stays_many_led rfl (fun _ => stays_name _) hc) fun _ c hc => ?_
  exact .spanSince_bind fun _ => .pure hc _

theorem stays_template (hc : c.Ahead) : template.Stays c := by
  refine .peek_bind hc ?_
  split
  · next htext => exact .advance_bind hc (by rw [htext]; rfl) fun hc => .pure hc _
  · exact .unexpected hc _

private theorem stays_checkArity (word : ReservedWord) (args : List Expr) (span : Span)
    (hc : c.Ahead) :
    (checkArity word args span).Stays c := by
  unfold checkArity
  split
  · exact .pure hc ()
  · exact .note hc _

section

variable {expression factor : Rule Expr} (hexpression : ∀ c : Cursor, c.Ahead → expression.Stays c)

include hexpression

theorem stays_arguments (hc : c.Ahead) : (arguments expression).Stays c := by
  refine .bind (stays_mark rfl _ hc) fun _ c hc => .peek_bind hc ?_
  split
  · exact .bind (stays_closeParenthesis hc) fun _ c hc => .pure hc _
  · refine .bind (hexpression c hc) fun _ c hc => ?_
    refine .bind (stays_many_led rfl hexpression hc) fun _ c hc => ?_
    exact .bind (stays_closeParenthesis hc) fun _ c hc => .pure hc _

private theorem stays_reservedCall {word : ReservedWord} {span : Span} (hc : c.Ahead)
    (hword : c.peek.kind = .reserved word) : (reservedCall expression word span).Stays c := by
  refine .advance_bind hc (by rw [hword]; rfl) fun hc => ?_
  refine .bind (stays_arguments hexpression hc) fun args c hc => .spanSince_bind fun s => ?_
  exact .bind (stays_checkArity word args s hc) fun _ c hc => .pure hc _

theorem stays_pathExpression (hc : c.Ahead) : (pathExpression expression).Stays c := by
  refine .bind (stays_path hc) fun _ c hc => .peek_bind hc ?_
  split
  · exact .bind (stays_arguments hexpression hc) fun _ c hc => .spanSince_bind fun _ => .pure hc _
  · next hop =>
    split
    · exact .advance_bind hc (by rw [hop]; rfl) fun hc => .spanSince_bind fun _ => .pure hc _
    · exact .pure hc _
  · exact .pure hc _

private theorem stays_factorRule (hfactor : ∀ c : Cursor, c.Ahead → factor.Stays c) (hc : c.Ahead) :
    (factorRule factor expression).Stays c := by
  refine .peek_bind hc ?_
  split
  · next hop =>
    split
    · refine .advance_bind hc (by rw [hop]; rfl) fun hc => ?_
      exact .bind (hfactor _ hc) fun _ c hc => .spanSince_bind fun _ => .pure hc _
    · exact .unexpected hc _
  · next hliteral => exact .advance_bind hc (by rw [hliteral]; rfl) fun hc => .pure hc _
  · next hopen =>
    refine .advance_bind hc (by rw [hopen]; rfl) fun hc => ?_
    refine .bind (hexpression _ hc) fun _ c hc => ?_
    exact .bind (stays_closeParenthesis hc) fun _ c hc => .spanSince_bind fun _ => .pure hc _
  · next hword =>
    refine .peekSecond_bind hc (by rw [hword]; rfl) ?_
    split
    · exact stays_reservedCall hexpression hc hword
    · exact stays_pathExpression hexpression hc
  · exact stays_pathExpression hexpression hc
  · exact stays_pathExpression hexpression hc
  · exact .unexpected hc _

end

private theorem stays_binaryRule {factor : Rule Expr} {operand : Nat → Rule Expr}
    (hfactor : ∀ c : Cursor, c.Ahead → factor.Stays c)
    (hoperand : ∀ least (c : Cursor), c.Ahead → (operand least).Stays c) (least : Nat)
    (hc : c.Ahead) : (binaryRule factor operand least).Stays c := by
  refine .bind (hfactor c hc) fun _ c hc => ?_
  refine .bind (.many (fun joint c hc hjoint => ?_) hc) fun _ c hc => .pure hc _
  obtain ⟨hop, _⟩ := jointAt_eq_some_iff.1 hjoint
  obtain ⟨cls, hkind⟩ := TokenKind.operator?_eq_some_iff.1 hop
  refine .advance_bind hc (by rw [hkind]; rfl) fun hc => ?_
  exact .bind (hoperand _ _ hc) fun _ c hc => .pure hc _

private theorem stays_binary_and_factor (n : Nat) :
    (∀ least (c : Cursor), c.Ahead → (binary n least).Stays c) ∧
      ∀ c : Cursor, c.Ahead → (factor n).Stays c := by
  induction n with
  | zero => exact ⟨fun _ _ hc => .tooDeep hc, fun _ hc => .tooDeep hc⟩
  | succ n ih =>
    obtain ⟨hbinary, hfactor⟩ := ih
    exact ⟨fun least _ => stays_binaryRule hfactor hbinary least,
      fun _ => stays_factorRule (hbinary 1) hfactor⟩

/-- Expressions stay, at every number of levels. -/
theorem stays_expression (n : Nat) (c : Cursor) (hc : c.Ahead) : (expression n).Stays c :=
  (stays_binary_and_factor n).1 1 c hc

private theorem stays_unitSpecifier (hc : c.Ahead) : unitSpecifier.Stays c := by
  refine .peek_bind hc ?_
  split
  · next hsq =>
    refine .advance_bind hc (by rw [reserved?_eq_some_iff.1 hsq]; rfl) fun hc => .peek_bind hc ?_
    split
    · next unit hunit =>
      refine .advance_bind hc (by rw [(unitAt_eq_some_iff.1 hunit).1]; rfl) fun hc => ?_
      exact .spanSince_bind fun _ => .pure hc _
    · exact .unexpected hc _
  · split
    · next unit hunit =>
      refine .advance_bind hc (by rw [(unitAt_eq_some_iff.1 hunit).1]; rfl) fun hc => ?_
      exact .spanSince_bind fun _ => .pure hc _
    · exact .pure hc _

private theorem stays_checkInitializer (type : DataType) (e : Expr) (hc : c.Ahead) :
    (checkInitializer type e).Stays c := by
  unfold checkInitializer
  split
  · split
    · exact .pure hc ()
    · exact .note hc _
  · exact .pure hc ()

/-- Steps close nothing. -/
theorem closes_of_stepAt {t : Token} {op : Operator} (hstep : stepAt t = some op) :
    t.kind.closes = false := by
  obtain ⟨cls, hkind⟩ := TokenKind.operator?_eq_some_iff.1 (stepAt_eq_some_iff.1 hstep).1
  rw [hkind]
  rfl

private theorem stays_postStep (hc : c.Ahead) : postStep.Stays c := by
  refine .peek_bind hc (.bind (stays_path hc) fun _ c hc => .peek_bind hc ?_)
  split
  · next op hstep =>
    refine .advance_bind hc (closes_of_stepAt hstep) fun hc => ?_
    exact .spanSince_bind fun _ => .pure hc _
  · exact .unexpected hc _

section

variable {expression : Rule Expr} (hexpression : ∀ c : Cursor, c.Ahead → expression.Stays c)

include hexpression

private theorem stays_initializer (type : DataType) (hc : c.Ahead) :
    (initializer expression type).Stays c := by
  refine .peek_bind hc ?_
  split
  · next hassign =>
    obtain ⟨cls, hkind⟩ := TokenKind.operator?_eq_some_iff.1 hassign
    refine .advance_bind hc (by rw [hkind]; rfl) fun hc => ?_
    refine .bind (hexpression _ hc) fun e c hc => ?_
    exact .bind (stays_checkInitializer type e hc) fun _ c hc => .pure hc _
  · exact .pure hc _

theorem stays_declarator (type : DataType) (hc : c.Ahead) :
    (declarator expression type).Stays c := by
  refine .peek_bind hc ?_
  split
  · next hname =>
    refine .advance_bind hc (by rw [hname]; rfl) fun hc => ?_
    refine .bind (stays_unitSpecifier hc) fun _ c hc => ?_
    refine .bind (stays_initializer hexpression type hc) fun _ c hc => ?_
    exact .spanSince_bind fun _ => .pure hc _
  · exact .unexpected hc _

theorem stays_assignment (hc : c.Ahead) : (assignment expression).Stays c := by
  refine .bind (stays_path hc) fun _ c hc => .peek_bind hc ?_
  split
  · next op hop =>
    refine .advance_bind hc (by rw [TokenKind.assignment?_eq_some_iff.1 hop]; rfl) fun hc => ?_
    exact .bind (hexpression _ hc) fun _ c hc => .pure hc _
  · exact .unexpected hc _

theorem stays_simple (hc : c.Ahead) : (simple expression).Stays c := by
  refine .atAssignment_bind hc fun b => ?_
  split
  · exact stays_assignment hexpression hc
  · exact .bind (hexpression c hc) fun _ c hc => .pure hc _

/-- The part of a header that makes the step stays. -/
theorem stays_update (hc : c.Ahead) : (update expression).Stays c := by
  refine .peek_bind hc ?_
  split
  · next op hstep =>
    refine .advance_bind hc (closes_of_stepAt hstep) fun hc => ?_
    refine .bind (stays_path hc) fun _ c hc => ?_
    exact .spanSince_bind fun _ => .pure hc _
  · refine .atAssignment_bind hc fun b => ?_
    split
    · exact stays_assignment hexpression hc
    · exact stays_postStep hc

/-- In the header of a loop the semicolon behind a declaration does not belong to it. -/
theorem stays_forInit (hc : c.Ahead) : (forInit expression).Stays c := by
  refine .peek_bind hc ?_
  split
  · next htype =>
    refine .bind (.peek_bind hc (.advance_bind hc (by rw [htype]; rfl) fun hc => ?_)) fun _ c hc =>
      .pure hc _
    refine .bind (stays_declarator hexpression _ hc) fun _ c hc => ?_
    refine .bind (stays_many_led rfl (fun _ => stays_declarator hexpression _) hc) fun _ c hc => ?_
    have hterminator : (optionalTerminator false).Stays c := .peek_bind hc (.pure hc ())
    exact .bind hterminator fun _ c hc => .spanSince_bind fun _ => .pure hc _
  · exact .bind (stays_simple hexpression hc) fun _ c hc => .pure hc _

end

end Grammar

end GeoLang
