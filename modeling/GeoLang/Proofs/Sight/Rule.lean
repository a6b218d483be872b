import GeoLang.Proofs.Reading.Program
import GeoLang.Proofs.Sight.Lookahead
import Mathlib.Data.List.Forall2

namespace GeoLang

/-- The tokens are the same, or they are the same sign, which each of the two takes for an operator
    that joins or for a unary one. -/
inductive Token.Reclassed : Token → Token → Prop
  | same (t : Token) : Reclassed t t
  | sign {op : Operator} {cls cls' : Operator.Class} (hop : op.isSign = true)
      (hcls : cls ∈ [Operator.Class.arithmetic, .unary])
      (hcls' : cls' ∈ [Operator.Class.arithmetic, .unary]) (lexeme : String) (span : Span) :
      Reclassed ⟨.operator cls op, lexeme, span⟩ ⟨.operator cls' op, lexeme, span⟩

namespace Token.Reclassed

variable {t t' : Token}

/-- What does not depend on the class of an operator is the same of both tokens. -/
theorem kind_eq {γ : Type} {f : TokenKind → γ} (h : t.Reclassed t')
    (hf : ∀ cls cls' op, f (.operator cls op) = f (.operator cls' op)) :
    f t'.kind = f t.kind := by
  cases h with
  | same => rfl
  | sign => exact hf _ _ _

/-- Reclassing keeps the span, the lexeme and all that the rules ask a token. -/
theorem span (h : t.Reclassed t') : t'.span = t.span := by
  cases h <;> rfl

theorem lexeme (h : t.Reclassed t') : t'.lexeme = t.lexeme := by
  cases h <;> rfl

theorem isPunctuation (h : t.Reclassed t') (p : Punctuation) :
    t'.kind.isPunctuation p = t.kind.isPunctuation p :=
  h.kind_eq (f := (·.isPunctuation p)) fun _ _ _ => rfl

theorem isKeyword (h : t.Reclassed t') (word : Keyword) :
    t'.kind.isKeyword word = t.kind.isKeyword word :=
  h.kind_eq (f := (·.isKeyword word)) fun _ _ _ => rfl

theorem isEof (h : t.Reclassed t') : t'.kind.isEof = t.kind.isEof :=
  h.kind_eq fun _ _ _ => rfl

theorem isComment (h : t.Reclassed t') : t'.kind.isComment = t.kind.isComment :=
  h.kind_eq fun _ _ _ => rfl

theorem isName (h : t.Reclassed t') : t'.kind.isName = t.kind.isName :=
  h.kind_eq fun _ _ _ => rfl

theorem startsStatement (h : t.Reclassed t') : t'.kind.startsStatement = t.kind.startsStatement :=
  h.kind_eq fun _ _ _ => rfl

theorem operator? (h : t.Reclassed t') : t'.kind.operator? = t.kind.operator? :=
  h.kind_eq fun _ _ _ => rfl

theorem reserved? (h : t.Reclassed t') : t'.kind.reserved? = t.kind.reserved? :=
  h.kind_eq fun _ _ _ => rfl

/-- Of the classes only that of assignments is ever looked at, and no sign has it. -/
theorem assignment? (h : t.Reclassed t') : t'.kind.assignment? = t.kind.assignment? := by
  cases h with
  | same => rfl
  | sign hop hcls hcls' =>
    have hnone : ∀ cls ∈ [Operator.Class.arithmetic, .unary], ∀ op,
        (TokenKind.operator cls op).assignment? = none := by
      intro cls hcls op
      simp only [List.mem_cons, List.not_mem_nil, or_false] at hcls
      obtain rfl | rfl := hcls <;> rfl
    rw [hnone _ hcls, hnone _ hcls']

end Token.Reclassed

namespace ParseError

/-- The errors are the same, except that the text of the token that was found may name another class
    of a sign. -/
inductive Renamed : ParseError → ParseError → Prop
  | same (e : ParseError) : Renamed e e
  | found {cls cls' : Operator.Class} (hcls : cls ∈ [Operator.Class.arithmetic, .unary])
      (hcls' : cls' ∈ [Operator.Class.arithmetic, .unary]) (expected lexeme : String) (span : Span) :
      Renamed
        (unexpectedToken expected ((TokenCategory.operator cls).name ++ " '" ++ lexeme ++ "'") span)
        (unexpectedToken expected ((TokenCategory.operator cls').name ++ " '" ++ lexeme ++ "'") span)

/-- A rule looked for an assignment operator and found something else. -/
def MissesAssignment (e : ParseError) : Prop :=
  ∃ found span, e = unexpectedToken Expectation.assignmentOperator.text found span

/-- What the same rule reports on two such lists. No rule looks for an assignment operator where
    there is none. -/
structure Told (e e' : ParseError) : Prop where
  renamed : e.Renamed e'
  foreseen : ¬ e.MissesAssignment

end ParseError

private theorem Expectation.eq_of_text_eq_assignmentOperator {x : Expectation}
    (htext : x.text = assignmentOperator.text) : x = assignmentOperator := by
  cases x with
  | keyword word | header word => cases word <;> revert htext <;> decide
  | assignmentOperator => rfl
  | _ => revert htext; decide

/-- An error about a token tells the class in what was found, and nowhere else. -/
theorem ParseError.Told.unexpected {t t' : Token} (h : t.Reclassed t') {x : Expectation}
    (hx : x ≠ .assignmentOperator) :
    Told (.unexpectedToken x.text t.describe t.span)
      (.unexpectedToken x.text t'.describe t'.span) where
  renamed := by
    cases h with
    | same => exact .same _
    | sign hop hcls hcls' lexeme span => exact .found hcls hcls' x.text lexeme span
  foreseen := by
    rintro ⟨found, span, hmisses⟩
    obtain ⟨htext, -⟩ := ParseError.unexpectedToken.inj hmisses
    exact hx (Expectation.eq_of_text_eq_assignmentOperator htext)

namespace Grammar

variable {α β : Type}

/-- Cursors in lists that differ in the class of signs. -/
structure Cursor.Reclassed (c c' : Cursor) : Prop where
  previous : Option.Rel Token.Reclassed c.previous c'.previous
  rest : List.Forall₂ Token.Reclassed c.rest c'.rest
  eof : c.eof.Reclassed c'.eof

namespace Cursor.Reclassed

variable {c c' : Cursor}

theorem remaining (h : c.Reclassed c') : c'.remaining = c.remaining := h.rest.length_eq.symm

theorem peek (h : c.Reclassed c') : c.peek.Reclassed c'.peek := by
  obtain ⟨previous, rest, eof⟩ := c
  obtain ⟨previous', rest', eof'⟩ := c'
  obtain ⟨-, hrest, heof⟩ := h
  cases hrest with
  | nil => exact heof
  | cons ht => exact ht

/-- Steps keep to the same place. -/
theorem advance (h : c.Reclassed c') : c.advance.Reclassed c'.advance := by
  obtain ⟨previous, rest, eof⟩ := c
  obtain ⟨previous', rest', eof'⟩ := c'
  obtain ⟨hprevious, hrest, heof⟩ := h
  cases hrest with
  | nil => exact ⟨hprevious, .nil, heof⟩
  | cons ht hts => exact ⟨.some ht, hts, heof⟩

theorem second (h : c.Reclassed c') : c.second.Reclassed c'.second := by
  rw [← peek_advance, ← peek_advance]
  exact h.advance.peek

theorem spanSince (h : c.Reclassed c') (start : Span) : c'.spanSince start = c.spanSince start := by
  obtain ⟨previous, rest, eof⟩ := c
  obtain ⟨previous', rest', eof'⟩ := c'
  obtain ⟨hprevious, -, -⟩ := h
  cases hprevious with
  | none => rfl
  | some ht => simp only [Cursor.spanSince, ht.span]

end Cursor.Reclassed

private theorem assignsPath_reclassed {ts ts' : List Token}
    (h : List.Forall₂ Token.Reclassed ts ts') :
    assignsPath ts' = assignsPath ts := by
  fun_induction assignsPath ts generalizing ts' with
  | case1 t u ts ih =>
    obtain ⟨t', _, ht, hmore, rfl⟩ := List.forall₂_cons_left_iff.1 h
    obtain ⟨u', ts', hu, hts, rfl⟩ := List.forall₂_cons_left_iff.1 hmore
    rw [assignsPath, ht.isName, hu.isPunctuation, hu.assignment?, ih hts]
  | case2 ts hshort =>
    rcases h with _ | ⟨_, _ | _⟩
    · rfl
    · rfl
    · exact absurd rfl (hshort _ _ _)

/-- The same is given, at places that match, and what is noted on the way is the same. -/
inductive Reply.Agrees : Reply α → Reply α → Prop
  | ok (a : α) {c c' : Cursor} {es es' : List ParseError} (hcursor : c.Reclassed c')
      (herrors : List.Forall₂ ParseError.Told es es') : Agrees ⟨.ok a, c, es⟩ ⟨.ok a, c', es'⟩
  | error {e e' : ParseError} {c c' : Cursor} {es es' : List ParseError} (herror : e.Told e')
      (hcursor : c.Reclassed c') (herrors : List.Forall₂ ParseError.Told es es') :
      Agrees ⟨.error e, c, es⟩ ⟨.error e', c', es'⟩

namespace Reply.Agrees

variable {x x' : Reply α}

/-- Agreement does not depend on what is made of the result. -/
theorem map (h : x.Agrees x') (f : α → β) :
    Agrees ⟨x.result.map f, x.cursor, x.errors⟩ ⟨x'.result.map f, x'.cursor, x'.errors⟩ := by
  cases h with
  | ok a hcursor herrors => exact .ok (f a) hcursor herrors
  | error herror hcursor herrors => exact .error herror hcursor herrors

/-- More is noted in front. -/
theorem prepend (h : x.Agrees x') {es es' : List ParseError}
    (hmore : List.Forall₂ ParseError.Told es es') :
    Agrees ⟨x.result, x.cursor, es ++ x.errors⟩ ⟨x'.result, x'.cursor, es' ++ x'.errors⟩ := by
  cases h with
  | ok a hcursor herrors => exact .ok a hcursor (List.rel_append hmore herrors)
  | error herror hcursor herrors => exact .error herror hcursor (List.rel_append hmore herrors)

end Reply.Agrees

/-- The rule sees nothing of the classes of signs. -/
def Rule.Overlooks (r : Rule α) : Prop :=
  ∀ c c' : Cursor, c.Reclassed c' → (r c).Agrees (r c')

namespace Rule.Overlooks

protected theorem pure (a : α) : (pure a : Rule α).Overlooks := fun _ _ hc => .ok a hc .nil

/-- Rules in turn overlook the class if each of them does. -/
protected theorem bind {r : Rule α} {f : α → Rule β} (hr : r.Overlooks)
    (hf : ∀ a, (f a).Overlooks) : (r >>= f).Overlooks := by
  intro c c' hc
  have hfirst := hr c c' hc
  change (Rule.bind r f c).Agrees (Rule.bind r f c')
  unfold Rule.bind
  generalize r c = x at hfirst ⊢
  generalize r c' = x' at hfirst ⊢
  cases hfirst with
  | error herror hcursor herrors => exact .error herror hcursor herrors
  | @ok a d d' es es' hcursor herrors =>
    exact (hf a d d' hcursor).prepend herrors

/-- Going on from the current token does not depend on its class. -/
theorem peek_bind {f : Token → Rule β} (hsame : ∀ t t', t.Reclassed t' → f t' = f t)
    (hf : ∀ t, (f t).Overlooks) : (Grammar.peek >>= f).Overlooks := by
  intro c c' hc
  change (f c.peek c).Agrees (f c'.peek c')
  rw [hsame _ _ hc.peek]
  exact hf c.peek c c' hc

/-- A look at the second token, in a way that does not depend on its class. -/
theorem peekSecond_bind {f : Token → Rule β} (hsame : ∀ t t', t.Reclassed t' → f t' = f t)
    (hf : ∀ t, (f t).Overlooks) : (Grammar.peekSecond >>= f).Overlooks := by
  intro c c' hc
  change (f c.second c).Agrees (f c'.second c')
  rw [hsame _ _ hc.second]
  exact hf c.second c c' hc

theorem spanSince (start : Span) : (Grammar.spanSince start).Overlooks := by
  intro c c' hc
  rw [Grammar.spanSince, Grammar.spanSince, hc.spanSince]
  exact .ok _ hc .nil

theorem advance : Grammar.advance.Overlooks := fun _ _ hc => .ok () hc.advance .nil

theorem note {e : ParseError} (he : e.isSyntactic = false) : (Grammar.note e).Overlooks := by
  intro c c' hc
  have htold : e.Told e := by
    refine ⟨.same e, ?_⟩
    rintro ⟨found, span, rfl⟩
    cases he
  exact .ok () hc (.cons htold .nil)

/-- Only where an operator of assignment is expected the error would tell the class by its
    expectation. -/
theorem unexpected {x : Expectation} (hx : x ≠ .assignmentOperator) :
    (Grammar.unexpected x : Rule α).Overlooks :=
  fun _ _ hc => .error (.unexpected hc.peek hx) hc .nil

/-- Errors that do not say what was found are the same. -/
theorem fail {e : Span → ParseError} (he : ∀ s, ¬ (e s).MissesAssignment) :
    (Grammar.peek >>= fun t => Grammar.fail (e t.span) : Rule α).Overlooks := by
  refine peek_bind (fun t t' h => by rw [h.span]) fun t c c' hc => ?_
  exact .error ⟨.same _, he t.span⟩ hc .nil

theorem tooDeep : (Grammar.tooDeep : Rule α).Overlooks := fail fun _ => nofun

theorem ite {p : Prop} [Decidable p] {r s : Rule α} (hthen : r.Overlooks) (helse : s.Overlooks) :
    (if p then r else s).Overlooks := by
  split
  · exact hthen
  · exact helse

/-- The item is run as often on both lists. -/
theorem many {next? : Token → Option β} {item : β → Rule α}
    (hnext : ∀ t t', t.Reclassed t' → next? t' = next? t) (hitem : ∀ b, (item b).Overlooks) :
    (Grammar.many next? item).Overlooks := by
  intro c c' hc
  rw [Grammar.many, Grammar.many, hnext _ _ hc.peek]
  cases next? c.peek with
  | none => exact .ok [] hc .nil
  | some b =>
    have hfirst := hitem b c c' hc
    dsimp only
    generalize item b c = x at hfirst ⊢
    generalize item b c' = x' at hfirst ⊢
    cases hfirst with
    | error herror hcursor herrors => exact .error herror hcursor herrors
    | @ok a d d' es es' hcursor herrors =>
      dsimp only
      rw [hc.remaining, hcursor.remaining]
      split
      · next hless =>
        exact ((many hnext hitem d d' hcursor).map (a :: ·)).prepend herrors
      · exact .ok [a] hcursor herrors
termination_by c => c.remaining

end Rule.Overlooks

private theorem isBoundary_reclassed {previous previous' : Option Token} {t t' : Token}
    (hprevious : Option.Rel Token.Reclassed previous previous') (ht : t.Reclassed t') :
    isBoundary previous' t' = isBoundary previous t := by
  have hlast : previous'.any (·.kind.isPunctuation .semicolon) =
      previous.any (·.kind.isPunctuation .semicolon) := by
    cases hprevious with
    | none => rfl
    | some hlast => exact hlast.isPunctuation .semicolon
  rw [isBoundary, isBoundary, hlast, ht.isPunctuation, ht.startsStatement]

theorem braceDepth_reclassed {t t' : Token} (h : t.Reclassed t') (depth : Nat) :
    braceDepth depth t' = braceDepth depth t := by
  rw [braceDepth, braceDepth, h.isPunctuation, h.isPunctuation]

/-- Skipping stops at the same place. -/
theorem skipToBoundary_reclassed {depth : Nat} {previous previous' : Option Token} {eof eof' : Token}
    {ts ts' : List Token} (hprevious : Option.Rel Token.Reclassed previous previous')
    (heof : eof.Reclassed eof') (hts : List.Forall₂ Token.Reclassed ts ts') :
    (skipToBoundary depth previous eof ts).Reclassed (skipToBoundary depth previous' eof' ts') := by
  induction hts generalizing depth previous previous' with
  | nil => exact ⟨hprevious, .nil, heof⟩
  | cons ht hts ih =>
    rw [skipToBoundary, skipToBoundary, isBoundary_reclassed hprevious ht, braceDepth_reclassed ht]
    split
    · exact ⟨hprevious, .cons ht hts, heof⟩
    · exact ih (.some ht)

/-- So does recovery. -/
theorem Cursor.Reclassed.resume {c c' : Cursor} (h : c.Reclassed c') (stuck : Bool) :
    (resume stuck c).Reclassed (resume stuck c') := by
  obtain ⟨previous, rest, eof⟩ := c
  obtain ⟨previous', rest', eof'⟩ := c'
  obtain ⟨hprevious, hrest, heof⟩ := h
  cases stuck with
  | false => exact skipToBoundary_reclassed hprevious heof hrest
  | true =>
    cases hrest with
    | nil => exact ⟨hprevious, .nil, heof⟩
    | cons ht hts =>
      simp only [Grammar.resume, braceDepth_reclassed ht]
      exact skipToBoundary_reclassed (.some ht) heof hts

/-- An attempt overlooks the class when its statement does. -/
theorem Rule.Overlooks.recovering {statement : Rule Statement} (hstatement : statement.Overlooks) :
    (Grammar.recovering statement).Overlooks := by
  intro c c' hc
  have hread := hstatement c c' hc
  rw [Grammar.recovering, Grammar.recovering]
  generalize statement c = x at hread ⊢
  generalize statement c' = x' at hread ⊢
  cases hread with
  | ok s hcursor herrors => exact .ok (some s) hcursor herrors
  | error herror hcursor herrors =>
    dsimp only
    rw [hc.remaining, hcursor.remaining]
    exact .ok none (hcursor.resume _) (List.rel_append herrors (.cons herror .nil))

/-- An assignment is only read where the look ahead has seen its operator. -/
theorem Rule.Overlooks.assignment {expression : Rule Expr} {other : Rule Simple}
    (hpath : path.Overlooks) (hexpression : expression.Overlooks) (hother : other.Overlooks) :
    (atAssignment >>= fun b => if b then Grammar.assignment expression else other).Overlooks := by
  intro c c' hc
  change ((if assignsPath c.rest then Grammar.assignment expression else other) c).Agrees
    ((if assignsPath c'.rest then Grammar.assignment expression else other) c')
  rw [assignsPath_reclassed hc.rest]
  split
  · next hassigns =>
    obtain ⟨p, d, op, hreturns, hop⟩ := exists_returns_path hassigns
    have htarget := hpath c c' hc
    rw [hreturns] at htarget
    obtain ⟨d', hreturns', hd⟩ : ∃ d', path.Returns c' p d' [] ∧ d.Reclassed d' := by
      generalize hreply : path c' = x' at htarget
      cases htarget with
      | @ok _ _ d' _ es' hd herrors =>
        cases herrors
        exact ⟨d', hreply, hd⟩
    have hop' : d'.peek.kind.assignment? = some op := hd.peek.assignment?.trans hop
    rw [assignment_apply hreturns hop, assignment_apply hreturns' hop']
    exact (hexpression d.advance d'.advance hd.advance).map _
  · exact hother c c' hc

end Grammar

end GeoLang
