import GeoLang.Proofs.Locality.Front
import GeoLang.Proofs.Reading.Consumption

namespace GeoLang.Grammar

open Rule (Runs Idle)

variable {stop : Terminator} {mayEnd : Bool} {f : Front} {expression : Rule Expr}

/-- Every mark but the semicolon is looked for in front of it. -/
theorem runs_mark {p : Punctuation} (hp : (TokenKind.punctuation p).closes = false)
    (x : Expectation) (f : Front) : (mark p x).Runs stop mayEnd f :=
  .of_stays (.mark p x) (fun _ => stays_mark hp x) f

theorem runs_closeParenthesis (f : Front) : closeParenthesis.Runs stop mayEnd f :=
  .of_stays .closeParenthesis (fun _ => stays_closeParenthesis) f

theorem runs_keyword (word : Keyword) (f : Front) : (keyword word).Runs stop mayEnd f :=
  .of_stays (.keyword word) (fun _ => stays_keyword word) f

/-- Placeholders do not occur, since there are no braces. -/
theorem runs_placeholders (f : Front) :
    (many (markAt .lCurly) fun _ => placeholder).Runs stop mayEnd f := by
  have hnone : markAt .lCurly (f.peek stop) = none := by
    simpa [markAt, TokenKind.isPunctuation] using Front.plain_peek.lCurly
  have hreply : ∀ tail : Tail, many (markAt .lCurly) (fun _ => placeholder) (f.cursor stop tail) =
      ⟨.ok [], f.cursor stop tail, []⟩ := by
    intro tail
    rw [many, Front.peek_cursor, hnone]
  exact .of_reply hreply

/-- The first token is consumed unseen, so it must not be the semicolon. -/
theorem runs_output {newline : Bool} (hword : (f.peek stop).kind ≠ .punctuation .semicolon) :
    (output newline).Runs stop true f := by
  refine .peek_bind (.advance_bind hword fun g => ?_)
  refine .bind (runs_mark rfl _ g) fun _ g => ?_
  refine .bind (.of_stays .template (fun _ => stays_template) g) fun _ g => ?_
  refine .bind (runs_placeholders g) fun _ g => ?_
  refine .bind (runs_closeParenthesis g) fun _ g => ?_
  exact .bind_idle (runs_terminator _ g) fun _ => .spanSince_bind fun _ => .pure _

private theorem runs_input (f : Front) : input.Runs stop true f := by
  refine .bind (runs_keyword _ f) fun _ g => ?_
  refine .bind (runs_mark rfl _ g) fun _ g => ?_
  refine .bind (runs_closeParenthesis g) fun _ g => ?_
  exact .bind_idle (runs_terminator _ g) fun _ => .spanSince_bind fun _ => .pure _

section

variable {block : Rule Block} {conditional : Rule Conditional}

variable (hcomposed : Composed expression) (hexpression : ∀ c : Cursor, c.Ahead → expression.Stays c)

include hcomposed hexpression

/-- A declaration ends behind its semicolon, or in front of something else. -/
theorem runs_declaration {type : DataType} (htype : (f.peek stop).kind = .dataType type) :
    (declaration expression true type).Runs stop true f := by
  have hdeclarator : Composed (declarator expression type) := .declarator hcomposed type
  have hstays : ∀ c : Cursor, c.Ahead → (declarator expression type).Stays c := fun _ =>
    stays_declarator hexpression type
  refine .peek_bind (.advance_bind (by simp [htype]) fun g => ?_)
  refine .bind (.of_stays hdeclarator hstays g) fun _ g => ?_
  refine .bind (.of_stays (.many fun _ => .bind .advance fun _ => hdeclarator)
    (fun _ => stays_many_led rfl hstays) g) fun _ g => ?_
  have hterminator : (optionalTerminator true).Runs stop true g := by
    refine .peek_bind ?_
    split
    · exact runs_advance g
    · exact .pure ()
  exact .bind_idle hterminator fun _ => .spanSince_bind fun _ => .pure _

private theorem runs_terminatedSimple (f : Front) :
    (terminatedSimple expression).Runs stop true f := by
  refine .bind (.of_stays (.simple hcomposed) (fun _ => stays_simple hexpression) f) fun _ g => ?_
  exact .bind_idle (runs_terminator _ g) fun _ => .pure _

private theorem runs_whileLoop (hblock : ∀ g, block.Runs stop false g) (f : Front) :
    (whileLoop expression block).Runs stop mayEnd f := by
  refine .bind (runs_keyword _ f) fun _ g => ?_
  refine .bind (runs_mark rfl _ g) fun _ g => ?_
  refine .bind (.of_stays hcomposed hexpression g) fun _ g => ?_
  refine .bind (runs_closeParenthesis g) fun _ g => ?_
  exact .bind (hblock g) fun _ _ => .spanSince_bind fun _ => .pure _

private theorem runs_repeatLoop (hblock : ∀ g, block.Runs stop false g) (f : Front) :
    (repeatLoop expression block).Runs stop mayEnd f := by
  refine .bind (runs_keyword _ f) fun _ g => ?_
  refine .bind (.of_stays hcomposed hexpression g) fun _ g => ?_
  refine .bind (runs_keyword _ g) fun _ g => ?_
  exact .bind (hblock g) fun _ _ => .spanSince_bind fun _ => .pure _

omit hcomposed hexpression in
private theorem runs_otherwiseRule (hconditional : ∀ g, conditional.Runs stop false g)
    (hblock : ∀ g, block.Runs stop false g) (f : Front) :
    (otherwiseRule conditional block).Runs stop mayEnd f := by
  refine .peek_bind ?_
  split
  · next hword =>
    rw [TokenKind.isKeyword, beq_iff_eq] at hword
    refine .advance_bind (by simp [hword]) fun g => .peek_bind ?_
    split
    · exact .bind (hconditional g) fun _ _ => .pure _
    · exact .bind (hblock g) fun _ _ => .pure _
  · exact .pure _

private theorem runs_conditionalRule (hconditional : ∀ g, conditional.Runs stop false g)
    (hblock : ∀ g, block.Runs stop false g) (f : Front) :
    (conditionalRule expression conditional block).Runs stop mayEnd f := by
  refine .bind (runs_keyword _ f) fun _ g => ?_
  refine .bind (runs_mark rfl _ g) fun _ g => ?_
  refine .bind (.of_stays hcomposed hexpression g) fun _ g => ?_
  refine .bind (runs_closeParenthesis g) fun _ g => ?_
  refine .bind (hblock g) fun _ g => .spanSince_bind fun _ => ?_
  refine .bind (runs_otherwiseRule hconditional hblock g) fun _ _ => ?_
  exact .spanSince_bind fun _ => .pure _

private theorem runs_statementRule (hconditional : ∀ g, conditional.Runs stop false g)
    (hblock : ∀ g, block.Runs stop false g) (f : Front) :
    (statementRule expression conditional block).Runs stop true f := by
  refine .peek_bind ?_
  split
  · next htype => exact .bind_idle (runs_declaration hcomposed hexpression htype) fun _ => .pure _
  · exact .bind (hconditional f) fun _ _ => .pure _
  · exact runs_whileLoop hcomposed hexpression hblock f
  · next hfor => exact absurd hfor Front.plain_peek.forKw
  · exact runs_repeatLoop hcomposed hexpression hblock f
  · next hword => exact runs_output (by simp [hword])
  · next hword => exact runs_output (by simp [hword])
  · exact runs_input f
  · exact runs_terminatedSimple hcomposed hexpression f

end

/-- Blocks do not begin, since there are no braces. -/
theorem runs_block (n : Nat) (f : Front) : (block n).Runs stop mayEnd f := by
  cases n with
  | zero => exact .tooDeep
  | succ n =>
    have hbrace : (f.peek stop).kind.isPunctuation .lCurly = false := by
      simpa [TokenKind.isPunctuation] using Front.plain_peek.lCurly
    refine ⟨.error (.unexpectedToken Expectation.blockStart.text (f.peek stop).describe
      (f.peek stop).span), .front f, [], by simp, fun tail => ?_⟩
    have hmark : (mark .lCurly .blockStart) (f.cursor stop tail) =
        ⟨.error (.unexpectedToken Expectation.blockStart.text (f.peek stop).describe
          (f.peek stop).span), f.cursor stop tail, []⟩ := by
      simp [mark, unexpected, peek, fail, bind, Rule.bind, Front.peek_cursor, hbrace]
    rw [block, blockRule, Rule.bind_apply_error (by rw [hmark]), hmark]
    rfl

private theorem runs_conditional (n : Nat) (f : Front) : (conditional n).Runs stop false f := by
  induction n generalizing f with
  | zero => exact .tooDeep
  | succ n ih =>
    exact runs_conditionalRule (.expression n) (stays_expression n) ih (fun g => runs_block n g) f

private theorem runs_statement (n : Nat) (f : Front) : (statement n).Runs stop true f := by
  cases n with
  | zero => exact .tooDeep
  | succ n =>
    exact runs_statementRule (.expression n) (stays_expression n) (runs_conditional n)
      (fun g => runs_block n g) f

/-- Behind a semicolon a statement may begin. -/
theorem skipToBoundary_behind (tail : Tail) :
    skipToBoundary 0 (some stop.token) tail.eof tail.rest = Place.behind.cursor stop tail := by
  have hboundary : ∀ t, isBoundary (some stop.token) t = true := by
    simp [isBoundary, stop.kind_token, TokenKind.isPunctuation]
  cases hrest : tail.rest with
  | nil => rw [skipToBoundary, Place.cursor, hrest]
  | cons t ts => rw [skipToBoundary, if_pos ⟨rfl, hboundary t⟩, Place.cursor, hrest]

/-- Plain tokens are no braces. -/
theorem braceDepth_of_plain {t : Token} (ht : Plain t) : braceDepth 0 t = 0 := by
  simp [braceDepth, TokenKind.isPunctuation, ht.lCurly]

/-- No braces are opened on the way, so the first boundary is behind the semicolon at the latest. -/
theorem exists_skipToBoundary (previous : Option Token) {ts : List Token}
    (hplain : ∀ t ∈ ts, Plain t) :
    ∃ place : Place, ∀ tail : Tail,
      skipToBoundary 0 previous tail.eof (ts ++ stop.token :: tail.rest) =
        place.cursor stop tail := by
  induction ts generalizing previous with
  | nil =>
    by_cases hboundary : isBoundary previous stop.token = true
    · refine ⟨.front ⟨previous, [], hplain⟩, fun tail => ?_⟩
      rw [List.nil_append, skipToBoundary, if_pos ⟨rfl, hboundary⟩]
      rfl
    · refine ⟨.behind, fun tail => ?_⟩
      have hdepth : braceDepth 0 stop.token = 0 := by
        simp [braceDepth, stop.kind_token, TokenKind.isPunctuation]
      rw [List.nil_append, skipToBoundary, if_neg (by simp [hboundary]), hdepth]
      exact skipToBoundary_behind tail
  | cons t ts ih =>
    by_cases hboundary : isBoundary previous t = true
    · refine ⟨.front ⟨previous, t :: ts, hplain⟩, fun tail => ?_⟩
      rw [List.cons_append, skipToBoundary, if_pos ⟨rfl, hboundary⟩]
      rfl
    · obtain ⟨place, hskip⟩ := ih (some t) fun u hu => hplain u (List.mem_cons_of_mem _ hu)
      refine ⟨place, fun tail => ?_⟩
      rw [List.cons_append, skipToBoundary, if_neg (by simp [hboundary]),
        braceDepth_of_plain (hplain t List.mem_cons_self)]
      exact hskip tail

private theorem exists_resume (stuck : Bool) (f : Front) :
    ∃ place : Place, ∀ tail : Tail, resume stuck (f.cursor stop tail) = place.cursor stop tail := by
  cases stuck with
  | false =>
    obtain ⟨place, hskip⟩ := @exists_skipToBoundary stop f.previous f.rest f.plain
    exact ⟨place, hskip⟩
  | true =>
    obtain ⟨previous, ts, hplain⟩ := f
    cases ts with
    | nil =>
      refine ⟨.behind, fun tail => ?_⟩
      have hdepth : braceDepth 0 stop.token = 0 := by
        simp [braceDepth, stop.kind_token, TokenKind.isPunctuation]
      simp only [resume, Front.cursor, List.nil_append, hdepth]
      exact skipToBoundary_behind tail
    | cons t ts =>
      obtain ⟨place, hskip⟩ := @exists_skipToBoundary stop (some t) ts fun u hu =>
        hplain u (List.mem_cons_of_mem _ hu)
      refine ⟨place, fun tail => ?_⟩
      simp only [resume, Front.cursor, List.cons_append,
        braceDepth_of_plain (hplain t List.mem_cons_self)]
      exact hskip tail

/-- An attempt at a statement does the same, whatever follows the semicolon, and goes on in front of
    it or behind it. -/
theorem exists_recovering (n : Nat) (f : Front) :
    ∃ result, ∃ place : Place, ∃ es, ∀ tail : Tail,
      recovering (statement n) (f.cursor stop tail) = ⟨.ok result, place.cursor stop tail, es⟩ := by
  obtain ⟨result, place, es, -, hrun⟩ := @runs_statement stop n f
  cases result with
  | ok s =>
    refine ⟨some s, place, es, fun tail => ?_⟩
    simp only [recovering, hrun]
  | error e =>
    have hstuck : ∀ tail : Tail,
        ((place.cursor stop tail).remaining == (f.cursor stop tail).remaining) =
          (place.length == (Place.front f).length) := by
      intro tail
      have hf : (f.cursor stop tail).remaining = _ := Place.remaining_cursor (.front f) tail
      rw [Place.remaining_cursor, hf, Bool.eq_iff_iff, beq_iff_eq, beq_iff_eq]
      omega
    have hresume : ∃ next : Place, ∀ tail : Tail,
        resume (place.length == (Place.front f).length) (place.cursor stop tail) =
          next.cursor stop tail := by
      cases place with
      | front g => exact exists_resume _ g
      | behind => exact ⟨.behind, fun tail => skipToBoundary_behind tail⟩
    obtain ⟨next, hnext⟩ := hresume
    refine ⟨none, next, es ++ [e], fun tail => ?_⟩
    simp only [recovering, hrun, hstuck, hnext]

/-- It consumes a token in any case. -/
theorem length_lt_of_recovering {n : Nat} {f : Front} {place : Place} {result : Option Statement}
    {es : List ParseError} {tail : Tail}
    (hrun : recovering (statement n) (f.cursor stop tail) =
      ⟨.ok result, place.cursor stop tail, es⟩) : place.length < (Place.front f).length := by
  have hf : (f.cursor stop tail).remaining = _ := Place.remaining_cursor (.front f) tail
  have hpos : 0 < (f.cursor stop tail).remaining := by
    rw [hf, Place.length]
    omega
  have hlt := remaining_recovering_lt n hpos
  rw [hrun, Place.remaining_cursor, hf] at hlt
  omega

end GeoLang.Grammar
