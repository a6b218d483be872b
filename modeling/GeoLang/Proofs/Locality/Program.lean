import Mathlib.Data.List.ReduceOption
import GeoLang.Proofs.Locality.Statement
import GeoLang.Proofs.Reader.State

namespace GeoLang.Grammar

open Rule (Runs)

variable {α β : Type}

/-- At the token `t` the rule either fails on the spot, or it consumes tokens and then what was
    consumed before makes no difference. -/
def Rule.Forgets (r : Rule α) (t : Token) (ts : List Token) (eof : Token) : Prop :=
  (∃ reply, ∀ previous, r ⟨previous, t :: ts, eof⟩ = reply) ∨
    ∃ e, ∀ previous, r ⟨previous, t :: ts, eof⟩ = ⟨.error e, ⟨previous, t :: ts, eof⟩, []⟩

section

variable {t eof : Token} {ts : List Token}

namespace Rule.Forgets

theorem fail (e : ParseError) : (Grammar.fail e : Rule α).Forgets t ts eof := .inr ⟨e, fun _ => rfl⟩

theorem peek_bind {h : Token → Rule β} (hrest : (h t).Forgets t ts eof) :
    (Grammar.peek >>= h).Forgets t ts eof := hrest

theorem unexpected (x : Expectation) : (Grammar.unexpected x : Rule α).Forgets t ts eof :=
  peek_bind (fail _)

theorem tooDeep : (Grammar.tooDeep : Rule α).Forgets t ts eof := peek_bind (fail _)

theorem advance : Grammar.advance.Forgets t ts eof :=
  .inl ⟨⟨.ok (), ⟨some t, ts, eof⟩, []⟩, fun _ => rfl⟩

/-- What comes behind the first part of a rule is only run when that part has consumed tokens. -/
theorem bind {r : Rule α} {h : α → Rule β} (hr : r.Forgets t ts eof) :
    (r >>= h).Forgets t ts eof := by
  obtain ⟨reply, hreply⟩ | ⟨e, hfail⟩ := hr
  · refine .inl ⟨(r >>= h) ⟨none, t :: ts, eof⟩, fun previous => ?_⟩
    change Rule.bind r h _ = Rule.bind r h _
    simp only [Rule.bind, hreply]
  · refine .inr ⟨e, fun previous => ?_⟩
    rw [Rule.bind_apply_error (by rw [hfail]), hfail]

theorem peekSecond_bind {h : Token → Rule β} (hrest : ∀ u, (h u).Forgets t ts eof) :
    (peekSecond >>= h).Forgets t ts eof := hrest (ts.headD eof)

theorem atAssignment_bind {h : Bool → Rule β} (hrest : ∀ b, (h b).Forgets t ts eof) :
    (atAssignment >>= h).Forgets t ts eof := hrest (assignsPath (t :: ts))

end Rule.Forgets

open Rule (Forgets)

theorem forgets_keyword (word : Keyword) : (keyword word).Forgets t ts eof := by
  refine .peek_bind ?_
  split
  · exact .bind .advance
  · exact .unexpected _

/-- A path fails at its first token or consumes it. -/
theorem forgets_path : path.Forgets t ts eof := by
  have hname : (name .identifier).Forgets t ts eof := by
    refine .peek_bind ?_
    split
    · exact .bind .advance
    · exact .unexpected _
  exact .peek_bind (.bind hname)

private theorem forgets_factorRule {factor expression : Rule Expr} :
    (factorRule factor expression).Forgets t ts eof := by
  have hpath : (pathExpression expression).Forgets t ts eof := .bind forgets_path
  refine .peek_bind ?_
  split
  · split
    · exact .bind .advance
    · exact .unexpected _
  · exact .bind .advance
  · exact .bind .advance
  · refine .peekSecond_bind fun u => ?_
    split
    · exact .bind .advance
    · exact hpath
  · exact hpath
  · exact hpath
  · exact .unexpected _

private theorem forgets_expression (n : Nat) : (expression n).Forgets t ts eof := by
  cases n with
  | zero => exact .tooDeep
  | succ n =>
    have hfactor : (factor n).Forgets t ts eof := by
      cases n with
      | zero => exact .tooDeep
      | succ n => exact forgets_factorRule
    exact .bind hfactor

private theorem forgets_terminatedSimple (n : Nat) :
    (terminatedSimple (expression n)).Forgets t ts eof := by
  have hsimple : (simple (expression n)).Forgets t ts eof := by
    refine .atAssignment_bind fun b => ?_
    split
    · exact .bind forgets_path
    · exact .bind (forgets_expression n)
  exact .bind hsimple

private theorem forgets_conditional (n : Nat) : (conditional n).Forgets t ts eof := by
  cases n with
  | zero => exact .tooDeep
  | succ n => exact .bind (forgets_keyword _)

private theorem forgets_statement (n : Nat) : (statement n).Forgets t ts eof := by
  cases n with
  | zero => exact .tooDeep
  | succ n =>
    refine .peek_bind ?_
    split
    · exact .bind (.peek_bind (.bind .advance))
    · exact .bind (forgets_conditional n)
    · exact .bind (forgets_keyword _)
    · exact .bind (forgets_keyword _)
    · exact .bind (forgets_keyword _)
    · exact .peek_bind (.bind .advance)
    · exact .peek_bind (.bind .advance)
    · exact .bind (forgets_keyword _)
    · exact forgets_terminatedSimple n

/-- An attempt consumes a token in any case. -/
theorem exists_reply_recovering (n : Nat) (t : Token) (ts : List Token) (eof : Token) :
    ∃ reply, ∀ previous, recovering (statement n) ⟨previous, t :: ts, eof⟩ = reply := by
  refine ⟨recovering (statement n) ⟨none, t :: ts, eof⟩, fun previous => ?_⟩
  obtain ⟨reply, hreply⟩ | ⟨e, hfail⟩ := @forgets_statement t eof ts n
  · simp only [recovering, hreply, Cursor.remaining]
  · simp only [recovering, hfail, beq_self_eq_true, resume]

end

/-- The attempts of a program, failed ones included. -/
def attempts : Rule (List (Option Statement)) :=
  many insideProgram fun _ => recovering (statement maxNesting)

/-- At the end of the text none is made. -/
theorem attempts_of_insideProgram_eq_none {c : Cursor} (hend : insideProgram c.peek = none) :
    attempts c = ⟨.ok [], c, []⟩ := by
  rw [attempts, many, hend]

/-- What a text gives does not depend on what was consumed before it. -/
theorem exists_returns_attempts_previous (previous : Option Token) {ts : List Token} {eof : Token}
    (heof : eof.kind = .eof) {statements : List (Option Statement)} {d : Cursor}
    {es : List ParseError} (hreturns : attempts.Returns ⟨none, ts, eof⟩ statements d es) :
    ∃ d', attempts.Returns ⟨previous, ts, eof⟩ statements d' es := by
  cases hnext : insideProgram (ts.headD eof) with
  | none =>
    have hend : ∀ p, attempts ⟨p, ts, eof⟩ = ⟨.ok [], ⟨p, ts, eof⟩, []⟩ := fun _ =>
      attempts_of_insideProgram_eq_none hnext
    obtain ⟨rfl, -, rfl⟩ := Rule.Returns.unique hreturns (hend none)
    exact ⟨_, hend previous⟩
  | some u =>
    cases ts with
    | nil =>
      rw [List.headD_nil, insideProgram_eq_none_iff.2 heof] at hnext
      cases hnext
    | cons t ts =>
      rw [List.headD_cons] at hnext
      obtain ⟨reply, hreply⟩ := exists_reply_recovering maxNesting t ts eof
      have hsame : attempts ⟨previous, t :: ts, eof⟩ = attempts ⟨none, t :: ts, eof⟩ := by
        rw [attempts, many, many]
        simp only [Cursor.peek, List.headD_cons, hnext, hreply, Cursor.remaining]
      exact ⟨d, hsame.trans hreturns⟩

/-- The attempts in front of the semicolon come first, and they do not depend on what follows it. -/
theorem exists_attempts (stop : Terminator) (place : Place) :
    ∃ statements es, ∀ (tail : Tail) {others d fs},
      attempts.Returns (Place.behind.cursor stop tail) others d fs →
        attempts.Returns (place.cursor stop tail) (statements ++ others) d (es ++ fs) := by
  cases place with
  | behind => exact ⟨[], [], fun _ _ _ _ hothers => hothers⟩
  | front f =>
    obtain ⟨result, place, es, hrun⟩ := @exists_recovering stop maxNesting f
    have hshorter : place.length < (Place.front f).length :=
      length_lt_of_recovering (hrun ⟨[], stop.token⟩)
    obtain ⟨statements, es', hrest⟩ := exists_attempts stop place
    refine ⟨result :: statements, es ++ es', fun tail others d fs hothers => ?_⟩
    have hnext : insideProgram (f.cursor stop tail).peek = some () := by
      rw [Front.peek_cursor]
      exact insideProgram_eq_some_iff.2 Front.plain_peek.eof
    have hless : (place.cursor stop tail).remaining < (f.cursor stop tail).remaining := by
      have hf : (f.cursor stop tail).remaining = _ := Place.remaining_cursor (.front f) tail
      rw [Place.remaining_cursor, hf]
      omega
    have hmore := returns_many_iff.1 (hrest tail hothers)
    rw [List.append_assoc]
    exact returns_many_iff.2 (.more hnext (hrun tail) hless hmore)
termination_by place.length

/-- The parsed program keeps the statements of the attempts that succeeded. -/
theorem parsed_of_attempts {tokens : List Token} {last : Token} {statements : List (Option Statement)}
    {d : Cursor} {es : List ParseError} (hlast : tokens.getLast? = some last)
    (hreturns : attempts.Returns (Cursor.ofTokens tokens last) statements d es) :
    Parsed.ofTokens tokens = ⟨some ⟨statements.reduceOption⟩, es⟩ :=
  parsed_of_returns hlast (returns_program_iff.2 ⟨statements, returns_many_iff.1 hreturns, rfl⟩)

/-- A list of attempts never fails. -/
theorem exists_returns_attempts (c : Cursor) : ∃ statements d es, attempts.Returns c statements d es := by
  obtain ⟨statements, d, es, hrepeats⟩ : ∃ statements d es,
      Repeats insideProgram (fun _ => recovering (statement maxNesting)) c statements d es :=
    exists_repeats (fun _ c => exists_returns_recovering _ c) c
  exact ⟨statements, d, es, returns_many_iff.2 hrepeats⟩

/-- The front of a plain text that ends in a semicolon. -/
def Front.ofText (text : List Token) (hplain : ∀ t ∈ text, Plain t) : Front :=
  ⟨none, text.filter (!·.kind.isComment), fun t ht => hplain t (List.mem_filter.1 ht).1⟩

/-- The cursor in front of two texts, the first one without an end. -/
theorem ofTokens_append {a b : List Token} (hinside : ∀ t ∈ a, t.kind.isEof = false) (last : Token) :
    Cursor.ofTokens (a ++ b) last =
      ⟨none, a.filter (!·.kind.isComment) ++ code b, endOfText b last⟩ := by
  have hnone : a.find? (·.kind.isEof) = none := by
    rw [List.find?_eq_none]
    intro t ht
    rw [hinside t ht]
    exact Bool.false_ne_true
  rw [Cursor.ofTokens, Reader.code_append hinside, endOfText, List.find?_append, hnone,
    Option.none_or]
  rfl

/-- In front of a plain text, its semicolon and anything behind. -/
theorem cursor_ofTokens_append {text b : List Token} (stop : Terminator)
    (hplain : ∀ t ∈ text, Plain t) (last : Token) :
    Cursor.ofTokens (text ++ [stop.token] ++ b) last =
      (Front.ofText text hplain).cursor stop ⟨code b, endOfText b last⟩ := by
  have hsemicolon : stop.token.kind.isEof = false := by rw [stop.kind_token]; rfl
  have hinside : ∀ t ∈ text ++ [stop.token], t.kind.isEof = false := by
    refine List.forall_mem_append.2 ⟨fun t ht => ?_, List.forall_mem_singleton.2 hsemicolon⟩
    exact eq_false_of_ne_true (mt TokenKind.isEof_iff.1 (hplain t ht).eof)
  have hcode : stop.token.kind.isComment = false := by rw [stop.kind_token]; rfl
  rw [ofTokens_append hinside, List.filter_append, List.filter_cons_of_pos (by simp [hcode]),
    List.filter_nil, List.append_assoc]
  rfl

end GeoLang.Grammar

namespace GeoLang

open Grammar

/-- What is wrong in a plain text that ends in a semicolon stays there: a text behind it gives the
    same statements and errors as on its own, and the plain text the same as with nothing behind. -/
theorem Parsed.exists_append {a b : List Token} {eof : Token} (hplain : ∀ t ∈ a, Plain t)
    (hlast : ∃ s ∈ a.getLast?, s.kind = .punctuation .semicolon) (heof : eof.kind = .eof)
    (hne : b ≠ []) :
    ∃ p es q fs, Parsed.ofTokens (a ++ [eof]) = ⟨some p, es⟩ ∧ Parsed.ofTokens b = ⟨some q, fs⟩ ∧
      Parsed.ofTokens (a ++ b) = ⟨some ⟨p.statements ++ q.statements⟩, es ++ fs⟩ := by
  obtain ⟨s, hs, hsemicolon⟩ := hlast
  obtain ⟨text, rfl⟩ := List.getLast?_eq_some_iff.1 hs
  let stop : Terminator := ⟨s, hsemicolon⟩
  have htext : ∀ t ∈ text, Plain t := fun t ht => hplain t (List.mem_append_left _ ht)
  let last := b.getLast hne
  have hb : b.getLast? = some last := List.getLast?_eq_some_getLast hne
  obtain ⟨statements, es, hattempts⟩ := exists_attempts stop (.front (Front.ofText text htext))
  obtain ⟨others, d, fs, hothers⟩ := exists_returns_attempts (Cursor.ofTokens b last)
  refine ⟨⟨statements.reduceOption⟩, es, ⟨others.reduceOption⟩, fs, ?_,
    parsed_of_attempts hb hothers, ?_⟩
  · -- Nothing behind the semicolon: there are no more attempts.
    have hend : attempts.Returns (Place.behind.cursor stop ⟨[], eof⟩) [] _ [] :=
      attempts_of_insideProgram_eq_none (insideProgram_eq_none_iff.2 heof)
    have hreturns := hattempts ⟨[], eof⟩ hend
    have hcursor : Cursor.ofTokens (text ++ [s] ++ [eof]) eof =
        (Place.front (Front.ofText text htext)).cursor stop ⟨[], eof⟩ := by
      have hisEof : eof.kind.isEof = true := TokenKind.isEof_iff.2 heof
      rw [cursor_ofTokens_append stop htext eof]
      simp [code, endOfText, hisEof, Place.cursor]
    rw [← hcursor, List.append_nil, List.append_nil] at hreturns
    exact parsed_of_attempts (List.getLast?_concat ..) hreturns
  · -- The text behind the semicolon is attempted as on its own.
    obtain ⟨d', hbehind⟩ :=
      exists_returns_attempts_previous (some s) (kind_endOfText b last) hothers
    have hreturns := hattempts ⟨code b, endOfText b last⟩ hbehind
    have hcursor : Cursor.ofTokens (text ++ [s] ++ b) last =
        (Place.front (Front.ofText text htext)).cursor stop ⟨code b, endOfText b last⟩ :=
      cursor_ofTokens_append stop htext last
    rw [← hcursor] at hreturns
    have hlast : (text ++ [s] ++ b).getLast? = some last := by
      rw [List.getLast?_append, hb, Option.some_or]
    rw [parsed_of_attempts hlast hreturns]
    rw [List.reduceOption_append]

/-- A stray parenthesis in front of the semicolon, and behind it another one. -/
theorem Parsed.exists_append_stray :
    let name : Token := ⟨.identifier "x", "x", .empty .start⟩
    let close : Token := ⟨.punctuation .rParen, ")", .empty .start⟩
    let semicolon : Token := ⟨.punctuation .semicolon, ";", .empty .start⟩
    let eof : Token := .eofAt .start
    (∀ t ∈ [name, close, semicolon], Plain t) ∧
      (∃ s ∈ [name, close, semicolon].getLast?, s.kind = .punctuation .semicolon) ∧
        eof.kind = .eof ∧ [close] ≠ [] ∧
          ∃ p es q fs, Parsed.ofTokens ([name, close, semicolon] ++ [eof]) = ⟨some p, es⟩ ∧
            Parsed.ofTokens [close] = ⟨some q, fs⟩ ∧
              Parsed.ofTokens ([name, close, semicolon] ++ [close]) =
                ⟨some ⟨p.statements ++ q.statements⟩, es ++ fs⟩ := by
  intro name close semicolon eof
  have hplain : ∀ t ∈ [name, close, semicolon], Plain t := by
    intro t ht
    have hkind : t = name ∨ t = close ∨ t = semicolon := by simpa using ht
    obtain rfl | rfl | rfl := hkind
    · exact ⟨nofun, nofun, nofun, nofun⟩
    · exact ⟨nofun, nofun, nofun, nofun⟩
    · exact ⟨nofun, nofun, nofun, nofun⟩
  have hlast : ∃ s ∈ [name, close, semicolon].getLast?, s.kind = .punctuation .semicolon :=
    ⟨semicolon, rfl, rfl⟩
  have hne : [close] ≠ [] := List.cons_ne_nil _ _
  exact ⟨hplain, hlast, rfl, hne, Parsed.exists_append hplain hlast rfl hne⟩

end GeoLang
