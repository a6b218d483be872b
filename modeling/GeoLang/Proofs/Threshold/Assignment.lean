import GeoLang.Proofs.Recovery.Header
import GeoLang.Proofs.Threshold.Text

namespace GeoLang.Grammar

open Rule (Exhausts)

/-- The two tokens that an assignment to a variable begins with. -/
structure Target where
  name : String
  target : Token
  assign : Token
  kind_target : target.kind = .identifier name
  kind_assign : assign.kind = .operator .assignment .assign

namespace Target

/-- The tokens of the target, in front of the value. -/
def tokens (x : Target) : List Token := [x.target, x.assign]

/-- Tokens of these kinds begin with a target. -/
theorem exists_of_kinds {name : String} {kinds : List TokenKind} {ts : List Token}
    (hkinds : ts.map Token.kind = targetKinds name ++ kinds) :
    ∃ (x : Target) (us : List Token), ts = x.tokens ++ us ∧ us.map Token.kind = kinds := by
  obtain ⟨front, us, rfl, hfront, hus⟩ := List.map_eq_append_iff.1 hkinds
  obtain ⟨target, _, rfl, htarget, hfront⟩ := List.map_eq_cons_iff.1 hfront
  obtain ⟨assign, rfl, hassign⟩ := List.map_eq_singleton_iff.1 hfront
  exact ⟨⟨name, target, assign, htarget, hassign⟩, us, rfl, hus⟩

variable {x : Target} {c c' d : Cursor} {n : Nat}

/-- The look ahead finds the assignment. -/
theorem assignsPath (hreads : c.Reads x.tokens c') : assignsPath c.rest = true := by
  have hname : x.target.kind.isName = true := by rw [x.kind_target]; rfl
  have hdot : x.assign.kind.isPunctuation .dot = false := by rw [x.kind_assign]; rfl
  rw [hreads.rest, tokens, List.cons_append, List.cons_append, Grammar.assignsPath, hname, hdot,
    x.kind_assign]
  rfl

/-- The target is read up to its operator. -/
theorem exists_returns_path (hreads : c.Reads x.tokens c') :
    ∃ p, path.Returns c p c.advance [] ∧ c.advance.peek = x.assign ∧ c' = c.advance.advance := by
  obtain ⟨hrest, hpeek⟩ := hreads.of_cons
  obtain ⟨hassign, hc'⟩ := hrest.of_singleton
  obtain ⟨p, hp⟩ := @returns_path_of_isName c (by rw [hpeek, x.kind_target]; rfl)
    (by simp [hassign, x.kind_assign])
  exact ⟨p, hp, hassign, hc'⟩

theorem opensForm (hreads : c.Reads x.tokens c') : c.peek.kind.opensForm = false := by
  obtain ⟨-, hpeek⟩ := hreads.of_cons
  rw [hpeek, x.kind_target]
  rfl

/-- With a value that is read, the assignment is a statement. -/
theorem exists_returns (hreads : c.Reads x.tokens c') {e : Expr}
    (hvalue : (expression n).Returns c' e d []) (hend : d.peek.kind = .punctuation .semicolon) :
    ∃ s, (statement (n + 1)).Returns c s d.advance [] := by
  obtain ⟨p, hp, hassign, rfl⟩ := exists_returns_path hreads
  have hop : c.advance.peek.kind.assignment? = some .assign := by rw [hassign, x.kind_assign]; rfl
  have hassignment : (assignment (expression n)).Returns c _ d [] :=
    returns_assignment_iff.2 ⟨p, _, [], .assign, e, [], hp, hop, hvalue, rfl, rfl⟩
  have hsimple := returns_simple_iff.2 (.assignment (assignsPath hreads) hassignment)
  have hterminated := returns_terminatedSimple_iff.2 ⟨_, d, hsimple, hend, rfl, rfl⟩
  exact ⟨_, returns_statementRule_iff.2 (.simple (opensForm hreads) hterminated)⟩

/-- Without levels for its value, the assignment fails where the value does. -/
theorem exhausts (hreads : c.Reads x.tokens c') (hvalue : (expression n).Exhausts c' d) :
    (statement (n + 1)).Exhausts c d := by
  obtain ⟨p, hp, hassign, rfl⟩ := exists_returns_path hreads
  have hop : c.advance.peek.kind.assignment? = some .assign := by rw [hassign, x.kind_assign]; rfl
  obtain ⟨-, hpeek⟩ := hreads.of_cons
  have hassignment : (assignment (expression n)).Exhausts c d := by
    refine .bind_behind hp (.peek_bind ?_)
    simp only [hop]
    exact .bind_behind rfl (hvalue.bind _)
  have hahead : atAssignment.Returns c true c [] := by
    rw [Rule.Returns, atAssignment, assignsPath hreads]
  have hsimple : (simple (expression n)).Exhausts c d := .bind_behind hahead hassignment
  refine .peek_bind ?_
  simp only [hpeek, x.kind_target]
  exact hsimple.bind _

/-- Where the value of an assignment nests too deep, reading goes on behind the value. -/
theorem exists_returns_recovering {value us : List Token} (hreads : c.Reads x.tokens c')
    (hrest : c'.rest = value ++ us) (hvalue : ∀ t ∈ value, InHeader t)
    (hexhausts : (expression n).Exhausts c' d) (hahead : us <:+ d.rest) :
    ∃ previous, Midway previous ∧
      (recovering (statement (n + 1))).Returns c none (skipToBoundary 0 previous c.eof us)
        [.nestingTooDeep maxNesting d.peek.span] := by
  have hfails := exhausts hreads hexhausts
  obtain ⟨used, hused⟩ := (Composed.statement (n + 1)).exists_reads c
  rw [hfails] at hused
  have hwhole : c.rest = x.target :: ((x.assign :: value) ++ us) := by
    rw [hreads.rest, hrest]
    rfl
  have hbrace : x.target.kind.isBrace = false := by rw [x.kind_target]; rfl
  have hassign : InHeader x.assign :=
    ⟨by rw [x.kind_assign]; rfl, by simp [x.kind_assign], by rw [x.kind_assign]; rfl⟩
  obtain ⟨previous, hprevious, hresume⟩ := exists_resume_header hwhole hbrace
    (by simp [x.kind_target]) (List.forall_mem_cons.2 ⟨hassign, hvalue⟩) hused hahead
  have hskipped := returns_recovering_iff.2 (.skipped hfails)
  rw [hresume] at hskipped
  exact ⟨previous, hprevious, hskipped⟩

end Target

/-- Where the text ends, so do the attempts. -/
theorem attempts_of_rest_eq_nil {c : Cursor} (hrest : c.rest = []) (heof : c.eof.kind = .eof) :
    attempts.Returns c [] c [] := by
  have hpeek : c.peek.kind = .eof := by rw [Cursor.peek, hrest, List.headD_nil, heof]
  exact attempts_of_insideProgram_eq_none (insideProgram_eq_none_iff.2 hpeek)

namespace Target

variable {x : Target} {c c' d : Cursor}

theorem rest_ne_nil (hreads : c.Reads x.tokens c') : c.rest ≠ [] := by
  rw [hreads.rest]
  exact List.cons_ne_nil _ _

theorem kind_peek_ne_eof (hreads : c.Reads x.tokens c') : c.peek.kind ≠ .eof := by
  obtain ⟨-, hpeek⟩ := hreads.of_cons
  simp [hpeek, x.kind_target]

/-- A program of one assignment that is read notes nothing. -/
theorem exists_attempts (hreads : c.Reads x.tokens c') (heof : c.eof.kind = .eof) {e : Expr}
    (hvalue : (expression 127).Returns c' e d []) (heof' : d.eof = c.eof)
    (hend : d.rest.map Token.kind = [.punctuation .semicolon]) :
    ∃ statements d', attempts.Returns c statements d' [] := by
  obtain ⟨s, hrest, hs⟩ := List.map_eq_singleton_iff.1 hend
  have hpeek : d.peek = s := by rw [Cursor.peek, hrest, List.headD_cons]
  have hadvance : d.advance = ⟨some s, [], d.eof⟩ := by rw [Cursor.advance, hrest]
  obtain ⟨statement, hstatement⟩ := exists_returns hreads hvalue (by rw [hpeek, hs])
  have hnothing : attempts.Returns d.advance [] d.advance [] :=
    attempts_of_rest_eq_nil (by rw [hadvance]) (by rw [hadvance, heof', heof])
  exact ⟨_, _, attempts_cons (rest_ne_nil hreads) (kind_peek_ne_eof hreads)
    (returns_recovering_iff.2 (.read hstatement)) hnothing⟩

/-- Where the value has too many levels, the rest of it is skipped, and the attempts go on as behind
    any other statement. -/
theorem exists_attempts_skipped (hreads : c.Reads x.tokens c') {value us : List Token}
    (hrest : c'.rest = value ++ us) (hvalue : ∀ t ∈ value, InHeader t)
    (hexhausts : (expression 127).Exhausts c' d) (hahead : us <:+ d.rest)
    (hmore : ∀ previous, Midway previous → ∃ statements d',
      attempts.Returns (skipToBoundary 0 previous c.eof us) statements d' []) :
    ∃ statements d' span, attempts.Returns c statements d' [.nestingTooDeep maxNesting span] := by
  obtain ⟨previous, hprevious, hskipped⟩ :=
    exists_returns_recovering hreads hrest hvalue hexhausts hahead
  obtain ⟨statements, d', hstatements⟩ := hmore previous hprevious
  exact ⟨_, _, _, attempts_cons (rest_ne_nil hreads) (kind_peek_ne_eof hreads) hskipped hstatements⟩

end Target

/-- What is left of a text where a value was skipped up to the semicolon at its end. -/
theorem exists_attempts_semicolon {us : List Token} {eof : Token} (heof : eof.kind = .eof)
    (hkinds : us.map Token.kind = [.punctuation .semicolon]) (previous : Option Token)
    (hprevious : Midway previous) :
    ∃ statements d, attempts.Returns (skipToBoundary 0 previous eof us) statements d [] := by
  obtain ⟨s, rfl, hs⟩ := List.map_eq_singleton_iff.1 hkinds
  have hboundary : isBoundary previous s = false :=
    isBoundary_eq_false_iff.2 ⟨hprevious, by simp [hs], by rw [hs]; rfl⟩
  have hskip : skipToBoundary 0 previous eof [s] = ⟨some s, [], eof⟩ := by
    rw [skipToBoundary, if_neg (by simp [hboundary]), skipToBoundary]
  rw [hskip]
  exact ⟨_, _, attempts_of_rest_eq_nil rfl heof⟩

/-- What is left of a text where a value was skipped up to the variable at its end: it is a
    statement by itself. -/
theorem exists_attempts_identifier {us : List Token} {eof : Token} {name : String}
    (heof : eof.kind = .eof)
    (hkinds : us.map Token.kind = [.identifier name, .punctuation .semicolon])
    (previous : Option Token) :
    ∃ statements d, attempts.Returns (skipToBoundary 0 previous eof us) statements d [] := by
  obtain ⟨t, _, rfl, ht, hus⟩ := List.map_eq_cons_iff.1 hkinds
  obtain ⟨s, rfl, hs⟩ := List.map_eq_singleton_iff.1 hus
  have hboundary : isBoundary previous t = true := by
    simp [isBoundary, ht, TokenKind.startsStatement]
  let c : Cursor := ⟨previous, [t, s], eof⟩
  have hpeek : c.peek.kind = .identifier name := ht
  have hends : EndsOperand s := (EndsRow.of_punctuation hs (by simp) (by simp) : EndsRow 1 s).toEndsOperand
  obtain ⟨e, he⟩ := exists_returns_factor_identifier 125 (c := c) ht hends
  have hvalue : (expression 127).Returns c e c.advance [] :=
    returns_binary_of_factor he (by simp [c, jointAt, Cursor.advance, Cursor.peek, hs, TokenKind.operator?])
  have hnoAssignment : assignsPath c.rest = false := by
    simp [c, assignsPath, ht, hs, TokenKind.isName, TokenKind.isPunctuation, TokenKind.assignment?]
  have hsimple := returns_simple_iff.2 (.expression hnoAssignment hvalue)
  have hterminated := returns_terminatedSimple_iff.2 ⟨_, c.advance, hsimple, hs, rfl, rfl⟩
  have hstatement : (statement maxNesting).Returns c _ _ [] :=
    returns_statementRule_iff.2 (.simple (by rw [hpeek]; rfl) hterminated)
  rw [skipToBoundary_of_boundary hboundary]
  exact ⟨_, _, attempts_cons (List.cons_ne_nil _ _) (by simp [hpeek])
    (returns_recovering_iff.2 (.read hstatement)) (attempts_of_rest_eq_nil rfl heof)⟩

section

variable {k : Nat} {c : Cursor}

/-- An assignment to a variable takes in all the tokens of a text. -/
theorem Target.exists_reads {name : String} {kinds ends : List TokenKind}
    (hkinds : c.rest.map Token.kind = targetKinds name ++ (kinds ++ ends)) :
    ∃ (x : Target) (c' d : Cursor) (value : List Token), c.Reads x.tokens c' ∧ c'.Reads value d ∧
      value.map Token.kind = kinds ∧ d.rest.map Token.kind = ends := by
  obtain ⟨x, ts, hrest, hts⟩ := Target.exists_of_kinds hkinds
  obtain ⟨value, us, rfl, hvalue, hus⟩ := List.map_eq_append_iff.1 hts
  have hreads : c.Reads (x.tokens ++ value) ⟨_, us, c.eof⟩ :=
    ⟨by rw [hrest, List.append_assoc], rfl, rfl⟩
  obtain ⟨c', hfirst, hsecond⟩ := hreads.of_append
  exact ⟨x, c', _, value, hfirst, hsecond, hvalue, hus⟩

/-- A value that is read where there are levels for it, and runs out of levels within itself where
    there are not. -/
theorem exists_attempts_value {limit : Nat} {name : String} {kinds : List TokenKind}
    (heof : c.eof.kind = .eof)
    (hkinds : c.rest.map Token.kind = targetKinds name ++ (kinds ++ [.punctuation .semicolon]))
    (hinside : ∀ kind ∈ kinds,
      kind.isBrace = false ∧ kind ≠ .punctuation .semicolon ∧ kind.startsStatement = false)
    (hreturns : k ≤ limit → ∀ {c d ts}, ts.map Token.kind = kinds → c.Reads ts d →
      jointAt 1 d.peek = none → ∃ e, (expression 127).Returns c e d [])
    (hexhausts : limit < k → ∀ {c d ts}, ts.map Token.kind = kinds → c.Reads ts d →
      ∃ d', (expression 127).Exhausts c d' ∧ d.rest <:+ d'.rest) :
    ∃ statements d es, attempts.Returns c statements d es ∧ NotesDepth k limit es := by
  obtain ⟨x, c', d, value, hfirst, hsecond, hvalue, hend⟩ := Target.exists_reads hkinds
  by_cases hk : k ≤ limit
  · have hstop : jointAt 1 d.peek = none := by
      obtain ⟨s, hs, hkind⟩ := List.map_eq_singleton_iff.1 hend
      simp [jointAt, Cursor.peek, hs, hkind, TokenKind.operator?]
    obtain ⟨e, he⟩ := hreturns hk hvalue hsecond hstop
    obtain ⟨statements, d', hattempts⟩ :=
      Target.exists_attempts hfirst heof he (hsecond.eof.trans hfirst.eof) hend
    exact ⟨_, _, _, hattempts, by simp [NotesDepth, hk]⟩
  · obtain ⟨d', htooDeep, hahead⟩ := hexhausts (Nat.lt_of_not_le hk) hvalue hsecond
    rw [← hvalue] at hinside
    obtain ⟨statements, d'', span, hattempts⟩ := Target.exists_attempts_skipped hfirst hsecond.rest
      (inHeader_of_kinds hinside) htooDeep hahead (exists_attempts_semicolon heof hend)
    exact ⟨_, _, _, hattempts, by simp [NotesDepth, hk]⟩

/-- Groups take two levels each. -/
theorem exists_attempts_groups (heof : c.eof.kind = .eof)
    (hkinds : c.rest.map Token.kind =
      targetKinds "x" ++ (groupKinds k ++ [.punctuation .semicolon])) :
    ∃ statements d es, attempts.Returns c statements d es ∧ NotesDepth k 62 es := by
  have hplain : ∀ kind ∈ [TokenKind.punctuation .lParen, .literal (.integer 1), .punctuation .rParen],
      kind.isBrace = false ∧ kind ≠ .punctuation .semicolon ∧ kind.startsStatement = false := by decide
  refine exists_attempts_value heof hkinds (fun kind hkind => hplain kind ?_)
    (fun hk => exists_returns_groups k (by omega)) (fun hk => exists_exhausts_groups k (by omega))
  simp only [groupKinds_eq, List.mem_append, List.mem_flatten, List.mem_replicate] at hkind
  grind

/-- Powers group to the right, each one in a level of its own. -/
theorem exists_attempts_powers (heof : c.eof.kind = .eof)
    (hkinds : c.rest.map Token.kind =
      targetKinds "x" ++ (powerKinds k ++ [.punctuation .semicolon])) :
    ∃ statements d es, attempts.Returns c statements d es ∧ NotesDepth k 125 es := by
  have hplain : ∀ kind ∈ [TokenKind.literal (.integer 2), .operator .arithmetic .exponent],
      kind.isBrace = false ∧ kind ≠ .punctuation .semicolon ∧ kind.startsStatement = false := by decide
  refine exists_attempts_value heof hkinds (fun kind hkind => hplain kind ?_)
    (fun hk => exists_returns_powers k (by omega) (Nat.le_refl 1) (by omega))
    (fun hk => exists_exhausts_powers k (by omega) (by omega))
  simp only [powerKinds_eq, List.mem_cons, List.mem_flatten, List.mem_replicate] at hkind
  grind

/-- Negations take one level each. -/
theorem exists_attempts_negations (heof : c.eof.kind = .eof)
    (hkinds : c.rest.map Token.kind =
      targetKinds "b" ++ (List.replicate k (.operator .logical .logicalNot) ++
        [.identifier "x", .punctuation .semicolon])) :
    ∃ statements d es, attempts.Returns c statements d es ∧ NotesDepth k 125 es := by
  obtain ⟨x, c', d, value, hfirst, hsecond, hvalue, hend⟩ := Target.exists_reads hkinds
  by_cases hk : k ≤ 125
  · obtain ⟨t, us, hrest, ht, hus⟩ := List.map_eq_cons_iff.1 hend
    obtain ⟨s, rfl, hs⟩ := List.map_eq_singleton_iff.1 hus
    have hadvance : d.advance = ⟨some t, [s], d.eof⟩ := by rw [Cursor.advance, hrest]
    have hname : d.peek.kind = .identifier "x" := by rw [Cursor.peek, hrest, List.headD_cons, ht]
    have hends : EndsRow 1 d.advance.peek := by
      rw [hadvance]
      exact .of_punctuation hs (by simp) (by simp)
    obtain ⟨e, he⟩ := exists_returns_negations k (by omega : k + 1 ≤ 126) hvalue hsecond hname
      hends.toEndsOperand
    have hexpression : (expression 127).Returns c' e d.advance [] :=
      returns_binary_of_factor he hends.notJoint
    obtain ⟨statements, d', hattempts⟩ := Target.exists_attempts hfirst heof hexpression
      (by rw [hadvance]; exact hsecond.eof.trans hfirst.eof) (by rw [hadvance]; exact hus)
    exact ⟨_, _, _, hattempts, by simp [NotesDepth, hk]⟩
  · obtain ⟨d', htooDeep, hahead⟩ :=
      exists_exhausts_negations k (by omega : 126 ≤ k) hvalue hsecond
    have hinside : ∀ kind ∈ value.map Token.kind, kind.isBrace = false ∧
        kind ≠ .punctuation .semicolon ∧ kind.startsStatement = false := by
      intro kind hkind
      rw [hvalue] at hkind
      rw [List.eq_of_mem_replicate hkind]
      decide
    obtain ⟨statements, d'', span, hattempts⟩ := Target.exists_attempts_skipped hfirst hsecond.rest
      (inHeader_of_kinds hinside) (exhausts_binary_of_factor htooDeep 1) hahead
      (fun previous _ => exists_attempts_identifier heof hend previous)
    exact ⟨_, _, _, hattempts, by simp [NotesDepth, hk]⟩

end

end GeoLang.Grammar
