import GeoLang.Analysis
import GeoLang.Proofs.Threshold.Assignment
import GeoLang.Proofs.Threshold.Declaration

namespace GeoLang

namespace Grammar

open Token (Alike)

private theorem ofTokens_front {front : List Token}
    (hfront : ∀ t ∈ front, t.kind.isComment = false ∧ t.kind ≠ .eof) (rest : List Token)
    (last : Token) :
    Cursor.ofTokens (front ++ rest) last = ⟨none, front ++ code rest, endOfText rest last⟩ := by
  have hinside : ∀ t ∈ front, t.kind.isEof = false := fun t ht =>
    eq_false_of_ne_true (mt TokenKind.isEof_iff.1 (hfront t ht).2)
  have hcode : front.filter (!·.kind.isComment) = front :=
    List.filter_eq_self.2 fun t ht => by simp [(hfront t ht).1]
  rw [ofTokens_append hinside, hcode]

private theorem alike_code {ts us : List Token} (halike : Alike ts us) : Alike (code ts)
    (code us) := by
  have hcode : ∀ vs : List Token, (code vs).map (fun t => (t.kind, t.lexeme)) =
      ((vs.map fun t => (t.kind, t.lexeme)).takeWhile (!·.1.isEof)).filter (!·.1.isComment) := by
    intro vs
    rw [List.takeWhile_map, List.filter_map, code]
    rfl
  rw [Alike, hcode, hcode, halike]

/-- Conditionals are read one level after the other, and what stands behind them as on its own. -/
theorem exists_attempts_conditionals {k : Nat} {c d : Cursor} {front us : List Token}
    {others : List (Option Statement)} {es : List ParseError}
    (hrest : c.rest = front ++ us) (hkinds : front.map Token.kind = conditionalKinds k)
    (heof : c.eof.kind = .eof) (helse : (us.headD c.eof).kind ≠ .keyword .elseKw)
    (hothers : attempts.Returns ⟨none, us, c.eof⟩ others d es) :
    ∃ outer d' fs, attempts.Returns c (outer ++ others) d' (fs ++ es) ∧
      outer.reduceOption.map Statement.bare = conditionals (min k 42) ∧ NotesDepth k 42 fs := by
  have hreads : c.Reads front ⟨front.getLast?.or c.previous, us, c.eof⟩ := ⟨hrest, rfl, rfl⟩
  obtain ⟨d', hbehind⟩ :=
    exists_returns_attempts_previous (front.getLast?.or c.previous) heof hothers
  cases k with
  | zero =>
    obtain rfl := List.map_eq_nil_iff.1 hkinds
    rw [hreads.eq_of_nil] at hbehind
    exact ⟨[], d', [], hbehind, rfl, by simp [NotesDepth]⟩
  | succ k =>
    obtain ⟨s, fs, hs, hbare, hnotes⟩ := exists_returns_conditionals 41 k hkinds hreads heof helse
    obtain ⟨x, body, rfl, -⟩ := Enclosing.exists_of_kinds hkinds
    obtain ⟨-, hpeek⟩ := hreads.of_cons
    have hne : c.rest ≠ [] := by
      rw [hrest]
      exact List.cons_ne_nil _ _
    have hattempts := attempts_cons hne (by simp [hpeek, x.kind_word])
      (returns_recovering_iff.2 (.read hs)) hbehind
    exact ⟨[some s], d', fs, hattempts, hbare, notesDepth_succ_iff.2 hnotes⟩

/-- A declaration behind conditionals that nest too deep is read, and so is what stands behind
    it. -/
theorem exists_attempts_conditionals_declaration {k : Nat} (hk : 42 < k) {c : Cursor}
    {front ts us more : List Token} {x : Declaration} (hrest : c.rest = front ++ us)
    (hkinds : front.map Token.kind = conditionalKinds k) (heof : c.eof.kind = .eof)
    (halike : Alike (ts ++ more) us) (hx : StatementDerives maxNesting (.declaration x) ts) :
    ∃ statements d es, attempts.Returns c statements d es ∧
      ∃ others span fs,
        statements.reduceOption.map Statement.bare = conditionals 42 ++ .declaration x.bare :: others ∧
          es = .nestingTooDeep 128 span :: fs ∧ (more = [] → others = [] ∧ Clean fs) := by
  obtain ⟨vs, ws, rfl, hvs, hws⟩ := halike.of_append
  have hreads : Cursor.Reads ⟨none, vs ++ ws, c.eof⟩ vs ⟨vs.getLast?.or none, ws, c.eof⟩ :=
    ⟨rfl, rfl, rfl⟩
  obtain ⟨⟨type, htype⟩, y, es, hreturns, hsame, hclean⟩ := exists_returns_of_alike hx hvs hreads
  obtain ⟨others, d, fs, hothers⟩ := exists_returns_attempts ⟨vs.getLast?.or none, ws, c.eof⟩
  have hne : vs ++ ws ≠ [] :=
    Cursor.rest_ne_nil_of_peek (c := ⟨none, vs ++ ws, c.eof⟩) heof (by simp [htype])
  have hbehind := attempts_cons hne (by simp [htype])
    (returns_recovering_iff.2 (.read hreturns)) hothers
  have hhead : ((vs ++ ws).headD c.eof).kind = .dataType type := htype
  obtain ⟨outer, d', gs, hattempts, houter, hnotes⟩ :=
    exists_attempts_conditionals hrest hkinds heof (by rw [hhead]; simp) hbehind
  rw [NotesDepth, if_neg (Nat.not_le_of_lt hk)] at hnotes
  obtain ⟨span, rfl⟩ := hnotes
  have hmin : min k 42 = 42 := Nat.min_eq_right (Nat.le_of_lt hk)
  refine ⟨_, _, _, hattempts, others.reduceOption.map Statement.bare, span, es ++ fs, ?_, rfl, ?_⟩
  · rw [List.reduceOption_append, List.map_append, houter, hmin]
    simp [Statement.bare, hsame]
  · rintro rfl
    obtain rfl := hws.eq_nil
    obtain ⟨rfl, -, rfl⟩ := Rule.Returns.unique hothers (attempts_of_rest_eq_nil rfl heof)
    exact ⟨rfl, hclean.append .nil⟩

end Grammar

open Grammar Lexical
open Token (Alike)

namespace Analysis

/-- A text that begins with such a piece is read as a whole, if the errors in what follows allow
    it. -/
theorem exists_of_spells (config : AnalysisConfig) {source behind : String} {cs : List Char}
    {kinds : List TokenKind} {P : List (Option Statement) → List ParseError → Prop}
    (hsource : source.toList = cs ++ behind.toList)
    (hspells : Spells .operand cs kinds .operand behind.toList)
    (hallowed : config.parseOnLexErrors = true ∨
      (Lexed.ofSource config.keepComments behind).errors = [])
    (hattempts : ∀ {c : Cursor} {front us : List Token}, c.rest = front ++ us → c.eof.kind = .eof →
      front.map Token.kind = kinds →
        Alike (code (Lexed.ofSource config.keepComments behind).tokens) us →
          ∃ statements d es, attempts.Returns c statements d es ∧ P statements es) :
    ∃ statements es, (ofSource config source).program = some ⟨statements.reduceOption⟩ ∧
      (ofSource config source).parseErrors = es ∧
        (ofSource config source).lexErrors.map LexError.fault =
          (Lexed.ofSource config.keepComments behind).errors.map LexError.fault ∧
          P statements es := by
  obtain ⟨front, rest, htokens, rfl, hrest, hfaults⟩ :=
    @Lexed.exists_of_spells config.keepComments source behind cs kinds hsource hspells
  have hfront : ∀ t ∈ front, t.kind.isComment = false ∧ t.kind ≠ .eof := fun t ht =>
    hspells.code t.kind (List.mem_map_of_mem ht)
  have hne : front ++ rest ≠ [] := by
    rw [← htokens]
    simp [Lexed.ofSource]
  have hlast := List.getLast?_eq_some_getLast hne
  have hcursor := ofTokens_front hfront rest ((front ++ rest).getLast hne)
  obtain ⟨statements, d, es, hreturns, hP⟩ :=
    hattempts (c := Cursor.ofTokens (front ++ rest) ((front ++ rest).getLast hne))
      (by rw [hcursor]) (by rw [hcursor]; exact kind_endOfText _ _) rfl (alike_code hrest)
  have hread : ((Lexed.ofSource config.keepComments source).errors.isEmpty ||
      config.parseOnLexErrors) = true := by
    obtain hparse | hnone := hallowed
    · rw [hparse, Bool.or_true]
    · rw [hnone] at hfaults
      rw [List.map_eq_nil_iff.1 hfaults]
      rfl
  have hparsed : parseLexed config (Lexed.ofSource config.keepComments source) =
      ⟨some ⟨statements.reduceOption⟩, es⟩ := by
    rw [parseLexed, if_pos hread, htokens, parsed_of_attempts hlast hreturns]
  exact ⟨statements, es, by simp only [ofSource, hparsed], by simp only [ofSource, hparsed], hfaults, hP⟩

/-- Nesting is allowed up to the depth `limit`. At a depth `k` beyond that there is one error, which
    says so. -/
structure NestsUpTo (limit k : Nat) (a : Analysis) : Prop where
  clean_iff : a.diagnostics = [] ↔ k ≤ limit
  tooDeep : limit < k → ∃ span, a.diagnostics = [.grammatical (.nestingTooDeep 128 span)]

/-- Without lexical errors, the errors of parsing are all. -/
theorem nestsUpTo_of_notesDepth {limit k : Nat} {a : Analysis} (hlex : a.lexErrors = [])
    (hnotes : NotesDepth k limit a.parseErrors) : NestsUpTo limit k a := by
  have hdiagnostics : a.diagnostics = a.parseErrors.map .grammatical := by
    rw [diagnostics, hlex]
    rfl
  rw [NotesDepth] at hnotes
  split at hnotes
  · next hk =>
    have hnone : a.diagnostics = [] := by rw [hdiagnostics, hnotes, List.map_nil]
    exact ⟨iff_of_true hnone hk, fun hless => absurd hk (Nat.not_le_of_lt hless)⟩
  · next hk =>
    obtain ⟨span, hspan⟩ := hnotes
    have hone : a.diagnostics = [.grammatical (.nestingTooDeep 128 span)] := by
      rw [hdiagnostics, hspan]
      rfl
    exact ⟨iff_of_false (by simp [hone]) hk, fun _ => ⟨span, hone⟩⟩

/-- An empty source has nothing but its end. -/
theorem ofSource_empty (keepComments : Bool) :
    Lexed.ofSource keepComments "" = ⟨[.eofAt .start], []⟩ := by
  have hnone : segments .operand "".toList = [] := by rw [String.toList_empty, segments]
  rw [Lexed.ofSource, hnone]
  rfl

/-- A text that is nothing but such a piece. -/
theorem exists_of_spells_all (config : AnalysisConfig) {source : String} {kinds : List TokenKind}
    {P : List (Option Statement) → List ParseError → Prop}
    (hspells : Spells .operand source.toList kinds .operand [])
    (hattempts : ∀ {c : Cursor}, c.rest.map Token.kind = kinds → c.eof.kind = .eof →
      ∃ statements d es, attempts.Returns c statements d es ∧ P statements es) :
    ∃ statements, (ofSource config source).program = some ⟨statements.reduceOption⟩ ∧
      (ofSource config source).lexErrors = [] ∧ P statements (ofSource config source).parseErrors := by
  have hnothing : source.toList = source.toList ++ "".toList := (List.append_nil _).symm
  have hnone : (Lexed.ofSource config.keepComments "").errors = [] := by rw [ofSource_empty]
  obtain ⟨statements, es, hprogram, rfl, hlex, hP⟩ :=
    exists_of_spells config (P := P) hnothing hspells (.inr hnone) fun hrest heof hkinds halike => by
      rw [ofSource_empty] at halike
      obtain rfl := halike.eq_nil
      exact hattempts (by rw [hrest, List.append_nil, hkinds]) heof
  rw [hnone] at hlex
  exact ⟨statements, hprogram, List.map_eq_nil_iff.1 hlex, hP⟩

/-- What is reported on a text that is nothing but such a piece, if its kinds are read like that. -/
theorem nestsUpTo_of_spells (config : AnalysisConfig) {source : String} {kinds : List TokenKind}
    {limit k : Nat} (hspells : Spells .operand source.toList kinds .operand [])
    (hattempts : ∀ {c : Cursor}, c.rest.map Token.kind = kinds → c.eof.kind = .eof →
      ∃ statements d es, attempts.Returns c statements d es ∧ NotesDepth k limit es) :
    NestsUpTo limit k (ofSource config source) := by
  obtain ⟨-, -, hlex, hnotes⟩ :=
    exists_of_spells_all config (P := fun _ es => NotesDepth k limit es) hspells hattempts
  exact nestsUpTo_of_notesDepth hlex hnotes

/-- The depths up to which texts may nest. Beyond them there is one error: nesting is too deep. Of
    conditionals the outer ones are returned then, and a declaration behind them is still read. -/
theorem nesting_thresholds (config : AnalysisConfig) (k : Nat) :
    NestsUpTo 62 k (ofSource config (groupText k)) ∧
      NestsUpTo 125 k (ofSource config (powerText k)) ∧
      NestsUpTo 125 k (ofSource config (negationText k)) ∧
      NestsUpTo 42 k (ofSource config (conditionalText k)) ∧
      (42 < k → ∃ p, (ofSource config (conditionalText k)).program = some p ∧
        p.bare = ⟨conditionals 42⟩) ∧
      ∀ (behind : String) (x : Declaration) (ts more : List Token), 42 < k →
        code (Lexed.ofSource config.keepComments behind).tokens = ts ++ more →
        StatementDerives maxNesting (.declaration x) ts →
        (config.parseOnLexErrors = true ∨ (Lexed.ofSource config.keepComments behind).errors = []) →
          ∃ p others span es, (ofSource config (conditionalText k ++ behind)).program = some p ∧
            p.bare.statements = conditionals 42 ++ .declaration x.bare :: others ∧
              (ofSource config (conditionalText k ++ behind)).parseErrors =
                .nestingTooDeep 128 span :: es ∧
                (more = [] → others = [] ∧ Clean es) := by
  have hconditionals := exists_of_spells_all config (spells_conditionalText k [])
    (P := fun statements es =>
      statements.reduceOption.map Statement.bare = conditionals (min k 42) ∧ NotesDepth k 42 es)
    fun {c} hkinds heof => by
      have hnothing : attempts.Returns ⟨none, [], c.eof⟩ [] _ [] := attempts_of_rest_eq_nil rfl heof
      have helse : (([] : List Token).headD c.eof).kind ≠ .keyword .elseKw := by simp [heof]
      obtain ⟨outer, d, es, hattempts, houter, hnotes⟩ := exists_attempts_conditionals
        (List.append_nil _).symm hkinds heof helse hnothing
      rw [List.append_nil, List.append_nil] at hattempts
      exact ⟨outer, d, es, hattempts, houter, hnotes⟩
  obtain ⟨statements, hprogram, hlex, hbare, hnotes⟩ := hconditionals
  refine ⟨nestsUpTo_of_spells config (spells_groupText k []) fun hkinds heof =>
      exists_attempts_groups heof hkinds,
    nestsUpTo_of_spells config (spells_powerText k []) fun hkinds heof =>
      exists_attempts_powers heof hkinds,
    nestsUpTo_of_spells config (spells_negationText k []) fun hkinds heof =>
      exists_attempts_negations heof hkinds,
    nestsUpTo_of_notesDepth hlex hnotes, fun hk => ⟨_, hprogram, ?_⟩,
    fun behind x ts more hk hcode hx hallowed => ?_⟩
  · rw [Program.bare, hbare, Nat.min_eq_right (Nat.le_of_lt hk)]
  · obtain ⟨statements, es, hprogram, herrors, -, others, span, fs, hbare, rfl, hrest⟩ :=
      exists_of_spells config String.toList_append
        (spells_conditionalText k behind.toList) hallowed fun hrest heof hkinds halike =>
          exists_attempts_conditionals_declaration hk hrest hkinds heof (hcode ▸ halike) hx
    exact ⟨_, others, span, fs, hprogram, hbare, herrors, hrest⟩

/-- A declaration behind a thousand conditionals. -/
theorem nesting_thresholds_thousand :
    ∃ p span, (ofSource {} (conditionalText 1000 ++ "int n;")).program = some p ∧
      p.bare.statements =
        conditionals 42 ++ [.declaration ⟨.int, ⟨"n", none, none, .none⟩, [], .none⟩] ∧
        ∃ es, (ofSource {} (conditionalText 1000 ++ "int n;")).parseErrors =
          .nestingTooDeep 128 span :: es ∧ Clean es := by
  let type : Token := ⟨.dataType .int, "int", ⟨⟨0, 0, 0⟩, ⟨3, 0, 3⟩⟩⟩
  let name : Token := ⟨.identifier "n", "n", ⟨⟨4, 0, 4⟩, ⟨5, 0, 5⟩⟩⟩
  let semicolon : Token := ⟨.punctuation .semicolon, ";", ⟨⟨5, 0, 5⟩, ⟨6, 0, 6⟩⟩⟩
  let x : Declaration := ⟨.int, ⟨"n", none, none, .none⟩, [], .none⟩
  have hcode : code (Lexed.ofSource false "int n;").tokens = [type, name, semicolon] ++ [] := by
    decide +kernel
  have hdeclarator : DeclaratorForm (ExpressionDerives 127) x.first [name] := .mk rfl .none .none
  have hdeclaration : DeclarationForm (ExpressionDerives 127) x [type, name] :=
    .mk rfl hdeclarator .nil
  have hx : StatementDerives maxNesting (.declaration x) [type, name, semicolon] :=
    .declaration hdeclaration rfl
  obtain ⟨-, -, -, -, -, hbehind⟩ := nesting_thresholds {} 1000
  obtain ⟨p, others, span, es, hprogram, hbare, herrors, hrest⟩ :=
    hbehind "int n;" x _ [] (by decide) hcode hx (.inl rfl)
  obtain ⟨rfl, hclean⟩ := hrest rfl
  exact ⟨p, span, hprogram, hbare, es, herrors, hclean⟩

end Analysis

end GeoLang
