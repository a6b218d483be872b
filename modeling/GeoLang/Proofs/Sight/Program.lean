import GeoLang.Proofs.Sight.Grammar

namespace GeoLang

open Grammar

variable {tokens tokens' : List Token}

namespace Grammar

private theorem endOfText_reclassed (htokens : List.Forall₂ Token.Reclassed tokens tokens')
    {last last' : Token} (hlast : last.Reclassed last') :
    (endOfText tokens last).Reclassed (endOfText tokens' last') := by
  unfold endOfText
  induction htokens with
  | nil =>
    change (Token.eofAt last.span.stop).Reclassed (Token.eofAt last'.span.stop)
    rw [hlast.span]
    exact .same _
  | cons ht hts ih =>
    rw [List.find?_cons, List.find?_cons, ht.isEof]
    split
    · exact ht
    · exact ih

private theorem code_reclassed (htokens : List.Forall₂ Token.Reclassed tokens tokens') :
    List.Forall₂ Token.Reclassed (code tokens) (code tokens') := by
  have hinside : List.Forall₂ Token.Reclassed (tokens.takeWhile (!·.kind.isEof))
      (tokens'.takeWhile (!·.kind.isEof)) := by
    induction htokens with
    | nil => exact .nil
    | cons ht hts ih =>
      rw [List.takeWhile_cons, List.takeWhile_cons, ht.isEof]
      split
      · exact .cons ht ih
      · exact .nil
  exact List.rel_filter (fun t t' ht => by simp [ht.isComment]) hinside

private theorem Cursor.reclassed_ofTokens (htokens : List.Forall₂ Token.Reclassed tokens tokens')
    {last last' : Token} (hlast : last.Reclassed last') :
    (Cursor.ofTokens tokens last).Reclassed (Cursor.ofTokens tokens' last') where
  previous := .none
  rest := code_reclassed htokens
  eof := endOfText_reclassed htokens hlast

end Grammar

private theorem getLast?_reclassed (htokens : List.Forall₂ Token.Reclassed tokens tokens') :
    Option.Rel Token.Reclassed tokens.getLast? tokens'.getLast? := by
  rw [List.getLast?_eq_head?_reverse, List.getLast?_eq_head?_reverse]
  have hreverse : List.Forall₂ Token.Reclassed tokens.reverse tokens'.reverse :=
    List.rel_reverse htokens
  generalize tokens.reverse = ts at hreverse ⊢
  generalize tokens'.reverse = ts' at hreverse ⊢
  cases hreverse with
  | nil => exact .none
  | cons ht => exact .some ht

/-- Lists of tokens that differ in the class of signs give the same program, and errors that differ
    in the names of these classes alone. -/
theorem Parsed.told_of_reclassed (htokens : List.Forall₂ Token.Reclassed tokens tokens') :
    (Parsed.ofTokens tokens).program = (Parsed.ofTokens tokens').program ∧
      List.Forall₂ ParseError.Told (Parsed.ofTokens tokens).errors
        (Parsed.ofTokens tokens').errors := by
  have hlasts := getLast?_reclassed htokens
  unfold Parsed.ofTokens
  generalize tokens.getLast? = last at hlasts ⊢
  generalize tokens'.getLast? = last' at hlasts ⊢
  cases hlasts with
  | none => exact ⟨rfl, .cons ⟨.same _, nofun⟩ .nil⟩
  | @some last last' hlast =>
    have hread := Rule.Overlooks.program _ _ (Cursor.reclassed_ofTokens htokens hlast)
    dsimp only
    generalize Grammar.program (Cursor.ofTokens tokens last) = x at hread ⊢
    generalize Grammar.program (Cursor.ofTokens tokens' last') = x' at hread ⊢
    cases hread with
    | ok p hcursor herrors => exact ⟨rfl, herrors⟩
    | error herror hcursor herrors => exact ⟨rfl, herrors⟩

/-- Storing signs with another class, arithmetic or unary, changes nothing about the program that a
    list of tokens gives. The errors are the same one by one, except that the text of a token that
    was found may name the class of a sign. -/
theorem Parsed.program_and_errors_of_reclassed
    (htokens : List.Forall₂ Token.Reclassed tokens tokens') :
    (Parsed.ofTokens tokens).program = (Parsed.ofTokens tokens').program ∧
      List.Forall₂ ParseError.Renamed (Parsed.ofTokens tokens).errors
        (Parsed.ofTokens tokens').errors := by
  obtain ⟨hprogram, herrors⟩ := Parsed.told_of_reclassed htokens
  exact ⟨hprogram, herrors.imp fun _ _ htold => htold.renamed⟩

/-- A minus sign joins two numbers, and another stands where a name is expected. The first is stored
    as a unary operator instead of an arithmetic one and the second the other way round. -/
theorem Parsed.program_and_errors_of_misplaced :
    let tokens (first second : Operator.Class) : List Token :=
      [⟨.identifier "a", "a", .none⟩, ⟨.operator .assignment .assign, "=", .none⟩,
        ⟨.literal (.integer 1), "1", .none⟩, ⟨.operator first .minus, "-", .none⟩,
        ⟨.literal (.integer 2), "2", .none⟩, ⟨.punctuation .semicolon, ";", .none⟩,
        ⟨.dataType .int, "int", .none⟩, ⟨.operator second .minus, "-", .none⟩,
        ⟨.punctuation .semicolon, ";", .none⟩]
    let x := Parsed.ofTokens (tokens .arithmetic .unary)
    let x' := Parsed.ofTokens (tokens .unary .arithmetic)
    (x.program = x'.program ∧ List.Forall₂ ParseError.Renamed x.errors x'.errors) ∧
      x.program.isSome = true ∧ x.errors ≠ x'.errors := by
  intro tokens x x'
  have harithmetic : Operator.Class.arithmetic ∈ [Operator.Class.arithmetic, .unary] := by decide
  have hunary : Operator.Class.unary ∈ [Operator.Class.arithmetic, .unary] := by decide
  have hsign : Operator.minus.isSign = true := rfl
  have hfirst := Token.Reclassed.sign hsign harithmetic hunary "-" .none
  have hsecond := Token.Reclassed.sign hsign hunary harithmetic "-" .none
  have htokens : List.Forall₂ Token.Reclassed (tokens .arithmetic .unary)
      (tokens .unary .arithmetic) :=
    .cons (.same _) <| .cons (.same _) <| .cons (.same _) <| .cons hfirst <| .cons (.same _) <|
      .cons (.same _) <| .cons (.same _) <| .cons hsecond <| .cons (.same _) .nil
  exact ⟨Parsed.program_and_errors_of_reclassed htokens, by decide +kernel, by decide +kernel⟩

end GeoLang
