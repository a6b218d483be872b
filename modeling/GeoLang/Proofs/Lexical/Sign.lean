import GeoLang.Proofs.Lexical.Rewriting

namespace GeoLang

/-- The last of the tokens, comments aside, is one behind which a sign joins two operands. -/
def Token.EndInValue (ts : List Token) : Prop :=
  ∃ u ∈ (ts.filter (!·.kind.isComment)).getLast?, u.category.producesValue = true

/-- What the tokens `before` say about the signs of the token `t` of `source` behind them. -/
structure Token.SignFits (source : String) (before : List Token) (t : Token) : Prop where
  arithmetic_iff : ∀ cls op, t.kind = .operator cls op → op.isSign = true →
    (cls = .arithmetic ↔ EndInValue before)
  unary_iff : ∀ cls op, t.kind = .operator cls op → op.isSign = true →
    (cls = .unary ↔ ¬ EndInValue before)
  number : ∀ v, t.kind = .literal v → (v.kind = .integer ∨ v.kind = .real) →
    Lexical.startsWith Lexical.isSignChar t.lexeme.toList = true → ¬ EndInValue before
  digit : ∀ op, t.kind = .operator .unary op → op.isSign = true →
    ∃ rest, Text.dropBytes? t.span.stop.offset source.toList = some rest ∧
      Lexical.startsWith Char.isDigit rest = false

private theorem Token.not_endInValue_nil : ¬ EndInValue [] := by
  rintro ⟨u, hu, -⟩
  cases hu

private theorem Token.endInValue_concat_of_isComment {ts : List Token} {t : Token}
    (hcomment : t.kind.isComment = true) : EndInValue (ts ++ [t]) ↔ EndInValue ts := by
  simp [EndInValue, hcomment]

private theorem Token.endInValue_concat {ts : List Token} {t : Token}
    (hcode : t.kind.isComment = false) :
    EndInValue (ts ++ [t]) ↔ t.category.producesValue = true := by
  simp [EndInValue, hcode]

namespace Lexical

/-- The lead is what the tokens `before` leave in front of the text `rest`. -/
structure Lead.Behind (lead : Lead) (before : List Token) (rest : List Char) : Prop where
  operand_iff : lead = .operand ↔ ¬ Token.EndInValue before
  point : lead = .owner → rest.head? = some '.'

private theorem Lead.afterToken_eq_operand_iff {kind : TokenKind} {rest : List Char} :
    afterToken kind rest = .operand ↔ kind.category.producesValue = false := by
  unfold afterToken
  split
  · next hvalue =>
    rw [hvalue]
    split
    · split <;> simp
    · split <;> simp
    · simp
  · next hvalue => simpa using hvalue

private theorem Lead.behind_nil (rest : List Char) : Lead.operand.Behind [] rest :=
  ⟨by simp [Token.not_endInValue_nil], nofun⟩

private theorem kind_isComment_of_scan {lead : Lead} {c : Char} {cs : List Char} {kind : TokenKind}
    {lexeme : String} (hscan : (scan lead c cs).content = .token kind lexeme) :
    kind.isComment = false := by
  have hpiece := piece_scan lead c cs
  generalize c :: cs.take (scan lead c cs).extra = chars at hpiece
  rw [hscan] at hpiece
  cases hpiece with
  | token hkind => exact hkind.isComment_eq_false

/-- Where a point belongs to a name, the scanner finds the point. -/
theorem Lead.Behind.ne_owner {lead : Lead} {before : List Token} {c : Char} {cs : List Char}
    (hbehind : lead.Behind before (c :: cs)) (htoken : (scan lead c cs).content.token? = none) :
    lead ≠ .owner := by
  rintro rfl
  obtain rfl : c = '.' := Option.some.inj (hbehind.point rfl)
  cases htoken

/-- The lead stays right from one segment to the next. -/
theorem Lead.Behind.next {lead : Lead} {before : List Token} {cs rest : List Char}
    {content : Content} (hbehind : lead.Behind before cs)
    (hkind : ∀ kind lexeme, content = .token kind lexeme → kind.isComment = false)
    (howner : content.token? = none → lead ≠ .owner) (keepComments : Bool) (chars : List Char)
    (span : Span) :
    (lead.next content rest).Behind
      (before ++ (token? keepComments (⟨chars, content⟩, span)).toList) rest := by
  cases content with
  | token kind lexeme =>
    have hends : Token.EndInValue (before ++ [⟨kind, lexeme, span⟩]) ↔
        kind.category.producesValue = true := Token.endInValue_concat (hkind kind lexeme rfl)
    refine ⟨?_, Lead.head?_of_afterToken⟩
    rw [token?, Option.toList_some, hends, Bool.not_eq_true]
    exact Lead.afterToken_eq_operand_iff
  | comment body =>
    have hends : Token.EndInValue (before ++ [⟨.comment body, body, span⟩]) ↔
        Token.EndInValue before := Token.endInValue_concat_of_isComment rfl
    rw [next_of_token?_eq_none rfl]
    refine ⟨?_, fun heq => absurd heq (howner rfl)⟩
    cases keepComments with
    | false => simpa [token?] using hbehind.operand_iff
    | true => simpa [token?, hends] using hbehind.operand_iff
  | blank | fault =>
    rw [next_of_token?_eq_none rfl]
    exact ⟨by simpa [token?] using hbehind.operand_iff, fun heq => absurd heq (howner rfl)⟩

/-- The token is what the scanner found at `c :: cs` behind `lead`; the text begins at `p`. -/
def Scanned (keepComments : Bool) (lead : Lead) (p : Position) (c : Char) (cs : List Char)
    (t : Token) : Prop :=
  let s := scan lead c cs
  let chars := c :: cs.take s.extra
  token? keepComments (⟨chars, s.content⟩, ⟨p, p.advanceBy chars⟩) = some t

/-- Each token was scanned behind the lead that the tokens in front of it leave. -/
theorem exists_scanned {keepComments : Bool} {lead : Lead} {cs : List Char} {p : Position}
    {before ts after : List Token} {t : Token} (hbehind : lead.Behind before cs)
    (hsplit : (place p (segments lead cs)).filterMap (token? keepComments) = ts ++ t :: after) :
    ∃ lead' front c ds, cs = front ++ c :: ds ∧ lead'.Behind (before ++ ts) (c :: ds) ∧
      Scanned keepComments lead' (p.advanceBy front) c ds t := by
  fun_induction segments lead cs generalizing p before ts with
  | case1 => simp [place] at hsplit
  | case2 lead c cs s =>
    rename_i rest ih
    let chars := c :: cs.take s.extra
    let span : Span := ⟨p, p.advanceBy chars⟩
    have hnext : (lead.next s.content rest).Behind
        (before ++ (token? keepComments (⟨chars, s.content⟩, span)).toList) rest :=
      hbehind.next (fun _ _ => kind_isComment_of_scan) hbehind.ne_owner keepComments chars span
    have hcs : c :: cs = chars ++ rest := by
      rw [List.cons_append, List.take_append_drop]
    cases hread : token? keepComments (⟨chars, s.content⟩, span) with
    | none =>
      rw [place, List.filterMap_cons_none hread] at hsplit
      rw [hread, Option.toList_none, List.append_nil] at hnext
      obtain ⟨lead', front, c', ds, hrest, hlead, hscanned⟩ := ih hnext hsplit
      refine ⟨lead', chars ++ front, c', ds, by rw [hcs, hrest, List.append_assoc], hlead, ?_⟩
      rwa [Position.advanceBy_append]
    | some u =>
      rw [place, List.filterMap_cons_some hread] at hsplit
      rw [hread, Option.toList_some] at hnext
      cases ts with
      | nil =>
        obtain ⟨rfl, -⟩ := List.cons.inj hsplit
        exact ⟨lead, [], c, cs, rfl, by rwa [List.append_nil], hread⟩
      | cons v ts =>
        obtain ⟨rfl, htail⟩ := List.cons.inj hsplit
        obtain ⟨lead', front, c', ds, hrest, hlead, hscanned⟩ := ih hnext htail
        refine ⟨lead', chars ++ front, c', ds, by rw [hcs, hrest, List.append_assoc], ?_, ?_⟩
        · rwa [List.append_assoc] at hlead
        · rwa [Position.advanceBy_append]

/-- The scanner of strings gives string literals. -/
theorem content_string {cs : List Char} {kind : TokenKind} {lexeme : String}
    (hscan : (Scan.string cs).content = .token kind lexeme) : ∃ s, kind = .literal (.string s) := by
  unfold Scan.string at hscan
  split at hscan
  · exact ⟨_, (Content.token.inj hscan).1.symm⟩
  · cases hscan

/-- The scanner of characters gives character literals. -/
theorem content_character {cs : List Char} {kind : TokenKind} {lexeme : String}
    (hscan : (Scan.character cs).content = .token kind lexeme) :
    ∃ c, kind = .literal (.character c) := by
  have hclose : ∀ value taken ds, (Scan.closeCharacter value taken ds).content = .token kind lexeme →
      ∃ c, kind = .literal (.character c) := by
    intro value taken ds hclose
    unfold Scan.closeCharacter at hclose
    split at hclose
    · exact ⟨_, (Content.token.inj hclose).1.symm⟩
    · split at hclose
      · cases hclose
      · cases hclose
  unfold Scan.character at hscan
  split at hscan
  · cases hscan
  · cases hscan
  · cases hscan
  · cases hscan
  · exact hclose _ _ _ hscan
  · exact hclose _ _ _ hscan

/-- A word is no operator, and no literal but a boolean one. -/
theorem content_word {c : Char} {cs : List Char} {kind : TokenKind} {lexeme : String}
    (hscan : (Scan.word c cs).content = .token kind lexeme) :
    kind.operator? = none ∧ ∀ v, kind = .literal v → v.kind = .boolean := by
  obtain ⟨rfl, -⟩ := Content.token.inj hscan
  split
  · unfold TokenKind.ofOwner
    split <;> simp [TokenKind.operator?]
  · unfold TokenKind.ofWord
    split <;> simp [TokenKind.operator?, Literal.kind]

/-- A symbol that is an operator takes up the spelling of the operator. -/
theorem content_symbol {afterValue : Bool} {c : Char} {cs : List Char} {kind : TokenKind}
    {lexeme : String} (hscan : (Scan.symbol afterValue c cs).content = .token kind lexeme) :
    kind.literal? = none ∧ ∀ cls op, kind = .operator cls op →
      cls = operatorClass afterValue op ∧
        op.spelling.toList = c :: cs.take (Scan.symbol afterValue c cs).extra := by
  simp only [Scan.symbol] at hscan ⊢
  split at hscan
  · next op hop =>
    obtain ⟨rfl, rfl⟩ := Content.token.inj hscan
    refine ⟨rfl, ?_⟩
    rintro cls op' heq
    obtain ⟨rfl, rfl⟩ := TokenKind.operator.inj heq
    have hspelling : op.spelling = _ := Operator.vocabulary.spelling_of_ofSpelling? hop
    rw [hspelling, String.toList_ofList]
    exact ⟨rfl, rfl⟩
  · obtain ⟨rfl, rfl⟩ := Content.token.inj hscan
    refine ⟨rfl, ?_⟩
    rintro _ _ ⟨⟩
  · cases hscan

/-- A number is no operator, and its lexeme is what was read of it. -/
theorem content_number {c : Char} {cs : List Char} {kind : TokenKind} {lexeme : String}
    (hscan : (Scan.number c cs).content = .token kind lexeme) :
    kind.operator? = none ∧ lexeme.toList = (Numeral.read c cs).chars := by
  simp only [Scan.number] at hscan
  split at hscan
  · obtain ⟨rfl, rfl⟩ := Content.token.inj hscan
    exact ⟨rfl, String.toList_ofList⟩
  · cases hscan

/-- Only symbols are operators. -/
theorem shape_of_operator {lead : Lead} {c : Char} {cs : List Char} {cls : Operator.Class}
    {op : Operator} {lexeme : String}
    (hscan : (scan lead c cs).content = .token (.operator cls op) lexeme) :
    shape lead c cs = .symbol := by
  unfold scan at hscan
  split at hscan
  · cases hscan
  · cases hscan
  · exact absurd hscan (content_comment_ne_token cs _ _)
  · obtain ⟨_, hkind⟩ := content_string hscan
    cases hkind
  · obtain ⟨_, hkind⟩ := content_character hscan
    cases hkind
  · cases (content_number hscan).1
  · cases (content_word hscan).1
  · cases hscan
  · next hshape => exact hshape
  · cases hscan

/-- Integers and reals are found where a number begins. -/
theorem shape_of_number {lead : Lead} {c : Char} {cs : List Char} {v : Literal} {lexeme : String}
    (hscan : (scan lead c cs).content = .token (.literal v) lexeme)
    (hnumber : v.kind = .integer ∨ v.kind = .real) : shape lead c cs = .number := by
  unfold scan at hscan
  split at hscan
  · cases hscan
  · cases hscan
  · exact absurd hscan (content_comment_ne_token cs _ _)
  · obtain ⟨_, hkind⟩ := content_string hscan
    obtain rfl := TokenKind.literal.inj hkind
    simp [Literal.kind] at hnumber
  · obtain ⟨_, hkind⟩ := content_character hscan
    obtain rfl := TokenKind.literal.inj hkind
    simp [Literal.kind] at hnumber
  · next hshape => exact hshape
  · simp [(content_word hscan).2 v rfl] at hnumber
  · cases hscan
  · cases (content_symbol hscan).1
  · cases hscan

/-- Only a number that begins with a sign is spelled with a sign in front. -/
theorem isSignChar_of_read {c : Char} {cs : List Char} {lead : Lead}
    (hshape : shape lead c cs = .number)
    (hstarts : startsWith isSignChar (Numeral.read c cs).chars = true) : isSignChar c = true := by
  by_cases hsign : isSignChar c = true
  · exact hsign
  · have hrun : isRunChar c = true := by
      obtain hdigit | ⟨⟨rfl, -⟩ | ⟨hc, -⟩, -⟩ := numeric_of_shape hshape
      · simp [isRunChar, hdigit]
      · rfl
      · exact absurd hc hsign
    simp [Numeral.read, hsign, Numeral.ofUnsigned, Numeral.chars, hrun,
      startsWith] at hstarts

private theorem operatorClass_of_isSign {op : Operator} (hsign : op.isSign = true)
    (afterValue : Bool) :
    operatorClass afterValue op = if afterValue then .arithmetic else .unary := by
  have hcls : op.cls = .arithmetic := by
    cases op <;> simp_all [Operator.isSign, Operator.cls, Operator.entry]
  cases afterValue with
  | false => simp [operatorClass, hsign]
  | true => simp [operatorClass, hcls]

private theorem isSignChar_of_spelling {op : Operator} (hsign : op.isSign = true) {c : Char}
    {cs : List Char}
    (hspelling : op.spelling.toList = c :: cs) : isSignChar c = true ∧ cs = [] := by
  have hone : op.spelling.toList = ['+'] ∨ op.spelling.toList = ['-'] := by
    cases op <;> simp_all [Operator.isSign, Operator.spelling, Operator.entry]
  obtain hplus | hminus := hone
  · obtain ⟨rfl, rfl⟩ := List.cons.inj (hspelling.symm.trans hplus)
    exact ⟨rfl, rfl⟩
  · obtain ⟨rfl, rfl⟩ := List.cons.inj (hspelling.symm.trans hminus)
    exact ⟨rfl, rfl⟩

section

variable {keepComments : Bool} {lead : Lead} {before : List Token} {c : Char} {cs : List Char}
  {lexeme : String}

/-- A sign is a symbol, and the lead decides on its class. -/
theorem Lead.Behind.sign {cls : Operator.Class} {op : Operator} (hbehind : lead.Behind before (c :: cs))
    (hscan : (scan lead c cs).content = .token (.operator cls op) lexeme) (hsign : op.isSign = true) :
    (cls = if lead = .operand then .unary else .arithmetic) ∧ (scan lead c cs).extra = 0 ∧
      (lead = .operand → startsWith Char.isDigit cs = false) := by
  have hshape := shape_of_operator hscan
  have hsays := symbolic_of_shape hshape
  rw [scan, hshape] at hscan ⊢
  obtain ⟨hcls, hspelling⟩ := (content_symbol hscan).2 cls op rfl
  obtain ⟨hc, htake⟩ := isSignChar_of_spelling hsign hspelling
  have howner : lead ≠ .owner := fun howner =>
    hsays.1.2.2.2.2.2.1 (Option.some.inj (hbehind.point howner))
  refine ⟨?_, ?_, hsays.2.2 hc⟩
  · rw [hcls, operatorClass_of_isSign hsign]
    cases lead with
    | operand | value => rfl
    | owner => exact absurd rfl howner
  · have hlength := growth_le_length [c] cs
    obtain hzero | rfl := List.take_eq_nil_iff.1 htake
    · exact hzero
    · exact Nat.le_zero.1 hlength

/-- A number with a sign in front is found only where an operand is expected. -/
theorem lead_of_signedNumber {v : Literal}
    (hscan : (scan lead c cs).content = .token (.literal v) lexeme)
    (hnumber : v.kind = .integer ∨ v.kind = .real)
    (hstarts : startsWith isSignChar lexeme.toList = true) : lead = .operand := by
  have hshape := shape_of_number hscan hnumber
  rw [scan, hshape] at hscan
  rw [(content_number hscan).2] at hstarts
  have hsign := isSignChar_of_read hshape hstarts
  have hdigit : c.isDigit = false ∧ c ≠ '.' := by
    obtain rfl | rfl : c = '+' ∨ c = '-' := by simpa [isSignChar] using hsign
    · decide
    · decide
  obtain hc | ⟨⟨hc, -⟩ | ⟨-, hlead⟩, -⟩ := numeric_of_shape hshape
  · rw [hdigit.1] at hc
    cases hc
  · exact absurd hc hdigit.2
  · exact hlead

private theorem Scanned.signFits {source : String} {front : List Char} {t : Token}
    (hsource : source.toList = front ++ c :: cs) (hbehind : lead.Behind before (c :: cs))
    (hscanned : Scanned keepComments lead (Position.start.advanceBy front) c cs t) :
    t.SignFits source before := by
  obtain ⟨kind, lexeme, hcontent, rfl⟩ | ⟨-, body, -, rfl⟩ := token?_eq_some_iff.1 hscanned
  · have hoperand := hbehind.operand_iff
    refine ⟨?_, ?_, ?_, ?_⟩
    · rintro cls op rfl hsign
      obtain ⟨rfl, -⟩ := hbehind.sign hcontent hsign
      split <;> simp_all
    · rintro cls op rfl hsign
      obtain ⟨rfl, -⟩ := hbehind.sign hcontent hsign
      split <;> simp_all
    · rintro v rfl hnumber hstarts
      exact hoperand.1 (lead_of_signedNumber hcontent hnumber hstarts)
    · rintro op rfl hsign
      obtain ⟨hcls, hextra, hdigit⟩ := hbehind.sign hcontent hsign
      have hlead : lead = .operand := by
        cases lead with
        | operand => rfl
        | value | owner => cases hcls
      refine ⟨cs, ?_, hdigit hlead⟩
      have hstop : ((Position.start.advanceBy front).advanceBy [c]).offset =
          Text.byteSize (front ++ [c]) := by
        rw [← Position.advanceBy_append, Position.offset_start_advanceBy]
      dsimp only
      rw [hextra, List.take_zero, hstop, hsource, List.append_cons front c cs,
        Text.dropBytes?_append]
  · exact ⟨nofun, nofun, nofun, nofun⟩

end

end Lexical

open Lexical in
/-- A sign joins two operands if and only if the token in front of it, comments aside, ends one, and
    is unary otherwise; only a number behind no such token is spelled with a sign; and no unary sign
    stands directly in front of a digit. -/
theorem Lexed.signFits_of_tokens {keepComments : Bool} {source : String} {before after : List Token}
    {t : Token} (hsplit : (Lexed.ofSource keepComments source).tokens = before ++ t :: after) :
    t.SignFits source before := by
  obtain rfl | ⟨others, last, rfl⟩ := List.eq_nil_or_concat after
  · -- The end of the text is no sign.
    obtain ⟨-, heof⟩ := List.append_inj' hsplit rfl
    obtain rfl := List.singleton_inj.1 heof
    exact ⟨nofun, nofun, nofun, nofun⟩
  · rw [List.concat_eq_append, ← List.cons_append, ← List.append_assoc] at hsplit
    obtain ⟨hbody, -⟩ := List.append_inj' hsplit rfl
    obtain ⟨lead, front, c, cs, hsource, hlead, hscanned⟩ :=
      exists_scanned (Lead.behind_nil _) hbody
    exact hscanned.signFits hsource hlead

/-- Behind a name and a comment a minus joins, and the plus behind the minus belongs to its
    number. -/
theorem Lexed.signFits_of_comment :
    let source := "n # - # - +2"
    let before : List Token := [⟨.identifier "n", "n", ⟨⟨0, 0, 0⟩, ⟨1, 0, 1⟩⟩⟩,
      ⟨.comment "-", "-", ⟨⟨2, 0, 2⟩, ⟨7, 0, 7⟩⟩⟩]
    let minus : Token := ⟨.operator .arithmetic .minus, "-", ⟨⟨8, 0, 8⟩, ⟨9, 0, 9⟩⟩⟩
    let two : Token := ⟨.literal (.integer 2), "+2", ⟨⟨10, 0, 10⟩, ⟨12, 0, 12⟩⟩⟩
    (Lexed.ofSource true source).tokens = before ++ minus :: [two, .eofAt ⟨12, 0, 12⟩] ∧
      minus.SignFits source before ∧ two.SignFits source (before ++ [minus]) := by
  intro source before minus two
  have htokens : (Lexed.ofSource true source).tokens =
      before ++ minus :: [two, .eofAt ⟨12, 0, 12⟩] := by decide +kernel
  have htail : (Lexed.ofSource true source).tokens =
      (before ++ [minus]) ++ two :: [.eofAt ⟨12, 0, 12⟩] := htokens
  exact ⟨htokens, Lexed.signFits_of_tokens htokens, Lexed.signFits_of_tokens htail⟩

end GeoLang
