import GeoLang.Proofs.Lexical.Joining
import GeoLang.Proofs.Threshold.Conditional

namespace GeoLang

namespace Lexical

/-- In front of `rest` the text `cs` falls into tokens of the kinds `kinds`, with nothing but blanks
    between them, and what follows it is read as behind `after`. -/
def Spells (lead : Lead) (cs : List Char) (kinds : List TokenKind) (after : Lead)
    (rest : List Char) : Prop :=
  ∃ segs : List Segment, segments lead (cs ++ rest) = segs ++ segments after rest ∧
    segs.filterMap (fun s => s.content.token?.map Prod.fst) = kinds ∧
      ∀ s ∈ segs, s.content = .blank ∨ ∃ kind lexeme, s.content = .token kind lexeme

namespace Spells

variable {lead mid after : Lead} {c : Char} {cs ds rest : List Char} {kinds more : List TokenKind}

/-- An empty text has no tokens. -/
theorem nil (lead : Lead) (rest : List Char) : Spells lead [] [] lead rest :=
  ⟨[], rfl, rfl, List.forall_mem_nil _⟩

/-- What follows the first text is the second, so each is lexed on its own. -/
theorem append (hfirst : Spells lead cs kinds mid (ds ++ rest))
    (hsecond : Spells mid ds more after rest) :
    Spells lead (cs ++ ds) (kinds ++ more) after rest := by
  obtain ⟨xs, hxs, rfl, hplain⟩ := hfirst
  obtain ⟨ys, hys, rfl, hplain'⟩ := hsecond
  refine ⟨xs ++ ys, ?_, List.filterMap_append, List.forall_mem_append.2 ⟨hplain, hplain'⟩⟩
  rw [List.append_assoc, hxs, hys, List.append_assoc]

/-- The first segment of a text, with the scan that finds it. -/
theorem segments_of_scan {content : Content}
    (hscan : scan lead c (cs ++ rest) = ⟨cs.length, content⟩) :
    segments lead (c :: cs ++ rest) =
      [⟨c :: cs, content⟩] ++ segments (lead.next content rest) rest := by
  rw [List.cons_append, segments, hscan]
  simp

/-- Blanks make no tokens. -/
theorem blank (hscan : scan lead c (cs ++ rest) = ⟨cs.length, .blank⟩) :
    Spells lead (c :: cs) [] lead rest :=
  ⟨[⟨c :: cs, .blank⟩], segments_of_scan hscan, rfl, List.forall_mem_singleton.2 (.inl rfl)⟩

/-- A single token, and how the lexer goes on behind it. -/
theorem token {kind : TokenKind} {lexeme : String}
    (hscan : scan lead c (cs ++ rest) = ⟨cs.length, .token kind lexeme⟩)
    (hafter : Lead.afterToken kind rest = after) : Spells lead (c :: cs) [kind] after rest := by
  subst hafter
  exact ⟨[⟨c :: cs, .token kind lexeme⟩], segments_of_scan hscan, rfl,
    List.forall_mem_singleton.2 (.inr ⟨kind, lexeme, rfl⟩)⟩

/-- None of the tokens is a comment or the end. -/
theorem code (hspells : Spells lead cs kinds after rest) :
    ∀ kind ∈ kinds, kind.isComment = false ∧ kind ≠ .eof := by
  obtain ⟨segs, hsegs, rfl, -⟩ := hspells
  intro kind hkind
  obtain ⟨⟨chars, content⟩, hs, hsome⟩ := List.mem_filterMap.1 hkind
  obtain ⟨⟨kind, lexeme⟩, htoken, rfl⟩ := Option.map_eq_some_iff.1 hsome
  obtain rfl : content = .token kind lexeme := Content.eq_of_token? htoken
  have hmem : ⟨chars, .token kind lexeme⟩ ∈ segments lead (cs ++ rest) := by
    rw [hsegs]
    exact List.mem_append_left _ hs
  obtain ⟨afterValue, hpiece⟩ := exists_piece_of_mem_segments hmem
  cases hpiece with
  | token hscanned => exact ⟨hscanned.isComment_eq_false, hscanned.ne_eof⟩

/-- A piece that leaves the lead as it is can be repeated, in front of everything that the piece
    itself may stand in front of. -/
theorem repeated {follows : List Char → Prop} (hpiece : ∀ rest, follows (cs ++ rest))
    (hspells : ∀ rest, follows rest → Spells lead cs kinds lead rest) (hrest : follows rest) (k : Nat) :
    Spells lead (List.replicate k cs).flatten (List.replicate k kinds).flatten lead rest := by
  induction k with
  | zero => exact .nil lead rest
  | succ k ih =>
    rw [List.replicate_succ, List.replicate_succ, List.flatten_cons, List.flatten_cons]
    refine .append (hspells _ ?_) ih
    cases k with
    | zero => exact hrest
    | succ k =>
      rw [List.replicate_succ, List.flatten_cons, List.append_assoc]
      exact hpiece _

/-- A text repeated makes its tokens again and again, where it may follow itself. -/
theorem repeated_always (hspells : ∀ rest, Spells lead cs kinds lead rest) (rest : List Char) (k : Nat) :
    Spells lead (List.replicate k cs).flatten (List.replicate k kinds).flatten lead rest :=
  @repeated lead cs rest kinds (fun _ => True) (fun _ => trivial) (fun rest _ => hspells rest) trivial k

end Spells

private theorem growth_eq_zero {c : Char}
    (hnone : ∀ op ∈ Operator.all, op.spelling.toList.head? ≠ some c)
    (rest : List Char) : growth [c] rest = 0 := by
  cases rest with
  | nil => rfl
  | cons d rest =>
    have hcompound : Operator.isCompound (String.ofList ([c] ++ [d])) = false := by
      rw [Operator.isCompound]
      cases hfound : Operator.ofSpelling? (String.ofList ([c] ++ [d])) with
      | none => rfl
      | some op =>
        have hspelling := congrArg String.toList (Operator.vocabulary.spelling_of_ofSpelling? hfound)
        rw [String.toList_ofList] at hspelling
        exact absurd (congrArg List.head? hspelling) (hnone op (Operator.vocabulary.mem_all op))
    rw [growth, hcompound]
    rfl

/-- A character that no operator begins with is a mark alone. -/
theorem scan_mark {c : Char} {p : Punctuation} {lead : Lead} {rest : List Char}
    (hshape : shape lead c rest = .symbol)
    (hnone : ∀ op ∈ Operator.all, op.spelling.toList.head? ≠ some c)
    (hoperator : Operator.ofSpelling? (String.ofList [c]) = none)
    (hmark : Punctuation.ofSpelling? (String.ofList [c]) = some p) :
    scan lead c rest = ⟨0, .token (.punctuation p) (String.ofList [c])⟩ := by
  rw [scan, hshape]
  simp only [Scan.symbol, growth_eq_zero hnone, List.take_zero, hoperator, hmark]

theorem spells_lParen (rest : List Char) :
    Spells .operand ['('] [.punctuation .lParen] .operand rest :=
  .token (scan_mark rfl (by decide) (by decide) (by decide)) rfl

theorem spells_rParen (rest : List Char) : Spells .value [')'] [.punctuation .rParen] .value rest :=
  .token (scan_mark rfl (by decide) (by decide) (by decide)) rfl

private theorem spells_lCurly (rest : List Char) :
    Spells .value ['\x7b'] [.punctuation .lCurly] .operand rest :=
  .token (scan_mark rfl (by decide) (by decide) (by decide)) rfl

private theorem spells_rCurly (rest : List Char) :
    Spells .operand ['\x7d'] [.punctuation .rCurly] .operand rest :=
  .token (scan_mark rfl (by decide) (by decide) (by decide)) rfl

theorem spells_semicolon (rest : List Char) :
    Spells .value [';'] [.punctuation .semicolon] .operand rest :=
  .token (scan_mark rfl (by decide) (by decide) (by decide)) rfl

theorem spells_space (lead : Lead) (rest : List Char) : Spells lead [' '] [] lead rest := .blank rfl

end Lexical

open Lexical Grammar

/-- The text `k` times in a row. -/
def repeated (s : String) (k : Nat) : String := String.join (List.replicate k s)

/-- The characters of a repeated string. -/
theorem toList_repeated (s : String) (k : Nat) :
    (repeated s k).toList = (List.replicate k s.toList).flatten := by
  rw [repeated, String.toList_join, List.flatMap_def, List.map_replicate]

/-- A number in `k` pairs of parentheses. -/
def groupText (k : Nat) : String := "x = " ++ repeated "(" k ++ "1" ++ repeated ")" k ++ ";"

/-- A power with `k` exponents, each the exponent of the one in front of it. -/
def powerText (k : Nat) : String := "x = 2" ++ repeated "**2" k ++ ";"

/-- A variable behind `k` negations. -/
def negationText (k : Nat) : String := "b = " ++ repeated "!" k ++ "x;"

/-- `k` conditionals, each in the block of the one in front of it. -/
def conditionalText (k : Nat) : String := repeated "if (1) \x7b" k ++ repeated "\x7d" k

/-- The beginning of an assignment. -/
def targetKinds (name : String) : List TokenKind :=
  [.identifier name, .operator .assignment .assign]

/-- A name of one letter, an assignment sign and the blanks around it. -/
theorem spells_target (c : Char) (name : String)
    (hname : ∀ rest, scan .operand c (' ' :: rest) = ⟨0, .token (.identifier name) name⟩)
    (rest : List Char) : Spells .operand [c, ' ', '=', ' '] (targetKinds name) .operand rest := by
  have hfirst : Spells .operand [c] [.identifier name] .value (' ' :: '=' :: ' ' :: rest) :=
    .token (hname _) rfl
  have hassign : Spells .value ['='] [.operator .assignment .assign] .operand (' ' :: rest) :=
    .token rfl rfl
  exact hfirst.append ((spells_space _ _).append (hassign.append (spells_space _ _)))

theorem groupKinds_eq (k : Nat) :
    groupKinds k =
      (List.replicate k [.punctuation .lParen]).flatten ++ ([.literal (.integer 1)] ++
        (List.replicate k [.punctuation .rParen]).flatten) := by
  induction k with
  | zero => rfl
  | succ k ih =>
    rw [groupKinds, ih, List.replicate_succ, List.replicate_succ', List.flatten_cons,
      List.flatten_concat]
    simp

/-- The text of the groups is lexed to the tokens of the groups, and so are the texts below. -/
theorem spells_groupText (k : Nat) (rest : List Char) :
    Spells .operand (groupText k).toList
      (targetKinds "x" ++ (groupKinds k ++ [.punctuation .semicolon])) .operand rest := by
  have hone : Spells .operand ['1'] [.literal (.integer 1)] .value
      ((List.replicate k [')']).flatten ++ (';' :: rest)) := by
    cases k with
    | zero => exact .token rfl rfl
    | succ k => exact .token rfl rfl
  have hclose := Spells.repeated_always spells_rParen (';' :: rest) k
  have hvalue := (Spells.repeated_always spells_lParen _ k).append (hone.append hclose)
  have hwhole := (spells_target 'x' "x" (fun _ => rfl) _).append
    (hvalue.append (spells_semicolon rest))
  rw [groupKinds_eq]
  simpa [groupText, toList_repeated] using hwhole

theorem powerKinds_eq (k : Nat) :
    powerKinds k = .literal (.integer 2) ::
      (List.replicate k [.operator .arithmetic .exponent, .literal (.integer 2)]).flatten := by
  induction k with
  | zero => rfl
  | succ k ih =>
    rw [powerKinds, ih, List.replicate_succ, List.flatten_cons]
    rfl

theorem spells_powerText (k : Nat) (rest : List Char) :
    Spells .operand (powerText k).toList
      (targetKinds "x" ++ (powerKinds k ++ [.punctuation .semicolon])) .operand rest := by
  let follows (rest : List Char) : Prop := ∃ c ∈ rest.head?, c = '*' ∨ c = ';'
  have htwo : ∀ rest, follows rest → Spells .operand ['2'] [.literal (.integer 2)] .value rest := by
    rintro rest ⟨c, hc, hor⟩
    obtain ⟨cs, rfl⟩ := List.head?_eq_some_iff.1 hc
    obtain rfl | rfl := hor
    · exact .token rfl rfl
    · exact .token rfl rfl
  have hpiece : ∀ rest, follows rest → Spells .value ['*', '*', '2']
      [.operator .arithmetic .exponent, .literal (.integer 2)] .value rest := by
    intro rest hrest
    have hmark : Spells .value ['*', '*'] [.operator .arithmetic .exponent] .operand ('2' :: rest) :=
      .token rfl rfl
    exact hmark.append (htwo rest hrest)
  have hend : follows (';' :: rest) := ⟨';', rfl, .inr rfl⟩
  have hpieces := Spells.repeated (fun _ => ⟨'*', rfl, .inl rfl⟩) hpiece hend k
  have hfirst : follows ((List.replicate k ['*', '*', '2']).flatten ++ (';' :: rest)) := by
    cases k with
    | zero => exact hend
    | succ k => exact ⟨'*', rfl, .inl rfl⟩
  have hwhole := (spells_target 'x' "x" (fun _ => rfl) _).append
    (((htwo _ hfirst).append hpieces).append (spells_semicolon rest))
  rw [powerKinds_eq]
  simpa [powerText, toList_repeated] using hwhole

theorem spells_negationText (k : Nat) (rest : List Char) :
    Spells .operand (negationText k).toList
      (targetKinds "b" ++ (List.replicate k (.operator .logical .logicalNot) ++
        [.identifier "x", .punctuation .semicolon])) .operand rest := by
  let follows (rest : List Char) : Prop := ∃ c ∈ rest.head?, c = '!' ∨ c = 'x'
  have hpiece : ∀ rest, follows rest → Spells .operand ['!'] [.operator .logical .logicalNot]
      .operand rest := by
    rintro rest ⟨c, hc, hor⟩
    obtain ⟨cs, rfl⟩ := List.head?_eq_some_iff.1 hc
    obtain rfl | rfl := hor
    · exact .token rfl rfl
    · exact .token rfl rfl
  have hend : follows ('x' :: ';' :: rest) := ⟨'x', rfl, .inr rfl⟩
  have hpieces := Spells.repeated (fun _ => ⟨'!', rfl, .inl rfl⟩) hpiece hend k
  have hoperand : Spells .operand ['x'] [.identifier "x"] .value (';' :: rest) := .token rfl rfl
  have hwhole := (spells_target 'b' "b" (fun _ => rfl) _).append
    (hpieces.append (hoperand.append (spells_semicolon rest)))
  simpa [negationText, toList_repeated] using hwhole

private theorem conditionalKinds_eq (k : Nat) :
    conditionalKinds k =
      (List.replicate k headerKinds).flatten ++
        (List.replicate k [.punctuation .rCurly]).flatten := by
  induction k with
  | zero => rfl
  | succ k ih =>
    rw [conditionalKinds, ih, List.replicate_succ, List.replicate_succ', List.flatten_cons,
      List.flatten_concat]
    simp

theorem spells_conditionalText (k : Nat) (rest : List Char) :
    Spells .operand (conditionalText k).toList (conditionalKinds k) .operand rest := by
  have hpiece : ∀ rest, Spells .operand ['i', 'f', ' ', '(', '1', ')', ' ', '\x7b'] headerKinds
      .operand rest := by
    intro rest
    have hword : Spells .operand ['i', 'f'] [.keyword .ifKw] .operand
        (' ' :: '(' :: '1' :: ')' :: ' ' :: '\x7b' :: rest) := .token rfl rfl
    have hone : Spells .operand ['1'] [.literal (.integer 1)] .value (')' :: ' ' :: '\x7b' :: rest) :=
      .token rfl rfl
    exact hword.append ((spells_space _ _).append ((spells_lParen _).append (hone.append
      ((spells_rParen _).append ((spells_space _ _).append (spells_lCurly rest))))))
  have hwhole := (Spells.repeated_always hpiece _ k).append
    (Spells.repeated_always spells_rCurly rest k)
  rw [conditionalKinds_eq]
  simpa [conditionalText, toList_repeated] using hwhole

namespace Lexical

/-- The kinds and lexemes of tokens do not depend on where the text begins. -/
theorem map_filterMap_token?_place_congr (keepComments : Bool) (p q : Position)
    (segs : List Segment) :
    ((place p segs).filterMap (token? keepComments)).map (fun t => (t.kind, t.lexeme)) =
      ((place q segs).filterMap (token? keepComments)).map fun t => (t.kind, t.lexeme) := by
  induction segs generalizing p q with
  | nil => rfl
  | cons s segs ih =>
    obtain ⟨chars, content⟩ := s
    cases content with
    | token kind lexeme => exact congrArg ((kind, lexeme) :: ·) (ih _ _)
    | comment body =>
      cases keepComments with
      | true => exact congrArg ((.comment body, body) :: ·) (ih _ _)
      | false => exact ih _ _
    | blank => exact ih _ _
    | fault f => exact ih _ _

private theorem map_kind_filterMap_token?_place (keepComments : Bool) (p : Position)
    {segs : List Segment}
    (hplain : ∀ s ∈ segs, s.content = .blank ∨ ∃ kind lexeme, s.content = .token kind lexeme) :
    ((place p segs).filterMap (token? keepComments)).map Token.kind =
      segs.filterMap (fun s => s.content.token?.map Prod.fst) ∧
      (place p segs).filterMap error? = [] := by
  induction segs generalizing p with
  | nil => exact ⟨rfl, rfl⟩
  | cons s segs ih =>
    obtain ⟨hfirst, hrest⟩ := List.forall_mem_cons.1 hplain
    obtain ⟨chars, content⟩ := s
    obtain ⟨htokens, herrors⟩ := ih (p.advanceBy chars) hrest
    obtain rfl | ⟨kind, lexeme, rfl⟩ := hfirst
    · exact ⟨htokens, herrors⟩
    · exact ⟨congrArg (kind :: ·) htokens, herrors⟩

end Lexical

/-- A text that begins with such a piece has the tokens of the piece, and behind them those of what
    follows as it is read on its own. -/
theorem Lexed.exists_of_spells {keepComments : Bool} {source behind : String} {cs : List Char}
    {kinds : List TokenKind} (hsource : source.toList = cs ++ behind.toList)
    (hspells : Spells .operand cs kinds .operand behind.toList) :
    ∃ front rest, (Lexed.ofSource keepComments source).tokens = front ++ rest ∧
      front.map Token.kind = kinds ∧
        rest.map (fun t => (t.kind, t.lexeme)) =
          (Lexed.ofSource keepComments behind).tokens.map (fun t => (t.kind, t.lexeme)) ∧
        (Lexed.ofSource keepComments source).errors.map LexError.fault =
          (Lexed.ofSource keepComments behind).errors.map LexError.fault := by
  obtain ⟨segs, hsegs, rfl, hplain⟩ := hspells
  obtain ⟨hkinds, hnone⟩ := map_kind_filterMap_token?_place keepComments .start hplain
  let p := Position.start.advanceBy (segs.flatMap Segment.chars)
  have hplaced : place .start (segments .operand source.toList) =
      place .start segs ++ place p (segments .operand behind.toList) := by
    rw [hsource, hsegs, place_append]
  refine ⟨(place .start segs).filterMap (token? keepComments),
    (place p (segments .operand behind.toList)).filterMap (token? keepComments) ++
      [.eofAt (Position.start.advanceBy source.toList)], ?_, hkinds, ?_, ?_⟩
  · simp only [Lexed.ofSource, hplaced, List.filterMap_append, List.append_assoc]
  · simp only [Lexed.ofSource, List.map_append, map_filterMap_token?_place_congr keepComments p .start]
    rfl
  · simp only [Lexed.ofSource, hplaced, List.filterMap_append, hnone, List.nil_append,
      map_filterMap_error?_place]

end GeoLang
