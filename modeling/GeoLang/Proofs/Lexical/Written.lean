import GeoLang.Lexical.Tokens

namespace GeoLang

namespace Lexical

/-- How a character is written between two quotes of the kind given. -/
def escape (quote c : Char) : List Char :=
  match c with
  | '\\' => ['\\', '\\']
  | '\n' => ['\\', 'n']
  | '\t' => ['\\', 't']
  | c => if c = quote then ['\\', c] else [c]

/-- A value in quotes, with what needs it escaped. -/
def quotedWith (quote : Char) (value : List Char) : List Char :=
  quote :: (value.flatMap (escape quote) ++ [quote])

/-- The text of a token. Only literals in quotes are not spelled as their lexeme. -/
def writtenChars : TokenKind → String → List Char
  | .literal (.string v), _ => quotedWith '"' v.toList
  | .literal (.character v), _ => quotedWith '\'' [v]
  | _, lexeme => lexeme.toList

/-- Nothing follows, or a space does. -/
def SpaceLeads (rest : List Char) : Prop := ∀ c ∈ rest.head?, c = ' '

/-- Behind `lead` the text of the token is read as that token, if nothing but a space follows. -/
def Stable (lead : Lead) (kind : TokenKind) (lexeme : String) : Prop :=
  ∃ c cs, writtenChars kind lexeme = c :: cs ∧
    ∀ rest, SpaceLeads rest → scan lead c (cs ++ rest) = ⟨cs.length, .token kind lexeme⟩

/-- A space, or the end of the text, has none of the properties that scanners ask for. -/
theorem SpaceLeads.startsWith {rest : List Char} (hrest : SpaceLeads rest) {p : Char → Bool}
    (hp : p ' ' = false) : startsWith p rest = false := by
  cases rest with
  | nil => rfl
  | cons c cs =>
    obtain rfl := hrest c rfl
    exact hp

/-- So nothing is taken in front of it. -/
theorem SpaceLeads.takeWhile_eq {rest : List Char} (hrest : SpaceLeads rest) {p : Char → Bool}
    (hp : p ' ' = false) : rest.takeWhile p = [] := by
  cases rest with
  | nil => rfl
  | cons c cs =>
    obtain rfl := hrest c rfl
    rw [List.takeWhile_cons, if_neg (by simp [hp])]

/-- And nothing is dropped. -/
theorem SpaceLeads.dropWhile_eq {rest : List Char} (hrest : SpaceLeads rest) {p : Char → Bool}
    (hp : p ' ' = false) : rest.dropWhile p = rest := by
  cases rest with
  | nil => rfl
  | cons c cs =>
    obtain rfl := hrest c rfl
    rw [List.dropWhile_cons, if_neg (by simp [hp])]

/-- Cutting a text off and letting a space follow does not give it a new beginning. -/
theorem startsWith_of_take_append {p : Char → Bool} (hp : p ' ' = false) {n : Nat}
    {cs rest : List Char} (hrest : SpaceLeads rest)
    (hstarts : startsWith p (cs.take n ++ rest) = true) : startsWith p cs = true := by
  cases htake : cs.take n with
  | nil =>
    rw [htake, List.nil_append, hrest.startsWith hp] at hstarts
    cases hstarts
  | cons d ds =>
    rw [htake] at hstarts
    have hcs : cs = d :: (ds ++ cs.drop n) := by
      rw [← List.cons_append, ← htake, List.take_append_drop]
    rw [hcs]
    exact hstarts

section Quotation

/-- Escaped characters are read one by one, and none of them closes the string. -/
theorem readString?_escape (c : Char) (cs : List Char) :
    readString? (escape '"' c ++ cs) =
      (readString? cs).map fun (v, n) => (c :: v, n + (escape '"' c).length) := by
  unfold escape
  split
  · rfl
  · rfl
  · rfl
  · next hbackslash _ _ =>
    by_cases hquote : c = '"'
    · subst hquote
      rfl
    · rw [if_neg hquote]
      exact readString?.eq_5 c cs (fun h _ => hbackslash h) hquote
        (fun d ds h _ => hbackslash h)

private theorem readString?_quoted (value rest : List Char) :
    readString? (value.flatMap (escape '"') ++ '"' :: rest) =
      some (value, (value.flatMap (escape '"') ++ ['"']).length) := by
  induction value with
  | nil => rfl
  | cons c value ih =>
    rw [List.flatMap_cons, List.append_assoc, readString?_escape, ih]
    simp only [Option.map_some, List.length_append, List.length_cons, List.length_nil]
    congr 2
    omega

/-- A string in quotes is read as that string. -/
theorem stable_string (lead : Lead) (value : String) :
    Stable lead (.literal (.string value)) value := by
  refine ⟨'"', value.toList.flatMap (escape '"') ++ ['"'], rfl, ?_⟩
  intro rest _
  change Scan.string _ = _
  rw [Scan.string, List.append_assoc, List.singleton_append, readString?_quoted]
  simp only [String.ofList_toList]

private theorem character_escape (value : Char) (rest : List Char) :
    Scan.character (escape '\'' value ++ '\'' :: rest) =
      ⟨(escape '\'' value ++ ['\'']).length,
        .token (.literal (.character value)) (String.singleton value)⟩ := by
  unfold escape
  split
  · rfl
  · rfl
  · rfl
  · next hbackslash hline _ =>
    by_cases hquote : value = '\''
    · subst hquote
      rfl
    · rw [if_neg hquote]
      exact Scan.character.eq_6 value ('\'' :: rest) hquote hline (fun h _ => hbackslash h)
        (fun d ds h _ => hbackslash h)

private theorem stable_character (lead : Lead) (value : Char) :
    Stable lead (.literal (.character value)) (String.singleton value) := by
  refine ⟨'\'', [value].flatMap (escape '\'') ++ ['\''], rfl, ?_⟩
  intro rest _
  change Scan.character _ = _
  rw [List.flatMap_singleton, List.append_assoc, List.singleton_append, character_escape]

private theorem stable_of_string {lead : Lead} {cs : List Char} {kind : TokenKind} {lexeme : String}
    (hscan : (Scan.string cs).content = .token kind lexeme) : Stable lead kind lexeme := by
  unfold Scan.string at hscan
  split at hscan
  · obtain ⟨rfl, rfl⟩ := Content.token.inj hscan
    exact stable_string lead _
  · cases hscan

theorem stable_of_closeCharacter {lead : Lead} {value : Char} {taken : Nat} {cs : List Char}
    {kind : TokenKind} {lexeme : String}
    (hscan : (Scan.closeCharacter value taken cs).content = .token kind lexeme) :
    Stable lead kind lexeme := by
  unfold Scan.closeCharacter at hscan
  split at hscan
  · obtain ⟨rfl, rfl⟩ := Content.token.inj hscan
    exact stable_character lead value
  · split at hscan
    · cases hscan
    · cases hscan

private theorem stable_of_character {lead : Lead} {cs : List Char} {kind : TokenKind}
    {lexeme : String}
    (hscan : (Scan.character cs).content = .token kind lexeme) : Stable lead kind lexeme := by
  unfold Scan.character at hscan
  split at hscan
  · cases hscan
  · cases hscan
  · cases hscan
  · cases hscan
  · exact stable_of_closeCharacter hscan
  · exact stable_of_closeCharacter hscan

end Quotation

section Shape

/-- What the shape of a text says about its beginning. The shapes that one character settles are
    left out. -/
def Shape.Says (lead : Lead) (c : Char) (cs : List Char) : Shape → Prop
  | .number =>
    c.isDigit = true ∨
      (c = '.' ∧ lead ≠ .owner ∨ isSignChar c = true ∧ lead = .operand) ∧
        startsWith Char.isDigit cs = true
  | .word => isWordStart c = true
  | .symbol =>
    (isBlankChar c = false ∧ c ≠ '#' ∧ c ≠ '"' ∧ c ≠ '\'' ∧ c.isDigit = false ∧ c ≠ '.' ∧
      isWordStart c = false ∧ startsSymbol c = true) ∧
      (c = '\\' → startsWith isBlankLetter cs = false) ∧
      (isSignChar c = true → lead = .operand → startsWith Char.isDigit cs = false)
  | _ => True

/-- The shape of a text says what the characters at its start are. -/
theorem says_shape (lead : Lead) (c : Char) (cs : List Char) :
    (shape lead c cs).Says lead c cs := by
  unfold shape
  by_cases hblank : isBlankChar c = true
  · rw [if_pos hblank]
    trivial
  rw [if_neg hblank]
  by_cases hwritten : (c == '\\' && startsWith isBlankLetter cs) = true
  · rw [if_pos hwritten]
    trivial
  rw [if_neg hwritten]
  by_cases hmark : (c == '#') = true
  · rw [if_pos hmark]
    trivial
  rw [if_neg hmark]
  by_cases hquote : (c == '"') = true
  · rw [if_pos hquote]
    trivial
  rw [if_neg hquote]
  by_cases hsingle : (c == '\'') = true
  · rw [if_pos hsingle]
    trivial
  rw [if_neg hsingle]
  by_cases hdigit : c.isDigit = true
  · rw [if_pos hdigit]
    exact .inl hdigit
  rw [if_neg hdigit]
  by_cases hpoint : (c == '.') = true
  · rw [if_pos hpoint]
    by_cases hfollows : (lead != .owner && startsWith Char.isDigit cs) = true
    · rw [if_pos hfollows]
      simp_all [Shape.Says]
    · rw [if_neg hfollows]
      trivial
  rw [if_neg hpoint]
  by_cases hsign : (isSignChar c && lead == .operand && startsWith Char.isDigit cs) = true
  · rw [if_pos hsign]
    simp_all [Shape.Says]
  rw [if_neg hsign]
  by_cases hword : isWordStart c = true
  · rw [if_pos hword]
    exact hword
  rw [if_neg hword]
  by_cases hsymbol : startsSymbol c = true
  · rw [if_pos hsymbol]
    simp_all [Shape.Says]
  · rw [if_neg hsymbol]
    trivial
end Shape

section Number

/-- A number starts with a digit, or with a sign or a point that has a digit behind it. -/
theorem numeric_of_shape {lead : Lead} {c : Char} {cs : List Char}
    (hshape : shape lead c cs = .number) :
    c.isDigit = true ∨
      (c = '.' ∧ lead ≠ .owner ∨ isSignChar c = true ∧ lead = .operand) ∧
        startsWith Char.isDigit cs = true := by
  have hsays := says_shape lead c cs
  rw [hshape] at hsays
  exact hsays

/-- The characters for which a text is read neither as a number nor as a word. -/
def unlettered : List Char := [' ', '\t', '\n', '\x0b', '\r', '\\', '#', '"', '\'', '.', '+', '-']

theorem ne_of_mem_unlettered {p : Char → Bool} (hnone : ∀ d ∈ unlettered, p d = false) {c : Char}
    (hc : p c = true) : ∀ d ∈ unlettered, c ≠ d := by
  rintro d hd rfl
  rw [hnone c hd] at hc
  cases hc

/-- A digit always starts a number. -/
theorem shape_of_isDigit {c : Char} (hc : c.isDigit = true) (lead : Lead) (cs : List Char) :
    shape lead c cs = .number := by
  have hne := ne_of_mem_unlettered (p := Char.isDigit) (by simp [unlettered]) hc
  simp only [unlettered, List.forall_mem_cons] at hne
  simp [shape, isBlankChar, hc, hne]

/-- The digits come before the letters. -/
theorem isDigit_eq_false_of_isAlpha {c : Char} (hc : c.isAlpha = true) : c.isDigit = false := by
  have hafter : '9'.val < c.val := by
    obtain hupper | hlower : c.isUpper = true ∨ c.isLower = true := Bool.or_eq_true_iff.1 hc
    · have hbounds : 'A'.val ≤ c.val ∧ c.val ≤ 'Z'.val := of_decide_eq_true hupper
      exact UInt32.lt_of_lt_of_le (by decide) hbounds.1
    · have hbounds : 'a'.val ≤ c.val := of_decide_eq_true (Bool.and_eq_true_iff.1 hlower).1
      exact UInt32.lt_of_lt_of_le (by decide) hbounds
  rw [Char.isDigit, decide_eq_false (UInt32.not_le.2 hafter), Bool.and_false]

private theorem shape_of_isWordStart {c : Char} (hc : isWordStart c = true) (lead : Lead)
    (cs : List Char) :
    shape lead c cs = .word := by
  have hne := ne_of_mem_unlettered (p := isWordStart) (by simp [unlettered, isWordStart]) hc
  have hdigit : c.isDigit = false := by
    obtain halpha | rfl : c.isAlpha = true ∨ c = '_' := by simpa [isWordStart] using hc
    · exact isDigit_eq_false_of_isAlpha halpha
    · rfl
  simp only [unlettered, List.forall_mem_cons] at hne
  simp [shape, isBlankChar, isSignChar, hc, hne, hdigit]

/-- Where a number begins does not hang on what follows its own characters. -/
theorem shape_number {lead : Lead} {c : Char} {cs : List Char}
    (hshape : shape lead c cs = .number) {lead' : Lead} {ds : List Char}
    (howner : lead ≠ .owner → lead' ≠ .owner) (hoperand : lead = .operand → lead' = .operand)
    (hdigit : startsWith Char.isDigit cs = true → startsWith Char.isDigit ds = true) :
    shape lead' c ds = .number := by
  obtain hc | ⟨⟨rfl, hlead⟩ | ⟨hsign, hlead⟩, hfollows⟩ := numeric_of_shape hshape
  · exact shape_of_isDigit hc lead' ds
  · simp +decide [shape, howner hlead, hdigit hfollows]
  · obtain rfl | rfl : c = '+' ∨ c = '-' := by simpa [isSignChar] using hsign
    · simp +decide [shape, hoperand hlead, hdigit hfollows]
    · simp +decide [shape, hoperand hlead, hdigit hfollows]

private theorem startsWith_takeWhile_append {p q : Char → Bool}
    (himp : ∀ c, q c = true → p c = true)
    {cs : List Char} (hstarts : startsWith q cs = true) (rest : List Char) :
    startsWith q (cs.takeWhile p ++ rest) = true := by
  cases cs with
  | nil => cases hstarts
  | cons c cs =>
    have hc : q c = true := hstarts
    rw [List.takeWhile_cons, if_pos (himp c hc)]
    exact hc

/-- The run of a number ends where a space follows, so nothing is added to the number. -/
theorem Numeral.ofUnsigned_append {sign : Option Char} {cs rest : List Char}
    (htail : (Numeral.ofUnsigned sign cs).tail = []) (hrest : SpaceLeads rest) :
    Numeral.ofUnsigned sign (cs.takeWhile isRunChar ++ rest) = Numeral.ofUnsigned sign cs := by
  have hrun : ∀ c ∈ cs.takeWhile isRunChar, isRunChar c = true :=
    List.all_eq_true.1 List.all_takeWhile
  have hspace : isRunChar ' ' = false := by decide
  have hword : isWordChar ' ' = false := by decide
  have hnone : (cs.dropWhile isRunChar).takeWhile isWordChar = [] := htail
  unfold Numeral.ofUnsigned
  rw [List.takeWhile_append_of_pos hrun, List.dropWhile_append_of_pos hrun,
    hrest.takeWhile_eq hspace, hrest.dropWhile_eq hspace, hrest.takeWhile_eq hword, List.append_nil,
    hnone]

/-- The first character of a number is its sign or belongs to its run. -/
theorem Numeral.exists_front {lead : Lead} {c : Char} {cs : List Char}
    (hshape : shape lead c cs = .number) :
    ∃ sign front, sign.toList ++ front = [c] ∧ (∀ d ∈ front, isRunChar d = true) ∧
      ∀ ds, Numeral.read c ds = Numeral.ofUnsigned sign (front ++ ds) := by
  by_cases hsign : isSignChar c = true
  · refine ⟨some c, [], rfl, by simp, ?_⟩
    intro ds
    rw [Numeral.read, if_pos hsign, List.nil_append]
  · have hrun : isRunChar c = true := by
      obtain hc | ⟨⟨rfl, -⟩ | ⟨hsigned, -⟩, -⟩ := numeric_of_shape hshape
      · simp [isRunChar, hc]
      · rfl
      · exact absurd hsigned hsign
    refine ⟨none, [c], rfl, by simpa using hrun, ?_⟩
    intro ds
    rw [Numeral.read, if_neg hsign, List.singleton_append]

/-- Without a word behind it a number is its first character and the run behind that, and in front
    of a space it is read as the same number again. -/
theorem Numeral.read_takeWhile {lead : Lead} {c : Char} {cs : List Char}
    (hshape : shape lead c cs = .number) (htail : (Numeral.read c cs).tail = []) :
    (Numeral.read c cs).chars = c :: cs.takeWhile isRunChar ∧
      ∀ rest, SpaceLeads rest →
        Numeral.read c (cs.takeWhile isRunChar ++ rest) = Numeral.read c cs := by
  obtain ⟨sign, front, hc, hfront, hread⟩ := Numeral.exists_front hshape
  have htake : (front ++ cs).takeWhile isRunChar = front ++ cs.takeWhile isRunChar :=
    List.takeWhile_append_of_pos hfront
  rw [hread] at htail ⊢
  constructor
  · rw [Numeral.chars, htail, List.append_nil]
    change sign.toList ++ (front ++ cs).takeWhile isRunChar = _
    rw [htake, ← List.append_assoc, hc, List.singleton_append]
  · intro rest hrest
    rw [hread, ← List.append_assoc, ← htake]
    exact Numeral.ofUnsigned_append htail hrest

/-- Only numbers without a fault are tokens, and these have no letters behind them. -/
theorem Numeral.value_eq_ok {n : Numeral} {v : Literal} (hvalue : n.value = .ok v) :
    n.tail = [] ∧ ((∃ i, v = .integer i) ∨ ∃ r, v = .real r) := by
  unfold Numeral.value at hvalue
  grind

private theorem stable_number {lead lead' : Lead} {c : Char} {cs : List Char} {kind : TokenKind}
    {lexeme : String} (hshape : shape lead c cs = .number)
    (howner : lead ≠ .owner → lead' ≠ .owner) (hoperand : lead = .operand → lead' = .operand)
    (hscan : (Scan.number c cs).content = .token kind lexeme) : Stable lead' kind lexeme := by
  cases hvalue : (Numeral.read c cs).value with
  | error e =>
    simp only [Scan.number, hvalue, reduceCtorEq] at hscan
  | ok v =>
    obtain ⟨htail, hv⟩ := Numeral.value_eq_ok hvalue
    obtain ⟨hchars, hagain⟩ := Numeral.read_takeWhile hshape htail
    simp only [Scan.number, hvalue, Content.token.injEq] at hscan
    obtain ⟨rfl, rfl⟩ := hscan
    refine ⟨c, cs.takeWhile isRunChar, ?_, ?_⟩
    · rw [← hchars]
      obtain ⟨i, rfl⟩ | ⟨r, rfl⟩ := hv
      · exact String.toList_ofList
      · exact String.toList_ofList
    · intro rest hrest
      have hnumber : shape lead' c (cs.takeWhile isRunChar ++ rest) = .number := by
        apply shape_number hshape howner hoperand
        intro hdigit
        exact startsWith_takeWhile_append (by simp +contextual [isRunChar]) hdigit rest
      rw [scan, hnumber]
      simp only [Scan.number, hagain rest hrest, hvalue, hchars, List.length_cons, Nat.add_sub_cancel]

end Number

section Word

/-- A word starts with a letter or an underscore. -/
theorem isWordStart_of_shape {lead : Lead} {c : Char} {cs : List Char}
    (hshape : shape lead c cs = .word) : isWordStart c = true := by
  have hsays := says_shape lead c cs
  rw [hshape] at hsays
  exact hsays

/-- Reserved words are nothing else in other places. -/
theorem ofWord_spelling (w : ReservedWord) : TokenKind.ofWord w.spelling = .reserved w := by
  cases w <;> decide

/-- Only identifiers may be words of another kind where no point follows them. -/
theorem ofWord_of_ofOwner {text : String}
    (hname : (TokenKind.ofOwner text).category = .identifier →
      TokenKind.ofWord text = TokenKind.ofOwner text) :
    TokenKind.ofWord text = TokenKind.ofOwner text := by
  cases hfound : ReservedWord.ofSpelling? text with
  | some w =>
    have hspelling : w.spelling = text := ReservedWord.vocabulary.spelling_of_ofSpelling? hfound
    rw [TokenKind.ofOwner, hfound, ← hspelling]
    exact ofWord_spelling w
  | none =>
    apply hname
    rw [TokenKind.ofOwner, hfound]
    rfl

private theorem writtenChars_ofWord (text lexeme : String) :
    writtenChars (TokenKind.ofWord text) lexeme = lexeme.toList := by
  unfold TokenKind.ofWord
  split <;> rfl

private theorem stable_word {lead' : Lead} {c : Char} {cs : List Char} {kind : TokenKind}
    {lexeme : String}
    (hstart : isWordStart c = true) (hscan : (Scan.word c cs).content = .token kind lexeme)
    (hname : kind.category = .identifier → TokenKind.ofWord lexeme = kind) :
    Stable lead' kind lexeme := by
  have hkind : kind = TokenKind.ofWord lexeme ∧ lexeme.toList = c :: cs.takeWhile isWordChar := by
    simp only [Scan.word, Content.token.injEq] at hscan
    obtain ⟨hkind, rfl⟩ := hscan
    split at hkind
    · subst hkind
      exact ⟨(ofWord_of_ofOwner hname).symm, String.toList_ofList⟩
    · exact ⟨hkind.symm, String.toList_ofList⟩
  obtain ⟨rfl, hlexeme⟩ := hkind
  refine ⟨c, cs.takeWhile isWordChar, ?_, ?_⟩
  · rw [writtenChars_ofWord, hlexeme]
  · intro rest hrest
    have htail : ∀ d ∈ cs.takeWhile isWordChar, isWordChar d = true :=
      List.all_eq_true.1 List.all_takeWhile
    have hspace : isWordChar ' ' = false := by decide
    have hpoint : rest.head? ≠ some '.' := by
      intro hhead
      have := hrest '.' hhead
      cases this
    rw [scan, shape_of_isWordStart hstart]
    simp only [Scan.word, List.takeWhile_append_of_pos htail, List.dropWhile_append_of_pos htail,
      hrest.takeWhile_eq hspace, hrest.dropWhile_eq hspace, List.append_nil, ← hlexeme,
      String.ofList_toList, if_neg hpoint]

end Word

section Symbol

/-- No operator contains a blank. -/
theorem not_isCompound_append_blank (taken : List Char) {c : Char} (hblank : isBlankChar c = true) :
    Operator.isCompound (String.ofList (taken ++ [c])) = false := by
  have hspelling : ∀ op : Operator, op.spelling.toList.all (!isBlankChar ·) = true := by
    intro op
    cases op <;> rfl
  unfold Operator.isCompound
  cases hfound : Operator.ofSpelling? (String.ofList (taken ++ [c])) with
  | none => rfl
  | some op =>
    have hmem : c ∈ op.spelling.toList := by
      have hspelling : op.spelling = _ := Operator.vocabulary.spelling_of_ofSpelling? hfound
      rw [hspelling, String.toList_ofList]
      exact List.mem_append_right taken List.mem_cons_self
    simpa [hblank] using List.all_eq_true.1 (hspelling op) c hmem

/-- No symbol grows over a space. -/
theorem growth_of_spaceLeads {taken rest : List Char} (hrest : SpaceLeads rest) :
    growth taken rest = 0 := by
  cases rest with
  | nil => rfl
  | cons c cs =>
    obtain rfl := hrest c rfl
    rw [growth, not_isCompound_append_blank taken rfl, if_neg Bool.false_ne_true]

/-- A symbol that has grown as far as it can is the same symbol in front of a space. -/
theorem growth_take_append {taken cs rest : List Char} (hrest : SpaceLeads rest) :
    growth taken (cs.take (growth taken cs) ++ rest) = growth taken cs := by
  induction cs generalizing taken with
  | nil => exact growth_of_spaceLeads hrest
  | cons c cs ih =>
    rw [growth]
    split
    · next hcompound =>
      rw [List.take_succ_cons, List.cons_append, growth, if_pos hcompound, ih]
    · exact growth_of_spaceLeads hrest

theorem growth_le_length (taken cs : List Char) : growth taken cs ≤ cs.length := by
  induction cs generalizing taken with
  | nil => exact Nat.le_refl 0
  | cons c cs ih =>
    rw [growth]
    split
    · exact Nat.succ_le_succ (ih _)
    · exact Nat.zero_le _

theorem symbolic_of_shape {lead : Lead} {c : Char} {cs : List Char}
    (hshape : shape lead c cs = .symbol) : Shape.symbol.Says lead c cs := by
  have hsays := says_shape lead c cs
  rw [hshape] at hsays
  exact hsays

/-- Where a symbol begins, it still does if less follows than before. -/
theorem shape_symbol {lead : Lead} {c : Char} {cs : List Char}
    (hshape : shape lead c cs = .symbol) {lead' : Lead} {ds : List Char}
    (hoperand : lead' = .operand → lead = .operand)
    (hletter : startsWith isBlankLetter ds = true → startsWith isBlankLetter cs = true)
    (hdigit : startsWith Char.isDigit ds = true → startsWith Char.isDigit cs = true) :
    shape lead' c ds = .symbol := by
  obtain ⟨⟨hblank, hmark, hquote, hsingle, hnumber, hpoint, hword, hsymbol⟩, hbackslash, hsign⟩ :=
    symbolic_of_shape hshape
  have hwritten : ¬ (c = '\\' ∧ startsWith isBlankLetter ds = true) := by
    rintro ⟨heq, hstarts⟩
    exact ne_true_of_eq_false (hbackslash heq) (hletter hstarts)
  have hsigned : ¬ ((isSignChar c = true ∧ lead' = .operand) ∧ startsWith Char.isDigit ds = true) := by
    rintro ⟨⟨heq, hlead⟩, hstarts⟩
    exact ne_true_of_eq_false (hsign heq (hoperand hlead)) (hdigit hstarts)
  simp [shape, hblank, hwritten, hmark, hquote, hsingle, hnumber, hpoint, hsigned, hword, hsymbol]

private theorem stable_symbol {lead lead' : Lead} {c : Char} {cs : List Char} {kind : TokenKind}
    {lexeme : String} (hshape : shape lead c cs = .symbol)
    (hoperand : lead' = .operand → lead = .operand) (hvalue : (lead' == .value) = (lead == .value))
    (hscan : (Scan.symbol (lead == .value) c cs).content = .token kind lexeme) :
    Stable lead' kind lexeme := by
  have hwritten : lexeme.toList = c :: cs.take (growth [c] cs) ∧
      writtenChars kind lexeme = lexeme.toList := by
    simp only [Scan.symbol] at hscan
    split at hscan
    · obtain ⟨rfl, rfl⟩ := Content.token.inj hscan
      exact ⟨String.toList_ofList, rfl⟩
    · obtain ⟨rfl, rfl⟩ := Content.token.inj hscan
      exact ⟨String.toList_ofList, rfl⟩
    · cases hscan
  obtain ⟨hlexeme, hwritten⟩ := hwritten
  refine ⟨c, cs.take (growth [c] cs), by rw [hwritten, hlexeme], ?_⟩
  intro rest hrest
  have hsymbol : shape lead' c (cs.take (growth [c] cs) ++ rest) = .symbol :=
    shape_symbol hshape hoperand (startsWith_of_take_append (by decide) hrest)
      (startsWith_of_take_append (by decide) hrest)
  have hlength : (cs.take (growth [c] cs)).length = growth [c] cs :=
    List.length_take_of_le (growth_le_length [c] cs)
  have htake : (cs.take (growth [c] cs) ++ rest).take (growth [c] cs) = cs.take (growth [c] cs) := by
    rw [List.take_append_of_le_length (by omega), List.take_take, Nat.min_self]
  rw [scan, hsymbol, ← hscan]
  simp only [Scan.symbol, growth_take_append hrest, htake, hvalue, hlength]

end Symbol

/-- The lead as a space leaves it: a name in front of a space owns no member. -/
def Lead.settled : Lead → Lead
  | .owner => .value
  | lead => lead

private theorem Lead.settled_ne_owner (lead : Lead) : lead.settled ≠ .owner := by
  cases lead <;> simp [Lead.settled]

/-- Settling a lead keeps whether an operand is expected. -/
theorem Lead.settled_eq_operand_iff {lead : Lead} : lead.settled = .operand ↔ lead = .operand := by
  cases lead <;> simp [Lead.settled]

private theorem Lead.settled_of_ne_owner {lead : Lead} (hlead : lead ≠ .owner) :
    lead.settled = lead := by
  cases lead <;> simp_all [Lead.settled]

private theorem stable_point (lead : Lead) :
    Stable lead (.punctuation .dot) "." := by
  refine ⟨'.', [], rfl, ?_⟩
  intro rest hrest
  have hdigit := hrest.startsWith (p := Char.isDigit) (by decide)
  have hpoint : shape lead '.' ([] ++ rest) = .point := by
    simp +decide [shape, hdigit]
  rw [scan, hpoint]
  rfl

/-- The scanner of comments gives no tokens. -/
theorem content_comment_ne_token (cs : List Char) (kind : TokenKind) (lexeme : String) :
    (Scan.comment cs).content ≠ .token kind lexeme := by
  have hcontent : ∀ marks o, (Scan.ofComment marks cs o).content ≠ .token kind lexeme := by
    intro marks o
    cases o <;> simp [Scan.ofComment]
  unfold Scan.comment
  split
  · apply hcontent
  · apply hcontent

/-- Whatever token the scanner finds can be written out and found again. -/
theorem stable_of_scan {lead : Lead} {c : Char} {cs : List Char} {kind : TokenKind}
    {lexeme : String} (howner : lead = .owner → c = '.')
    (hscan : (scan lead c cs).content = .token kind lexeme)
    (hname : kind.category = .identifier → TokenKind.ofWord lexeme = kind) :
    Stable lead.settled kind lexeme := by
  unfold scan at hscan
  split at hscan
  · cases hscan
  · cases hscan
  · exact absurd hscan (content_comment_ne_token cs kind lexeme)
  · exact stable_of_string hscan
  · exact stable_of_character hscan
  · next hshape =>
    exact stable_number hshape (fun _ => lead.settled_ne_owner) Lead.settled_eq_operand_iff.2 hscan
  · next hshape =>
    exact stable_word (isWordStart_of_shape hshape) hscan hname
  · obtain ⟨rfl, rfl⟩ := Content.token.inj hscan
    exact stable_point lead.settled
  · next hshape =>
    have hlead : lead ≠ .owner := by
      intro heq
      exact (symbolic_of_shape hshape).1.2.2.2.2.2.1 (howner heq)
    exact stable_symbol hshape Lead.settled_eq_operand_iff.1 (by rw [Lead.settled_of_ne_owner hlead]) hscan
  · cases hscan

end Lexical

end GeoLang
