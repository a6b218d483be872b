import GeoLang.Proofs.Lexical.Character
import GeoLang.Proofs.Lexical.Sign

namespace GeoLang

/-- The text spells an operator or a punctuation mark. -/
def SpellsSymbol (s : String) : Prop :=
  (∃ op : Operator, op.spelling = s) ∨ ∃ mark : Punctuation, mark.spelling = s

/-- The spelling of the operator or of the punctuation mark that a token is. -/
def TokenKind.symbol? : TokenKind → Option String
  | .operator _ op => some op.spelling
  | .punctuation mark => some mark.spelling
  | _ => none

/-- The text `cs` begins with `s` and with no longer spelling of a symbol. -/
structure LongestSymbol (s : String) (cs : List Char) : Prop where
  begins : s.toList <+: cs
  longest : ∀ other, SpellsSymbol other → other.toList <+: cs → other.length ≤ s.length

/-- Each symbol among the tokens is written in `source` as it is spelled, and no longer spelling
    stands there; where a symbol is unknown, no spelling stands at all. -/
structure Lexed.SymbolsLongest (lexed : Lexed) (source : String) : Prop where
  token : ∀ t ∈ lexed.tokens, ∀ s, t.kind.symbol? = some s →
    t.lexeme = s ∧ t.span.covered source = s ∧
      ∃ cs, Text.dropBytes? t.span.start.offset source.toList = some cs ∧ LongestSymbol s cs
  unknown : ∀ e ∈ lexed.errors, ∀ s, e.fault = .unknownSymbol s →
    ∃ c cs, s = String.singleton c ∧ e.span.covered source = s ∧
      Text.dropBytes? e.span.start.offset source.toList = some (c :: cs) ∧
        ∀ other, SpellsSymbol other → ¬ other.toList <+: c :: cs

/-- Every mark is a single character. -/
theorem Punctuation.length_spelling (mark : Punctuation) : mark.spelling.length = 1 := by
  cases mark <;> decide

theorem Operator.spelling_ne_empty (op : Operator) : op.spelling.toList ≠ [] := by
  cases op <;> decide

/-- What an operator begins with, and more than one character long, is an operator. -/
theorem Operator.isCompound_take (op : Operator) :
    ∀ n ≤ op.spelling.length, 2 ≤ n → isCompound (String.ofList (op.spelling.toList.take n)) = true := by
  cases op <;> decide

/-- No operator begins with a point. -/
theorem Operator.head?_spelling_ne (op : Operator) : op.spelling.toList.head? ≠ some '.' := by
  cases op <;> decide

private theorem SpellsSymbol.ne_empty {s : String} (hs : SpellsSymbol s) : s.toList ≠ [] := by
  obtain ⟨op, rfl⟩ | ⟨mark, rfl⟩ := hs
  · exact op.spelling_ne_empty
  · intro hempty
    have hlength := mark.length_spelling
    rw [← String.length_toList, hempty] at hlength
    cases hlength

namespace Lexical

/-- A symbol that has grown is an operator. -/
theorem isCompound_of_growth {taken cs : List Char} (hgrown : growth taken cs ≠ 0) :
    Operator.isCompound (String.ofList (taken ++ cs.take (growth taken cs))) = true := by
  induction cs generalizing taken with
  | nil => exact absurd rfl hgrown
  | cons c cs ih =>
    rw [growth] at hgrown ⊢
    split
    · next hcompound =>
      rw [List.take_succ_cons, List.append_cons]
      by_cases hmore : growth (taken ++ [c]) cs = 0
      · rw [hmore, List.take_zero, List.append_nil]
        exact hcompound
      · exact ih hmore
    · next hcompound =>
      rw [if_neg hcompound] at hgrown
      exact absurd rfl hgrown

/-- A symbol grows over whatever else of an operator follows it. -/
theorem length_le_growth {taken more cs : List Char} (htaken : taken ≠ []) {op : Operator}
    (hspelling : op.spelling.toList = taken ++ more) (hmore : more <+: cs) :
    more.length ≤ growth taken cs := by
  induction cs generalizing taken more with
  | nil => rw [List.prefix_nil.1 hmore]; exact Nat.zero_le _
  | cons c cs ih =>
    cases more with
    | nil => exact Nat.zero_le _
    | cons d more =>
      obtain ⟨rfl, htail⟩ := List.cons_prefix_cons.1 hmore
      have hlength : op.spelling.length = taken.length + (more.length + 1) := by
        rw [← String.length_toList, hspelling, List.length_append, List.length_cons]
      have hpositive := List.length_pos_iff.2 htaken
      have hcompound := op.isCompound_take (taken.length + 1) (by omega) (by omega)
      rw [hspelling, List.take_length_add_append] at hcompound
      rw [growth, if_pos (by simpa using hcompound), List.length_cons]
      refine Nat.succ_le_succ (ih (by simp) ?_ htail)
      rw [hspelling, List.append_cons]

/-- No spelling that a text begins with is longer than the symbol grows. -/
theorem length_le_of_spellsSymbol {other : String} (hother : SpellsSymbol other) {c : Char}
    {cs : List Char} (hbegins : other.toList <+: c :: cs) : other.length ≤ growth [c] cs + 1 := by
  obtain ⟨op, rfl⟩ | ⟨mark, rfl⟩ := hother
  · cases hspelling : op.spelling.toList with
    | nil => exact absurd hspelling op.spelling_ne_empty
    | cons d more =>
      rw [hspelling] at hbegins
      obtain ⟨rfl, hmore⟩ := List.cons_prefix_cons.1 hbegins
      rw [← String.length_toList, hspelling, List.length_cons]
      exact Nat.succ_le_succ (length_le_growth (List.cons_ne_nil d []) hspelling hmore)
  · rw [mark.length_spelling]
    exact Nat.le_add_left 1 _

/-- A spelling of one character is the first character of the text. -/
theorem eq_singleton_of_prefix {s : String} (hne : s.toList ≠ []) (hlength : s.length ≤ 1) {c : Char}
    {cs : List Char} (hbegins : s.toList <+: c :: cs) : s = String.singleton c := by
  rw [← String.length_toList] at hlength
  cases hs : s.toList with
  | nil => exact absurd hs hne
  | cons d ds =>
    rw [hs] at hlength hbegins
    obtain rfl : ds = [] := List.length_eq_zero_iff.1 (by simpa using hlength)
    obtain ⟨rfl, -⟩ := List.cons_prefix_cons.1 hbegins
    rw [← String.toList_inj, hs, String.toList_singleton]

section Scan

variable {lead : Lead} {afterValue : Bool} {c : Char} {cs : List Char} {kind : TokenKind}
  {lexeme s : String}

private theorem longest_of_symbol
    (hscan : (Scan.symbol afterValue c cs).content = .token kind lexeme)
    (hkind : kind.symbol? = some s) :
    lexeme = s ∧ s.toList = c :: cs.take (Scan.symbol afterValue c cs).extra ∧
      LongestSymbol s (c :: cs) := by
  have hspelling : lexeme = s ∧ lexeme = String.ofList (c :: cs.take (growth [c] cs)) := by
    simp only [Scan.symbol] at hscan
    split at hscan
    · next hop =>
      obtain ⟨rfl, rfl⟩ := Content.token.inj hscan
      obtain rfl := Option.some.inj hkind
      exact ⟨(Operator.vocabulary.spelling_of_ofSpelling? hop).symm, rfl⟩
    · next hmark =>
      obtain ⟨rfl, rfl⟩ := Content.token.inj hscan
      obtain rfl := Option.some.inj hkind
      exact ⟨(Punctuation.vocabulary.spelling_of_ofSpelling? hmark).symm, rfl⟩
    · cases hscan
  obtain ⟨rfl, hlexeme⟩ := hspelling
  have htext : lexeme.toList = c :: cs.take (growth [c] cs) := by
    rw [hlexeme, String.toList_ofList]
  refine ⟨rfl, htext, ?_, fun other hother hbegins => ?_⟩
  · rw [htext, List.cons_prefix_cons]
    exact ⟨rfl, List.take_prefix _ _⟩
  · rw [← lexeme.length_toList, htext, List.length_cons,
      List.length_take_of_le (growth_le_length [c] cs)]
    exact length_le_of_spellsSymbol hother hbegins

/-- A symbol is unknown if the text begins with no spelling at all. -/
theorem unknown_of_symbol (hscan : (Scan.symbol afterValue c cs).content = .fault (.unknownSymbol s)) :
    s = String.singleton c ∧ (Scan.symbol afterValue c cs).extra = 0 ∧
      ∀ other, SpellsSymbol other → ¬ other.toList <+: c :: cs := by
  have hnone : Operator.ofSpelling? (String.ofList (c :: cs.take (growth [c] cs))) = none ∧
      Punctuation.ofSpelling? (String.ofList (c :: cs.take (growth [c] cs))) = none ∧
        s = String.ofList (c :: cs.take (growth [c] cs)) := by
    simp only [Scan.symbol] at hscan
    split at hscan
    · cases hscan
    · cases hscan
    · next hop hmark =>
      obtain ⟨⟩ := hscan
      exact ⟨hop, hmark, rfl⟩
  obtain ⟨hop, hmark, hs⟩ := hnone
  have hgrowth : growth [c] cs = 0 := by
    refine Decidable.byContradiction fun hgrown => ?_
    have hcompound := isCompound_of_growth hgrown
    rw [List.singleton_append, Operator.isCompound, hop] at hcompound
    cases hcompound
  have hsingle : String.ofList (c :: cs.take (growth [c] cs)) = String.singleton c := by
    rw [hgrowth, List.take_zero, String.singleton_eq_ofList]
  rw [hsingle] at hop hmark hs
  refine ⟨hs, hgrowth, fun other hother hbegins => ?_⟩
  have hlength := length_le_of_spellsSymbol hother hbegins
  rw [hgrowth] at hlength
  obtain rfl := eq_singleton_of_prefix hother.ne_empty hlength hbegins
  obtain ⟨op, heq⟩ | ⟨mark, heq⟩ := hother
  · rw [← heq] at hop
    cases hop.symm.trans (Operator.vocabulary.ofSpelling?_spelling op)
  · rw [← heq] at hmark
    cases hmark.symm.trans (Punctuation.vocabulary.ofSpelling?_spelling mark)

/-- A point is no part of a longer symbol. -/
theorem longest_point (cs : List Char) : LongestSymbol "." ('.' :: cs) := by
  refine ⟨⟨cs, rfl⟩, ?_⟩
  rintro other (⟨op, rfl⟩ | ⟨mark, rfl⟩) hbegins
  · cases hspelling : op.spelling.toList with
    | nil => exact absurd hspelling op.spelling_ne_empty
    | cons d more =>
      rw [hspelling] at hbegins
      obtain ⟨rfl, -⟩ := List.cons_prefix_cons.1 hbegins
      exact absurd (congrArg List.head? hspelling) op.head?_spelling_ne
  · exact Nat.le_of_eq mark.length_spelling

private theorem symbol?_ofWord (text : String) : (TokenKind.ofWord text).symbol? = none := by
  unfold TokenKind.ofWord
  split <;> rfl

private theorem symbol?_ofOwner (text : String) : (TokenKind.ofOwner text).symbol? = none := by
  unfold TokenKind.ofOwner
  split <;> rfl

private theorem literal_of_number (hscan : (Scan.number c cs).content = .token kind lexeme) :
    ∃ v, kind = .literal v := by
  simp only [Scan.number] at hscan
  split at hscan
  · exact ⟨_, (Content.token.inj hscan).1.symm⟩
  · cases hscan

theorem scan_symbol (hshape : shape lead c cs = .symbol) :
    scan lead c cs = Scan.symbol (lead == .value) c cs := by
  rw [scan, hshape]

/-- A point alone is found where there is one. -/
theorem eq_point_of_shape (hshape : shape lead c cs = .point) : c = '.' := by
  unfold shape at hshape
  grind

private theorem scan_point (hshape : shape lead c cs = .point) :
    scan lead c cs = ⟨0, .token (.punctuation .dot) "."⟩ := by
  rw [scan, hshape]

/-- What is at fault in quotes is no unknown symbol. -/
theorem character_ne_unknownSymbol (cs : List Char) (s : String) :
    (Scan.character cs).content ≠ .fault (.unknownSymbol s) := by
  obtain ⟨text, c, rest, htext, rfl⟩ | ⟨n, f, hfault, -⟩ := character_or_fault cs
  · rw [character_of_between htext]
    exact nofun
  · rw [hfault]
    exact nofun

/-- Operators and punctuation marks are found where a symbol or a point stands. -/
theorem shape_of_symbol? (hscan : (scan lead c cs).content = .token kind lexeme)
    (hkind : kind.symbol? = some s) : shape lead c cs = .symbol ∨ shape lead c cs = .point := by
  unfold scan at hscan
  split at hscan
  · cases hscan
  · cases hscan
  · exact absurd hscan (content_comment_ne_token cs _ _)
  · obtain ⟨_, rfl⟩ := content_string hscan
    cases hkind
  · obtain ⟨_, rfl⟩ := content_character hscan
    cases hkind
  · obtain ⟨_, rfl⟩ := literal_of_number hscan
    cases hkind
  · obtain ⟨rfl, -⟩ := Content.token.inj hscan
    split at hkind
    · rw [symbol?_ofOwner] at hkind
      cases hkind
    · rw [symbol?_ofWord] at hkind
      cases hkind
  · next hshape => exact .inr hshape
  · next hshape => exact .inl hshape
  · cases hscan

/-- Unknown symbols are found where a symbol stands. -/
theorem shape_of_unknownSymbol (hscan : (scan lead c cs).content = .fault (.unknownSymbol s)) :
    shape lead c cs = .symbol := by
  unfold scan at hscan
  split at hscan
  · cases hscan
  · cases hscan
  · have hcomment : ∀ marks o, (Scan.ofComment marks cs o).content ≠ .fault (.unknownSymbol s) := by
      intro marks o
      cases o <;> simp [Scan.ofComment]
    unfold Scan.comment at hscan
    split at hscan
    · exact absurd hscan (hcomment _ _)
    · exact absurd hscan (hcomment _ _)
  · unfold Scan.string at hscan
    split at hscan <;> cases hscan
  · exact absurd hscan (character_ne_unknownSymbol cs s)
  · simp only [Scan.number] at hscan
    split at hscan <;> cases hscan
  · cases hscan
  · cases hscan
  · next hshape => exact hshape
  · cases hscan

end Scan

/-- A placed segment is what the scanner finds where its span begins. -/
theorem exists_scan_of_mem_place {lead : Lead} {cs : List Char} {p : Position} {x : Segment × Span}
    (hx : x ∈ place p (segments lead cs)) :
    ∃ lead' front c ds, cs = front ++ c :: ds ∧
      x.1 = ⟨c :: ds.take (scan lead' c ds).extra, (scan lead' c ds).content⟩ ∧
        x.2 = ⟨p.advanceBy front, (p.advanceBy front).advanceBy x.1.chars⟩ := by
  fun_induction segments lead cs generalizing p with
  | case1 => cases hx
  | case2 lead c cs s =>
    rename_i rest ih
    obtain rfl | hx := List.mem_cons.1 hx
    · exact ⟨lead, [], c, cs, rfl, rfl, rfl⟩
    · obtain ⟨lead', front, c', ds, hrest, hsegment, hspan⟩ := ih hx
      refine ⟨lead', (c :: cs.take s.extra) ++ front, c', ds, ?_, hsegment, ?_⟩
      · rw [List.append_assoc, ← hrest, List.cons_append, List.take_append_drop]
      · rw [hspan, Position.advanceBy_append]

/-- Where a piece of the text stands that the scanner has placed, the text goes on with it. -/
theorem placed_in_source {lead : Lead} {source : String} {x : Segment × Span}
    (hx : x ∈ place .start (segments lead source.toList)) :
    ∃ lead' c cs, Text.dropBytes? x.2.start.offset source.toList = some (c :: cs) ∧
      x.1.content = (scan lead' c cs).content ∧
        x.2.covered source = String.ofList (c :: cs.take (scan lead' c cs).extra) := by
  obtain ⟨lead', front, c, cs, hsource, hsegment, hspan⟩ := exists_scan_of_mem_place hx
  refine ⟨lead', c, cs, ?_, by rw [hsegment], ?_⟩
  · rw [hspan, Position.offset_start_advanceBy, hsource, Text.dropBytes?_append]
  · rw [hspan, hsegment]
    have hsplit : source.toList = front ++ (c :: cs.take (scan lead' c cs).extra ++
        cs.drop (scan lead' c cs).extra) := by
      rw [hsource, List.cons_append, List.take_append_drop]
    exact Span.covered_advanceBy hsplit

section Placed

variable {keepComments : Bool} {source : String} {lead : Lead} {x : Segment × Span}
  (hx : x ∈ place .start (segments lead source.toList)) {s : String}

include hx

/-- An operator or a punctuation mark is the longest spelling that the text goes on with. -/
theorem symbolLongest_of_token {t : Token} (htoken : token? keepComments x = some t)
    (hkind : t.kind.symbol? = some s) :
    t.lexeme = s ∧ t.span.covered source = s ∧
      ∃ cs, Text.dropBytes? t.span.start.offset source.toList = some cs ∧ LongestSymbol s cs := by
  obtain ⟨lead', c, cs, hdrop, hcontent, hcovered⟩ := placed_in_source hx
  obtain ⟨kind, lexeme, htokenContent, rfl⟩ | ⟨-, body, -, rfl⟩ := token?_eq_some_iff.1 htoken
  · rw [hcontent] at htokenContent
    rw [hcovered]
    obtain hshape | hshape := shape_of_symbol? htokenContent hkind
    · rw [scan_symbol hshape] at htokenContent ⊢
      obtain ⟨hlexeme, hs, hlongest⟩ := longest_of_symbol htokenContent hkind
      exact ⟨hlexeme, by rw [← hs, String.ofList_toList], c :: cs, hdrop, hlongest⟩
    · obtain rfl := eq_point_of_shape hshape
      rw [scan_point hshape] at htokenContent ⊢
      obtain ⟨rfl, rfl⟩ := Content.token.inj htokenContent
      obtain rfl := Option.some.inj hkind
      exact ⟨rfl, rfl, '.' :: cs, hdrop, longest_point cs⟩
  · cases hkind

/-- Where a symbol is unknown, the text goes on with no spelling. -/
theorem noSymbol_of_error {e : LexError} (herror : error? x = some e)
    (hfault : e.fault = .unknownSymbol s) :
    ∃ c cs, s = String.singleton c ∧ e.span.covered source = s ∧
      Text.dropBytes? e.span.start.offset source.toList = some (c :: cs) ∧
        ∀ other, SpellsSymbol other → ¬ other.toList <+: c :: cs := by
  obtain ⟨lead', c, cs, hdrop, hcontent, hcovered⟩ := placed_in_source hx
  obtain ⟨f, hf, rfl⟩ := error?_eq_some_iff.1 herror
  obtain rfl : f = .unknownSymbol s := hfault
  rw [hcontent] at hf
  have hshape := shape_of_unknownSymbol hf
  rw [scan_symbol hshape] at hf hcovered
  obtain ⟨rfl, hextra, hnone⟩ := unknown_of_symbol hf
  rw [hextra, List.take_zero] at hcovered
  exact ⟨c, cs, rfl, by rw [hcovered, String.singleton_eq_ofList], hdrop, hnone⟩

end Placed

end Lexical

open Lexical in
/-- Operators and punctuation marks are always the longest that stand where they begin, and a symbol
    is unknown only where none stands. -/
theorem Lexed.symbolsLongest_ofSource (keepComments : Bool) (source : String) :
    (Lexed.ofSource keepComments source).SymbolsLongest source := by
  refine ⟨fun t ht s hkind => ?_, fun e he s hfault => ?_⟩
  · obtain ht | ht := List.mem_append.1 ht
    · obtain ⟨x, hx, htoken⟩ := List.mem_filterMap.1 ht
      exact symbolLongest_of_token hx htoken hkind
    · obtain rfl := List.mem_singleton.1 ht
      cases hkind
  · obtain ⟨x, hx, herror⟩ := List.mem_filterMap.1 he
    exact noSymbol_of_error hx herror hfault

end GeoLang
