import GeoLang.Analysis
import GeoLang.Proofs.Lexical.Segment
import GeoLang.Proofs.Reader.Invariant
import GeoLang.Proofs.Reader.Renumbering
import Mathlib.Data.List.Basic

namespace GeoLang

open Grammar

/-- The tokens that are no comments, the end of the text included. -/
def Token.uncommented (tokens : List Token) : List Token := tokens.filter (!·.kind.isComment)

namespace Lexical

/-- Keeping comments adds nothing but comments. -/
theorem filter_token? {afterValue : Bool} {chars : List Char} {content : Content} {span : Span}
    (hpiece : Piece afterValue chars content) :
    (token? true (⟨chars, content⟩, span)).filter (!·.kind.isComment) =
      token? false (⟨chars, content⟩, span) := by
  cases hpiece with
  | token hkind => simp [token?, hkind.isComment_eq_false]
  | comment hclosed => simp [token?, TokenKind.isComment]
  | blank | writtenBlank | fault => rfl

end Lexical

open Lexical in
/-- Lexing with comments kept and dropping them afterwards is lexing without them. -/
theorem Lexed.uncommented_tokens_ofSource (source : String) :
    Token.uncommented (Lexed.ofSource true source).tokens =
      (Lexed.ofSource false source).tokens := by
  unfold Token.uncommented Lexed.ofSource
  dsimp only
  rw [List.filter_append, List.filter_filterMap]
  congr 1
  refine List.filterMap_congr ?_
  rintro ⟨⟨chars, content⟩, span⟩ hplaced
  obtain ⟨afterValue, hpiece⟩ := exists_piece_of_mem_segments (mem_of_mem_place hplaced)
  exact filter_token? hpiece

namespace Reader

/-- How many tokens that are not comments stand in front of the index. -/
def codeIndex (tokens : List Token) (i : Nat) : Nat := (Token.uncommented (tokens.take i)).length

/-- The index is in the list or just behind it, and not at a comment. -/
structure AtCode (tokens : List Token) (i : Nat) : Prop where
  le_length : i ≤ tokens.length
  rests : ∀ t ∈ tokens[i]?, t.kind.isComment = false

variable {tokens : List Token}

/-- A sound reader never stands in front of a comment. -/
theorem Sound.atCode {s : Reader} (hs : s.Sound tokens) : AtCode tokens s.pos := ⟨hs.pos_le, hs.rests⟩

/-- Dropping the comments commutes with splitting a text. -/
theorem uncommented_split (tokens : List Token) (i : Nat) :
    Token.uncommented tokens =
      Token.uncommented (tokens.take i) ++ Token.uncommented (tokens.drop i) := by
  unfold Token.uncommented
  rw [← List.filter_append, List.take_append_drop]

private theorem take_codeIndex (tokens : List Token) (i : Nat) :
    (Token.uncommented tokens).take (codeIndex tokens i) = Token.uncommented (tokens.take i) := by
  rw [uncommented_split tokens i, codeIndex, List.take_left]

private theorem drop_codeIndex (tokens : List Token) (i : Nat) :
    (Token.uncommented tokens).drop (codeIndex tokens i) = Token.uncommented (tokens.drop i) := by
  rw [uncommented_split tokens i, codeIndex, List.drop_left]

private theorem codeIndex_le_length (tokens : List Token) (i : Nat) :
    codeIndex tokens i ≤ (Token.uncommented tokens).length := by
  have hsplit := congrArg List.length (uncommented_split tokens i)
  rw [List.length_append] at hsplit
  rw [codeIndex]
  omega

/-- The index among the tokens of the code grows by the code that is passed. -/
theorem codeIndex_add (tokens : List Token) (i d : Nat) :
    codeIndex tokens (i + d) =
      codeIndex tokens i + (Token.uncommented ((tokens.drop i).take d)).length := by
  have htake : tokens.take (i + d) = tokens.take i ++ (tokens.drop i).take d := List.take_add
  simp only [codeIndex, Token.uncommented]
  rw [htake, List.filter_append, List.length_append]

/-- Behind an index that is at a token, and not at a comment, more tokens are counted. -/
theorem AtCode.codeIndex_lt {i j : Nat} (hi : AtCode tokens i) (hlt : i < j)
    (hj : j ≤ tokens.length) : codeIndex tokens i < codeIndex tokens j := by
  obtain ⟨d, rfl⟩ : ∃ d, j = i + (d + 1) := ⟨j - i - 1, by omega⟩
  have hget : tokens[i]? = some tokens[i] := List.getElem?_eq_getElem (by omega)
  have hdrop : tokens.drop i = tokens[i] :: tokens.drop (i + 1) :=
    List.drop_eq_getElem_cons (by omega)
  have hcode : tokens[i].kind.isComment = false := hi.rests _ hget
  rw [codeIndex_add, hdrop, List.take_succ_cons, Token.uncommented,
    List.filter_cons_of_pos (by simp [hcode]), List.length_cons]
  omega

private theorem AtCode.codeIndex_lt_iff {i j : Nat} (hi : AtCode tokens i) (hj : AtCode tokens j) :
    codeIndex tokens i < codeIndex tokens j ↔ i < j := by
  constructor
  · intro hlt
    by_cases hgt : j < i
    · have hback := hj.codeIndex_lt hgt hi.le_length
      omega
    · by_cases heq : i = j
      · subst heq
        omega
      · omega
  · intro hlt
    exact hi.codeIndex_lt hlt hj.le_length

/-- The same tokens are ahead of the renumbered reader. -/
theorem ahead_renumber_codeIndex (s : Reader) :
    (s.renumber (codeIndex tokens)).ahead (Token.uncommented tokens) = s.ahead tokens := by
  have hdrop : (Token.uncommented tokens).drop (s.renumber (codeIndex tokens)).pos =
      Token.uncommented (tokens.drop s.pos) := drop_codeIndex tokens s.pos
  rw [ahead, hdrop, ahead, Token.uncommented, List.filter_filter]
  simp only [Bool.and_self]

private theorem previous_renumber_codeIndex (s : Reader) :
    (s.renumber (codeIndex tokens)).previous (Token.uncommented tokens) = s.previous tokens := by
  have htake : (Token.uncommented tokens).take (s.renumber (codeIndex tokens)).pos =
      Token.uncommented (tokens.take s.pos) := take_codeIndex tokens s.pos
  rw [previous, htake, previous, Token.uncommented, ← List.filter_reverse, List.find?_filter]
  simp only [and_self, Bool.decide_eq_true]

/-- Without comments in the list a reader has none to skip. -/
theorem skipComments_uncommented (s : Reader) :
    s.skipComments (Token.uncommented tokens) = s := by
  have hnone : ((Token.uncommented tokens).drop s.pos).takeWhile (·.kind.isComment) = [] := by
    cases hdrop : (Token.uncommented tokens).drop s.pos with
    | nil => rfl
    | cons t ts =>
      have hmem : t ∈ Token.uncommented tokens := by
        apply List.mem_of_mem_drop (i := s.pos)
        rw [hdrop]
        exact List.mem_cons_self
      have hcode := (List.mem_filter.1 hmem).2
      exact List.takeWhile_cons_of_neg (by simpa using hcode)
  rw [skipComments, hnone]
  rfl

/-- The lists end in the same place if the longer one does not end in a comment. -/
theorem endToken_uncommented (hlast : ∀ t ∈ tokens.getLast?, t.kind.isComment = false) :
    endToken (Token.uncommented tokens) = endToken tokens := by
  have hsame : (Token.uncommented tokens).getLast? = tokens.getLast? := by
    rw [Token.uncommented, List.getLast?_filter, List.getLast?_eq_head?_reverse]
    cases hreverse : tokens.reverse with
    | nil => rfl
    | cons t ts =>
      have hcode := hlast t (by rw [List.getLast?_eq_head?_reverse, hreverse, List.head?_cons]; rfl)
      rw [List.find?_cons_of_pos (by simp [hcode]), List.head?_cons]
  rw [endToken, hsame, endToken]

/-- The renumbered reader has the same token in front; behind the last token, that is the last token
    itself, so it must be no comment. -/
theorem peek_renumber_codeIndex (hlast : ∀ t ∈ tokens.getLast?, t.kind.isComment = false)
    (s : Reader) :
    (s.renumber (codeIndex tokens)).peek (Token.uncommented tokens) = s.peek tokens := by
  rw [peek, ahead_renumber_codeIndex, endToken_uncommented hlast, peek]

/-- The renumbered reader is at the end exactly when the reader is. -/
theorem atEnd_renumber_codeIndex (hlast : ∀ t ∈ tokens.getLast?, t.kind.isComment = false)
    (s : Reader) :
    (s.renumber (codeIndex tokens)).atEnd (Token.uncommented tokens) = s.atEnd tokens := by
  rw [atEnd, peek_renumber_codeIndex hlast, atEnd]

/-- Where a reader advances to, in the whole list and without the comments. -/
theorem AtCode.advance {s : Reader} (hs : AtCode tokens s.pos) :
    AtCode tokens (s.advance tokens).pos ∧
      (s.atEnd tokens = false →
        codeIndex tokens (s.advance tokens).pos = codeIndex tokens s.pos + 1) := by
  cases hend : s.atEnd tokens with
  | true =>
    rw [advance_of_atEnd hend]
    exact ⟨hs, nofun⟩
  | false =>
    -- The index that is advanced to does not depend on the depth, so let there be none.
    let free : Reader := ⟨s.pos, s.errors, 0⟩
    have hfree : free.Sound tokens := ⟨hs.le_length, hs.rests, Nat.zero_le _⟩
    have hpos : (s.advance tokens).pos = (free.advance tokens).pos := by
      have hends : free.atEnd tokens = false := hend
      rw [Reader.advance, if_neg (by simp [hend]), Reader.advance, if_neg (by simp [hends])]
      rfl
    obtain ⟨comments, hpasses, hcomments⟩ := hfree.passes_advance hend
    have hcode : (free.peek tokens).kind.isComment = false := hfree.isComment_peek hend
    have hstep : (free.advance tokens).pos = s.pos + (free.peek tokens :: comments).length :=
      hpasses.pos
    have hpassed : (tokens.drop s.pos).take (free.peek tokens :: comments).length =
        free.peek tokens :: comments := by
      have hahead : tokens.drop s.pos = _ := hpasses.ahead
      rw [hahead, List.take_left]
    rw [hpos]
    refine ⟨hfree.advance.atCode, fun _ => ?_⟩
    rw [hstep, codeIndex_add, hpassed, Token.uncommented,
      List.filter_cons_of_pos (by simp [hcode]), hcomments, List.length_singleton]

private theorem AtCode.advance_renumber (hlast : ∀ t ∈ tokens.getLast?, t.kind.isComment = false)
    {s : Reader} (hs : AtCode tokens s.pos) :
    (s.renumber (codeIndex tokens)).advance (Token.uncommented tokens) =
      (s.advance tokens).renumber (codeIndex tokens) := by
  have hends := atEnd_renumber_codeIndex hlast s
  cases hend : s.atEnd tokens with
  | true => rw [advance_of_atEnd hend, advance_of_atEnd (hends.trans hend)]
  | false =>
    have hindex := hs.advance.2 hend
    have hadvance : s.advance tokens = { s with pos := (s.advance tokens).pos } := by
      rw [Reader.advance, if_neg (by simp [hend])]
      rfl
    rw [Reader.advance, if_neg (by simp [hends, hend]), skipComments_uncommented, hadvance]
    simp only [renumber, hindex]

/-- A list of tokens and the list without its comments, at indices that are not at comments. -/
theorem renumbers_uncommented (hlast : ∀ t ∈ tokens.getLast?, t.kind.isComment = false) :
    Renumbers tokens (Token.uncommented tokens) (AtCode tokens) (codeIndex tokens) where
  le_length hi := hi.le_length
  index_le_length {i} _ := codeIndex_le_length tokens i
  index_lt_iff hi hj := hi.codeIndex_lt_iff hj
  peek {s} _ := peek_renumber_codeIndex hlast s
  second {s} _ := by
    rw [second, atEnd_renumber_codeIndex hlast, peek_renumber_codeIndex hlast,
      ahead_renumber_codeIndex, endToken_uncommented hlast, second]
  assignsPath {s} _ := by rw [ahead_renumber_codeIndex]
  previous {s} _ := previous_renumber_codeIndex s
  inside_advance hs := hs.advance.1
  advance hs := hs.advance_renumber hlast

private theorem initial_uncommented :
    initial (Token.uncommented tokens) = (initial tokens).renumber (codeIndex tokens) := by
  let start : Reader := ⟨0, [], 0⟩
  have hcomments : Token.uncommented (tokens.take (initial tokens).pos) = [] := by
    have hpasses := @passes_skipComments tokens start
    have hpos : (initial tokens).pos = (tokens.takeWhile (·.kind.isComment)).length :=
      Nat.zero_add _
    rw [hpos, ← List.prefix_iff_eq_take.1 (List.takeWhile_prefix _), Token.uncommented,
      List.filter_eq_nil_iff]
    intro t ht
    have hcomment := List.all_eq_true.1 List.all_takeWhile t ht
    simpa using hcomment
  have hindex : codeIndex tokens (initial tokens).pos = 0 := by rw [codeIndex, hcomments]; rfl
  rw [initial, skipComments_uncommented, renumber, hindex]
  rfl

/-- Reading a list of tokens makes the same calls without its comments, at the indices that
    match. -/
theorem run_program_uncommented (hlast : ∀ t ∈ tokens.getLast?, t.kind.isComment = false) :
    Plan.program.run (Token.uncommented tokens) (initial (Token.uncommented tokens)) =
      (Plan.program.run tokens (initial tokens)).renumber (codeIndex tokens) := by
  rw [initial_uncommented]
  exact (Plan.program.run_matches (renumbers_uncommented hlast) sound_initial.atCode).eq

end Reader

open Reader in
/-- A list of tokens that does not end in a comment gives the same without its comments. -/
theorem Parsed.ofTokens_uncommented {tokens : List Token}
    (hlast : ∀ t ∈ tokens.getLast?, t.kind.isComment = false) :
    Parsed.ofTokens tokens = Parsed.ofTokens (Token.uncommented tokens) := by
  cases hsome : tokens.getLast? with
  | none =>
    obtain rfl := List.getLast?_eq_none_iff.1 hsome
    rfl
  | some last =>
    have hcode : last.kind.isComment = false := hlast last hsome
    have hmem : last ∈ Token.uncommented tokens :=
      List.mem_filter.2 ⟨List.mem_of_getLast? hsome, by simp [hcode]⟩
    have hne : tokens ≠ [] := List.ne_nil_of_mem (List.mem_of_getLast? hsome)
    rw [Parsed.ofTokens_eq_run hne, Parsed.ofTokens_eq_run (List.ne_nil_of_mem hmem),
      run_program_uncommented hlast]
    rfl

namespace Lexed

/-- The lexical errors do not depend on whether comments are kept. -/
theorem errors_ofSource (source : String) :
    (Lexed.ofSource true source).errors = (Lexed.ofSource false source).errors := rfl

/-- No text ends in a comment, since the end of the text is behind it. -/
theorem isComment_getLast?_ofSource (keepComments : Bool) (source : String) :
    ∀ t ∈ (Lexed.ofSource keepComments source).tokens.getLast?, t.kind.isComment = false := by
  intro t ht
  unfold Lexed.ofSource at ht
  rw [List.getLast?_concat] at ht
  obtain rfl := Option.some.inj ht
  rfl

end Lexed

/-- What a text is read as does not depend on whether its comments are kept. -/
theorem Analysis.parseLexed_ofSource (parseOnLexErrors : Bool) (source : String) :
    Analysis.parseLexed ⟨true, parseOnLexErrors⟩ (Lexed.ofSource true source) =
      Analysis.parseLexed ⟨false, parseOnLexErrors⟩ (Lexed.ofSource false source) := by
  have hparsed := Parsed.ofTokens_uncommented (Lexed.isComment_getLast?_ofSource true source)
  rw [Lexed.uncommented_tokens_ofSource] at hparsed
  rw [Analysis.parseLexed, hparsed, Lexed.errors_ofSource, Analysis.parseLexed]

open Reader in
/-- Comments are transparent: to the other tokens of a text and its lexical errors, to its tree and
    its errors, and to the reading of any list of tokens that does not end in one. -/
theorem Analysis.comments_transparent :
    (∀ source : String,
      Token.uncommented (Lexed.ofSource true source).tokens =
          (Lexed.ofSource false source).tokens ∧
        (Lexed.ofSource true source).errors = (Lexed.ofSource false source).errors ∧
        ∀ parseOnLexErrors : Bool,
          let kept := Analysis.ofSource ⟨true, parseOnLexErrors⟩ source
          let dropped := Analysis.ofSource ⟨false, parseOnLexErrors⟩ source
          kept.program = dropped.program ∧ kept.parseErrors = dropped.parseErrors) ∧
      ∀ tokens : List Token, (∀ t ∈ tokens.getLast?, t.kind.isComment = false) →
        Parsed.ofTokens tokens = Parsed.ofTokens (Token.uncommented tokens) ∧
          Plan.program.run (Token.uncommented tokens) (initial (Token.uncommented tokens)) =
            (Plan.program.run tokens (initial tokens)).renumber (codeIndex tokens) := by
  refine ⟨fun source => ⟨Lexed.uncommented_tokens_ofSource source, Lexed.errors_ofSource source, ?_⟩,
    fun tokens hlast => ⟨Parsed.ofTokens_uncommented hlast, run_program_uncommented hlast⟩⟩
  intro parseOnLexErrors kept dropped
  have hparsed := Analysis.parseLexed_ofSource parseOnLexErrors source
  exact ⟨congrArg Parsed.program hparsed, congrArg Parsed.errors hparsed⟩

open Reader in
/-- A comment between a name and the mark behind it. -/
theorem Analysis.comments_transparent_between :
    let name : Token := ⟨.identifier "x", "x", .empty .start⟩
    let comment : Token := ⟨.comment "one", "one", .empty .start⟩
    let semicolon : Token := ⟨.punctuation .semicolon, ";", .empty .start⟩
    (∀ t ∈ [name, comment, semicolon].getLast?, t.kind.isComment = false) ∧
      Parsed.ofTokens [name, comment, semicolon] = Parsed.ofTokens [name, semicolon] ∧
        Plan.program.run [name, semicolon] (initial [name, semicolon]) =
          (Plan.program.run [name, comment, semicolon] (initial [name, comment, semicolon])).renumber
            (codeIndex [name, comment, semicolon]) := by
  intro name comment semicolon
  have hlast : ∀ t ∈ [name, comment, semicolon].getLast?, t.kind.isComment = false := by
    intro t ht
    obtain rfl := Option.some.inj ht
    rfl
  exact ⟨hlast, Analysis.comments_transparent.2 [name, comment, semicolon] hlast⟩

end GeoLang
