import GeoLang.Proofs.Lexical.Quotation

namespace GeoLang

namespace Lexical

/-- `text` is the spelling of `c` as it may stand between single quotes. -/
structure Between (text : List Char) (c : Char) : Prop where
  spelled : Spelled text c
  ne_quote : text ≠ ['\'']
  ne_lineFeed : text ≠ ['\n']

/-- The text begins with a character literal for `c`. -/
def BeginsWithCharacter (cs : List Char) (c : Char) : Prop :=
  ∃ text rest, Between text c ∧ cs = '\'' :: (text ++ '\'' :: rest)

/-- The text has no line feed, except right behind a backslash that follows the opening quote. -/
def OnOneLine (cs : List Char) : Prop :=
  ∀ front behind, cs = front ++ '\n' :: behind → front = ['\'', '\\']

/-- Behind the spelling of a character the literal is closed or faulty. -/
theorem character_of_between {text : List Char} {c : Char} (htext : Between text c)
    (cs : List Char) : Scan.character (text ++ cs) = Scan.closeCharacter c text.length cs := by
  obtain ⟨hspelled, hquote, hline⟩ := htext
  cases hspelled with
  | plain hc =>
    exact Scan.character.eq_6 c cs (by simpa using hquote) (by simpa using hline)
      (fun h _ => hc h) (fun _ _ h _ => hc h)
  | lineFeed => rfl
  | tab => rfl
  | escaped hn ht =>
    have hc : unescape c = c := by
      unfold unescape
      split
      · exact absurd rfl hn
      · exact absurd rfl ht
      · rfl
    exact congrArg (Scan.closeCharacter · 2 cs) hc

/-- A quote on the rest of the line ends a row of characters that has neither a quote nor a line
    feed. -/
theorem exists_quote_of_mem {cs : List Char} (hquote : '\'' ∈ cs.takeWhile (· != '\n')) :
    ∃ rest, cs = cs.takeWhile (· != '\'') ++ '\'' :: rest ∧ '\n' ∉ cs.takeWhile (· != '\'') := by
  induction cs with
  | nil => cases hquote
  | cons c cs ih =>
    by_cases hc : c = '\''
    · subst hc
      exact ⟨cs, rfl, List.not_mem_nil⟩
    · by_cases hline : c = '\n'
      · subst hline
        cases hquote
      · rw [List.takeWhile_cons_of_pos (by simpa using hline)] at hquote
        obtain ⟨rest, hcs, hnone⟩ := ih ((List.mem_cons.1 hquote).resolve_left (Ne.symm hc))
        rw [List.takeWhile_cons_of_pos (by simpa using hc)]
        exact ⟨rest, by rw [List.cons_append, ← hcs], by simp [Ne.symm hline, hnone]⟩

theorem onOneLine_of_not_mem {cs : List Char} (hnone : '\n' ∉ cs) : OnOneLine cs := by
  rintro front behind rfl
  exact absurd (List.mem_append_right front List.mem_cons_self) hnone

/-- Only the character behind the backslash may be a line feed. -/
theorem onOneLine_pair (d : Char) {more : List Char} (hmore : '\n' ∉ more) :
    OnOneLine ('\'' :: '\\' :: d :: more) := by
  intro front behind hsplit
  obtain _ | ⟨a, _ | ⟨b, _ | ⟨e, front⟩⟩⟩ := front
  · cases hsplit
  · cases hsplit
  · simp only [List.cons_append, List.cons.injEq] at hsplit
    rw [hsplit.1, hsplit.2.1]
  · simp only [List.cons_append, List.cons.injEq] at hsplit
    obtain ⟨-, -, -, rfl⟩ := hsplit
    exact absurd (List.mem_append_right front List.mem_cons_self) hmore

theorem Between.onOneLine {text more : List Char} {c : Char} (htext : Between text c)
    (hmore : '\n' ∉ more) : OnOneLine ('\'' :: (text ++ more)) := by
  obtain ⟨hspelled, -, hline⟩ := htext
  cases hspelled with
  | plain => exact onOneLine_of_not_mem (by simpa [hmore, eq_comm] using hline)
  | lineFeed => exact onOneLine_pair 'n' hmore
  | tab => exact onOneLine_pair 't' hmore
  | escaped => exact onOneLine_pair c hmore

/-- Behind the spelling of a character stands a quote, or it is at fault up to the next quote on the
    line, if there is one. -/
theorem Between.closed_or_fault {text : List Char} {c : Char} (htext : Between text c)
    (rest : List Char) :
    (∃ behind, rest = '\'' :: behind) ∨
      ∃ n f, Scan.closeCharacter c text.length rest =
        ⟨n, .fault (.unclosedCharacter (CharacterFault.describe f))⟩ ∧
          OnOneLine ('\'' :: (text ++ rest).take n) := by
  unfold Scan.closeCharacter
  split
  · next behind => exact .inl ⟨behind, rfl⟩
  · split
    · next hquote =>
      obtain ⟨behind, hrest, hnone⟩ := exists_quote_of_mem hquote
      refine .inr ⟨_, _, rfl, ?_⟩
      have htake : rest.take ((rest.takeWhile (· != '\'')).length + 1) =
          rest.takeWhile (· != '\'') ++ ['\''] := by
        conv_lhs => arg 2; rw [hrest]
        exact List.take_length_add_append 1
      rw [Nat.add_assoc, List.take_length_add_append, htake]
      exact htext.onOneLine (by simpa using hnone)
    · refine .inr ⟨_, _, rfl, ?_⟩
      rw [List.take_left]
      simpa using htext.onOneLine List.not_mem_nil

/-- Behind an opening quote stands a character literal or a fault. -/
theorem character_or_fault (cs : List Char) :
    (∃ text c rest, Between text c ∧ cs = text ++ '\'' :: rest) ∨
      ∃ n f, Scan.character cs = ⟨n, .fault (.unclosedCharacter (CharacterFault.describe f))⟩ ∧
        OnOneLine ('\'' :: cs.take n) := by
  fun_cases Scan.character cs with
  | case1 => exact .inr ⟨_, _, rfl, onOneLine_of_not_mem (by simp)⟩
  | case2 => exact .inr ⟨_, _, rfl, onOneLine_of_not_mem (by simp)⟩
  | case3 => exact .inr ⟨_, _, rfl, onOneLine_of_not_mem (by simp)⟩
  | case4 => exact .inr ⟨_, _, rfl, onOneLine_of_not_mem (by simp)⟩
  | case5 c cs =>
    have htext : Between ['\\', c] (unescape c) := ⟨spelled_unescape c, by simp, by simp⟩
    obtain ⟨behind, rfl⟩ | hfault := htext.closed_or_fault cs
    · exact .inl ⟨_, _, behind, htext, rfl⟩
    · exact .inr hfault
  | case6 c cs hquote hline hlone hescape =>
    have hc := Spelled.plain (ne_backslash hlone hescape)
    have htext : Between [c] c := ⟨hc, by simpa using hquote, by simpa using hline⟩
    obtain ⟨behind, rfl⟩ | hfault := htext.closed_or_fault cs
    · exact .inl ⟨_, _, behind, htext, rfl⟩
    · exact .inr hfault

end Lexical

open Lexical in
/-- A text that begins with a single quote begins with a character literal if and only if that is
    what stands there; in every other case it begins with one error for an unclosed character, which
    covers no line feed but one that a backslash stands in front of, and everything else stands
    behind the text it covers. -/
theorem Lexed.beginsWith_character_iff (keepComments : Bool) {source : String} {cs : List Char}
    (hsource : source.toList = '\'' :: cs) :
    (∀ v, (∃ lexeme span, (Lexed.ofSource keepComments source).BeginsWith
      ⟨.literal (.character v), lexeme, span⟩) ↔ BeginsWithCharacter source.toList v) ∧
      ((∀ v, ¬ BeginsWithCharacter source.toList v) →
        ∃ f consumed rest, source.toList = consumed ++ rest ∧ OnOneLine consumed ∧
          (Lexed.ofSource keepComments source).BeginsWithError
            ⟨.unclosedCharacter (CharacterFault.describe f),
              ⟨.start, Position.start.advanceBy consumed⟩⟩) := by
  have hscan : scan .operand '\'' cs = Scan.character cs := rfl
  have hbegins : ∀ {text c rest}, Between text c → cs = text ++ '\'' :: rest →
      (Lexed.ofSource keepComments source).BeginsWith
        ⟨.literal (.character c), String.singleton c,
          ⟨.start, Position.start.advanceBy ('\'' :: cs.take (text.length + 1))⟩⟩ := by
    rintro text c rest htext rfl
    apply beginsWith_of_scan hsource keepComments
    rw [hscan, character_of_between htext]
    rfl
  refine ⟨fun v => ⟨?_, ?_⟩, fun hnone => ?_⟩
  · rintro ⟨lexeme, span, hv⟩
    obtain ⟨text, c, rest, htext, hcs⟩ | ⟨n, f, hfault, -⟩ := character_or_fault cs
    · have heq := congrArg Token.kind ((hbegins htext hcs).eq hv)
      obtain rfl : c = v := by simpa using heq
      exact ⟨text, rest, htext, by rw [hsource, hcs]⟩
    · have herror := beginsWithError_of_scan hsource keepComments (hscan.trans hfault)
      exact absurd hv (herror.not_beginsWith _)
  · rintro ⟨text, rest, htext, hbeginning⟩
    rw [hsource] at hbeginning
    exact ⟨_, _, hbegins htext (List.cons.inj hbeginning).2⟩
  · obtain ⟨text, c, rest, htext, hcs⟩ | ⟨n, f, hfault, hline⟩ := character_or_fault cs
    · exact absurd ⟨text, rest, htext, by rw [hsource, hcs]⟩ (hnone c)
    · refine ⟨f, '\'' :: cs.take n, cs.drop n, ?_, hline, ?_⟩
      · rw [hsource, List.cons_append, List.take_append_drop]
      · exact beginsWithError_of_scan hsource keepComments (hscan.trans hfault)

open Lexical in
/-- A line feed may stand between quotes behind a backslash; two letters may not. -/
theorem Lexed.beginsWith_character_iff_lineFeed :
    (∃ lexeme span, (Lexed.ofSource false "'\\\n'x").BeginsWith
      ⟨.literal (.character '\n'), lexeme, span⟩) ∧
      ∃ f consumed rest, "'it's".toList = consumed ++ rest ∧ OnOneLine consumed ∧
        (Lexed.ofSource false "'it's").BeginsWithError
          ⟨.unclosedCharacter (CharacterFault.describe f),
            ⟨.start, Position.start.advanceBy consumed⟩⟩ := by
  constructor
  · have hsource : "'\\\n'x".toList = '\'' :: ['\\', '\n', '\'', 'x'] := by decide
    have hbetween : Between ['\\', '\n'] '\n' :=
      ⟨.escaped (by decide) (by decide), by decide, by decide⟩
    exact ((Lexed.beginsWith_character_iff false hsource).1 '\n').2 ⟨_, ['x'], hbetween, hsource⟩
  · have hsource : "'it's".toList = '\'' :: ['i', 't', '\'', 's'] := by decide
    refine (Lexed.beginsWith_character_iff false hsource).2 fun v hbegins => ?_
    obtain ⟨text, rest, hbetween, htext⟩ := hbegins
    rw [hsource] at htext
    cases hbetween.spelled <;> simp at htext

end GeoLang
