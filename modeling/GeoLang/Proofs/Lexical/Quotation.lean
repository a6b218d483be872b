import Mathlib.Algebra.Group.Even
import Mathlib.Algebra.Group.Nat.Even
import Mathlib.Data.List.DropRight
import GeoLang.Proofs.Lexical.Beginning
import GeoLang.Proofs.Lexical.Written

namespace GeoLang

namespace Lexical

/-- How the character `c` of a value may be written: as itself unless it is a backslash, or behind a
    backslash. -/
inductive Spelled : List Char → Char → Prop where
  | plain {c : Char} (hc : c ≠ '\\') : Spelled [c] c
  | lineFeed : Spelled ['\\', 'n'] '\n'
  | tab : Spelled ['\\', 't'] '\t'
  | escaped {c : Char} (hn : c ≠ 'n') (ht : c ≠ 't') : Spelled ['\\', c] c

/-- The text stands for the value, character by character. -/
inductive StandsFor : List Char → List Char → Prop where
  | nil : StandsFor [] []
  | cons {text cs value : List Char} {c : Char} (hfirst : Spelled text c) (hrest : StandsFor cs value) :
      StandsFor (text ++ cs) (c :: value)

/-- The number of backslashes right at the end of the text. -/
def trailingBackslashes (cs : List Char) : Nat := (cs.rtakeWhile (· == '\\')).length

/-- `cs` is `body`, a quote with an even number of backslashes directly in front of it, and `rest`;
    no earlier quote has that. -/
structure ClosedBehind (cs body rest : List Char) : Prop where
  split : cs = body ++ '"' :: rest
  even : Even (trailingBackslashes body)
  first : ∀ front behind, body = front ++ '"' :: behind → ¬ Even (trailingBackslashes front)

/-- Each backslash at the end counts, and any other character ends the count. -/
theorem trailingBackslashes_concat (cs : List Char) (c : Char) :
    trailingBackslashes (cs ++ [c]) = if c = '\\' then trailingBackslashes cs + 1 else 0 := by
  by_cases hc : c = '\\'
  · simp [trailingBackslashes, hc]
  · simp [trailingBackslashes, hc]

/-- An even number of backslashes that ends a text and begins another does not matter to the
    evenness of the other. -/
theorem even_trailingBackslashes_append {front : List Char} (hfront : Even (trailingBackslashes front))
    (cs : List Char) :
    Even (trailingBackslashes (front ++ cs)) ↔ Even (trailingBackslashes cs) := by
  induction cs using List.reverseRecOn with
  | nil => simpa [trailingBackslashes] using hfront
  | append_singleton cs c ih =>
    rw [← List.append_assoc, trailingBackslashes_concat, trailingBackslashes_concat]
    split
    · rw [Nat.even_add_one, Nat.even_add_one, ih]
    · exact Iff.rfl

/-- No spelling of a character ends in an escaping backslash. -/
theorem Spelled.even {text : List Char} {c : Char} (htext : Spelled text c) :
    Even (trailingBackslashes text) := by
  have hpair : ∀ d, Even (trailingBackslashes ['\\', d]) := by
    intro d
    by_cases hd : d = '\\'
    · subst hd
      exact ⟨1, rfl⟩
    · have hnone := trailingBackslashes_concat ['\\'] d
      rw [if_neg hd] at hnone
      exact ⟨0, hnone⟩
  cases htext with
  | plain hc =>
    have hnone := trailingBackslashes_concat [] c
    rw [if_neg hc] at hnone
    exact ⟨0, hnone⟩
  | lineFeed => exact hpair 'n'
  | tab => exact hpair 't'
  | escaped => exact hpair c

/-- A backslash and the character behind it are one spelling. -/
theorem spelled_unescape (c : Char) : Spelled ['\\', c] (unescape c) := by
  unfold unescape
  split
  · exact .lineFeed
  · exact .tab
  · next hn ht => exact .escaped hn ht

/-- It can be told from a text how long the spelling is that it begins with. -/
theorem Spelled.append_inj {text text' cs cs' : List Char} {c c' : Char} (htext : Spelled text c)
    (htext' : Spelled text' c') (heq : text ++ cs = text' ++ cs') : c = c' ∧ cs = cs' := by
  cases htext <;> cases htext' <;> grind

/-- A text stands for one value at most. -/
theorem StandsFor.unique {cs value other : List Char} (hvalue : StandsFor cs value)
    (hother : StandsFor cs other) : value = other := by
  induction hvalue generalizing other with
  | nil =>
    generalize hcs : ([] : List Char) = ds at hother
    cases hother with
    | nil => rfl
    | cons hfirst => cases hfirst <;> cases hcs
  | @cons text cs value c hfirst hrest ih =>
    generalize hcs : text ++ cs = ds at hother
    cases hother with
    | nil => cases hfirst <;> cases hcs
    | cons hfirst' hrest' =>
      obtain ⟨rfl, rfl⟩ := hfirst.append_inj hfirst' hcs
      rw [ih hrest']

/-- A quote in the spelling of a character stands behind a backslash, or it is the spelling. -/
theorem Spelled.eq_of_quote {text front behind : List Char} {c : Char} (htext : Spelled text c)
    (hquote : text ≠ ['"']) (hsplit : text = front ++ '"' :: behind) : front = ['\\'] := by
  cases htext with
  | plain =>
    cases front with
    | nil =>
      obtain ⟨rfl, -⟩ := List.cons.inj hsplit
      exact absurd rfl hquote
    | cons d front => simp at hsplit
  | lineFeed | tab => cases front with
    | nil => simp at hsplit
    | cons d front => cases front <;> simp at hsplit
  | escaped =>
    cases front with
    | nil => simp at hsplit
    | cons d front =>
      obtain ⟨rfl, hbehind⟩ := List.cons.inj hsplit
      cases front with
      | nil => rfl
      | cons e front => simp at hbehind

/-- A quote that closes does not stand within the spelling of a character. -/
theorem ClosedBehind.behind {text cs body rest : List Char} {c : Char} (htext : Spelled text c)
    (hquote : text ≠ ['"']) (hclosed : ClosedBehind (text ++ cs) body rest) :
    ∃ behind, body = text ++ behind ∧ ClosedBehind cs behind rest := by
  have hsplit : ∃ behind, body = text ++ behind ∧ cs = behind ++ '"' :: rest := by
    obtain ⟨behind, hbody, hcs⟩ | ⟨front, htext', hrest⟩ := List.append_eq_append_iff.1 hclosed.split
    · exact ⟨behind, hbody, hcs⟩
    · cases front with
      | nil => exact ⟨[], by simpa using htext'.symm, hrest.symm⟩
      | cons d ds =>
        obtain ⟨rfl, -⟩ := List.cons.inj hrest
        have heven := hclosed.even
        rw [htext.eq_of_quote hquote htext'] at heven
        exact absurd heven (by decide)
  obtain ⟨behind, rfl, hcs⟩ := hsplit
  refine ⟨behind, rfl, hcs, (even_trailingBackslashes_append htext.even behind).1 hclosed.even, ?_⟩
  rintro front more rfl heven
  refine hclosed.first (text ++ front) more (by rw [List.append_assoc]) ?_
  exact (even_trailingBackslashes_append htext.even front).2 heven

/-- A text without a quote that closes has none behind the spelling of a character. -/
theorem not_closed_behind {text cs : List Char} {c : Char} (htext : Spelled text c)
    (hnone : ∀ body rest, text ++ cs = body ++ '"' :: rest → ¬ Even (trailingBackslashes body)) :
    ∀ body rest, cs = body ++ '"' :: rest → ¬ Even (trailingBackslashes body) := by
  rintro body rest rfl heven
  refine hnone (text ++ body) rest (by rw [List.append_assoc]) ?_
  exact (even_trailingBackslashes_append htext.even body).2 heven

theorem ne_backslash {c : Char} {cs : List Char} (hlone : c = '\\' → cs = [] → False)
    (hescape : ∀ d ds, c = '\\' → cs = d :: ds → False) : c ≠ '\\' := by
  intro hc
  cases cs with
  | nil => exact hlone hc rfl
  | cons d ds => exact hescape d ds hc rfl

/-- The string is read up to the quote that closes it. -/
theorem exists_readString? {cs body rest : List Char} (hclosed : ClosedBehind cs body rest) :
    ∃ value, StandsFor body value ∧ readString? cs = some (value, body.length + 1) := by
  fun_induction readString? cs generalizing body with
  | case1 =>
    have hsplit := hclosed.split
    simp at hsplit
  | case2 =>
    have hsplit := hclosed.split
    cases body <;> simp at hsplit
  | case3 cs =>
    obtain ⟨hsplit, -, hfirst⟩ := hclosed
    cases body with
    | nil => exact ⟨[], .nil, rfl⟩
    | cons d body =>
      obtain ⟨rfl, -⟩ := List.cons.inj hsplit
      exact absurd ⟨0, rfl⟩ (hfirst [] body rfl)
  | case4 c cs ih =>
    have hpair : ClosedBehind (['\\', c] ++ cs) body rest := hclosed
    obtain ⟨behind, rfl, hbehind⟩ := hpair.behind (spelled_unescape c) (by simp)
    obtain ⟨value, hvalue, hread⟩ := ih hbehind
    refine ⟨unescape c :: value, .cons (spelled_unescape c) hvalue, ?_⟩
    rw [hread]
    rfl
  | case5 c cs hlone hquote hescape ih =>
    have hc := Spelled.plain (ne_backslash hlone hescape)
    have hplain : ClosedBehind ([c] ++ cs) body rest := hclosed
    obtain ⟨behind, rfl, hbehind⟩ := hplain.behind hc (by simpa using hquote)
    obtain ⟨value, hvalue, hread⟩ := ih hbehind
    refine ⟨c :: value, .cons hc hvalue, ?_⟩
    rw [hread]
    rfl

/-- Without a quote that closes no string is read. -/
theorem readString?_eq_none {cs : List Char}
    (hnone : ∀ body rest, cs = body ++ '"' :: rest → ¬ Even (trailingBackslashes body)) :
    readString? cs = none := by
  fun_induction readString? cs with
  | case1 => rfl
  | case2 => rfl
  | case3 cs => exact absurd ⟨0, rfl⟩ (hnone [] cs rfl)
  | case4 c cs ih =>
    rw [ih (not_closed_behind (spelled_unescape c) hnone)]
    rfl
  | case5 c cs hlone hquote hescape ih =>
    rw [ih (not_closed_behind (.plain (ne_backslash hlone hescape)) hnone)]
    rfl

end Lexical

open Lexical in
/-- A string goes up to the first quote behind an even number of backslashes, and its value is what
    the text in front of that quote stands for; without such a quote all of the text is one error. A
    text in quotes whose special characters are escaped is a string with that value and nothing
    else. -/
theorem Lexed.ofSource_of_quote (keepComments : Bool) {source : String} {cs : List Char}
    (hsource : source.toList = '"' :: cs) :
    (∀ body rest, ClosedBehind cs body rest → ∃ value, StandsFor body value ∧
      (Lexed.ofSource keepComments source).BeginsWith
        ⟨.literal (.string (String.ofList value)), String.ofList value,
          ⟨.start, Position.start.advanceBy ('"' :: body ++ ['"'])⟩⟩) ∧
      ((∀ body rest, cs = body ++ '"' :: rest → ¬ Even (trailingBackslashes body)) →
        Lexed.ofSource keepComments source = .oneError source .unclosedString) ∧
      ∀ s : String, source.toList = quotedWith '"' s.toList →
        Lexed.ofSource keepComments source = .oneToken source (.literal (.string s)) s := by
  have hscan : scan .operand '"' cs = Scan.string cs := rfl
  refine ⟨fun body rest hclosed => ?_, fun hnone => ?_, fun s hs => ?_⟩
  · obtain ⟨value, hvalue, hread⟩ := exists_readString? hclosed
    refine ⟨value, hvalue, ?_⟩
    have htake : cs.take (body.length + 1) = body ++ ['"'] := by
      rw [hclosed.split, List.take_length_add_append]
      rfl
    rw [List.cons_append, ← htake]
    exact beginsWith_of_scan hsource keepComments (by rw [hscan, Scan.string, hread])
  · apply ofSource_eq_oneError hsource keepComments
    rw [hscan, Scan.string, readString?_eq_none hnone]
  · obtain ⟨c, ds, hwritten, hstable⟩ := stable_string .operand s
    have hnothing : SpaceLeads [] := fun c hc => by cases hc
    have hquoted : writtenChars (.literal (.string s)) s = quotedWith '"' s.toList := rfl
    rw [hquoted, ← hs, hsource] at hwritten
    obtain ⟨rfl, rfl⟩ := List.cons.inj hwritten
    have hread := hstable [] hnothing
    rw [List.append_nil] at hread
    exact ofSource_eq_oneToken hsource keepComments hread

open Lexical in
/-- A quote behind one backslash belongs to the string, and one behind two of them closes it. -/
theorem Lexed.ofSource_of_quote_pairs :
    let source := "\"\\\"\\\\\" x"
    let body := ['\\', '"', '\\', '\\']
    source.toList = '"' :: (body ++ '"' :: [' ', 'x']) ∧
      ClosedBehind (body ++ '"' :: [' ', 'x']) body [' ', 'x'] ∧
        (Lexed.ofSource false source).BeginsWith
          ⟨.literal (.string "\"\\"), "\"\\", ⟨.start, ⟨6, 0, 6⟩⟩⟩ := by
  intro source body
  have hsource : source.toList = '"' :: (body ++ '"' :: [' ', 'x']) := by decide
  have hclosed : ClosedBehind (body ++ '"' :: [' ', 'x']) body [' ', 'x'] := by
    refine ⟨rfl, ⟨1, rfl⟩, fun front behind hbody => ?_⟩
    obtain ⟨rfl, -⟩ : front = ['\\'] ∧ behind = ['\\', '\\'] := by
      simpa [body, List.cons_eq_append_iff] using hbody
    decide
  obtain ⟨value, hvalue, hbegins⟩ :=
    (Lexed.ofSource_of_quote false hsource).1 body [' ', 'x'] hclosed
  have hstands : StandsFor body ['"', '\\'] :=
    .cons (.escaped (by decide) (by decide)) (.cons (.escaped (by decide) (by decide)) .nil)
  rw [hvalue.unique hstands] at hbegins
  exact ⟨hsource, hclosed, hbegins⟩

end GeoLang
