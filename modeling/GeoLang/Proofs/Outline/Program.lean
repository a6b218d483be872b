import GeoLang.Proofs.Outline.Names
import GeoLang.Proofs.Outline.Shown

namespace GeoLang

/-- The reals among the tokens. -/
def Token.reals (tokens : List Token) : List Binary64 :=
  tokens.filterMap fun t =>
    match t.kind with
    | .literal (.real x) => some x
    | _ => none

private theorem Token.mem_reals {tokens : List Token} {t : Token} (ht : t ∈ tokens) {x : Binary64}
    (hx : t.kind = .literal (.real x)) : x ∈ reals tokens :=
  List.mem_filterMap.2 ⟨t, ht, by rw [hx]⟩

open Grammar in
/-- The end of a text is legible. -/
theorem Token.legible_endOfText {R : Binary64 → Prop} (tokens : List Token) (last : Token) :
    (endOfText tokens last).Legible R := by
  have hkind := kind_endOfText tokens last
  refine ⟨fun hname => ?_, fun s hs => ?_, fun v hv => ?_⟩
  · rw [hkind] at hname
    cases hname
  · rw [hkind] at hs
    cases hs
  · rw [hkind] at hv
    cases hv

open Grammar in
/-- What is read from the tokens of texts is legible, whether or not there are errors. -/
theorem Parsed.legible {R : Binary64 → Prop} {tokens : List Token}
    (hlexed : ∀ t ∈ tokens, ∃ keepComments source, t ∈ (Lexed.ofSource keepComments source).tokens)
    (hreals : ∀ x ∈ Token.reals tokens, R x) {p : Program}
    (hp : (Parsed.ofTokens tokens).program = some p) : p.Legible R := by
  have hne : tokens ≠ [] := by
    rintro rfl
    cases hp
  obtain ⟨last, q, d, es, -, hreturns, hparsed⟩ := exists_returns_program hne
  rw [hparsed] at hp
  obtain rfl : q = p := Option.some.inj hp
  have hcode : (Cursor.ofTokens tokens last).Legible R := by
    refine ⟨fun t ht => ?_, Token.legible_endOfText tokens last⟩
    have hmem := mem_of_mem_code ht
    obtain ⟨keepComments, source, hsource⟩ := hlexed t hmem
    exact Lexed.legible_of_mem_tokens hsource fun x hx => hreals x (Token.mem_reals hmem hx)
  exact (Rule.Keeps.program _ q d es hcode hreturns).2

/-- The text of its outline tells a program that was read from tokens of texts, but for spans, for
    parentheses and for calls that are statements or expressions. Only the reals in it must be told
    by their texts. -/
theorem Parsed.erased_eq_of_outline_text {tokens tokens' : List Token}
    (hlexed : ∀ t ∈ tokens ++ tokens',
      ∃ keepComments source, t ∈ (Lexed.ofSource keepComments source).tokens)
    (hreals : ∀ x ∈ Token.reals (tokens ++ tokens'), ∀ y ∈ Token.reals (tokens ++ tokens'),
      x.text = y.text → x = y)
    {p q : Program} (hp : (Parsed.ofTokens tokens).program = some p)
    (hq : (Parsed.ofTokens tokens').program = some q) (htext : p.outline.text = q.outline.text) :
    p.erased = q.erased := by
  obtain ⟨hlexedFirst, hlexedSecond⟩ := List.forall_mem_append.1 hlexed
  have happend : Token.reals (tokens ++ tokens') = Token.reals tokens ++ Token.reals tokens' :=
    List.filterMap_append
  rw [happend] at hreals
  have hpLegible : p.Legible (· ∈ Token.reals tokens ++ Token.reals tokens') :=
    Parsed.legible hlexedFirst (fun _ => List.mem_append_left _) hp
  have hqLegible : q.Legible (· ∈ Token.reals tokens ++ Token.reals tokens') :=
    Parsed.legible hlexedSecond (fun _ => List.mem_append_right _) hq
  exact Program.erased_eq_of_text_eq (fun x y hx hy => hreals x hx y hy) hpLegible hqLegible htext

/-- The same program with other parentheses, with other blanks and with an error behind it. -/
theorem Parsed.erased_eq_of_parentheses :
    let tokens := (Lexed.ofSource false "if (a) \x7b f(a.b, 0.5 + 1 * 2); \x7d").tokens
    let tokens' := (Lexed.ofSource true "if ((a)) \x7b (f((a.b), 0.50 + (1 * 2))); \x7d int = ;").tokens
    ∃ p q, (Parsed.ofTokens tokens).program = some p ∧ (Parsed.ofTokens tokens').program = some q ∧
      p.outline.text = q.outline.text ∧ p.erased = q.erased := by
  intro tokens tokens'
  have hsome : (Parsed.ofTokens tokens).program.isSome = true := by decide +kernel
  have hsome' : (Parsed.ofTokens tokens').program.isSome = true := by decide +kernel
  obtain ⟨p, hp⟩ := Option.isSome_iff_exists.1 hsome
  obtain ⟨q, hq⟩ := Option.isSome_iff_exists.1 hsome'
  have htext : (Parsed.ofTokens tokens).program.map (·.outline.text) =
      (Parsed.ofTokens tokens').program.map (·.outline.text) := by
    decide +kernel
  rw [hp, hq] at htext
  have hlexed : ∀ t ∈ tokens ++ tokens',
      ∃ keepComments source, t ∈ (Lexed.ofSource keepComments source).tokens :=
    List.forall_mem_append.2 ⟨fun _ ht => ⟨_, _, ht⟩, fun _ ht => ⟨_, _, ht⟩⟩
  have hreals : ∀ x ∈ Token.reals (tokens ++ tokens'), ∀ y ∈ Token.reals (tokens ++ tokens'),
      x.text = y.text → x = y := by
    decide +kernel
  have heq := Option.some.inj htext
  exact ⟨p, q, hp, hq, heq, Parsed.erased_eq_of_outline_text hlexed hreals hp hq heq⟩

end GeoLang
