import GeoLang.Proofs.Lexical.Tiling
import GeoLang.Proofs.Lexical.Written

namespace GeoLang

/-- The tokens in front of the end of the text. -/
def Lexed.body (lexed : Lexed) : List Token := lexed.tokens.filter fun t => !t.kind.isEof

/-- The token as it is written. Literals in quotes are escaped, all others are spelled as their
    lexeme. -/
def Token.written (t : Token) : String := String.ofList (Lexical.writtenChars t.kind t.lexeme)

/-- The tokens as a text, with a space between two of them. -/
def Token.rewritten (ts : List Token) : String := " ".intercalate (ts.map Token.written)

namespace Lexical

/-- The kind and the lexeme of a segment that is a token. -/
def Content.token? : Content → Option (TokenKind × String)
  | .token kind lexeme => some (kind, lexeme)
  | _ => none

/-- What is wrong with a segment that is faulty. -/
def Content.fault? : Content → Option LexFault
  | .fault f => some f
  | _ => none

/-- Each token is stable behind the one in front of it, if a space stands between the two. -/
def StableFrom : Lead → List (TokenKind × String) → Prop
  | _, [] => True
  | lead, (kind, lexeme) :: rest =>
    Stable lead kind lexeme ∧ StableFrom (Lead.afterToken kind []) rest

private theorem Lead.settled_afterToken (kind : TokenKind) (rest : List Char) :
    (Lead.afterToken kind rest).settled = Lead.afterToken kind [] := by
  unfold Lead.afterToken
  split
  · split
    · split <;> rfl
    · split <;> rfl
    · rfl
  · rfl

private theorem Lead.afterToken_of_spaceLeads {rest : List Char} (hrest : SpaceLeads rest)
    (kind : TokenKind) : Lead.afterToken kind rest = Lead.afterToken kind [] := by
  have hpoint : rest.head? ≠ some '.' := by
    intro hhead
    have hspace := hrest '.' hhead
    cases hspace
  unfold Lead.afterToken
  simp [hpoint]

/-- A word owns what follows only if a point is directly behind it. -/
theorem Lead.head?_of_afterToken {kind : TokenKind} {rest : List Char}
    (howner : Lead.afterToken kind rest = .owner) : rest.head? = some '.' := by
  unfold Lead.afterToken at howner
  grind

theorem Content.eq_of_token? {content : Content} {kind : TokenKind} {lexeme : String}
    (htoken : content.token? = some (kind, lexeme)) : content = .token kind lexeme := by
  cases content <;> simp_all [Content.token?]

/-- Blanks, comments and faults leave the lead as it is. -/
theorem Lead.next_of_token?_eq_none {content : Content} (htoken : content.token? = none)
    (lead : Lead) (rest : List Char) : lead.next content rest = lead := by
  cases content <;> simp_all [Content.token?, Lead.next]

/-- The tokens of a text are stable: what stood between them, and that a name stood directly in
    front of a point, is of no account. -/
theorem stableFrom_segments {lead : Lead} {cs : List Char}
    (howner : lead = .owner → cs.head? = some '.')
    (hname : ∀ t ∈ (segments lead cs).filterMap fun s => s.content.token?,
      t.1.category = .identifier → TokenKind.ofWord t.2 = t.1) :
    StableFrom lead.settled ((segments lead cs).filterMap fun s => s.content.token?) := by
  fun_induction segments lead cs with
  | case1 => trivial
  | case2 lead c cs s rest ih =>
    have hpoint : lead = .owner → c = '.' := fun heq => Option.some.inj (howner heq)
    cases htoken : s.content.token? with
    | none =>
      have hnext := Lead.next_of_token?_eq_none htoken lead rest
      have hlead : lead ≠ .owner := by
        intro heq
        have hdot := hpoint heq
        subst heq hdot
        cases htoken
      rw [hnext] at ih hname ⊢
      simp only [List.filterMap_cons, htoken] at hname ⊢
      exact ih (fun heq => absurd heq hlead) hname
    | some token =>
      obtain ⟨kind, lexeme⟩ := token
      have hcontent := Content.eq_of_token? htoken
      have hnext : lead.next s.content rest = Lead.afterToken kind rest := by
        rw [hcontent]
        rfl
      rw [hnext] at ih hname ⊢
      simp only [List.filterMap_cons, htoken, List.forall_mem_cons] at hname ⊢
      obtain ⟨hfirst, hname⟩ := hname
      constructor
      · exact stable_of_scan hpoint hcontent hfirst
      · rw [← Lead.settled_afterToken kind rest]
        exact ih Lead.head?_of_afterToken hname

/-- A space is a segment, and it leaves the lead as it is. -/
theorem segments_space (lead : Lead) (cs : List Char) :
    segments lead (' ' :: cs) = ⟨[' '], .blank⟩ :: segments lead cs := by
  have hscan : scan lead ' ' cs = ⟨0, .blank⟩ := rfl
  rw [segments, hscan]
  rfl

/-- A stable token is the first segment of its own text, in front of a space or of nothing. -/
theorem Stable.exists_segments {lead : Lead} {kind : TokenKind} {lexeme : String}
    (hstable : Stable lead kind lexeme) {rest : List Char} (hrest : SpaceLeads rest) :
    ∃ s : Segment, s.content = .token kind lexeme ∧
      segments lead (writtenChars kind lexeme ++ rest) =
        s :: segments (Lead.afterToken kind []) rest := by
  obtain ⟨c, cs, hwritten, hscan⟩ := hstable
  refine ⟨⟨c :: (cs ++ rest).take cs.length, .token kind lexeme⟩, rfl, ?_⟩
  rw [hwritten, List.cons_append, segments, hscan rest hrest]
  simp only [List.drop_left, Lead.next, Lead.afterToken_of_spaceLeads hrest]

/-- Tokens that are stable are found again, and there are only blanks between them. -/
theorem map_content_segments {lead : Lead} {ts : List (TokenKind × String)}
    (hts : StableFrom lead ts) :
    (segments lead ([' '].intercalate (ts.map fun t => writtenChars t.1 t.2))).map Segment.content =
      (ts.map fun t => Content.token t.1 t.2).intersperse .blank := by
  induction ts generalizing lead with
  | nil => rw [List.map_nil, List.intercalate_nil, segments]; rfl
  | cons t ts ih =>
    obtain ⟨kind, lexeme⟩ := t
    obtain ⟨hfirst, hts⟩ := hts
    cases ts with
    | nil =>
      have hnothing : SpaceLeads [] := by rintro _ ⟨⟩
      obtain ⟨s, hs, hsegments⟩ := hfirst.exists_segments hnothing
      rw [List.append_nil, segments] at hsegments
      rw [List.map_singleton, List.intercalate_singleton, hsegments, List.map_singleton, hs]
      rfl
    | cons u ts =>
      have hspace : ∀ cs, SpaceLeads (' ' :: cs) := fun _ _ hc => (Option.some.inj hc).symm
      obtain ⟨s, hs, hsegments⟩ := hfirst.exists_segments (hspace _)
      have hmore := ih hts
      simp only [List.map_cons] at hmore ⊢
      rw [List.intercalate_cons_cons, List.append_assoc, List.singleton_append, hsegments,
        segments_space, List.map_cons, List.map_cons, hs, hmore]
      rfl

private theorem filterMap_token?_intersperse (ts : List (TokenKind × String)) :
    ((ts.map fun t => Content.token t.1 t.2).intersperse .blank).filterMap Content.token? = ts ∧
      ((ts.map fun t => Content.token t.1 t.2).intersperse .blank).filterMap Content.fault? = [] := by
  induction ts with
  | nil => exact ⟨rfl, rfl⟩
  | cons t ts ih =>
    cases ts with
    | nil => exact ⟨rfl, rfl⟩
    | cons u ts =>
      obtain ⟨htokens, hfaults⟩ := ih
      exact ⟨congrArg (t :: ·) htokens, hfaults⟩

/-- What the tokens are does not depend on where the segments are placed. -/
theorem map_filterMap_token?_place (p : Position) (segs : List Segment) :
    ((place p segs).filterMap (token? false)).map (fun t => (t.kind, t.lexeme)) =
      (segs.map Segment.content).filterMap Content.token? := by
  induction segs generalizing p with
  | nil => rfl
  | cons s segs ih =>
    obtain ⟨chars, content⟩ := s
    cases content with
    | token kind lexeme => exact congrArg ((kind, lexeme) :: ·) (ih _)
    | blank => exact ih _
    | comment body => exact ih _
    | fault f => exact ih _

/-- Nor do the faults. -/
theorem map_filterMap_error?_place (p : Position) (segs : List Segment) :
    ((place p segs).filterMap error?).map LexError.fault =
      (segs.map Segment.content).filterMap Content.fault? := by
  induction segs generalizing p with
  | nil => rfl
  | cons s segs ih =>
    obtain ⟨chars, content⟩ := s
    cases content with
    | fault f => exact congrArg (f :: ·) (ih _)
    | blank => exact ih _
    | comment body => exact ih _
    | token kind lexeme => exact ih _

end Lexical

open Lexical in
private theorem Lexed.body_ofSource (source : String) :
    (Lexed.ofSource false source).body =
      (place .start (segments .operand source.toList)).filterMap (token? false) := by
  have hkinds : ∀ t ∈ (place .start (segments .operand source.toList)).filterMap (token? false),
      (!t.kind.isEof) = true := by
    intro t ht
    obtain ⟨⟨s, span⟩, hplaced, htoken⟩ := List.mem_filterMap.1 ht
    obtain ⟨afterValue, hpiece⟩ := exists_piece_of_mem_segments (mem_of_mem_place hplaced)
    have hne := kind_ne_eof_of_token? hpiece htoken
    cases hkind : t.kind <;> simp_all [TokenKind.isEof]
  unfold Lexed.body Lexed.ofSource
  rw [List.filter_append, List.filter_eq_self.2 hkinds]
  exact List.append_nil _

open Lexical in
private theorem Lexed.map_body_ofSource (source : String) :
    (Lexed.ofSource false source).body.map (fun t => (t.kind, t.lexeme)) =
      (segments .operand source.toList).filterMap fun s => s.content.token? := by
  rw [Lexed.body_ofSource, map_filterMap_token?_place, List.filterMap_map]
  rfl

open Lexical in
private theorem Token.toList_rewritten (ts : List Token) :
    (Token.rewritten ts).toList =
      [' '].intercalate ((ts.map fun t => (t.kind, t.lexeme)).map fun t => writtenChars t.1 t.2) := by
  have hwritten : ∀ t : Token, t.written.toList = writtenChars t.kind t.lexeme :=
    fun _ => String.toList_ofList
  rw [Token.rewritten, String.toList_intercalate, List.map_map, List.map_map]
  simp only [Function.comp_def, hwritten]
  rfl

open Lexical in
/-- A text that is written anew from the tokens of another one, faulty or not, has no faults and the
    same tokens. -/
theorem Lexed.ofSource_rewritten {source : String}
    (hname : ∀ t ∈ (Lexed.ofSource false source).body,
      t.category = .identifier → TokenKind.ofWord t.lexeme = t.kind) :
    let body := (Lexed.ofSource false source).body
    let again := Lexed.ofSource false (Token.rewritten body)
    again.errors = [] ∧
      again.tokens.map (fun t => (t.kind, t.lexeme)) =
        body.map (fun t => (t.kind, t.lexeme)) ++ [(.eof, "")] := by
  intro body again
  let ts := body.map fun t => (t.kind, t.lexeme)
  have hts : ts = (segments .operand source.toList).filterMap fun s => s.content.token? :=
    Lexed.map_body_ofSource source
  have hstable : StableFrom .operand ts := by
    rw [hts]
    refine @stableFrom_segments .operand _ (fun heq => nomatch heq) ?_
    rw [← hts]
    intro t ht
    obtain ⟨t, hbody, rfl⟩ := List.mem_map.1 ht
    exact hname t hbody
  have hcontents := map_content_segments hstable
  rw [← Token.toList_rewritten body] at hcontents
  obtain ⟨htokens, hfaults⟩ := filterMap_token?_intersperse ts
  constructor
  · have herrors := map_filterMap_error?_place .start (segments .operand (Token.rewritten body).toList)
    rw [hcontents, hfaults] at herrors
    exact List.map_eq_nil_iff.1 herrors
  · have hplaced := map_filterMap_token?_place .start (segments .operand (Token.rewritten body).toList)
    rw [hcontents, htokens] at hplaced
    change List.map _ (List.filterMap _ _ ++ _) = _
    rw [List.map_append, hplaced]
    rfl

/-- The faults of a text are gone once it is written anew: here a symbol that is unknown, a
    character literal that is too long, and a comment that is not closed. -/
theorem Lexed.ofSource_rewritten_faulty :
    let source := "int n = -2 ? 'ab' + owner.tan(\"a\\\"b\" - .5); # note"
    let body := (Lexed.ofSource false source).body
    let again := Lexed.ofSource false (Token.rewritten body)
    (Lexed.ofSource false source).errors.length = 3 ∧
      (∀ t ∈ body, t.category = .identifier → TokenKind.ofWord t.lexeme = t.kind) ∧
        again.errors = [] ∧
          again.tokens.map (fun t => (t.kind, t.lexeme)) =
            body.map (fun t => (t.kind, t.lexeme)) ++ [(.eof, "")] := by
  intro source body again
  have hfaults : (Lexed.ofSource false source).errors.length = 3 := by decide +kernel
  have hname : ∀ t ∈ body, t.category = .identifier → TokenKind.ofWord t.lexeme = t.kind := by
    decide +kernel
  exact ⟨hfaults, hname, Lexed.ofSource_rewritten hname⟩

end GeoLang
