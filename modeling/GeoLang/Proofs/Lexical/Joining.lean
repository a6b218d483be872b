import GeoLang.Proofs.Lexical.LineFeed
import GeoLang.Proofs.Source.Place

namespace GeoLang

/-- Where `p` lies once `bytes` bytes are put in front of its text, `lines` lines that end with a
    line feed. -/
def Position.moved (bytes lines : Nat) (p : Position) : Position :=
  ⟨p.offset + bytes, p.line + lines, p.column⟩

def Span.moved (bytes lines : Nat) (s : Span) : Span :=
  ⟨s.start.moved bytes lines, s.stop.moved bytes lines⟩

def Token.moved (bytes lines : Nat) (t : Token) : Token := { t with span := t.span.moved bytes lines }

def LexError.moved (bytes lines : Nat) (e : LexError) : LexError :=
  { e with span := e.span.moved bytes lines }

private theorem Position.advance_moved (bytes lines : Nat) (p : Position) (c : Char) :
    (p.moved bytes lines).advance c = (p.advance c).moved bytes lines := by
  unfold advance
  split
  · simp only [moved, Nat.add_right_comm]
  · simp only [moved, Nat.add_right_comm]

/-- Moving by whole lines commutes with advancing. -/
theorem Position.advanceBy_moved (bytes lines : Nat) (p : Position) (cs : List Char) :
    (p.moved bytes lines).advanceBy cs = (p.advanceBy cs).moved bytes lines := by
  induction cs generalizing p with
  | nil => rfl
  | cons c cs ih => rw [advanceBy_cons, advance_moved, ih, advanceBy_cons]

/-- Behind a text and a line feed everything begins anew, but for the bytes and the lines. -/
theorem Position.start_advanceBy_lineFeed (source : String) :
    Position.start.advanceBy (source.toList ++ ['\n']) =
      Position.start.moved (source.utf8ByteSize + 1) (source.toList.count '\n' + 1) := by
  obtain ⟨hoffset, hline, hcolumn⟩ := Position.behind_start_advanceBy source.toList
  rw [String.ofList_toList] at hoffset hline
  rw [advanceBy_append, advanceBy_cons, advanceBy_nil, advance, if_pos rfl, hoffset, hline]
  simp only [moved, start, Nat.zero_add]
  rfl

namespace Lexical

/-- No value stands at the end, if `lead` stands in front of the tokens. -/
def Lead.EndsIn (lead : Lead) (ts : List (TokenKind × String)) : Prop :=
  ts.getLast?.elim (lead = .operand) fun t => t.1.category.producesValue = false

theorem Lead.EndsIn.afterToken {lead : Lead} {t : TokenKind × String} {ts : List (TokenKind × String)}
    (hends : lead.EndsIn (t :: ts)) (rest : List Char) : (afterToken t.1 rest).EndsIn ts := by
  unfold EndsIn at hends ⊢
  rw [List.getLast?_cons] at hends
  cases hlast : ts.getLast? with
  | none =>
    rw [hlast] at hends
    exact if_neg (ne_true_of_eq_false hends)
  | some u =>
    rw [hlast] at hends
    exact hends

private theorem Lead.next_append_lineFeed (lead : Lead) (content : Content) (cs more : List Char) :
    lead.next content (cs ++ '\n' :: more) = lead.next content cs := by
  have hpoint := head?_append_lineFeed (show '.' ≠ '\n' by decide) cs more
  unfold next afterToken
  simp only [hpoint]

/-- A line feed behind a faultless text without a value at its end separates it from what
    follows. -/
theorem segments_append_lineFeed {lead : Lead} {cs : List Char}
    (hfault : (segments lead cs).filterMap (fun s => s.content.fault?) = [])
    (hends : lead.EndsIn ((segments lead cs).filterMap fun s => s.content.token?)) (more : List Char) :
    segments lead (cs ++ '\n' :: more) =
      segments lead cs ++ ⟨['\n'], .blank⟩ :: segments .operand more := by
  fun_induction segments lead cs with
  | case1 lead =>
    obtain rfl : lead = .operand := hends
    have hscan : scan .operand '\n' more = ⟨0, .blank⟩ := rfl
    rw [List.nil_append, segments, hscan]
    rfl
  | case2 lead c cs s rest ih =>
    have hfirst : s.content.fault? = none := by
      cases hcontent : s.content.fault? with
      | none => rfl
      | some f => simp [hcontent] at hfault
    simp only [List.filterMap_cons, hfirst] at hfault
    obtain ⟨hextra, hscan⟩ := complete_scan lead c cs hfirst
    have hnext : (lead.next s.content rest).EndsIn
        ((segments (lead.next s.content rest) rest).filterMap fun s => s.content.token?) := by
      cases htoken : s.content.token? with
      | none =>
        simp only [List.filterMap_cons, htoken] at hends
        rwa [Lead.next_of_token?_eq_none htoken] at hends ⊢
      | some t =>
        simp only [List.filterMap_cons, htoken] at hends
        have hafter : lead.next s.content rest = Lead.afterToken t.1 rest := by
          rw [Content.eq_of_token? htoken]
          rfl
        rw [hafter] at hends ⊢
        exact hends.afterToken rest
    rw [List.cons_append, segments, hscan, List.take_append_of_le_length hextra,
      List.drop_append_of_le_length hextra, Lead.next_append_lineFeed]
    exact congrArg (_ :: ·) (ih hfault hnext)

/-- The second part of the segments is placed behind the text of the first. -/
theorem place_append (p : Position) (xs ys : List Segment) :
    place p (xs ++ ys) = place p xs ++ place (p.advanceBy (xs.flatMap Segment.chars)) ys := by
  induction xs generalizing p with
  | nil => rfl
  | cons x xs ih =>
    rw [List.cons_append, place, place, ih, List.flatMap_cons, Position.advanceBy_append,
      List.cons_append]

private theorem place_moved (bytes lines : Nat) (p : Position) (segs : List Segment) :
    place (p.moved bytes lines) segs =
      (place p segs).map fun x => (x.1, x.2.moved bytes lines) := by
  induction segs generalizing p with
  | nil => rfl
  | cons s segs ih =>
    rw [place, place, Position.advanceBy_moved, ih]
    rfl

private theorem filterMap_token?_moved (bytes lines : Nat) (keepComments : Bool)
    (placed : List (Segment × Span)) :
    (placed.map fun x => (x.1, x.2.moved bytes lines)).filterMap (token? keepComments) =
      (placed.filterMap (token? keepComments)).map (Token.moved bytes lines) := by
  rw [List.filterMap_map, List.map_filterMap]
  refine congrArg (List.filterMap · placed) (funext fun ⟨⟨chars, content⟩, span⟩ => ?_)
  cases content with
  | comment body => cases keepComments <;> rfl
  | _ => rfl

private theorem filterMap_error?_moved (bytes lines : Nat) (placed : List (Segment × Span)) :
    (placed.map fun x => (x.1, x.2.moved bytes lines)).filterMap error? =
      (placed.filterMap error?).map (LexError.moved bytes lines) := by
  rw [List.filterMap_map, List.map_filterMap]
  refine congrArg (List.filterMap · placed) (funext fun ⟨⟨chars, content⟩, span⟩ => ?_)
  cases content <;> rfl

/-- Whether comments are kept or not, the other tokens are those of the segments. -/
theorem map_filter_token?_place {lead : Lead} {cs : List Char} (keepComments : Bool) (p : Position) :
    (((place p (segments lead cs)).filterMap (token? keepComments)).filter (!·.kind.isComment)).map
        (fun t => (t.kind, t.lexeme)) =
      (segments lead cs).filterMap fun s => s.content.token? := by
  have hkinds : ∀ s ∈ segments lead cs, ∀ kind lexeme, s.content = .token kind lexeme →
      kind.isComment = false := by
    rintro ⟨chars, content⟩ hs kind lexeme rfl
    obtain ⟨_, hpiece⟩ := exists_piece_of_mem_segments hs
    cases hpiece with
    | token hkind => exact hkind.isComment_eq_false
  generalize segments lead cs = segs at hkinds
  induction segs generalizing p with
  | nil => rfl
  | cons s segs ih =>
    obtain ⟨hfirst, hrest⟩ := List.forall_mem_cons.1 hkinds
    obtain ⟨chars, content⟩ := s
    cases content with
    | token kind lexeme =>
      have hkind := hfirst kind lexeme rfl
      simp [place, token?, Content.token?, hkind, ih _ hrest]
    | comment body =>
      cases keepComments with
      | true => simpa [place, token?, Content.token?, TokenKind.isComment] using ih _ hrest
      | false => exact ih _ hrest
    | blank => exact ih _ hrest
    | fault f => exact ih _ hrest

end Lexical

open Lexical in
/-- A faultless text at whose end no value stands, a line feed and any other text have the tokens of
    the one and then those of the other, as far further back as the first text reaches, and the
    errors of the other. -/
theorem Lexed.ofSource_append_lineFeed {keepComments : Bool} {first second : String}
    (hfaultless : (Lexed.ofSource keepComments first).errors = [])
    (hlast : ∀ t ∈ ((Lexed.ofSource keepComments first).tokens.dropLast.filter
      (!·.kind.isComment)).getLast?, t.category.producesValue = false) :
    let bytes := first.utf8ByteSize + 1
    let lines := first.toList.count '\n' + 1
    Lexed.ofSource keepComments (first ++ "\n" ++ second) =
      ⟨(Lexed.ofSource keepComments first).tokens.dropLast ++
          (Lexed.ofSource keepComments second).tokens.map (Token.moved bytes lines),
        (Lexed.ofSource keepComments second).errors.map (LexError.moved bytes lines)⟩ := by
  intro bytes lines
  let segs := segments .operand first.toList
  have hdrop : (Lexed.ofSource keepComments first).tokens.dropLast =
      (place .start segs).filterMap (token? keepComments) := List.dropLast_concat
  have hfault : segs.filterMap (fun s => s.content.fault?) = [] := by
    have hfaults := map_filterMap_error?_place .start segs
    rw [List.filterMap_map] at hfaults
    rw [← Function.comp_def Content.fault?, ← hfaults]
    exact List.map_eq_nil_iff.2 hfaultless
  have hends : Lead.operand.EndsIn (segs.filterMap fun s => s.content.token?) := by
    rw [Lead.EndsIn, ← map_filter_token?_place keepComments .start, List.getLast?_map, ← hdrop]
    cases hfound : ((Lexed.ofSource keepComments first).tokens.dropLast.filter
        (!·.kind.isComment)).getLast? with
    | none => rfl
    | some t => exact hlast t hfound
  have hsource : (first ++ "\n" ++ second).toList = first.toList ++ '\n' :: second.toList := by simp
  have hstop : (Position.start.advanceBy first.toList).advanceBy ['\n'] =
      Position.start.moved bytes lines := by
    rw [← Position.advanceBy_append, Position.start_advanceBy_lineFeed]
  have hplaced : place .start (segments .operand (first ++ "\n" ++ second).toList) =
      place .start segs ++ (⟨['\n'], .blank⟩, ⟨Position.start.advanceBy first.toList,
        Position.start.moved bytes lines⟩) :: (place .start (segments .operand second.toList)).map
          fun x => (x.1, x.2.moved bytes lines) := by
    rw [hsource, segments_append_lineFeed hfault hends, place_append, flatMap_chars_segments, place,
      hstop, place_moved]
  have heof : Position.start.advanceBy (first ++ "\n" ++ second).toList =
      (Position.start.advanceBy second.toList).moved bytes lines := by
    rw [hsource, Position.advanceBy_append, Position.advanceBy_cons, ← Position.advanceBy_moved, ← hstop]
    rfl
  have herrors : (place .start segs).filterMap error? = [] := hfaultless
  rw [hdrop]
  simp only [Lexed.ofSource, hplaced, heof, List.filterMap_append, List.filterMap_cons, token?, error?,
    herrors, filterMap_token?_moved, filterMap_error?_moved, List.map_append, List.append_assoc,
    List.nil_append]
  rfl

/-- Behind a semicolon and a comment a sign belongs to the number that follows, also in the next
    line, and what is wrong there stays wrong. -/
theorem Lexed.ofSource_append_lineFeed_comment :
    let first := "int n = 'a';\n# note #"
    let second := "-2 ? \"b"
    (Lexed.ofSource true first).errors = [] ∧
      (∀ t ∈ ((Lexed.ofSource true first).tokens.dropLast.filter (!·.kind.isComment)).getLast?,
        t.category.producesValue = false) ∧
      Lexed.ofSource true (first ++ "\n" ++ second) =
        ⟨(Lexed.ofSource true first).tokens.dropLast ++
            (Lexed.ofSource true second).tokens.map (Token.moved 22 2),
          (Lexed.ofSource true second).errors.map (LexError.moved 22 2)⟩ := by
  intro first second
  have hfaultless : (Lexed.ofSource true first).errors = [] := by decide +kernel
  have hlast : ∀ t ∈ ((Lexed.ofSource true first).tokens.dropLast.filter
      (!·.kind.isComment)).getLast?, t.category.producesValue = false := by decide +kernel
  have hbytes : first.utf8ByteSize + 1 = 22 := by decide +kernel
  have hlines : first.toList.count '\n' + 1 = 2 := by decide +kernel
  have hjoined := @Lexed.ofSource_append_lineFeed true first second hfaultless hlast
  rw [hbytes, hlines] at hjoined
  exact ⟨hfaultless, hlast, hjoined⟩

end GeoLang
