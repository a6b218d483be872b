import GeoLang.Proofs.Reader.Invariant
import GeoLang.Proofs.Reader.Renumbering

namespace GeoLang

open Grammar

namespace Reader

/-- `text` is all of `tokens` in front of the end of the text, and `stop` is that end. -/
structure EndsAt (tokens text : List Token) (stop : Token) : Prop where
  split : ∃ rest, tokens = text ++ rest ∧ rest.headD (endToken tokens) = stop
  inside : ∀ t ∈ text, t.kind.isEof = false
  stop : stop.kind.isEof = true

namespace EndsAt

variable {tokens text : List Token} {stop : Token}

/-- A text without an end, the end and anything behind it. -/
theorem of_append {e : Token} (rest : List Token) (hinside : ∀ t ∈ text, t.kind.isEof = false)
    (heof : e.kind.isEof = true) : EndsAt (text ++ e :: rest) text e :=
  ⟨⟨e :: rest, rfl, rfl⟩, hinside, heof⟩

/-- A list without an end of the text ends behind its last token. -/
theorem of_getLast? {last : Token} (hlast : tokens.getLast? = some last)
    (hinside : ∀ t ∈ tokens, t.kind.isEof = false) :
    EndsAt tokens tokens (.eofAt last.span.stop) where
  split := by
    refine ⟨[], (List.append_nil tokens).symm, ?_⟩
    rw [List.headD_nil, endToken, hlast]
    rfl
  inside := hinside
  stop := rfl

/-- The text with its end behind it ends there as well. -/
theorem normal (h : EndsAt tokens text stop) : EndsAt (text ++ [stop]) text stop :=
  of_append [] h.inside h.stop

/-- In front of a reader that is inside the text stands the rest of the text, and then its end. -/
theorem exists_ahead (h : EndsAt tokens text stop) {s : Reader} (hs : s.pos ≤ text.length) :
    ∃ rest, s.ahead tokens = (text.drop s.pos).filter (!·.kind.isComment) ++ rest ∧
      rest.headD (endToken tokens) = stop := by
  obtain ⟨rest, hsplit, hhead⟩ := h.split
  refine ⟨rest.filter (!·.kind.isComment), ?_, ?_⟩
  · rw [ahead, hsplit, List.drop_append_of_le_length hs, List.filter_append]
  · cases rest with
    | nil => exact hhead
    | cons t rest =>
      obtain rfl : t = stop := hhead
      rw [List.filter_cons_of_pos (by simp [isComment_of_isEof h.stop]), List.headD_cons]

/-- In front of the end, what stands behind it is not seen by the reader. -/
theorem peek_eq (h : EndsAt tokens text stop) {s : Reader} (hs : s.pos ≤ text.length) :
    s.peek tokens = ((text.drop s.pos).filter (!·.kind.isComment)).headD stop := by
  obtain ⟨rest, hahead, hhead⟩ := h.exists_ahead hs
  rw [Reader.peek, hahead]
  cases (text.drop s.pos).filter (!·.kind.isComment) with
  | nil => exact hhead
  | cons t ts => rfl

/-- A reader inside the text is at the end when no more of the text is in front of it. -/
theorem atEnd_eq (h : EndsAt tokens text stop) {s : Reader} (hs : s.pos ≤ text.length) :
    s.atEnd tokens = ((text.drop s.pos).filter (!·.kind.isComment)).isEmpty := by
  rw [Reader.atEnd, h.peek_eq hs]
  cases hseen : (text.drop s.pos).filter (!·.kind.isComment) with
  | nil => exact h.stop
  | cons t ts =>
    have hmem : t ∈ (text.drop s.pos).filter (!·.kind.isComment) := by
      rw [hseen]
      exact List.mem_cons_self
    exact h.inside t (List.mem_of_mem_drop (List.mem_filter.1 hmem).1)

/-- Nor is it seen by a look at the token behind the current one. -/
theorem second_eq (h : EndsAt tokens text stop) {s : Reader} (hs : s.pos ≤ text.length) :
    s.second tokens = (((text.drop s.pos).filter (!·.kind.isComment)).drop 1).headD stop := by
  obtain ⟨rest, hahead, hhead⟩ := h.exists_ahead hs
  rw [Reader.second, h.atEnd_eq hs, h.peek_eq hs, hahead]
  cases (text.drop s.pos).filter (!·.kind.isComment) with
  | nil => rfl
  | cons t ts =>
    rw [List.isEmpty_cons, if_neg Bool.false_ne_true]
    cases ts with
    | nil => exact hhead
    | cons u ts => rfl

/-- Looking for an assignment never looks behind the end of the text. -/
theorem assignsPath_eq (h : EndsAt tokens text stop) {s : Reader} (hs : s.pos ≤ text.length) :
    assignsPath (s.ahead tokens) =
      assignsPath ((text.drop s.pos).filter (!·.kind.isComment)) := by
  obtain ⟨rest, hsplit, hhead⟩ := h.split
  have hinside : ∀ t ∈ text.drop s.pos, t.kind.isEof = false := fun t ht =>
    h.inside t (List.mem_of_mem_drop ht)
  have hrest : code rest = [] := by
    cases rest with
    | nil => rfl
    | cons t rest =>
      obtain rfl : t = stop := hhead
      simp [code, h.stop]
  rw [← assignsPath_takeWhile, ahead, ← code_eq_takeWhile, hsplit,
    List.drop_append_of_le_length hs, code_append hinside, hrest, List.append_nil]

/-- The token behind which a reader stands is looked for in the text alone. -/
theorem previous_eq (h : EndsAt tokens text stop) {s : Reader} (hs : s.pos ≤ text.length) :
    s.previous tokens = (text.take s.pos).reverse.find? (!·.kind.isComment) := by
  obtain ⟨rest, hsplit, -⟩ := h.split
  rw [Reader.previous, hsplit, List.take_append_of_le_length hs]

/-- A reader that is not at the end stands on a token of the text. -/
theorem pos_lt_length (h : EndsAt tokens text stop) {s : Reader} (hs : s.pos ≤ text.length)
    (hend : s.atEnd tokens = false) : s.pos < text.length := by
  rw [h.atEnd_eq hs] at hend
  by_cases hlt : s.pos < text.length
  · exact hlt
  · have hdrop : text.drop s.pos = [] := List.drop_eq_nil_of_le (by omega)
    rw [hdrop] at hend
    cases hend

/-- Comments are skipped up to the end of the text, never past it. -/
theorem skipComments_eq (h : EndsAt tokens text stop) {s : Reader} (hs : s.pos ≤ text.length) :
    s.skipComments tokens =
      { s with pos := s.pos + ((text.drop s.pos).takeWhile (·.kind.isComment)).length } := by
  obtain ⟨rest, hsplit, hhead⟩ := h.split
  have hrest : rest.takeWhile (·.kind.isComment) = [] := by
    cases rest with
    | nil => rfl
    | cons t rest =>
      obtain rfl : t = stop := hhead
      exact List.takeWhile_cons_of_neg (by simp [isComment_of_isEof h.stop])
  have htake : (tokens.drop s.pos).takeWhile (·.kind.isComment) =
      (text.drop s.pos).takeWhile (·.kind.isComment) := by
    rw [hsplit, List.drop_append_of_le_length hs, List.takeWhile_append, hrest, List.append_nil]
    split
    · next hall => exact ((List.takeWhile_prefix _).eq_of_length hall).symm
    · rfl
  rw [skipComments, htake]

theorem pos_skipComments_le (h : EndsAt tokens text stop) {s : Reader} (hs : s.pos ≤ text.length) :
    (s.skipComments tokens).pos ≤ text.length := by
  have htake := (List.takeWhile_prefix (l := text.drop s.pos) (·.kind.isComment)).length_le
  rw [List.length_drop] at htake
  rw [h.skipComments_eq hs]
  simp only
  omega

/-- Advancing does not lead behind the end of the text. -/
theorem pos_advance_le (h : EndsAt tokens text stop) {s : Reader} (hs : s.pos ≤ text.length) :
    (s.advance tokens).pos ≤ text.length := by
  cases hend : s.atEnd tokens with
  | true => rwa [advance_of_atEnd hend]
  | false =>
    have hlt : s.pos + 1 ≤ text.length := h.pos_lt_length hs hend
    rw [Reader.advance, if_neg (by simp [hend])]
    exact h.pos_skipComments_le hlt

private theorem advance_eq (h : EndsAt tokens text stop) {s : Reader} (hs : s.pos ≤ text.length) :
    s.advance (text ++ [stop]) = s.advance tokens := by
  have hends : s.atEnd (text ++ [stop]) = s.atEnd tokens := by
    rw [h.normal.atEnd_eq hs, h.atEnd_eq hs]
  cases hend : s.atEnd tokens with
  | true => rw [advance_of_atEnd hend, advance_of_atEnd (hends.trans hend)]
  | false =>
    have hlt : s.pos + 1 ≤ text.length := h.pos_lt_length hs hend
    rw [Reader.advance, hends, Reader.advance, if_neg (by simp [hend]), if_neg (by simp [hend]),
      h.normal.skipComments_eq hlt, h.skipComments_eq hlt]

/-- The same indices match in the list and in the text with its end. -/
theorem renumbers (h : EndsAt tokens text stop) :
    Renumbers tokens (text ++ [stop]) (· ≤ text.length) id where
  le_length hi := by
    obtain ⟨rest, hsplit, -⟩ := h.split
    rw [hsplit, List.length_append]
    omega
  index_le_length hi := by
    rw [List.length_append]
    exact Nat.le_add_right_of_le hi
  index_lt_iff _ _ := Iff.rfl
  peek hs := (h.normal.peek_eq hs).trans (h.peek_eq hs).symm
  second hs := (h.normal.second_eq hs).trans (h.second_eq hs).symm
  assignsPath hs := (h.normal.assignsPath_eq hs).trans (h.assignsPath_eq hs).symm
  previous hs := (h.normal.previous_eq hs).trans (h.previous_eq hs).symm
  inside_advance hs := h.pos_advance_le hs
  advance hs := h.advance_eq hs

private theorem initial_eq (h : EndsAt tokens text stop) : initial
    (text ++ [stop]) = initial tokens := by
  rw [initial, h.normal.skipComments_eq (Nat.zero_le _), initial, h.skipComments_eq (Nat.zero_le _)]

end EndsAt

private theorem Run.renumber_id {α : Type} (x : Run α) : x.renumber id = x := by
  have hcalls : x.calls.map (Call.renumber id) = x.calls := List.map_id' x.calls
  rw [Run.renumber, hcalls]
  rfl

/-- Two lists of tokens give the same, and reading them makes the same calls at the same indices,
    none of which leads behind the index `stop`. -/
structure ReadAlike (tokens tokens' : List Token) (stop : Nat) : Prop where
  parsed : Parsed.ofTokens tokens = Parsed.ofTokens tokens'
  run : Plan.program.run tokens (initial tokens) = Plan.program.run tokens' (initial tokens')
  calls : ∀ call ∈ (Plan.program.run tokens (initial tokens)).calls, call.exit.pos ≤ stop

/-- The tokens and the text cut behind its first end are read alike. -/
theorem EndsAt.readAlike {tokens text : List Token} {stop : Token} (h : EndsAt tokens text stop)
    (hne : tokens ≠ []) : ReadAlike tokens (text ++ [stop]) text.length := by
  have hinitial : (initial tokens).pos ≤ text.length := h.pos_skipComments_le (Nat.zero_le _)
  have hmatches := Plan.program.run_matches h.renumbers hinitial
  have hrun : Plan.program.run tokens (initial tokens) =
      Plan.program.run (text ++ [stop]) (initial (text ++ [stop])) := by
    rw [h.initial_eq]
    exact (hmatches.eq.trans (Run.renumber_id _)).symm
  have hne' : text ++ [stop] ≠ [] := List.append_ne_nil_of_right_ne_nil _ (List.cons_ne_nil _ _)
  refine ⟨?_, hrun, fun call hcall => (hmatches.calls call hcall).2⟩
  rw [Parsed.ofTokens_eq_run hne, Parsed.ofTokens_eq_run hne', hrun]

end Reader

open Reader in
/-- Nothing behind the first end of the text is ever looked at, and a list without one is read as if
    an end stood behind its last token. -/
theorem Parsed.readAlike_untilEnd :
    (∀ (pre : List Token) (e : Token) (post : List Token), (∀ t ∈ pre, t.kind.isEof = false) →
      e.kind.isEof = true → ReadAlike (pre ++ [e] ++ post) (pre ++ [e]) pre.length) ∧
    ∀ (ts : List Token) (hne : ts ≠ []), (∀ t ∈ ts, t.kind.isEof = false) →
      ReadAlike ts (ts ++ [.eofAt (ts.getLast hne).span.stop]) ts.length := by
  constructor
  · intro pre e post hinside heof
    have hends : EndsAt (pre ++ [e] ++ post) pre e := by
      rw [List.append_assoc]
      exact .of_append post hinside heof
    exact hends.readAlike (by simp)
  · intro ts hne hinside
    have hends : EndsAt ts ts (.eofAt (ts.getLast hne).span.stop) :=
      .of_getLast? (List.getLast?_eq_some_getLast hne) hinside
    exact hends.readAlike hne

open Reader in
/-- A name in front of the end and one behind it; a comment and a name without an end. -/
theorem Parsed.readAlike_untilEnd_names :
    let name : Token := ⟨.identifier "x", "x", .empty .start⟩
    let comment : Token := ⟨.comment "one", "one", .empty .start⟩
    let eof : Token := .eofAt .start
    (name.kind.isEof = false ∧ comment.kind.isEof = false ∧ eof.kind.isEof = true) ∧
      ReadAlike [name, eof, comment, name] [name, eof] 1 ∧
        ReadAlike [comment, name] [comment, name, eof] 2 := by
  intro name comment eof
  refine ⟨⟨rfl, rfl, rfl⟩, ?_, ?_⟩
  · exact Parsed.readAlike_untilEnd.1 [name] eof [comment, name]
      (List.forall_mem_singleton.2 rfl) rfl
  · exact Parsed.readAlike_untilEnd.2 [comment, name] (List.cons_ne_nil _ _)
      (List.forall_mem_cons.2 ⟨rfl, List.forall_mem_singleton.2 rfl⟩)

end GeoLang
