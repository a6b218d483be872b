import GeoLang.Proofs.Braces.Placeholder
import GeoLang.Proofs.Reader.Invariant

namespace GeoLang

open Grammar

namespace Reader

variable {tokens : List Token}

/-- The tokens that a call consumes, comments among them. -/
def Call.consumed (tokens : List Token) (x : Call) : List Token :=
  (tokens.drop x.entry.pos).take (x.exit.pos - x.entry.pos)

/-- Where the end of the text is the last token only, the code is a filtered list. -/
theorem code_eq_filter {ts : List Token} (heof : ∀ t ∈ ts.dropLast, t.kind ≠ .eof) :
    code ts = ts.filter fun t => !t.kind.isEof && !t.kind.isComment := by
  have hfilter : ts.takeWhile (!·.kind.isEof) = ts.filter (!·.kind.isEof) := by
    induction ts with
    | nil => rfl
    | cons t ts ih =>
      cases ts with
      | nil => cases hcase : t.kind.isEof <;> simp [hcase]
      | cons u us =>
        rw [List.dropLast_cons_cons, List.forall_mem_cons] at heof
        obtain ⟨ht, hrest⟩ := heof
        have hgoes : t.kind.isEof = false := by
          rw [← Bool.not_eq_true, TokenKind.isEof_iff]
          exact ht
        rw [List.takeWhile_cons_of_pos (by simp [hgoes]), List.filter_cons_of_pos (by simp [hgoes]),
          ih hrest]
  rw [code, hfilter, List.filter_filter]
  congr 1
  funext t
  exact Bool.and_comm _ _

/-- What a reader has ahead is a suffix of the code. -/
theorem rest_cursor_suffix (heof : ∀ t ∈ tokens.dropLast, t.kind ≠ .eof) (s : Reader) :
    (s.cursor tokens).rest <:+ code tokens := by
  have hdrop : ∀ t ∈ (tokens.drop s.pos).dropLast, t.kind ≠ .eof := by
    intro t ht
    have hne : tokens.drop s.pos ≠ [] := by
      intro hnil
      rw [hnil] at ht
      cases ht
    have hsplit : tokens.dropLast = tokens.take s.pos ++ (tokens.drop s.pos).dropLast := by
      rw [← List.dropLast_append_of_ne_nil hne, List.take_append_drop]
    apply heof
    rw [hsplit]
    exact List.mem_append_right _ ht
  change code (tokens.drop s.pos) <:+ code tokens
  rw [code_eq_filter heof, code_eq_filter hdrop]
  exact (List.drop_suffix s.pos tokens).filter _

/-- Comments and the end are no braces. -/
theorem balanced_code_iff (heof : ∀ t ∈ tokens.dropLast, t.kind ≠ .eof) :
    Balanced (code tokens) ↔ Balanced tokens := by
  rw [code_eq_filter heof]
  apply leavesOpen_filter_iff
  intro t _ hleft
  cases hkind : t.kind with
  | punctuation p => simp [hkind, TokenKind.isEof, TokenKind.isComment] at hleft
  | _ => rfl

/-- From any reader, a balanced text with closed placeholders is orderly. -/
theorem orderly_cursor (heof : ∀ t ∈ tokens.dropLast, t.kind ≠ .eof) (hbalanced : Balanced tokens)
    (hplaceholders : PlaceholdersClosed (code tokens)) (s : Reader) : (s.cursor tokens).Orderly where
  closed ts hts := by
    obtain ⟨us, hus⟩ := hts.trans (rest_cursor_suffix heof s)
    rw [← balanced_code_iff heof, ← hus] at hbalanced
    exact hbalanced.opening_le_closing
  placeholders us hus := hplaceholders us (hus.trans (rest_cursor_suffix heof s))
  code t ht := kind_ne_eof_of_mem_code ht
  eof := kind_eof_cursor s

/-- Raw tokens and code leave the same braces open. -/
theorem Call.Follows.leavesOpen_iff {x : Call} (hx : x.Follows tokens) {used : List Token} {k : Nat}
    (hused : (x.entry.cursor tokens).Reads used (x.exit.cursor tokens)) :
    LeavesOpen used k ↔ LeavesOpen (x.consumed tokens) k := by
  obtain ⟨passed, hpassed⟩ := hx.passes
  have hconsumed : x.consumed tokens = passed := by
    rw [Call.consumed, hpassed.ahead, hpassed.pos, Nat.add_sub_cancel_left, List.take_left]
  have hfilter : passed.filter (!·.kind.isComment) = used := by
    have hrest := hpassed.reads.rest
    rw [hused.rest] at hrest
    exact (List.append_cancel_right hrest).symm
  rw [hconsumed, ← hfilter]
  apply leavesOpen_filter_iff
  intro t _ hleft
  exact TokenKind.isBrace_of_isComment (by simpa using hleft)

/-- An attempt that is not made in front of a closing brace closes only braces of its own, and
    leaves none open if the text in front of it is orderly. -/
theorem Call.Follows.leavesOpen_consumed {x : Call} (hx : x.Follows tokens)
    (hattempt : x.attempt = true) (hpeek : (x.entry.peek tokens).kind ≠ .punctuation .rCurly) :
    ∃ k, LeavesOpen (x.consumed tokens) k ∧ ((x.entry.cursor tokens).Orderly → k = 0) := by
  obtain ⟨_, n, _, hcursor⟩ := hx.attempt hattempt
  rw [← peek_cursor] at hpeek
  obtain ⟨used, k, hused, hk, hzero⟩ := nests_recovering (nests_statement n) hpeek
  rw [← hcursor] at hused
  exact ⟨k, (hx.leavesOpen_iff hused).1 hk, hzero⟩

private theorem Call.Follows.not_balanced_consumed {x : Call} (hx : x.Follows tokens)
    (hattempt : x.attempt = true) (hdepth : x.entry.depth < maxNesting)
    (hunclosed : BeginsUnclosed (x.entry.cursor tokens).rest) : ¬ Balanced (x.consumed tokens) := by
  obtain ⟨_, n, hlevel, hcursor⟩ := hx.attempt hattempt
  cases n with
  | zero => omega
  | succ n =>
    obtain ⟨used, k, hused, hk⟩ := @exists_leavesOpen_recovering _ n (kind_eof_cursor _) hunclosed
    rw [← hcursor] at hused
    intro hbalanced
    have hmore := ((hx.leavesOpen_iff hused).1 hk).total
    have hsame := hbalanced.total
    omega

/-- What comes next in a balanced text of which a balanced part was read does not close a brace. -/
theorem peek_ne_rCurly {start s : Reader} (hbalanced : Balanced (start.cursor tokens).rest)
    (horderly : (start.cursor tokens).Orderly)
    (hnests : (start.cursor tokens).Nests (s.cursor tokens)) :
    (s.peek tokens).kind ≠ .punctuation .rCurly := by
  obtain ⟨used, k, hused, hk, hzero⟩ := hnests
  obtain rfl := hzero horderly
  rw [← peek_cursor]
  cases hrest : (s.cursor tokens).rest with
  | nil =>
    rw [Cursor.peek, hrest, List.headD_nil, kind_eof_cursor]
    rintro ⟨⟩
  | cons t ts =>
    rw [Cursor.peek, hrest, List.headD_cons]
    rw [hused.rest, hrest] at hbalanced
    exact hk.not_rCurly hbalanced

private theorem rest_cursor_initial : ((initial tokens).cursor tokens).rest = code tokens := by
  cases hlast : tokens.getLast? with
  | none =>
    rw [List.getLast?_eq_none_iff.1 hlast]
    rfl
  | some last =>
    rw [cursor_initial hlast]
    rfl

private theorem atEnd_of_insideProgram {s : Reader} {b : Unit}
    (hb : insideProgram (s.peek tokens) = some b) : s.atEnd tokens = false := by
  rw [atEnd, ← Bool.not_eq_true, TokenKind.isEof_iff]
  exact insideProgram_eq_some_iff.1 hb

/-- Between two statements of a program: no level is entered, and the braces in front are in
    pairs. -/
structure Between (tokens : List Token) (s : Reader) : Prop where
  sound : s.Sound tokens
  depth : s.depth = 0
  nests : ((initial tokens).cursor tokens).Nests (s.cursor tokens)

/-- One round of the loop of a program. -/
def round (tokens : List Token) (s : Reader) : Run (Option Statement) :=
  (attempting tokens ((Plan.parts maxNesting).statement.run tokens) s).logged true s

/-- In a block no attempt is made in front of a closing brace, and outside of blocks no brace is to
    be closed. -/
theorem between_of_round (hstart : Balanced ((initial tokens).cursor tokens).rest)
    (horderly : ((initial tokens).cursor tokens).Orderly) {s : Reader} (hs : s.Between tokens)
    (hend : s.atEnd tokens = false) :
    (round tokens s).reader.Between tokens ∧ ∀ call ∈ (round tokens s).calls, call.attempt = true →
      (call.entry.peek tokens).kind ≠ .punctuation .rCurly := by
  have hlevel : s.depth + maxNesting = maxNesting := by rw [hs.depth, Nat.zero_add]
  have hread := (Plan.parts maxNesting).statement.run_follows hs.sound hlevel
  have hfollows : (round tokens s).Follows tokens s
      (recovering (statement maxNesting) (s.cursor tokens)) :=
    .attempting hs.sound hend (fun hentered => absurd hs.depth hentered) hlevel hread
  have hpeek := peek_ne_rCurly hstart horderly hs.nests
  refine ⟨⟨hfollows.sound, hfollows.depth.trans hs.depth, ?_⟩, ?_⟩
  · rw [hfollows.cursor]
    exact hs.nests.trans (nests_recovering (nests_statement _) (by rwa [peek_cursor]))
  · refine List.forall_mem_cons.2 ⟨fun _ => hpeek, fun call hcall hattempt => ?_⟩
    rw [calls_attempting] at hcall
    have hlt := lt_depth_of_attempt hs.sound hlevel hcall hattempt
    exact (hread.calls call hcall).inside hattempt (by omega)

/-- All attempts of a program are made in the rounds of its loop. -/
theorem mem_calls_rounds {call : Call}
    (hcall : call ∈ (Plan.program.run tokens (initial tokens)).calls) (hattempt : call.attempt = true) :
    call ∈ (repeating tokens insideProgram (fun _ => round tokens) (initial tokens)).calls := by
  obtain rfl | hcall := List.mem_cons.1 hcall
  · cases hattempt
  obtain hloop | ⟨_, hlast⟩ := mem_calls_bind hcall
  · obtain rfl | hcall := List.mem_cons.1 hloop
    · cases hattempt
    · exact hcall
  · obtain rfl := List.mem_singleton.1 hlast
    cases hattempt

/-- The first attempt of a program, where the text begins. -/
theorem exists_attempt_initial (hend : (initial tokens).atEnd tokens = false) :
    ∃ call ∈ (Plan.program.run tokens (initial tokens)).calls,
      call.attempt = true ∧ call.entry = initial tokens := by
  have hnext : insideProgram ((initial tokens).peek tokens) = some () := by
    rw [insideProgram_eq_some_iff]
    intro hkind
    rw [atEnd, TokenKind.isEof_iff.2 hkind] at hend
    cases hend
  refine ⟨⟨true, initial tokens, (round tokens (initial tokens)).reader⟩, ?_, rfl, rfl⟩
  have hfirst := @calls_subset_repeating _ _ _ _ (fun _ => round tokens) _ _ hnext
  refine List.mem_cons_of_mem _ (calls_subset_bind _ _ (List.mem_cons_of_mem _ ?_))
  exact hfirst List.mem_cons_self

private theorem peek_ne_rCurly_of_attempt (heof : ∀ t ∈ tokens.dropLast, t.kind ≠ .eof)
    (hbalanced : Balanced tokens) (hplaceholders : PlaceholdersClosed (code tokens)) {call : Call}
    (hcall : call ∈ (Plan.program.run tokens (initial tokens)).calls)
    (hattempt : call.attempt = true) : (call.entry.peek tokens).kind ≠ .punctuation .rCurly := by
  have horderly := orderly_cursor heof hbalanced hplaceholders (initial tokens)
  have hstart : Balanced ((initial tokens).cursor tokens).rest := by
    rw [rest_cursor_initial, balanced_code_iff heof]
    exact hbalanced
  have hrounds : ∀ call ∈ (repeating tokens insideProgram (fun _ => round tokens)
      (initial tokens)).calls, call.attempt = true →
        (call.entry.peek tokens).kind ≠ .punctuation .rCurly := by
    refine forall_calls_repeating (fun _ s (hs : s.Between tokens) hb => ?_)
      ⟨sound_initial, rfl, .refl _⟩
    exact between_of_round hstart horderly hs (atEnd_of_insideProgram hb)
  exact hrounds call (mem_calls_rounds hcall hattempt) hattempt

end Reader

open Reader in
/-- In a balanced text each attempt at a statement consumes as many closing braces as opening ones,
    and none that closes a block around it, if the placeholders of output statements are closed;
    where one is not, an attempt at its statement does not. -/
theorem Parsed.balanced_of_attempts {tokens : List Token}
    (heof : ∀ t ∈ tokens.dropLast, t.kind ≠ .eof) (hbalanced : Balanced tokens) :
    let calls := (Plan.program.run tokens (initial tokens)).calls
    (PlaceholdersClosed (code tokens) → ∀ call ∈ calls, call.attempt = true →
      Balanced (call.consumed tokens)) ∧
    ∀ call ∈ calls, call.attempt = true → call.entry.depth < maxNesting →
      BeginsUnclosed (call.entry.cursor tokens).rest → ¬ Balanced (call.consumed tokens) := by
  intro calls
  have hfollows : ∀ call ∈ calls, call.Follows tokens :=
    (Plan.program.run_follows sound_initial (Nat.zero_add maxNesting)).calls
  constructor
  · intro hplaceholders call hcall hattempt
    have hpeek := peek_ne_rCurly_of_attempt heof hbalanced hplaceholders hcall hattempt
    obtain ⟨k, hk, hzero⟩ := (hfollows call hcall).leavesOpen_consumed hattempt hpeek
    obtain rfl := hzero (orderly_cursor heof hbalanced hplaceholders _)
    exact hk
  · intro call hcall hattempt hdepth hunclosed
    exact (hfollows call hcall).not_balanced_consumed hattempt hdepth hunclosed

open Reader in
/-- A malformed statement in a block, of which the placeholder is closed. -/
theorem Parsed.balanced_of_attempts_unterminated :
    let tokens : List Token := List.map (⟨·, "", .empty .start⟩)
      [.keyword .whileKw, .punctuation .lParen, .identifier "x", .punctuation .rParen,
        .punctuation .lCurly, .keyword .printKw, .punctuation .lParen, .literal (.string "t"),
        .punctuation .lCurly, .identifier "a", .punctuation .rCurly, .punctuation .rParen,
        .punctuation .rCurly, .eof]
    let calls := (Plan.program.run tokens (initial tokens)).calls
    (∀ t ∈ tokens.dropLast, t.kind ≠ .eof) ∧ Balanced tokens ∧ PlaceholdersClosed (code tokens) ∧
      ∀ call ∈ calls, call.attempt = true → Balanced (call.consumed tokens) := by
  intro tokens calls
  have heof : ∀ t ∈ tokens.dropLast, t.kind ≠ .eof := by decide
  have hbalanced : Balanced tokens := by decide +kernel
  have hclosed : PlaceholdersClosed (code tokens) := by
    have honly : ∀ n ∈ List.range 14, ((code tokens).drop n).head?.any
        (fun t => t.kind == .keyword .printKw || t.kind == .keyword .printlnKw) → n = 5 := by
      decide +kernel
    rintro us hus ⟨word, paren, template, rest, rfl, ⟨newline, hword⟩, _, _, hopen⟩
    have hdrop := List.suffix_iff_eq_drop.1 hus
    have hprint : (code tokens).length - (word :: paren :: template :: rest).length = 5 := by
      apply honly
      · exact List.mem_range.2 (Nat.lt_succ_of_le (Nat.sub_le 13 _))
      · rw [← hdrop]
        cases newline <;> simp [hword, outputKeyword]
    rw [hprint] at hdrop
    have hrest : rest = (code tokens).drop 8 := by
      have hbehind := congrArg (List.drop 3) hdrop
      rwa [List.drop_drop] at hbehind
    have hpath := @PathForm.mk ⟨.identifier "a", "", .empty .start⟩ [] [] (.empty .start) rfl .nil
    have hrow := Items.cons (PlaceholderForm.mk (t := ⟨.punctuation .lCurly, "", .empty .start⟩)
      (u := ⟨.punctuation .rCurly, "", .empty .start⟩) rfl hpath rfl) .nil
    apply hopen
    rw [hrest]
    exact ⟨_, _, (code tokens).drop 11, by decide +kernel, hrow, by decide +kernel⟩
  exact ⟨heof, hbalanced, hclosed, (Parsed.balanced_of_attempts heof hbalanced).1 hclosed⟩

open Reader in
/-- A placeholder that is not closed: the brace behind it closes the block, and the attempt at the
    whole loop ends there. -/
theorem Parsed.unbalanced_attempt :
    let tokens : List Token := List.map (⟨·, "", .empty .start⟩)
      [.keyword .whileKw, .punctuation .lParen, .identifier "x", .punctuation .rParen,
        .punctuation .lCurly, .keyword .printKw, .punctuation .lParen, .literal (.string "t"),
        .punctuation .lCurly, .identifier "a", .identifier "b", .punctuation .rCurly,
        .punctuation .rParen, .punctuation .semicolon, .punctuation .rCurly, .eof]
    let calls := (Plan.program.run tokens (initial tokens)).calls
    (∀ t ∈ tokens.dropLast, t.kind ≠ .eof) ∧ Balanced tokens ∧
      ∃ call ∈ calls, call.attempt = true ∧
        opening (call.consumed tokens) = closing (call.consumed tokens) + 1 := by
  intro tokens calls
  have heof : ∀ t ∈ tokens.dropLast, t.kind ≠ .eof := by decide
  have hbalanced : Balanced tokens := by decide +kernel
  obtain ⟨call, hcall, hattempt, hentry⟩ := @exists_attempt_initial tokens (by decide)
  have hfollows : call.Follows tokens :=
    (Plan.program.run_follows sound_initial (Nat.zero_add maxNesting)).calls call hcall
  obtain ⟨_, n, hlevel, hcursor⟩ := hfollows.attempt hattempt
  obtain rfl : n = maxNesting := by
    rw [hentry] at hlevel
    exact (Nat.zero_add n).symm.trans hlevel
  have hstart : call.entry.cursor tokens = Cursor.ofTokens tokens ⟨.eof, "", .empty .start⟩ := by
    rw [hentry]
    exact cursor_initial rfl
  obtain ⟨used, hused⟩ :=
    (Composed.recovering (.statement maxNesting)).exists_reads (call.entry.cursor tokens)
  have hremaining := hused.remaining_eq
  have hrest := hused.rest
  rw [hstart] at hremaining hrest
  have hbehind : (recovering (statement maxNesting)
      (Cursor.ofTokens tokens ⟨.eof, "", .empty .start⟩)).cursor.remaining = 3 := by decide +kernel
  have hahead : (Cursor.ofTokens tokens ⟨.eof, "", .empty .start⟩).remaining = 15 := by
    decide +kernel
  have hlength : used.length = 12 := by omega
  have htake : used = (code tokens).take 12 := by
    change code tokens = _ at hrest
    rw [hrest, List.take_left' hlength]
  have hone : LeavesOpen used 1 := by
    rw [htake]
    decide +kernel
  rw [← hcursor] at hused
  exact ⟨heof, hbalanced, call, hcall, hattempt, ((hfollows.leavesOpen_iff hused).1 hone).total⟩

end GeoLang
