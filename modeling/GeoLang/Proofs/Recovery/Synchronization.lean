import GeoLang.Proofs.Braces.Matching
import GeoLang.Proofs.Reader.Invariant
import GeoLang.Proofs.Recovery.Skip

namespace GeoLang

open Grammar

namespace Reader

variable {tokens : List Token} {start : Nat} {s a b : Reader}

/-- The tokens at the indices from `i` on and below `j`. -/
def stretch (tokens : List Token) (i j : Nat) : List Token := (tokens.take j).drop i

/-- The closing brace at the index `i` closes the one that is opened at the index `j`. -/
structure Closes (tokens : List Token) (i j : Nat) : Prop where
  right : ∃ t ∈ tokens[i]?, t.kind = .punctuation .rCurly
  left : ∃ t ∈ tokens[j]?, t.kind = .punctuation .lCurly
  before : j < i
  inside : Balanced (stretch tokens (j + 1) i)

/-- Where the braces begin that count after a statement failed at `s` that began at the index
    `start`. If it consumed nothing, its first token is skipped in any case, and a closing brace
    there does not count. -/
def countFrom (tokens : List Token) (start : Nat) (s : Reader) : Nat :=
  if s.pos = start ∧ (s.peek tokens).kind = .punctuation .rCurly then s.pos + 1 else s.pos

/-- A place where reading may go on after a statement failed at `s` that began at the index
    `start`. -/
structure Boundary (tokens : List Token) (start : Nat) (s b : Reader) : Prop where
  moves : s.Moves tokens b
  headway : s.pos = start → s.atEnd tokens = false → s.pos < b.pos
  balanced : Balanced (stretch tokens (countFrom tokens start s) b.pos)
  stops : (∃ t ∈ b.previous tokens, t.kind = .punctuation .semicolon) ∨
    (b.peek tokens).kind = .punctuation .rCurly ∨ (b.peek tokens).kind.startsStatement = true

/-- From `s` on to `s'` everything up to the first boundary is skipped, or up to the end if there is
    none. -/
structure Synchronized (tokens : List Token) (start : Nat) (s s' : Reader) : Prop where
  moves : s.Moves tokens s'
  matched : ∀ i t, s.pos ≤ i → i < s'.pos → tokens[i]? = some t → t.kind = .punctuation .rCurly →
    i = start ∧ s.pos = start ∨ ∃ j, s.pos ≤ j ∧ Closes tokens i j
  stops : Boundary tokens start s s' ∨
    s'.atEnd tokens = true ∧ ∀ b, ¬ Boundary tokens start s b
  first : ∀ b, Boundary tokens start s b → s'.pos ≤ b.pos

/-- Of two places on the way of a reader, the one further on is on the way from the other. -/
theorem Moves.of_le (ha : s.Moves tokens a) (hb : s.Moves tokens b) (hle : a.pos ≤ b.pos) :
    a.Moves tokens b := by
  obtain ⟨passed, hpassed⟩ := ha.passes
  obtain ⟨more, hmore⟩ := hb.passes
  have hpos := hpassed.pos
  have hpos' := hmore.pos
  have hprefix : passed <+: more := by
    refine List.prefix_of_prefix_length_le ⟨_, hpassed.ahead.symm⟩ ⟨_, hmore.ahead.symm⟩ ?_
    omega
  obtain ⟨rest, rfl⟩ := hprefix
  rw [List.length_append] at hpos'
  have hahead : tokens.drop a.pos = rest ++ tokens.drop b.pos := by
    have hsame := hpassed.ahead.symm.trans hmore.ahead
    rw [List.append_assoc] at hsame
    exact List.append_cancel_left hsame
  refine ⟨⟨rest, by omega, hahead, ?_⟩, hb.sound, hb.errors.trans ha.errors.symm,
    hb.depth.trans ha.depth.symm⟩
  exact fun t ht => hmore.inside t (List.mem_append_right _ ht)

/-- Moves to the same index lead to the same reader. -/
theorem Moves.eq_of_pos_eq (ha : s.Moves tokens a) (hb : s.Moves tokens b) (hpos : b.pos = a.pos) :
    b = a := by
  have herrors := hb.errors.trans ha.errors.symm
  have hdepth := hb.depth.trans ha.depth.symm
  cases a
  cases b
  simp only at hpos herrors hdepth
  rw [hpos, herrors, hdepth]

/-- At the end of the text there is nowhere to go. -/
theorem Moves.pos_eq_of_atEnd (hs : s.Sound tokens) (hb : s.Moves tokens b)
    (hend : s.atEnd tokens = true) : b.pos = s.pos := by
  obtain ⟨passed, hpassed⟩ := hb.passes
  have hpos := hpassed.pos
  cases passed with
  | nil => exact hpos
  | cons t ts =>
    have hcode : t.kind.isComment = false := by
      apply hs.rests
      rw [← List.head?_drop, hpassed.ahead, List.cons_append, List.head?_cons, Option.mem_some]
    have hpeek : s.peek tokens = t := by
      rw [peek, ahead, hpassed.ahead, List.cons_append, List.filter_cons_of_pos (by simp [hcode]),
        List.headD_cons]
    have hinside := hpassed.inside t List.mem_cons_self
    rw [atEnd, hpeek, hinside] at hend
    cases hend

/-- Wherever a reader comes to, it comes there over the next place. -/
theorem Sound.pos_advance_le (hs : s.Sound tokens) (hb : b.Sound tokens) (hlt : s.pos < b.pos) :
    (s.advance tokens).pos ≤ b.pos := by
  cases hend : s.atEnd tokens with
  | true =>
    rw [advance_of_atEnd hend]
    exact Nat.le_of_lt hlt
  | false =>
    obtain ⟨comments, hpasses, hcomments⟩ := hs.passes_advance hend
    by_contra hnot
    have hpos := hpasses.pos
    rw [List.length_cons] at hpos
    obtain ⟨k, hk⟩ := Nat.exists_eq_add_of_lt hlt
    have hinside : k < comments.length := by omega
    have hget : tokens[b.pos]? = some comments[k] := by
      rw [hk, Nat.add_assoc, ← List.getElem?_drop, hpasses.ahead, List.cons_append,
        List.getElem?_cons_succ, List.getElem?_append_left hinside, List.getElem?_eq_getElem hinside]
    have hcomment := List.filter_eq_nil_iff.1 hcomments _ (List.getElem_mem hinside)
    rw [hb.rests _ hget] at hcomment
    exact hcomment rfl

theorem stretch_self (i : Nat) : stretch tokens i i = [] :=
  List.drop_eq_nil_of_le (List.length_take_le _ _)

private theorem stretch_of_passes {i : Nat} {passed : List Token}
    (hpasses : a.Passes tokens passed b)
    (ha : a.pos ≤ tokens.length) (hi : i ≤ a.pos) :
    stretch tokens i b.pos = stretch tokens i a.pos ++ passed := by
  have htake : tokens.take b.pos = tokens.take a.pos ++ passed := by
    rw [hpasses.pos, List.take_add, hpasses.ahead, List.take_left]
  have hlength : i ≤ (tokens.take a.pos).length := by
    rw [List.length_take]
    omega
  rw [stretch, htake, List.drop_append_of_le_length hlength, stretch]

/-- Advancing adds the current token to what was left behind, and comments, which are no braces. -/
theorem Sound.exists_stretch_advance (hs : s.Sound tokens) (hend : s.atEnd tokens = false) {i : Nat}
    (hi : i ≤ s.pos) : ∃ comments, (∀ t ∈ comments, t.kind.isBrace = false) ∧
      stretch tokens i (s.advance tokens).pos =
        stretch tokens i s.pos ++ s.peek tokens :: comments := by
  obtain ⟨comments, hpasses, hcomments⟩ := hs.passes_advance hend
  refine ⟨comments, fun t ht => ?_, stretch_of_passes hpasses hs.pos_le hi⟩
  have hcomment := List.filter_eq_nil_iff.1 hcomments t ht
  exact TokenKind.isBrace_of_isComment (by simpa using hcomment)

private theorem stretch_eq_append_cons {first i last : Nat} {t : Token} (hfirst : first ≤ i)
    (hlast : i < last)
    (hget : tokens[i]? = some t) :
    stretch tokens first last = stretch tokens first i ++ t :: stretch tokens (i + 1) last := by
  obtain ⟨hi, rfl⟩ := List.getElem?_eq_some_iff.1 hget
  have hinside : i < (tokens.take last).length := by
    rw [List.length_take]
    omega
  have htake : tokens.take last = tokens.take i ++ tokens[i] :: (tokens.take last).drop (i + 1) := by
    have hparts := List.take_append_drop i (tokens.take last)
    rw [List.take_take, Nat.min_eq_left (by omega), List.drop_eq_getElem_cons hinside,
      List.getElem_take] at hparts
    exact hparts.symm
  have hlength : first ≤ (tokens.take i).length := by
    rw [List.length_take]
    omega
  rw [stretch, htake, List.drop_append_of_le_length hlength]
  rfl

/-- A token in the middle of a stretch, by its index. -/
theorem index_of_stretch {first last : Nat} {front rest : List Token} {t : Token}
    (hstretch : stretch tokens first last = front ++ t :: rest) :
    first + front.length < last ∧ tokens[first + front.length]? = some t ∧
      stretch tokens (first + front.length + 1) last = rest := by
  have hlength := congrArg List.length hstretch
  rw [stretch, List.length_drop, List.length_take, List.length_append, List.length_cons] at hlength
  have hlt : first + front.length < last := by omega
  refine ⟨hlt, ?_, ?_⟩
  · have hthere : (stretch tokens first last)[front.length]? = some t := by
      rw [hstretch, List.getElem?_append_right (Nat.le_refl _), Nat.sub_self,
        List.getElem?_cons_zero]
    rwa [stretch, List.getElem?_drop, List.getElem?_take_of_lt hlt] at hthere
  · rw [stretch, Nat.add_assoc, ← List.drop_drop]
    change (stretch tokens first last).drop (front.length + 1) = rest
    rw [hstretch, List.drop_append, List.drop_of_length_le (by omega), List.nil_append,
      Nat.add_sub_cancel_left, List.drop_one, List.tail_cons]

/-- Where only braces are closed that were opened, a closing brace closes one of them. -/
theorem exists_closes {first last i k : Nat} {t : Token}
    (hopen : LeavesOpen (stretch tokens first last) k) (hfirst : first ≤ i) (hlast : i < last)
    (hget : tokens[i]? = some t) (hkind : t.kind = .punctuation .rCurly) :
    ∃ j, first ≤ j ∧ Closes tokens i j := by
  rw [stretch_eq_append_cons hfirst hlast hget] at hopen
  obtain ⟨before, left, inside, hfront, hleft, hinside⟩ := hopen.exists_match hkind
  obtain ⟨hlt, hthere, hbetween⟩ := index_of_stretch hfront
  refine ⟨first + before.length, by omega, ⟨t, hget, hkind⟩, ⟨left, hthere, hleft⟩, hlt, ?_⟩
  rwa [hbetween]

private theorem le_countFrom : s.pos ≤ countFrom tokens start s := by
  unfold countFrom
  split <;> omega

/-- How far skipping has come from `s`: to `a`, with so many braces left open and no boundary on the
    way. -/
structure Skipping (tokens : List Token) (start : Nat) (s : Reader) (braces : Nat) (a : Reader) :
    Prop where
  moves : s.Moves tokens a
  headway : s.pos = start → s.atEnd tokens = false → s.pos < a.pos
  counted : LeavesOpen (stretch tokens (countFrom tokens start s) a.pos) braces
  first : ∀ b, Boundary tokens start s b → a.pos ≤ b.pos

namespace Skipping

variable {braces : Nat}

/-- The braces that count begin in front of `a`. -/
theorem countFrom_le (h : Skipping tokens start s braces a) : countFrom tokens start s ≤ a.pos := by
  obtain ⟨passed, hpassed⟩ := h.moves.passes
  have hpos := hpassed.pos
  unfold countFrom
  split
  · next hforced =>
    obtain ⟨hstart, hbrace⟩ := hforced
    have hgoes : s.atEnd tokens = false := by rw [atEnd, hbrace]; rfl
    exact h.headway hstart hgoes
  · omega

/-- Skipping goes on where no boundary is. -/
theorem step (h : Skipping tokens start s braces a) (hend : a.atEnd tokens = false)
    (hgo : ¬ (braces = 0 ∧ isBoundary (a.previous tokens) (a.peek tokens) = true)) :
    Skipping tokens start s (braceDepth braces (a.peek tokens)) (a.advance tokens) := by
  have ha := h.moves.sound
  have hlt := pos_lt_pos_advance hend
  refine ⟨h.moves.trans ha.moves_advance, fun hstart hgoes => ?_, ?_, fun b hb => ?_⟩
  · have hheadway := h.headway hstart hgoes
    omega
  · obtain ⟨comments, hcomments, hstretch⟩ := ha.exists_stretch_advance hend h.countFrom_le
    have hclose : braces = 0 → (a.peek tokens).kind.isPunctuation .rCurly = false := by
      intro hzero
      have hnone := eq_false_of_ne_true fun hstop => hgo ⟨hzero, hstop⟩
      have hbrace := (isBoundary_eq_false_iff.1 hnone).2.1
      simpa [TokenKind.isPunctuation] using hbrace
    have hopen := (h.counted.snoc hclose).append (.of_not_isBrace hcomments)
    rwa [List.append_assoc, List.singleton_append, ← hstretch] at hopen
  · have hle := h.first b hb
    have hne : b.pos ≠ a.pos := by
      intro hpos
      obtain rfl := h.moves.eq_of_pos_eq hb.moves hpos
      exact hgo ⟨h.counted.eq hb.balanced, isBoundary_iff.2 hb.stops⟩
    exact ha.pos_advance_le hb.moves.sound (by omega)

/-- Every closing brace that was skipped closes one that was. -/
theorem matched (h : Skipping tokens start s braces a) {i : Nat} {t : Token} (hfrom : s.pos ≤ i)
    (hlt : i < a.pos) (hget : tokens[i]? = some t) (hkind : t.kind = .punctuation .rCurly) :
    i = start ∧ s.pos = start ∨ ∃ j, s.pos ≤ j ∧ Closes tokens i j := by
  by_cases hcount : countFrom tokens start s ≤ i
  · obtain ⟨j, hj, hcloses⟩ := exists_closes h.counted hcount hlt hget hkind
    exact .inr ⟨j, Nat.le_trans le_countFrom hj, hcloses⟩
  · unfold countFrom at hcount
    split at hcount
    · next hforced => exact .inl ⟨by omega, hforced.1⟩
    · omega

/-- Skipping ends at a boundary or at the end of the text. -/
theorem synchronized (h : Skipping tokens start s braces a)
    (hstop : a.atEnd tokens = true ∨
      braces = 0 ∧ isBoundary (a.previous tokens) (a.peek tokens) = true) :
    Synchronized tokens start s a := by
  refine ⟨h.moves, fun i t => h.matched, ?_, h.first⟩
  obtain hend | ⟨rfl, hboundary⟩ := hstop
  · by_cases hself : Boundary tokens start s a
    · exact .inl hself
    · refine .inr ⟨hend, fun b hb => hself ?_⟩
      have hmoves := h.moves.of_le hb.moves (h.first b hb)
      have hpos := hmoves.pos_eq_of_atEnd h.moves.sound hend
      obtain rfl := h.moves.eq_of_pos_eq hb.moves hpos
      exact hb
  · exact .inl ⟨h.moves, h.headway, h.counted, isBoundary_iff.1 hboundary⟩

/-- Skipping stops at the first boundary outside of braces; the invariant carries the braces that
    are open. -/
theorem synchronized_skipToBoundary (h : Skipping tokens start s braces a) :
    Synchronized tokens start s (a.skipToBoundary tokens braces) := by
  fun_induction skipToBoundary tokens braces a with
  | case1 braces a hend => exact h.synchronized (.inl hend)
  | case2 braces a hend hboundary => exact h.synchronized (.inr hboundary)
  | case3 braces a hend hgo ih => exact ih (h.step (eq_false_of_ne_true hend) hgo)

/-- Nothing is skipped yet. -/
theorem initial (hs : s.Sound tokens) (hfree : s.pos = start → s.atEnd tokens = true) :
    Skipping tokens start s 0 s := by
  have hcount : countFrom tokens start s = s.pos := by
    unfold countFrom
    split
    · next hforced =>
      have hend := hfree hforced.1
      rw [atEnd, hforced.2] at hend
      cases hend
    · rfl
  refine ⟨.refl hs, fun hstart hgoes => ?_, ?_, fun b hb => ?_⟩
  · rw [hfree hstart] at hgoes
    cases hgoes
  · rw [hcount, stretch_self]
    exact .nil
  · obtain ⟨passed, hpassed⟩ := hb.moves.passes
    exact (hpassed.pos_le hs.pos_le).1

/-- The first token is skipped in any case. -/
theorem forced (hs : s.Sound tokens) (hend : s.atEnd tokens = false) :
    Skipping tokens s.pos s (braceDepth 0 (s.peek tokens)) (s.advance tokens) := by
  refine ⟨hs.moves_advance, fun _ _ => pos_lt_pos_advance hend, ?_, fun b hb => ?_⟩
  · obtain ⟨comments, hcomments, hstretch⟩ := hs.exists_stretch_advance hend (Nat.le_refl _)
    rw [stretch_self, List.nil_append] at hstretch
    have hbehind : LeavesOpen comments 0 := .of_not_isBrace hcomments
    by_cases hbrace : (s.peek tokens).kind = .punctuation .rCurly
    · have hrest : stretch tokens (s.pos + 1) (s.advance tokens).pos = comments := by
        have htail := congrArg List.tail hstretch
        rwa [stretch, List.tail_drop] at htail
      rwa [countFrom, if_pos ⟨rfl, hbrace⟩, hrest, braceDepth_of_rCurly hbrace]
    · have hfirst := (LeavesOpen.nil.snoc (t := s.peek tokens) fun _ => by
        simpa [TokenKind.isPunctuation] using hbrace).append hbehind
      rwa [countFrom, if_neg fun hforced => hbrace hforced.2, hstretch]
  · exact hs.pos_advance_le hb.moves.sound (hb.headway rfl hend)

end Skipping

/-- Skipping ends at the first boundary, whatever the list of tokens is. -/
theorem Sound.synchronized (hs : s.Sound tokens) (start : Nat) :
    Synchronized tokens start s (s.synchronize tokens start) := by
  unfold synchronize
  split
  · next hstuck =>
    subst hstuck
    cases hend : s.atEnd tokens with
    | true =>
      have hstart : Skipping tokens s.pos s 0 s := .initial hs fun _ => hend
      rw [advance_of_atEnd hend, skipToBoundary, dif_pos hend]
      exact hstart.synchronized (.inl hend)
    | false => exact (Skipping.forced hs hend).synchronized_skipToBoundary
  · next hmoved =>
    exact (Skipping.initial hs fun hstart => absurd hstart hmoved).synchronized_skipToBoundary

/-- An attempt ends where its statement does. If the statement fails, its error is recorded and
    reading goes on where skipping from there stops. -/
def Call.Recovers (tokens : List Token) (x : Call) : Prop :=
  ∃ (n : Nat) (p : FullPlan n (statement n)), x.entry.depth + n = maxNesting ∧
    match (p.run tokens x.entry).result with
    | .ok _ => x.exit = (p.run tokens x.entry).reader
    | .error e =>
      let failed := (p.run tokens x.entry).reader.record e
      x.exit = failed.synchronize tokens x.entry.pos ∧
        Synchronized tokens x.entry.pos failed x.exit

private theorem Sound.recovers_attempting {n : Nat} (p : FullPlan n (statement n))
    (hs : s.Sound tokens)
    (hdepth : s.depth + n = maxNesting) :
    Call.Recovers tokens ⟨true, s, (attempting tokens (p.run tokens) s).reader⟩ := by
  refine ⟨n, p, hdepth, ?_⟩
  cases hresult : (p.run tokens s).result with
  | ok a => simp only [attempting, hresult]
  | error e =>
    have hfollows := p.run_follows hs hdepth
    have hfailed : ((p.run tokens s).reader.record e).Sound tokens :=
      ⟨hfollows.sound.pos_le, hfollows.sound.rests, hfollows.sound.depth_le⟩
    simp only [attempting, hresult]
    exact ⟨trivial, hfailed.synchronized s.pos⟩

/-- Of other calls nothing is asked. -/
theorem recovers_of_attempt_false (s s' : Reader) (hattempt : (Call.mk false s s').attempt = true) :
    Call.Recovers tokens ⟨false, s, s'⟩ := by
  cases hattempt

/-- Every attempt in the run of a rule recovers. -/
theorem recovers_of_mem_calls {α : Type} {n : Nat} {r : Rule α} (p : FullPlan n r)
    (hs : s.Sound tokens) (hdepth : s.depth + n = maxNesting) :
    ∀ call ∈ (p.run tokens s).calls, call.attempt = true → call.Recovers tokens := by
  induction p generalizing s with
  | given hgiven => exact hgiven.elim
  | bind first rest ihfirst ihrest =>
    refine List.forall_mem_cons.2 ⟨recovers_of_attempt_false _ _, fun call hcall => ?_⟩
    have hfollows := first.run_follows hs hdepth
    obtain hcall | ⟨a, hcall⟩ := mem_calls_bind hcall
    · exact ihfirst hs hdepth call hcall
    · exact ihrest a hfollows.sound (by rw [hfollows.depth, hdepth]) call hcall
  | closeParenthesis =>
    rw [Plan.run]
    split <;> exact List.forall_mem_singleton.2 (recovers_of_attempt_false _ _)
  | @many n _ _ next? _ each ih =>
    refine List.forall_mem_cons.2 ⟨recovers_of_attempt_false _ _, ?_⟩
    refine forall_calls_repeating
      (fun b s' (hs' : s'.Sound tokens ∧ s'.depth + n = maxNesting) _ => ?_) ⟨hs, hdepth⟩
    obtain ⟨hsound, hlevel⟩ := hs'
    have hfollows := (each b).run_follows hsound hlevel
    exact ⟨⟨hfollows.sound, by rw [hfollows.depth, hlevel]⟩, ih b hsound hlevel⟩
  | @attempts n next? hloop attempt ih =>
    refine List.forall_mem_cons.2 ⟨recovers_of_attempt_false _ _, ?_⟩
    refine forall_calls_repeating
      (fun b s' (hs' : s'.Sound tokens ∧ s'.depth + n = maxNesting) hb => ?_) ⟨hs, hdepth⟩
    obtain ⟨hsound, hlevel⟩ := hs'
    have hfollows := Run.Follows.attempting hsound (atEnd_of_loop hloop hb)
      (kind_ne_rCurly_of_loop hloop hb hlevel) hlevel (attempt.run_follows hsound hlevel)
    refine ⟨⟨hfollows.sound, by rw [hfollows.depth, hlevel]⟩, ?_⟩
    refine List.forall_mem_cons.2 ⟨fun _ => hsound.recovers_attempting attempt hlevel, ?_⟩
    rw [calls_attempting]
    exact ih hsound hlevel
  | nested inner ih =>
    refine List.forall_mem_cons.2 ⟨recovers_of_attempt_false _ _, ?_⟩
    rw [calls_deeper _ (by omega)]
    exact ih ⟨hs.pos_le, hs.rests, by simp only; omega⟩ (by simp only; omega)
  | _ => exact List.forall_mem_singleton.2 (recovers_of_attempt_false _ _)

end Reader

open Reader in
/-- Reading a list of tokens is running the grammar on a reader, and each attempt at a statement in
    that run goes on, if the statement fails, at the first boundary behind it. From wherever a
    reader may stand, skipping stops at the first boundary. -/
theorem Parsed.synchronized_of_run (tokens : List Token) :
    let run := Plan.program.run tokens (initial tokens)
    (tokens ≠ [] → Parsed.ofTokens tokens = ⟨run.result.toOption, run.reader.errors⟩) ∧
      (∀ call ∈ run.calls, call.attempt = true → call.Recovers tokens) ∧
      ∀ (s : Reader) (start : Nat), s.Sound tokens →
        Synchronized tokens start s (s.synchronize tokens start) ∧
          (s.synchronize tokens start).cursor tokens =
            resume (s.pos == start) (s.cursor tokens) :=
  ⟨Parsed.ofTokens_eq_run,
    recovers_of_mem_calls Plan.program sound_initial (Nat.zero_add maxNesting),
    fun _ start hs => ⟨hs.synchronized start, hs.cursor_synchronize start⟩⟩

open Reader in
/-- A closing brace that nothing opened, and a block and a comment in front of the next
    statement. -/
theorem Parsed.synchronized_of_run_unopened :
    let tokens : List Token := List.map (⟨·, "", .empty .start⟩)
      [.punctuation .rCurly, .punctuation .rParen, .punctuation .lCurly, .identifier "a",
        .punctuation .semicolon, .punctuation .rCurly, .comment "c", .identifier "b",
        .punctuation .semicolon]
    let run := Plan.program.run tokens (initial tokens)
    let s := initial tokens
    tokens ≠ [] ∧ Parsed.ofTokens tokens = ⟨run.result.toOption, run.reader.errors⟩ ∧
      (∀ call ∈ run.calls, call.attempt = true → call.Recovers tokens) ∧ s.Sound tokens ∧
      Synchronized tokens 0 s (s.synchronize tokens 0) ∧ (s.synchronize tokens 0).pos = 7 := by
  intro tokens run s
  have hne : tokens ≠ [] := List.cons_ne_nil _ _
  have hsound : s.Sound tokens := sound_initial
  obtain ⟨hparsed, hcalls, hskips⟩ := Parsed.synchronized_of_run tokens
  exact ⟨hne, hparsed hne, hcalls, hsound, (hskips s 0 hsound).1, by decide +kernel⟩

end GeoLang
