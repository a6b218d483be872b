import GeoLang.Proofs.Reader.State
import GeoLang.Proofs.Reading.Composed

namespace GeoLang

open Grammar

variable {α β : Type}

namespace Reader

/-- A call of a rule, from the reader that it was entered with to the one that it was left with.
    Attempts are the calls that the loops of programs and blocks make, behind which reading goes on
    even if the statement fails. -/
structure Call where
  attempt : Bool
  entry : Reader
  exit : Reader
deriving DecidableEq, Repr

/-- What running a rule gives, with all calls that were made, its own among them. -/
structure Run (α : Type) where
  result : Except ParseError α
  reader : Reader
  calls : List Call

/-- A run that makes no other calls. -/
def Run.step (entry : Reader) (result : Except ParseError α) (exit : Reader) : Run α :=
  ⟨result, exit, [⟨false, entry, exit⟩]⟩

/-- A run with the call that it belongs to in front of its calls. -/
def Run.logged (attempt : Bool) (entry : Reader) (x : Run α) : Run α :=
  { x with calls := ⟨attempt, entry, x.reader⟩ :: x.calls }

/-- One run behind another; an error of the first is that of both. -/
def Run.bind (x : Run α) (f : α → Reader → Run β) : Run β :=
  match x.result with
  | .error e => ⟨.error e, x.reader, x.calls⟩
  | .ok a =>
    let y := f a x.reader
    ⟨y.result, y.reader, x.calls ++ y.calls⟩

variable (tokens : List Token)

/-- Runs `item` as long as `next?` finds something in the current token to run it on. A run behind
    which no fewer tokens are ahead is the last one. -/
def repeating (next? : Token → Option β) (item : β → Reader → Run α) (s : Reader) : Run (List α) :=
  match next? (s.peek tokens) with
  | none => ⟨.ok [], s, []⟩
  | some b =>
    let x := item b s
    match x.result with
    | .error e => ⟨.error e, x.reader, x.calls⟩
    | .ok a =>
      if tokens.length - x.reader.pos < tokens.length - s.pos then
        let y := repeating next? item x.reader
        ⟨y.result.map (a :: ·), y.reader, x.calls ++ y.calls⟩
      else ⟨.ok [a], x.reader, x.calls⟩
termination_by tokens.length - s.pos

/-- Runs `inner` one level deeper, unless all levels are entered already. -/
def deeper (inner : Reader → Run α) (s : Reader) : Run α :=
  if maxNesting ≤ s.depth then
    ⟨.error (.nestingTooDeep maxNesting (s.peek tokens).span), s, []⟩
  else
    let x := inner { s with depth := s.depth + 1 }
    { x with reader := { x.reader with depth := x.reader.depth - 1 } }

/-- Runs the rule of a statement; if it fails, records its error and skips to the next boundary. -/
def attempting (statement : Reader → Run Statement) (s : Reader) : Run (Option Statement) :=
  let x := statement s
  match x.result with
  | .ok a => ⟨.ok (some a), x.reader, x.calls⟩
  | .error e => ⟨.ok none, (x.reader.record e).synchronize tokens s.pos, x.calls⟩

end Reader

namespace Grammar

open Reader

/-- A plan that takes every rule apart. -/
abbrev FullPlan (n : Nat) (r : Rule α) : Type 1 := Plan (fun _ _ => False) n r

/-- Runs a rule by its plan. -/
def Plan.run (tokens : List Token) {n : Nat} {α : Type} {r : Rule α} :
    FullPlan n r → Reader → Run α
  | .given hgiven, _ => hgiven.elim
  | .pure a, s => .step s (.ok a) s
  | .bind first rest, s =>
    ((first.run tokens s).bind fun a s' => (rest a).run tokens s').logged false s
  | .peek, s => .step s (.ok (s.peek tokens)) s
  | .peekSecond, s => .step s (.ok (s.second tokens)) s
  | .atAssignment, s => .step s (.ok (assignsPath (s.ahead tokens))) s
  | .spanSince start, s => .step s (.ok (s.spanSince tokens start)) s
  | .advance, s => .step s (.ok ()) (s.advance tokens)
  | @Plan.note _ _ e _, s => .step s (.ok ()) (s.record e)
  | .unexpected x, s =>
    .step s (.error (.unexpectedToken x.text (s.peek tokens).describe (s.peek tokens).span)) s
  | .closeParenthesis, s =>
    if (s.peek tokens).kind.isPunctuation .rParen then
      .step s (.ok (s.peek tokens).span) (s.advance tokens)
    else .step s (.error (.missingClosingParenthesis (s.peek tokens).span)) s
  | @Plan.many _ _ _ _ next? _ each, s =>
    (repeating tokens next? (fun b s' => (each b).run tokens s') s).logged false s
  | @Plan.attempts _ _ next? _ attempt, s =>
    (repeating tokens next?
      (fun _ s' => (attempting tokens (attempt.run tokens) s').logged true s') s).logged false s
  | .nested inner, s => (deeper tokens (inner.run tokens) s).logged false s
  | .tooDeep, s => .step s (.error (.nestingTooDeep maxNesting (s.peek tokens).span)) s

end Grammar

namespace Reader

variable {tokens : List Token}

/-- What every call in a run keeps. An attempt does what the recovering rule says, and it is made
    where the text goes on; inside of a statement none is made in front of a closing brace. -/
structure Call.Follows (tokens : List Token) (x : Call) : Prop where
  entry : x.entry.Sound tokens
  exit : x.exit.Sound tokens
  passes : ∃ passed, x.entry.Passes tokens passed x.exit
  errors : x.entry.errors <+: x.exit.errors
  depth : x.exit.depth = x.entry.depth
  inside : x.attempt = true → x.entry.depth ≠ 0 → (x.entry.peek tokens).kind ≠ .punctuation .rCurly
  attempt : x.attempt = true → x.entry.atEnd tokens = false ∧
    ∃ n, x.entry.depth + n = maxNesting ∧
      x.exit.cursor tokens = (Grammar.recovering (statement n) (x.entry.cursor tokens)).cursor

/-- A run from `s` gives what the rule replies. -/
structure Run.Follows (tokens : List Token) (s : Reader) (x : Run α) (reply : Reply α) : Prop where
  result : x.result = reply.result
  cursor : x.reader.cursor tokens = reply.cursor
  errors : x.reader.errors = s.errors ++ reply.errors
  depth : x.reader.depth = s.depth
  sound : x.reader.Sound tokens
  passes : ∃ passed, s.Passes tokens passed x.reader
  calls : ∀ call ∈ x.calls, call.Follows tokens
  deep : ∀ call ∈ x.calls, s.depth ≤ call.entry.depth

/-- What holds of the calls of each round holds of all, if each round keeps what it starts with. -/
theorem forall_calls_repeating {next? : Token → Option β} {run : β → Reader → Run α}
    {inv : Reader → Prop} {good : Call → Prop}
    (hround : ∀ b s, inv s → next? (s.peek tokens) = some b →
      inv (run b s).reader ∧ ∀ call ∈ (run b s).calls, good call)
    {s : Reader} (hs : inv s) : ∀ call ∈ (repeating tokens next? run s).calls, good call := by
  fun_induction repeating tokens next? run s with
  | case1 => simp
  | case2 s b hnext => exact (hround b s hs hnext).2
  | case3 s b hnext x a hresult hfewer y ih =>
    obtain ⟨hend, hfirst⟩ := hround b s hs hnext
    exact List.forall_mem_append.2 ⟨hfirst, ih hend⟩
  | case4 s b hnext => exact (hround b s hs hnext).2

/-- The calls of the first round are among those of the loop. -/
theorem calls_subset_repeating {next? : Token → Option β} {run : β → Reader → Run α} {s : Reader}
    {b : β} (hnext : next? (s.peek tokens) = some b) :
    (run b s).calls ⊆ (repeating tokens next? run s).calls := by
  rw [repeating]
  simp only [hnext]
  split
  · exact List.Subset.refl _
  · split
    · exact List.subset_append_left _ _
    · exact List.Subset.refl _

/-- The calls of the first run are among those of both. -/
theorem calls_subset_bind (x : Run α) (f : α → Reader → Run β) : x.calls ⊆ (x.bind f).calls := by
  unfold Run.bind
  split
  · exact List.Subset.refl _
  · exact List.subset_append_left _ _

/-- Every call of two runs in turn is one of the first or one of the second. -/
theorem mem_calls_bind {x : Run α} {f : α → Reader → Run β} {call : Call}
    (hcall : call ∈ (x.bind f).calls) : call ∈ x.calls ∨ ∃ a, call ∈ (f a x.reader).calls := by
  cases hresult : x.result with
  | error e =>
    rw [Run.bind, hresult] at hcall
    exact .inl hcall
  | ok a =>
    rw [Run.bind, hresult] at hcall
    obtain hcall | hcall := List.mem_append.1 hcall
    · exact .inl hcall
    · exact .inr ⟨a, hcall⟩

/-- Recovery behind a failure makes no calls of its own. -/
theorem calls_attempting (run : Reader → Run Statement) (s : Reader) :
    (attempting tokens run s).calls = (run s).calls := by
  cases hresult : (run s).result <;> simp [attempting, hresult]

/-- Entering a level makes the calls of what stands inside of it. -/
theorem calls_deeper (inner : Reader → Run α) {s : Reader} (hdepth : s.depth < maxNesting) :
    (deeper tokens inner s).calls = (inner { s with depth := s.depth + 1 }).calls := by
  rw [deeper, if_neg (by omega)]

section

variable {n : Nat} {next? : Token → Option Unit} {s : Reader} {b : Unit}

/-- No loop takes a turn at the end of the text. -/
theorem atEnd_of_loop (hloop : Loop n next?) (hb : next? (s.peek tokens) = some b) :
    s.atEnd tokens = false := by
  cases hend : s.atEnd tokens with
  | false => rfl
  | true =>
    rw [hloop.eof _ (TokenKind.isEof_iff.1 hend)] at hb
    cases hb

/-- Inside of a level, no loop takes a turn in front of a closing brace. -/
theorem kind_ne_rCurly_of_loop (hloop : Loop n next?) (hb : next? (s.peek tokens) = some b)
    (hdepth : s.depth + n = maxNesting) (hentered : s.depth ≠ 0) :
    (s.peek tokens).kind ≠ .punctuation .rCurly := by
  intro hbrace
  rw [hloop.brace (by omega) _ hbrace] at hb
  cases hb

end

namespace Run.Follows

/-- A call follows its rule when its run does. -/
theorem logged {s : Reader} {x : Run α} {reply : Reply α} (hx : x.Follows tokens s reply)
    (hs : s.Sound tokens) : (x.logged false s).Follows tokens s reply := by
  obtain ⟨hresult, hcursor, herrors, hdepth, hsound, hpasses, hcalls, hdeep⟩ := hx
  have hself : Call.Follows tokens ⟨false, s, x.reader⟩ := by
    refine ⟨hs, hsound, hpasses, ?_, hdepth, nofun, nofun⟩
    rw [herrors]
    exact List.prefix_append _ _
  exact ⟨hresult, hcursor, herrors, hdepth, hsound, hpasses,
    List.forall_mem_cons.2 ⟨hself, hcalls⟩, List.forall_mem_cons.2 ⟨Nat.le_refl _, hdeep⟩⟩

/-- A run that makes no other calls and notes nothing. -/
theorem step {s s' : Reader} {result : Except ParseError α} {c : Cursor} (hs : s.Sound tokens)
    (hmoves : s.Moves tokens s') (hcursor : s'.cursor tokens = c) :
    (Run.step s result s').Follows tokens s ⟨result, c, []⟩ := by
  have hx : (⟨result, s', []⟩ : Run α).Follows tokens s ⟨result, c, []⟩ :=
    ⟨rfl, hcursor, by simp [hmoves.errors], hmoves.depth, hmoves.sound, hmoves.passes,
      by simp, by simp⟩
  exact hx.logged hs

/-- A run that stays where it is. -/
theorem stay {s : Reader} {result : Except ParseError α} (hs : s.Sound tokens) :
    (Run.step s result s).Follows tokens s ⟨result, s.cursor tokens, []⟩ :=
  step hs (.refl hs) rfl

/-- Runs in turn follow rules in turn. -/
theorem bind {r : Rule α} {f : α → Rule β} {s : Reader} {x : Run α} {g : α → Reader → Run β}
    (hx : x.Follows tokens s (r (s.cursor tokens)))
    (hg : ∀ a s', s'.Sound tokens → s'.depth = s.depth →
      (g a s').Follows tokens s' (f a (s'.cursor tokens))) :
    (x.bind g).Follows tokens s ((r >>= f) (s.cursor tokens)) := by
  cases hresult : (r (s.cursor tokens)).result with
  | error e =>
    have hrun : x.bind g = ⟨.error e, x.reader, x.calls⟩ := by
      rw [Run.bind, hx.result, hresult]
    rw [hrun, Rule.bind_apply_error hresult]
    exact ⟨rfl, hx.cursor, hx.errors, hx.depth, hx.sound, hx.passes, hx.calls, hx.deep⟩
  | ok a =>
    have hy := hg a x.reader hx.sound hx.depth
    rw [hx.cursor] at hy
    have hrun : x.bind g =
        ⟨(g a x.reader).result, (g a x.reader).reader, x.calls ++ (g a x.reader).calls⟩ := by
      rw [Run.bind, hx.result, hresult]
    obtain ⟨passed, hpassed⟩ := hx.passes
    obtain ⟨more, hmore⟩ := hy.passes
    rw [hrun, Rule.bind_apply_ok hresult]
    refine ⟨hy.result, hy.cursor, ?_, hy.depth.trans hx.depth, hy.sound,
      ⟨passed ++ more, hpassed.trans hmore⟩, ?_, ?_⟩
    · rw [hy.errors, hx.errors, List.append_assoc]
    · exact List.forall_mem_append.2 ⟨hx.calls, hy.calls⟩
    · refine List.forall_mem_append.2 ⟨hx.deep, fun call hcall => ?_⟩
      rw [← hx.depth]
      exact hy.deep call hcall

/-- One more level is entered and left again. -/
theorem deeper {r : Rule α} {s : Reader} {inner : Reader → Run α} (hs : s.Sound tokens)
    (hdepth : s.depth < maxNesting)
    (hinner : ∀ s', s'.Sound tokens → s'.depth = s.depth + 1 →
      (inner s').Follows tokens s' (r (s'.cursor tokens))) :
    (Reader.deeper tokens inner s).Follows tokens s (r (s.cursor tokens)) := by
  let entered : Reader := { s with depth := s.depth + 1 }
  have hentered : entered.Sound tokens := ⟨hs.pos_le, hs.rests, hdepth⟩
  have hx := hinner entered hentered rfl
  have hleft : (inner entered).reader.depth - 1 = s.depth := by
    rw [hx.depth]
    exact Nat.add_sub_cancel s.depth 1
  have hrun : Reader.deeper tokens inner s = { inner entered with
      reader := { (inner entered).reader with depth := (inner entered).reader.depth - 1 } } := by
    rw [Reader.deeper, if_neg (by omega)]
  obtain ⟨passed, hpassed⟩ := hx.passes
  rw [hrun]
  refine ⟨hx.result, hx.cursor, hx.errors, hleft, ⟨hx.sound.pos_le, hx.sound.rests, ?_⟩,
    ⟨passed, hpassed.pos, hpassed.ahead, hpassed.inside⟩, hx.calls, fun call hcall => ?_⟩
  · simp only [hleft]
    omega
  · have hcall := hx.deep call hcall
    exact Nat.le_of_succ_le hcall

/-- Fewer tokens are ahead of a reader if fewer are in sight of its cursor. -/
theorem fewer_iff {s : Reader} {x : Run α} {reply : Reply α} (hx : x.Follows tokens s reply)
    (hs : s.Sound tokens) :
    tokens.length - x.reader.pos < tokens.length - s.pos ↔
      reply.cursor.remaining < (s.cursor tokens).remaining := by
  obtain ⟨passed, hpassed⟩ := hx.passes
  have hpos := hpassed.pos_lt_iff hs
  have hbounds := hpassed.pos_le hs.pos_le
  rw [hx.cursor] at hpos
  rw [← hpos]
  omega

private theorem stays_iff {s : Reader} {x : Run α} {reply : Reply α} (hx : x.Follows tokens s reply)
    (hs : s.Sound tokens) :
    x.reader.pos = s.pos ↔ reply.cursor.remaining = (s.cursor tokens).remaining := by
  obtain ⟨passed, hpassed⟩ := hx.passes
  have hpos := hpassed.pos_lt_iff hs
  have hbounds := hpassed.pos_le hs.pos_le
  have hremaining := hpassed.reads.remaining_eq
  rw [hx.cursor] at hpos hremaining
  omega

/-- What is run again and again on a reader goes round as often as the rule does. -/
theorem repeating {next? : Token → Option β} {item : β → Rule α} {run : β → Reader → Run α}
    {depth : Nat}
    (hitem : ∀ b s, s.Sound tokens → s.depth = depth → next? (s.peek tokens) = some b →
      (run b s).Follows tokens s (item b (s.cursor tokens)))
    {s : Reader} (hs : s.Sound tokens) (hdepth : s.depth = depth) :
    (Reader.repeating tokens next? run s).Follows tokens s
      (many next? item (s.cursor tokens)) := by
  fun_induction Reader.repeating tokens next? run s with
  | case1 s hnext =>
    rw [many, peek_cursor, hnext]
    exact ⟨rfl, rfl, by simp, rfl, hs, ⟨[], .refl s⟩, by simp, by simp⟩
  | case2 s b hnext x e hresult =>
    have hx : x.Follows tokens s (item b (s.cursor tokens)) := hitem b s hs hdepth hnext
    have hreply := hx.result.symm.trans hresult
    rw [many, peek_cursor, hnext]
    simp only [hreply]
    exact ⟨rfl, hx.cursor, hx.errors, hx.depth, hx.sound, hx.passes, hx.calls, hx.deep⟩
  | case3 s b hnext x a hresult hfewer y ih =>
    have hx : x.Follows tokens s (item b (s.cursor tokens)) := hitem b s hs hdepth hnext
    have hreply := hx.result.symm.trans hresult
    have hy := ih hx.sound (hx.depth.trans hdepth)
    rw [hx.cursor] at hy
    obtain ⟨passed, hpassed⟩ := hx.passes
    obtain ⟨more, hmore⟩ := hy.passes
    rw [many, peek_cursor, hnext]
    simp only [hreply, if_pos ((hx.fewer_iff hs).1 hfewer)]
    refine ⟨by rw [hy.result], hy.cursor, ?_, hy.depth.trans hx.depth, hy.sound,
      ⟨passed ++ more, hpassed.trans hmore⟩, ?_, ?_⟩
    · rw [hy.errors, hx.errors, List.append_assoc]
    · exact List.forall_mem_append.2 ⟨hx.calls, hy.calls⟩
    · refine List.forall_mem_append.2 ⟨hx.deep, fun call hcall => ?_⟩
      rw [← hx.depth]
      exact hy.deep call hcall
  | case4 s b hnext x a hresult hfewer =>
    have hx : x.Follows tokens s (item b (s.cursor tokens)) := hitem b s hs hdepth hnext
    have hreply := hx.result.symm.trans hresult
    rw [many, peek_cursor, hnext]
    simp only [hreply, if_neg (mt (hx.fewer_iff hs).2 hfewer)]
    exact ⟨rfl, hx.cursor, hx.errors, hx.depth, hx.sound, hx.passes, hx.calls, hx.deep⟩

/-- An attempt records the error of a statement that fails and goes on at the next boundary. -/
theorem attempting {n : Nat} {s : Reader} {run : Reader → Run Statement} (hs : s.Sound tokens)
    (hend : s.atEnd tokens = false)
    (hinside : s.depth ≠ 0 → (s.peek tokens).kind ≠ .punctuation .rCurly)
    (hlevel : s.depth + n = maxNesting)
    (hx : (run s).Follows tokens s (statement n (s.cursor tokens))) :
    ((Reader.attempting tokens run s).logged true s).Follows tokens s
      (recovering (statement n) (s.cursor tokens)) := by
  suffices hrun : (Reader.attempting tokens run s).Follows tokens s
      (recovering (statement n) (s.cursor tokens)) by
    have hself : Call.Follows tokens ⟨true, s, (Reader.attempting tokens run s).reader⟩ := by
      refine ⟨hs, hrun.sound, hrun.passes, ?_, hrun.depth, fun _ => hinside,
        fun _ => ⟨hend, n, hlevel, hrun.cursor⟩⟩
      rw [hrun.errors]
      exact List.prefix_append _ _
    exact ⟨hrun.result, hrun.cursor, hrun.errors, hrun.depth, hrun.sound, hrun.passes,
      List.forall_mem_cons.2 ⟨hself, hrun.calls⟩,
      List.forall_mem_cons.2 ⟨Nat.le_refl _, hrun.deep⟩⟩
  unfold Reader.attempting recovering
  cases hresult : (statement n (s.cursor tokens)).result with
  | ok a =>
    simp only [hx.result, hresult]
    exact ⟨rfl, hx.cursor, hx.errors, hx.depth, hx.sound, hx.passes, hx.calls, hx.deep⟩
  | error e =>
    simp only [hx.result, hresult]
    let failed := (run s).reader.record e
    have hfailed : failed.Sound tokens := ⟨hx.sound.pos_le, hx.sound.rests, hx.sound.depth_le⟩
    have hmoves := hfailed.moves_synchronize s.pos
    obtain ⟨passed, hpassed⟩ := hx.passes
    obtain ⟨more, hmore⟩ := hmoves.passes
    have hskipped : (run s).reader.Passes tokens more (failed.synchronize tokens s.pos) :=
      ⟨hmore.pos, hmore.ahead, hmore.inside⟩
    have hstuck : (failed.pos == s.pos) =
        ((statement n (s.cursor tokens)).cursor.remaining == (s.cursor tokens).remaining) := by
      rw [Bool.eq_iff_iff, beq_iff_eq, beq_iff_eq]
      exact hx.stays_iff hs
    refine ⟨rfl, ?_, ?_, hmoves.depth.trans hx.depth, hmoves.sound,
      ⟨passed ++ more, hpassed.trans hskipped⟩, hx.calls, hx.deep⟩
    · rw [hfailed.cursor_synchronize, hstuck, ← hx.cursor]
      rfl
    · rw [hmoves.errors]
      change (run s).reader.errors ++ [e] = _
      rw [hx.errors, List.append_assoc]

end Run.Follows

end Reader

namespace Grammar

private theorem unexpected_apply {α : Type} (x : Expectation) (c : Cursor) :
    (unexpected x : Rule α) c =
      ⟨.error (.unexpectedToken x.text c.peek.describe c.peek.span), c, []⟩ := rfl

private theorem tooDeep_apply {α : Type} (c : Cursor) :
    (tooDeep : Rule α) c = ⟨.error (.nestingTooDeep maxNesting c.peek.span), c, []⟩ := rfl

private theorem closeParenthesis_apply (c : Cursor) :
    closeParenthesis c =
      if c.peek.kind.isPunctuation .rParen then ⟨.ok c.peek.span, c.advance, []⟩
      else ⟨.error (.missingClosingParenthesis c.peek.span), c, []⟩ := by
  by_cases hclose : c.peek.kind.isPunctuation .rParen = true
  · simp [closeParenthesis, bind, Rule.bind, pure, Rule.pure, peek, advance, hclose]
  · simp [closeParenthesis, bind, Rule.bind, peek, fail, hclose]

end Grammar

open Reader in
/-- Running a rule by its plan gives what the rule replies, wherever the reader stands. -/
theorem Grammar.Plan.run_follows {tokens : List Token} {n : Nat} {r : Rule α} (p : FullPlan n r)
    {s : Reader} (hs : s.Sound tokens) (hdepth : s.depth + n = maxNesting) :
    (p.run tokens s).Follows tokens s (r (s.cursor tokens)) := by
  induction p generalizing s with
  | given hgiven => exact hgiven.elim
  | pure a => exact .stay hs
  | bind first rest ihfirst ihrest =>
    refine .logged (.bind (ihfirst hs hdepth) ?_) hs
    intro a s' hs' hdepth'
    exact ihrest a hs' (by omega)
  | peek =>
    have hreply : Grammar.peek (s.cursor tokens) = ⟨.ok (s.peek tokens), s.cursor tokens, []⟩ := by
      rw [Grammar.peek, peek_cursor]
    rw [hreply]
    exact .stay hs
  | peekSecond =>
    have hreply : Grammar.peekSecond (s.cursor tokens) =
        ⟨.ok (s.second tokens), s.cursor tokens, []⟩ := by
      rw [Grammar.peekSecond, hs.second_cursor]
    rw [hreply]
    exact .stay hs
  | atAssignment =>
    have hreply : Grammar.atAssignment (s.cursor tokens) =
        ⟨.ok (assignsPath (s.ahead tokens)), s.cursor tokens, []⟩ := by
      rw [Grammar.atAssignment, assignsPath_cursor]
    rw [hreply]
    exact .stay hs
  | spanSince start => exact .stay hs
  | advance => exact .step hs hs.moves_advance hs.cursor_advance
  | @note n e hnote =>
    have hx : (⟨.ok (), s.record e, []⟩ : Run Unit).Follows tokens s
        (Grammar.note e (s.cursor tokens)) :=
      ⟨rfl, rfl, rfl, rfl, ⟨hs.pos_le, hs.rests, hs.depth_le⟩, ⟨[], rfl, rfl, by simp⟩, by simp,
        by simp⟩
    exact hx.logged hs
  | @unexpected n γ x =>
    have hreply := unexpected_apply (α := γ) x (s.cursor tokens)
    rw [peek_cursor] at hreply
    rw [hreply]
    exact .stay hs
  | closeParenthesis =>
    have hreply := closeParenthesis_apply (s.cursor tokens)
    rw [peek_cursor] at hreply
    rw [hreply, Plan.run]
    split
    · exact .step hs hs.moves_advance hs.cursor_advance
    · exact .stay hs
  | many each ih =>
    refine .logged (.repeating ?_ hs rfl) hs
    intro b s' hs' hdepth' _
    exact ih b hs' (by omega)
  | @attempts n next? hloop attempt ih =>
    refine .logged (.repeating ?_ hs rfl) hs
    intro b s' hs' hdepth' hb
    have hlevel : s'.depth + n = maxNesting := by omega
    exact .attempting hs' (atEnd_of_loop hloop hb) (kind_ne_rCurly_of_loop hloop hb hlevel) hlevel
      (ih hs' hlevel)
  | nested inner ih =>
    refine .logged (.deeper hs (by omega) ?_) hs
    intro s' hs' hdepth'
    exact ih hs' (by omega)
  | @tooDeep γ =>
    have hreply := tooDeep_apply (α := γ) (s.cursor tokens)
    rw [peek_cursor] at hreply
    rw [hreply]
    exact .stay hs

namespace Reader

variable {tokens : List Token}

/-- The attempts made inside of a statement are made further down. -/
theorem lt_depth_of_attempt {n : Nat} {s : Reader} (hs : s.Sound tokens)
    (hdepth : s.depth + n = maxNesting) {call : Call}
    (hcall : call ∈ ((Plan.parts n).statement.run tokens s).calls) (hattempt : call.attempt = true) :
    s.depth < call.entry.depth := by
  cases n with
  | zero =>
    obtain rfl := List.mem_singleton.1 hcall
    cases hattempt
  | succ n =>
    obtain rfl | hcall := List.mem_cons.1 hcall
    · cases hattempt
    · let entered : Reader := { s with depth := s.depth + 1 }
      let inner : FullPlan n (statement (n + 1)) :=
        .statementRule (.expression n) (Plan.parts n).conditional (Plan.parts n).block
      have hmem : call ∈ (inner.run tokens entered).calls := by
        change call ∈ (deeper tokens (inner.run tokens) s).calls at hcall
        rwa [calls_deeper _ (by omega)] at hcall
      have hentered : entered.Sound tokens := ⟨hs.pos_le, hs.rests, by simp only [entered]; omega⟩
      have hfollows := inner.run_follows hentered (by simp only [entered]; omega)
      exact hfollows.deep call hmem

end Reader

end GeoLang
