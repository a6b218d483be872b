import GeoLang.Proofs.Reader.Run

namespace GeoLang

open Grammar

variable {α β : Type}

namespace Reader

/-- The reader with its index moved to the numbering of another list of tokens. -/
def renumber (index : Nat → Nat) (s : Reader) : Reader := { s with pos := index s.pos }

/-- A call, with both of its readers moved. -/
def Call.renumber (index : Nat → Nat) (x : Call) : Call :=
  ⟨x.attempt, x.entry.renumber index, x.exit.renumber index⟩

/-- A run, with its readers and those of all its calls moved. -/
def Run.renumber (index : Nat → Nat) (x : Run α) : Run α :=
  ⟨x.result, x.reader.renumber index, x.calls.map (Call.renumber index)⟩

/-- A reader of `tokens` at an index that is `inside` and the reader of `tokens'` at the matching
    index have the same in front of them and behind them, and so it stays when both advance. -/
structure Renumbers (tokens tokens' : List Token) (inside : Nat → Prop) (index : Nat → Nat) :
    Prop where
  le_length : ∀ {i}, inside i → i ≤ tokens.length
  index_le_length : ∀ {i}, inside i → index i ≤ tokens'.length
  index_lt_iff : ∀ {i j}, inside i → inside j → (index i < index j ↔ i < j)
  peek : ∀ {s : Reader}, inside s.pos → (s.renumber index).peek tokens' = s.peek tokens
  second : ∀ {s : Reader}, inside s.pos → (s.renumber index).second tokens' = s.second tokens
  assignsPath : ∀ {s : Reader}, inside s.pos →
    assignsPath ((s.renumber index).ahead tokens') = assignsPath (s.ahead tokens)
  previous : ∀ {s : Reader}, inside s.pos →
    (s.renumber index).previous tokens' = s.previous tokens
  inside_advance : ∀ {s : Reader}, inside s.pos → inside (s.advance tokens).pos
  advance : ∀ {s : Reader}, inside s.pos →
    (s.renumber index).advance tokens' = (s.advance tokens).renumber index

/-- `y` is the run `x` at the matching indices, and `x` stays inside. -/
structure Run.Matches (inside : Nat → Prop) (index : Nat → Nat) (x y : Run α) : Prop where
  eq : y = x.renumber index
  stays : inside x.reader.pos
  calls : ∀ call ∈ x.calls, inside call.entry.pos ∧ inside call.exit.pos

namespace Run.Matches

variable {inside : Nat → Prop} {index : Nat → Nat}

/-- Matching runs stay so with the call itself in front of their calls. -/
theorem logged {attempt : Bool} {s : Reader} {x y : Run α} (hs : inside s.pos)
    (hx : x.Matches inside index y) :
    (x.logged attempt s).Matches inside index (y.logged attempt (s.renumber index)) where
  eq := by
    rw [hx.eq]
    rfl
  stays := hx.stays
  calls := List.forall_mem_cons.2 ⟨⟨hs, hx.stays⟩, hx.calls⟩

/-- A single step matches when it begins and ends inside the numbering. -/
theorem step {s s' : Reader} (result : Except ParseError α) (hs : inside s.pos)
    (hs' : inside s'.pos) :
    (Run.step s result s').Matches inside index
      (Run.step (s.renumber index) result (s'.renumber index)) where
  eq := rfl
  stays := hs'
  calls := List.forall_mem_singleton.2 ⟨hs, hs'⟩

/-- Runs in turn match when the first ones do and the second ones do behind any result. -/
theorem bind {x y : Run α} {f g : α → Reader → Run β} (hx : x.Matches inside index y)
    (hf : ∀ a s, inside s.pos → (f a s).Matches inside index (g a (s.renumber index))) :
    (x.bind f).Matches inside index (y.bind g) := by
  obtain rfl := hx.eq
  cases hresult : x.result with
  | error e =>
    have hbind : x.bind f = ⟨.error e, x.reader, x.calls⟩ := by rw [Run.bind, hresult]
    have hbind' : (x.renumber index).bind g =
        ⟨.error e, x.reader.renumber index, x.calls.map (Call.renumber index)⟩ := by
      rw [Run.bind, Run.renumber, hresult]
    rw [hbind, hbind']
    exact ⟨rfl, hx.stays, hx.calls⟩
  | ok a =>
    have hy := hf a x.reader hx.stays
    have hbind : x.bind f = ⟨(f a x.reader).result, (f a x.reader).reader,
        x.calls ++ (f a x.reader).calls⟩ := by
      rw [Run.bind, hresult]
    have hbind' : (x.renumber index).bind g =
        ⟨(g a (x.reader.renumber index)).result, (g a (x.reader.renumber index)).reader,
          x.calls.map (Call.renumber index) ++ (g a (x.reader.renumber index)).calls⟩ := by
      rw [Run.bind, Run.renumber, hresult]
    rw [hbind, hbind', hy.eq]
    refine ⟨?_, hy.stays, List.forall_mem_append.2 ⟨hx.calls, hy.calls⟩⟩
    simp only [Run.renumber, List.map_append]

end Run.Matches

namespace Renumbers

variable {tokens tokens' : List Token} {inside : Nat → Prop} {index : Nat → Nat}

/-- The end of the text is where it was. -/
theorem atEnd (h : Renumbers tokens tokens' inside index) {s : Reader} (hs : inside s.pos) :
    (s.renumber index).atEnd tokens' = s.atEnd tokens := by
  rw [Reader.atEnd, h.peek hs, Reader.atEnd]

/-- Spans do not depend on the numbering. -/
theorem spanSince (h : Renumbers tokens tokens' inside index) {s : Reader} (hs : inside s.pos)
    (start : Span) : (s.renumber index).spanSince tokens' start = s.spanSince tokens start := by
  rw [Reader.spanSince, h.previous hs, Reader.spanSince]

private theorem index_eq_iff (h : Renumbers tokens tokens' inside index) {i j : Nat} (hi : inside i)
    (hj : inside j) : index i = index j ↔ i = j := by
  have hlt := h.index_lt_iff hi hj
  have hgt := h.index_lt_iff hj hi
  omega

/-- Skipping rests at the same token, under its new index. -/
theorem skipToBoundary (h : Renumbers tokens tokens' inside index) (braces : Nat) {s : Reader}
    (hs : inside s.pos) :
    inside (s.skipToBoundary tokens braces).pos ∧
      (s.renumber index).skipToBoundary tokens' braces =
        (s.skipToBoundary tokens braces).renumber index := by
  fun_induction Reader.skipToBoundary tokens braces s with
  | case1 braces s hend =>
    refine ⟨hs, ?_⟩
    rw [Reader.skipToBoundary, dif_pos ((h.atEnd hs).trans hend)]
  | case2 braces s hend hboundary =>
    refine ⟨hs, ?_⟩
    rw [Reader.skipToBoundary, dif_neg (by rwa [h.atEnd hs]), h.previous hs, h.peek hs,
      if_pos hboundary]
  | case3 braces s hend hboundary ih =>
    obtain ⟨hinside, hskip⟩ := ih (h.inside_advance hs)
    refine ⟨hinside, ?_⟩
    rw [Reader.skipToBoundary, dif_neg (by rwa [h.atEnd hs]), h.previous hs, h.peek hs,
      if_neg hboundary, h.advance hs]
    exact hskip

/-- So does recovery. -/
theorem synchronize (h : Renumbers tokens tokens' inside index) {start : Nat} (hstart : inside start)
    {s : Reader} (hs : inside s.pos) :
    inside (s.synchronize tokens start).pos ∧
      (s.renumber index).synchronize tokens' (index start) =
        (s.synchronize tokens start).renumber index := by
  have hstays : (s.renumber index).pos = index start ↔ s.pos = start := h.index_eq_iff hs hstart
  unfold Reader.synchronize
  by_cases hstuck : s.pos = start
  · rw [if_pos hstuck, if_pos (hstays.2 hstuck), h.peek hs, h.advance hs]
    exact h.skipToBoundary _ (h.inside_advance hs)
  · rw [if_neg hstuck, if_neg (mt hstays.1 hstuck)]
    exact h.skipToBoundary 0 hs

/-- Loops of matching turns match, by induction on the tokens that remain. -/
theorem repeating (h : Renumbers tokens tokens' inside index) {next? : Token → Option β}
    {run run' : β → Reader → Run α}
    (hrun : ∀ b s, inside s.pos → (run b s).Matches inside index (run' b (s.renumber index)))
    {s : Reader} (hs : inside s.pos) :
    (Reader.repeating tokens next? run s).Matches inside index
      (Reader.repeating tokens' next? run' (s.renumber index)) := by
  fun_induction Reader.repeating tokens next? run s with
  | case1 s hnext =>
    rw [Reader.repeating, h.peek hs, hnext]
    exact ⟨rfl, hs, by simp⟩
  | case2 s b hnext x e hresult =>
    have hx : x.Matches inside index (run' b (s.renumber index)) := hrun b s hs
    rw [Reader.repeating, h.peek hs, hnext]
    simp only [hx.eq, Run.renumber, hresult]
    exact ⟨rfl, hx.stays, hx.calls⟩
  | case3 s b hnext x a hresult hfewer y ih =>
    have hx : x.Matches inside index (run' b (s.renumber index)) := hrun b s hs
    have hy : y.Matches inside index _ := ih hx.stays
    have hlt := h.index_lt_iff hs hx.stays
    have hbound := h.index_le_length hx.stays
    have hfewer' : tokens'.length - (x.reader.renumber index).pos <
        tokens'.length - (s.renumber index).pos := by
      simp only [Reader.renumber]
      omega
    rw [Reader.repeating, h.peek hs, hnext]
    simp only [hx.eq, Run.renumber, hresult, if_pos hfewer', hy.eq]
    refine ⟨?_, hy.stays, List.forall_mem_append.2 ⟨hx.calls, hy.calls⟩⟩
    simp only [Run.renumber, List.map_append]
  | case4 s b hnext x a hresult hfewer =>
    have hx : x.Matches inside index (run' b (s.renumber index)) := hrun b s hs
    have hlt := h.index_lt_iff hs hx.stays
    have hbound := h.le_length hx.stays
    have hfewer' : ¬ tokens'.length - (x.reader.renumber index).pos <
        tokens'.length - (s.renumber index).pos := by
      simp only [Reader.renumber]
      omega
    rw [Reader.repeating, h.peek hs, hnext]
    simp only [hx.eq, Run.renumber, hresult, if_neg hfewer']
    exact ⟨rfl, hx.stays, hx.calls⟩

/-- Entering a level matches, and so does refusing to. -/
theorem deeper (h : Renumbers tokens tokens' inside index) {run run' : Reader → Run α}
    (hrun : ∀ s, inside s.pos → (run s).Matches inside index (run' (s.renumber index)))
    {s : Reader} (hs : inside s.pos) :
    (Reader.deeper tokens run s).Matches inside index
      (Reader.deeper tokens' run' (s.renumber index)) := by
  have hdepth : (s.renumber index).depth = s.depth := rfl
  unfold Reader.deeper
  rw [hdepth, h.peek hs]
  split
  · exact ⟨rfl, hs, by simp⟩
  · have hx := hrun { s with depth := s.depth + 1 } hs
    have hinner : run' { s.renumber index with depth := s.depth + 1 } =
        (run { s with depth := s.depth + 1 }).renumber index := hx.eq
    refine ⟨?_, hx.stays, hx.calls⟩
    simp only [hinner]
    rfl

/-- Attempts match; where one fails, so does the recovery behind it. -/
theorem attempting (h : Renumbers tokens tokens' inside index) {run run' : Reader → Run Statement}
    (hrun : ∀ s, inside s.pos → (run s).Matches inside index (run' (s.renumber index)))
    {s : Reader} (hs : inside s.pos) :
    (Reader.attempting tokens run s).Matches inside index
      (Reader.attempting tokens' run' (s.renumber index)) := by
  have hx := hrun s hs
  unfold Reader.attempting
  cases hresult : (run s).result with
  | ok a =>
    simp only [hx.eq, Run.renumber, hresult]
    exact ⟨rfl, hx.stays, hx.calls⟩
  | error e =>
    have hskipped := h.synchronize hs (s := (run s).reader.record e) hx.stays
    have hrecord : ((run s).reader.renumber index).record e =
        ((run s).reader.record e).renumber index := rfl
    simp only [hx.eq, Run.renumber, hresult, hrecord]
    refine ⟨?_, hskipped.1, hx.calls⟩
    simp only [Run.renumber]
    rw [← hskipped.2]
    rfl

end Renumbers

end Reader

open Reader in
/-- Running a rule gives the same at matching indices, and makes the same calls there. -/
theorem Grammar.Plan.run_matches {tokens tokens' : List Token} {inside : Nat → Prop}
    {index : Nat → Nat} (h : Renumbers tokens tokens' inside index) {n : Nat} {r : Rule α}
    (p : FullPlan n r) {s : Reader} (hs : inside s.pos) :
    (p.run tokens s).Matches inside index (p.run tokens' (s.renumber index)) := by
  induction p generalizing s with
  | given hgiven => exact hgiven.elim
  | pure a => exact .step _ hs hs
  | bind first rest ihfirst ihrest =>
    exact .logged hs (.bind (ihfirst hs) fun a s' hs' => ihrest a hs')
  | peek =>
    simp only [Plan.run, h.peek hs]
    exact .step _ hs hs
  | peekSecond =>
    simp only [Plan.run, h.second hs]
    exact .step _ hs hs
  | atAssignment =>
    simp only [Plan.run, h.assignsPath hs]
    exact .step _ hs hs
  | spanSince start =>
    simp only [Plan.run, h.spanSince hs]
    exact .step _ hs hs
  | advance =>
    simp only [Plan.run, h.advance hs]
    exact .step _ hs (h.inside_advance hs)
  | @note n e hnote =>
    have hrecord : (s.record e).pos = s.pos := rfl
    exact .step _ hs (hrecord ▸ hs)
  | unexpected x =>
    simp only [Plan.run, h.peek hs]
    exact .step _ hs hs
  | closeParenthesis =>
    simp only [Plan.run, h.peek hs, h.advance hs]
    split
    · exact .step _ hs (h.inside_advance hs)
    · exact .step _ hs hs
  | many each ih => exact .logged hs (h.repeating (fun b _ hs' => ih b hs') hs)
  | attempts hloop attempt ih =>
    exact .logged hs (h.repeating
      (fun _ _ hs' => .logged hs' (h.attempting (fun _ hs'' => ih hs'') hs')) hs)
  | nested inner ih => exact .logged hs (h.deeper (fun _ hs' => ih hs') hs)
  | tooDeep =>
    simp only [Plan.run, h.peek hs]
    exact .step _ hs hs

end GeoLang
