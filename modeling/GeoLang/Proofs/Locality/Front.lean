import GeoLang.Grammar.Program
import GeoLang.Proofs.Locality.Closed

namespace GeoLang.Grammar

/-- A token that begins or ends no block, no loop with a header and not the text. -/
structure Plain (t : Token) : Prop where
  lCurly : t.kind ≠ .punctuation .lCurly
  rCurly : t.kind ≠ .punctuation .rCurly
  forKw : t.kind ≠ .keyword .forKw
  eof : t.kind ≠ .eof

/-- The semicolon that a text ends in. -/
structure Terminator where
  token : Token
  kind_token : token.kind = .punctuation .semicolon

/-- A place in a plain text in front of the semicolon that it ends in. -/
structure Front where
  previous : Option Token
  rest : List Token
  plain : ∀ t ∈ rest, Plain t

/-- A place in a text that ends with one semicolon. -/
inductive Place where
  | front (f : Front)
  /-- Directly behind the semicolon. -/
  | behind

variable (stop : Terminator)

/-- The cursor there, given what stands behind the semicolon. -/
def Front.cursor (tail : Tail) (f : Front) : Cursor :=
  ⟨f.previous, f.rest ++ stop.token :: tail.rest, tail.eof⟩

/-- The cursor at a place, given what stands behind the semicolon. -/
def Place.cursor (tail : Tail) : Place → Cursor
  | front f => f.cursor stop tail
  | behind => ⟨some stop.token, tail.rest, tail.eof⟩

/-- How many tokens there are up to the end of the semicolon. -/
def Place.length : Place → Nat
  | front f => f.rest.length + 1
  | behind => 0

/-- The current token; the semicolon is in sight at the last. -/
def Front.peek (f : Front) : Token := f.rest.headD stop.token

/-- Whatever follows the semicolon, the rule does the same at `f`: it gives the same, notes the same
    and stops at the same place, which is behind the semicolon only if it may end the text. -/
def Rule.Runs {α : Type} (mayEnd : Bool) (r : Rule α) (f : Front) : Prop :=
  ∃ result, ∃ place : Place, ∃ es, (place = .behind → mayEnd = true) ∧
    ∀ tail, r (f.cursor stop tail) = ⟨result, place.cursor stop tail, es⟩

/-- A rule that consumes nothing and looks at nothing but the token consumed last. -/
def Rule.Idle {α : Type} (r : Rule α) : Prop :=
  ∀ previous, ∃ result es, ∀ rest eof,
    r ⟨previous, rest, eof⟩ = ⟨result, ⟨previous, rest, eof⟩, es⟩

variable {stop}
variable {α β : Type} {mayEnd : Bool} {f g : Front}

/-- What remains is what is left of the text and what stands behind it. -/
theorem Place.remaining_cursor (place : Place) (tail : Tail) :
    (place.cursor stop tail).remaining = place.length + tail.rest.length := by
  cases place with
  | front f =>
    simp only [cursor, Front.cursor, Cursor.remaining, List.length_append, List.length_cons, length]
    omega
  | behind => exact (Nat.zero_add _).symm

namespace Front

theorem peek_cursor (tail : Tail) : (f.cursor stop tail).peek = f.peek stop := by
  unfold cursor peek Cursor.peek
  cases f.rest with
  | nil => rfl
  | cons t ts => rfl

/-- At every place in front of the semicolon there is a token that is plain. -/
theorem plain_peek : Plain (f.peek stop) := by
  cases hrest : f.rest with
  | nil =>
    have hpeek : f.peek stop = stop.token := by rw [peek, hrest, List.headD_nil]
    rw [hpeek]
    constructor <;> simp [stop.kind_token]
  | cons t ts =>
    have hpeek : f.peek stop = t := by rw [peek, hrest, List.headD_cons]
    rw [hpeek]
    exact f.plain t (by rw [hrest]; exact List.mem_cons_self)

private theorem exists_rest_eq_cons (hpeek : (f.peek stop).kind ≠ .punctuation .semicolon) :
    ∃ ts, f.rest = f.peek stop :: ts := by
  cases hrest : f.rest with
  | nil =>
    have hstop : f.peek stop = stop.token := by rw [peek, hrest, List.headD_nil]
    rw [hstop] at hpeek
    exact absurd stop.kind_token hpeek
  | cons t ts => exact ⟨ts, by rw [peek, hrest, List.headD_cons]⟩

private theorem exists_advance (hpeek : (f.peek stop).kind ≠ .punctuation .semicolon) :
    ∃ g : Front, ∀ tail, (f.cursor stop tail).advance = g.cursor stop tail := by
  obtain ⟨ts, hrest⟩ := exists_rest_eq_cons hpeek
  have hplain : ∀ t ∈ ts, Plain t := fun t ht =>
    f.plain t (by rw [hrest]; exact List.mem_cons_of_mem _ ht)
  refine ⟨⟨some (f.peek stop), ts, hplain⟩, fun tail => ?_⟩
  simp only [cursor, hrest, List.cons_append, Cursor.advance]

private theorem ahead_cursor (f : Front) : (f.cursor stop ⟨[], .eofAt .start⟩).Ahead where
  eof := rfl
  inside := by
    intro t ht
    obtain ht | ht := List.mem_append.1 ht
    · exact (f.plain t ht).eof
    · obtain rfl := List.mem_singleton.1 ht
      rw [stop.kind_token]
      exact TokenKind.noConfusion
  last := by
    intro t ht
    obtain rfl : stop.token = t := by simpa [cursor] using ht
    rw [stop.kind_token]
    rfl
  ne_nil := List.append_ne_nil_of_right_ne_nil _ (List.cons_ne_nil _ _)

end Front

namespace Rule.Idle

theorem pure (a : α) : (pure a : Rule α).Idle := fun _ => ⟨.ok a, [], fun _ _ => rfl⟩

theorem spanSince_bind {start : Span} {h : Span → Rule β} (hrest : ∀ s, (h s).Idle) :
    (Grammar.spanSince start >>= h).Idle := by
  intro previous
  cases previous with
  | none =>
    obtain ⟨result, es, hrun⟩ := hrest start none
    exact ⟨result, es, hrun⟩
  | some t =>
    obtain ⟨result, es, hrun⟩ := hrest
      (if start.start.offset ≤ t.span.stop.offset then start.merge t.span else start) (some t)
    exact ⟨result, es, hrun⟩

private theorem at_place {r : Rule α} (hr : r.Idle) (stop : Terminator) (place : Place) :
    ∃ result es, ∀ tail, r (place.cursor stop tail) = ⟨result, place.cursor stop tail, es⟩ := by
  cases place with
  | front f =>
    obtain ⟨result, es, hrun⟩ := hr f.previous
    exact ⟨result, es, fun _ => hrun _ _⟩
  | behind =>
    obtain ⟨result, es, hrun⟩ := hr (some stop.token)
    exact ⟨result, es, fun _ => hrun _ _⟩

end Rule.Idle

namespace Rule.Runs

/-- A rule runs where its reply is the same for every tail. -/
theorem of_reply {r : Rule α} {result : Except ParseError α} {es : List ParseError}
    (hreply : ∀ tail, r (f.cursor stop tail) = ⟨result, f.cursor stop tail, es⟩) :
    r.Runs stop mayEnd f := ⟨result, .front f, es, by simp, hreply⟩

theorem pure (a : α) : (pure a : Rule α).Runs stop mayEnd f := of_reply fun _ => rfl

/-- A rule that does not reach the end of a text that is closed stops in front of the semicolon. -/
theorem of_stays {r : Rule α} (hr : Composed r) (hstays : ∀ c : Cursor, c.Ahead → r.Stays c)
    (f : Front) : r.Runs stop mayEnd f := by
  let c : Cursor := f.cursor stop ⟨[], .eofAt .start⟩
  obtain ⟨hahead, hfollowed⟩ := hstays c f.ahead_cursor
  obtain ⟨used, hreads⟩ := hr.exists_reads c
  let ts := (r c).cursor.rest.dropLast
  have hrest : ts ++ [(r c).cursor.rest.getLast hahead.ne_nil] = (r c).cursor.rest :=
    List.dropLast_concat_getLast hahead.ne_nil
  have hsplit : f.rest ++ [stop.token] =
      used ++ ts ++ [(r c).cursor.rest.getLast hahead.ne_nil] := by
    rw [List.append_assoc, hrest]
    exact hreads.rest
  -- What is left ends with the semicolon, since the rule has not consumed it.
  obtain ⟨hfront, hstop⟩ := List.append_inj' hsplit rfl
  have hplain : ∀ t ∈ ts, Plain t := fun t ht =>
    f.plain t (by rw [hfront]; exact List.mem_append_right used ht)
  refine ⟨(r c).result, .front ⟨(r c).cursor.previous, ts, hplain⟩, (r c).errors, by simp,
    fun tail => ?_⟩
  have hcursor : f.cursor stop tail = c.followedBy tail := by
    simp [c, Front.cursor, Cursor.followedBy]
  rw [hcursor, hfollowed, Reply.followedBy, Cursor.followedBy, ← hrest, ← hstop]
  simp [Place.cursor, Front.cursor]

/-- A look at the current token never reaches behind the semicolon. -/
theorem peek_bind {h : Token → Rule β} (hrest : (h (f.peek stop)).Runs stop mayEnd f) :
    (Grammar.peek >>= h).Runs stop mayEnd f := by
  obtain ⟨result, place, es, hplace, hrun⟩ := hrest
  refine ⟨result, place, es, hplace, fun tail => ?_⟩
  rw [← hrun tail, ← Front.peek_cursor tail]
  rfl

theorem unexpected (x : Expectation) : (Grammar.unexpected x : Rule α).Runs stop mayEnd f :=
  of_stays (.unexpected x) (fun _ hc => .unexpected hc x) f

theorem tooDeep : (Grammar.tooDeep : Rule α).Runs stop mayEnd f :=
  of_stays .tooDeep (fun _ hc => .tooDeep hc) f

/-- Any token but a semicolon may be consumed. -/
theorem advance_bind {h : Unit → Rule β} (hpeek : (f.peek stop).kind ≠ .punctuation .semicolon)
    (hrest : ∀ g, (h ()).Runs stop mayEnd g) : (advance >>= h).Runs stop mayEnd f := by
  obtain ⟨g, hadvance⟩ := Front.exists_advance hpeek
  obtain ⟨result, place, es, hplace, hrun⟩ := hrest g
  refine ⟨result, place, es, hplace, fun tail => ?_⟩
  rw [← hrun tail, ← hadvance tail]
  rfl

/-- What comes behind a part of a rule may look on if that part has not ended the text. -/
theorem bind {r : Rule α} {h : α → Rule β} (hr : r.Runs stop false f)
    (hrest : ∀ a g, (h a).Runs stop mayEnd g) : (r >>= h).Runs stop mayEnd f := by
  obtain ⟨result, place, es, hplace, hrun⟩ := hr
  cases place with
  | behind => cases hplace rfl
  | front g =>
    cases result with
    | error e =>
      refine ⟨.error e, .front g, es, by simp, fun tail => ?_⟩
      rw [Rule.bind_apply_error (by rw [hrun]), hrun]
    | ok a =>
      obtain ⟨result, place, fs, hplace, hrun'⟩ := hrest a g
      refine ⟨result, place, es ++ fs, hplace, fun tail => ?_⟩
      rw [Rule.bind_apply_ok (by rw [hrun]), hrun]
      simp only [Place.cursor, hrun']

/-- If that part has ended the text, it may still look back. -/
theorem bind_idle {r : Rule α} {h : α → Rule β} (hr : r.Runs stop mayEnd f)
    (hrest : ∀ a, (h a).Idle) : (r >>= h).Runs stop mayEnd f := by
  obtain ⟨result, place, es, hplace, hrun⟩ := hr
  cases result with
  | error e =>
    refine ⟨.error e, place, es, hplace, fun tail => ?_⟩
    rw [Rule.bind_apply_error (by rw [hrun]), hrun]
  | ok a =>
    obtain ⟨result, fs, hidle⟩ := (hrest a).at_place stop place
    refine ⟨result, place, es ++ fs, hplace, fun tail => ?_⟩
    rw [Rule.bind_apply_ok (by rw [hrun]), hrun]
    simp only [hidle]

theorem spanSince_bind {start : Span} {h : Span → Rule β}
    (hrest : ∀ s, (h s).Runs stop mayEnd f) :
    (Grammar.spanSince start >>= h).Runs stop mayEnd f := by
  let span : Span := Cursor.spanSince ⟨f.previous, [], stop.token⟩ start
  obtain ⟨result, place, es, hplace, hrun⟩ := hrest span
  exact ⟨result, place, es, hplace, hrun⟩

end Rule.Runs

open Rule (Runs)

/-- A semicolon may be the last one. -/
theorem runs_advance (f : Front) : advance.Runs stop true f := by
  cases hrest : f.rest with
  | nil =>
    refine ⟨.ok (), .behind, [], fun _ => rfl, fun tail => ?_⟩
    simp only [advance, Front.cursor, hrest, List.nil_append, Cursor.advance, Place.cursor]
  | cons t ts =>
    have hplain : ∀ u ∈ ts, Plain u := fun u hu =>
      f.plain u (by rw [hrest]; exact List.mem_cons_of_mem _ hu)
    refine ⟨.ok (), .front ⟨some t, ts, hplain⟩, [], by simp, fun tail => ?_⟩
    simp only [advance, Front.cursor, hrest, List.cons_append, Cursor.advance, Place.cursor]

/-- The semicolon at the end of a statement. -/
theorem runs_terminator (x : Expectation) (f : Front) :
    (mark .semicolon x).Runs stop true f := by
  refine Runs.peek_bind ?_
  split
  · exact .bind_idle (runs_advance f) fun _ => .pure _
  · exact .unexpected x

end GeoLang.Grammar
