import GeoLang.Proofs.Layout.Expression
import GeoLang.Proofs.Reading.Composed

namespace GeoLang

namespace Span

/-- `a` begins nowhere behind `b`, and ends nowhere behind it. -/
def NoLater (a b : Span) : Prop :=
  a.start.offset ≤ b.start.offset ∧ a.stop.offset ≤ b.stop.offset

/-- A span is no later than itself. -/
theorem NoLater.refl (a : Span) : a.NoLater a := ⟨Nat.le_refl _, Nat.le_refl _⟩

theorem NoLater.trans {a b c : Span} (hfirst : a.NoLater b) (hsecond : b.NoLater c) :
    a.NoLater c :=
  ⟨Nat.le_trans hfirst.1 hsecond.1, Nat.le_trans hfirst.2 hsecond.2⟩

end Span

namespace ParseError

/-- The error reports the number of arguments of a call. -/
def CountsArguments : ParseError → Prop
  | argumentCount _ _ _ _ => True
  | _ => False

/-- How `e` stands to an error `f` that is noted later. Arguments are counted when the call is
    complete, so the error of a call comes behind those of the calls inside of it. -/
def ListedBefore (e f : ParseError) : Prop :=
  ∃ s ∈ e.span?, ∃ t ∈ f.span?,
    s.NoLater t ∨ s.Inside t ∧ e.CountsArguments ∧ f.CountsArguments

end ParseError

namespace Grammar

variable {α β : Type}

namespace Cursor

/-- The tokens to come stand in the order of the text, and the end of the text behind them all. -/
structure Ordered (c : Cursor) : Prop extends c.InOrder where
  eof_forward : c.eof.span.start.offset ≤ c.eof.span.stop.offset
  eof_behind : ∀ t ∈ c.rest, t.span.stop.offset ≤ c.eof.span.start.offset

variable {c d : Cursor} {used : List Token}

/-- Reading keeps the order of what is ahead. -/
theorem Ordered.of_reads (hc : c.Ordered) (hreads : c.Reads used d) : d.Ordered where
  toInOrder := hc.toInOrder.of_reads hreads
  eof_forward := hreads.eof ▸ hc.eof_forward
  eof_behind t ht := by
    rw [hreads.eof]
    exact hc.eof_behind t (hreads.subset ht)

/-- A token that is read stands in front of the one that is current then. -/
theorem Ordered.stop_le_peek (hc : c.Ordered) (hreads : c.Reads used d) {t : Token} (ht : t ∈ used) :
    t.span.stop.offset ≤ d.peek.span.start.offset := by
  have hmem : t ∈ c.rest := hreads.rest ▸ List.mem_append_left d.rest ht
  cases hrest : d.rest with
  | nil =>
    have hpeek : d.peek = c.eof := by rw [peek, hrest, List.headD_nil, hreads.eof]
    rw [hpeek]
    exact hc.eof_behind t hmem
  | cons u us =>
    have hpeek : d.peek = u := by rw [peek, hrest, List.headD_cons]
    have hordered : InSourceOrder (used ++ d.rest) := hreads.rest ▸ hc.rest
    have hu : u ∈ d.rest := by
      rw [hrest]
      exact List.mem_cons_self
    rw [hpeek]
    exact ((List.pairwise_append.1 hordered.before).2.2 t ht u hu).2

/-- The current token has its start no later than its end. -/
theorem Ordered.forward_peek (hc : c.Ordered) :
    c.peek.span.start.offset ≤ c.peek.span.stop.offset := by
  cases hrest : c.rest with
  | nil =>
    rw [peek, hrest, List.headD_nil]
    exact hc.eof_forward
  | cons t ts =>
    have hmem : t ∈ c.rest := by
      rw [hrest]
      exact List.mem_cons_self
    rw [peek, hrest, List.headD_cons]
    exact Nat.le_of_lt (hc.rest.start_lt_stop hmem)

/-- Moving on never leads back to an earlier token. -/
theorem Ordered.noLater_peek (hc : c.Ordered) (hreads : c.Reads used d) :
    c.peek.span.NoLater d.peek.span := by
  cases used with
  | nil =>
    rw [hreads.eq_of_nil]
    exact .refl _
  | cons t ts =>
    obtain ⟨-, hpeek⟩ := hreads.of_cons
    have hstop := hc.stop_le_peek hreads List.mem_cons_self
    have hforward := hc.forward_peek
    have hforward' := (hc.of_reads hreads).forward_peek
    rw [hpeek] at hforward ⊢
    exact ⟨by omega, by omega⟩

/-- A construct that is read stands between the tokens that are current before and after. -/
theorem Ordered.between (hc : c.Ordered) (hreads : c.Reads used d) {s : Span} (hs : s.Among used) :
    c.peek.span.NoLater s ∧ s.NoLater d.peek.span := by
  obtain ⟨first, hfirst, last, hlast, rfl⟩ := hs.exists_tokens
  have hstart := hc.stop_le_peek hreads hfirst
  have hstop := hc.stop_le_peek hreads hlast
  have hforward := (hc.of_reads hreads).forward_peek
  have hordered := hc.used hreads
  have hfirstForward := hordered.start_lt_stop hfirst
  cases used with
  | nil => cases hfirst
  | cons t ts =>
    obtain ⟨-, hpeek⟩ := hreads.of_cons
    rw [hpeek]
    refine ⟨⟨hordered.start_head_le rfl hfirst, hordered.stop_head_le rfl hlast⟩, ?_, ?_⟩
    · exact Nat.le_trans (Nat.le_of_lt hfirstForward) hstart
    · exact Nat.le_trans hstop hforward

end Cursor

/-- What a rule gives that starts at `c` and keeps errors in order. -/
structure Reply.OrderedFrom (x : Reply α) (c : Cursor) : Prop where
  reads : ∃ used, c.Reads used x.cursor
  between : ∀ e ∈ x.errors, ∃ s ∈ e.span?, c.peek.span.NoLater s ∧ s.NoLater x.cursor.peek.span
  listed : x.errors.Pairwise ParseError.ListedBefore

namespace Reply.OrderedFrom

variable {c d : Cursor}

/-- Where nothing is noted there is nothing to put in order. -/
theorem of_quiet {x : Reply α} (hreads : ∃ used, c.Reads used x.cursor) (hnone : x.errors = []) :
    x.OrderedFrom c := by
  refine ⟨hreads, ?_, ?_⟩
  · rw [hnone]
    exact List.forall_mem_nil _
  · rw [hnone]
    exact .nil

/-- The order does not depend on the result. -/
theorem with_result {x : Reply α} (hx : x.OrderedFrom c) (result : Except ParseError β) :
    Reply.OrderedFrom ⟨result, x.cursor, x.errors⟩ c :=
  ⟨hx.reads, hx.between, hx.listed⟩

/-- What is noted later in the text comes later in the list. -/
theorem append {x : Reply α} {y : Reply β} (hc : c.Ordered) (hx : x.OrderedFrom c)
    (hy : y.OrderedFrom x.cursor) :
    Reply.OrderedFrom ⟨y.result, y.cursor, x.errors ++ y.errors⟩ c := by
  obtain ⟨used, hused⟩ := hx.reads
  obtain ⟨more, hmore⟩ := hy.reads
  have hfirst := hc.noLater_peek hused
  have hsecond := (hc.of_reads hused).noLater_peek hmore
  refine ⟨⟨used ++ more, hused.trans hmore⟩, ?_, ?_⟩
  · intro e he
    obtain he | he := List.mem_append.1 he
    · obtain ⟨s, hs, hstart, hend⟩ := hx.between e he
      exact ⟨s, hs, hstart, hend.trans hsecond⟩
    · obtain ⟨s, hs, hstart, hend⟩ := hy.between e he
      exact ⟨s, hs, hfirst.trans hstart, hend⟩
  · refine List.pairwise_append.2 ⟨hx.listed, hy.listed, ?_⟩
    intro e he f hf
    obtain ⟨s, hs, -, hend⟩ := hx.between e he
    obtain ⟨t, ht, hstart, -⟩ := hy.between f hf
    exact ⟨s, hs, t, ht, .inl (hend.trans hstart)⟩

/-- One more error is noted at the end. -/
theorem note {x : Reply α} (hx : x.OrderedFrom c) (result : Except ParseError β) {f : ParseError}
    (hbetween : ∃ t ∈ f.span?, c.peek.span.NoLater t ∧ t.NoLater x.cursor.peek.span)
    (hlisted : ∀ e ∈ x.errors, e.ListedBefore f) :
    Reply.OrderedFrom ⟨result, x.cursor, x.errors ++ [f]⟩ c where
  reads := hx.reads
  between := by
    refine List.forall_mem_append.2 ⟨hx.between, ?_⟩
    intro e he
    obtain rfl := List.mem_singleton.1 he
    exact hbetween
  listed := by
    refine List.pairwise_append.2 ⟨hx.listed, List.pairwise_singleton _ _, ?_⟩
    intro e he f' hf'
    obtain rfl := List.mem_singleton.1 hf'
    exact hlisted e he

/-- After that, tokens are skipped. -/
theorem skip {x : Reply α} (hc : c.Ordered) (hx : x.OrderedFrom c) (result : Except ParseError β)
    {skipped : List Token} (hreads : x.cursor.Reads skipped d) :
    Reply.OrderedFrom ⟨result, d, x.errors⟩ c := by
  have hnone : Reply.OrderedFrom ⟨result, d, []⟩ x.cursor := .of_quiet ⟨skipped, hreads⟩ rfl
  simpa using hx.append hc hnone

/-- What a rule notes that starts farther on. -/
theorem of_reads {x : Reply α} (hc : c.Ordered) {used : List Token} (hreads : c.Reads used d)
    (hx : x.OrderedFrom d) : x.OrderedFrom c := by
  have hnone : Reply.OrderedFrom (⟨.ok (), d, []⟩ : Reply Unit) c := .of_quiet ⟨used, hreads⟩ rfl
  exact hnone.append hc hx

end Reply.OrderedFrom

/-- At the cursor the rule gives a reply with errors in order. -/
def Rule.OrderedAt (r : Rule α) (c : Cursor) : Prop := (r c).OrderedFrom c

/-- What is at a cursor is known of the tokens that a rule looks at first. -/
theorem Rule.OrderedAt.peek_bind {f : Token → Rule β} {c : Cursor}
    (hrest : (f c.peek).OrderedAt c) : (peek >>= f).OrderedAt c := hrest

/-- A look behind the current token changes nothing. -/
theorem Rule.OrderedAt.peekSecond_bind {f : Token → Rule β} {c : Cursor}
    (hrest : (f c.second).OrderedAt c) : (peekSecond >>= f).OrderedAt c := hrest

/-- From tokens in the order of the text the rule notes errors in order. -/
def Rule.KeepsOrder (r : Rule α) : Prop := ∀ c : Cursor, c.Ordered → r.OrderedAt c

namespace Rule.KeepsOrder

/-- A rule that neither moves nor notes anything. -/
theorem of_idle {r : Rule α} (hcursor : ∀ c, (r c).cursor = c) (hnone : ∀ c, (r c).errors = []) :
    r.KeepsOrder :=
  fun c _ => .of_quiet ⟨[], by rw [hcursor]; exact .refl c⟩ (hnone c)

theorem pure (a : α) : (pure a : Rule α).KeepsOrder := of_idle (fun _ => rfl) fun _ => rfl

theorem peek : Grammar.peek.KeepsOrder := of_idle (fun _ => rfl) fun _ => rfl

theorem atAssignment : Grammar.atAssignment.KeepsOrder := of_idle (fun _ => rfl) fun _ => rfl

theorem spanSince (start : Span) : (Grammar.spanSince start).KeepsOrder :=
  of_idle (fun _ => rfl) fun _ => rfl

theorem unexpected (x : Expectation) : (Grammar.unexpected x : Rule α).KeepsOrder :=
  of_idle (fun _ => rfl) fun _ => rfl

theorem tooDeep : (Grammar.tooDeep : Rule α).KeepsOrder := of_idle (fun _ => rfl) fun _ => rfl

theorem advance : Grammar.advance.KeepsOrder := fun c _ => .of_quiet c.exists_reads_advance rfl

/-- The errors of a second rule end behind the tokens that the first one has consumed. -/
protected theorem bind {r : Rule α} {f : α → Rule β} (hr : r.KeepsOrder)
    (hf : ∀ a, (f a).KeepsOrder) : (r >>= f).KeepsOrder := by
  intro c hc
  have hfirst := hr c hc
  cases hresult : (r c).result with
  | error e =>
    rw [OrderedAt, bind_apply_error hresult]
    exact hfirst.with_result _
  | ok a =>
    obtain ⟨used, hused⟩ := hfirst.reads
    rw [OrderedAt, bind_apply_ok hresult]
    exact hfirst.append hc (hf a _ (hc.of_reads hused))

theorem ite {p : Prop} [Decidable p] {r s : Rule α} (hthen : r.KeepsOrder) (helse : s.KeepsOrder) :
    (if p then r else s).KeepsOrder := by
  split
  · exact hthen
  · exact helse

theorem closeParenthesis : Grammar.closeParenthesis.KeepsOrder :=
  .bind .peek fun _ => .ite (.bind .advance fun _ => .pure _) (of_idle (fun _ => rfl) fun _ => rfl)

theorem keyword (word : Keyword) : (Grammar.keyword word).KeepsOrder :=
  .bind .peek fun _ => .ite (.bind .advance fun _ => .pure _) (.unexpected _)

/-- A mark that is missing is refused where it should be. -/
theorem mark (p : Punctuation) (x : Expectation) : (Grammar.mark p x).KeepsOrder :=
  .bind .peek fun _ => .ite (.bind .advance fun _ => .pure _) (.unexpected _)

theorem name (x : Expectation) : (Grammar.name x).KeepsOrder :=
  .bind .peek fun _ => .ite (.bind .advance fun _ => .pure _) (.unexpected _)

/-- Each run of the item starts where the one before it stopped. -/
theorem many {next? : Token → Option β} {item : β → Rule α} (hitem : ∀ b, (item b).KeepsOrder) :
    (Grammar.many next? item).KeepsOrder := by
  intro c hc
  rw [OrderedAt, Grammar.many]
  cases next? c.peek with
  | none => exact .of_quiet ⟨[], .refl c⟩ rfl
  | some b =>
    have hfirst := hitem b c hc
    obtain ⟨used, hused⟩ := hfirst.reads
    cases hresult : (item b c).result with
    | error e => simpa only [hresult] using hfirst.with_result (.error e)
    | ok a =>
      simp only [hresult]
      split
      · next hless =>
        obtain ⟨hreads, hbetween, hlisted⟩ := hfirst.append hc (many hitem _ (hc.of_reads hused))
        exact ⟨hreads, hbetween, hlisted⟩
      · exact hfirst.with_result _
termination_by c => c.remaining

/-- The error that an attempt fails with is at the current token, behind everything noted on the
    way. -/
theorem recovering {statement : Rule Statement} (hcomposed : Composed statement)
    (hstatement : statement.KeepsOrder) : (Grammar.recovering statement).KeepsOrder := by
  intro c hc
  have hread := hstatement c hc
  rw [OrderedAt, Grammar.recovering]
  cases hresult : (statement c).result with
  | ok s => exact hread.with_result _
  | error e =>
    obtain ⟨used, hused⟩ := hread.reads
    obtain ⟨skipped, hskipped⟩ := Cursor.exists_reads_resume
      ((statement c).cursor.remaining == c.remaining) (statement c).cursor
    obtain ⟨-, hspan⟩ := hcomposed.error_at_peek (fails_of_result hresult)
    refine Reply.OrderedFrom.skip hc (hread.note (.ok ()) ?_ ?_) _ hskipped
    · exact ⟨_, hspan, hc.noLater_peek hused, .refl _⟩
    · intro e' he'
      obtain ⟨s, hs, -, hend⟩ := hread.between e' he'
      exact ⟨s, hs, _, hspan, .inl hend⟩

end Rule.KeepsOrder

end Grammar

end GeoLang
