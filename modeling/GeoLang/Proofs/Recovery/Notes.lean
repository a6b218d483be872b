import GeoLang.Proofs.Errors.Noted

namespace GeoLang

/-- A declaration or a block begins with the token. -/
def TokenKind.opensInner (k : TokenKind) : Bool := k.dataType?.isSome || k.isPunctuation .lCurly

namespace Grammar

variable {α β : Type}

/-- What a rule gives that starts at `c` and notes only numbers of arguments, unless it consumes a
    token that opens a declaration or a block. -/
def Reply.CountsFrom (x : Reply α) (c : Cursor) : Prop :=
  ∃ used, c.Reads used x.cursor ∧
    ((∀ t ∈ used, t.kind.opensInner = false) → ∀ e ∈ x.errors, e.CountsArguments)

namespace Reply.CountsFrom

variable {c d : Cursor}

/-- Whatever is noted, such a token was consumed. -/
theorem of_opened {x : Reply α} {used : List Token} (hreads : c.Reads used x.cursor) {t : Token}
    (ht : t ∈ used) (hopens : t.kind.opensInner = true) : x.CountsFrom c := by
  refine ⟨used, hreads, fun hnone => ?_⟩
  rw [hnone t ht] at hopens
  cases hopens

theorem with_result {x : Reply α} (hx : x.CountsFrom c) (result : Except ParseError β) :
    Reply.CountsFrom ⟨result, x.cursor, x.errors⟩ c := hx

/-- A second reply may go on where the first one stopped. -/
theorem append {x : Reply α} {y : Reply β} (hx : x.CountsFrom c) (hy : y.CountsFrom x.cursor) :
    Reply.CountsFrom ⟨y.result, y.cursor, x.errors ++ y.errors⟩ c := by
  obtain ⟨used, hused, hfirst⟩ := hx
  obtain ⟨more, hmore, hsecond⟩ := hy
  refine ⟨used ++ more, hused.trans hmore, fun hnone => ?_⟩
  obtain ⟨hnoneFirst, hnoneSecond⟩ := List.forall_mem_append.1 hnone
  exact List.forall_mem_append.2 ⟨hfirst hnoneFirst, hsecond hnoneSecond⟩

theorem eof {x : Reply α} (hx : x.CountsFrom c) (heof : c.eof.kind = .eof) :
    x.cursor.eof.kind = .eof := by
  obtain ⟨used, hused, -⟩ := hx
  rw [hused.eof, heof]

end Reply.CountsFrom

/-- The rule gives such a reply at the cursor. -/
def Rule.CountsAt (r : Rule α) (c : Cursor) : Prop := (r c).CountsFrom c

/-- In front of declarations and blocks the rule notes only numbers of arguments. -/
def Rule.Counts (r : Rule α) : Prop := ∀ c : Cursor, c.eof.kind = .eof → r.CountsAt c

namespace Rule.Counts

/-- Where only numbers of arguments are noted at all, they are in front of anything else too. -/
theorem of_notesOnly {r : Rule α} (hcomposed : Composed r)
    (hnotes : r.NotesOnly ParseError.CountsArguments) : r.Counts := by
  intro c _
  obtain ⟨used, hused⟩ := hcomposed.exists_reads c
  exact ⟨used, hused, fun _ => hnotes c⟩

theorem pure (a : α) : (pure a : Rule α).Counts := .of_notesOnly (.pure a) (.pure a)

theorem peek : Grammar.peek.Counts := .of_notesOnly .peek .peek

theorem spanSince (start : Span) : (Grammar.spanSince start).Counts :=
  .of_notesOnly (.spanSince start) (.spanSince start)

theorem tooDeep : (Grammar.tooDeep : Rule α).Counts := .of_notesOnly .tooDeep .tooDeep

theorem advance : Grammar.advance.Counts := .of_notesOnly .advance .advance

theorem closeParenthesis : Grammar.closeParenthesis.Counts :=
  .of_notesOnly .closeParenthesis .closeParenthesis

theorem keyword (word : Keyword) : (Grammar.keyword word).Counts :=
  .of_notesOnly (.keyword word) (.keyword word)

theorem mark (p : Punctuation) (x : Expectation) : (Grammar.mark p x).Counts :=
  .of_notesOnly (.mark p x) (.mark p x)

/-- From a place where the first part counts, a sequence does. -/
theorem bind_at {r : Rule α} {f : α → Rule β} {c : Cursor} (heof : c.eof.kind = .eof)
    (hr : r.CountsAt c) (hf : ∀ a, (f a).Counts) : (r >>= f).CountsAt c := by
  cases hresult : (r c).result with
  | error e =>
    rw [CountsAt, bind_apply_error hresult]
    exact hr.with_result _
  | ok a =>
    rw [CountsAt, bind_apply_ok hresult]
    exact hr.append (hf a _ (hr.eof heof))

/-- Rules in turn count when each of them does. -/
protected theorem bind {r : Rule α} {f : α → Rule β} (hr : r.Counts) (hf : ∀ a, (f a).Counts) :
    (r >>= f).Counts :=
  fun c heof => bind_at heof (hr c heof) hf

/-- Behind a part that opens a declaration or a block, anything may be noted. -/
theorem bind_opened {r : Rule α} {f : α → Rule β} {c : Cursor} (hr : r.CountsAt c)
    (hopened : ∀ a d es, r.Returns c a d es →
      ∃ used, c.Reads used d ∧ ∃ t ∈ used, t.kind.opensInner = true)
    (hf : ∀ a, Composed (f a)) : (r >>= f).CountsAt c := by
  cases hresult : (r c).result with
  | error e =>
    rw [CountsAt, bind_apply_error hresult]
    exact hr.with_result _
  | ok a =>
    obtain ⟨used, hused, t, ht, hopens⟩ := hopened a _ _ (returns_of_result hresult)
    obtain ⟨more, hmore⟩ := (hf a).exists_reads (r c).cursor
    rw [CountsAt, bind_apply_ok hresult]
    exact .of_opened (hused.trans hmore) (List.mem_append_left more ht) hopens

/-- What is at a cursor is known of the token that a rule looks at first. -/
theorem peek_bind {f : Token → Rule β} {c : Cursor} (hrest : (f c.peek).CountsAt c) :
    (Grammar.peek >>= f).CountsAt c := hrest

theorem ite {p : Prop} [Decidable p] {r s : Rule α} (hthen : r.Counts) (helse : s.Counts) :
    (if p then r else s).Counts := by
  split
  · exact hthen
  · exact helse

/-- The data type at which a declaration begins is consumed before anything else. -/
theorem declaration {expression : Rule Expr} (hcomposed : Composed expression) (terminated : Bool)
    {type : DataType} {c : Cursor} (heof : c.eof.kind = .eof) (htype : c.peek.kind = .dataType type) :
    (Grammar.declaration expression terminated type).CountsAt c := by
  have hne := Cursor.rest_ne_nil_of_peek heof (by simp [htype])
  refine peek_bind (bind_opened (advance c heof) ?_ fun _ => Plan.composed (n := 0) ?_)
  · intro u d es hreturns
    obtain ⟨rfl, -⟩ := returns_advance_iff.1 hreturns
    exact ⟨_, Cursor.reads_advance hne, _, List.mem_singleton_self _, by rw [htype]; rfl⟩
  · exact .bind (.declarator (.given hcomposed) type) fun _ =>
      .bind (.many fun _ => .bind .advance fun _ => .declarator (.given hcomposed) type) fun _ =>
        .bind (.bind .peek fun _ => .ite .advance (.pure _)) fun _ =>
          .bind (.spanSince _) fun _ => .pure _

/-- Where there is no brace a block fails without noting anything. -/
theorem blockRule {statement : Rule Statement} (hcomposed : Composed statement) :
    (Grammar.blockRule statement).Counts := by
  intro c heof
  refine bind_opened (mark _ _ c heof) ?_ fun _ => ?_
  · intro s d es hreturns
    obtain ⟨hopen, -, rfl, -⟩ := returns_mark_iff.1 hreturns
    have hne := Cursor.rest_ne_nil_of_peek heof (by simp [hopen])
    exact ⟨_, Cursor.reads_advance hne, _, List.mem_singleton_self _, by rw [hopen]; rfl⟩
  · exact .bind (.many fun _ => .recovering hcomposed) fun _ => .bind (.mark _ _) fun _ =>
      .bind (.spanSince _) fun _ => .pure _

theorem block (n : Nat) : (Grammar.block n).Counts := by
  cases n with
  | zero => exact .tooDeep
  | succ n => exact .blockRule (.statement n)

section

variable {expression : Rule Expr} (hcomposed : Composed expression)
  (hnotes : expression.NotesOnly ParseError.CountsArguments)
  {block : Rule Block} (hblock : block.Counts)
  {conditional : Rule Conditional} (hconditional : conditional.Counts)

include hcomposed hnotes

/-- A declaration is told by its data type, behind which anything may be noted. -/
theorem forInit : (Grammar.forInit expression).Counts := by
  have hsimple : (Grammar.simple expression).Counts :=
    .of_notesOnly (.simple hcomposed) (.simple hnotes)
  intro c heof
  refine peek_bind ?_
  split
  · next htype => exact bind_at heof (declaration hcomposed false heof htype) fun _ => .pure _
  · exact (Counts.bind hsimple fun _ => .pure _) c heof

include hblock

theorem whileLoop : (Grammar.whileLoop expression block).Counts :=
  .bind (.keyword _) fun _ => .bind (.mark _ _) fun _ =>
    .bind (.of_notesOnly hcomposed hnotes) fun _ => .bind .closeParenthesis fun _ =>
      .bind hblock fun _ => .bind (.spanSince _) fun _ => .pure _

theorem repeatLoop : (Grammar.repeatLoop expression block).Counts :=
  .bind (.keyword _) fun _ => .bind (.of_notesOnly hcomposed hnotes) fun _ =>
    .bind (.keyword _) fun _ => .bind hblock fun _ => .bind (.spanSince _) fun _ => .pure _

theorem forLoop : (Grammar.forLoop expression block).Counts := by
  have hexpression : expression.Counts := .of_notesOnly hcomposed hnotes
  have hupdate : (Grammar.update expression).Counts :=
    .of_notesOnly (.update hcomposed) (.update hnotes)
  refine .bind (.keyword _) fun _ => .bind (.mark _ _) fun _ => ?_
  refine .bind (.forInit hcomposed hnotes) fun _ => .bind (.mark _ _) fun _ => ?_
  refine .bind hexpression fun _ => .bind (.mark _ _) fun _ => ?_
  refine .bind hupdate fun _ => .bind .closeParenthesis fun _ => ?_
  exact .bind hblock fun _ => .bind (.spanSince _) fun _ => .pure _

include hconditional

theorem conditionalRule : (Grammar.conditionalRule expression conditional block).Counts := by
  have hexpression : expression.Counts := .of_notesOnly hcomposed hnotes
  have hotherwise : (Grammar.otherwiseRule conditional block).Counts := by
    refine .bind .peek fun _ => .ite (.bind .advance fun _ => .bind .peek fun _ => ?_) (.pure _)
    exact .ite (.bind hconditional fun _ => .pure _) (.bind hblock fun _ => .pure _)
  refine .bind (.keyword _) fun _ => .bind (.mark _ _) fun _ => .bind hexpression fun _ => ?_
  refine .bind .closeParenthesis fun _ => .bind hblock fun _ => .bind (.spanSince _) fun _ => ?_
  exact .bind hotherwise fun _ => .bind (.spanSince _) fun _ => .pure _

end

/-- By induction on the levels that are left. -/
theorem conditional (n : Nat) : (Grammar.conditional n).Counts := by
  induction n with
  | zero => exact .tooDeep
  | succ n ih => exact .conditionalRule (.expression n) (.expression (fun _ => id) n) (.block n) ih

/-- Before a statement consumes a data type or an opening brace, it notes only numbers of
    arguments. -/
theorem statement (n : Nat) : (Grammar.statement n).Counts := by
  cases n with
  | zero => exact .tooDeep
  | succ n =>
    intro c heof
    have hcomposed := Composed.expression n
    have hnotes : (Grammar.expression n).NotesOnly ParseError.CountsArguments :=
      .expression (fun _ => id) n
    have hsimple : (Grammar.simple (Grammar.expression n)).Counts :=
      .of_notesOnly (.simple hcomposed) (.simple hnotes)
    refine peek_bind ?_
    split
    · next htype => exact bind_at heof (declaration hcomposed true heof htype) fun _ => .pure _
    · exact bind_at heof (conditional n c heof) fun _ => .pure _
    · exact whileLoop hcomposed hnotes (block n) c heof
    · exact forLoop hcomposed hnotes (block n) c heof
    · exact repeatLoop hcomposed hnotes (block n) c heof
    · exact of_notesOnly (.output _) (.output _) c heof
    · exact of_notesOnly (.output _) (.output _) c heof
    · exact of_notesOnly .input .input c heof
    · exact (Counts.bind hsimple fun _ => .bind (.mark _ _) fun _ => .pure _) c heof

end Rule.Counts

end Grammar

end GeoLang
