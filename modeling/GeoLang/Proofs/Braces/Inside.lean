import GeoLang.Proofs.Braces.Block
import GeoLang.Proofs.Errors.Noted

namespace GeoLang.Grammar

open Cursor (Opens)

variable {α : Type} {c d : Cursor} {e : ParseError} {least : Nat}

/-- Behind `c` the error stands at a token that has `least` or more braces open in front of it. -/
def Cursor.Within (c : Cursor) (least : Nat) (e : ParseError) : Prop :=
  ∃ used k d, c.Reads used d ∧ LeavesOpen used k ∧ least ≤ k ∧ e.span? = some d.peek.span

/-- The end of the text stays what it is. -/
theorem Cursor.Opens.kind_eof (hopens : c.Opens d) (heof : c.eof.kind = .eof) : d.eof.kind = .eof := by
  obtain ⟨used, k, hused, -⟩ := hopens
  rw [hused.eof, heof]

namespace Cursor.Within

/-- Deeper inside is inside. -/
theorem mono {more : Nat} (hwithin : c.Within more e) (hle : least ≤ more) : c.Within least e := by
  obtain ⟨used, k, d, hused, hk, hmore, hspan⟩ := hwithin
  exact ⟨used, k, d, hused, hk, Nat.le_trans hle hmore, hspan⟩

/-- A way on which braces are opened may be put in front. -/
theorem of_opens (hopens : c.Opens d) (hwithin : d.Within least e) : c.Within least e := by
  obtain ⟨used, j, hused, hj⟩ := hopens
  obtain ⟨more, k, d', hmore, hk, hleast, hspan⟩ := hwithin
  exact ⟨used ++ more, j + k, d', hused.trans hmore, hj.append hk, by omega, hspan⟩

/-- Behind an opening brace there is one more that is open. -/
theorem of_advance (hrest : c.rest ≠ []) (hopen : c.peek.kind = .punctuation .lCurly)
    (hwithin : c.advance.Within least e) : c.Within (least + 1) e := by
  obtain ⟨used, k, d, hused, hk, hleast, hspan⟩ := hwithin
  have hone : LeavesOpen [c.peek] 1 := LeavesOpen.nil.snoc_lCurly hopen
  exact ⟨[c.peek] ++ used, 1 + k, d, (Cursor.reads_advance hrest).trans hused, hone.append hk,
    by omega, hspan⟩

end Cursor.Within

/-- The errors of attempts that a rule notes on the way have `least` or more braces open in front of
    them. -/
def Rule.NotesWithin (least : Nat) (r : Rule α) : Prop :=
  ∀ c : Cursor, c.eof.kind = .eof → ∀ e ∈ (r c).errors, e.isSyntactic = true → c.Within least e

namespace Rule.NotesWithin

variable {β : Type} {r : Rule α} {f : α → Rule β}

/-- A rule that makes no attempts notes no errors of attempts. -/
theorem of_notesOnly (hnotes : r.NotesOnly (·.isSyntactic = false)) : r.NotesWithin least := by
  intro c _ e he hsyntactic
  rw [hnotes c e he] at hsyntactic
  cases hsyntactic

/-- A sequence notes what its parts note, the second behind the braces that the first opened. -/
protected theorem bind (hnests : r.Nests) (hr : r.NotesWithin least)
    (hf : ∀ a, (f a).NotesWithin least) : (r >>= f).NotesWithin least := by
  intro c heof
  cases hresult : (r c).result with
  | error e =>
    rw [bind_apply_error hresult]
    exact hr c heof
  | ok a =>
    have hopens : c.Opens (r c).cursor := Cursor.Nests.opens (hnests c)
    have hrest := hf a _ (hopens.kind_eof heof)
    rw [bind_apply_ok hresult]
    exact List.forall_mem_append.2
      ⟨hr c heof, fun e he hsyntactic => .of_opens hopens (hrest e he hsyntactic)⟩

/-- If the first part makes no attempts, only the second matters. -/
theorem bind_right (hnests : r.Nests) (hr : r.NotesOnly (·.isSyntactic = false))
    (hf : ∀ a, (f a).NotesWithin least) : (r >>= f).NotesWithin least :=
  .bind hnests (.of_notesOnly hr) hf

/-- If the second part makes no attempts, only the first matters. -/
theorem bind_left (hr : r.NotesWithin least) (hf : ∀ a, (f a).NotesOnly (·.isSyntactic = false)) :
    (r >>= f).NotesWithin least := by
  intro c heof
  cases hresult : (r c).result with
  | error e =>
    rw [bind_apply_error hresult]
    exact hr c heof
  | ok a =>
    rw [bind_apply_ok hresult]
    refine List.forall_mem_append.2 ⟨hr c heof, fun e he hsyntactic => ?_⟩
    rw [hf a _ e he] at hsyntactic
    cases hsyntactic

theorem ite {p : Prop} [Decidable p] {s : Rule α} (hthen : r.NotesWithin least)
    (helse : s.NotesWithin least) : (if p then r else s).NotesWithin least := by
  split
  · exact hthen
  · exact helse

/-- The current token may decide where the rest notes. -/
theorem peek_bind {f : Token → Rule α} (hf : ∀ t, (f t).NotesWithin least) :
    (Grammar.peek >>= f).NotesWithin least := fun c => hf c.peek c

/-- What is at a cursor is known of the token that a rule looks at first. -/
theorem within_peek_bind {f : Token → Rule α}
    (hrest : ∀ e ∈ (f c.peek c).errors, e.isSyntactic = true → c.Within least e) :
    ∀ e ∈ ((Grammar.peek >>= f) c).errors, e.isSyntactic = true → c.Within least e := hrest

/-- A token that is consumed first opens no brace unless it is one. -/
theorem within_advance_bind {f : Unit → Rule α} (heof : c.eof.kind = .eof)
    (hbrace : c.peek.kind.isBrace = false) (hf : (f ()).NotesWithin least) :
    ∀ e ∈ ((Grammar.advance >>= f) c).errors, e.isSyntactic = true → c.Within least e := by
  have hopens : c.Opens c.advance := Cursor.Nests.opens ((Cursor.Nests.refl c).advance hbrace)
  exact fun e he hsyntactic => .of_opens hopens (hf _ (hopens.kind_eof heof) e he hsyntactic)

/-- An attempt notes the error that it fails with where its rule stopped, with whatever braces
    open. -/
theorem recovering {r : Rule Statement} (hcomposed : Composed r) (hnests : r.Nests)
    (hr : r.NotesWithin 1) : (Grammar.recovering r).NotesWithin 0 := by
  intro c heof
  have hinside : ∀ e ∈ (r c).errors, e.isSyntactic = true → c.Within 0 e := fun e he hsyntactic =>
    (hr c heof e he hsyntactic).mono (Nat.zero_le 1)
  cases hresult : (r c).result with
  | ok s => simpa only [Grammar.recovering, hresult] using hinside
  | error e =>
    obtain ⟨-, hspan⟩ := hcomposed.error_at_peek (fails_of_result hresult)
    obtain ⟨used, k, hused, hk⟩ : c.Opens (r c).cursor := Cursor.Nests.opens (hnests c)
    simp only [Grammar.recovering, hresult]
    exact List.forall_mem_append.2 ⟨hinside, List.forall_mem_singleton.2 fun _ =>
      ⟨used, k, _, hused, hk, Nat.zero_le k, hspan⟩⟩

/-- The attempts in a block do so one after the other. -/
theorem attempts {r : Rule Statement} (hnests : r.Nests)
    (hr : (Grammar.recovering r).NotesWithin 0) :
    (many insideBlock fun _ => Grammar.recovering r).NotesWithin 0 := by
  intro c heof
  rw [many]
  cases hnext : insideBlock c.peek with
  | none => exact List.forall_mem_nil _
  | some b =>
    have hfirst := hr c heof
    cases hresult : (Grammar.recovering r c).result with
    | error e => simpa only [hresult] using hfirst
    | ok s =>
      simp only [hresult]
      split
      · next hless =>
        have hopens : c.Opens (Grammar.recovering r c).cursor :=
          Cursor.Nests.opens (nests_recovering hnests (insideBlock_eq_some_iff.1 hnext).1)
        have hothers := attempts hnests hr _ (hopens.kind_eof heof)
        exact List.forall_mem_append.2
          ⟨hfirst, fun e he hsyntactic => .of_opens hopens (hothers e he hsyntactic)⟩
      · exact hfirst
termination_by c => c.remaining

/-- In a block attempts are made only behind its opening brace. -/
theorem blockRule {r : Rule Statement} (hcomposed : Composed r) (hnests : r.Nests)
    (hr : r.NotesWithin 1) : (Grammar.blockRule r).NotesWithin 1 := by
  have hinner : ∀ start : Span, ((many insideBlock fun _ => Grammar.recovering r) >>= fun ss =>
      mark .rCurly .blockEnd >>= fun _ => Grammar.spanSince start >>= fun span =>
        pure (Block.mk ss.reduceOption span)).NotesWithin 0 := fun _ =>
    .bind_left (.attempts hnests (.recovering hcomposed hnests hr)) fun _ =>
      .bind (.mark _ _) fun _ => .bind (.spanSince _) fun _ => .pure _
  intro c heof
  obtain ⟨start, d, es, hreturns⟩ | ⟨e, d, es, hfails⟩ :=
    returns_or_fails (mark .lCurly .blockStart) c
  · obtain ⟨hopen, rfl, rfl, rfl⟩ := returns_mark_iff.1 hreturns
    have hrest : c.rest ≠ [] := Cursor.rest_ne_nil_of_peek heof (by simp [hopen])
    have hadvance : c.advance.eof.kind = .eof := by rw [(Cursor.reads_advance hrest).eof, heof]
    rw [Grammar.blockRule, bind_apply_ok (by rw [hreturns]), hreturns]
    exact fun e he hsyntactic => .of_advance hrest hopen (hinner _ _ hadvance e he hsyntactic)
  · have hquiet := NotesOnly.mark (p := fun e => e.isSyntactic = false) .lCurly .blockStart c
    rw [Grammar.blockRule, bind_apply_error (by rw [hfails])]
    intro e he hsyntactic
    rw [hquiet e he] at hsyntactic
    cases hsyntactic

section

variable {expression : Rule Expr} {block : Rule Block} {conditional : Rule Conditional}
  (hnests : expression.Nests) (hnotes : expression.NotesOnly (·.isSyntactic = false))
  (hblock : block.NotesWithin least)

include hnests hnotes hblock

theorem whileLoop : (Grammar.whileLoop expression block).NotesWithin least :=
  .bind_right (nests_keyword _) (.keyword _) fun _ =>
    .bind_right (nests_mark _ (by decide)) (.mark _ _) fun _ => .bind_right hnests hnotes fun _ =>
      .bind_right nests_closeParenthesis .closeParenthesis fun _ =>
        .bind_left hblock fun _ => .bind (.spanSince _) fun _ => .pure _

theorem repeatLoop : (Grammar.repeatLoop expression block).NotesWithin least :=
  .bind_right (nests_keyword _) (.keyword _) fun _ => .bind_right hnests hnotes fun _ =>
    .bind_right (nests_keyword _) (.keyword _) fun _ =>
      .bind_left hblock fun _ => .bind (.spanSince _) fun _ => .pure _

theorem forLoop : (Grammar.forLoop expression block).NotesWithin least := by
  have hinit : (Grammar.forInit expression).NotesOnly (·.isSyntactic = false) :=
    .forInit hnotes fun _ _ _ => rfl
  refine .bind_right (nests_keyword _) (.keyword _) fun _ => ?_
  refine .bind_right (nests_mark _ (by decide)) (.mark _ _) fun _ => ?_
  refine .bind_right (nests_forInit hnests) hinit fun _ => ?_
  refine .bind_right (nests_mark _ (by decide)) (.mark _ _) fun _ => ?_
  refine .bind_right hnests hnotes fun _ => ?_
  refine .bind_right (nests_mark _ (by decide)) (.mark _ _) fun _ => ?_
  refine .bind_right (nests_update hnests) (.update hnotes) fun _ => ?_
  refine .bind_right nests_closeParenthesis .closeParenthesis fun _ => ?_
  exact .bind_left hblock fun _ => .bind (.spanSince _) fun _ => .pure _

variable (hconditional : conditional.NotesWithin least)

include hconditional

omit hnests hnotes in
theorem otherwiseRule : (Grammar.otherwiseRule conditional block).NotesWithin least := by
  intro c heof
  refine within_peek_bind ?_
  split
  · next helse =>
    rw [TokenKind.isKeyword, beq_iff_eq] at helse
    refine within_advance_bind heof (by rw [helse]; rfl) (.peek_bind fun _ => .ite ?_ ?_)
    · exact .bind_left hconditional fun _ => .pure _
    · exact .bind_left hblock fun _ => .pure _
  · exact of_notesOnly (.pure _) c heof

/-- The block is read to its end in front of `else`, so that it must nest. -/
theorem conditionalRule (hblockNests : block.Nests) :
    (Grammar.conditionalRule expression conditional block).NotesWithin least := by
  refine .bind_right (nests_keyword _) (.keyword _) fun _ => ?_
  refine .bind_right (nests_mark _ (by decide)) (.mark _ _) fun _ => ?_
  refine .bind_right hnests hnotes fun _ => ?_
  refine .bind_right nests_closeParenthesis .closeParenthesis fun _ => ?_
  refine .bind hblockNests hblock fun _ => .bind_right ?_ (.spanSince _) fun _ => ?_
  · exact fun c => Cursor.Nests.refl c
  · exact .bind_left (.otherwiseRule hblock hconditional) fun _ =>
      .bind (.spanSince _) fun _ => .pure _

theorem statementRule :
    (Grammar.statementRule expression conditional block).NotesWithin least := by
  refine .peek_bind fun t => ?_
  split
  · exact .of_notesOnly (.bind (.declaration hnotes (fun _ _ _ => rfl) _ _) fun _ => .pure _)
  · exact .bind_left hconditional fun _ => .pure _
  · exact .whileLoop hnests hnotes hblock
  · exact .forLoop hnests hnotes hblock
  · exact .repeatLoop hnests hnotes hblock
  · exact .of_notesOnly (.output _)
  · exact .of_notesOnly (.output _)
  · exact .of_notesOnly .input
  · exact .of_notesOnly (.bind (.simple hnotes) fun _ => .bind (.mark _ _) fun _ => .pure _)

end

/-- The errors of attempts that a statement notes stand inside of blocks that it has opened. -/
theorem parts (n : Nat) :
    (Grammar.statement n).NotesWithin 1 ∧ (Grammar.conditional n).NotesWithin 1 ∧
      (Grammar.block n).NotesWithin 1 := by
  induction n with
  | zero => exact ⟨.of_notesOnly .tooDeep, .of_notesOnly .tooDeep, .of_notesOnly .tooDeep⟩
  | succ n ih =>
    obtain ⟨hstatement, hconditional, hblock⟩ := ih
    have hnests := nests_expression n
    have hnotes : (Grammar.expression n).NotesOnly (·.isSyntactic = false) := by
      refine .expression (fun e he => ?_) n
      cases e <;> first | rfl | cases he
    exact ⟨.statementRule hnests hnotes hblock hconditional,
      .conditionalRule hnests hnotes hblock hconditional (nests_parts n).2.2,
      .blockRule (.statement n) (nests_statement n) hstatement⟩

/-- Statements inside of a statement are attempted behind a brace of its own. -/
theorem statement (n : Nat) : (Grammar.statement n).NotesWithin 1 := (parts n).1

end Rule.NotesWithin

end GeoLang.Grammar
