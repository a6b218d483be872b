import GeoLang.Proofs.Lexical.Sign
import GeoLang.Proofs.Outline.Tree
import GeoLang.Proofs.Reading.Composed

namespace GeoLang

variable {R : Binary64 → Prop}

/-- A name is a word, and a real satisfies the property. -/
structure Token.Legible (R : Binary64 → Prop) (t : Token) : Prop where
  name : t.kind.isName = true → IsWord t.lexeme
  identifier : ∀ s, t.kind = .identifier s → IsWord s
  literal : ∀ v, t.kind = .literal v → v.RealsIn R

namespace Lexical

private theorem isWord_takeWhile {c : Char} (hc : isWordStart c = true) (cs : List Char) :
    IsWord (String.ofList (c :: cs.takeWhile isWordChar)) := by
  have hfirst : isWordChar c = true := by
    simp only [isWordStart, isWordChar, Char.isAlphanum, Bool.or_eq_true] at hc ⊢
    exact hc.imp_left .inl
  intro d hd
  rw [String.toList_ofList] at hd
  obtain rfl | hd := List.mem_cons.1 hd
  · exact hfirst
  · exact List.all_eq_true.1 List.all_takeWhile d hd

private theorem identifier_of_ofWord {s t : String} (hkind : TokenKind.ofWord s = .identifier t) :
    t = s := by
  unfold TokenKind.ofWord at hkind
  split at hkind
  all_goals cases hkind
  rfl

private theorem identifier_of_ofOwner {s t : String}
    (hkind : TokenKind.ofOwner s = .identifier t) : t = s := by
  unfold TokenKind.ofOwner at hkind
  split at hkind
  · cases hkind
  · cases hkind
    rfl

/-- Only words are names. -/
theorem isWord_of_scan {lead : Lead} {c : Char} {cs : List Char} {kind : TokenKind} {lexeme : String}
    (hscan : (scan lead c cs).content = .token kind lexeme) (hname : kind.isName = true) :
    IsWord lexeme ∧ ∀ s, kind = .identifier s → s = lexeme := by
  unfold scan at hscan
  split at hscan
  · cases hscan
  · cases hscan
  · exact absurd hscan (content_comment_ne_token cs _ _)
  · obtain ⟨_, rfl⟩ := content_string hscan
    cases hname
  · obtain ⟨_, rfl⟩ := content_character hscan
    cases hname
  · simp only [Scan.number] at hscan
    split at hscan
    · obtain ⟨rfl, -⟩ := Content.token.inj hscan
      cases hname
    · cases hscan
  · next hshape =>
    obtain ⟨rfl, rfl⟩ := Content.token.inj hscan
    refine ⟨isWord_takeWhile (isWordStart_of_shape hshape) cs, fun s hs => ?_⟩
    split at hs
    · exact identifier_of_ofOwner hs
    · exact identifier_of_ofWord hs
  · obtain ⟨rfl, -⟩ := Content.token.inj hscan
    cases hname
  · simp only [Scan.symbol] at hscan
    split at hscan
    · obtain ⟨rfl, -⟩ := Content.token.inj hscan
      cases hname
    · obtain ⟨rfl, -⟩ := Content.token.inj hscan
      cases hname
    · cases hscan
  · cases hscan

end Lexical

open Lexical in
/-- Names in a lexed text are words, and identifiers are named by their lexeme. -/
theorem Lexed.isWord_of_mem_tokens {keepComments : Bool} {source : String} {t : Token}
    (ht : t ∈ (Lexed.ofSource keepComments source).tokens) (hname : t.kind.isName = true) :
    IsWord t.lexeme ∧ ∀ s, t.kind = .identifier s → s = t.lexeme := by
  obtain ht | ht := List.mem_append.1 ht
  · obtain ⟨⟨⟨chars, content⟩, span⟩, hplaced, htoken⟩ := List.mem_filterMap.1 ht
    obtain ⟨lead, c, cs, hsegment⟩ := exists_scan_of_mem_segments (mem_of_mem_place hplaced)
    obtain ⟨kind, lexeme, hscan, rfl⟩ | ⟨-, body, -, rfl⟩ := token?_eq_some_iff.1 htoken
    · exact isWord_of_scan ((congrArg Segment.content hsegment).symm.trans hscan) hname
    · cases hname
  · obtain rfl := List.mem_singleton.1 ht
    cases hname

/-- Tokens of texts are legible, if the reals among them are. -/
theorem Lexed.legible_of_mem_tokens {keepComments : Bool} {source : String} {t : Token}
    (ht : t ∈ (Lexed.ofSource keepComments source).tokens)
    (hreal : ∀ x, t.kind = .literal (.real x) → R x) : t.Legible R where
  name := fun hname => (isWord_of_mem_tokens ht hname).1
  identifier := by
    intro s hs
    obtain ⟨hword, heq⟩ := isWord_of_mem_tokens ht (by rw [hs]; rfl)
    rw [heq s hs]
    exact hword
  literal := by
    intro v hv
    cases v with
    | real x => exact hreal x hv
    | _ => trivial

private theorem Expr.legible_foldl_join {lhs : Expr} {links : List (Operator × Expr)}
    (hlhs : lhs.Legible R)
    (hlinks : ∀ l ∈ links, l.2.Legible R) : (links.foldl join lhs).Legible R := by
  induction links generalizing lhs with
  | nil => exact hlhs
  | cons l links ih =>
    obtain ⟨hl, hrest⟩ := List.forall_mem_cons.1 hlinks
    exact ih ⟨hlhs, hl⟩ hrest

namespace Grammar

variable {α β : Type}

/-- All tokens in sight are legible. -/
structure Cursor.Legible (R : Binary64 → Prop) (c : Cursor) : Prop where
  rest : ∀ t ∈ c.rest, t.Legible R
  eof : c.eof.Legible R

/-- Reading keeps a cursor legible. -/
theorem Cursor.Legible.of_reads {c d : Cursor} {used : List Token} (hc : c.Legible R)
    (hreads : c.Reads used d) : d.Legible R where
  rest := fun t ht => hc.rest t (hreads.subset ht)
  eof := by rw [hreads.eof]; exact hc.eof

theorem Cursor.Legible.peek {c : Cursor} (hc : c.Legible R) : c.peek.Legible R := by
  cases hrest : c.rest with
  | nil =>
    rw [Cursor.peek, hrest]
    exact hc.eof
  | cons t ts =>
    rw [Cursor.peek, hrest]
    exact hc.rest t (by rw [hrest]; exact List.mem_cons_self)

/-- Whatever the rule returns on legible tokens has the property. -/
def Rule.Keeps (R : Binary64 → Prop) (r : Rule α) (property : α → Prop) : Prop :=
  ∀ c a d es, c.Legible R → r.Returns c a d es → d.Legible R ∧ property a

namespace Rule.Keeps

/-- Of every rule it is known that legible tokens remain legible. -/
theorem of_composed {r : Rule α} (hr : Composed r) : r.Keeps R fun _ => True := by
  intro c a d es hc hreturns
  obtain ⟨used, hreads⟩ := hr.exists_reads_of_returns hreturns
  exact ⟨hc.of_reads hreads, trivial⟩

protected theorem pure {a : α} {property : α → Prop} (ha : property a) :
    (pure a : Rule α).Keeps R property := by
  intro c b d es hc hreturns
  obtain ⟨rfl, rfl, -⟩ := Rule.returns_pure_iff.1 hreturns
  exact ⟨hc, ha⟩

/-- The second rule starts from what is known of the value of the first. -/
protected theorem bind {r : Rule α} {f : α → Rule β} {first : α → Prop} {property : β → Prop}
    (hr : r.Keeps R first) (hf : ∀ a, first a → (f a).Keeps R property) :
    (r >>= f).Keeps R property := by
  intro c b d es hc hreturns
  obtain ⟨a, c', es₁, es₂, hfirst, hsecond, -⟩ := Rule.returns_bind_iff.1 hreturns
  obtain ⟨hc', ha⟩ := hr c a c' es₁ hc hfirst
  exact hf a ha c' b d es₂ hc' hsecond

/-- The current token is legible. -/
theorem peek : Grammar.peek.Keeps R (Token.Legible R) := by
  intro c t d es hc hreturns
  obtain ⟨rfl, rfl, -⟩ : c.peek = t ∧ c = d ∧ [] = es := by
    simpa [Rule.Returns, Grammar.peek] using hreturns
  exact ⟨hc, hc.peek⟩

theorem advance : Grammar.advance.Keeps R fun _ => True := .of_composed .advance

theorem spanSince (start : Span) : (Grammar.spanSince start).Keeps R fun _ => True :=
  .of_composed (.spanSince start)

theorem keyword (word : Keyword) : (Grammar.keyword word).Keeps R fun _ => True :=
  .of_composed (.keyword word)

theorem mark (p : Punctuation) (x : Expectation) : (Grammar.mark p x).Keeps R fun _ => True :=
  .of_composed (.mark p x)

theorem closeParenthesis : Grammar.closeParenthesis.Keeps R fun _ => True :=
  .of_composed .closeParenthesis

theorem note (e : ParseError) : (Grammar.note e).Keeps R fun _ => True := by
  intro c u d es hc hreturns
  obtain ⟨rfl, -⟩ := returns_note_iff.1 hreturns
  exact ⟨hc, trivial⟩

theorem unexpected {property : α → Prop} (x : Expectation) :
    (Grammar.unexpected x : Rule α).Keeps R property := fun _ _ _ _ _ hreturns =>
  absurd hreturns not_returns_unexpected

theorem tooDeep {property : α → Prop} : (Grammar.tooDeep : Rule α).Keeps R property :=
  fun _ _ _ _ _ hreturns => absurd hreturns not_returns_tooDeep

theorem ite {p : Prop} [Decidable p] {r s : Rule α} {property : α → Prop}
    (hthen : p → r.Keeps R property) (helse : ¬ p → s.Keeps R property) :
    (if p then r else s).Keeps R property := by
  split
  · next hp => exact hthen hp
  · next hp => exact helse hp

/-- Whatever a loop collects has the property of its turns. -/
theorem many {next? : Token → Option β} {item : β → Rule α} {property : α → Prop}
    (hitem : ∀ b, (item b).Keeps R property) :
    (Grammar.many next? item).Keeps R fun as => ∀ a ∈ as, property a := by
  intro c as d es hc hreturns
  have hrepeats := returns_many_iff.1 hreturns
  induction hrepeats with
  | stop => exact ⟨hc, by simp⟩
  | stuck _ hrun _ =>
    obtain ⟨hd, ha⟩ := hitem _ _ _ _ _ hc hrun
    exact ⟨hd, by simpa using ha⟩
  | more _ hrun _ hrest ih =>
    obtain ⟨hc', ha⟩ := hitem _ _ _ _ _ hc hrun
    obtain ⟨hd, has⟩ := ih hc' (returns_many_iff.2 hrest)
    exact ⟨hd, List.forall_mem_cons.2 ⟨ha, has⟩⟩

/-- An attempt at a statement gives one that has the property, or none. -/
theorem recovering {statement : Rule Statement} {property : Statement → Prop}
    (hstatement : statement.Keeps R property) (hcomposed : Composed statement) :
    (Grammar.recovering statement).Keeps R fun s => ∀ x ∈ s, property x := by
  intro c s d es hc hreturns
  obtain ⟨hd, -⟩ := of_composed (.recovering hcomposed) c s d es hc hreturns
  refine ⟨hd, ?_⟩
  cases returns_recovering_iff.1 hreturns with
  | read hread =>
    rintro x ⟨⟩
    exact (hstatement _ _ _ _ hc hread).2
  | skipped => simp

/-- A name that is read is a word. -/
theorem name (x : Expectation) : (Grammar.name x).Keeps R IsWord :=
  .bind .peek fun _ ht =>
    .ite (fun hname => .bind .advance fun _ _ => .pure (ht.name hname)) fun _ => .unexpected _

/-- So are all names of a path. -/
theorem path : Grammar.path.Keeps R Path.Named := by
  have hmember : Grammar.member.Keeps R IsWord := .bind .advance fun _ _ => .name _
  refine .bind .peek fun t _ => .bind (.name _) fun head hhead => ?_
  refine .bind (.many fun _ => hmember) fun members hmembers => ?_
  exact .bind (.spanSince _) fun _ _ => .pure (List.forall_mem_cons.2 ⟨hhead, hmembers⟩)

section

variable {expression : Rule Expr} (hexpression : expression.Keeps R (Expr.Legible R))

include hexpression

theorem arguments : (Grammar.arguments expression).Keeps R (Expr.AllLegible R) := by
  have hargument : (Grammar.argument expression).Keeps R (Expr.Legible R) :=
    .bind .advance fun _ _ => hexpression
  refine .bind (.mark _ _) fun _ _ => .bind .peek fun t _ => .ite (fun _ => ?_) fun _ => ?_
  · exact .bind .closeParenthesis fun _ _ => .pure trivial
  · refine .bind hexpression fun first hfirst => .bind (.many fun _ => hargument) fun others hothers => ?_
    exact .bind .closeParenthesis fun _ _ => .pure ⟨hfirst, Expr.allLegible_iff.2 hothers⟩

theorem reservedCall (word : ReservedWord) (start : Span) :
    (Grammar.reservedCall expression word start).Keeps R (Expr.Legible R) := by
  refine .bind .advance fun _ _ => .bind (.arguments hexpression) fun args hargs => ?_
  refine .bind (.spanSince _) fun s _ => ?_
  exact .bind (.ite (fun _ => .pure trivial) fun _ => .note _) fun _ _ => .pure hargs

theorem pathExpression : (Grammar.pathExpression expression).Keeps R (Expr.Legible R) := by
  refine .bind .path fun p hp => .bind .peek fun t _ => ?_
  split
  · refine .bind (.arguments hexpression) fun args hargs => .bind (.spanSince _) fun s _ => ?_
    exact .pure ⟨hp, hargs⟩
  · refine .ite (fun _ => .bind .advance fun _ _ => ?_) fun _ => .pure hp
    exact .bind (.spanSince _) fun s _ => .pure hp
  · exact .pure hp

theorem factorRule {factor : Rule Expr} (hfactor : factor.Keeps R (Expr.Legible R)) :
    (Grammar.factorRule factor expression).Keeps R (Expr.Legible R) := by
  refine .bind .peek fun t ht => ?_
  split
  · refine .ite (fun _ => .bind .advance fun _ _ => ?_) fun _ => .unexpected _
    exact .bind hfactor fun operand hoperand => .bind (.spanSince _) fun s _ => .pure hoperand
  · next v hv => exact .bind .advance fun _ _ => .pure (ht.literal v hv)
  · refine .bind .advance fun _ _ => .bind hexpression fun inner hinner => ?_
    refine .bind .closeParenthesis fun _ _ => ?_
    exact .bind (.spanSince _) fun s _ => .pure hinner
  · refine .bind (.of_composed .peekSecond) fun _ _ => .ite (fun _ => ?_) fun _ => ?_
    · exact .reservedCall hexpression _ _
    · exact .pathExpression hexpression
  · exact .pathExpression hexpression
  · exact .pathExpression hexpression
  · exact .unexpected _

end

theorem binaryRule {factor : Rule Expr} {operand : Nat → Rule Expr}
    (hfactor : factor.Keeps R (Expr.Legible R))
    (hoperand : ∀ least, (operand least).Keeps R (Expr.Legible R)) (least : Nat) :
    (Grammar.binaryRule factor operand least).Keeps R (Expr.Legible R) := by
  have hlink : ∀ joint, (Grammar.link operand joint).Keeps R fun l => l.2.Legible R := fun joint =>
    .bind .advance fun _ _ => .bind (hoperand _) fun _ hrhs => .pure hrhs
  refine .bind hfactor fun lhs hlhs => .bind (.many hlink) fun links hlinks => .pure ?_
  exact Expr.legible_foldl_join hlhs hlinks

/-- By induction on the levels that are left. -/
theorem binary_and_factor (n : Nat) :
    (∀ least, (Grammar.binary n least).Keeps R (Expr.Legible R)) ∧
      (Grammar.factor n).Keeps R (Expr.Legible R) := by
  induction n with
  | zero => exact ⟨fun _ => .tooDeep, .tooDeep⟩
  | succ n ih =>
    obtain ⟨hbinary, hfactor⟩ := ih
    exact ⟨.binaryRule hfactor hbinary, .factorRule (hbinary 1) hfactor⟩

theorem expression (n : Nat) : (Grammar.expression n).Keeps R (Expr.Legible R) :=
  (binary_and_factor n).1 1

section

variable {expression : Rule Expr} (hexpression : expression.Keeps R (Expr.Legible R))

include hexpression

theorem initializer (type : DataType) :
    (Grammar.initializer expression type).Keeps R fun init => ∀ e ∈ init, e.Legible R := by
  have hcheck : ∀ e, (Grammar.checkInitializer type e).Keeps R fun _ => True := by
    intro e
    unfold Grammar.checkInitializer
    split
    · exact .ite (fun _ => .pure trivial) fun _ => .note _
    · exact .pure trivial
  refine .bind .peek fun t _ => .ite (fun _ => ?_) fun _ => .pure (by simp)
  refine .bind .advance fun _ _ => .bind hexpression fun e he => .bind (hcheck e) fun _ _ => .pure ?_
  rintro e' ⟨⟩
  exact he

/-- The name and the initializer are legible. -/
theorem declarator (type : DataType) :
    (Grammar.declarator expression type).Keeps R (Declarator.Legible R) := by
  refine .bind .peek fun t ht => ?_
  split
  · next name hname =>
    refine .bind .advance fun _ _ => .bind (.of_composed .unitSpecifier) fun unit _ => ?_
    refine .bind (.initializer hexpression type) fun init hinit => .bind (.spanSince _) fun s _ => ?_
    exact .pure ⟨ht.identifier name hname, hinit⟩
  · exact .unexpected _

theorem declaration (terminated : Bool) (type : DataType) :
    (Grammar.declaration expression terminated type).Keeps R (Declaration.Legible R) := by
  have hdeclarator := declarator hexpression type
  have hterminator : (Grammar.optionalTerminator terminated).Keeps R fun _ => True :=
    .bind .peek fun _ _ => .ite (fun _ => .advance) fun _ => .pure trivial
  refine .bind .peek fun t _ => .bind .advance fun _ _ => .bind hdeclarator fun first hfirst => ?_
  refine .bind (.many fun _ => .bind .advance fun _ _ => hdeclarator) fun others hothers => ?_
  refine .bind hterminator fun _ _ => .bind (.spanSince _) fun s _ => .pure ?_
  exact List.forall_mem_cons.2 ⟨hfirst, hothers⟩

theorem assignment : (Grammar.assignment expression).Keeps R (Simple.Legible R) := by
  refine .bind .path fun target htarget => .bind .peek fun t _ => ?_
  split
  · exact .bind .advance fun _ _ => .bind hexpression fun value hvalue => .pure ⟨htarget, hvalue⟩
  · exact .unexpected _

theorem simple : (Grammar.simple expression).Keeps R (Simple.Legible R) := by
  refine .bind (.of_composed .atAssignment) fun _ _ => .ite (fun _ => .assignment hexpression) fun _ => ?_
  exact .bind hexpression fun e he => .pure (Simple.legible_ofExpr he)

omit hexpression in
theorem postStep : Grammar.postStep.Keeps R (Simple.Legible R) := by
  refine .bind .peek fun t _ => .bind .path fun operand hoperand => .bind .peek fun u _ => ?_
  split
  · exact .bind .advance fun _ _ => .bind (.spanSince _) fun s _ => .pure hoperand
  · exact .unexpected _

theorem update : (Grammar.update expression).Keeps R (Simple.Legible R) := by
  refine .bind .peek fun t _ => ?_
  split
  · refine .bind .advance fun _ _ => .bind .path fun operand hoperand => ?_
    exact .bind (.spanSince _) fun s _ => .pure hoperand
  · refine .bind (.of_composed .atAssignment) fun _ _ => .ite (fun _ => ?_) fun _ => ?_
    · exact .assignment hexpression
    · exact .postStep

theorem forInit : (Grammar.forInit expression).Keeps R (ForInit.Legible R) := by
  refine .bind .peek fun t _ => ?_
  split
  · exact .bind (.declaration hexpression _ _) fun d hd => .pure hd
  · exact .bind (.simple hexpression) fun s hs => .pure hs

end

theorem output (newline : Bool) : (Grammar.output newline).Keeps R (Statement.Legible R) := by
  have hplaceholder : Grammar.placeholder.Keeps R Path.Named :=
    .bind .advance fun _ _ => .bind .path fun p hp => .bind (.mark _ _) fun _ _ => .pure hp
  refine .bind .peek fun t _ => .bind .advance fun _ _ => .bind (.mark _ _) fun _ _ => ?_
  refine .bind (.of_composed .template) fun text _ => ?_
  refine .bind (.many fun _ => hplaceholder) fun paths hpaths => .bind .closeParenthesis fun _ _ => ?_
  exact .bind (.mark _ _) fun _ _ => .bind (.spanSince _) fun s _ => .pure hpaths

theorem input : Grammar.input.Keeps R (Statement.Legible R) :=
  .bind (.keyword _) fun _ _ => .bind (.mark _ _) fun _ _ => .bind .closeParenthesis fun _ _ =>
    .bind (.mark _ _) fun _ _ => .bind (.spanSince _) fun _ _ => .pure trivial

section

variable {expression : Rule Expr} (hexpression : expression.Keeps R (Expr.Legible R))
  {block : Rule Block} (hblock : block.Keeps R (Block.Legible R))
  {conditional : Rule Conditional} (hconditional : conditional.Keeps R (Conditional.Legible R))

include hexpression hblock

theorem whileLoop : (Grammar.whileLoop expression block).Keeps R (Statement.Legible R) := by
  refine .bind (.keyword _) fun start _ => .bind (.mark _ _) fun _ _ => ?_
  refine .bind hexpression fun condition hcondition => .bind .closeParenthesis fun _ _ => ?_
  exact .bind hblock fun body hbody => .bind (.spanSince _) fun s _ => .pure ⟨hcondition, hbody⟩

theorem forLoop : (Grammar.forLoop expression block).Keeps R (Statement.Legible R) := by
  refine .bind (.keyword _) fun start _ => .bind (.mark _ _) fun _ _ => ?_
  refine .bind (.forInit hexpression) fun init hinit => .bind (.mark _ _) fun _ _ => ?_
  refine .bind hexpression fun condition hcondition => .bind (.mark _ _) fun _ _ => ?_
  refine .bind (.update hexpression) fun change hchange => .bind .closeParenthesis fun _ _ => ?_
  refine .bind hblock fun body hbody => .bind (.spanSince _) fun s _ => .pure ?_
  exact ⟨hinit, hcondition, hchange, hbody⟩

theorem repeatLoop : (Grammar.repeatLoop expression block).Keeps R (Statement.Legible R) := by
  refine .bind (.keyword _) fun start _ => .bind hexpression fun count hcount => ?_
  refine .bind (.keyword _) fun _ _ => .bind hblock fun body hbody => ?_
  exact .bind (.spanSince _) fun s _ => .pure ⟨hcount, hbody⟩

include hconditional

theorem statementRule :
    (Grammar.statementRule expression conditional block).Keeps R (Statement.Legible R) := by
  refine .bind .peek fun t _ => ?_
  split
  · exact .bind (.declaration hexpression _ _) fun d hd => .pure hd
  · exact .bind hconditional fun c hc => .pure hc
  · exact .whileLoop hexpression hblock
  · exact .forLoop hexpression hblock
  · exact .repeatLoop hexpression hblock
  · exact .output _
  · exact .output _
  · exact .input
  · exact .bind (.simple hexpression) fun s hs => .bind (.mark _ _) fun _ _ => .pure hs

omit hexpression in
theorem otherwiseRule :
    (Grammar.otherwiseRule conditional block).Keeps R (Otherwise.Legible R) := by
  refine .bind .peek fun t _ => .ite (fun _ => ?_) fun _ => .pure trivial
  refine .bind .advance fun _ _ => .bind .peek fun u _ => .ite (fun _ => ?_) fun _ => ?_
  · exact .bind hconditional fun c hc => .pure hc
  · exact .bind hblock fun b hb => .pure hb

theorem conditionalRule :
    (Grammar.conditionalRule expression conditional block).Keeps R (Conditional.Legible R) := by
  refine .bind (.keyword _) fun start _ => .bind (.mark _ _) fun _ _ => ?_
  refine .bind hexpression fun condition hcondition => .bind .closeParenthesis fun _ _ => ?_
  refine .bind hblock fun body hbody => .bind (.spanSince _) fun clause _ => ?_
  refine .bind (.otherwiseRule hblock hconditional) fun otherwise hotherwise => ?_
  exact .bind (.spanSince _) fun s _ => .pure ⟨hcondition, hbody, hotherwise⟩

end

/-- However often a statement is attempted, those that are read are legible. -/
theorem attempts {next? : Token → Option Unit} {statement : Rule Statement}
    (hstatement : statement.Keeps R (Statement.Legible R)) (hcomposed : Composed statement) :
    (Grammar.many next? fun _ => Grammar.recovering statement).Keeps R
      fun statements => Statement.AllLegible R statements.reduceOption := by
  intro c statements d es hc hreturns
  obtain ⟨hd, hstatements⟩ := many (fun _ => recovering hstatement hcomposed) c statements d es hc hreturns
  refine ⟨hd, Statement.allLegible_iff.2 fun s hs => ?_⟩
  obtain ⟨x, hx, hread⟩ := List.mem_filterMap.1 hs
  exact hstatements x hx s hread

/-- Attempts that fail return nothing that would have to be legible. -/
theorem blockRule {statement : Rule Statement} (hstatement : statement.Keeps R (Statement.Legible R))
    (hcomposed : Composed statement) : (Grammar.blockRule statement).Keeps R (Block.Legible R) := by
  refine .bind (.mark _ _) fun start _ => .bind (.attempts hstatement hcomposed) fun _ hstatements => ?_
  exact .bind (.mark _ _) fun _ _ => .bind (.spanSince _) fun s _ => .pure hstatements

/-- By induction on the levels that are left. -/
theorem statement_and_parts (n : Nat) :
    (Grammar.statement n).Keeps R (Statement.Legible R) ∧
      (Grammar.conditional n).Keeps R (Conditional.Legible R) ∧
        (Grammar.block n).Keeps R (Block.Legible R) := by
  induction n with
  | zero => exact ⟨.tooDeep, .tooDeep, .tooDeep⟩
  | succ n ih =>
    obtain ⟨hstatement, hconditional, hblock⟩ := ih
    refine ⟨?_, ?_, .blockRule hstatement (.statement n)⟩
    · exact .statementRule (.expression n) hblock hconditional
    · exact .conditionalRule (.expression n) hblock hconditional

/-- Whatever is returned for a program is legible. -/
theorem program : Grammar.program.Keeps R (Program.Legible R) :=
  .bind (.attempts (statement_and_parts maxNesting).1 (.statement maxNesting)) fun _ hstatements =>
    .pure hstatements

end Rule.Keeps

end Grammar

end GeoLang
