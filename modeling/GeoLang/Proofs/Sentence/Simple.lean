import GeoLang.Proofs.Reading.Simple
import GeoLang.Proofs.Sentence.Expression

namespace GeoLang.Grammar

/-- The look ahead finds no assignment where no name is. -/
theorem assignsPath_of_not_isName {t : Token} (hname : t.kind.isName = false) (ts : List Token) :
    assignsPath (t :: ts) = false := by
  cases ts with
  | nil => rfl
  | cons u us => rw [assignsPath, hname, Bool.false_and]

/-- Behind a single name it looks for an assignment operator. -/
theorem assignsPath_of_not_dot {t : Token} {rest : List Token} (hname : t.kind.isName = true)
    (hdot : ∀ u ∈ rest.head?, u.kind ≠ .punctuation .dot) :
    assignsPath (t :: rest) = rest.head?.any fun u => u.kind.assignment?.isSome := by
  cases rest with
  | nil => rfl
  | cons u us =>
    have hnot : u.kind ≠ .punctuation .dot := hdot u (by simp)
    simp [assignsPath, hname, TokenKind.isPunctuation, hnot]

/-- Behind a path it is the next token alone that decides. -/
theorem PathForm.assignsPath_append {p : Path} {ts rest : List Token} (hpath : PathForm p ts)
    (hdot : ∀ u ∈ rest.head?, u.kind ≠ .punctuation .dot) :
    assignsPath (ts ++ rest) = rest.head?.any fun u => u.kind.assignment?.isSome := by
  obtain ⟨hname, hmembers⟩ := hpath
  rename_i t members ts _
  induction hmembers generalizing t with
  | nil => exact assignsPath_of_not_dot hname hdot
  | cons hitem _ ih =>
    obtain ⟨hmark, ⟨hmember⟩⟩ := hitem
    have hrest := ih hmember
    simpa [assignsPath, hname, TokenKind.isPunctuation, hmark] using hrest

/-- What the language derives is not taken for an assignment, whatever stands behind it, unless that
    makes it one. -/
def Language.NeverAssigns (language : Language Expr) : Prop :=
  ∀ e ts rest, language e ts →
    (∀ u ∈ rest.head?, u.kind ≠ .punctuation .dot ∧ u.kind.assignment? = none) →
      assignsPath (ts ++ rest) = false

/-- No other operator ends what it looks over as an assignment would. -/
theorem not_assigning_of_isOperator {t : Token} {op : Operator} (hop : t.IsOperator op)
    (hcls : op.cls ≠ .assignment) :
    t.kind ≠ .punctuation .dot ∧ t.kind.assignment? = none := by
  obtain ⟨cls, hkind, hclass⟩ := hop
  have hne := hclass.ne_assignment hcls
  rw [hkind]
  cases cls <;> simp_all [TokenKind.assignment?]

/-- It finds none behind a whole path that something else follows. -/
theorem PathForm.not_assignsPath {p : Path} {ts rest : List Token} (hpath : PathForm p ts)
    (hrest : ∀ u ∈ rest.head?, u.kind ≠ .punctuation .dot ∧ u.kind.assignment? = none) :
    assignsPath (ts ++ rest) = false := by
  rw [hpath.assignsPath_append fun u hu => (hrest u hu).1]
  cases hhead : rest.head? with
  | none => rfl
  | some u => simp [(hrest u hhead).2]

/-- So it finds none at an expression. -/
theorem Language.NeverAssigns.assignsPath_rest {language : Language Expr}
    (hassigns : language.NeverAssigns) {e : Expr} {ts : List Token} {c d : Cursor}
    (he : language e ts) (hreads : c.Reads ts d) (hend : d.peek.kind = .punctuation .semicolon) :
    assignsPath c.rest = false := by
  rw [hreads.rest]
  refine hassigns _ _ _ he fun u hu => ?_
  have hpeek : d.peek = u := by rw [Cursor.peek, List.headD_eq_head?_getD, hu, Option.getD_some]
  rw [← hpeek, hend]
  exact ⟨by simp, rfl⟩

private theorem factorForm_neverAssigns (factor expression : Language Expr) :
    (FactorForm factor expression : Language Expr).NeverAssigns := by
  intro e ts rest he hrest
  cases he with
  | unary hop =>
    obtain ⟨cls, hkind, _⟩ := hop
    exact assignsPath_of_not_isName (by rw [hkind]; rfl) _
  | literal hliteral => exact assignsPath_of_not_isName (by rw [hliteral]; rfl) _
  | grouped hopen => exact assignsPath_of_not_isName (by rw [hopen]; rfl) _
  | reserved hword hargs =>
    obtain ⟨u, us, rfl, hopen⟩ := argumentsForm_begins expression _ _ hargs
    rw [List.cons_append, assignsPath_of_not_dot (by rw [hword]; rfl) (by simp [hopen])]
    simp [hopen, TokenKind.assignment?]
  | path hpath => exact hpath.not_assignsPath hrest
  | post hpath hop hstep =>
    have hnot := not_assigning_of_isOperator hop (Operator.cls_ne_assignment_of_isStep hstep)
    rw [List.append_assoc]
    exact hpath.not_assignsPath (by simpa using hnot)
  | call hcallee _ hargs =>
    obtain ⟨u, us, rfl, hopen⟩ := argumentsForm_begins expression _ _ hargs
    rw [List.append_assoc]
    exact hcallee.not_assignsPath (by simp [hopen, TokenKind.assignment?])

private theorem RowForm.neverAssigns {factor : Language Expr} {operand : Nat → Language Expr}
    (hfactor : factor.NeverAssigns) (least : Nat) :
    (RowForm factor operand least : Language Expr).NeverAssigns := by
  intro e ts rest hrow hrest
  induction hrow generalizing rest with
  | factor he => exact hfactor _ _ _ he hrest
  | join hstrength _ _ hop _ ih =>
    have hnot := not_assigning_of_isOperator hop (Operator.cls_ne_assignment_of_strength? hstrength)
    rw [List.append_assoc]
    exact ih _ (by simpa using hnot)

/-- No row of operands begins like an assignment. -/
theorem rowDerives_neverAssigns (n least : Nat) : (RowDerives n least).NeverAssigns := by
  cases n with
  | zero => exact fun _ _ _ hrow => hrow.elim
  | succ n =>
    refine RowForm.neverAssigns ?_ least
    cases n with
    | zero => exact fun _ _ _ he => he.elim
    | succ n => exact factorForm_neverAssigns _ _

/-- A unit is read where no reserved word follows it. -/
theorem exists_unitReturns {c d : Cursor} {u : Option UnitSpecifier} {ts : List Token}
    (hunit : UnitForm u ts) (hreads : c.Reads ts d)
    (hfollows : ∀ word, d.peek.kind ≠ .reserved word) :
    ∃ v, UnitReturns c v d [] ∧ v.map UnitSpecifier.bare = u.map UnitSpecifier.bare := by
  cases hunit with
  | none =>
    obtain rfl := hreads.eq_of_nil
    have hnone : unitAt d.peek = none := by
      cases hunit : unitAt d.peek with
      | none => rfl
      | some unit => exact absurd (unitAt_eq_some_iff.1 hunit).1 (hfollows unit)
    exact ⟨none, .none (hfollows .sq) hnone, rfl⟩
  | @plain unit _ _ hword hunit =>
    obtain ⟨rfl, rfl⟩ := hreads.of_singleton
    have hsq : c.peek.kind ≠ .reserved .sq := by
      rw [hword]
      rintro ⟨⟩
      revert hunit
      decide
    exact ⟨_, .plain hsq (unitAt_eq_some_iff.2 ⟨hword, hunit⟩), rfl⟩
  | squared hsq hword hunit =>
    obtain ⟨hrest, rfl⟩ := hreads.of_cons
    obtain ⟨rfl, rfl⟩ := hrest.of_singleton
    exact ⟨_, .squared hsq (unitAt_eq_some_iff.2 ⟨hword, hunit⟩), rfl⟩

private theorem clean_initializerFaults (type : DataType) (e : Expr) : Clean
    (initializerFaults type e) := by
  unfold initializerFaults
  split
  · split <;> simp [Clean, ParseError.isSyntactic]
  · exact .nil

/-- With such a token the part of a declaration ends that declares one variable. -/
def EndsDeclarator (t : Token) : Prop :=
  t.kind = .punctuation .comma ∨ t.kind = .punctuation .semicolon

theorem EndsDeclarator.endsRow {t : Token} (hends : EndsDeclarator t) : EndsRow 1 t := by
  obtain hmark | hmark := hends <;> exact .of_punctuation hmark (by simp) (by simp)

/-- No unit stands where an initial value may. -/
theorem InitializerForm.not_reserved {language : Language Expr} {init : Option Expr} {c d : Cursor}
    {ts : List Token} (hinit : InitializerForm language init ts) (hreads : c.Reads ts d)
    (hfollows : EndsDeclarator d.peek) (word : ReservedWord) : c.peek.kind ≠ .reserved word := by
  cases hinit with
  | none =>
    obtain rfl := hreads.eq_of_nil
    obtain hmark | hmark := hfollows <;> simp [hmark]
  | some hassign _ =>
    obtain ⟨cls, hkind, _⟩ := hassign
    obtain ⟨_, rfl⟩ := hreads.of_cons
    simp [hkind]

/-- An assignment operator always has its own class. -/
theorem assignment?_of_isOperator {t : Token} {op : Operator} (hop : t.IsOperator op)
    (hassigns : op.cls = .assignment) : t.kind.assignment? = some op := by
  obtain ⟨cls, hkind, hclass⟩ := hop
  refine TokenKind.assignment?_eq_some_iff.2 ?_
  obtain rfl | ⟨_, hsign⟩ := hclass
  · rw [hkind, hassigns]
  · cases op <;> simp_all [Operator.isSign, Operator.cls, Operator.entry]

theorem stepAt_of_isName {t : Token} (hname : t.kind.isName = true) : stepAt t = none := by
  cases hkind : t.kind <;> simp_all [TokenKind.isName, stepAt, TokenKind.operator?]

theorem simpleForm_begins {language : Language Expr}
    (hbegins : language.Begins fun t => t.kind.startsOperand = true) :
    (Language.Begins (SimpleForm language)) fun t => t.kind.startsOperand = true := by
  intro s ts hsimple
  cases hsimple with
  | assignment hassignment =>
    obtain ⟨htarget, _⟩ := hassignment
    obtain ⟨t, us, rfl, hname⟩ := PathForm.begins _ _ htarget
    exact ⟨t, _, rfl, startsOperand_of_isName hname⟩
  | expression he => exact hbegins _ _ he

section

variable {expression : Rule Expr} {language : Language Expr}
  (hexpression : expression.Accepts Expr.bare language (EndsRow 1))

include hexpression

private theorem exists_initializerReturns {type : DataType} {c d : Cursor} {init : Option Expr}
    {ts : List Token} (hinit : InitializerForm language init ts) (hreads : c.Reads ts d)
    (hfollows : EndsDeclarator d.peek) :
    ∃ init' es, InitializerReturns expression type c init' d es ∧
      init'.map Expr.bare = init.map Expr.bare ∧ Clean es := by
  cases hinit with
  | none =>
    obtain rfl := hreads.eq_of_nil
    have hnone : d.peek.kind.operator? ≠ some .assign := by
      obtain hmark | hmark := hfollows <;> simp [hmark, TokenKind.operator?]
    exact ⟨none, [], .none hnone, rfl, .nil⟩
  | some hassign he =>
    obtain ⟨hrest, rfl⟩ := hreads.of_cons
    obtain ⟨cls, hkind, _⟩ := hassign
    obtain ⟨e, es, hreturns, hsame, hclean⟩ := hexpression _ _ _ _ he hrest hfollows.endsRow
    have hop : c.peek.kind.operator? = some .assign := by rw [hkind]; rfl
    refine ⟨some e, _, .some hop hreturns, ?_, hclean.append (clean_initializerFaults type e)⟩
    rw [Option.map_some, Option.map_some, hsame]

/-- A declarator is read up to a comma or a semicolon. -/
theorem declarator_accepts (type : DataType) :
    (declarator expression type).Accepts Declarator.bare (DeclaratorForm language)
      EndsDeclarator := by
  rintro c x ts d ⟨hname, hunit, hinit⟩ hreads hfollows
  obtain ⟨hrest, rfl⟩ := hreads.of_cons
  obtain ⟨c', hreadsUnit, hreadsInit⟩ := hrest.of_append
  obtain ⟨unit, hunitReturns, hsameUnit⟩ :=
    exists_unitReturns hunit hreadsUnit (hinit.not_reserved hreadsInit hfollows)
  obtain ⟨init, es, hinitReturns, hsameInit, hclean⟩ :=
    exists_initializerReturns hexpression hinit hreadsInit hfollows
  have hrule : (declarator expression type).Returns c _ d es :=
    returns_declarator_iff.2 ⟨_, unit, c', init, hname, hunitReturns, hinitReturns, rfl⟩
  refine ⟨_, es, hrule, ?_, hclean⟩
  simp only [Declarator.bare, hsameUnit, hsameInit]

theorem nextDeclarator_accepts (type : DataType) :
    (nextDeclarator expression type).Accepts Declarator.bare (Led .comma (DeclaratorForm language))
      EndsDeclarator := by
  rintro c x ts d ⟨_, hx⟩ hreads hfollows
  obtain ⟨hrest, _⟩ := hreads.of_cons
  obtain ⟨y, es, hreturns, hsame, hclean⟩ :=
    declarator_accepts hexpression type _ _ _ _ hx hrest hfollows
  exact ⟨y, es, returns_nextDeclarator_iff.2 hreturns, hsame, hclean⟩

/-- Up to the semicolon behind the declaration, which `terminated` counts in. -/
theorem exists_returns_declaration {c d : Cursor} {x : Declaration} {ts : List Token}
    (hdeclaration : DeclarationForm language x ts) (hreads : c.Reads ts d)
    (hend : d.peek.kind = .punctuation .semicolon) (terminated : Bool) :
    ∃ type y es, c.peek.kind = .dataType type ∧
      (declaration expression terminated type).Returns c y (d.skipTerminator terminated) es ∧
        y.bare = x.bare ∧ Clean es := by
  obtain ⟨htype, hfirst, hothers⟩ := hdeclaration
  rename_i type _ _ _ _ _ _
  obtain ⟨hrest, rfl⟩ := hreads.of_cons
  obtain ⟨c', hreadsFirst, hreadsOthers⟩ := hrest.of_append
  have hends : EndsDeclarator d.peek := .inr hend
  have hbehind : EndsDeclarator c'.peek :=
    hothers.follows (led_begins .comma _) (fun _ ht => .inl ht) hreadsOthers hends
  obtain ⟨first, es, hreturns, hsame, hclean⟩ :=
    declarator_accepts hexpression type _ _ _ _ hfirst hreadsFirst hbehind
  obtain ⟨others, fs, hrepeats, hsameOthers, hcleanOthers⟩ :=
    Repeats.of_items (led_begins .comma _) (fun _ ht => ⟨markAt_eq_some_iff.2 ht, .inl ht⟩)
      (nextDeclarator_accepts hexpression type) hothers hreadsOthers
      (markAt_eq_none_iff.2 (by simp [hend])) hends
  have hrule : (declaration expression terminated type).Returns c _ (d.skipTerminator terminated)
      (es ++ fs) :=
    returns_declaration_iff.2 ⟨first, c', es, others, d, fs, hreturns, hrepeats, rfl, rfl, rfl⟩
  refine ⟨type, _, es ++ fs, htype, hrule, ?_, hclean.append hcleanOthers⟩
  simp only [Declaration.bare, hsame, hsameOthers]

theorem assignment_accepts :
    (assignment expression).Accepts Simple.bare (AssignmentForm language) (EndsRow 1) := by
  rintro c s ts d ⟨htarget, hop, hassigns, hvalue⟩ hreads hfollows
  obtain ⟨c', hreadsTarget, rfl, hreadsValue⟩ := hreads.of_append_cons
  have hassignment := assignment?_of_isOperator hop hassigns
  obtain ⟨cls, hkind, _⟩ := hop
  obtain ⟨target, es, hreturns, hsame, hclean⟩ :=
    path_accepts _ _ _ _ htarget hreadsTarget (by simp [hkind])
  obtain ⟨value, fs, hreturnsValue, hsameValue, hcleanValue⟩ :=
    hexpression _ _ _ _ hvalue hreadsValue hfollows
  have hrule : (assignment expression).Returns c _ d (es ++ fs) :=
    returns_assignment_iff.2
      ⟨target, c', es, _, value, fs, hreturns, hassignment, hreturnsValue, rfl, rfl⟩
  refine ⟨_, es ++ fs, hrule, ?_, hclean.append hcleanValue⟩
  simp only [Simple.bare, hsame, hsameValue]

omit hexpression in
/-- The look ahead finds an assignment where one is derived. -/
theorem AssignmentForm.assignsPath_rest {s : Simple} {ts : List Token} {c d : Cursor}
    (hassignment : AssignmentForm language s ts) (hreads : c.Reads ts d) :
    assignsPath c.rest = true := by
  obtain ⟨htarget, hop, hassigns, _⟩ := hassignment
  have hassignment := assignment?_of_isOperator hop hassigns
  obtain ⟨cls, hkind, _⟩ := hop
  rw [hreads.rest, List.append_assoc, List.cons_append,
    htarget.assignsPath_append (by simp [hkind])]
  simp [hassignment]

/-- Assignments and expressions are told apart and read, up to a semicolon. -/
theorem simple_accepts (hassigns : language.NeverAssigns) :
    (simple expression).Accepts Simple.bare (SimpleForm language)
      fun t => t.kind = .punctuation .semicolon := by
  intro c s ts d hsimple hreads hend
  have hfollows : EndsRow 1 d.peek := .of_punctuation hend (by simp) (by simp)
  cases hsimple with
  | assignment hassignment =>
    have hpath := hassignment.assignsPath_rest hreads
    obtain ⟨s, es, hreturns, hsame, hclean⟩ :=
      assignment_accepts hexpression _ _ _ _ hassignment hreads hfollows
    exact ⟨s, es, returns_simple_iff.2 (.assignment hpath hreturns), hsame, hclean⟩
  | expression he =>
    have hpath := hassigns.assignsPath_rest he hreads hend
    obtain ⟨e, es, hreturns, hsame, hclean⟩ := hexpression _ _ _ _ he hreads hfollows
    refine ⟨_, es, returns_simple_iff.2 (.expression hpath hreturns), ?_, hclean⟩
    rw [Simple.bare_ofExpr, Simple.bare_ofExpr, hsame]

/-- The last part of a loop header is read up to the parenthesis. -/
theorem update_accepts :
    (update expression).Accepts Simple.bare (UpdateForm language)
      fun t => t.kind = .punctuation .rParen := by
  intro c s ts d hupdate hreads hend
  have hfollows : EndsRow 1 d.peek := .of_punctuation hend (by simp) (by simp)
  cases hupdate with
  | before hop hstep hpath =>
    obtain ⟨hrest, rfl⟩ := hreads.of_cons
    have hstepAt := stepAt_of_isStep hop hstep
    obtain ⟨p, es, hreturns, hsame, hclean⟩ := path_accepts _ _ _ _ hpath hrest hfollows.notDot
    refine ⟨_, es, returns_update_iff.2 (.before hstepAt hreturns), ?_, hclean⟩
    simp only [Simple.bare, Expr.bare, hsame]
  | behind hpath hop hstep =>
    obtain ⟨c', hreadsPath, hrest⟩ := hreads.of_append
    obtain ⟨rfl, rfl⟩ := hrest.of_singleton
    have hstepAt := stepAt_of_isStep hop hstep
    have hassigns : assignsPath c.rest = false := by
      have hnot := not_assigning_of_isOperator hop (Operator.cls_ne_assignment_of_isStep hstep)
      rw [hreads.rest, List.append_assoc]
      exact hpath.not_assignsPath (by simpa using hnot)
    obtain ⟨cls, hkind, _⟩ := hop
    obtain ⟨p, es, hreturns, hsame, hclean⟩ :=
      path_accepts _ _ _ _ hpath hreadsPath (by simp [hkind])
    have hnone := stepAt_of_isName (returns_path_iff.1 hreturns).1
    refine ⟨_, es, returns_update_iff.2 (.behind hnone hassigns hreturns hstepAt), ?_, hclean⟩
    simp only [Simple.bare, Expr.bare, hsame]
  | assignment hassignment =>
    have hassigns := hassignment.assignsPath_rest hreads
    obtain ⟨s, es, hreturns, hsame, hclean⟩ :=
      assignment_accepts hexpression _ _ _ _ hassignment hreads hfollows
    obtain ⟨target, c', _, _, _, _, htarget, _⟩ := returns_assignment_iff.1 hreturns
    have hnone := stepAt_of_isName (returns_path_iff.1 htarget).1
    exact ⟨s, es, returns_update_iff.2 (.assignment hnone hassigns hreturns), hsame, hclean⟩

/-- The first part is read up to its semicolon. -/
theorem forInit_accepts (hassigns : language.NeverAssigns)
    (hbegins : language.Begins fun t => t.kind.startsOperand = true) :
    (forInit expression).Accepts ForInit.bare (ForInitForm language)
      fun t => t.kind = .punctuation .semicolon := by
  intro c init ts d hinit hreads hend
  cases hinit with
  | declaration hdeclaration =>
    obtain ⟨type, x, es, htype, hreturns, hsame, hclean⟩ :=
      exists_returns_declaration hexpression hdeclaration hreads hend false
    refine ⟨_, es, returns_forInit_iff.2 (.declaration htype hreturns), ?_, hclean⟩
    rw [ForInit.bare, ForInit.bare, hsame]
  | simple hsimple =>
    obtain ⟨s, es, hreturns, hsame, hclean⟩ :=
      simple_accepts hexpression hassigns _ _ _ _ hsimple hreads hend
    obtain ⟨t, us, rfl, hstarts⟩ := simpleForm_begins hbegins _ _ hsimple
    obtain ⟨_, rfl⟩ := hreads.of_cons
    have htype : ∀ type, c.peek.kind ≠ .dataType type := by
      intro type htype
      simp [htype, TokenKind.startsOperand] at hstarts
    refine ⟨_, es, returns_forInit_iff.2 (.simple htype hreturns), ?_, hclean⟩
    rw [ForInit.bare, ForInit.bare, hsame]

end

end GeoLang.Grammar
