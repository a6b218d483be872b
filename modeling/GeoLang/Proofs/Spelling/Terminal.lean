import GeoLang.Tree.Outline

namespace GeoLang

/-- What stands at one place of a tree written out. A `name` is a segment of a path and may be any
    word. A `terminator` is the semicolon of a declaration, which may be left out. -/
inductive Terminal where
  | keyword (word : Keyword)
  | dataType (type : DataType)
  | reserved (word : ReservedWord)
  | identifier (name : String)
  | name (spelling : String)
  | literal (value : Literal)
  | operator (op : Operator)
  | mark (p : Punctuation)
  | terminator
deriving DecidableEq, Repr

/-- The token is one that the terminal stands for. -/
def Terminal.Fits (x : Terminal) (t : Token) : Prop :=
  match x with
  | keyword word => t.kind = .keyword word
  | dataType type => t.kind = .dataType type
  | reserved word => t.kind = .reserved word
  | identifier s => t.kind = .identifier s
  | name s => t.kind.isName = true ∧ t.lexeme = s
  | literal value => t.kind = .literal value
  | operator op => t.kind.operator? = some op
  | mark p => t.kind = .punctuation p
  | terminator => t.kind = .punctuation .semicolon

instance (x : Terminal) (t : Token) : Decidable (x.Fits t) := by
  unfold Terminal.Fits
  split <;> infer_instance

/-- No terminal stands for the end of the text. -/
theorem Terminal.Fits.kind_ne_eof {x : Terminal} {t : Token} (hfits : x.Fits t) :
    t.kind ≠ .eof := by
  intro heof
  cases x <;> simp [Fits, heof, TokenKind.isName, TokenKind.operator?] at hfits

/-- No terminal stands for a comment. -/
theorem Terminal.Fits.isComment_eq_false {x : Terminal} {t : Token} (hfits : x.Fits t) :
    t.kind.isComment = false := by
  cases hkind : t.kind with
  | comment => cases x <;> simp [Fits, hkind, TokenKind.isName, TokenKind.operator?] at hfits
  | _ => rfl

/-- The tokens write out the terminals, one after the other; nothing is left out but terminators of
    declarations. -/
inductive Written : List Terminal → List Token → Prop where
  | nil : Written [] []
  | token {x : Terminal} {t : Token} {xs : List Terminal} {ts : List Token} (hfits : x.Fits t)
      (hrest : Written xs ts) : Written (x :: xs) (t :: ts)
  | omitted {xs : List Terminal} {ts : List Token} (hrest : Written xs ts) :
      Written (.terminator :: xs) ts

namespace Written

/-- Two texts one behind the other write out both trees. -/
theorem append {xs ys : List Terminal} {ts us : List Token} (hfirst : Written xs ts)
    (hsecond : Written ys us) : Written (xs ++ ys) (ts ++ us) := by
  induction hfirst with
  | nil => exact hsecond
  | token hfits _ ih => exact .token hfits ih
  | omitted _ ih => exact .omitted ih

/-- Every token is one of those that the tree asks for. -/
theorem exists_fits {xs : List Terminal} {ts : List Token} (hwritten : Written xs ts) :
    ∀ t ∈ ts, ∃ x ∈ xs, x.Fits t := by
  induction hwritten with
  | nil => simp
  | token hfits _ ih =>
    intro t ht
    obtain rfl | ht := List.mem_cons.1 ht
    · exact ⟨_, List.mem_cons_self, hfits⟩
    · obtain ⟨x, hx, hfits⟩ := ih t ht
      exact ⟨x, List.mem_cons_of_mem _ hx, hfits⟩
  | omitted _ ih =>
    intro t ht
    obtain ⟨x, hx, hfits⟩ := ih t ht
    exact ⟨x, List.mem_cons_of_mem _ hx, hfits⟩

end Written

/-- The names of a path, with points between them. -/
def Path.terminals (p : Path) : List Terminal :=
  .name p.head :: p.members.flatMap fun s => [.mark .dot, .name s]

mutual

/-- How an expression is written out. Only what the tree determines is given; whether a sign was
    taken for unary is left open. -/
def Expr.terminals : Expr → List Terminal
  | .literal v _ => [.literal v]
  | .path p => p.terminals
  | .binary lhs op rhs _ => lhs.terminals ++ .operator op :: rhs.terminals
  | .unary op operand _ => .operator op :: operand.terminals
  | .post op operand _ => operand.terminals ++ [.operator op]
  | .call callee args _ => callee.terminals ++ Expr.argumentTerminals args
  | .grouped inner _ => .mark .lParen :: inner.terminals ++ [.mark .rParen]
  | .reserved word args _ => .reserved word :: Expr.argumentTerminals args

/-- Arguments stand in parentheses. -/
def Expr.argumentTerminals : List Expr → List Terminal
  | [] => [.mark .lParen, .mark .rParen]
  | e :: es => .mark .lParen :: e.terminals ++ Expr.otherTerminals es ++ [.mark .rParen]

/-- Each argument but the first has a comma in front of it. -/
def Expr.otherTerminals : List Expr → List Terminal
  | [] => []
  | e :: es => .mark .comma :: e.terminals ++ Expr.otherTerminals es

end

theorem Expr.otherTerminals_eq_flatMap (es : List Expr) :
    Expr.otherTerminals es = es.flatMap fun e => .mark .comma :: e.terminals := by
  induction es with
  | nil => rfl
  | cons e es ih => rw [otherTerminals, ih, List.flatMap_cons]

/-- The unit, with `sq` in front if it is squared. -/
def UnitSpecifier.terminals (u : UnitSpecifier) : List Terminal :=
  if u.squared then [.reserved .sq, .reserved u.unit] else [.reserved u.unit]

/-- The name, its unit, and its first value behind `=`. -/
def Declarator.terminals (x : Declarator) : List Terminal :=
  .identifier x.name :: (x.unit.elim [] UnitSpecifier.terminals
    ++ x.initializer.elim [] fun e => .operator .assign :: e.terminals)

/-- Without the semicolon, which depends on where the declaration stands. -/
def Declaration.terminals (x : Declaration) : List Terminal :=
  .dataType x.type :: (x.first.terminals
    ++ x.others.flatMap fun y => .mark .comma :: y.terminals)

/-- The statement without its semicolon. -/
def Simple.terminals : Simple → List Terminal
  | assignment target op value _ => target.terminals ++ .operator op :: value.terminals
  | call callee args _ => callee.terminals ++ Expr.argumentTerminals args
  | expression e => e.terminals

theorem Simple.terminals_ofExpr (e : Expr) : (Simple.ofExpr e).terminals = e.terminals := by
  cases e <;> rfl

def ForInit.terminals : ForInit → List Terminal
  | declaration d => d.terminals
  | simple s => s.terminals

/-- The path of a placeholder stands in braces. -/
def Path.placeholderTerminals (p : Path) : List Terminal :=
  .mark .lCurly :: p.terminals ++ [.mark .rCurly]

mutual

/-- How a statement is written out. Only the semicolon of a declaration may be left out. -/
def Statement.terminals : Statement → List Terminal
  | .declaration d => d.terminals ++ [.terminator]
  | .simple s => s.terminals ++ [.mark .semicolon]
  | .conditional c => c.terminals
  | .whileLoop condition body _ =>
    .keyword .whileKw :: .mark .lParen :: condition.terminals ++ .mark .rParen :: body.terminals
  | .forLoop init condition update body _ =>
    .keyword .forKw :: .mark .lParen :: init.terminals ++ .mark .semicolon :: condition.terminals
      ++ .mark .semicolon :: update.terminals ++ .mark .rParen :: body.terminals
  | .repeatLoop count body _ =>
    .keyword .repeatKw :: count.terminals ++ .keyword .timesKw :: body.terminals
  | .output newline template placeholders _ =>
    .keyword (outputKeyword newline) :: .mark .lParen :: .literal (.string template)
      :: placeholders.flatMap Path.placeholderTerminals ++ [.mark .rParen, .mark .semicolon]
  | .input _ => [.keyword .inputKw, .mark .lParen, .mark .rParen, .mark .semicolon]

def Statement.listTerminals : List Statement → List Terminal
  | [] => []
  | s :: ss => s.terminals ++ Statement.listTerminals ss

/-- The statements in braces. -/
def Block.terminals : Block → List Terminal
  | .mk statements _ => .mark .lCurly :: Statement.listTerminals statements ++ [.mark .rCurly]

/-- The condition in parentheses, the block, and what follows it. -/
def Conditional.terminals : Conditional → List Terminal
  | .mk condition block _ otherwise _ =>
    .keyword .ifKw :: .mark .lParen :: condition.terminals ++ .mark .rParen :: block.terminals
      ++ otherwise.terminals

/-- Nothing, or `else` and what follows it. -/
def Otherwise.terminals : Otherwise → List Terminal
  | .nothing => []
  | .block b => .keyword .elseKw :: b.terminals
  | .conditional c => .keyword .elseKw :: c.terminals

end

theorem Statement.listTerminals_eq_flatMap (ss : List Statement) :
    Statement.listTerminals ss = ss.flatMap Statement.terminals := by
  induction ss with
  | nil => rfl
  | cons s ss ih => rw [listTerminals, ih, List.flatMap_cons]

/-- The tokens that the nodes of a program stand for, in the order of the text. -/
def Program.terminals (p : Program) : List Terminal := p.statements.flatMap Statement.terminals

end GeoLang
