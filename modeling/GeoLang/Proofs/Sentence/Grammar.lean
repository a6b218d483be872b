import GeoLang.Proofs.Vocabulary.Operator
import GeoLang.Grammar.Program
import GeoLang.Tree.Outline

namespace GeoLang

/-- The token is the operator. -/
def Token.IsOperator (t : Token) (op : Operator) : Prop :=
  ∃ cls, t.kind = .operator cls op ∧ op.MayHaveClass cls

namespace Grammar

/-- Which tokens form which value; the spans of a value are left open. -/
abbrev Language (α : Type) := α → List Token → Prop

variable {α : Type}

/-- Items one behind the other. -/
inductive Items (item : Language α) : Language (List α)
  | nil : Items item [] []
  | cons {a : α} {as : List α} {ts us : List Token} (hitem : item a ts) (hrest : Items item as us) :
      Items item (a :: as) (ts ++ us)

/-- An item with a punctuation mark in front of it. -/
inductive Led (p : Punctuation) (item : Language α) : Language α
  | mk {a : α} {t : Token} {ts : List Token} (hmark : t.kind = .punctuation p) (hitem : item a ts) :
      Led p item a (t :: ts)

/-- A name that is known by its lexeme: an identifier, a keyword or a reserved word. -/
inductive NameForm : Language String
  | mk {t : Token} (hname : t.kind.isName = true) : NameForm t.lexeme [t]

/-- A dotted path. -/
inductive PathForm : Language Path
  | mk {t : Token} {members : List String} {ts : List Token} {span : Span}
      (hname : t.kind.isName = true) (hmembers : Items (Led .dot NameForm) members ts) :
      PathForm ⟨t.lexeme, members, span⟩ (t :: ts)

/-- Expressions in parentheses, with commas between them. -/
inductive ArgumentsForm (expression : Language Expr) : Language (List Expr)
  | none {t u : Token} (hopen : t.kind = .punctuation .lParen)
      (hclose : u.kind = .punctuation .rParen) : ArgumentsForm expression [] [t, u]
  | some {first : Expr} {others : List Expr} {t v : Token} {ts us : List Token}
      (hopen : t.kind = .punctuation .lParen) (hfirst : expression first ts)
      (hothers : Items (Led .comma expression) others us)
      (hclose : v.kind = .punctuation .rParen) :
      ArgumentsForm expression (first :: others) (t :: (ts ++ (us ++ [v])))

/-- A single operand. A reserved word alone in front of a parenthesis is a call of its form, and
    never the callee of another call. -/
inductive FactorForm (factor expression : Language Expr) : Language Expr
  | unary {op : Operator} {operand : Expr} {t : Token} {ts : List Token} {span : Span}
      (hop : t.IsOperator op) (hleads : op.leads = true) (hoperand : factor operand ts) :
      FactorForm factor expression (.unary op operand span) (t :: ts)
  | literal {v : Literal} {t : Token} {span : Span} (hliteral : t.kind = .literal v) :
      FactorForm factor expression (.literal v span) [t]
  | grouped {inner : Expr} {t u : Token} {ts : List Token} {span : Span}
      (hopen : t.kind = .punctuation .lParen) (hinner : expression inner ts)
      (hclose : u.kind = .punctuation .rParen) :
      FactorForm factor expression (.grouped inner span) (t :: (ts ++ [u]))
  | reserved {word : ReservedWord} {args : List Expr} {t : Token} {ts : List Token} {span : Span}
      (hword : t.kind = .reserved word) (hargs : ArgumentsForm expression args ts) :
      FactorForm factor expression (.reserved word args span) (t :: ts)
  | path {p : Path} {ts : List Token} (hpath : PathForm p ts) :
      FactorForm factor expression (.path p) ts
  | post {op : Operator} {p : Path} {t : Token} {ts : List Token} {span : Span}
      (hpath : PathForm p ts) (hop : t.IsOperator op) (hstep : op.isStep = true) :
      FactorForm factor expression (.post op p span) (ts ++ [t])
  | call {callee : Path} {args : List Expr} {ts us : List Token} {span : Span}
      (hcallee : PathForm callee ts) (hword : ∀ t word, ts = [t] → t.kind ≠ .reserved word)
      (hargs : ArgumentsForm expression args us) :
      FactorForm factor expression (.call callee args span) (ts ++ us)

/-- A row of operands, all joined with strength `least` or more. What stands on the left of an
    operator is part of the same row; what stands on the right is a row of its own. -/
inductive RowForm (factor : Language Expr) (operand : Nat → Language Expr) :
    (least : Nat) → Language Expr
  | factor {least : Nat} {e : Expr} {ts : List Token} (hfactor : factor e ts) :
      RowForm factor operand least e ts
  | join {least strength : Nat} {op : Operator} {lhs rhs : Expr} {t : Token} {ts us : List Token}
      {span : Span} (hstrength : op.strength? = some strength) (hleast : least ≤ strength)
      (hlhs : RowForm factor operand (op.leftStrength strength) lhs ts) (hop : t.IsOperator op)
      (hrhs : operand (op.rightStrength strength) rhs us) :
      RowForm factor operand least (.binary lhs op rhs span) (ts ++ t :: us)

mutual

/-- Rows of operands that need no more than `n` levels. -/
def RowDerives : (n : Nat) → (least : Nat) → Language Expr
  | 0, _ => fun _ _ => False
  | n + 1, least => RowForm (FactorDerives n) (RowDerives n) least

/-- Operands that need no more than `n` levels. -/
def FactorDerives : (n : Nat) → Language Expr
  | 0 => fun _ _ => False
  | n + 1 => FactorForm (FactorDerives n) (RowDerives n 1)

end

/-- Expressions that need no more than `n` levels. -/
def ExpressionDerives (n : Nat) : Language Expr := RowDerives n 1

/-- The unit behind the name of a variable. `sq` needs a unit behind it. -/
inductive UnitForm : Language (Option UnitSpecifier)
  | none : UnitForm none []
  | plain {unit : ReservedWord} {t : Token} {span : Span} (hword : t.kind = .reserved unit)
      (hunit : unit.isUnit = true) : UnitForm (some ⟨unit, false, span⟩) [t]
  | squared {unit : ReservedWord} {t u : Token} {span : Span} (hsq : t.kind = .reserved .sq)
      (hword : u.kind = .reserved unit) (hunit : unit.isUnit = true) :
      UnitForm (some ⟨unit, true, span⟩) [t, u]

/-- The first value of a variable, if it has one. -/
inductive InitializerForm (expression : Language Expr) : Language (Option Expr)
  | none : InitializerForm expression none []
  | some {e : Expr} {t : Token} {ts : List Token} (hassign : t.IsOperator .assign)
      (hexpression : expression e ts) : InitializerForm expression (some e) (t :: ts)

/-- A variable that is declared, with its unit and its first value. -/
inductive DeclaratorForm (expression : Language Expr) : Language Declarator
  | mk {name : String} {unit : Option UnitSpecifier} {init : Option Expr} {t : Token}
      {ts us : List Token} {span : Span} (hname : t.kind = .identifier name) (hunit : UnitForm unit ts)
      (hinit : InitializerForm expression init us) :
      DeclaratorForm expression ⟨name, unit, init, span⟩ (t :: (ts ++ us))

/-- A declaration without a semicolon. -/
inductive DeclarationForm (expression : Language Expr) : Language Declaration
  | mk {type : DataType} {first : Declarator} {others : List Declarator} {t : Token}
      {ts us : List Token} {span : Span} (htype : t.kind = .dataType type)
      (hfirst : DeclaratorForm expression first ts)
      (hothers : Items (Led .comma (DeclaratorForm expression)) others us) :
      DeclarationForm expression ⟨type, first, others, span⟩ (t :: (ts ++ us))

/-- A path, an assignment operator and a value. -/
inductive AssignmentForm (expression : Language Expr) : Language Simple
  | mk {target : Path} {op : Operator} {value : Expr} {t : Token} {ts us : List Token} {span : Span}
      (htarget : PathForm target ts) (hop : t.IsOperator op) (hassigns : op.cls = .assignment)
      (hvalue : expression value us) :
      AssignmentForm expression (.assignment target op value span) (ts ++ t :: us)

/-- An assignment or an expression. -/
inductive SimpleForm (expression : Language Expr) : Language Simple
  | assignment {s : Simple} {ts : List Token} (hassignment : AssignmentForm expression s ts) :
      SimpleForm expression s ts
  | expression {e : Expr} {ts : List Token} (hexpression : expression e ts) :
      SimpleForm expression (.ofExpr e) ts

/-- The last part of the header of a `for` loop. -/
inductive UpdateForm (expression : Language Expr) : Language Simple
  | before {op : Operator} {p : Path} {t : Token} {ts : List Token} {span : Span}
      (hop : t.IsOperator op) (hstep : op.isStep = true) (hpath : PathForm p ts) :
      UpdateForm expression (.expression (.unary op (.path p) span)) (t :: ts)
  | behind {op : Operator} {p : Path} {t : Token} {ts : List Token} {span : Span}
      (hpath : PathForm p ts) (hop : t.IsOperator op) (hstep : op.isStep = true) :
      UpdateForm expression (.expression (.post op p span)) (ts ++ [t])
  | assignment {s : Simple} {ts : List Token} (hassignment : AssignmentForm expression s ts) :
      UpdateForm expression s ts

/-- The first part of the header of a `for` loop. -/
inductive ForInitForm (expression : Language Expr) : Language ForInit
  | declaration {d : Declaration} {ts : List Token} (hdeclaration : DeclarationForm expression d ts) :
      ForInitForm expression (.declaration d) ts
  | simple {s : Simple} {ts : List Token} (hsimple : SimpleForm expression s ts) :
      ForInitForm expression (.simple s) ts

/-- A path in braces. -/
inductive PlaceholderForm : Language Path
  | mk {p : Path} {t u : Token} {ts : List Token} (hopen : t.kind = .punctuation .lCurly)
      (hpath : PathForm p ts) (hclose : u.kind = .punctuation .rCurly) :
      PlaceholderForm p (t :: (ts ++ [u]))

/-- A `while` loop. Where only the levels matter, a form takes the languages of its parts as
    arguments. -/
inductive WhileForm (expression : Language Expr) (block : Language Block) : Language Statement
  | mk {condition : Expr} {body : Block} {t u v : Token} {ts us : List Token} {span : Span}
      (hword : t.kind = .keyword .whileKw) (hopen : u.kind = .punctuation .lParen)
      (hcondition : expression condition ts) (hclose : v.kind = .punctuation .rParen)
      (hbody : block body us) :
      WhileForm expression block (.whileLoop condition body span) (t :: u :: (ts ++ v :: us))

/-- A `for` loop. -/
inductive ForForm (expression : Language Expr) (block : Language Block) : Language Statement
  | mk {init : ForInit} {condition : Expr} {update : Simple} {body : Block} {t u v w x : Token}
      {ts us vs ws : List Token} {span : Span} (hword : t.kind = .keyword .forKw)
      (hopen : u.kind = .punctuation .lParen) (hinit : ForInitForm expression init ts)
      (hinitEnd : v.kind = .punctuation .semicolon) (hcondition : expression condition us)
      (hconditionEnd : w.kind = .punctuation .semicolon) (hupdate : UpdateForm expression update vs)
      (hclose : x.kind = .punctuation .rParen) (hbody : block body ws) :
      ForForm expression block (.forLoop init condition update body span)
        (t :: u :: (ts ++ v :: (us ++ w :: (vs ++ x :: ws))))

/-- A `repeat` loop. -/
inductive RepeatForm (expression : Language Expr) (block : Language Block) : Language Statement
  | mk {count : Expr} {body : Block} {t u : Token} {ts us : List Token} {span : Span}
      (hword : t.kind = .keyword .repeatKw) (hcount : expression count ts)
      (htimes : u.kind = .keyword .timesKw) (hbody : block body us) :
      RepeatForm expression block (.repeatLoop count body span) (t :: (ts ++ u :: us))

/-- A text and the paths that fill it in. -/
inductive OutputForm : Language Statement
  | mk {newline : Bool} {template : String} {placeholders : List Path} {t u v w x : Token}
      {ts : List Token} {span : Span} (hword : t.kind = .keyword (outputKeyword newline))
      (hopen : u.kind = .punctuation .lParen) (htemplate : v.kind = .literal (.string template))
      (hplaceholders : Items PlaceholderForm placeholders ts)
      (hclose : w.kind = .punctuation .rParen) (hend : x.kind = .punctuation .semicolon) :
      OutputForm (.output newline template placeholders span) (t :: u :: v :: (ts ++ [w, x]))

/-- An input statement. -/
inductive InputForm : Language Statement
  | mk {t u v w : Token} {span : Span} (hword : t.kind = .keyword .inputKw)
      (hopen : u.kind = .punctuation .lParen) (hclose : v.kind = .punctuation .rParen)
      (hend : w.kind = .punctuation .semicolon) : InputForm (.input span) [t, u, v, w]

/-- The keywords that no assignment and no expression may begin with where a statement is
    expected. -/
def leadingKeywords : List Keyword :=
  [.ifKw, .whileKw, .forKw, .repeatKw, .printKw, .printlnKw, .inputKw, .elseKw]

/-- A statement, by the first token that it may begin with. -/
inductive StatementForm (expression : Language Expr) (conditional : Language Conditional)
    (block : Language Block) : Language Statement
  | declaration {d : Declaration} {t : Token} {ts : List Token}
      (hdeclaration : DeclarationForm expression d ts) (hend : t.kind = .punctuation .semicolon) :
      StatementForm expression conditional block (.declaration d) (ts ++ [t])
  | simple {s : Simple} {t : Token} {ts : List Token} (hsimple : SimpleForm expression s ts)
      (hlead : ∀ u ∈ ts.head?, ∀ word ∈ leadingKeywords, u.kind ≠ .keyword word)
      (hend : t.kind = .punctuation .semicolon) :
      StatementForm expression conditional block (.simple s) (ts ++ [t])
  | conditional {c : Conditional} {ts : List Token} (hconditional : conditional c ts) :
      StatementForm expression conditional block (.conditional c) ts
  | whileLoop {s : Statement} {ts : List Token} (hloop : WhileForm expression block s ts) :
      StatementForm expression conditional block s ts
  | forLoop {s : Statement} {ts : List Token} (hloop : ForForm expression block s ts) :
      StatementForm expression conditional block s ts
  | repeatLoop {s : Statement} {ts : List Token} (hloop : RepeatForm expression block s ts) :
      StatementForm expression conditional block s ts
  | output {s : Statement} {ts : List Token} (houtput : OutputForm s ts) :
      StatementForm expression conditional block s ts
  | input {s : Statement} {ts : List Token} (hinput : InputForm s ts) :
      StatementForm expression conditional block s ts

/-- What stands behind the block of a conditional. -/
inductive OtherwiseForm (conditional : Language Conditional) (block : Language Block) :
    Language Otherwise
  | nothing : OtherwiseForm conditional block .nothing []
  | conditional {c : Conditional} {t : Token} {ts : List Token} (helse : t.kind = .keyword .elseKw)
      (hconditional : conditional c ts) :
      OtherwiseForm conditional block (.conditional c) (t :: ts)
  | block {b : Block} {t : Token} {ts : List Token} (helse : t.kind = .keyword .elseKw)
      (hblock : block b ts) : OtherwiseForm conditional block (.block b) (t :: ts)

/-- A conditional with all of its clauses. -/
inductive ConditionalForm (expression : Language Expr) (conditional : Language Conditional)
    (block : Language Block) : Language Conditional
  | mk {condition : Expr} {body : Block} {otherwise : Otherwise} {t u v : Token}
      {ts us vs : List Token} {clause span : Span} (hword : t.kind = .keyword .ifKw)
      (hopen : u.kind = .punctuation .lParen) (hcondition : expression condition ts)
      (hclose : v.kind = .punctuation .rParen) (hbody : block body us)
      (hotherwise : OtherwiseForm conditional block otherwise vs) :
      ConditionalForm expression conditional block (.mk condition body clause otherwise span)
        (t :: u :: (ts ++ v :: (us ++ vs)))

/-- Statements in braces. -/
inductive BlockForm (statement : Language Statement) : Language Block
  | mk {statements : List Statement} {t u : Token} {ts : List Token} {span : Span}
      (hopen : t.kind = .punctuation .lCurly) (hstatements : Items statement statements ts)
      (hclose : u.kind = .punctuation .rCurly) :
      BlockForm statement (.mk statements span) (t :: (ts ++ [u]))

mutual

/-- Statements that need no more than `n` levels. -/
def StatementDerives : (n : Nat) → Language Statement
  | 0 => fun _ _ => False
  | n + 1 => StatementForm (ExpressionDerives n) (ConditionalDerives n) (BlockDerives n)

/-- Conditionals that need no more than `n` levels. -/
def ConditionalDerives : (n : Nat) → Language Conditional
  | 0 => fun _ _ => False
  | n + 1 => ConditionalForm (ExpressionDerives n) (ConditionalDerives n) (BlockDerives n)

/-- Blocks that need no more than `n` levels. -/
def BlockDerives : (n : Nat) → Language Block
  | 0 => fun _ _ => False
  | n + 1 => BlockForm (StatementDerives n)

end

/-- Programs in which no statement needs more levels than are allowed. -/
def ProgramDerives (p : Program) (ts : List Token) : Prop :=
  Items (StatementDerives maxNesting) p.statements ts

end Grammar

end GeoLang
