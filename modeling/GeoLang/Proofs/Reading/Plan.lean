import GeoLang.Grammar.Program

namespace GeoLang.Grammar

/-- What is known of a loop of attempts with `n` levels of nesting left: it ends with the text, and
    inside of statements it is the loop of a block and stops at a closing brace. -/
structure Loop (n : Nat) (next? : Token → Option Unit) : Prop where
  eof : ∀ t, t.kind = .eof → next? t = none
  brace : n < maxNesting → ∀ t, t.kind = .punctuation .rCurly → next? t = none

/-- A plan of a rule that has `n` levels of nesting left. Rules that are `given` are not taken
    apart. The errors noted on the way are never those that make a rule fail, and attempts at
    statements stand in loops. -/
inductive Plan (given : (α : Type) → Rule α → Prop) : Nat → {α : Type} → Rule α → Type 1 where
  | given {n : Nat} {α : Type} {r : Rule α} (hgiven : given α r) : Plan given n r
  | pure {n : Nat} {α : Type} (a : α) : Plan given n (pure a : Rule α)
  | bind {n : Nat} {α β : Type} {r : Rule α} {f : α → Rule β} (first : Plan given n r)
      (rest : ∀ a, Plan given n (f a)) : Plan given n (r >>= f)
  | peek {n : Nat} : Plan given n peek
  | peekSecond {n : Nat} : Plan given n peekSecond
  | atAssignment {n : Nat} : Plan given n atAssignment
  | spanSince {n : Nat} (start : Span) : Plan given n (spanSince start)
  | advance {n : Nat} : Plan given n advance
  | note {n : Nat} {e : ParseError} (hnote : e.isSyntactic = false) : Plan given n (note e)
  | unexpected {n : Nat} {α : Type} (x : Expectation) : Plan given n (unexpected x : Rule α)
  | closeParenthesis {n : Nat} : Plan given n closeParenthesis
  | many {n : Nat} {α β : Type} {next? : Token → Option β} {item : β → Rule α}
      (each : ∀ b, Plan given n (item b)) : Plan given n (many next? item)
  | attempts {n : Nat} {next? : Token → Option Unit} (hloop : Loop n next?)
      (attempt : Plan given n (statement n)) :
      Plan given n (Grammar.many next? fun _ => recovering (statement n))
  | nested {n : Nat} {α : Type} {r : Rule α} (inner : Plan given n r) : Plan given (n + 1) r
  | tooDeep {α : Type} : Plan given 0 (tooDeep : Rule α)

namespace Plan

variable {given : (α : Type) → Rule α → Prop} {n : Nat}

/-- A choice has the plan of the side that is taken. -/
def ite {α : Type} {p : Prop} [Decidable p] {r s : Rule α} (onTrue : Plan given n r)
    (onFalse : Plan given n s) : Plan given n (if p then r else s) := by
  split
  · exact onTrue
  · exact onFalse

def keyword (word : Keyword) : Plan given n (Grammar.keyword word) :=
  .bind .peek fun _ => .ite (.bind .advance fun _ => .pure _) (.unexpected _)

def mark (p : Punctuation) (x : Expectation) : Plan given n (Grammar.mark p x) :=
  .bind .peek fun _ => .ite (.bind .advance fun _ => .pure _) (.unexpected _)

def name (x : Expectation) : Plan given n (Grammar.name x) :=
  .bind .peek fun _ => .ite (.bind .advance fun _ => .pure _) (.unexpected _)

/-- The members of a path are read by a loop. -/
def path : Plan given n Grammar.path :=
  .bind .peek fun _ => .bind (.name _) fun _ =>
    .bind (.many fun _ => .bind .advance fun _ => .name _) fun _ =>
      .bind (.spanSince _) fun _ => .pure _

section

variable {expression : Rule Expr}

/-- So are the arguments behind the first. -/
def arguments (pexpression : Plan given n expression) : Plan given n (Grammar.arguments expression) :=
  .bind (.mark _ _) fun _ => .bind .peek fun _ =>
    .ite (.bind .closeParenthesis fun _ => .pure _)
      (.bind pexpression fun _ => .bind (.many fun _ => .bind .advance fun _ => pexpression) fun _ =>
        .bind .closeParenthesis fun _ => .pure _)

def reservedCall (pexpression : Plan given n expression) (word : ReservedWord) (start : Span) :
    Plan given n (Grammar.reservedCall expression word start) :=
  .bind .advance fun _ => .bind (.arguments pexpression) fun _ => .bind (.spanSince _) fun _ =>
    .bind (.ite (.pure _) (.note rfl)) fun _ => .pure _

def pathExpression (pexpression : Plan given n expression) :
    Plan given n (Grammar.pathExpression expression) := by
  refine .bind .path fun p => .bind .peek fun t => ?_
  split
  · exact .bind (.arguments pexpression) fun _ => .bind (.spanSince _) fun _ => .pure _
  · exact .ite (.bind .advance fun _ => .bind (.spanSince _) fun _ => .pure _) (.pure _)
  · exact .pure _

/-- Only prefixes and groups go down a level inside of an operand; the levels are entered by the
    rules that they call. -/
def factorRule {factor : Rule Expr} (pfactor : Plan given n factor)
    (pexpression : Plan given n expression) :
    Plan given n (Grammar.factorRule factor expression) := by
  refine .bind .peek fun t => ?_
  split
  · exact .ite (.bind .advance fun _ => .bind pfactor fun _ => .bind (.spanSince _) fun _ => .pure _)
      (.unexpected _)
  · exact .bind .advance fun _ => .pure _
  · exact .bind .advance fun _ => .bind pexpression fun _ => .bind .closeParenthesis fun _ =>
      .bind (.spanSince _) fun _ => .pure _
  · exact .bind .peekSecond fun _ => .ite (.reservedCall pexpression _ _) (.pathExpression pexpression)
  · exact .pathExpression pexpression
  · exact .pathExpression pexpression
  · exact .unexpected _

/-- An operand, and then a loop over the links of its row. -/
def binaryRule {factor : Rule Expr} {operand : Nat → Rule Expr} (pfactor : Plan given n factor)
    (poperand : ∀ least, Plan given n (operand least)) (least : Nat) :
    Plan given n (Grammar.binaryRule factor operand least) :=
  .bind pfactor fun _ =>
    .bind (.many fun _ => .bind .advance fun _ => .bind (poperand _) fun _ => .pure _) fun _ => .pure _

def unitSpecifier : Plan given n Grammar.unitSpecifier := by
  refine .bind .peek fun t => .ite (.bind .advance fun _ => .bind .peek fun u => ?_) ?_
  · split
    · exact .bind .advance fun _ => .bind (.spanSince _) fun _ => .pure _
    · exact .unexpected _
  · split
    · exact .bind .advance fun _ => .bind (.spanSince _) fun _ => .pure _
    · exact .pure _

/-- Checking the literal notes an error and reads nothing. -/
def initializer (pexpression : Plan given n expression) (type : DataType) :
    Plan given n (Grammar.initializer expression type) := by
  refine .bind .peek fun _ => .ite (.bind .advance fun _ => .bind pexpression fun e =>
    .bind ?_ fun _ => .pure _) (.pure _)
  unfold checkInitializer
  split
  · exact .ite (.pure _) (.note rfl)
  · exact .pure _

def declarator (pexpression : Plan given n expression) (type : DataType) :
    Plan given n (Grammar.declarator expression type) := by
  refine .bind .peek fun t => ?_
  split
  · exact .bind .advance fun _ => .bind .unitSpecifier fun _ => .bind (.initializer pexpression type)
      fun _ => .bind (.spanSince _) fun _ => .pure _
  · exact .unexpected _

/-- One name, a loop over the others, and a semicolon that need not be there. -/
def declaration (pexpression : Plan given n expression) (terminated : Bool) (type : DataType) :
    Plan given n (Grammar.declaration expression terminated type) :=
  .bind .peek fun _ => .bind .advance fun _ => .bind (.declarator pexpression type) fun _ =>
    .bind (.many fun _ => .bind .advance fun _ => .declarator pexpression type) fun _ =>
      .bind (.bind .peek fun _ => .ite .advance (.pure _)) fun _ =>
        .bind (.spanSince _) fun _ => .pure _

def assignment (pexpression : Plan given n expression) :
    Plan given n (Grammar.assignment expression) := by
  refine .bind .path fun _ => .bind .peek fun t => ?_
  split
  · exact .bind .advance fun _ => .bind pexpression fun _ => .pure _
  · exact .unexpected _

def simple (pexpression : Plan given n expression) : Plan given n (Grammar.simple expression) :=
  .bind .atAssignment fun _ => .ite (.assignment pexpression) (.bind pexpression fun _ => .pure _)

def postStep : Plan given n Grammar.postStep := by
  refine .bind .peek fun _ => .bind .path fun _ => .bind .peek fun u => ?_
  split
  · exact .bind .advance fun _ => .bind (.spanSince _) fun _ => .pure _
  · exact .unexpected _

def update (pexpression : Plan given n expression) : Plan given n (Grammar.update expression) := by
  refine .bind .peek fun t => ?_
  split
  · exact .bind .advance fun _ => .bind .path fun _ => .bind (.spanSince _) fun _ => .pure _
  · exact .bind .atAssignment fun _ => .ite (.assignment pexpression) .postStep

def forInit (pexpression : Plan given n expression) : Plan given n (Grammar.forInit expression) := by
  refine .bind .peek fun t => ?_
  split
  · exact .bind (.declaration pexpression _ _) fun _ => .pure _
  · exact .bind (.simple pexpression) fun _ => .pure _

def template : Plan given n Grammar.template := by
  refine .bind .peek fun t => ?_
  split
  · exact .bind .advance fun _ => .pure _
  · exact .unexpected _

def placeholder : Plan given n Grammar.placeholder :=
  .bind .advance fun _ => .bind .path fun _ => .bind (.mark _ _) fun _ => .pure _

/-- The placeholders are read by a loop, without attempts. -/
def output (newline : Bool) : Plan given n (Grammar.output newline) :=
  .bind .peek fun _ => .bind .advance fun _ => .bind (.mark _ _) fun _ => .bind .template fun _ =>
    .bind (.many fun _ => .placeholder) fun _ => .bind .closeParenthesis fun _ =>
      .bind (.mark _ _) fun _ => .bind (.spanSince _) fun _ => .pure _

def input : Plan given n Grammar.input :=
  .bind (.keyword _) fun _ => .bind (.mark _ _) fun _ => .bind .closeParenthesis fun _ =>
    .bind (.mark _ _) fun _ => .bind (.spanSince _) fun _ => .pure _

variable {block : Rule Block}

def whileLoop (pexpression : Plan given n expression) (pblock : Plan given n block) :
    Plan given n (Grammar.whileLoop expression block) :=
  .bind (.keyword _) fun _ => .bind (.mark _ _) fun _ => .bind pexpression fun _ =>
    .bind .closeParenthesis fun _ => .bind pblock fun _ => .bind (.spanSince _) fun _ => .pure _

def forLoop (pexpression : Plan given n expression) (pblock : Plan given n block) :
    Plan given n (Grammar.forLoop expression block) :=
  .bind (.keyword _) fun _ => .bind (.mark _ _) fun _ => .bind (.forInit pexpression) fun _ =>
    .bind (.mark _ _) fun _ => .bind pexpression fun _ => .bind (.mark _ _) fun _ =>
      .bind (.update pexpression) fun _ => .bind .closeParenthesis fun _ => .bind pblock fun _ =>
        .bind (.spanSince _) fun _ => .pure _

def repeatLoop (pexpression : Plan given n expression) (pblock : Plan given n block) :
    Plan given n (Grammar.repeatLoop expression block) :=
  .bind (.keyword _) fun _ => .bind pexpression fun _ => .bind (.keyword _) fun _ =>
    .bind pblock fun _ => .bind (.spanSince _) fun _ => .pure _

variable {conditional : Rule Conditional}

def statementRule (pexpression : Plan given n expression) (pconditional : Plan given n conditional)
    (pblock : Plan given n block) :
    Plan given n (Grammar.statementRule expression conditional block) := by
  refine .bind .peek fun t => ?_
  split
  · exact .bind (.declaration pexpression _ _) fun _ => .pure _
  · exact .bind pconditional fun _ => .pure _
  · exact .whileLoop pexpression pblock
  · exact .forLoop pexpression pblock
  · exact .repeatLoop pexpression pblock
  · exact .output _
  · exact .output _
  · exact .input
  · exact .bind (.simple pexpression) fun _ => .bind (.mark _ _) fun _ => .pure _

def otherwiseRule (pconditional : Plan given n conditional) (pblock : Plan given n block) :
    Plan given n (Grammar.otherwiseRule conditional block) :=
  .bind .peek fun _ => .ite
    (.bind .advance fun _ => .bind .peek fun _ => .ite (.bind pconditional fun _ => .pure _)
      (.bind pblock fun _ => .pure _))
    (.pure _)

def conditionalRule (pexpression : Plan given n expression) (pconditional : Plan given n conditional)
    (pblock : Plan given n block) :
    Plan given n (Grammar.conditionalRule expression conditional block) :=
  .bind (.keyword _) fun _ => .bind (.mark _ _) fun _ => .bind pexpression fun _ =>
    .bind .closeParenthesis fun _ => .bind pblock fun _ => .bind (.spanSince _) fun _ =>
      .bind (.otherwiseRule pconditional pblock) fun _ => .bind (.spanSince _) fun _ => .pure _

end

/-- A block goes on until its closing brace or the end of the text. -/
theorem loop_insideBlock : Loop n insideBlock where
  eof t heof := by simp [insideBlock, heof, TokenKind.isEof]
  brace _ t hbrace := by simp [insideBlock, hbrace, TokenKind.isPunctuation]

/-- A program goes on until the end of the text. -/
theorem loop_insideProgram : Loop maxNesting insideProgram where
  eof t heof := by simp [insideProgram, heof, TokenKind.isEof]
  brace hless := absurd hless (Nat.lt_irrefl maxNesting)

/-- A block makes attempts at statements. -/
def blockRule (pstatement : Plan given n (Grammar.statement n)) :
    Plan given n (Grammar.blockRule (Grammar.statement n)) :=
  .bind (.mark _ _) fun _ => .bind (.attempts loop_insideBlock pstatement) fun _ =>
    .bind (.mark _ _) fun _ => .bind (.spanSince _) fun _ => .pure _

/-- Rows and single operands each enter a level, and call one another for the next. -/
def binaryAndFactor : (n : Nat) →
    (∀ least, Plan given n (binary n least)) × Plan given n (factor n)
  | 0 => ⟨fun _ => .tooDeep, .tooDeep⟩
  | n + 1 =>
    ⟨fun least => .nested (.binaryRule (binaryAndFactor n).2 (binaryAndFactor n).1 least),
      .nested (.factorRule (binaryAndFactor n).2 ((binaryAndFactor n).1 1))⟩

def expression (n : Nat) : Plan given n (Grammar.expression n) := (binaryAndFactor n).1 1

/-- The rules that call one another: statements, conditionals and blocks. -/
structure Parts (given : (α : Type) → Rule α → Prop) (n : Nat) where
  statement : Plan given n (Grammar.statement n)
  conditional : Plan given n (Grammar.conditional n)
  block : Plan given n (Grammar.block n)

/-- Statements, conditionals and blocks each enter a level. -/
def parts : (n : Nat) → Parts given n
  | 0 => ⟨.tooDeep, .tooDeep, .tooDeep⟩
  | n + 1 =>
    ⟨.nested (.statementRule (.expression n) (parts n).conditional (parts n).block),
      .nested (.conditionalRule (.expression n) (parts n).conditional (parts n).block),
      .nested (.blockRule (parts n).statement)⟩

/-- A program makes attempts at statements, with all levels left. -/
def program : Plan given maxNesting Grammar.program :=
  .bind (.attempts loop_insideProgram (parts maxNesting).statement) fun _ => .pure _

end Plan

end GeoLang.Grammar
