import GeoLang.Proofs.Reading.Declaration

namespace GeoLang

open Grammar (arityFaults initializerFaults)

mutual

/-- The calls with a number of arguments that their word does not admit, inner ones first. -/
def Expr.faults : Expr → List ParseError
  | .literal _ _ => []
  | .path _ => []
  | .binary lhs _ rhs _ => lhs.faults ++ rhs.faults
  | .unary _ operand _ => operand.faults
  | .post _ _ _ => []
  | .call _ args _ => Expr.listFaults args
  | .grouped inner _ => inner.faults
  | .reserved word args span => Expr.listFaults args ++ arityFaults word args span

def Expr.listFaults : List Expr → List ParseError
  | [] => []
  | e :: es => e.faults ++ Expr.listFaults es

end

/-- Only an initializer that is nothing but a literal is compared with the type. -/
def Declarator.faults (type : DataType) (x : Declarator) : List ParseError :=
  x.initializer.elim [] fun e => e.faults ++ initializerFaults type e

/-- The literals of another type than the declared one, and the faults of the initializers. -/
def Declaration.faults (x : Declaration) : List ParseError :=
  x.declarators.flatMap (·.faults x.type)

/-- The faults of the parts of an assignment or a call. -/
def Simple.faults : Simple → List ParseError
  | assignment _ _ value _ => value.faults
  | call _ args _ => Expr.listFaults args
  | expression e => e.faults

def ForInit.faults : ForInit → List ParseError
  | declaration d => d.faults
  | simple s => s.faults

mutual

/-- The faults of all parts, in the order in which they are read. -/
def Statement.faults : Statement → List ParseError
  | .declaration d => d.faults
  | .simple s => s.faults
  | .conditional c => c.faults
  | .whileLoop condition body _ => condition.faults ++ body.faults
  | .forLoop init condition update body _ =>
    init.faults ++ condition.faults ++ update.faults ++ body.faults
  | .repeatLoop count body _ => count.faults ++ body.faults
  | .output _ _ _ _ => []
  | .input _ => []

def Statement.listFaults : List Statement → List ParseError
  | [] => []
  | s :: ss => s.faults ++ Statement.listFaults ss

def Block.faults : Block → List ParseError
  | .mk statements _ => Statement.listFaults statements

def Conditional.faults : Conditional → List ParseError
  | .mk condition block _ otherwise _ => condition.faults ++ block.faults ++ otherwise.faults

def Otherwise.faults : Otherwise → List ParseError
  | .nothing => []
  | .block b => b.faults
  | .conditional c => c.faults

end

/-- The faults of a program, statement by statement. -/
def Program.faults (p : Program) : List ParseError := Statement.listFaults p.statements

theorem Expr.listFaults_eq_flatMap (es : List Expr) :
    Expr.listFaults es = es.flatMap Expr.faults := by
  induction es with
  | nil => rfl
  | cons e es ih => rw [listFaults, ih, List.flatMap_cons]

theorem Statement.listFaults_eq_flatMap (ss : List Statement) :
    Statement.listFaults ss = ss.flatMap Statement.faults := by
  induction ss with
  | nil => rfl
  | cons s ss ih => rw [listFaults, ih, List.flatMap_cons]

/-- An expression has the same faults as a statement. -/
theorem Simple.faults_ofExpr (e : Expr) : (Simple.ofExpr e).faults = e.faults := by
  cases e <;> rfl

/-- Operands joined from the left have their faults in the order in which they stand. -/
theorem Expr.faults_foldl_join (lhs : Expr) (links : List (Operator × Expr)) :
    (links.foldl Expr.join lhs).faults = lhs.faults ++ links.flatMap fun l => l.2.faults := by
  induction links generalizing lhs with
  | nil => simp
  | cons l ls ih => simp [ih, Expr.join, Expr.faults]

end GeoLang
