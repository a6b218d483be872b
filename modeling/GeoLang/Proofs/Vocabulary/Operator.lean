import GeoLang.Grammar.Expression

namespace GeoLang.Operator

/-- No step joins two operands. -/
theorem isStep_of_strength? {op : Operator} {strength : Nat}
    (hstrength : op.strength? = some strength) : op.isStep = false := by
  cases op <;> simp_all [strength?, entry, isStep]

/-- No assignment joins two operands of an expression. -/
theorem cls_ne_assignment_of_strength? {op : Operator} {strength : Nat}
    (hstrength : op.strength? = some strength) : op.cls ≠ .assignment := by
  cases op <;> simp_all [strength?, cls, entry]

/-- No step is an assignment. -/
theorem cls_ne_assignment_of_isStep {op : Operator} (hstep : op.isStep = true) :
    op.cls ≠ .assignment := by
  cases op <;> simp_all [isStep, cls, entry]

/-- Only the strongest operators join to the right, so a row of operators of one strength can be
    read in one way only. -/
theorem associativity_of_strength? {op : Operator} {strength : Nat}
    (hstrength : op.strength? = some strength) :
    op.associativity = if strength = 110 then .right else .left := by
  cases op <;> simp_all [strength?, associativity, entry] <;> omega

/-- The strength that an operator asks of its left operand: more than its own if it joins to the
    right. -/
def leftStrength (op : Operator) (strength : Nat) : Nat :=
  match op.associativity with
  | .left => strength
  | .right => strength + 1

theorem le_leftStrength (op : Operator) (strength : Nat) : strength ≤ op.leftStrength strength := by
  unfold leftStrength
  split <;> omega

/-- Only the exponent lets an operator of its own strength into its right operand. -/
theorem rightStrength_eq {op : Operator} {strength : Nat} (hstrength : op.strength? = some strength) :
    op.rightStrength strength = if op = .exponent then strength else strength + 1 := by
  cases op <;> simp_all [strength?, rightStrength, associativity, entry]

/-- Only the exponent keeps an operator of its own strength out of its left operand. -/
theorem leftStrength_eq {op : Operator} {strength : Nat} (hstrength : op.strength? = some strength) :
    op.leftStrength strength = if op = .exponent then strength + 1 else strength := by
  cases op <;> simp_all [strength?, leftStrength, associativity, entry]

theorem le_rightStrength (op : Operator) (strength : Nat) : strength ≤ op.rightStrength strength := by
  unfold rightStrength
  split <;> omega

/-- Of two operators the second may have the first in its left operand if and only if the first does
    not let the second into its right operand. So a row can be read in one way only. -/
theorem leftStrength_le_iff {op other : Operator} {strength otherStrength : Nat}
    (hop : op.strength? = some strength) (hother : other.strength? = some otherStrength) :
    other.leftStrength otherStrength ≤ strength ↔ otherStrength < op.rightStrength strength := by
  unfold leftStrength rightStrength
  rw [associativity_of_strength? hop, associativity_of_strength? hother]
  by_cases heq : otherStrength = strength
  · subst heq
    split <;> simp_all
  · split <;> split <;> omega

/-- The classes that a token of the operator may have: its own, and a sign may be taken for
    unary. -/
def MayHaveClass (op : Operator) (cls : Class) : Prop :=
  cls = op.cls ∨ cls = .unary ∧ op.isSign = true

instance (op : Operator) (cls : Class) : Decidable (op.MayHaveClass cls) :=
  inferInstanceAs (Decidable (_ ∨ _))

/-- No operator but an assignment has the class of assignments. -/
theorem MayHaveClass.ne_assignment {op : Operator} {cls : Class} (hclass : op.MayHaveClass cls)
    (hop : op.cls ≠ .assignment) : cls ≠ .assignment := by
  obtain rfl | ⟨rfl, _⟩ := hclass
  · exact hop
  · simp

end GeoLang.Operator
