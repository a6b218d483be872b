import GeoLang.Proofs.Outline.Value

namespace GeoLang

/-- What a line says. A `mark` has no value beside its kind. -/
inductive Heading where
  | mark (kind : NodeKind)
  | declaration (type : DataType)
  | declarator (name : String)
  | unit (unit : UnitSpecifier)
  | assignment (op : Operator)
  | output (newline : Bool) (template : String)
  | call (callee : Path)
  | binary (op : Operator)
  | unary (op : Operator) (behind : Bool)
  | literal (v : Literal)
  | path (p : Path)
  | reserved (word : ReservedWord)

namespace Heading

/-- The kind of node that the line names. -/
def kind : Heading → NodeKind
  | mark kind => kind
  | declaration _ => .variableDeclaration
  | declarator _ => .declarator
  | unit _ => .unitSpecifier
  | assignment _ => .assignment
  | output _ _ => .outputStatement
  | call _ => .functionCall
  | binary op => op.nodeKind
  | unary _ _ => .unaryOp
  | literal _ => .literal
  | path p => p.kind
  | reserved word => .reserved word.form

/-- What stands behind the kind, if anything does. -/
def value : Heading → Option String
  | mark _ => none
  | declaration type => some type.spelling
  | declarator name => some name
  | unit u => some u.text
  | assignment op => some op.spelling
  | output newline template => some (outputText newline template)
  | call callee => some callee.text
  | binary op => some op.spelling
  | unary op behind => some (unaryText op behind)
  | literal v => some v.text
  | path p => some p.text
  | reserved word => some word.spelling

/-- The heading without spans. -/
def bare : Heading → Heading
  | unit u => .unit u.bare
  | call callee => .call callee.bare
  | path p => .path p.bare
  | l => l

/-- The names in the heading are words, and the reals satisfy the property. -/
def Legible (R : Binary64 → Prop) : Heading → Prop
  | declarator name => IsWord name
  | call callee => callee.Named
  | literal v => v.RealsIn R
  | path p => p.Named
  | _ => True

/-- Values keep to their line. -/
theorem not_mem_value {R : Binary64 → Prop} {l : Heading} (hl : l.Legible R) :
    ∀ v ∈ l.value, '\n' ∉ v.toList := by
  rintro v hv
  cases l with
  | mark => cases hv
  | declaration type =>
    obtain rfl := Option.some.inj hv
    exact type.not_mem_spelling
  | declarator name =>
    obtain rfl := Option.some.inj hv
    exact hl.not_mem (by decide)
  | unit u =>
    obtain rfl := Option.some.inj hv
    exact u.not_mem_text
  | assignment op | binary op =>
    obtain rfl := Option.some.inj hv
    exact op.plain_spelling.2
  | output newline template =>
    obtain rfl := Option.some.inj hv
    exact not_mem_outputText newline template
  | call p | path p =>
    obtain rfl := Option.some.inj hv
    exact Path.not_mem_text hl
  | unary op behind =>
    obtain rfl := Option.some.inj hv
    exact not_mem_unaryText op behind
  | literal w =>
    obtain rfl := Option.some.inj hv
    exact w.not_mem_text
  | reserved word =>
    obtain rfl := Option.some.inj hv
    exact word.plain_spelling.2

end Heading

/-- The kind with those put together that differ in their value only. -/
def NodeKind.general : NodeKind → NodeKind
  | logicalOp => binaryOp
  | memberAccess => identifier
  | reserved _ => reserved .unit
  | k => k

private theorem Operator.general_nodeKind (op : Operator) : op.nodeKind.general = .binaryOp := by
  rw [nodeKind]
  split <;> rfl

private theorem Path.general_kind (p : Path) : p.kind.general = .identifier := by
  rw [kind]
  split <;> rfl

namespace Heading

/-- Which sort of heading a line with a value has. -/
def sort? : Heading → Option NodeKind
  | mark _ => none
  | binary _ => some .binaryOp
  | path _ => some .identifier
  | reserved _ => some (.reserved .unit)
  | l => some l.kind

/-- The line tells the sort of its heading. -/
theorem sort?_eq (l : Heading) : l.sort? = l.value.map fun _ => l.kind.general := by
  cases l with
  | binary op => exact congrArg some op.general_nodeKind.symm
  | path p => exact congrArg some p.general_kind.symm
  | _ => rfl

/-- Headings with the same line are the same. -/
theorem bare_eq_of_line_eq {R : Binary64 → Prop} (hR : ∀ x y, R x → R y → x.text = y.text → x = y)
    {l l' : Heading} (hl : l.Legible R) (hl' : l'.Legible R) (hkind : l.kind = l'.kind)
    (hvalue : l.value = l'.value) : l.bare = l'.bare := by
  have hsort : l.sort? = l'.sort? := by rw [sort?_eq, sort?_eq, hkind, hvalue]
  cases l with
  | mark kind =>
    cases l' with
    | mark kind' => rw [show kind = kind' from hkind]
    | _ => cases hsort
  | declaration type =>
    cases l' with
    | declaration type' => rw [DataType.eq_of_spelling_eq (Option.some.inj hvalue)]
    | _ => cases hsort
  | declarator name =>
    cases l' with
    | declarator name' => rw [Option.some.inj hvalue]
    | _ => cases hsort
  | unit u =>
    cases l' with
    | unit u' => rw [bare, bare, UnitSpecifier.bare_eq_of_text_eq (Option.some.inj hvalue)]
    | _ => cases hsort
  | assignment op =>
    cases l' with
    | assignment op' => rw [Operator.eq_of_spelling_eq (Option.some.inj hvalue)]
    | _ => cases hsort
  | output newline template =>
    cases l' with
    | output newline' template' =>
      obtain ⟨rfl, rfl⟩ := outputText_inj (Option.some.inj hvalue)
      rfl
    | _ => cases hsort
  | call callee =>
    cases l' with
    | call callee' => rw [bare, bare, Path.bare_eq_of_text_eq hl hl' (Option.some.inj hvalue)]
    | _ => cases hsort
  | binary op =>
    cases l' with
    | binary op' => rw [Operator.eq_of_spelling_eq (Option.some.inj hvalue)]
    | _ => cases hsort
  | unary op behind =>
    cases l' with
    | unary op' behind' =>
      obtain ⟨rfl, rfl⟩ := unaryText_inj (Option.some.inj hvalue)
      rfl
    | _ => cases hsort
  | literal v =>
    cases l' with
    | literal v' => rw [Literal.eq_of_text_eq hR hl hl' (Option.some.inj hvalue)]
    | _ => cases hsort
  | path p =>
    cases l' with
    | path p' => rw [bare, bare, Path.bare_eq_of_text_eq hl hl' (Option.some.inj hvalue)]
    | _ => cases hsort
  | reserved word =>
    cases l' with
    | reserved word' => rw [ReservedWord.eq_of_spelling_eq (Option.some.inj hvalue)]
    | _ => cases hsort

end Heading

end GeoLang
