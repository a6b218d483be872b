import Mathlib.Data.List.Basic
import GeoLang.Tree.Outline

namespace GeoLang

/-- Two lists that go on with an element of a kind that does not occur before are split alike. -/
theorem append_inj_of_stop {α : Type} {p : α → Prop} {xs xs' ys ys' : List α}
    (hxs : ∀ a ∈ xs, ¬ p a) (hxs' : ∀ a ∈ xs', ¬ p a) (hys : ∃ a ∈ ys.head?, p a)
    (hys' : ∃ a ∈ ys'.head?, p a) (heq : xs ++ ys = xs' ++ ys') : xs = xs' ∧ ys = ys' := by
  induction xs generalizing xs' with
  | nil =>
    cases xs' with
    | nil => exact ⟨rfl, heq⟩
    | cons b bs =>
      obtain ⟨a, ha, hstop⟩ := hys
      rw [List.nil_append] at heq
      rw [heq] at ha
      obtain rfl : b = a := Option.some.inj ha
      exact absurd hstop (hxs' b List.mem_cons_self)
  | cons a as ih =>
    obtain ⟨ha, has⟩ := List.forall_mem_cons.1 hxs
    cases xs' with
    | nil =>
      obtain ⟨b, hb, hstop⟩ := hys'
      rw [List.nil_append] at heq
      rw [← heq] at hb
      obtain rfl : a = b := Option.some.inj hb
      exact absurd hstop ha
    | cons b bs =>
      obtain ⟨rfl, htail⟩ := List.cons.inj heq
      obtain ⟨rfl, hrest⟩ := ih has (List.forall_mem_cons.1 hxs').2 htail
      exact ⟨rfl, hrest⟩

namespace NodeKind

/-- All kinds of nodes. -/
def all : List NodeKind :=
  [program, variableDeclaration, declarator, assignment, conditionalStatement, ifClause, block,
    whileLoop, forLoop, repeatLoop, outputStatement, inputStatement, functionCall, binaryOp, logicalOp,
    unaryOp, literal, identifier, memberAccess, unitSpecifier, reserved .geometricCalculation,
    reserved .shape, reserved .measurement, reserved .unit, reserved .fetch, reserved .setPrecision,
    reserved .cubic]

/-- There are no others. -/
theorem mem_all (k : NodeKind) : k ∈ all := by
  cases k with
  | reserved form => cases form <;> decide
  | _ => decide

private theorem eq_of_name_eq {k l : NodeKind} (hname : k.name = l.name) : k = l := by
  have hinj : ∀ k ∈ all, all.find? (·.name == k.name) = some k := by decide
  have hk := hinj k k.mem_all
  rw [hname, hinj l l.mem_all] at hk
  exact (Option.some.inj hk).symm

private theorem isAlpha_of_mem_name (k : NodeKind) : ∀ c ∈ k.name.toList, c.isAlpha = true := by
  have hall : k.name.toList.all Char.isAlpha = true := by
    cases k with
    | reserved form => cases form <;> decide
    | _ => decide
  exact List.all_eq_true.1 hall

end NodeKind

namespace Outline

mutual

/-- No value contains a line feed. -/
def Plain : Outline → Prop
  | node _ value children => (∀ v ∈ value, '\n' ∉ v.toList) ∧ AllPlain children

/-- All outlines of a list are plain. -/
def AllPlain : List Outline → Prop
  | [] => True
  | o :: os => o.Plain ∧ AllPlain os

end

/-- The value of a line with what stands in front of it. -/
def valueChars (value : Option String) : List Char := value.elim [] fun v => ':' :: ' ' :: v.toList

/-- The characters of a line: indentation, branch, kind and value. -/
theorem toList_line (level : Nat) (last : Bool) (kind : NodeKind) (value : Option String) :
    (line level last kind value).toList =
      List.replicate (4 * level) ' ' ++ (if last then '└' else '├') :: '─' :: '─' :: ' ' ::
        (kind.name.toList ++ (valueChars value ++ ['\n'])) := by
  have hindent : (String.join (List.replicate level "    ")).toList = List.replicate (4 * level) ' ' := by
    have hunit : "    ".toList = List.replicate 4 ' ' := by decide
    rw [String.toList_join, List.flatMap_def, List.map_replicate, hunit,
      List.flatten_replicate_replicate, Nat.mul_comm]
  cases last <;> cases value <;> simp [line, hindent, valueChars]

/-- The value of a line is determined by what follows the name, up to the end of the line. -/
theorem valueChars_append_inj {value value' : Option String} (hvalue : ∀ v ∈ value, '\n' ∉ v.toList)
    (hvalue' : ∀ v ∈ value', '\n' ∉ v.toList) {rest rest' : List Char}
    (heq : valueChars value ++ '\n' :: rest = valueChars value' ++ '\n' :: rest') :
    value = value' ∧ rest = rest' := by
  have hplain : ∀ value : Option String, (∀ v ∈ value, '\n' ∉ v.toList) →
      ∀ c ∈ valueChars value, ¬ c = '\n' := by
    rintro (_ | v) hv c hc rfl
    · cases hc
    · have hmem : '\n' ∈ v.toList := by simpa [valueChars] using hc
      exact hv v rfl hmem
  obtain ⟨hchars, hrest⟩ := append_inj_of_stop (p := (· = '\n')) (hplain value hvalue)
    (hplain value' hvalue') ⟨_, rfl, rfl⟩ ⟨_, rfl, rfl⟩ heq
  refine ⟨?_, (List.cons.inj hrest).2⟩
  cases value with
  | none =>
    cases value' with
    | none => rfl
    | some v' => cases hchars
  | some v =>
    cases value' with
    | none => cases hchars
    | some v' =>
      have htext : v.toList = v'.toList := by simpa [valueChars] using hchars
      rw [String.toList_inj.1 htext]

/-- On one level the line at the beginning of a text is determined by the text. -/
theorem line_append_inj {level : Nat} {last last' : Bool} {kind kind' : NodeKind}
    {value value' : Option String} (hvalue : ∀ v ∈ value, '\n' ∉ v.toList)
    (hvalue' : ∀ v ∈ value', '\n' ∉ v.toList) {rest rest' : List Char}
    (heq : (line level last kind value).toList ++ rest = (line level last' kind' value').toList ++ rest') :
    last = last' ∧ kind = kind' ∧ value = value' ∧ rest = rest' := by
  simp only [toList_line, List.append_assoc, List.cons_append, List.nil_append,
    List.append_cancel_left_eq, List.cons.injEq, true_and] at heq
  obtain ⟨hbranch, heq⟩ := heq
  have hlast : last = last' := by
    cases last <;> cases last' <;> simp_all
  have hstop : ∀ (value : Option String) (rest : List Char),
      ∃ c ∈ (valueChars value ++ '\n' :: rest).head?, ¬ c.isAlpha = true := by
    rintro (_ | v) rest
    · exact ⟨'\n', rfl, by decide⟩
    · exact ⟨':', rfl, by decide⟩
  have hname : ∀ kind : NodeKind, ∀ c ∈ kind.name.toList, ¬ ¬ c.isAlpha = true := fun kind c hc =>
    not_not_intro (kind.isAlpha_of_mem_name c hc)
  obtain ⟨hkind, hvalues⟩ :=
    append_inj_of_stop (hname kind) (hname kind') (hstop value rest) (hstop value' rest') heq
  obtain ⟨rfl, rfl⟩ := valueChars_append_inj hvalue hvalue' hvalues
  exact ⟨hlast, NodeKind.eq_of_name_eq (String.toList_inj.1 hkind), rfl, rfl⟩

/-- The text does not begin with the indentation of the level. -/
def Shallow (level : Nat) (cs : List Char) : Prop := ¬ List.replicate (4 * level) ' ' <+: cs

/-- A text that is not indented to a level is not indented further. -/
theorem Shallow.mono {level more : Nat} {cs : List Char} (hcs : Shallow level cs) (hle : level ≤ more) :
    Shallow more cs := by
  intro hprefix
  obtain ⟨k, rfl⟩ := Nat.exists_eq_add_of_le hle
  have hless : List.replicate (4 * level) ' ' <+: List.replicate (4 * (level + k)) ' ' := by
    rw [Nat.mul_add, List.replicate_add]
    exact List.prefix_append _ _
  exact hcs (hless.trans hprefix)

private theorem not_shallow_line (level : Nat) (last : Bool) (kind : NodeKind)
    (value : Option String)
    (rest : List Char) : ¬ Shallow level ((line level last kind value).toList ++ rest) := by
  rw [toList_line, List.append_assoc, Shallow, not_not]
  exact List.prefix_append _ _

/-- Below a line on a higher level there is no line of this level. -/
theorem shallow_line {level more : Nat} (hless : level < more) (last : Bool) (kind : NodeKind)
    (value : Option String) (rest : List Char) :
    Shallow more ((line level last kind value).toList ++ rest) := by
  intro hprefix
  obtain ⟨k, hk⟩ := Nat.exists_eq_add_of_lt hless
  have hindent : 4 * more = 4 * level + (4 * k + 3 + 1) := by omega
  rw [toList_line, List.append_assoc, hindent, List.replicate_add, List.prefix_append_right_inj,
    List.replicate_succ, List.cons_append, List.cons_prefix_cons] at hprefix
  cases last <;> simp at hprefix

/-- The characters of all lines of an outline. -/
def chars (level : Nat) (last : Bool) (o : Outline) : List Char :=
  (o.lines level last).flatMap String.toList

/-- The characters of the lines of a list of outlines. -/
def charsBelow (level : Nat) (os : List Outline) : List Char :=
  (linesBelow level os).flatMap String.toList

/-- The first line, and the lines below it. -/
theorem chars_node (level : Nat) (last : Bool) (kind : NodeKind) (value : Option String)
    (children : List Outline) :
    (node kind value children).chars level last =
      (line level last kind value).toList ++ charsBelow (level + 1) children := by
  rw [chars, lines, List.flatMap_cons, charsBelow]

theorem charsBelow_nil (level : Nat) : charsBelow level [] = [] := by
  rw [charsBelow, linesBelow, List.flatMap_nil]

theorem charsBelow_cons (level : Nat) (o : Outline) (os : List Outline) :
    charsBelow level (o :: os) = o.chars level os.isEmpty ++ charsBelow level os := by
  rw [charsBelow, linesBelow, List.flatMap_append, chars, charsBelow]

private theorem shallow_chars {level more : Nat} (hless : level < more) (last : Bool) (o : Outline)
    (rest : List Char) : Shallow more (o.chars level last ++ rest) := by
  obtain ⟨kind, value, children⟩ := o
  rw [chars_node, List.append_assoc]
  exact shallow_line hless last kind value _

/-- An outline begins with the indentation of its level. -/
theorem not_shallow_chars (level : Nat) (last : Bool) (o : Outline) (rest : List Char) :
    ¬ Shallow level (o.chars level last ++ rest) := by
  obtain ⟨kind, value, children⟩ := o
  rw [chars_node, List.append_assoc]
  exact not_shallow_line level last kind value _

/-- Behind the first of the outlines on a level stands another one or nothing of the level below. -/
theorem shallow_charsBelow (level : Nat) (os : List Outline) {rest : List Char}
    (hrest : Shallow level rest) : Shallow (level + 1) (charsBelow level os ++ rest) := by
  cases os with
  | nil =>
    rw [charsBelow_nil]
    exact hrest.mono (Nat.le_succ level)
  | cons o os =>
    rw [charsBelow_cons, List.append_assoc]
    exact shallow_chars (Nat.lt_succ_self level) _ o _

mutual

/-- In front of a text that does not go on below its line, an outline is determined by the
    characters. -/
theorem chars_append_inj : ∀ {o o' : Outline} {level : Nat} {last last' : Bool} {rest rest' : List Char},
    o.Plain → o'.Plain → Shallow (level + 1) rest → Shallow (level + 1) rest' →
      o.chars level last ++ rest = o'.chars level last' ++ rest' → o = o' ∧ rest = rest'
  | node kind value children, node kind' value' children', level, last, last', rest, rest', ho, ho',
      hrest, hrest', heq => by
    obtain ⟨hvalue, hchildren⟩ := ho
    obtain ⟨hvalue', hchildren'⟩ := ho'
    rw [chars_node, chars_node, List.append_assoc, List.append_assoc] at heq
    obtain ⟨-, rfl, rfl, hbelow⟩ := line_append_inj hvalue hvalue' heq
    obtain ⟨rfl, rfl⟩ := charsBelow_append_inj hchildren hchildren' hrest hrest' hbelow
    exact ⟨rfl, rfl⟩

/-- Lines in front of a shallow text can be told from it, and from each other; by recursion over
    both lists. -/
theorem charsBelow_append_inj : ∀ {os os' : List Outline} {level : Nat} {rest rest' : List Char},
    AllPlain os → AllPlain os' → Shallow level rest → Shallow level rest' →
      charsBelow level os ++ rest = charsBelow level os' ++ rest' → os = os' ∧ rest = rest'
  | [], [], level, rest, rest', _, _, _, _, heq => by
    rw [charsBelow_nil] at heq
    exact ⟨rfl, heq⟩
  | [], o' :: os', level, rest, rest', _, _, hrest, _, heq => by
    rw [charsBelow_nil, charsBelow_cons, List.append_assoc, List.nil_append] at heq
    rw [heq] at hrest
    exact absurd hrest (not_shallow_chars _ _ _ _)
  | o :: os, [], level, rest, rest', _, _, _, hrest', heq => by
    rw [charsBelow_nil, charsBelow_cons, List.append_assoc, List.nil_append] at heq
    rw [← heq] at hrest'
    exact absurd hrest' (not_shallow_chars _ _ _ _)
  | o :: os, o' :: os', level, rest, rest', hos, hos', hrest, hrest', heq => by
    obtain ⟨ho, hos⟩ := hos
    obtain ⟨ho', hos'⟩ := hos'
    rw [charsBelow_cons, charsBelow_cons, List.append_assoc, List.append_assoc] at heq
    -- What follows the first outline is shallow in both texts, so the first outlines end alike.
    obtain ⟨rfl, hbelow⟩ := chars_append_inj ho ho' (shallow_charsBelow level os hrest)
      (shallow_charsBelow level os' hrest') heq
    obtain ⟨rfl, rfl⟩ := charsBelow_append_inj hos hos' hrest hrest' hbelow
    exact ⟨rfl, rfl⟩

end

/-- The text of an outline is made of its lines. -/
theorem toList_text (o : Outline) : o.text.toList = o.chars 0 true := by
  rw [text, String.toList_join, chars]

/-- Plain outlines with one text are one. -/
theorem eq_of_text_eq {o o' : Outline} (ho : o.Plain) (ho' : o'.Plain) (htext : o.text = o'.text) :
    o = o' := by
  have hend : Shallow 1 [] := by simp [Shallow]
  have heq : o.chars 0 true ++ [] = o'.chars 0 true ++ [] := by
    rw [← toList_text, ← toList_text, htext]
  exact (chars_append_inj ho ho' hend hend heq).1

end Outline

end GeoLang
