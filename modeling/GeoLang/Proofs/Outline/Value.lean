import GeoLang.Proofs.Outline.Quoted
import GeoLang.Proofs.Sentence.Bare
import GeoLang.Lexical.Scan

namespace GeoLang

/-- Numbers are written in digits. -/
theorem isDigit_of_mem_repr {n : Nat} {c : Char} (hc : c ∈ n.repr.toList) : c.isDigit = true := by
  rw [Nat.repr_eq_ofList_toDigits, String.toList_ofList] at hc
  exact Nat.isDigit_of_mem_toDigits (by decide) (by decide) hc

/-- Integers are written with digits and a sign. -/
def InInteger (c : Char) : Prop := c.isDigit = true ∨ c = '-'

/-- Integers are written in digits and a sign. -/
theorem inInteger_of_mem_toString {n : Int} {c : Char} (hc : c ∈ (toString n).toList) : InInteger c := by
  rw [Int.toString_eq_repr] at hc
  cases n with
  | ofNat n => exact .inl (isDigit_of_mem_repr hc)
  | negSucc n =>
    rw [Int.repr, String.toList_append] at hc
    obtain hc | hc := List.mem_append.1 hc
    · exact .inr (List.mem_singleton.1 hc)
    · exact .inl (isDigit_of_mem_repr hc)

/-- Numbers can be told by their digits. -/
theorem repr_inj {m n : Nat} (heq : m.repr = n.repr) : m = n := by
  rw [Nat.repr_eq_ofList_toDigits, Nat.repr_eq_ofList_toDigits, String.ofList_inj] at heq
  have hvalue := congrArg (Nat.ofDigitChars 10 · 0) heq
  simpa only [Nat.ofDigitChars_toDigits (show 1 < 10 by decide) (Nat.le_refl 10)] using hvalue

private theorem toString_inj {m n : Int} (heq : toString m = toString n) : m = n := by
  have hsign : ∀ k l : Nat, k.repr ≠ "-" ++ l.repr := by
    intro k l heq
    have hmem : '-' ∈ k.repr.toList := by rw [heq]; simp
    simpa using isDigit_of_mem_repr hmem
  cases m with
  | ofNat k =>
    cases n with
    | ofNat l => rw [repr_inj heq]
    | negSucc l => exact absurd heq (hsign k (l + 1))
  | negSucc k =>
    cases n with
    | ofNat l => exact absurd heq.symm (hsign l (k + 1))
    | negSucc l =>
      have hrepr : (k + 1).repr = (l + 1).repr := String.append_right_inj "-" |>.1 heq
      rw [Nat.succ.inj (repr_inj hrepr)]

/-- Reals are written with a point or with a power of ten, too. -/
def MarksReal (c : Char) : Prop := c = '.' ∨ c = 'e'

/-- A character of an integer, or one that marks a real. -/
def InReal (c : Char) : Prop := InInteger c ∨ MarksReal c

namespace Binary64

private theorem isDigit_of_mem_digits {n places : Nat} {c : Char}
    (hc : c ∈ (Decimal.ofScaled n places).digits) :
    c.isDigit = true := by
  have hmem : c ∈ Nat.toDigits 10 n := by
    have hdropped := List.mem_reverse.1 hc
    exact List.mem_reverse.1 ((List.dropWhile_sublist _).subset hdropped)
  exact Nat.isDigit_of_mem_toDigits (by decide) (by decide) hmem

section

variable {d : Decimal} (hdigits : ∀ c ∈ d.digits, c.isDigit = true)

include hdigits

private theorem positional_chars : (∀ c ∈ d.positional, InReal c) ∧ '.' ∈ d.positional := by
  have hdigit : ∀ c ∈ d.digits, InReal c := fun c hc => .inl (.inl (hdigits c hc))
  have hzero : InReal '0' := .inl (.inl rfl)
  have hpoint : InReal '.' := .inr (.inl rfl)
  have hzeros : ∀ k, ∀ c ∈ List.replicate k '0', InReal c := by
    intro k c hc
    rw [List.eq_of_mem_replicate hc]
    exact hzero
  rw [Decimal.positional]
  split
  · refine ⟨?_, by simp⟩
    simp only [List.cons_append, List.forall_mem_cons, List.forall_mem_append]
    exact ⟨hzero, hpoint, hzeros _, hdigit⟩
  · dsimp only
    split
    · refine ⟨?_, by simp⟩
      simp only [List.forall_mem_append, List.forall_mem_cons]
      exact ⟨fun c hc => hdigit c (List.mem_of_mem_take hc), hpoint,
        fun c hc => hdigit c (List.mem_of_mem_drop hc)⟩
    · refine ⟨?_, by simp⟩
      simp only [List.forall_mem_append, List.forall_mem_cons]
      exact ⟨⟨hdigit, hzeros _⟩, hpoint, hzero, List.forall_mem_nil _⟩

private theorem scientific_chars : (∀ c ∈ d.scientific, InReal c) ∧ 'e' ∈ d.scientific := by
  have hdigit : ∀ c ∈ d.digits, InReal c := fun c hc => .inl (.inl (hdigits c hc))
  have hfraction : ∀ c ∈ (if d.digits.drop 1 = [] then [] else '.' :: d.digits.drop 1), InReal c := by
    split
    · exact List.forall_mem_nil _
    · exact List.forall_mem_cons.2 ⟨.inr (.inl rfl), fun c hc => hdigit c (List.mem_of_mem_drop hc)⟩
  rw [Decimal.scientific]
  refine ⟨?_, by simp⟩
  simp only [List.forall_mem_append, List.forall_mem_cons]
  exact ⟨⟨fun c hc => hdigit c (List.mem_of_mem_take hc), hfraction⟩, .inr (.inr rfl),
    fun c hc => .inl (inInteger_of_mem_toString hc)⟩

end

/-- A real is never written like an integer. -/
theorem text_chars (x : Binary64) :
    (∀ c ∈ x.text.toList, InReal c) ∧ ∃ c ∈ x.text.toList, MarksReal c := by
  have hdigits : ∀ c ∈ x.shortestDecimal.digits, c.isDigit = true := fun _ hc =>
    isDigit_of_mem_digits hc
  obtain ⟨hpositional, hpoint⟩ := positional_chars hdigits
  obtain ⟨hscientific, hpower⟩ := scientific_chars hdigits
  have hzero : ∀ c ∈ ['0', '.', '0'], InReal c := by simp [InReal, InInteger, MarksReal]
  let body :=
    if x.significand = 0 then ['0', '.', '0']
    else if -4 < x.shortestDecimal.point ∧ x.shortestDecimal.point ≤ 16 then x.shortestDecimal.positional
    else x.shortestDecimal.scientific
  have hbody : (∀ c ∈ body, InReal c) ∧ ∃ c ∈ body, MarksReal c := by
    unfold body
    split
    · exact ⟨hzero, '.', by simp, .inl rfl⟩
    · split
      · exact ⟨hpositional, '.', hpoint, .inl rfl⟩
      · exact ⟨hscientific, 'e', hpower, .inr rfl⟩
  obtain ⟨hchars, c, hc, hmark⟩ := hbody
  have htext : x.text.toList = if x.negative then '-' :: body else body := String.toList_ofList
  rw [htext]
  split
  · exact ⟨List.forall_mem_cons.2 ⟨.inl (.inr rfl), hchars⟩, c, List.mem_cons_of_mem _ hc, hmark⟩
  · exact ⟨hchars, c, hc, hmark⟩

end Binary64

namespace Literal

/-- The reals among the values satisfy the property. -/
def RealsIn (R : Binary64 → Prop) : Literal → Prop
  | real x => R x
  | _ => True

/-- The kind of literal that a text is one of. -/
def kindOf (cs : List Char) : LiteralKind :=
  match cs.head? with
  | some '"' => .string
  | some '\'' => .character
  | some 't' => .boolean
  | some 'f' => .boolean
  | _ => if '.' ∈ cs ∨ 'e' ∈ cs then .real else .integer

/-- Among such characters a dot or an exponent tells a real. -/
theorem kindOf_of_inReal {cs : List Char} (hcs : ∀ c ∈ cs, InReal c) :
    kindOf cs = if '.' ∈ cs ∨ 'e' ∈ cs then .real else .integer := by
  have hothers : ∀ c ∈ ['"', '\'', 't', 'f'], ¬ InReal c := by
    simp [InReal, InInteger, MarksReal]
  have hhead : ∀ c ∈ ['"', '\'', 't', 'f'], cs.head? ≠ some c := fun c hc hhead =>
    hothers c hc (hcs c (List.mem_of_mem_head? hhead))
  unfold kindOf
  split
  · next hquote => exact absurd hquote (hhead _ (by decide))
  · next hquote => exact absurd hquote (hhead _ (by decide))
  · next hword => exact absurd hword (hhead _ (by decide))
  · next hword => exact absurd hword (hhead _ (by decide))
  · rfl

/-- The kind of a literal can be told by its text. -/
theorem kindOf_text (v : Literal) : kindOf v.text.toList = v.kind := by
  cases v with
  | integer n =>
    have hchars : ∀ c ∈ (toString n).toList, InInteger c := fun _ hc => inInteger_of_mem_toString hc
    have hnone : ¬ ('.' ∈ (toString n).toList ∨ 'e' ∈ (toString n).toList) := by
      have hmarks : ¬ InInteger '.' ∧ ¬ InInteger 'e' := by simp [InInteger]
      exact fun h => h.elim (fun hmem => hmarks.1 (hchars _ hmem)) fun hmem => hmarks.2 (hchars _ hmem)
    rw [text, kindOf_of_inReal fun c hc => .inl (hchars c hc), if_neg hnone]
    rfl
  | real x =>
    obtain ⟨hchars, c, hc, hmark⟩ := x.text_chars
    have hsome : '.' ∈ x.text.toList ∨ 'e' ∈ x.text.toList := by
      obtain rfl | rfl := hmark
      · exact .inl hc
      · exact .inr hc
    rw [text, kindOf_of_inReal hchars, if_pos hsome]
    rfl
  | string s =>
    rw [text, Text.quoted, Text.toList_quotedWith]
    rfl
  | character c =>
    rw [text, Text.quotedChar, Text.toList_quotedWith]
    rfl
  | boolean b => cases b <;> decide

/-- Literals of the same text are the same, if that holds of the reals among them. -/
theorem eq_of_text_eq {R : Binary64 → Prop} (hR : ∀ x y, R x → R y → x.text = y.text → x = y)
    {v w : Literal} (hv : v.RealsIn R) (hw : w.RealsIn R) (htext : v.text = w.text) : v = w := by
  have hkind : v.kind = w.kind := by rw [← kindOf_text, ← kindOf_text, htext]
  cases v with
  | integer n =>
    cases w with
    | integer m => rw [toString_inj htext]
    | _ => cases hkind
  | real x =>
    cases w with
    | real y => rw [hR x y hv hw htext]
    | _ => cases hkind
  | string s =>
    cases w with
    | string t => rw [Text.quoted_inj htext]
    | _ => cases hkind
  | character c =>
    cases w with
    | character d => rw [(List.cons.inj (Text.quotedWith_inj (.inr rfl) htext)).1]
    | _ => cases hkind
  | boolean b =>
    cases w with
    | boolean b' =>
      cases b <;> cases b' <;> simp_all [text, Truth.spelling]
    | _ => cases hkind

/-- Texts of literals keep to their line. -/
theorem not_mem_text (v : Literal) : '\n' ∉ v.text.toList := by
  cases v with
  | integer n =>
    intro hmem
    have hchar := inInteger_of_mem_toString hmem
    simp [InInteger] at hchar
  | real x =>
    intro hmem
    have hchar := x.text_chars.1 _ hmem
    simp [InReal, InInteger, MarksReal] at hchar
  | string s => exact Text.not_mem_quotedWith (.inl rfl) _
  | character c => exact Text.not_mem_quotedWith (.inr rfl) _
  | boolean b => cases b <;> decide

end Literal

/-- The name of a variable or of a member. -/
def IsWord (s : String) : Prop := ∀ c ∈ s.toList, Lexical.isWordChar c = true

/-- A word has no characters but those of words. -/
theorem IsWord.not_mem {s : String} (hs : IsWord s) {c : Char} (hc : Lexical.isWordChar c = false) :
    c ∉ s.toList := by
  intro hmem
  rw [hs c hmem] at hc
  cases hc

namespace Path

/-- All names of the path are words. -/
def Named (p : Path) : Prop := ∀ s ∈ p.segments, IsWord s

/-- The names with dots between them. -/
theorem toList_text (p : Path) : p.text.toList = ['.'].intercalate (p.segments.map String.toList) := by
  rw [text, String.toList_intercalate]
  rfl

/-- No name has a dot, so that the text falls into the names again. -/
theorem splitOn_text {p : Path} (hp : p.Named) :
    p.text.toList.splitOn '.' = p.segments.map String.toList := by
  rw [toList_text, List.splitOn_intercalate]
  · intro cs hcs
    obtain ⟨s, hs, rfl⟩ := List.mem_map.1 hcs
    exact (hp s hs).not_mem (by decide)
  · simp [segments]

/-- Paths can be told by their text, spans apart. -/
theorem bare_eq_of_text_eq {p q : Path} (hp : p.Named) (hq : q.Named) (htext : p.text = q.text) :
    p.bare = q.bare := by
  have hsegments : p.segments.map String.toList = q.segments.map String.toList := by
    rw [← splitOn_text hp, ← splitOn_text hq, htext]
  have hinj : Function.Injective String.toList := fun _ _ heq => String.toList_inj.1 heq
  obtain ⟨hhead, hmembers⟩ := List.cons.inj (List.map_injective_iff.2 hinj hsegments)
  rw [bare, bare, hhead, hmembers]

private theorem mem_intercalate {c : Char} {css : List (List Char)}
    (hc : c ∈ ['.'].intercalate css) :
    c = '.' ∨ ∃ cs ∈ css, c ∈ cs := by
  induction css with
  | nil => cases hc
  | cons cs css ih =>
    cases css with
    | nil =>
      rw [List.intercalate_singleton] at hc
      exact .inr ⟨cs, List.mem_cons_self, hc⟩
    | cons ds css =>
      rw [List.intercalate_cons_cons, List.append_assoc] at hc
      obtain hc | hc := List.mem_append.1 hc
      · exact .inr ⟨cs, List.mem_cons_self, hc⟩
      · obtain rfl | hc := List.mem_cons.1 hc
        · exact .inl rfl
        · obtain hpoint | ⟨es, hes, hmem⟩ := ih hc
          · exact .inl hpoint
          · exact .inr ⟨es, List.mem_cons_of_mem _ hes, hmem⟩

theorem not_mem_text {p : Path} (hp : p.Named) : '\n' ∉ p.text.toList := by
  intro hmem
  rw [toList_text] at hmem
  obtain hpoint | ⟨cs, hcs, hmem⟩ := mem_intercalate hmem
  · cases hpoint
  · obtain ⟨s, hs, rfl⟩ := List.mem_map.1 hcs
    exact (hp s hs).not_mem (by decide) hmem

end Path

theorem Operator.eq_of_spelling_eq {op op' : Operator} (hspelling : op.spelling = op'.spelling) :
    op = op' :=
  vocabulary.eq_of_spelling_eq hspelling

theorem ReservedWord.eq_of_spelling_eq {word word' : ReservedWord}
    (hspelling : word.spelling = word'.spelling) : word = word' :=
  vocabulary.eq_of_spelling_eq hspelling

theorem DataType.eq_of_spelling_eq {type type' : DataType} (hspelling : type.spelling = type'.spelling) :
    type = type' :=
  vocabulary.eq_of_spelling_eq hspelling

theorem Operator.plain_spelling (op : Operator) : ' ' ∉ op.spelling.toList ∧ '\n' ∉ op.spelling.toList := by
  have hall : ∀ op ∈ all, ' ' ∉ op.spelling.toList ∧ '\n' ∉ op.spelling.toList := by decide
  exact hall op (vocabulary.mem_all op)

theorem ReservedWord.plain_spelling (word : ReservedWord) :
    ' ' ∉ word.spelling.toList ∧ '\n' ∉ word.spelling.toList := by
  have hall : ∀ word ∈ all, ' ' ∉ word.spelling.toList ∧ '\n' ∉ word.spelling.toList := by decide
  exact hall word (vocabulary.mem_all word)

theorem DataType.not_mem_spelling (type : DataType) : '\n' ∉ type.spelling.toList := by
  have hall : ∀ type ∈ all, '\n' ∉ type.spelling.toList := by decide
  exact hall type (vocabulary.mem_all type)

/-- An operator in front of its operand, or a step behind it. -/
def unaryText (op : Operator) (behind : Bool) : String :=
  if behind then op.spelling ++ " (postfix)" else op.spelling

/-- The text of a step says on which side of its operand it stands. -/
theorem unaryText_inj {op op' : Operator} {behind behind' : Bool}
    (htext : unaryText op behind = unaryText op' behind') : op = op' ∧ behind = behind' := by
  have hmarked : ∀ op op' : Operator, op.spelling ≠ op'.spelling ++ " (postfix)" := by
    intro op op' heq
    have hmem : ' ' ∈ op.spelling.toList := by rw [heq]; simp
    exact op.plain_spelling.1 hmem
  cases behind with
  | false =>
    cases behind' with
    | false => exact ⟨Operator.eq_of_spelling_eq htext, rfl⟩
    | true => exact absurd htext (hmarked op op')
  | true =>
    cases behind' with
    | false => exact absurd htext.symm (hmarked op' op)
    | true => exact ⟨Operator.eq_of_spelling_eq ((String.append_left_inj _).1 htext), rfl⟩

theorem not_mem_unaryText (op : Operator) (behind : Bool) : '\n' ∉ (unaryText op behind).toList := by
  cases behind with
  | false => exact op.plain_spelling.2
  | true => simpa [unaryText] using op.plain_spelling.2

namespace UnitSpecifier

theorem bare_eq_of_text_eq {u v : UnitSpecifier} (htext : u.text = v.text) : u.bare = v.bare := by
  have hmarked : ∀ word word' : ReservedWord, word.spelling ≠ "sq " ++ word'.spelling := by
    intro word word' heq
    have hmem : ' ' ∈ word.spelling.toList := by rw [heq]; simp
    exact word.plain_spelling.1 hmem
  obtain ⟨unit, squared, span⟩ := u
  obtain ⟨unit', squared', span'⟩ := v
  cases squared with
  | false =>
    cases squared' with
    | false => rw [bare, bare, ReservedWord.eq_of_spelling_eq htext]
    | true => exact absurd htext (hmarked unit unit')
  | true =>
    cases squared' with
    | false => exact absurd htext.symm (hmarked unit' unit)
    | true => rw [bare, bare, ReservedWord.eq_of_spelling_eq ((String.append_right_inj _).1 htext)]

theorem not_mem_text (u : UnitSpecifier) : '\n' ∉ u.text.toList := by
  rw [text]
  split
  · simpa using u.unit.plain_spelling.2
  · exact u.unit.plain_spelling.2

end UnitSpecifier

/-- The word of an output statement and its template. -/
def outputText (newline : Bool) (template : String) : String :=
  (outputKeyword newline).spelling ++ " " ++ Text.quoted template

theorem toList_outputText (newline : Bool) (template : String) :
    (outputText newline template).toList =
      ((outputKeyword newline).spelling ++ " ").toList ++ (Text.quoted template).toList :=
  String.toList_append

/-- The keyword and the template can be told from the text. -/
theorem outputText_inj {newline newline' : Bool} {template template' : String}
    (htext : outputText newline template = outputText newline' template') :
    newline = newline' ∧ template = template' := by
  have hmarked : ∀ template template', outputText false template ≠ outputText true template' := by
    intro template template' heq
    have hfalse : ((outputKeyword false).spelling ++ " ").toList = ['p', 'r', 'i', 'n', 't', ' '] := by
      decide
    have htrue : ((outputKeyword true).spelling ++ " ").toList =
        ['p', 'r', 'i', 'n', 't', 'l', 'n', ' '] := by
      decide
    have hchars := congrArg String.toList heq
    rw [toList_outputText, toList_outputText, hfalse, htrue] at hchars
    simp at hchars
  cases newline with
  | false =>
    cases newline' with
    | false => exact ⟨rfl, Text.quoted_inj ((String.append_right_inj _).1 htext)⟩
    | true => exact absurd htext (hmarked template template')
  | true =>
    cases newline' with
    | false => exact absurd htext.symm (hmarked template' template)
    | true => exact ⟨rfl, Text.quoted_inj ((String.append_right_inj _).1 htext)⟩

theorem not_mem_outputText (newline : Bool) (template : String) :
    '\n' ∉ (outputText newline template).toList := by
  have hquoted := Text.not_mem_quotedWith (.inl rfl) template.toList
  have hword : ∀ newline, '\n' ∉ ((outputKeyword newline).spelling ++ " ").toList := by decide
  rw [toList_outputText, List.mem_append]
  exact fun hmem => hmem.elim (hword newline) hquoted

end GeoLang
