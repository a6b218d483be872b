import Mathlib.Data.List.TakeWhile
import Mathlib.Data.Nat.Digits.Defs
import GeoLang.Proofs.Lexical.Beginning
import GeoLang.Proofs.Lexical.Written
import GeoLang.Proofs.Number.Rounding

namespace GeoLang

namespace Lexical

/-- The natural number with the decimal digits `ds`. -/
def decimal (ds : List Char) : ℕ := Nat.ofDigits 10 (ds.reverse.map fun d => d.toNat - '0'.toNat)

namespace Numeral

/-- A number is a sign or none, a run that begins with a digit or, without a sign, with a point in
    front of a digit, and perhaps a word right behind it. -/
structure WellFormed (n : Numeral) : Prop where
  sign : ∀ c ∈ n.sign, isSignChar c = true
  run : ∀ c ∈ n.run, isRunChar c = true
  begins : startsWith Char.isDigit n.run = true ∨
    n.sign = none ∧ ∃ ds, n.run = '.' :: ds ∧ startsWith Char.isDigit ds = true
  tail : ∀ c ∈ n.tail, isWordChar c = true
  word : ∀ c ∈ n.tail.head?, isWordStart c = true

/-- The integer with the sign and the digits of the number. -/
def integer (n : Numeral) : ℤ := if n.sign = some '-' then -(decimal n.run : ℤ) else decimal n.run

/-- Without its sign, the number is the decimal fraction `q`. -/
def Fraction (n : Numeral) (q : ℚ) : Prop :=
  ∃ whole places, n.run = whole ++ '.' :: places ∧
    q = decimal whole + decimal places / 10 ^ places.length

end Numeral

end Lexical

open Lexical in
/-- `lexed` is what `source` falls into if all of it is the number `n`. -/
structure Lexed.IsNumber (lexed : Lexed) (source : String) (n : Numeral) : Prop where
  severalPoints : 2 ≤ n.run.count '.' →
    lexed = .oneError source (.invalidNumber (NumberFault.severalPoints.describe source))
  letters : n.run.count '.' ≤ 1 → n.tail ≠ [] →
    lexed = .oneError source (.invalidNumber (NumberFault.letters.describe source))
  integer : n.run.count '.' = 0 → n.tail = [] → -2 ^ 63 ≤ n.integer → n.integer ≤ 2 ^ 63 - 1 →
    lexed = .oneToken source (.literal (.integer n.integer)) source
  integerOutOfRange : n.run.count '.' = 0 → n.tail = [] →
    ¬ (-2 ^ 63 ≤ n.integer ∧ n.integer ≤ 2 ^ 63 - 1) →
      lexed = .oneError source (.invalidNumber (NumberFault.outOfRange.describe source))
  real : n.run.count '.' = 1 → n.tail = [] → ∃ q, n.Fraction q ∧
    (q < Binary64.overflow → ∃ x : Binary64, (x.negative ↔ n.sign = some '-') ∧ x.Nearest q ∧
      lexed = .oneToken source (.literal (.real x)) source) ∧
    (Binary64.overflow ≤ q →
      lexed = .oneError source (.invalidNumber (NumberFault.outOfRange.describe source)))

namespace Lexical

private theorem decimal_concat (ds : List Char) (d : Char) :
    decimal (ds ++ [d]) = d.toNat - '0'.toNat + 10 * decimal ds := by
  rw [decimal, List.reverse_concat, List.map_cons, Nat.ofDigits_cons]
  rfl

/-- The scanner adds up digits from the left, as their value in base ten is defined. -/
theorem digitsValue_eq_decimal (ds : List Char) : digitsValue ds = decimal ds := by
  induction ds using List.reverseRecOn with
  | nil => rfl
  | append_singleton ds d ih =>
    rw [decimal_concat, ← ih, digitsValue, List.foldl_concat, Nat.add_comm]
    rfl

private theorem decimal_append (ds es : List Char) :
    decimal (ds ++ es) = decimal ds * 10 ^ es.length + decimal es := by
  rw [decimal, List.reverse_append, List.map_append, Nat.ofDigits_append, List.length_map,
    List.length_reverse, Nat.add_comm, Nat.mul_comm]
  rfl

/-- Digits behind the point count as much less as there are of them. -/
theorem decimal_append_div (ds es : List Char) :
    ((decimal (ds ++ es) : ℕ) : ℚ) / (10 ^ es.length : ℕ) =
      decimal ds + decimal es / 10 ^ es.length := by
  rw [decimal_append]
  push_cast
  rw [add_div, mul_div_cancel_right₀ _ (by positivity)]

namespace Numeral

private theorem isRunChar_eq_false_of_isWordStart {c : Char} (hc : isWordStart c = true) :
    isRunChar c = false := by
  obtain halpha | rfl : c.isAlpha = true ∨ c = '_' := by simpa [isWordStart] using hc
  · have hpoint : c ≠ '.' := by
      rintro rfl
      cases halpha
    simp [isRunChar, isDigit_eq_false_of_isAlpha halpha, hpoint]
  · rfl

private theorem isSignChar_eq_false_of_isRunChar {c : Char} (hc : isRunChar c = true) :
    isSignChar c = false := by
  refine Bool.eq_false_iff.2 fun hsign => ?_
  obtain rfl | rfl : c = '+' ∨ c = '-' := by simpa [isSignChar] using hsign
  · cases hc
  · cases hc

section

variable {n : Numeral} (hn : n.WellFormed)

include hn

/-- The run ends where the word behind it begins, and the word is all of the rest. -/
theorem WellFormed.ofUnsigned_eq : ofUnsigned n.sign (n.run ++ n.tail) = n := by
  have hword : n.tail.takeWhile isWordChar = n.tail := List.takeWhile_eq_self_iff.2 hn.tail
  have hsplit : n.tail.takeWhile isRunChar = [] ∧ n.tail.dropWhile isRunChar = n.tail := by
    cases htail : n.tail with
    | nil => exact ⟨rfl, rfl⟩
    | cons c cs =>
      have hc := isRunChar_eq_false_of_isWordStart (hn.word c (by rw [htail]; rfl))
      have hnot : ¬ isRunChar c = true := by simp [hc]
      exact ⟨List.takeWhile_cons_of_neg hnot, List.dropWhile_cons_of_neg hnot⟩
  rw [ofUnsigned, List.takeWhile_append_of_pos hn.run, List.dropWhile_append_of_pos hn.run, hsplit.1,
    hsplit.2, hword, List.append_nil]

/-- A number is found where it is written, and it is read as it is. -/
theorem WellFormed.exists_read :
    ∃ c cs, n.chars = c :: cs ∧ shape .operand c cs = .number ∧ read c cs = n := by
  obtain ⟨sign, run, tail⟩ := n
  have hread := hn.ofUnsigned_eq
  have hbegins := hn.begins
  dsimp only at hread hbegins
  cases sign with
  | some s =>
    have hsign : isSignChar s = true := hn.sign s rfl
    have hdigit : startsWith Char.isDigit run = true :=
      hbegins.resolve_right fun hnone => Option.some_ne_none s hnone.1
    have hfollows : startsWith Char.isDigit (run ++ tail) = true := by
      cases run with
      | nil => cases hdigit
      | cons d ds => exact hdigit
    refine ⟨s, run ++ tail, rfl, ?_, by rw [read, if_pos hsign, hread]⟩
    obtain rfl | rfl : s = '+' ∨ s = '-' := by simpa [isSignChar] using hsign
    · simp +decide [shape, hfollows]
    · simp +decide [shape, hfollows]
  | none =>
    cases run with
    | nil => simp [startsWith] at hbegins
    | cons c cs =>
      have hc := isSignChar_eq_false_of_isRunChar (hn.run c List.mem_cons_self)
      refine ⟨c, cs ++ tail, rfl, ?_, by rw [read, hc]; exact hread⟩
      obtain hdigit | ⟨-, ds, hrun, hdigit⟩ := hbegins
      · exact shape_of_isDigit hdigit .operand (cs ++ tail)
      · obtain ⟨rfl, rfl⟩ := List.cons.inj hrun
        have hfollows : startsWith Char.isDigit (cs ++ tail) = true := by
          cases cs with
          | nil => cases hdigit
          | cons d ds => exact hdigit
        simp +decide [shape, hfollows]

variable {source : String} (hsource : source.toList = n.chars) (keepComments : Bool)

include hsource

/-- A text in the form of a number is scanned as one segment, the number or a fault. -/
theorem WellFormed.exists_scan : ∃ c cs, source.toList = c :: cs ∧
    (∀ v, n.value = .ok v → scan .operand c cs = ⟨cs.length, .token (.literal v) source⟩) ∧
      ∀ e, n.value = .error e →
        scan .operand c cs = ⟨cs.length, .fault (.invalidNumber (e.describe source))⟩ := by
  obtain ⟨c, cs, hchars, hshape, hread⟩ := hn.exists_read
  have htext : String.ofList n.chars = source := by rw [← hsource, String.ofList_toList]
  have hextra : n.chars.length - 1 = cs.length := by rw [hchars]; rfl
  have hscan : scan .operand c cs = Scan.number c cs := by rw [scan, hshape]
  refine ⟨c, cs, hsource.trans hchars, fun v hvalue => ?_, fun e hvalue => ?_⟩
  · simp only [hscan, Scan.number, hread, hvalue, htext, hextra]
  · simp only [hscan, Scan.number, hread, hvalue, htext, hextra]

/-- A number that has a value is the only token of its text. -/
theorem WellFormed.ofSource_eq_oneToken {v : Literal} (hvalue : n.value = .ok v) :
    Lexed.ofSource keepComments source = .oneToken source (.literal v) source := by
  obtain ⟨c, cs, hcs, hscan, -⟩ := hn.exists_scan hsource
  exact Lexed.ofSource_eq_oneToken hcs keepComments (hscan v hvalue)

/-- A number that has none is the only error of its text. -/
theorem WellFormed.ofSource_eq_oneError {e : NumberFault} (hvalue : n.value = .error e) :
    Lexed.ofSource keepComments source = .oneError source (.invalidNumber (e.describe source)) := by
  obtain ⟨c, cs, hcs, -, hscan⟩ := hn.exists_scan hsource
  exact Lexed.ofSource_eq_oneError hcs keepComments (hscan e hvalue)

end

section

variable {n : Numeral}

private theorem value_of_severalPoints (hpoints : 2 ≤ n.run.count '.') :
    n.value = .error .severalPoints := by
  exact if_pos hpoints

private theorem value_of_letters (hpoints : n.run.count '.' ≤ 1) (htail : n.tail ≠ []) :
    n.value = .error .letters := by
  rw [value, if_neg (by omega), if_pos htail]

/-- Integers are those of 64 bits with a sign. -/
theorem integer?_eq (n : Numeral) :
    n.integer? = if -2 ^ 63 ≤ n.integer ∧ n.integer ≤ 2 ^ 63 - 1 then some n.integer else none := by
  rw [integer?, digitsValue_eq_decimal, integer, negative]
  simp only [beq_iff_eq]
  rfl

private theorem value_of_integer (hpoints : n.run.count '.' = 0) (htail : n.tail = [])
    (hrange : -2 ^ 63 ≤ n.integer ∧ n.integer ≤ 2 ^ 63 - 1) : n.value = .ok (.integer n.integer) := by
  rw [value, if_neg (by omega), if_neg (by simpa using htail), if_pos hpoints, integer?_eq,
    if_pos hrange]

private theorem value_of_integerOutOfRange (hpoints : n.run.count '.' = 0) (htail : n.tail = [])
    (hrange : ¬ (-2 ^ 63 ≤ n.integer ∧ n.integer ≤ 2 ^ 63 - 1)) : n.value = .error .outOfRange := by
  rw [value, if_neg (by omega), if_neg (by simpa using htail), if_pos hpoints, integer?_eq,
    if_neg hrange]

/-- The value of a number with one point is that of all its digits over a power of ten. -/
theorem real?_eq {whole places : List Char} (hrun : n.run = whole ++ '.' :: places)
    (hwhole : '.' ∉ whole) :
    n.real? = Binary64.ofRatio? n.negative (decimal (whole ++ places)) (10 ^ places.length) := by
  have htake : n.run.takeWhile (· != '.') = whole := by
    have hbefore : ∀ c ∈ whole, (c != '.') = true := fun c hc =>
      bne_iff_ne.2 (ne_of_mem_of_not_mem hc hwhole)
    rw [hrun, List.takeWhile_append_of_pos hbefore, List.takeWhile_cons_of_neg (by decide),
      List.append_nil]
  have hdrop : n.run.drop (whole.length + 1) = places := by
    rw [hrun, List.drop_length_add_append]
    rfl
  rw [real?, htake, hdrop, digitsValue_eq_decimal]
  rfl

private theorem value_of_point (hpoints : n.run.count '.' = 1) (htail : n.tail = []) :
    (∀ x, n.real? = some x → n.value = .ok (.real x)) ∧
      (n.real? = none → n.value = .error .outOfRange) := by
  rw [value, if_neg (by omega), if_neg (by simpa using htail), if_neg (by omega)]
  exact ⟨fun x hx => by rw [hx], fun hx => by rw [hx]⟩

/-- A number with one point has the value nearest to it, unless it is beyond all of them. -/
theorem exists_value_of_point (hpoints : n.run.count '.' = 1) (htail : n.tail = []) :
    ∃ q, n.Fraction q ∧
      (q < Binary64.overflow → ∃ x : Binary64, (x.negative ↔ n.sign = some '-') ∧ x.Nearest q ∧
        n.value = .ok (.real x)) ∧
      (Binary64.overflow ≤ q → n.value = .error .outOfRange) := by
  have hmem : '.' ∈ n.run := List.count_pos_iff.1 (by omega)
  obtain ⟨whole, places, hrun, hwhole⟩ := List.eq_append_cons_of_mem hmem
  have hq := decimal_append_div whole places
  have hten : 0 < 10 ^ places.length := Nat.pow_pos (by decide)
  obtain ⟨hsome, hnone⟩ := value_of_point hpoints htail
  rw [real?_eq hrun hwhole] at hsome hnone
  refine ⟨_, ⟨whole, places, hrun, rfl⟩, fun hlt => ?_, fun hle => ?_⟩
  · rw [← hq] at hlt ⊢
    obtain ⟨x, hx, hnegative, hnearest⟩ :=
      Binary64.exists_ofRatio? n.negative (decimal (whole ++ places)) hten hlt
    refine ⟨x, ?_, hnearest, hsome x hx⟩
    rw [hnegative, negative, beq_iff_eq]
  · rw [← hq] at hle
    exact hnone (Binary64.ofRatio?_eq_none n.negative hten hle)

end

end Numeral

end Lexical

open Lexical in
/-- A text that is a number is one token with the value of the number, or one error. -/
theorem Lexed.isNumber_ofSource (keepComments : Bool) {source : String} {n : Numeral}
    (hn : n.WellFormed) (hsource : source.toList = n.chars) :
    (Lexed.ofSource keepComments source).IsNumber source n := by
  have htoken : ∀ {v}, n.value = .ok v → _ := hn.ofSource_eq_oneToken hsource keepComments
  have herror : ∀ {e}, n.value = .error e → _ := hn.ofSource_eq_oneError hsource keepComments
  refine ⟨?_, ?_, ?_, ?_, ?_⟩
  · exact fun hpoints => herror (Numeral.value_of_severalPoints hpoints)
  · exact fun hpoints htail => herror (Numeral.value_of_letters hpoints htail)
  · exact fun hpoints htail hleast hgreatest =>
      htoken (Numeral.value_of_integer hpoints htail ⟨hleast, hgreatest⟩)
  · exact fun hpoints htail hrange =>
      herror (Numeral.value_of_integerOutOfRange hpoints htail hrange)
  · intro hpoints htail
    obtain ⟨q, hq, hbelow, habove⟩ := Numeral.exists_value_of_point hpoints htail
    refine ⟨q, hq, fun hlt => ?_, fun hle => herror (habove hle)⟩
    obtain ⟨x, hnegative, hnearest, hvalue⟩ := hbelow hlt
    exact ⟨x, hnegative, hnearest, htoken hvalue⟩

/-- The least integer may be written with zeros in front. -/
theorem Lexed.isNumber_ofSource_least :
    let source := "-0009223372036854775808"
    let n : Lexical.Numeral := ⟨some '-', "0009223372036854775808".toList, []⟩
    n.WellFormed ∧ source.toList = n.chars ∧ (Lexed.ofSource false source).IsNumber source n ∧
      Lexed.ofSource false source = .oneToken source (.literal (.integer (-2 ^ 63))) source := by
  intro source n
  have hwell : n.WellFormed := by
    refine ⟨?_, List.all_eq_true.1 (by decide), .inl (by decide), nofun, nofun⟩
    rintro _ ⟨⟩
    rfl
  have hsource : source.toList = n.chars := by decide
  have hnumber := Lexed.isNumber_ofSource false hwell hsource
  have hleast : n.integer = -2 ^ 63 := by decide
  have hone := hnumber.integer (by decide) rfl (by rw [hleast]) (by rw [hleast]; decide)
  rw [hleast] at hone
  exact ⟨hwell, hsource, hnumber, hone⟩

end GeoLang
