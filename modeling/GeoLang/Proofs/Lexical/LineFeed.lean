import GeoLang.Proofs.Lexical.Rewriting

namespace GeoLang.Lexical

/-- What the scanner finds in the text, if it is no fault, lies in the text and is found as well if
    a line feed and anything else follow. -/
def Complete (scanner : List Char → Scan) (cs : List Char) : Prop :=
  (scanner cs).content.fault? = none →
    (scanner cs).extra ≤ cs.length ∧ ∀ more, scanner (cs ++ '\n' :: more) = scanner cs

section

variable {p : Char → Bool} (hp : p '\n' = false) (cs more : List Char)

include hp

/-- A line feed has none of the properties that scanners ask for, so it ends what they look for as
    the end of the text would. -/
theorem startsWith_append_lineFeed : startsWith p (cs ++ '\n' :: more) = startsWith p cs := by
  cases cs with
  | nil => exact hp
  | cons c cs => rfl

theorem takeWhile_append_lineFeed : (cs ++ '\n' :: more).takeWhile p = cs.takeWhile p := by
  induction cs with
  | nil => simp [hp]
  | cons c cs ih => simp [List.takeWhile_cons, ih]

theorem dropWhile_append_lineFeed :
    (cs ++ '\n' :: more).dropWhile p = cs.dropWhile p ++ '\n' :: more := by
  induction cs with
  | nil => simp [hp]
  | cons c cs ih =>
    rw [List.cons_append, List.dropWhile_cons, List.dropWhile_cons, ih]
    split <;> rfl

end

/-- The first character is one that is no line feed if it was so before. -/
theorem head?_append_lineFeed {c : Char} (hc : c ≠ '\n') (cs more : List Char) :
    (cs ++ '\n' :: more).head? = some c ↔ cs.head? = some c := by
  cases cs with
  | nil => simp [hc.symm]
  | cons d cs => rfl

/-- How a segment is to be read hangs on the character behind its first one at most. -/
theorem shape_append_lineFeed (lead : Lead) (c : Char) (cs more : List Char) :
    shape lead c (cs ++ '\n' :: more) = shape lead c cs := by
  have hletter := startsWith_append_lineFeed (p := isBlankLetter) (by decide) cs more
  have hdigit := startsWith_append_lineFeed (p := Char.isDigit) (by decide) cs more
  rw [shape, shape, hletter, hdigit]

private theorem beforeHash?_append {cs body : List Char} (hbody : beforeHash? cs = some body)
    (more : List Char) : beforeHash? (cs ++ more) = some body := by
  induction cs generalizing body with
  | nil => cases hbody
  | cons c cs ih =>
    rw [beforeHash?] at hbody
    rw [List.cons_append, beforeHash?]
    split at hbody
    · next hmark =>
      rw [if_pos hmark]
      exact hbody
    · next hmark =>
      obtain ⟨rest, hrest, rfl⟩ := Option.map_eq_some_iff.1 hbody
      rw [if_neg hmark, ih hrest, Option.map_some]

private theorem beforeHashes?_append {cs body : List Char} (hbody : beforeHashes? cs = some body)
    (more : List Char) : beforeHashes? (cs ++ more) = some body := by
  induction cs generalizing body with
  | nil => cases hbody
  | cons c cs ih =>
    have hhead : beforeHashes? cs = none ∨ (cs ++ more).head? = cs.head? := by
      cases cs with
      | nil => exact .inl rfl
      | cons d cs => exact .inr rfl
    rw [beforeHashes?] at hbody
    rw [List.cons_append, beforeHashes?]
    split at hbody
    · next hmarks =>
      have hmore : (cs ++ more).head? = some '#' := by
        rw [List.head?_append, hmarks.2, Option.some_or]
      rw [if_pos ⟨hmarks.1, hmore⟩]
      exact hbody
    · next hmarks =>
      obtain ⟨rest, hrest, rfl⟩ := Option.map_eq_some_iff.1 hbody
      obtain hnone | hsame := hhead
      · rw [hnone] at hrest
        cases hrest
      · rw [hsame, if_neg hmarks, ih hrest, Option.map_some]

/-- A single mark is not followed by a second one. -/
theorem comment_eq_of_ne {cs : List Char} (hsingle : ∀ ds, cs ≠ '#' :: ds) :
    Scan.comment cs = Scan.ofComment 1 cs (beforeHash? cs) := by
  unfold Scan.comment
  split
  · next ds => exact absurd rfl (hsingle ds)
  · rfl

/-- Only a comment that is closed is no fault. -/
theorem exists_of_ofComment {marks : Nat} {cs : List Char} {body? : Option (List Char)}
    (hfault : (Scan.ofComment marks cs body?).content.fault? = none) : ∃ body, body? = some body := by
  cases body? with
  | none => cases hfault
  | some body => exact ⟨body, rfl⟩

private theorem complete_comment (cs : List Char) : Complete Scan.comment cs := by
  intro hfault
  by_cases hdouble : ∃ ds, cs = '#' :: ds
  · obtain ⟨ds, rfl⟩ := hdouble
    have hscan : ∀ ds, Scan.comment ('#' :: ds) = Scan.ofComment 3 ('#' :: ds) (beforeHashes? ds) :=
      fun _ => rfl
    rw [hscan] at hfault
    obtain ⟨body, hbody⟩ := exists_of_ofComment hfault
    obtain ⟨-, rest, hds⟩ := beforeHashes?_eq_some hbody
    refine ⟨?_, fun more => ?_⟩
    · rw [hscan, hbody, hds]
      simp only [Scan.ofComment, List.length_cons, List.length_append]
      omega
    · rw [List.cons_append, hscan, hscan, beforeHashes?_append hbody, hbody]
      rfl
  · have hsingle : ∀ ds, cs ≠ '#' :: ds := fun ds heq => hdouble ⟨ds, heq⟩
    rw [comment_eq_of_ne hsingle] at hfault
    obtain ⟨body, hbody⟩ := exists_of_ofComment hfault
    obtain ⟨-, rest, hcs⟩ := beforeHash?_eq_some hbody
    have hmore : ∀ more ds, cs ++ '\n' :: more ≠ '#' :: ds := by
      cases cs with
      | nil => cases hbody
      | cons c cs =>
        rintro more ds heq
        exact hsingle cs (by rw [(List.cons.inj heq).1])
    rw [comment_eq_of_ne hsingle, hbody]
    refine ⟨?_, fun more => ?_⟩
    · rw [hcs]
      simp only [Scan.ofComment, List.length_cons, List.length_append]
      omega
    · rw [comment_eq_of_ne (hmore more), beforeHash?_append hbody]
      rfl

private theorem readString?_append {cs value : List Char} {n : Nat}
    (hread : readString? cs = some (value, n))
    (more : List Char) : n ≤ cs.length ∧ readString? (cs ++ more) = some (value, n) := by
  fun_induction readString? cs generalizing value n with
  | case1 => cases hread
  | case2 => cases hread
  | case3 cs =>
    obtain ⟨rfl, rfl⟩ := Prod.mk.inj (Option.some.inj hread)
    exact ⟨Nat.le_add_left 1 _, rfl⟩
  | case4 c cs ih =>
    obtain ⟨⟨rest, k⟩, hrest, heq⟩ := Option.map_eq_some_iff.1 hread
    obtain ⟨rfl, rfl⟩ := Prod.mk.inj heq
    obtain ⟨hlength, hmore⟩ := ih hrest
    refine ⟨Nat.succ_le_succ (Nat.succ_le_succ hlength), ?_⟩
    rw [List.cons_append, List.cons_append, readString?, hmore, Option.map_some]
  | case5 c cs hescape hquote hlone ih =>
    obtain ⟨⟨rest, k⟩, hrest, heq⟩ := Option.map_eq_some_iff.1 hread
    obtain ⟨rfl, rfl⟩ := Prod.mk.inj heq
    obtain ⟨hlength, hmore⟩ := ih hrest
    refine ⟨Nat.succ_le_succ hlength, ?_⟩
    have hc : c ≠ '\\' := by
      rintro rfl
      cases cs with
      | nil => cases hrest
      | cons d ds => exact hlone d ds rfl rfl
    rw [List.cons_append, readString?.eq_5 c (cs ++ more) (fun h _ => hc h) hquote (fun _ _ h _ => hc h),
      hmore, Option.map_some]

private theorem complete_string (cs : List Char) : Complete Scan.string cs := by
  intro hfault
  cases hread : readString? cs with
  | none =>
    simp only [Scan.string, hread] at hfault
    cases hfault
  | some read =>
    obtain ⟨value, n⟩ := read
    have happend := readString?_append hread
    refine ⟨?_, fun more => ?_⟩
    · simp only [Scan.string, hread]
      exact (happend []).1
    · simp only [Scan.string, hread, (happend _).2]

/-- Only the quote right behind the value closes a character literal without a fault. -/
theorem exists_of_closeCharacter {value : Char} {taken : Nat} {cs : List Char}
    (hfault : (Scan.closeCharacter value taken cs).content.fault? = none) : ∃ ds, cs = '\'' :: ds := by
  unfold Scan.closeCharacter at hfault
  split at hfault
  · next ds => exact ⟨ds, rfl⟩
  · split at hfault
    · cases hfault
    · cases hfault

private theorem complete_character (cs : List Char) : Complete Scan.character cs := by
  intro hfault
  fun_cases Scan.character cs with
  | case1 => cases hfault
  | case2 => cases hfault
  | case3 => cases hfault
  | case4 => cases hfault
  | case5 c cs =>
    obtain ⟨ds, rfl⟩ := exists_of_closeCharacter hfault
    exact ⟨Nat.le_add_left 3 _, fun _ => rfl⟩
  | case6 c cs hquote hline hlone hescape =>
    rw [Scan.character.eq_6 c cs hquote hline hlone hescape] at hfault
    obtain ⟨ds, rfl⟩ := exists_of_closeCharacter hfault
    have hc : c ≠ '\\' := fun heq => hescape '\'' ds heq rfl
    refine ⟨Nat.le_add_left 2 _, fun more => ?_⟩
    exact Scan.character.eq_6 c ('\'' :: ds ++ '\n' :: more) hquote hline (fun h _ => hc h)
      (fun _ _ h _ => hc h)

private theorem Numeral.length_chars_read_le (c : Char) (cs : List Char) :
    (Numeral.read c cs).chars.length ≤ cs.length + 1 := by
  have hlength : ∀ sign ds, (Numeral.ofUnsigned sign ds).chars.length ≤ sign.toList.length + ds.length := by
    intro sign ds
    have hsplit := congrArg List.length (List.takeWhile_append_dropWhile (p := isRunChar) (l := ds))
    have htail := (List.takeWhile_prefix isWordChar (l := ds.dropWhile isRunChar)).length_le
    rw [List.length_append] at hsplit
    simp only [Numeral.chars, Numeral.ofUnsigned, List.length_append]
    omega
  unfold Numeral.read
  split
  · exact Nat.le_trans (hlength _ _) (Nat.le_of_eq (Nat.add_comm 1 _))
  · exact Nat.le_trans (hlength _ _) (Nat.le_of_eq (Nat.zero_add _))

private theorem Numeral.read_append_lineFeed (c : Char) (cs more : List Char) :
    Numeral.read c (cs ++ '\n' :: more) = Numeral.read c cs := by
  have hrun : isRunChar '\n' = false := by decide
  have hword : isWordChar '\n' = false := by decide
  have hsame : ∀ sign ds, Numeral.ofUnsigned sign (ds ++ '\n' :: more) = Numeral.ofUnsigned sign ds := by
    intro sign ds
    simp only [Numeral.ofUnsigned, takeWhile_append_lineFeed hrun, dropWhile_append_lineFeed hrun,
      takeWhile_append_lineFeed hword]
  unfold Numeral.read
  rw [← List.cons_append, hsame, hsame]

private theorem complete_number (c : Char) (cs : List Char) : Complete (Scan.number c) cs := by
  intro _
  have hlength := Numeral.length_chars_read_le c cs
  refine ⟨?_, fun more => ?_⟩
  · simp only [Scan.number]
    omega
  · simp only [Scan.number, Numeral.read_append_lineFeed]

private theorem complete_word (c : Char) (cs : List Char) : Complete (Scan.word c) cs := by
  intro _
  refine ⟨(List.takeWhile_prefix isWordChar).length_le, fun more => ?_⟩
  have hword : isWordChar '\n' = false := by decide
  simp only [Scan.word, takeWhile_append_lineFeed hword, dropWhile_append_lineFeed hword,
    head?_append_lineFeed (show '.' ≠ '\n' by decide)]

private theorem growth_append_lineFeed (taken cs more : List Char) :
    growth taken (cs ++ '\n' :: more) = growth taken cs := by
  induction cs generalizing taken with
  | nil =>
    rw [List.nil_append, growth, growth, not_isCompound_append_blank taken rfl,
      if_neg Bool.false_ne_true]
  | cons c cs ih => rw [List.cons_append, growth, growth, ih]

private theorem complete_symbol (afterValue : Bool) (c : Char) (cs : List Char) :
    Complete (Scan.symbol afterValue c) cs := by
  intro _
  have hlength := growth_le_length [c] cs
  refine ⟨hlength, fun more => ?_⟩
  simp only [Scan.symbol, growth_append_lineFeed, List.take_append_of_le_length hlength]

/-- A line feed does not change what stands in front of it. -/
theorem complete_scan (lead : Lead) (c : Char) (cs : List Char) : Complete (scan lead c) cs := by
  intro hfault
  unfold scan at hfault ⊢
  simp only [shape_append_lineFeed]
  cases hshape : shape lead c cs with
  | blank => exact ⟨Nat.zero_le _, fun _ => rfl⟩
  | writtenBlank =>
    obtain ⟨-, hletter⟩ := startsWith_of_shape hshape
    cases cs with
    | nil => cases hletter
    | cons d ds => exact ⟨Nat.le_add_left 1 _, fun _ => rfl⟩
  | comment => exact complete_comment cs (by simpa only [hshape] using hfault)
  | string => exact complete_string cs (by simpa only [hshape] using hfault)
  | character => exact complete_character cs (by simpa only [hshape] using hfault)
  | number => exact complete_number c cs (by simpa only [hshape] using hfault)
  | word => exact complete_word c cs (by simpa only [hshape] using hfault)
  | point => exact ⟨Nat.zero_le _, fun _ => rfl⟩
  | symbol => exact complete_symbol _ c cs (by simpa only [hshape] using hfault)
  | illegal =>
    rw [hshape] at hfault
    cases hfault

end GeoLang.Lexical
