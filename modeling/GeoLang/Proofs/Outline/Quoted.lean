import GeoLang.Proofs.Outline.Lines
import GeoLang.Text.Quoted

namespace GeoLang.Text

/-- What a character stands for behind a backslash, unless it begins a number. -/
def named : Char → Char
  | '0' => '\x00'
  | 't' => '\t'
  | 'r' => '\r'
  | 'n' => '\n'
  | c => c

/-- The ways in which a character is written in quotes. -/
inductive Escaped (c : Char) : List Char → Prop where
  | itself (hbackslash : c ≠ '\\') (hbreak : c ≠ '\n') : Escaped c [c]
  | name {k : Char} (hnumber : k ≠ 'u') (hbreak : k ≠ '\n') (hnamed : named k = c) : Escaped c ['\\', k]
  | number : Escaped c ('\\' :: 'u' :: '\x7b' :: (Nat.toDigits 16 c.toNat ++ ['\x7d']))

/-- Every character is escaped in one of the known ways. -/
theorem escaped_escape {quote : Char} (hquote : quote = '"' ∨ quote = '\'') (c : Char) :
    Escaped c (escape quote c) := by
  unfold escape
  split
  · next heq =>
    obtain rfl := eq_of_beq heq
    obtain rfl | rfl := hquote
    · exact .name (by decide) (by decide) rfl
    · exact .name (by decide) (by decide) rfl
  · split
    · exact .name (by decide) (by decide) rfl
    · exact .name (by decide) (by decide) rfl
    · exact .name (by decide) (by decide) rfl
    · exact .name (by decide) (by decide) rfl
    · exact .name (by decide) (by decide) rfl
    · next hbackslash _ _ _ hbreak =>
      split
      · exact .number
      · exact .itself hbackslash hbreak

/-- Hexadecimal digits can be told apart. -/
theorem digitChar_inj : ∀ m < 16, ∀ n < 16, Nat.digitChar m = Nat.digitChar n → m = n := by decide

/-- The last digit may be split off. -/
theorem toDigits_of_le {n : Nat} (hn : 16 ≤ n) :
    Nat.toDigits 16 n = Nat.toDigits 16 (n / 16) ++ [Nat.digitChar (n % 16)] := by
  rw [Nat.toDigits_eq_if (by decide), if_neg (Nat.not_lt_of_le hn)]

theorem toDigits_ne_singleton {n : Nat} (hn : 16 ≤ n) (c : Char) : Nat.toDigits 16 n ≠ [c] := by
  intro heq
  rw [toDigits_of_le hn] at heq
  have hlength := congrArg List.length heq
  have hpos := List.length_pos_iff.2 (@Nat.toDigits_ne_nil (n / 16) 16)
  rw [List.length_append, List.length_singleton, List.length_singleton] at hlength
  omega

private theorem toDigits_inj {m n : Nat} (heq : Nat.toDigits 16 m = Nat.toDigits 16 n) : m = n := by
  induction m using Nat.strongRecOn generalizing n with
  | ind m ih =>
    by_cases hm : m < 16
    · rw [Nat.toDigits_of_lt_base hm] at heq
      by_cases hn : n < 16
      · rw [Nat.toDigits_of_lt_base hn] at heq
        exact digitChar_inj m hm n hn (List.cons.inj heq).1
      · exact absurd heq.symm (toDigits_ne_singleton (Nat.le_of_not_lt hn) _)
    · rw [toDigits_of_le (Nat.le_of_not_lt hm)] at heq
      by_cases hn : n < 16
      · rw [← toDigits_of_le (Nat.le_of_not_lt hm), Nat.toDigits_of_lt_base hn] at heq
        exact absurd heq (toDigits_ne_singleton (Nat.le_of_not_lt hm) _)
      · rw [toDigits_of_le (Nat.le_of_not_lt hn)] at heq
        obtain ⟨hquotients, hlast⟩ := List.append_inj' heq rfl
        have hquotient := ih (m / 16) (by omega) hquotients
        have hrest := digitChar_inj (m % 16) (Nat.mod_lt _ (by decide)) (n % 16)
          (Nat.mod_lt _ (by decide)) (List.cons.inj hlast).1
        omega

private theorem mem_toDigits {n : Nat} {c : Char} (hc : c ∈ Nat.toDigits 16 n) :
    ∃ d < 16, c = Nat.digitChar d := by
  induction n using Nat.strongRecOn with
  | ind n ih =>
    rw [Nat.toDigits_eq_if (by decide)] at hc
    split at hc
    · next hn => exact ⟨n, hn, List.mem_singleton.1 hc⟩
    · next hn =>
      obtain hc | hc := List.mem_append.1 hc
      · exact ih (n / 16) (by omega) hc
      · exact ⟨n % 16, Nat.mod_lt _ (by decide), List.mem_singleton.1 hc⟩

/-- Neither the closing brace of an escape nor the end of a line is a digit. -/
theorem ne_of_mem_toDigits {n : Nat} {c : Char} (hc : c ∈ Nat.toDigits 16 n) : c ≠ '\x7d' ∧ c ≠ '\n' := by
  have hdigits : ∀ d < 16, Nat.digitChar d ≠ '\x7d' ∧ Nat.digitChar d ≠ '\n' := by decide
  obtain ⟨d, hd, rfl⟩ := mem_toDigits hc
  exact hdigits d hd

/-- What stands in front of a text in quotes is one character, as long as the text is written in
    this way. -/
theorem Escaped.append_inj {c d : Char} {xs ys rest rest' : List Char} (hc : Escaped c xs)
    (hd : Escaped d ys) (heq : xs ++ rest = ys ++ rest') : c = d ∧ rest = rest' := by
  cases hc with
  | itself hbackslash =>
    cases hd with
    | itself => simpa using heq
    | name => exact absurd (List.cons.inj heq).1 hbackslash
    | number => exact absurd (List.cons.inj heq).1 hbackslash
  | name hnumber _ hnamed =>
    cases hd with
    | itself hbackslash => exact absurd (List.cons.inj heq).1.symm hbackslash
    | name _ _ hnamed' =>
      obtain ⟨rfl, hrest⟩ := List.cons.inj (List.cons.inj heq).2
      exact ⟨hnamed.symm.trans hnamed', hrest⟩
    | number => exact absurd (List.cons.inj (List.cons.inj heq).2).1 hnumber
  | number =>
    cases hd with
    | itself hbackslash => exact absurd (List.cons.inj heq).1.symm hbackslash
    | name hnumber => exact absurd (List.cons.inj (List.cons.inj heq).2).1.symm hnumber
    | number =>
      simp only [List.cons_append, List.cons.injEq, true_and, List.append_assoc, List.nil_append] at heq
      obtain ⟨hdigits, hrest⟩ := append_inj_of_stop (p := (· = '\x7d'))
        (fun _ hmem => (ne_of_mem_toDigits hmem).1) (fun _ hmem => (ne_of_mem_toDigits hmem).1)
        ⟨_, rfl, rfl⟩ ⟨_, rfl, rfl⟩ heq
      exact ⟨Char.toNat_inj.1 (toDigits_inj hdigits), (List.cons.inj hrest).2⟩

/-- No character is left out. -/
theorem Escaped.ne_nil {c : Char} {xs : List Char} (hc : Escaped c xs) : xs ≠ [] := by
  cases hc <;> simp

private theorem Escaped.not_mem_lineFeed {c : Char} {xs : List Char} (hc : Escaped c xs) :
    '\n' ∉ xs := by
  cases hc with
  | itself _ hbreak => simpa using hbreak.symm
  | name _ hbreak => simpa using hbreak.symm
  | number =>
    have hdigits : '\n' ∉ Nat.toDigits 16 c.toNat := fun hmem => (ne_of_mem_toDigits hmem).2 rfl
    simpa using hdigits

private theorem flatMap_escape_inj {quote : Char} (hquote : quote = '"' ∨ quote = '\'')
    {cs ds : List Char}
    (heq : cs.flatMap (escape quote) = ds.flatMap (escape quote)) : cs = ds := by
  induction cs generalizing ds with
  | nil =>
    cases ds with
    | nil => rfl
    | cons d ds =>
      rw [List.flatMap_nil, List.flatMap_cons] at heq
      exact absurd (List.append_eq_nil_iff.1 heq.symm).1 (escaped_escape hquote d).ne_nil
  | cons c cs ih =>
    cases ds with
    | nil =>
      rw [List.flatMap_nil, List.flatMap_cons] at heq
      exact absurd (List.append_eq_nil_iff.1 heq).1 (escaped_escape hquote c).ne_nil
    | cons d ds =>
      rw [List.flatMap_cons, List.flatMap_cons] at heq
      obtain ⟨rfl, hrest⟩ := (escaped_escape hquote c).append_inj (escaped_escape hquote d) heq
      rw [ih hrest]

/-- The quotes and, between them, the characters one by one. -/
theorem toList_quotedWith (quote : Char) (cs : List Char) :
    (quotedWith quote cs).toList = quote :: (cs.flatMap (escape quote) ++ [quote]) := by
  rw [quotedWith, String.toList_ofList, List.cons_append]

/-- A quoted text can be read back, by recursion over its characters. -/
theorem quotedWith_inj {quote : Char} (hquote : quote = '"' ∨ quote = '\'') {cs ds : List Char}
    (heq : quotedWith quote cs = quotedWith quote ds) : cs = ds := by
  have hchars := congrArg String.toList heq
  rw [toList_quotedWith, toList_quotedWith, List.cons.injEq, List.append_cancel_right_eq] at hchars
  exact flatMap_escape_inj hquote hchars.2

/-- So can a string. -/
theorem quoted_inj {s t : String} (heq : quoted s = quoted t) : s = t :=
  String.toList_inj.1 (quotedWith_inj (.inl rfl) heq)

/-- Quoted texts keep to their line. -/
theorem not_mem_quotedWith {quote : Char} (hquote : quote = '"' ∨ quote = '\'') (cs : List Char) :
    '\n' ∉ (quotedWith quote cs).toList := by
  have hne : '\n' ≠ quote := by
    obtain rfl | rfl := hquote
    · decide
    · decide
  have hinside : '\n' ∉ cs.flatMap (escape quote) := by
    intro hmem
    obtain ⟨c, -, hc⟩ := List.mem_flatMap.1 hmem
    exact (escaped_escape hquote c).not_mem_lineFeed hc
  rw [toList_quotedWith]
  simp [hne, hinside]

end GeoLang.Text
