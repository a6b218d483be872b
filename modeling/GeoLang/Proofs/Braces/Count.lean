import GeoLang.Grammar.Recovery

namespace GeoLang

/-- An opening or a closing brace. -/
def TokenKind.isBrace (k : TokenKind) : Bool :=
  k.isPunctuation .lCurly || k.isPunctuation .rCurly

/-- An opening brace, a closing one or none. -/
theorem TokenKind.brace_cases (k : TokenKind) :
    k = .punctuation .lCurly ∨ k = .punctuation .rCurly ∨ k.isBrace = false := by
  by_cases hleft : k = .punctuation .lCurly
  · exact .inl hleft
  · by_cases hright : k = .punctuation .rCurly
    · exact .inr (.inl hright)
    · exact .inr (.inr (by simp [isBrace, isPunctuation, hleft, hright]))

theorem TokenKind.isBrace_of_isComment {k : TokenKind} (hk : k.isComment = true) :
    k.isBrace = false := by
  cases k with
  | comment body => rfl
  | _ => cases hk

namespace Grammar

/-- The opening braces of a list. -/
def opening (ts : List Token) : Nat := ts.countP (·.kind.isPunctuation .lCurly)

/-- The closing braces of a list. -/
def closing (ts : List Token) : Nat := ts.countP (·.kind.isPunctuation .rCurly)

/-- No prefix has more closing braces than opening ones, and `k` of them are still open at the
    end. -/
structure LeavesOpen (ts : List Token) (k : Nat) : Prop where
  within : ∀ n, closing (ts.take n) ≤ opening (ts.take n)
  total : opening ts = closing ts + k

/-- No prefix has more closing braces than opening ones, and there are as many of both. -/
abbrev Balanced (ts : List Token) : Prop := LeavesOpen ts 0

variable {ts us : List Token} {t : Token} {j k : Nat}

@[simp] theorem opening_append : opening (ts ++ us) = opening ts + opening us :=
  List.countP_append

@[simp] theorem closing_append : closing (ts ++ us) = closing ts + closing us :=
  List.countP_append

/-- Only the prefixes of a list that are not longer than it need to be looked at. -/
theorem leavesOpen_iff : LeavesOpen ts k ↔
    (∀ n ∈ List.range ts.length, closing (ts.take n) ≤ opening (ts.take n)) ∧
      opening ts = closing ts + k := by
  constructor
  · intro h
    exact ⟨fun n _ => h.within n, h.total⟩
  · rintro ⟨hwithin, htotal⟩
    refine ⟨fun n => ?_, htotal⟩
    by_cases hn : n < ts.length
    · exact hwithin n (List.mem_range.2 hn)
    · rw [List.take_of_length_le (by omega)]
      omega

instance : Decidable (LeavesOpen ts k) := decidable_of_iff _ leavesOpen_iff.symm

/-- Nothing opens nothing. -/
theorem LeavesOpen.nil : LeavesOpen [] 0 := ⟨by simp [closing], rfl⟩

/-- Without braces none is left open. -/
theorem LeavesOpen.of_not_isBrace (hts : ∀ t ∈ ts, t.kind.isBrace = false) : LeavesOpen ts 0 := by
  have hzero : ∀ us, us ⊆ ts → opening us = 0 ∧ closing us = 0 := by
    intro us hus
    have hneither := fun t ht => Bool.or_eq_false_iff.1 (hts t (hus ht))
    simp only [opening, closing, List.countP_eq_zero]
    exact ⟨fun t ht => by simp [hneither t ht], fun t ht => by simp [hneither t ht]⟩
  refine ⟨fun n => ?_, ?_⟩
  · rw [(hzero _ (List.take_subset n ts)).2]
    exact Nat.zero_le _
  · rw [(hzero ts (List.Subset.refl ts)).1, (hzero ts (List.Subset.refl ts)).2]

/-- What two lists leave open adds up. -/
theorem LeavesOpen.append (hts : LeavesOpen ts j) (hus : LeavesOpen us k) :
    LeavesOpen (ts ++ us) (j + k) where
  within n := by
    have hfirst := hts.within n
    have hsecond := hus.within (n - ts.length)
    rw [List.take_append, opening_append, closing_append]
    omega
  total := by
    have hfirst := hts.total
    have hsecond := hus.total
    rw [opening_append, closing_append]
    omega

/-- The count that skipping keeps is the number of braces left open, as long as no brace is skipped
    that closes none. -/
theorem LeavesOpen.snoc (hts : LeavesOpen ts k)
    (ht : k = 0 → t.kind.isPunctuation .rCurly = false) :
    LeavesOpen (ts ++ [t]) (braceDepth k t) := by
  have htotal := hts.total
  have hopening : opening [t] = if t.kind.isPunctuation .lCurly then 1 else 0 :=
    List.countP_singleton
  have hclosing : closing [t] = if t.kind.isPunctuation .rCurly then 1 else 0 :=
    List.countP_singleton
  have hdifferent : t.kind.isPunctuation .lCurly = true → t.kind.isPunctuation .rCurly = false := by
    simp only [TokenKind.isPunctuation, beq_iff_eq]
    intro hkind
    rw [hkind]
    rfl
  have hend : opening (ts ++ [t]) = closing (ts ++ [t]) + braceDepth k t := by
    rw [opening_append, closing_append, hopening, hclosing, braceDepth]
    grind
  refine ⟨fun n => ?_, hend⟩
  by_cases hn : n ≤ ts.length
  · rw [List.take_append_of_le_length hn]
    exact hts.within n
  · rw [List.take_of_length_le (by rw [List.length_append, List.length_singleton]; omega)]
    omega

/-- The count of recovery changes with braces only. -/
theorem braceDepth_of_not_isBrace (ht : t.kind.isBrace = false) : braceDepth k t = k := by
  rw [TokenKind.isBrace, Bool.or_eq_false_iff] at ht
  simp [braceDepth, ht.1, ht.2]

theorem braceDepth_of_lCurly (ht : t.kind = .punctuation .lCurly) : braceDepth k t = k + 1 := by
  simp [braceDepth, ht, TokenKind.isPunctuation]

theorem braceDepth_of_rCurly (ht : t.kind = .punctuation .rCurly) : braceDepth k t = k - 1 := by
  simp [braceDepth, ht, TokenKind.isPunctuation]

theorem LeavesOpen.snoc_other (hts : LeavesOpen ts k) (ht : t.kind.isBrace = false) :
    LeavesOpen (ts ++ [t]) k := by
  have hsnoc := hts.snoc fun _ => (Bool.or_eq_false_iff.1 ht).2
  rwa [braceDepth_of_not_isBrace ht] at hsnoc

theorem LeavesOpen.snoc_lCurly (hts : LeavesOpen ts k) (ht : t.kind = .punctuation .lCurly) :
    LeavesOpen (ts ++ [t]) (k + 1) := by
  have hsnoc := hts.snoc (t := t) fun _ => by rw [ht]; rfl
  rwa [braceDepth_of_lCurly ht] at hsnoc

/-- A closing brace closes one of those that are open. -/
theorem LeavesOpen.snoc_rCurly (hts : LeavesOpen ts (k + 1)) (ht : t.kind = .punctuation .rCurly) :
    LeavesOpen (ts ++ [t]) k := by
  have hsnoc := hts.snoc (t := t) (by omega)
  rwa [braceDepth_of_rCurly ht, Nat.add_sub_cancel] at hsnoc

/-- Behind a balanced part of a text that closes only braces of its own no brace is closed at
    once. -/
theorem LeavesOpen.not_rCurly {rest : List Token} (hts : LeavesOpen ts 0)
    (hwhole : LeavesOpen (ts ++ t :: rest) k) : t.kind ≠ .punctuation .rCurly := by
  intro hkind
  have htotal := hts.total
  have hbefore := hwhole.within (ts.length + 1)
  have htake : (ts ++ t :: rest).take (ts.length + 1) = ts ++ [t] := by
    rw [List.take_length_add_append]
    rfl
  have hopening : opening [t] = 0 := by simp [opening, hkind, TokenKind.isPunctuation]
  have hclosing : closing [t] = 1 := by simp [closing, hkind, TokenKind.isPunctuation]
  rw [htake, opening_append, closing_append, hopening, hclosing] at hbefore
  omega

/-- In a balanced text every brace that is opened is closed further on. -/
theorem LeavesOpen.opening_le_closing (hwhole : Balanced (us ++ ts)) : opening ts ≤ closing ts := by
  have htotal := hwhole.total
  have hbefore := hwhole.within us.length
  rw [List.take_left] at hbefore
  rw [opening_append, closing_append] at htotal
  omega

/-- Leaving out tokens that are no braces changes no count. -/
theorem countP_filter_of_isBrace {keep : Token → Bool} {mark : Punctuation}
    (hmark : mark = .lCurly ∨ mark = .rCurly)
    (hkeep : ∀ t ∈ ts, keep t = false → t.kind.isBrace = false) :
    (ts.filter keep).countP (·.kind.isPunctuation mark) =
      ts.countP (·.kind.isPunctuation mark) := by
  rw [List.countP_filter]
  apply List.countP_congr
  intro t ht
  have hbrace : keep t = false → t.kind.isPunctuation mark = false := by
    intro hleft
    have hneither := Bool.or_eq_false_iff.1 (hkeep t ht hleft)
    obtain rfl | rfl := hmark
    · exact hneither.1
    · exact hneither.2
  cases hcase : keep t with
  | true => simp
  | false => simp [hbrace hcase]

/-- Tokens that are no braces may be left out. -/
theorem leavesOpen_filter_iff {keep : Token → Bool}
    (hkeep : ∀ t ∈ ts, keep t = false → t.kind.isBrace = false) :
    LeavesOpen (ts.filter keep) k ↔ LeavesOpen ts k := by
  have hopening : ∀ us, us <+: ts → opening (us.filter keep) = opening us := fun us hus =>
    countP_filter_of_isBrace (.inl rfl) fun t ht => hkeep t (hus.subset ht)
  have hclosing : ∀ us, us <+: ts → closing (us.filter keep) = closing us := fun us hus =>
    countP_filter_of_isBrace (.inr rfl) fun t ht => hkeep t (hus.subset ht)
  have hself : ts <+: ts := List.prefix_rfl
  constructor
  · intro h
    refine ⟨fun n => ?_, ?_⟩
    · have hbefore : ts.take n <+: ts := List.take_prefix n ts
      have htake := List.prefix_iff_eq_take.1 (hbefore.filter keep)
      have hwithin := h.within ((ts.take n).filter keep).length
      rwa [← htake, hopening _ hbefore, hclosing _ hbefore] at hwithin
    · have htotal := h.total
      rwa [hopening _ hself, hclosing _ hself] at htotal
  · intro h
    refine ⟨fun n => ?_, ?_⟩
    · obtain ⟨us, hus, htake⟩ := List.prefix_filter_iff.1 (List.take_prefix n (ts.filter keep))
      have hwithin := h.within us.length
      rwa [← List.prefix_iff_eq_take.1 hus, ← hopening _ hus, ← hclosing _ hus, ← htake] at hwithin
    · rw [hopening _ hself, hclosing _ hself]
      exact h.total

end Grammar

end GeoLang
