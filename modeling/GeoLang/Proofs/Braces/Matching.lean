import GeoLang.Proofs.Braces.Count
import Mathlib.Data.List.Induction

namespace GeoLang.Grammar

variable {ts us : List Token} {t : Token} {i j k : Nat}

/-- A list leaves one number of braces open. -/
theorem LeavesOpen.eq (hts : LeavesOpen ts j) (hts' : LeavesOpen ts k) : j = k := by
  have htotal := hts.total
  have htotal' := hts'.total
  omega

/-- What closes only braces of its own still does if it is cut off. -/
theorem LeavesOpen.of_append (hwhole : LeavesOpen (ts ++ us) k) :
    LeavesOpen ts (opening ts - closing ts) where
  within n := by
    by_cases hn : n ≤ ts.length
    · have hwithin := hwhole.within n
      rwa [List.take_append_of_le_length hn] at hwithin
    · have hwithin := hwhole.within ts.length
      rw [List.take_left] at hwithin
      rwa [List.take_of_length_le (by omega)]
  total := by
    have hwithin := hwhole.within ts.length
    rw [List.take_left] at hwithin
    omega

/-- What is open in front of the last token. -/
theorem LeavesOpen.exists_of_snoc (hwhole : LeavesOpen (ts ++ [t]) k) :
    ∃ j, LeavesOpen ts j ∧ braceDepth j t = k ∧ (t.kind = .punctuation .rCurly → j ≠ 0) := by
  have hts := hwhole.of_append
  have hclosed : opening ts - closing ts = 0 → t.kind ≠ .punctuation .rCurly := by
    intro hzero
    rw [hzero] at hts
    exact hts.not_rCurly hwhole
  refine ⟨_, hts, (hts.snoc fun hzero => ?_).eq hwhole, fun hright hzero => hclosed hzero hright⟩
  simpa [TokenKind.isPunctuation] using hclosed hzero

/-- Among the braces left open there is one with `j` of them in front of it and `i` behind it. -/
theorem LeavesOpen.exists_open (hts : LeavesOpen ts (j + 1 + i)) :
    ∃ before left inside, ts = before ++ left :: inside ∧ left.kind = .punctuation .lCurly ∧
      LeavesOpen before j ∧ LeavesOpen inside i := by
  induction ts using List.reverseRecOn generalizing i with
  | nil =>
    have hnone : 0 = 0 + (j + 1 + i) := hts.total
    omega
  | append_singleton ts t ih =>
    obtain ⟨opened, hopen, hdepth, hpositive⟩ := hts.exists_of_snoc
    obtain hleft | hright | hbrace := t.kind.brace_cases
    · rw [braceDepth_of_lCurly hleft] at hdepth
      cases i with
      | zero =>
        obtain rfl : opened = j := by omega
        exact ⟨ts, t, [], rfl, hleft, hopen, .nil⟩
      | succ i =>
        obtain rfl : opened = j + 1 + i := by omega
        obtain ⟨before, left, inside, rfl, hkind, hbefore, hinside⟩ := ih hopen
        exact ⟨before, left, inside ++ [t], by simp, hkind, hbefore, hinside.snoc_lCurly hleft⟩
    · have hsome := hpositive hright
      rw [braceDepth_of_rCurly hright] at hdepth
      obtain rfl : opened = j + 1 + (i + 1) := by omega
      obtain ⟨before, left, inside, rfl, hkind, hbefore, hinside⟩ := ih hopen
      exact ⟨before, left, inside ++ [t], by simp, hkind, hbefore, hinside.snoc_rCurly hright⟩
    · rw [braceDepth_of_not_isBrace hbrace] at hdepth
      subst hdepth
      obtain ⟨before, left, inside, rfl, hkind, hbefore, hinside⟩ := ih hopen
      exact ⟨before, left, inside ++ [t], by simp, hkind, hbefore, hinside.snoc_other hbrace⟩

/-- Each closing brace has its opening one in front of it. -/
theorem LeavesOpen.exists_match (hwhole : LeavesOpen (ts ++ t :: us) k)
    (hright : t.kind = .punctuation .rCurly) :
    ∃ before left inside, ts = before ++ left :: inside ∧ left.kind = .punctuation .lCurly ∧
      Balanced inside := by
  have hfirst : LeavesOpen ((ts ++ [t]) ++ us) k := by rwa [List.append_assoc]
  obtain ⟨j, hts, -, hpositive⟩ := hfirst.of_append.exists_of_snoc
  obtain ⟨j, rfl⟩ := Nat.exists_eq_succ_of_ne_zero (hpositive hright)
  obtain ⟨before, left, inside, hsplit, hleft, -, hinside⟩ := @LeavesOpen.exists_open ts 0 j hts
  exact ⟨before, left, inside, hsplit, hleft, hinside⟩

end GeoLang.Grammar
