import Mathlib.Algebra.Order.Field.Power
import Mathlib.Algebra.Order.Ring.Unbundled.Rat
import Mathlib.Data.Nat.Cast.Order.Field
import Mathlib.Data.Rat.Cast.Order
import Mathlib.Tactic.FieldSimp
import Mathlib.Tactic.Linarith
import Mathlib.Tactic.Positivity
import Mathlib.Tactic.Ring
import GeoLang.Number.Binary64

namespace GeoLang.Binary64

/-- The absolute value. -/
def magnitude (x : Binary64) : ℚ := x.significand * 2 ^ x.exponent

/-- The forms of numbers. Each value has one of them. -/
structure Proper (x : Binary64) : Prop where
  significand_lt : x.significand < 2 ^ 53
  least_le : -1074 ≤ x.exponent
  le_greatest : x.exponent ≤ 971
  full : 2 ^ 52 ≤ x.significand ∨ x.exponent = -1074

/-- No number is nearer to `q` than `x` is, and if another one is as near, the significand of `x` is
    even. -/
structure Nearest (q : ℚ) (x : Binary64) : Prop where
  proper : x.Proper
  closest : ∀ y : Binary64, y.Proper → |q - x.magnitude| ≤ |q - y.magnitude|
  even : ∀ y : Binary64, y.Proper → y.magnitude ≠ x.magnitude →
    |q - y.magnitude| = |q - x.magnitude| → Even x.significand

/-- Half way between the greatest number and the one that would follow it. -/
def overflow : ℚ := (2 ^ 53 - 1 / 2) * 2 ^ (971 : ℤ)

/-- `m` is the whole number nearest to `t`, the even one of two. -/
structure Whole (t : ℚ) (m : ℕ) : Prop where
  near : |t - m| ≤ 1 / 2
  even : |t - m| = 1 / 2 → Even m

/-- Another whole number is at least half a step away. -/
theorem Whole.half_le {t : ℚ} {m k : ℕ} (hwhole : Whole t m) (hne : k ≠ m) : 1 / 2 ≤ |t - k| := by
  have hnear := abs_le.1 hwhole.near
  obtain hlt | hlt := Nat.lt_or_gt_of_ne hne
  · have hstep : (k : ℚ) + 1 ≤ m := by exact_mod_cast hlt
    exact le_abs.2 (.inl (by linarith))
  · have hstep : (m : ℚ) + 1 ≤ k := by exact_mod_cast hlt
    exact le_abs.2 (.inr (by linarith))

/-- No other integer is nearer. -/
theorem Whole.closest {t : ℚ} {m : ℕ} (hwhole : Whole t m) (k : ℕ) : |t - m| ≤ |t - k| := by
  by_cases hne : k = m
  · rw [hne]
  · exact hwhole.near.trans (hwhole.half_le hne)

private theorem Whole.even_of_tie {t : ℚ} {m k : ℕ} (hwhole : Whole t m) (hne : k ≠ m)
    (htie : |t - k| = |t - m|) : Even m := by
  have hhalf := hwhole.half_le hne
  rw [htie] at hhalf
  exact hwhole.even (le_antisymm hwhole.near hhalf)

private theorem whole_roundDiv (n : ℕ) {d : ℕ} (hd : 0 < d) : Whole (n / d) (roundDiv n d) := by
  have hpos : (0 : ℚ) < d := by exact_mod_cast hd
  -- The fraction is its floor and a part below one.
  let part : ℚ := (n % d : ℕ) / d
  have hquot : (n / d : ℚ) = (n / d : ℕ) + part := by
    have hdiv : (d : ℚ) * (n / d : ℕ) + (n % d : ℕ) = n := by exact_mod_cast Nat.div_add_mod n d
    simp only [part]
    field_simp
    linarith
  have hnonneg : 0 ≤ part := by positivity
  have hlt : part < 1 := by
    rw [div_lt_one hpos]
    exact_mod_cast Nat.mod_lt n hd
  have hhalf : part ≤ 1 / 2 ↔ 2 * (n % d) ≤ d := by
    rw [div_le_iff₀ hpos, ← Nat.cast_le (α := ℚ)]
    push_cast
    constructor <;> intro hle <;> linarith
  have hhalf' : 1 / 2 ≤ part ↔ d ≤ 2 * (n % d) := by
    rw [le_div_iff₀ hpos, ← Nat.cast_le (α := ℚ)]
    push_cast
    constructor <;> intro hle <;> linarith
  unfold roundDiv
  dsimp only
  split
  · next hdown =>
    have hdist : |(n / d : ℚ) - (n / d : ℕ)| = part := by
      rw [hquot, add_sub_cancel_left, abs_of_nonneg hnonneg]
    refine ⟨?_, fun htie => ?_⟩
    · rw [hdist]
      exact hhalf.2 (by omega)
    · rw [hdist] at htie
      have := hhalf'.1 htie.ge
      exact Nat.even_iff.2 (by omega)
  · next hup =>
    have hdist : |(n / d : ℚ) - (n / d + 1 : ℕ)| = 1 - part := by
      rw [hquot, abs_sub_comm, Nat.cast_add, Nat.cast_one, add_sub_add_left_eq_sub,
        abs_of_nonneg (by linarith)]
    refine ⟨?_, fun htie => ?_⟩
    · rw [hdist]
      have := hhalf'.2 (by omega)
      linarith
    · rw [hdist] at htie
      have := hhalf.1 (by linarith)
      exact Nat.even_iff.2 (by omega)

/-- Shifting both terms divides the fraction by a power of two. -/
theorem shifted_div (n d : ℕ) (e : ℤ) :
    ((n <<< (-e).toNat : ℕ) : ℚ) / (d <<< e.toNat : ℕ) = n / d / 2 ^ e := by
  rw [Nat.shiftLeft_eq, Nat.shiftLeft_eq]
  push_cast
  obtain ⟨k, rfl | rfl⟩ := e.eq_nat_or_neg
  · simp [div_div]
  · simp [div_eq_mul_inv, mul_right_comm]

/-- `e` is the exponent of the grid around `q`: the multiples of `2 ^ e` up to `q` have at most 53
    bits, and those near it have all of them unless the exponent is the least. -/
structure GridFor (q : ℚ) (e : ℤ) : Prop where
  least_le : -1074 ≤ e
  lt_limit : q / 2 ^ e < 2 ^ 53
  full : 2 ^ 52 ≤ q / 2 ^ e ∨ e = -1074

section Exponent

variable {n d : ℕ} (hn : 0 < n) (hd : 0 < d)

include hn hd

/-- A fraction has the size of the quotient of the leading bits of its terms. -/
theorem div_leading : 1 / 2 < (n / d / 2 ^ ((n.log2 : ℤ) - d.log2) : ℚ) ∧
    (n / d / 2 ^ ((n.log2 : ℤ) - d.log2) : ℚ) < 2 := by
  have hnpos : (0 : ℚ) < n := by exact_mod_cast hn
  have hdpos : (0 : ℚ) < d := by exact_mod_cast hd
  have hnlow : (2 : ℚ) ^ n.log2 ≤ n := by exact_mod_cast Nat.log2_self_le hn.ne'
  have hnhigh : (n : ℚ) < 2 ^ n.log2 * 2 := by exact_mod_cast Nat.lt_log2_self
  have hdlow : (2 : ℚ) ^ d.log2 ≤ d := by exact_mod_cast Nat.log2_self_le hd.ne'
  have hdhigh : (d : ℚ) < 2 ^ d.log2 * 2 := by exact_mod_cast Nat.lt_log2_self
  have hleading : (n / d / 2 ^ ((n.log2 : ℤ) - d.log2) : ℚ) = n * 2 ^ d.log2 / (d * 2 ^ n.log2) := by
    rw [zpow_sub₀ two_ne_zero, zpow_natCast, zpow_natCast]
    field_simp
  rw [hleading, lt_div_iff₀ (by positivity), div_lt_iff₀ (by positivity)]
  constructor
  · nlinarith
  · nlinarith

/-- But for the least exponent that numbers have, the fraction has 53 bits in front of the point. -/
theorem exists_exponentFor : ∃ e, exponentFor n d = (if e < -1074 then -1074 else e) ∧
    2 ^ 52 ≤ (n / d / 2 ^ e : ℚ) ∧ (n / d / 2 ^ e : ℚ) < 2 ^ 53 := by
  obtain ⟨hlow, hhigh⟩ := div_leading hn hd
  unfold exponentFor
  dsimp only
  generalize (n.log2 : ℤ) - d.log2 = b at hlow hhigh ⊢
  have hscale : ∀ k : ℕ, (n / d / 2 ^ (b - k) : ℚ) = n / d / 2 ^ b * 2 ^ k := by
    intro k
    rw [zpow_sub₀ two_ne_zero, zpow_natCast]
    field_simp
  have hshifted : (0 : ℚ) < (d <<< b.toNat : ℕ) := by
    rw [Nat.shiftLeft_eq]
    positivity
  have hbelow : n <<< (-b).toNat < d <<< b.toNat ↔ (n / d / 2 ^ b : ℚ) < 1 := by
    rw [← Nat.cast_lt (α := ℚ), ← div_lt_one hshifted, shifted_div]
  by_cases hlt : (n / d / 2 ^ b : ℚ) < 1
  · refine ⟨b - (53 : ℕ), by rw [if_pos (hbelow.2 hlt)]; rfl, ?_⟩
    rw [hscale]
    constructor
    · linarith
    · linarith
  · have hsucc : b - (53 : ℕ) + 1 = b - (52 : ℕ) := by omega
    refine ⟨b - (52 : ℕ), by rw [if_neg (mt hbelow.1 hlt), ← hsucc]; rfl, ?_⟩
    rw [hscale]
    constructor
    · linarith
    · linarith

private theorem gridFor_exponentFor : GridFor (n / d) (exponentFor n d) := by
  obtain ⟨e, heq, hfull, hlimit⟩ := exists_exponentFor hn hd
  rw [heq]
  split
  · next hleast =>
    -- A coarser grid makes the multiples smaller.
    refine ⟨le_refl _, ?_, .inr rfl⟩
    have hpow : (2 : ℚ) ^ e ≤ 2 ^ (-1074 : ℤ) := zpow_le_zpow_right₀ (by norm_num) hleast.le
    have hle : (n / d / 2 ^ (-1074 : ℤ) : ℚ) ≤ n / d / 2 ^ e := by gcongr
    exact hle.trans_lt hlimit
  · next hleast => exact ⟨by omega, hlimit, .inl hfull⟩

end Exponent

/-- Fractions on a finer grid than the coarsest one are not too great. -/
theorem GridFor.lt_overflow {q : ℚ} {e : ℤ} (hgrid : GridFor q e) (hsmall : e < 971) :
    q < overflow := by
  have hpos : (0 : ℚ) < 2 ^ e := by positivity
  have hpow : (2 : ℚ) ^ e * 2 ≤ 2 ^ (971 : ℤ) := by
    rw [← zpow_add_one₀ two_ne_zero]
    exact zpow_le_zpow_right₀ (by norm_num) hsmall
  calc q < 2 ^ 53 * 2 ^ e := (div_lt_iff₀ hpos).1 hgrid.lt_limit
    _ = 2 ^ 52 * (2 ^ e * 2) := by ring
    _ ≤ 2 ^ 52 * 2 ^ (971 : ℤ) := by gcongr
    _ < overflow := mul_lt_mul_of_pos_right (by norm_num) (by positivity)

/-- Fractions that would need a coarser grid are too great. -/
theorem GridFor.overflow_le {q : ℚ} {e : ℤ} (hgrid : GridFor q e) (hlarge : 971 < e) :
    overflow ≤ q := by
  have hpos : (0 : ℚ) < 2 ^ e := by positivity
  have hfull : 2 ^ 52 ≤ q / 2 ^ e := hgrid.full.resolve_right (by omega)
  have hpow : (2 : ℚ) ^ (971 : ℤ) * 2 ≤ 2 ^ e := by
    rw [← zpow_add_one₀ two_ne_zero]
    exact zpow_le_zpow_right₀ (by norm_num) hlarge
  calc overflow ≤ 2 ^ 53 * 2 ^ (971 : ℤ) := mul_le_mul_of_nonneg_right (by norm_num) (by positivity)
    _ = 2 ^ 52 * (2 ^ (971 : ℤ) * 2) := by ring
    _ ≤ 2 ^ 52 * 2 ^ e := by gcongr
    _ ≤ q := (le_div_iff₀ hpos).1 hfull

/-- Distances from `q`, in units of the grid. -/
theorem abs_sub_mul_zpow (q k : ℚ) (e : ℤ) : |q - k * 2 ^ e| = |q / 2 ^ e - k| * 2 ^ e := by
  have hpos : (0 : ℚ) < 2 ^ e := by positivity
  rw [← abs_of_pos hpos, ← abs_mul, abs_of_pos hpos, sub_mul, div_mul_cancel₀ _ hpos.ne']

section Grid

variable {q : ℚ} {e : ℤ} {m : ℕ} (hgrid : GridFor q e) (hwhole : Whole (q / 2 ^ e) m)

include hgrid hwhole

/-- Rounding on the grid gives a significand of 53 bits, or the power of two above them. -/
theorem GridFor.le_limit : m ≤ 2 ^ 53 := by
  have hnear := abs_le.1 hwhole.near
  have hlt : (m : ℚ) < (2 ^ 53 + 1 : ℕ) := by
    push_cast
    linarith [hgrid.lt_limit]
  exact Nat.lt_succ_iff.1 (Nat.cast_lt.1 hlt)

private theorem GridFor.le_or_least : 2 ^ 52 ≤ m ∨ e = -1074 := by
  refine hgrid.full.imp_left fun hfull => ?_
  have hnear := abs_le.1 hwhole.near
  have hlt : ((2 ^ 52 : ℕ) : ℚ) < (m + 1 : ℕ) := by
    push_cast
    linarith
  exact Nat.lt_succ_iff.1 (Nat.cast_lt.1 hlt)

/-- The nearest point of the grid is nearer than every number that is not on it. -/
theorem GridFor.closest {y : Binary64} (hy : y.Proper) :
    |q - m * 2 ^ e| ≤ |q - y.magnitude| ∧
      (y.magnitude ≠ m * 2 ^ e → |q - y.magnitude| = |q - m * 2 ^ e| → Even m) := by
  have hpos : (0 : ℚ) < 2 ^ e := by positivity
  by_cases hon : e ≤ y.exponent
  · -- On the grid it is a question of whole numbers.
    obtain ⟨k, hk⟩ := Int.le.dest hon
    have hy : y.magnitude = (y.significand * 2 ^ k : ℕ) * 2 ^ e := by
      rw [magnitude, ← hk, zpow_add₀ two_ne_zero, zpow_natCast]
      push_cast
      ring
    rw [hy, abs_sub_mul_zpow, abs_sub_mul_zpow]
    refine ⟨mul_le_mul_of_nonneg_right (hwhole.closest _) hpos.le, fun hne htie => ?_⟩
    refine hwhole.even_of_tie ?_ (mul_right_cancel₀ hpos.ne' htie)
    rintro heq
    rw [heq] at hne
    exact hne rfl
  · -- What is finer than the grid lies below the first of its points that have 53 bits.
    have hfull : 2 ^ 52 ≤ q / 2 ^ e := hgrid.full.resolve_right fun hleast => by
      have := hy.least_le
      omega
    have hbelow : y.magnitude < 2 ^ 52 * 2 ^ e := by
      have hsignificand : (y.significand : ℚ) < 2 ^ 53 := by exact_mod_cast hy.significand_lt
      calc y.magnitude < 2 ^ 53 * 2 ^ y.exponent := by
            unfold magnitude
            gcongr
        _ = 2 ^ 52 * 2 ^ (y.exponent + 1) := by
            rw [zpow_add_one₀ two_ne_zero]
            ring
        _ ≤ 2 ^ 52 * 2 ^ e := by
            gcongr
            · norm_num
            · omega
    have hq : 2 ^ 52 * 2 ^ e ≤ q := (le_div_iff₀ hpos).1 hfull
    have hnear : |q - m * 2 ^ e| ≤ q - 2 ^ 52 * 2 ^ e := by
      have hclosest := mul_le_mul_of_nonneg_right (hwhole.closest (2 ^ 52)) hpos.le
      rw [← abs_sub_mul_zpow, ← abs_sub_mul_zpow] at hclosest
      rw [Nat.cast_pow, Nat.cast_ofNat] at hclosest
      rwa [abs_of_nonneg (sub_nonneg.2 hq)] at hclosest
    have hfar : |q - m * 2 ^ e| < |q - y.magnitude| := by
      rw [abs_of_nonneg (by linarith : 0 ≤ q - y.magnitude)]
      linarith
    exact ⟨hfar.le, fun _ htie => absurd htie hfar.ne'⟩

/-- On the coarsest grid that numbers have, a fraction is too great if it comes to lie on the
    limit. -/
theorem GridFor.lt_overflow_iff_ne (htop : e = 971) : q < overflow ↔ m ≠ 2 ^ 53 := by
  subst htop
  have hnear := abs_le.1 hwhole.near
  rw [overflow, ← div_lt_iff₀ (by positivity)]
  constructor
  · intro hlt hcarry
    have hm : (m : ℚ) = 2 ^ 53 := by exact_mod_cast hcarry
    linarith
  · intro hcarry
    have hlt : m + 1 ≤ 2 ^ 53 := lt_of_le_of_ne (hgrid.le_limit hwhole) hcarry
    have hm : (m : ℚ) + 1 ≤ 2 ^ 53 := by exact_mod_cast hlt
    refine lt_of_le_of_ne (by linarith) fun htie => ?_
    -- The whole number in front of the limit is odd, so it does not win a tie.
    have heq : (m : ℚ) = 2 ^ 53 - 1 := by linarith
    have heven : Even m := by
      apply hwhole.even
      rw [htie, heq]
      norm_num
    have hodd : m + 1 = 2 ^ 53 := by
      have hcast : (m : ℚ) + 1 = 2 ^ 53 := by linarith
      exact_mod_cast hcast
    rw [Nat.even_iff] at heven
    omega

/-- The point of the grid is beyond the greatest number exactly if the fraction is at least half way
    there. -/
theorem GridFor.lt_overflow_iff : q < overflow ↔ (if m = 2 ^ 53 then e + 1 else e) ≤ 971 := by
  obtain hsmall | htop | hlarge := lt_trichotomy e 971
  · exact iff_of_true (hgrid.lt_overflow hsmall) (by split <;> omega)
  · rw [hgrid.lt_overflow_iff_ne hwhole htop]
    split <;> omega
  · exact iff_of_false (not_lt.2 (hgrid.overflow_le hlarge)) (by split <;> omega)

/-- The nearest point of the grid as a number, with its carry if it has one bit too many. -/
theorem GridFor.nearest {x : Binary64} (hmagnitude : x.magnitude = m * 2 ^ e) (hproper : x.Proper)
    (heven : Even m → Even x.significand) : x.Nearest q where
  proper := hproper
  closest := fun y hy => hmagnitude ▸ (hgrid.closest hwhole hy).1
  even := fun y hy hne htie => by
    rw [hmagnitude] at hne htie
    exact heven ((hgrid.closest hwhole hy).2 hne htie)

end Grid

private theorem nearest_zero (negative : Bool) : Nearest 0 ⟨negative, 0, -1074⟩ := by
  have hzero : magnitude ⟨negative, 0, -1074⟩ = 0 := by simp [magnitude]
  refine ⟨⟨by norm_num, le_refl _, by norm_num, .inr rfl⟩, fun y _ => ?_, fun y _ _ _ => ⟨0, rfl⟩⟩
  rw [hzero, sub_zero, abs_zero]
  exact abs_nonneg _

/-- A positive fraction is rounded to a point of its grid, which is a number unless it is too
    great. -/
theorem exists_gridFor {n d : ℕ} (hn : 0 < n) (hd : 0 < d) (negative : Bool) :
    ∃ e m, GridFor (n / d) e ∧ Whole (n / d / 2 ^ e) m ∧
      if (if m = 2 ^ 53 then e + 1 else e) ≤ 971 then
        ∃ x, ofRatio? negative n d = some x ∧ x.negative = negative ∧ x.Proper ∧
          x.magnitude = m * 2 ^ e ∧ (Even m → Even x.significand)
      else ofRatio? negative n d = none := by
  have hgrid := gridFor_exponentFor hn hd
  have hlimit : significandLimit = 2 ^ 53 := rfl
  have hfull : fullSignificand = 2 ^ 52 := rfl
  have hshifted : 0 < d <<< (exponentFor n d).toNat := by
    rw [Nat.shiftLeft_eq]
    positivity
  have hwhole := whole_roundDiv (n <<< (-exponentFor n d).toNat) hshifted
  rw [shifted_div] at hwhole
  unfold ofRatio?
  dsimp only
  generalize exponentFor n d = e at hgrid hwhole ⊢
  generalize roundDiv (n <<< (-e).toNat) (d <<< e.toNat) = m at hwhole ⊢
  refine ⟨e, m, hgrid, hwhole, ?_⟩
  have hleast := hgrid.least_le
  have hle := hgrid.le_limit hwhole
  by_cases hcarry : m = 2 ^ 53
  · have hsome : (2 ^ 52 : ℕ) ≠ 0 := by norm_num
    simp only [hlimit, hfull, if_pos hcarry, if_neg hsome]
    split
    · next htop =>
      have hnext : -1074 ≤ e + 1 := by omega
      refine ⟨_, if_pos htop, rfl, ⟨by norm_num, hnext, htop, .inl (le_refl _)⟩, ?_, fun _ => ?_⟩
      · rw [magnitude, hcarry, zpow_add_one₀ two_ne_zero]
        push_cast
        ring
      · exact Nat.even_pow.2 ⟨even_two, by norm_num⟩
    · next htop => exact if_neg htop
  · simp only [hlimit, if_neg hcarry]
    have hlt : m < 2 ^ 53 := lt_of_le_of_ne hle hcarry
    have hbits := hgrid.le_or_least hwhole
    by_cases hzero : m = 0
    · -- Nothing is left only on the finest grid.
      obtain rfl : e = leastExponent := hbits.resolve_left (by omega)
      subst hzero
      have htop : leastExponent ≤ 971 := by decide
      rw [if_pos htop, if_pos rfl]
      exact ⟨_, rfl, rfl, ⟨hlt, le_refl _, htop, .inr rfl⟩, by simp [magnitude], id⟩
    · rw [if_neg hzero]
      split
      · next htop => exact ⟨_, if_pos htop, rfl, ⟨hlt, hleast, htop, hbits⟩, rfl, id⟩
      · next htop => exact if_neg htop

/-- Below the bound a fraction becomes the number nearest to it. -/
theorem exists_ofRatio? (negative : Bool) (n : ℕ) {d : ℕ} (hd : 0 < d)
    (hlt : (n / d : ℚ) < overflow) :
    ∃ x, ofRatio? negative n d = some x ∧ x.negative = negative ∧ x.Nearest (n / d) := by
  obtain rfl | hn := Nat.eq_zero_or_pos n
  · refine ⟨⟨negative, 0, -1074⟩, ?_, rfl, ?_⟩
    · have hzero : ∀ k c, roundDiv (0 <<< k) c = 0 := by
        intro k c
        obtain rfl | hc := Nat.eq_zero_or_pos c
        · simp [roundDiv]
        · simp [roundDiv, hc]
      have hlimit : ¬ 0 = significandLimit := by decide
      simp only [ofRatio?, hzero, if_neg hlimit, if_true]
      rfl
    · rw [Nat.cast_zero, zero_div]
      exact nearest_zero negative
  · obtain ⟨e, m, hgrid, hwhole, hread⟩ := exists_gridFor hn hd negative
    rw [if_pos ((hgrid.lt_overflow_iff hwhole).1 hlt)] at hread
    obtain ⟨x, hx, hsign, hproper, hmagnitude, heven⟩ := hread
    exact ⟨x, hx, hsign, hgrid.nearest hwhole hmagnitude hproper heven⟩

/-- From the bound on there is no number. -/
theorem ofRatio?_eq_none (negative : Bool) {n d : ℕ} (hd : 0 < d) (hle : overflow ≤ (n / d : ℚ)) :
    ofRatio? negative n d = none := by
  have hn : 0 < n := by
    refine Nat.pos_of_ne_zero fun hzero => ?_
    have htop : 0 < overflow := mul_pos (by norm_num) (by positivity)
    rw [hzero, Nat.cast_zero, zero_div] at hle
    exact absurd hle (not_le.2 htop)
  obtain ⟨e, m, hgrid, hwhole, hread⟩ := exists_gridFor hn hd negative
  rwa [if_neg (fun htop => not_lt.2 hle ((hgrid.lt_overflow_iff hwhole).2 htop))] at hread

end GeoLang.Binary64
