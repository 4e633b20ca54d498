import Mathlib

/-!
# Rounding to the nearest

Numbers rounded to `p` binary digits lie on a grid: below `2 ^ (s + p)` its step is `2 ^ s`. A
decimal of more than as many digits is so close to the number it was rounded from that the way
back, to the nearest point of the grid, ends there (`Representable.eq_of_nearest`). The one delicate
point is a power of two, where the decimal may fall below it and onto a finer grid.

`Rounds` is rounding as a relation, to the nearest point of the grid and to the even one of two. It
relates a number to one point only (`Rounds.unique`).
-/

namespace General

/-- `k` is an integer nearest to `q`. -/
def Nearest (q : ℚ) (k : ℕ) : Prop := |q - k| ≤ 1 / 2

theorem Nearest.eq_of_lt {q : ℚ} {k m : ℕ} (h : Nearest q k) (hm : |q - m| < 1 / 2) : k = m := by
  have hdist : |(k : ℚ) - m| < 1 := by
    calc |(k : ℚ) - m| = |(q - m) - (q - k)| := by ring_nf
      _ ≤ |q - m| + |q - k| := abs_sub _ _
      _ < 1 := by unfold Nearest at h; linarith
  have hint : |(k : ℤ) - m| < 1 := by exact_mod_cast hdist
  rw [Int.abs_lt_one_iff] at hint
  omega

/-- A number of at most `p` binary digits, shifted. -/
def Representable (p m : ℕ) : Prop := ∃ k e, k < 2 ^ p ∧ m = k * 2 ^ e

variable {p s k m D : ℕ} {q : ℚ}

/-- On the grid of `q` a number of `p` digits close to `q` is a grid point. -/
theorem Representable.on_grid (hm : Representable p m) (hD : 2 ^ p < D)
    (hclose : |q - m| ≤ m / (2 * D)) (hhigh : q < 2 ^ (s + p))
    (hlow : 0 < s → 2 ^ (s + p) ≤ 2 * q) : ∃ j, m = j * 2 ^ s ∧ j ≤ 2 ^ p := by
  obtain ⟨k, e, hk, rfl⟩ := hm
  have hD0 : (0 : ℚ) < D := by exact_mod_cast (Nat.zero_le _).trans_lt hD
  have hDq : (2 : ℚ) ^ p + 1 ≤ D := by exact_mod_cast hD
  have hkq : (k : ℚ) + 1 ≤ 2 ^ p := by exact_mod_cast hk
  have hpow : (0 : ℚ) < 2 ^ s := by positivity
  obtain ⟨h₁, h₂⟩ := abs_le.1 hclose
  rw [le_div_iff₀ (by positivity)] at h₂
  rw [neg_le, neg_sub, le_div_iff₀ (by positivity)] at h₁
  push_cast at h₁ h₂
  -- Steps of `m` no finer than the grid put `m` on it; finer ones would put `q` below the grid.
  rcases le_or_gt s e with hse | hse
  · refine ⟨k * 2 ^ (e - s), ?_, ?_⟩
    · rw [mul_assoc, ← pow_add, Nat.sub_add_cancel hse]
    · by_contra hj
      have hsplit : (k : ℚ) * 2 ^ e = (k * 2 ^ (e - s) : ℕ) * 2 ^ s := by
        push_cast
        rw [mul_assoc, ← pow_add, Nat.sub_add_cancel hse]
      set j := k * 2 ^ (e - s)
      -- A `j` above `2 ^ p` would be farther from `q` than `hclose` allows.
      have hjq : (2 : ℚ) ^ p + 1 ≤ j := by exact_mod_cast Nat.lt_of_not_le hj
      rw [hsplit] at h₁
      have hbound : (j : ℚ) * (2 * D - 1) * 2 ^ s < 2 * D * 2 ^ p * 2 ^ s := by
        rw [pow_add] at hhigh
        nlinarith
      have hj' := lt_of_mul_lt_mul_right hbound hpow.le
      nlinarith
  · exfalso
    have hle : (2 : ℚ) ^ e * 2 ≤ 2 ^ s := by
      rw [← pow_succ]
      exact pow_le_pow_right₀ (by norm_num) hse
    have hlow' := hlow (by omega)
    rw [pow_add] at hlow'
    have hkD : (k : ℚ) * (2 * D + 1) < 2 ^ p * (2 * D) := by nlinarith
    have hkm : (k : ℚ) * 2 ^ e * 2 ≤ k * 2 ^ s := by
      rw [mul_assoc]
      exact mul_le_mul_of_nonneg_left hle (Nat.cast_nonneg k)
    nlinarith

/-- **Double rounding.** A number of `p` binary digits, rounded to more than as many decimal ones
and back, is itself again. -/
theorem Representable.eq_of_nearest (hm : Representable p m) (hD : 2 ^ p < D)
    (hclose : |q - m| ≤ m / (2 * D)) (hhigh : q < 2 ^ (s + p))
    (hlow : 0 < s → 2 ^ (s + p) ≤ 2 * q) (hk : Nearest (q / 2 ^ s) k) : k * 2 ^ s = m := by
  obtain ⟨j, rfl, hj⟩ := hm.on_grid hD hclose hhigh hlow
  have hpow : (0 : ℚ) < 2 ^ s := by positivity
  have hD0 : (0 : ℚ) < D := by exact_mod_cast (Nat.zero_le _).trans_lt hD
  have hjD : (j : ℚ) < D := by exact_mod_cast hj.trans_lt hD
  have hdist : |q / 2 ^ s - j| < 1 / 2 := by
    have hscale : q / 2 ^ s - j = (q - (j * 2 ^ s : ℕ)) / 2 ^ s := by
      push_cast
      field_simp
    rw [hscale, abs_div, abs_of_pos hpow, div_lt_iff₀ hpow]
    refine hclose.trans_lt ?_
    push_cast
    rw [div_lt_iff₀ (by positivity)]
    nlinarith
  rw [hk.eq_of_lt hdist]

/-! ## Ties to even -/

/-- `k` is the integer nearest to `q`, and of two the even one. -/
def NearestEven (q : ℚ) (k : ℕ) : Prop := Nearest q k ∧ (|q - k| = 1 / 2 → Even k)

theorem NearestEven.le (hk : NearestEven q k) (hm : NearestEven q m) : k ≤ m := by
  by_contra hlt
  rw [not_le] at hlt
  obtain ⟨hklow, hkhigh⟩ := abs_le.1 hk.1
  obtain ⟨hmlow, hmhigh⟩ := abs_le.1 hm.1
  have hsucc : (m : ℚ) + 1 ≤ k := by exact_mod_cast hlt
  -- Two nearest integers are neighbours with `q` in the middle, so only one of them is even.
  have hmiddle : q = m + 1 / 2 := by linarith
  have hk' : k = m + 1 := by
    have hle : (k : ℚ) ≤ (m + 1 : ℕ) := by
      push_cast
      linarith
    have hle' : k ≤ m + 1 := by exact_mod_cast hle
    omega
  have hm2 : Even m := hm.2 (by rw [hmiddle]; norm_num)
  have hk2 : Even k := hk.2 (by rw [hmiddle, hk']; push_cast; norm_num)
  rw [hk'] at hk2
  exact Nat.even_add_one.1 hk2 hm2

theorem NearestEven.unique (hk : NearestEven q k) (hm : NearestEven q m) : k = m :=
  le_antisymm (hk.le hm) (hm.le hk)

/-- `m` is `q` rounded to `p` binary digits, or to an integer where these are too many. -/
def Rounds (p : ℕ) (q : ℚ) (m : ℕ) : Prop :=
  ∃ s k, q < 2 ^ (s + p) ∧ (0 < s → 2 ^ (s + p) ≤ 2 * q) ∧ NearestEven (q / 2 ^ s) k ∧
    m = k * 2 ^ s

/-- The steps of two grids around a number agree. -/
theorem grid_le {s' : ℕ} (hhigh : q < 2 ^ (s' + p)) (hlow : 0 < s → 2 ^ (s + p) ≤ 2 * q) :
    s ≤ s' := by
  by_contra hlt
  rw [not_le] at hlt
  have hle : (2 : ℚ) ^ (s' + p) * 2 ≤ 2 ^ (s + p) := by
    rw [← pow_succ]
    exact pow_le_pow_right₀ (by norm_num) (by omega)
  have hlow' := hlow (by omega)
  linarith

/-- A number is rounded to one number only. -/
theorem Rounds.unique (h : Rounds p q m) {m' : ℕ} (h' : Rounds p q m') : m = m' := by
  obtain ⟨s, k, hhigh, hlow, hk, rfl⟩ := h
  obtain ⟨s', k', hhigh', hlow', hk', rfl⟩ := h'
  obtain rfl : s = s' := le_antisymm (grid_le hhigh' hlow) (grid_le hhigh hlow')
  rw [hk.unique hk']

/-- Rounding does not get far down. -/
theorem Rounds.le_two_mul (h : Rounds p q m) (hp : 2 ≤ p) (hq : 1 < q) : q ≤ 2 * m := by
  obtain ⟨s, k, -, hlow, hk, rfl⟩ := h
  have hpow : (0 : ℚ) < 2 ^ s := by positivity
  obtain ⟨-, hkhigh⟩ := abs_le.1 hk.1
  rw [sub_le_iff_le_add, div_le_iff₀ hpow] at hkhigh
  rcases Nat.eq_zero_or_pos s with rfl | hs
  · have hk1 : (1 : ℚ) ≤ k := by
      have hpos : (0 : ℚ) < k := by linarith
      exact_mod_cast Nat.cast_pos.1 hpos
    push_cast
    linarith
  · have hstep : (2 : ℚ) ^ s * 4 ≤ 2 * q := by
      calc (2 : ℚ) ^ s * 4 = 2 ^ (s + 2) := by rw [pow_add]; norm_num
        _ ≤ 2 ^ (s + p) := pow_le_pow_right₀ (by norm_num) (by omega)
        _ ≤ 2 * q := hlow hs
    push_cast
    linarith

/-- Less than a half is rounded to zero. -/
theorem rounds_zero (p : ℕ) (hq : 0 ≤ q) (hlt : q < 1 / 2) : Rounds p q 0 := by
  refine ⟨0, 0, ?_, fun h => absurd h (lt_irrefl 0), ⟨?_, fun _ => Even.zero⟩, by simp⟩
  · have hone : (1 : ℚ) ≤ 2 ^ (0 + p) := one_le_pow₀ (by norm_num)
    linarith
  · rw [Nearest, abs_le]
    constructor <;> norm_num <;> linarith

end General
