import WsSignalServer.General.Rounding
import WsSignalServer.Json.Number

/-!
# Doubles in decimal

`%.17g` writes 17 significant digits of a double, and `istringstream >> double` rounds a decimal
to the nearest double. Both work on integers, with the powers of two and ten moved to the side
where they are integers; here their results are placed among the rationals.

* `significant_spec`: the digits written are off by at most one part in `2 · 10¹⁶`.
* `ofDecimal_eq_some_iff`: a decimal is read as the double it rounds to, by the relation `Rounds`.
* `ofDecimal_of_close`: a decimal that close to a double is read as this double, since a double
  has 53 binary digits and `2⁵³ < 10¹⁶`.
-/

namespace WsSignalServer.Json

open General

theorem natOfDigits_eq (ds : Str) : natOfDigits ds = Nat.ofDigitChars 10 ds 0 :=
  Nat.ofDigitChars_eq_foldl.symm

/-! ## Rounding -/

theorem divRoundEven_nearest (a : ℕ) {b : ℕ} (hb : 0 < b) :
    Nearest ((a : ℚ) / b) (divRoundEven a b) := by
  have hbq : (0 : ℚ) < b := by exact_mod_cast hb
  have hmod : (a : ℚ) / b = (a / b : ℕ) + ((a % b : ℕ) : ℚ) / b := by
    have hdiv : (a : ℚ) = b * (a / b : ℕ) + (a % b : ℕ) := by
      exact_mod_cast (Nat.div_add_mod a b).symm
    field_simp
    linarith
  unfold divRoundEven Nearest
  rw [hmod]
  have hlt : ((a % b : ℕ) : ℚ) < b := by exact_mod_cast Nat.mod_lt a hb
  split_ifs with h
  · have hhalf : (b : ℚ) ≤ 2 * (a % b : ℕ) := by
      have : b ≤ 2 * (a % b) := by omega
      exact_mod_cast this
    have hfrac : 1 / 2 ≤ ((a % b : ℕ) : ℚ) / b := by
      rw [le_div_iff₀ hbq]
      linarith
    have hone : ((a % b : ℕ) : ℚ) / b ≤ 1 := (div_le_one hbq).2 hlt.le
    push_cast
    rw [abs_le]
    constructor <;> linarith
  · have hhalf : (2 : ℚ) * (a % b : ℕ) ≤ b := by
      have : 2 * (a % b) ≤ b := by omega
      exact_mod_cast this
    have hfrac : ((a % b : ℕ) : ℚ) / b ≤ 1 / 2 := by
      rw [div_le_iff₀ hbq]
      linarith
    have hzero : 0 ≤ ((a % b : ℕ) : ℚ) / b := by positivity
    rw [abs_le]
    constructor <;> linarith

/-- Of two nearest integers it is the even one. -/
theorem divRoundEven_nearestEven (a : ℕ) {b : ℕ} (hb : 0 < b) :
    NearestEven ((a : ℚ) / b) (divRoundEven a b) := by
  refine ⟨divRoundEven_nearest a hb, fun htie => ?_⟩
  have hbq : (0 : ℚ) < b := by exact_mod_cast hb
  have hdiv : (a : ℚ) / b = (a / b : ℕ) + ((a % b : ℕ) : ℚ) / b := by
    have hsplit : (a : ℚ) = b * (a / b : ℕ) + (a % b : ℕ) := by
      exact_mod_cast (Nat.div_add_mod a b).symm
    field_simp
    linarith
  have hlt : ((a % b : ℕ) : ℚ) / b < 1 := by
    rw [div_lt_one hbq]
    exact_mod_cast Nat.mod_lt a hb
  have hpos : 0 ≤ ((a % b : ℕ) : ℚ) / b := by positivity
  -- In a tie the remainder is half of the divisor, on either side.
  have hhalf : 2 * (a % b) = b := by
    have hfrac : ((a % b : ℕ) : ℚ) / b = 1 / 2 := by
      rw [hdiv] at htie
      unfold divRoundEven at htie
      split_ifs at htie
      · push_cast at htie
        rw [abs_of_nonpos (by linarith)] at htie
        linarith
      · rw [add_sub_cancel_left, abs_of_nonneg hpos] at htie
        exact htie
    rw [div_eq_iff hbq.ne'] at hfrac
    have hcast : (2 : ℚ) * (a % b : ℕ) = b := by linarith
    exact_mod_cast hcast
  unfold divRoundEven
  split_ifs with h
  · rw [Nat.even_add_one, Nat.even_iff]
    omega
  · rw [Nat.even_iff]
    omega

namespace Double

/-- The number of digits bounds a number by powers of ten. -/
theorem length_toDigits_spec {n : ℕ} (hn : 0 < n) :
    (10 : ℚ) ^ (((Nat.toDigits 10 n).length : ℤ) - 1) ≤ n ∧
      (n : ℚ) < 10 ^ ((Nat.toDigits 10 n).length : ℤ) := by
  have hpos : 0 < (Nat.toDigits 10 n).length := Nat.length_toDigits_pos
  constructor
  · have hle : 10 ^ ((Nat.toDigits 10 n).length - 1) ≤ n := by
      by_contra hlt
      rcases Nat.eq_zero_or_pos ((Nat.toDigits 10 n).length - 1) with h | h
      · rw [h] at hlt
        omega
      · have hle := (Nat.length_toDigits_le_iff (by decide) h).2 (Nat.lt_of_not_le hlt)
        omega
    rw [← Nat.cast_pred hpos, zpow_natCast]
    exact_mod_cast hle
  · have hlt := (Nat.length_toDigits_le_iff (n := n) (by decide) hpos).1 le_rfl
    rw [zpow_natCast]
    exact_mod_cast hlt

/-- Scaling by a power of ten, on the side where it is an integer. -/
theorem pow_toNat_div (e : ℤ) : (10 : ℚ) ^ e.toNat / 10 ^ (-e).toNat = 10 ^ e := by
  rcases le_total 0 e with he | he
  · have hneg : (-e).toNat = 0 := Int.toNat_of_nonpos (by omega)
    rw [hneg, pow_zero, div_one, ← zpow_natCast, Int.toNat_of_nonneg he]
  · have hpos : e.toNat = 0 := Int.toNat_of_nonpos he
    rw [hpos, pow_zero, one_div, ← zpow_natCast, Int.toNat_of_nonneg (by omega), ← zpow_neg,
      neg_neg]

theorem mul_pow_toNat_le_iff {a b : ℕ} (e : ℤ) :
    b * 10 ^ e.toNat ≤ a * 10 ^ (-e).toNat ↔ (10 : ℚ) ^ e * b ≤ a := by
  rw [← pow_toNat_div, div_mul_eq_mul_div, div_le_iff₀ (by positivity), mul_comm b]
  exact_mod_cast Iff.rfl

theorem log10_spec {a b : ℕ} (ha : 0 < a) (hb : 0 < b) :
    (10 : ℚ) ^ log10 a b ≤ a / b ∧ (a : ℚ) / b < 10 ^ (log10 a b + 1) := by
  have hbq : (0 : ℚ) < b := by exact_mod_cast hb
  have hten : (10 : ℚ) ≠ 0 := by norm_num
  obtain ⟨ha₁, ha₂⟩ := length_toDigits_spec ha
  obtain ⟨hb₁, hb₂⟩ := length_toDigits_spec hb
  unfold log10
  generalize (Nat.toDigits 10 a).length = la at *
  generalize (Nat.toDigits 10 b).length = lb at *
  extract_lets e
  split_ifs with h
  · rw [mul_pow_toNat_le_iff] at h
    refine ⟨(le_div_iff₀ hbq).2 h, ?_⟩
    rw [div_lt_iff₀ hbq]
    calc (a : ℚ) < 10 ^ (la : ℤ) := ha₂
      _ = 10 ^ (e + 1) * 10 ^ ((lb : ℤ) - 1) := by
        rw [← zpow_add₀ hten]
        congr 1
        omega
      _ ≤ 10 ^ (e + 1) * b := by gcongr
  · rw [mul_pow_toNat_le_iff, not_le] at h
    refine ⟨?_, ?_⟩
    · rw [le_div_iff₀ hbq]
      calc (10 : ℚ) ^ (e - 1) * b ≤ 10 ^ (e - 1) * 10 ^ (lb : ℤ) := by gcongr
        _ = 10 ^ ((la : ℤ) - 1) := by
          rw [← zpow_add₀ hten]
          congr 1
          omega
        _ ≤ a := ha₁
    · rw [div_lt_iff₀ hbq, sub_add_cancel]
      exact h

/-- **Seventeen digits.** The digits written are in range, and off by at most half a unit of the
last place. -/
theorem significant_spec {a b : ℕ} (ha : 0 < a) (hb : 0 < b) :
    10 ^ 16 ≤ (significant a b).1 ∧ (significant a b).1 < 10 ^ 17 ∧
      |((significant a b).1 : ℚ) * 10 ^ ((significant a b).2 - 16) - a / b| ≤
        a / b / (2 * 10 ^ 16) := by
  have hten : (10 : ℚ) ≠ 0 := by norm_num
  obtain ⟨hlow, hhigh⟩ := log10_spec ha hb
  unfold significant
  extract_lets x n
  have hscaled : ((a * 10 ^ (16 - x).toNat : ℕ) : ℚ) / (b * 10 ^ (x - 16).toNat : ℕ) =
      a / b * 10 ^ (16 - x) := by
    rw [← pow_toNat_div (16 - x), neg_sub]
    push_cast
    rw [mul_div_mul_comm]
  -- `n` is the nearest integer to the number scaled to 17 digits.
  have hn : Nearest (a / b * 10 ^ (16 - x)) n := by
    rw [← hscaled]
    exact divRoundEven_nearest _ (by positivity)
  have hunit : (10 : ℚ) ^ (x - 16) * 10 ^ (16 - x) = 1 := by
    rw [← zpow_add₀ hten, sub_add_sub_cancel, sub_self, zpow_zero]
  have hone : (10 : ℚ) ^ x * 10 ^ (16 - x) = 10 ^ 16 := by
    rw [← zpow_add₀ hten, add_sub_cancel]
    norm_num
  have hpos : (0 : ℚ) < 10 ^ (16 - x) := by positivity
  have hpos' : (0 : ℚ) < 10 ^ (x - 16) := by positivity
  have hlow' : (10 : ℚ) ^ 16 ≤ a / b * 10 ^ (16 - x) := by
    rw [← hone]
    gcongr
  have hhigh' : (a : ℚ) / b * 10 ^ (16 - x) < 10 ^ 17 := by
    calc (a : ℚ) / b * 10 ^ (16 - x) < 10 ^ (x + 1) * 10 ^ (16 - x) := by gcongr
      _ = 10 ^ 17 := by
        rw [zpow_add₀ hten, zpow_one, mul_right_comm, hone]
        norm_num
  have herror : |(n : ℚ) * 10 ^ (x - 16) - a / b| ≤ a / b / (2 * 10 ^ 16) := by
    have hdiff : (n : ℚ) * 10 ^ (x - 16) - a / b =
        -(a / b * 10 ^ (16 - x) - n) * 10 ^ (x - 16) := by
      rw [neg_sub, sub_mul, mul_assoc, mul_comm (10 ^ (16 - x)), hunit, mul_one]
    rw [hdiff, abs_mul, abs_neg, abs_of_pos hpos']
    calc |(a : ℚ) / b * 10 ^ (16 - x) - n| * 10 ^ (x - 16) ≤ 1 / 2 * 10 ^ (x - 16) := by
          gcongr
          exact hn
      _ ≤ a / b / (2 * 10 ^ 16) := by
        rw [div_mul_eq_mul_div, one_mul, div_le_div_iff₀ (by norm_num) (by norm_num)]
        nlinarith
  -- Rounding up may reach `10 ^ 17`, which is written as `10 ^ 16` with the next exponent.
  obtain ⟨hn₁, hn₂⟩ := abs_le.1 hn
  have hge : 10 ^ 16 ≤ n := by
    have hlt : (10 ^ 16 : ℚ) - 1 < n := by linarith
    have hlt' : (10 ^ 16 : ℕ) < n + 1 := by
      have : ((10 ^ 16 : ℕ) : ℚ) < (n + 1 : ℕ) := by
        push_cast
        linarith
      exact_mod_cast this
    omega
  have hle : n ≤ 10 ^ 17 := by
    have hlt : ((n : ℕ) : ℚ) < (10 ^ 17 + 1 : ℕ) := by
      push_cast
      linarith
    have hlt' : n < 10 ^ 17 + 1 := by exact_mod_cast hlt
    omega
  split_ifs with hcarry
  · refine ⟨le_rfl, by norm_num, ?_⟩
    rw [hcarry] at herror
    convert herror using 3
    rw [add_sub_right_comm, zpow_add₀ hten, zpow_one]
    push_cast
    ring
  · exact ⟨hge, by omega, herror⟩

/-! ### Reading -/

/-- The values of the type `double`: 53 binary digits, and no more than `DBL_MAX`. -/
structure Finite (d : Double) : Prop where
  representable : Representable 53 d.mag
  le_max : d.mag ≤ maxMag

/-- The step of the grid around a ratio. -/
theorem grid_spec (x : ℕ) {b : ℕ} (hb : 0 < b) :
    (x : ℚ) / b < 2 ^ (Nat.log2 (x / b) + 1 - 53 + 53) ∧
      (0 < Nat.log2 (x / b) + 1 - 53 → 2 ^ (Nat.log2 (x / b) + 1 - 53 + 53) ≤ 2 * ((x : ℚ) / b)) := by
  have hbq : (0 : ℚ) < b := by exact_mod_cast hb
  set f := x / b with hf
  constructor
  · have hlt : f + 1 ≤ 2 ^ (Nat.log2 f + 1 - 53 + 53) :=
      Nat.lt_log2_self.trans_le (Nat.pow_le_pow_right (by decide) (by omega))
    have hx : x < (f + 1) * b := by
      rw [mul_comm]
      exact Nat.lt_mul_div_succ x hb
    rw [div_lt_iff₀ hbq]
    calc (x : ℚ) < ((f + 1) * b : ℕ) := by exact_mod_cast hx
      _ ≤ 2 ^ (Nat.log2 f + 1 - 53 + 53) * b := by
        push_cast
        gcongr
        exact_mod_cast hlt
  · intro hs
    have hne : f ≠ 0 := by
      intro h0
      rw [h0] at hs
      simp at hs
    have hle : 2 ^ Nat.log2 f ≤ f := Nat.log2_self_le hne
    have hexp : Nat.log2 f + 1 - 53 + 53 = Nat.log2 f + 1 := by omega
    rw [hexp, pow_succ, mul_comm]
    have hfx : (f : ℚ) ≤ x / b := by
      rw [le_div_iff₀ hbq]
      exact_mod_cast Nat.div_mul_le_self x b
    have hle' : (2 : ℚ) ^ Nat.log2 f ≤ f := by exact_mod_cast hle
    linarith

/-- Whatever is read has 53 binary digits, also when rounding carries into a 54th. -/
theorem ofRatio_finite {neg : Bool} {a b : ℕ} {d : Double} (hb : 0 < b)
    (h : ofRatio neg a b = some d) : d.Finite := by
  obtain ⟨hhigh, -⟩ := grid_spec (a * unit) hb
  unfold ofRatio at h
  extract_lets x s mag at h
  split_ifs at h with hle
  obtain rfl := Option.some.inj h
  refine ⟨?_, hle⟩
  have hpos : (0 : ℚ) < 2 ^ s := by positivity
  have hnear : Nearest ((x : ℚ) / b / 2 ^ s) (divRoundEven x (b * 2 ^ s)) := by
    have := divRoundEven_nearest x (b := b * 2 ^ s) (by positivity)
    push_cast at this
    rwa [div_div]
  have hlt : (x : ℚ) / b / 2 ^ s < 2 ^ 53 := by
    rw [div_lt_iff₀ hpos, ← pow_add, add_comm]
    exact hhigh
  have hk : divRoundEven x (b * 2 ^ s) ≤ 2 ^ 53 := by
    have hnear' := (abs_le.1 hnear).1
    have : ((divRoundEven x (b * 2 ^ s) : ℕ) : ℚ) < (2 ^ 53 + 1 : ℕ) := by
      push_cast
      linarith
    have : divRoundEven x (b * 2 ^ s) < 2 ^ 53 + 1 := by exact_mod_cast this
    omega
  rcases hk.lt_or_eq with hk | hk
  · exact ⟨_, s, hk, rfl⟩
  · exact ⟨1, 53 + s, by norm_num, by simp only [mag, hk, pow_add, one_mul]⟩

/-- **`ofRatio` rounds to the nearest double**, ties to even, and refuses what exceeds `DBL_MAX`. -/
theorem ofRatio_eq_some_iff {neg : Bool} {a b : ℕ} {d : Double} (hb : 0 < b) :
    ofRatio neg a b = some d ↔
      d.neg = neg ∧ Rounds 53 ((a : ℚ) / b * unit) d.mag ∧ d.mag ≤ maxMag := by
  obtain ⟨hhigh, hlow⟩ := grid_spec (a * unit) hb
  have hx : ((a * unit : ℕ) : ℚ) / b = a / b * unit := by
    push_cast
    ring
  unfold ofRatio
  extract_lets x s mag
  have hrounds : Rounds 53 ((a : ℚ) / b * unit) mag := by
    rw [← hx]
    refine ⟨s, divRoundEven x (b * 2 ^ s), hhigh, hlow, ?_, rfl⟩
    have hnear := divRoundEven_nearestEven x (b := b * 2 ^ s) (by positivity)
    push_cast at hnear
    rwa [← div_div] at hnear
  constructor
  · intro h
    split_ifs at h with hle
    obtain rfl := Option.some.inj h
    exact ⟨rfl, hrounds, hle⟩
  · intro h
    obtain ⟨rfl, hmag, hle⟩ := h
    rw [← hmag.unique hrounds, if_pos hle]

theorem ofDecimal_finite {neg : Bool} {m : ℕ} {e : ℤ} {d : Double}
    (h : ofDecimal neg m e = some d) : d.Finite := by
  unfold ofDecimal at h
  extract_lets len at h
  split_ifs at h
  · obtain rfl := Option.some.inj h
    exact ⟨⟨0, 0, by norm_num, rfl⟩, Nat.zero_le _⟩
  · exact ofRatio_finite Nat.one_pos h
  · exact ofRatio_finite (by positivity) h

/-- A ratio close to a double is rounded to it. -/
theorem ofRatio_of_close {d : Double} {a b : ℕ} (hd : d.Finite) (hb : 0 < b)
    (hclose : |(a : ℚ) / b * unit - d.mag| ≤ d.mag / (2 * 10 ^ 16)) :
    ofRatio d.neg a b = some d := by
  obtain ⟨hhigh, hlow⟩ := grid_spec (a * unit) hb
  unfold ofRatio
  extract_lets x s mag
  have hclose' : |(x : ℚ) / b - d.mag| ≤ d.mag / (2 * (10 ^ 16 : ℕ)) := by
    have hx : (x : ℚ) / b = a / b * unit := by
      rw [div_mul_eq_mul_div]
      exact_mod_cast rfl
    have hD : ((10 ^ 16 : ℕ) : ℚ) = 10 ^ 16 := by norm_num
    rw [hx, hD]
    exact hclose
  have hnear : Nearest ((x : ℚ) / b / 2 ^ s) (divRoundEven x (b * 2 ^ s)) := by
    have hpos : 0 < b * 2 ^ s := by positivity
    have := divRoundEven_nearest x hpos
    push_cast at this
    rwa [div_div]
  have hmag : mag = d.mag :=
    hd.representable.eq_of_nearest (by norm_num) hclose' hhigh hlow hnear
  rw [hmag, if_pos hd.le_max]

theorem unit_le : (2 : ℚ) * unit ≤ 10 ^ 400 := by
  unfold unit
  push_cast
  calc (2 : ℚ) * 2 ^ 1074 ≤ (2 ^ 3) ^ 400 := by
        rw [← pow_succ', ← pow_mul]
        gcongr <;> norm_num
    _ ≤ 10 ^ 400 := by gcongr; norm_num

theorem maxMag_lt : (2 : ℚ) * maxMag < 10 ^ 310 * unit := by
  have hmax : maxMag < 2 ^ 53 * 2 ^ 2045 := by
    unfold maxMag
    gcongr
    norm_num
  have hmax' : (maxMag : ℚ) < 2 ^ 53 * 2 ^ 2045 := by exact_mod_cast hmax
  unfold unit
  push_cast
  calc (2 : ℚ) * maxMag < 2 * (2 ^ 53 * 2 ^ 2045) := by gcongr
    _ = 2 ^ 2 * (2 ^ 93) ^ 11 * 2 ^ 1074 := by
      rw [← pow_mul, ← pow_add, ← pow_succ', ← pow_add, ← pow_add]
    _ ≤ 10 ^ 2 * (10 ^ 28) ^ 11 * 2 ^ 1074 := by gcongr <;> norm_num
    _ = 10 ^ 310 * 2 ^ 1074 := by rw [← pow_mul, ← pow_add]

theorem unit_posq : (0 : ℚ) < unit := by exact_mod_cast unit_pos

/-- A decimal that is too short for the first digit of a double. -/
theorem lt_half_of_guard {m : ℕ} {e : ℤ} (h : m = 0 ∨ (Nat.toDigits 10 m).length + e < -400) :
    (m : ℚ) * 10 ^ e * unit < 1 / 2 := by
  have hten : (10 : ℚ) ≠ 0 := by norm_num
  have hunit := unit_posq
  rcases Nat.eq_zero_or_pos m with rfl | hm
  · norm_num
  have hlt := h.resolve_left hm.ne'
  obtain ⟨-, hhigh⟩ := length_toDigits_spec hm
  generalize ((Nat.toDigits 10 m).length : ℤ) = len at *
  calc (m : ℚ) * 10 ^ e * unit < 10 ^ len * 10 ^ e * unit := by gcongr
    _ = 10 ^ (len + e) * unit := by rw [zpow_add₀ hten]
    _ ≤ 10 ^ (-400 : ℤ) * unit := by
      gcongr
      norm_num
    _ ≤ 1 / 2 := by
      rw [zpow_neg, inv_mul_le_iff₀ (by positivity), mul_one_div, le_div_iff₀ (by norm_num),
        mul_comm]
      exact unit_le

/-- One that is too long for `DBL_MAX`. -/
theorem maxMag_lt_of_guard {m : ℕ} {e : ℤ} (hm : 0 < m)
    (h : 310 < (Nat.toDigits 10 m).length + e) : (2 : ℚ) * maxMag < m * 10 ^ e * unit := by
  have hten : (10 : ℚ) ≠ 0 := by norm_num
  have hunit := unit_posq
  obtain ⟨hlow, -⟩ := length_toDigits_spec hm
  generalize ((Nat.toDigits 10 m).length : ℤ) = len at *
  calc (2 : ℚ) * maxMag < 10 ^ 310 * unit := maxMag_lt
    _ ≤ 10 ^ (len - 1 + e) * unit := by
      gcongr
      rw [← zpow_natCast]
      gcongr
      · norm_num
      · omega
    _ = 10 ^ (len - 1) * 10 ^ e * unit := by rw [zpow_add₀ hten]
    _ ≤ m * 10 ^ e * unit := by gcongr

/-- **`ofDecimal` rounds to the nearest double.** What the guards cut off is rounded to zero, or to
more than `DBL_MAX`. -/
theorem ofDecimal_eq_some_iff {neg : Bool} {m : ℕ} {e : ℤ} {d : Double} :
    ofDecimal neg m e = some d ↔
      d.neg = neg ∧ Rounds 53 ((m : ℚ) * 10 ^ e * unit) d.mag ∧ d.mag ≤ maxMag := by
  have hunit := unit_posq
  unfold ofDecimal
  extract_lets len
  split_ifs with hzero hlarge he
  · have hrounds : Rounds 53 ((m : ℚ) * 10 ^ e * unit) 0 :=
      rounds_zero 53 (by positivity) (lt_half_of_guard hzero)
    constructor
    · intro h
      obtain rfl := Option.some.inj h
      exact ⟨rfl, hrounds, Nat.zero_le _⟩
    · intro h
      obtain ⟨rfl, hmag, -⟩ := h
      rw [hrounds.unique hmag]
  · have hm : 0 < m := Nat.pos_of_ne_zero fun h => hzero (Or.inl h)
    have hover := maxMag_lt_of_guard hm hlarge
    refine iff_of_false nofun ?_
    intro h
    obtain ⟨-, hmag, hle⟩ := h
    have hmax : (d.mag : ℚ) ≤ maxMag := by exact_mod_cast hle
    have hone : (1 : ℚ) ≤ maxMag := by exact_mod_cast (by unfold maxMag; positivity : 0 < maxMag)
    have hnear := hmag.le_two_mul (by norm_num) (by linarith)
    linarith
  · rw [ofRatio_eq_some_iff Nat.one_pos]
    push_cast
    rw [div_one, ← zpow_natCast, Int.toNat_of_nonneg he]
  · rw [ofRatio_eq_some_iff (by positivity)]
    push_cast
    rw [← zpow_natCast, Int.toNat_of_nonneg (by omega), zpow_neg, div_inv_eq_mul]

/-- A decimal close to a double is read as it: neither guard applies. -/
theorem ofDecimal_of_close {d : Double} {m : ℕ} {e : ℤ} (hd : d.Finite) (hmag : 0 < d.mag)
    (hclose : |(m : ℚ) * 10 ^ e * unit - d.mag| ≤ d.mag / (2 * 10 ^ 16)) :
    ofDecimal d.neg m e = some d := by
  have hmagq : (1 : ℚ) ≤ d.mag := by exact_mod_cast hmag
  obtain ⟨h₁, h₂⟩ := abs_le.1 hclose
  have hdiv : (d.mag : ℚ) / (2 * 10 ^ 16) ≤ d.mag / 2 := by
    gcongr
    norm_num
  unfold ofDecimal
  extract_lets len
  have hge : ¬(m = 0 ∨ len + e < -400) := by
    intro hzero
    have hhalf := lt_half_of_guard hzero
    linarith
  have hle : ¬ 310 < len + e := by
    intro hlarge
    have hm : 0 < m := Nat.pos_of_ne_zero fun h => hge (Or.inl h)
    have hover := maxMag_lt_of_guard hm hlarge
    have hmax : (d.mag : ℚ) ≤ maxMag := by exact_mod_cast hd.le_max
    linarith only [hover, hmax, hmagq, h₂, hdiv]
  rw [if_neg hge, if_neg hle]
  split_ifs with he
  · apply ofRatio_of_close hd Nat.one_pos
    push_cast
    rwa [div_one, ← zpow_natCast, Int.toNat_of_nonneg he]
  · apply ofRatio_of_close hd (by positivity)
    push_cast
    rwa [← zpow_natCast, Int.toNat_of_nonneg (by omega), zpow_neg, div_inv_eq_mul]

end Double

theorem decodeDouble_finite {token : Str} {d : Double} (h : decodeDouble token = some d) :
    d.Finite := by
  unfold decodeDouble at h
  simp only at h
  split_ifs at h <;> first
    | cases h
    | (obtain ⟨e, -, he⟩ := Option.bind_eq_some_iff.1 h
       exact Double.ofDecimal_finite he)

end WsSignalServer.Json
