import WsSignalServer.Json.Decimal
import WsSignalServer.Json.Reader

/-!
# Numerals

A number token is a numeral: a sign, digits, a fraction and an exponent, which have a rational
value. Both ways between texts and doubles go through it.

* `decodeDouble_text`: the reader rounds the value of a numeral.
* `realToString_spec`: the writer writes a numeral of 17 significant digits, in one of the two forms
  of `%g`.
* `decodeNumber_text`: a number token is read as the value its numeral stands for, which
  `StandsFor` says by the number alone.
* `decodeDouble_realToString`: so a finite double is read back from its text, as 17 digits are
  enough (`Decimal`).
-/

namespace WsSignalServer.Json

open General

/-- The exponent part of a numeral. -/
structure Exponent where
  mark : Char
  sign : Option Bool
  digits : Str
  mark_eq : mark = 'e' ∨ mark = 'E'
  digits_ne : digits ≠ []
  digits_isDigit : ∀ c ∈ digits, isDigit c = true

namespace Exponent

def signText : Option Bool → Str
  | some true => ['-']
  | some false => ['+']
  | none => []

def text (x : Exponent) : Str := x.mark :: (signText x.sign ++ x.digits)

def value (x : Exponent) : ℤ :=
  if x.sign = some true then -natOfDigits x.digits else natOfDigits x.digits

end Exponent

/-- A number as the grammar has it: digits, a fraction unless it is empty, and an exponent. -/
structure Numeral where
  neg : Bool
  whole : Str
  frac : Str
  exponent : Option Exponent
  whole_ne : whole ≠ []
  whole_isDigit : ∀ c ∈ whole, isDigit c = true
  frac_isDigit : ∀ c ∈ frac, isDigit c = true

namespace Numeral

def fracText (frac : Str) : Str := if frac = [] then [] else '.' :: frac

def expText : Option Exponent → Str
  | some x => x.text
  | none => []

def expValue : Option Exponent → ℤ
  | some x => x.value
  | none => 0

def text (n : Numeral) : Str :=
  (if n.neg then ['-'] else []) ++ (n.whole ++ (fracText n.frac ++ expText n.exponent))

/-- The digits as an integer. -/
def mantissa (n : Numeral) : ℕ := natOfDigits (n.whole ++ n.frac)

/-- The power of ten that goes with it. -/
def scale (n : Numeral) : ℤ := expValue n.exponent - n.frac.length

/-! ## Reading -/

/-- A digit run ends where no digit follows. -/
theorem span_isDigit {ds rest : Str} (hds : ∀ c ∈ ds, isDigit c = true)
    (hrest : ∀ c ∈ rest.head?, isDigit c = false) : (ds ++ rest).span isDigit = (ds, rest) := by
  rw [List.span_eq_takeWhile_dropWhile, List.takeWhile_append_of_pos hds,
    List.dropWhile_append_of_pos hds]
  cases rest with
  | nil => simp
  | cons c rest =>
    have hc := hrest c rfl
    simp [hc]

theorem dropWhile_isDigit {ds rest : Str} (hds : ∀ c ∈ ds, isDigit c = true)
    (hrest : ∀ c ∈ rest.head?, isDigit c = false) : (ds ++ rest).dropWhile isDigit = rest := by
  have hspan := span_isDigit hds hrest
  rw [List.span_eq_takeWhile_dropWhile] at hspan
  exact (Prod.mk.inj hspan).2

theorem isDigit_ne {c d : Char} (hc : isDigit c = true) (hd : isDigit d = false) : c ≠ d := by
  rintro rfl
  exact absurd (hc.symm.trans hd) (by simp)

theorem head_isDigit {ds : Str} (rest : Str) (hds : ∀ c ∈ ds, isDigit c = true) (hne : ds ≠ []) :
    ∃ c, (ds ++ rest).head? = some c ∧ isDigit c = true := by
  obtain ⟨c, ds, rfl⟩ := List.exists_cons_of_ne_nil hne
  exact ⟨c, rfl, hds c (by simp)⟩

theorem readExponent_expText (x : Option Exponent) :
    readExponent (expText x) = some (expValue x) := by
  cases x with
  | none => rfl
  | some x =>
    obtain ⟨mark, sign, digits, -, hne, hdigits⟩ := x
    obtain ⟨c, ds, rfl⟩ := List.exists_cons_of_ne_nil hne
    have hc := hdigits c (by simp)
    have hminus : c ≠ '-' := isDigit_ne hc (by decide)
    have hplus : c ≠ '+' := isDigit_ne hc (by decide)
    rcases sign with _ | _ | _
    · change readExponent (mark :: c :: ds) = some ↑(natOfDigits (c :: ds))
      unfold readExponent
      split
      · rename_i h
        cases h
      · rename_i h
        exact absurd (List.cons.inj (List.cons.inj h).2).1 hminus
      · rename_i h
        exact absurd (List.cons.inj (List.cons.inj h).2).1 hplus
      · rename_i h
        obtain ⟨-, rfl⟩ := List.cons.inj h
        simp
    · simp [expText, expValue, Exponent.text, Exponent.signText, Exponent.value, readExponent]
    · simp [expText, expValue, Exponent.text, Exponent.signText, Exponent.value, readExponent]

/-- The sign is the first character. -/
theorem head_text (n : Numeral) : n.text.head? = some '-' ↔ n.neg = true := by
  obtain ⟨c, hc, hdigit⟩ := head_isDigit (fracText n.frac ++ expText n.exponent) n.whole_isDigit
    n.whole_ne
  unfold text
  by_cases hneg : n.neg = true
  · simp [hneg]
  · simp only [hneg, Bool.false_eq_true, if_false, List.nil_append, hc, iff_false]
    exact fun h => isDigit_ne hdigit (by decide) (Option.some.inj h)

/-- What is left behind the sign. -/
theorem tail_text (n : Numeral) : (if n.neg = true then n.text.tail else n.text) =
    n.whole ++ (fracText n.frac ++ expText n.exponent) := by
  unfold text
  cases n.neg <;> rfl

/-- What `is >> value` makes of a numeral. -/
theorem decodeDouble_text (n : Numeral) :
    decodeDouble n.text = Double.ofDecimal n.neg n.mantissa n.scale := by
  have hwhole := n.whole_isDigit
  have hne := n.whole_ne
  -- Each run of digits ends where the next part starts.
  have hexp : ∀ c ∈ (expText n.exponent).head?, isDigit c = false ∧ c ≠ '.' := by
    intro c hc
    cases hx : n.exponent with
    | none => simp [hx, expText] at hc
    | some x =>
      obtain rfl : x.mark = c := by simpa [hx, expText, Exponent.text] using hc
      rcases x.mark_eq with h | h <;> rw [h] <;> decide
  have hrest : ∀ c ∈ (fracText n.frac ++ expText n.exponent).head?, isDigit c = false := by
    intro c hc
    by_cases h : n.frac = []
    · rw [fracText, if_pos h, List.nil_append] at hc
      exact (hexp c hc).1
    · rw [fracText, if_neg h] at hc
      obtain rfl : '.' = c := by simpa using hc
      decide
  unfold decodeDouble
  simp only [head_text, tail_text, span_isDigit hwhole hrest, Bool.decide_eq_true]
  -- Without a fraction there is no point either, and the exponent follows at once.
  by_cases h : n.frac = []
  · simp only [h, fracText, if_true, List.nil_append]
    split
    · rename_i heq
      exact absurd rfl (hexp '.' (by rw [heq]; rfl)).2
    · simp [hne, h, readExponent_expText, mantissa, scale]
  · simp only [fracText, if_neg h, List.cons_append,
      span_isDigit n.frac_isDigit fun c hc => (hexp c hc).1, List.append_eq_nil_iff, hne, false_and,
      if_false, readExponent_expText, Option.bind_some]
    rfl

/-! ## Writing -/

/-- The number without its sign. -/
def value (n : Numeral) : ℚ := n.mantissa * 10 ^ n.scale

theorem uintToString_isDigit (n : ℕ) : ∀ c ∈ uintToString n, isDigit c = true :=
  fun _ hc => Nat.isDigit_of_mem_toDigits (by decide) (by decide) hc

theorem uintToString_ne_nil (n : ℕ) : uintToString n ≠ [] := Nat.toDigits_ne_nil

theorem natOfDigits_uintToString (n : ℕ) : natOfDigits (uintToString n) = n := by
  rw [natOfDigits_eq, uintToString, Nat.ofDigitChars_ten_toDigits]

theorem natOfDigits_append_zeros (ds : Str) (j : ℕ) :
    natOfDigits (ds ++ List.replicate j '0') = natOfDigits ds * 10 ^ j := by
  rw [natOfDigits_eq, natOfDigits_eq, Nat.ofDigitChars_append, Nat.ofDigitChars_replicate_zero,
    mul_comm]

theorem natOfDigits_zeros_append (j : ℕ) (ds : Str) :
    natOfDigits (List.replicate j '0' ++ ds) = natOfDigits ds := by
  rw [natOfDigits_eq, natOfDigits_eq, Nat.ofDigitChars_append, Nat.ofDigitChars_replicate_zero,
    mul_zero]

/-- The digits without the zeros at their end. -/
def trim (ds : Str) : Str := (ds.reverse.dropWhile (· = '0')).reverse

theorem fraction_eq (ds : Str) : Double.fraction ds = fracText (trim ds) := by
  unfold Double.fraction fracText trim
  split
  · rename_i h
    rw [if_pos h]
  · rename_i h
    rw [if_neg h]

theorem trim_append_zeros (ds : Str) : ∃ j, ds = trim ds ++ List.replicate j '0' := by
  refine ⟨(ds.reverse.takeWhile (· = '0')).length, ?_⟩
  have hzeros : ds.reverse.takeWhile (· = '0') =
      List.replicate (ds.reverse.takeWhile (· = '0')).length '0' := by
    apply List.eq_replicate_of_mem
    intro c hc
    simpa using List.mem_takeWhile_imp hc
  rw [trim, ← List.reverse_replicate, ← hzeros, ← List.reverse_append,
    List.takeWhile_append_dropWhile, List.reverse_reverse]

theorem mem_of_mem_trim {ds : Str} {c : Char} (hc : c ∈ trim ds) : c ∈ ds := by
  obtain ⟨j, hj⟩ := trim_append_zeros ds
  rw [hj]
  exact List.mem_append_left _ hc

/-- Dropping zeros at the end of the fraction leaves the number as it is. -/
theorem trim_value (whole ds : Str) :
    (natOfDigits (whole ++ trim ds) : ℚ) * 10 ^ (-(trim ds).length : ℤ) =
      natOfDigits (whole ++ ds) * 10 ^ (-ds.length : ℤ) := by
  obtain ⟨j, hj⟩ := trim_append_zeros ds
  have hlen : ds.length = (trim ds).length + j := by
    conv_lhs => rw [hj]
    rw [List.length_append, List.length_replicate]
  have hdigits : natOfDigits (whole ++ ds) = natOfDigits (whole ++ trim ds) * 10 ^ j := by
    conv_lhs => rw [hj]
    rw [← List.append_assoc, natOfDigits_append_zeros]
  rw [hdigits, hlen]
  push_cast
  rw [neg_add, zpow_add₀ (by norm_num), mul_mul_mul_comm, ← zpow_natCast, mul_comm (10 ^ (j : ℤ)),
    mul_assoc]
  simp

theorem zero_isDigit : ∀ c ∈ ['0'], isDigit c = true := by
  intro c hc
  rw [List.mem_singleton.1 hc]
  rfl

/-- `valueToString(double)` on a number printed without an exponent. -/
theorem exists_plain (neg : Bool) (whole ds : Str) (hne : whole ≠ [])
    (hwhole : ∀ c ∈ whole, isDigit c = true) (hds : ∀ c ∈ ds, isDigit c = true) :
    ∃ n : Numeral, n.neg = neg ∧ n.value = natOfDigits (whole ++ ds) * 10 ^ (-ds.length : ℤ) ∧
      ∀ buffer, buffer = (if neg then ['-'] else []) ++ whole ++ Double.fraction ds →
        (if '.' ∉ buffer ∧ 'e' ∉ buffer then buffer ++ ".0".toList else buffer) = n.text := by
  have htrim : ∀ c ∈ trim ds, isDigit c = true := fun c hc => hds c (mem_of_mem_trim hc)
  by_cases h : trim ds = []
  -- All the decimals are zeros and go; `.0` is put back so that the text stays a double's.
  · refine ⟨⟨neg, whole, ['0'], none, hne, hwhole, zero_isDigit⟩, rfl, ?_, ?_⟩
    · have hvalue := trim_value whole ds
      rw [h, List.append_nil] at hvalue
      rw [← hvalue]
      simp only [value, mantissa, scale, expValue]
      rw [show ['0'] = List.replicate 1 '0' from rfl, natOfDigits_append_zeros]
      simp
    · intro buffer hbuffer
      rw [fraction_eq, h] at hbuffer
      have hplain : ∀ c, isDigit c = false → c ≠ '-' → c ∉ buffer := by
        intro c hc hminus hmem
        rw [hbuffer] at hmem
        rcases List.mem_append.1 hmem with hmem | hmem
        · rcases List.mem_append.1 hmem with hmem | hmem
          · cases neg
            · cases hmem
            · exact hminus (List.mem_singleton.1 hmem)
          · exact absurd (hwhole c hmem) (by rw [hc]; simp)
        · cases hmem
      rw [if_pos ⟨hplain '.' (by decide) (by decide), hplain 'e' (by decide) (by decide)⟩, hbuffer]
      simp [text, fracText, expText]
  · refine ⟨⟨neg, whole, trim ds, none, hne, hwhole, htrim⟩, rfl, ?_, ?_⟩
    · rw [← trim_value]
      simp [value, mantissa, scale, expValue]
    · intro buffer hbuffer
      rw [fraction_eq] at hbuffer
      -- The point is there, so nothing is put behind it.
      have hpoint : '.' ∈ buffer := by
        rw [hbuffer, fracText, if_neg h]
        simp
      rw [if_neg fun hplain => hplain.1 hpoint, hbuffer]
      simp [text, expText]

/-- `valueToString(double)` on a number printed with an exponent. -/
theorem exists_exponent (neg : Bool) {whole ds : Str} (x : ℤ) (hne : whole ≠ [])
    (hwhole : ∀ c ∈ whole, isDigit c = true) (hds : ∀ c ∈ ds, isDigit c = true) :
    ∃ n : Numeral, n.neg = neg ∧
      n.value = natOfDigits (whole ++ ds) * 10 ^ (x - ds.length : ℤ) ∧
      n.text = (if neg then ['-'] else []) ++ whole ++ Double.fraction ds ++ Double.exponent x := by
  have htrim : ∀ c ∈ trim ds, isDigit c = true := fun c hc => hds c (mem_of_mem_trim hc)
  have hdigits := uintToString_isDigit x.natAbs
  have hdigits' : ∀ c ∈ '0' :: uintToString x.natAbs, isDigit c = true :=
    List.forall_mem_cons.2 ⟨by decide, hdigits⟩
  have hzero : natOfDigits ('0' :: uintToString x.natAbs) = x.natAbs := by
    have := natOfDigits_zeros_append 1 (uintToString x.natAbs)
    rw [natOfDigits_uintToString] at this
    exact this
  let e : Exponent := ⟨'e', some (decide (x < 0)),
    if (uintToString x.natAbs).length < 2 then '0' :: uintToString x.natAbs
      else uintToString x.natAbs, Or.inl rfl,
    by split_ifs <;> simp [uintToString_ne_nil], by split_ifs <;> assumption⟩
  have hvalue : e.value = x := by
    have hnat : natOfDigits e.digits = x.natAbs := by
      change natOfDigits (if _ then _ else _) = _
      split_ifs
      · exact hzero
      · exact natOfDigits_uintToString _
    rw [Exponent.value, hnat]
    by_cases hx : x < 0
    · rw [if_pos (by simp [e, hx])]
      omega
    · rw [if_neg (by simp [e, hx])]
      omega
  refine ⟨⟨neg, whole, trim ds, some e, hne, hwhole, htrim⟩, rfl, ?_, ?_⟩
  · simp only [value, mantissa, scale, expValue, hvalue]
    rw [sub_eq_add_neg, sub_eq_add_neg, zpow_add₀ (by norm_num), zpow_add₀ (by norm_num),
      mul_left_comm, trim_value, mul_left_comm]
  · rw [fraction_eq, text, expText, Exponent.text, Double.exponent]
    by_cases hx : x < 0 <;> simp [e, hx, Exponent.signText]

theorem format_of_significant {d : Double} {n : ℕ} {x : ℤ} (hmag : d.mag ≠ 0)
    (h : Double.significant d.mag Double.unit = (n, x)) : d.format =
      if x < -4 ∨ 17 ≤ x then
        (if d.neg then ['-'] else []) ++ (uintToString n).take 1 ++
          Double.fraction ((uintToString n).drop 1) ++ Double.exponent x
      else if 0 ≤ x then
        (if d.neg then ['-'] else []) ++ (uintToString n).take (x.toNat + 1) ++
          Double.fraction ((uintToString n).drop (x.toNat + 1))
      else (if d.neg then ['-'] else []) ++ ['0'] ++
        Double.fraction (List.replicate (-x - 1).toNat '0' ++ uintToString n) := by
  rw [Double.format, if_neg hmag, h]

/-- **The text of a double is a numeral**, and stands for its 17 significant digits. -/
theorem realToString_spec (d : Double) : ∃ n : Numeral, n.text = realToString d ∧ n.neg = d.neg ∧
    n.value = if d.mag = 0 then 0 else
      ((Double.significant d.mag Double.unit).1 : ℚ) *
        10 ^ ((Double.significant d.mag Double.unit).2 - 16) := by
  by_cases hmag : d.mag = 0
  · obtain ⟨n, hneg, hvalue, htext⟩ := exists_plain d.neg ['0'] [] (by simp)
      zero_isDigit (by simp)
    refine ⟨n, ?_, hneg, ?_⟩
    · rw [← htext d.format (by simp [Double.format, hmag, Double.fraction])]
      rfl
    · rw [hvalue, if_pos hmag]
      simp [natOfDigits]
  · rw [if_neg hmag]
    obtain ⟨hlow, hhigh, -⟩ := Double.significant_spec (Nat.pos_of_ne_zero hmag) Double.unit_pos
    rcases hsignificant : Double.significant d.mag Double.unit with ⟨m, x⟩
    have hformat := format_of_significant hmag hsignificant
    rw [hsignificant] at hlow hhigh
    simp only at hlow hhigh hformat ⊢
    have hdigits := uintToString_isDigit m
    have hm := natOfDigits_uintToString m
    -- Seventeen digits, so that all places below can be counted.
    have hlen : (uintToString m).length = 17 := by
      apply le_antisymm
      · exact (Nat.length_toDigits_le_iff (by decide) (by decide)).2 hhigh
      · by_contra hlt
        have := (Nat.length_toDigits_le_iff (n := m) (b := 10) (k := 16) (by decide)
          (by decide)).1 (by unfold uintToString at hlt; omega)
        omega
    generalize uintToString m = ds at *
    have htake : ∀ k, ∀ c ∈ ds.take k, isDigit c = true :=
      fun k c hc => hdigits c (List.mem_of_mem_take hc)
    have hdrop : ∀ k, ∀ c ∈ ds.drop k, isDigit c = true :=
      fun k c hc => hdigits c (List.mem_of_mem_drop hc)
    have hne : ∀ k, ds.take (k + 1) ≠ [] := by
      intro k h
      have := congrArg List.length h
      rw [List.length_take, List.length_nil] at this
      omega
    -- `%g` writes an exponent when the number is too small or too large.
    by_cases hexp : x < -4 ∨ 17 ≤ x
    · rw [if_pos hexp] at hformat
      obtain ⟨n, hneg, hvalue, htext⟩ := exists_exponent d.neg x (hne 0) (htake 1) (hdrop 1)
      refine ⟨n, ?_, hneg, ?_⟩
      · have he : 'e' ∈ d.format := by
          rw [hformat]
          simp [Double.exponent]
        rw [realToString, if_neg fun h => h.2 he, hformat, htext]
      · rw [hvalue, List.take_append_drop, hm, List.length_drop, hlen]
        norm_num
    rw [if_neg hexp] at hformat
    -- Otherwise the point stands among the digits, or zeros stand between the point and the digits.
    by_cases hpos : 0 ≤ x
    · rw [if_pos hpos] at hformat
      obtain ⟨n, hneg, hvalue, htext⟩ := exists_plain d.neg _ _ (hne x.toNat) (htake _)
        (hdrop (x.toNat + 1))
      refine ⟨n, ?_, hneg, ?_⟩
      · rw [← htext d.format hformat]
        rfl
      · rw [hvalue, List.take_append_drop, hm, List.length_drop, hlen]
        congr 2
        omega
    · rw [if_neg hpos] at hformat
      have hzeros : ∀ c ∈ List.replicate (-x - 1).toNat '0' ++ ds, isDigit c = true := by
        intro c hc
        rcases List.mem_append.1 hc with hc | hc
        · rw [List.eq_of_mem_replicate hc]
          rfl
        · exact hdigits c hc
      obtain ⟨n, hneg, hvalue, htext⟩ := exists_plain d.neg ['0'] _ (by simp) zero_isDigit
        hzeros
      refine ⟨n, ?_, hneg, ?_⟩
      · rw [← htext d.format hformat]
        rfl
      · rw [hvalue, show ['0'] = List.replicate 1 '0' from rfl, natOfDigits_zeros_append,
          natOfDigits_zeros_append, hm, List.length_append, List.length_replicate, hlen]
        congr 2
        omega

end Numeral

/-- **Round trip of doubles.** Seventeen digits are enough for every finite double, the sign of
zero included. -/
theorem decodeDouble_realToString {d : Double} (hd : d.Finite) :
    decodeDouble (realToString d) = some d := by
  obtain ⟨n, htext, hneg, hvalue⟩ := Numeral.realToString_spec d
  rw [← htext, Numeral.decodeDouble_text, hneg]
  by_cases hmag : d.mag = 0
  · rw [if_pos hmag, Numeral.value, mul_eq_zero, or_iff_left (by positivity)] at hvalue
    have hm : n.mantissa = 0 := by exact_mod_cast hvalue
    rw [Double.ofDecimal, if_pos (Or.inl hm), ← hmag]
  · have hpos := Nat.pos_of_ne_zero hmag
    rw [if_neg hmag] at hvalue
    obtain ⟨-, -, hclose⟩ := Double.significant_spec hpos Double.unit_pos
    apply Double.ofDecimal_of_close hd hpos
    have hunit := Double.unit_posq
    change |n.value * Double.unit - d.mag| ≤ _
    rw [hvalue]
    calc _ = |((Double.significant d.mag Double.unit).1 : ℚ) *
            10 ^ ((Double.significant d.mag Double.unit).2 - 16) - d.mag / Double.unit| *
            Double.unit := by
          rw [← abs_of_pos hunit, ← abs_mul, abs_of_pos hunit, sub_mul, div_mul_cancel₀ _ hunit.ne']
      _ ≤ d.mag / Double.unit / (2 * 10 ^ 16) * Double.unit := by gcongr
      _ = d.mag / (2 * 10 ^ 16) := by
        rw [div_right_comm, div_mul_cancel₀ _ hunit.ne']

/-! ## What a number stands for -/

namespace Numeral

/-- The number with its sign, if it has neither a fraction nor an exponent. -/
def integer? (n : Numeral) : Option ℤ :=
  if n.frac = [] ∧ n.exponent = none then
    some (if n.neg then -natOfDigits n.whole else natOfDigits n.whole)
  else none

/-- The value a number stands for: an integer of 64 bits is itself, and any other number the double
it is rounded to. A number rounded to more than `DBL_MAX` stands for none. -/
inductive StandsFor (n : Numeral) : Value → Prop where
  | int {z : ℤ} (hz : n.integer? = some z) (hmin : -2 ^ 63 ≤ z) (hmax : z ≤ maxInt) :
      StandsFor n (.int z)
  | uint {z : ℕ} (hz : n.integer? = some (z : ℤ)) (hmin : maxInt < z) (hmax : z < 2 ^ 64) :
      StandsFor n (.uint z)
  | real {d : Double} (hz : ∀ z, n.integer? = some z → ¬(-2 ^ 63 ≤ z ∧ z < 2 ^ 64))
      (hneg : d.neg = n.neg) (hmag : Rounds 53 (n.value * Double.unit) d.mag)
      (hmax : d.mag ≤ Double.maxMag) : StandsFor n (.real d)

theorem text_of_integer {n : Numeral} {z : ℤ} (h : n.integer? = some z) :
    n.text = (if n.neg then ['-'] else []) ++ n.whole ∧
      z = if n.neg then -(natOfDigits n.whole : ℤ) else natOfDigits n.whole := by
  unfold integer? at h
  by_cases hparts : n.frac = [] ∧ n.exponent = none
  · rw [if_pos hparts] at h
    refine ⟨?_, (Option.some.inj h).symm⟩
    simp [text, hparts.1, hparts.2, fracText, expText]
  · rw [if_neg hparts] at h
    cases h

end Numeral

namespace Reader

/-- The digits of a number that is not too large are read as the number. -/
theorem decodeInteger_eq {max : ℕ} (hmax : 10 ≤ max) {ds : Str} {value : ℕ}
    (hds : ∀ c ∈ ds, isDigit c = true) (hle : Nat.ofDigitChars 10 ds value ≤ max) :
    decodeInteger max value ds = some (Nat.ofDigitChars 10 ds value) := by
  -- The digits to come make the value larger, so a final value in range kept the guard quiet.
  have hgrow : ∀ (ds : Str) (v : ℕ), v * 10 ^ ds.length ≤ Nat.ofDigitChars 10 ds v := by
    intro ds
    induction ds with
    | nil => intro v; simp
    | cons c ds ih =>
      intro v
      rw [Nat.ofDigitChars_cons, List.length_cons, pow_succ']
      calc v * (10 * 10 ^ ds.length) = 10 * v * 10 ^ ds.length := by ring
        _ ≤ (10 * v + (c.toNat - '0'.toNat)) * 10 ^ ds.length := by gcongr; omega
        _ ≤ _ := ih _
  induction ds generalizing value with
  | nil => rfl
  | cons c cs ih =>
    have hc := hds c List.mem_cons_self
    have hcs : ∀ c ∈ cs, isDigit c = true := fun d hd => hds d (List.mem_cons_of_mem c hd)
    rw [Nat.ofDigitChars_cons] at hle ⊢
    have hmono := hgrow cs (10 * value + (c.toNat - '0'.toNat))
    have hpow : 0 < 10 ^ cs.length := by positivity
    have hguard : ¬(max / 10 ≤ value ∧
        (max / 10 < value ∨ cs ≠ [] ∨ max % 10 < c.toNat - '0'.toNat)) := by
      rintro ⟨hthreshold, hover⟩
      generalize c.toNat - '0'.toNat = digit at *
      have hone : 10 * value + digit ≤ max := by
        calc 10 * value + digit ≤ (10 * value + digit) * 10 ^ cs.length :=
              Nat.le_mul_of_pos_right _ hpow
          _ ≤ max := hmono.trans hle
      -- Over the threshold, at it with digits to come, or at it with too large a last digit.
      rcases hover with hover | hover | hover
      · omega
      · have hlen : 1 ≤ cs.length := List.length_pos_iff.2 hover
        have hten : 10 ≤ 10 ^ cs.length := by
          calc 10 = 10 ^ 1 := (pow_one 10).symm
            _ ≤ 10 ^ cs.length := Nat.pow_le_pow_right (by decide) hlen
        have : (10 * value + digit) * 10 ≤ max :=
          (Nat.mul_le_mul_left _ hten).trans (hmono.trans hle)
        omega
      · omega
    rw [decodeInteger]
    simp only [hc, Bool.not_true, Bool.false_eq_true, if_false]
    rw [if_neg hguard, mul_comm value, ih hcs hle]

theorem decodeInteger_isDigit {max value n : ℕ} {ds : Str}
    (h : decodeInteger max value ds = some n) : ∀ c ∈ ds, isDigit c = true := by
  induction ds generalizing value with
  | nil => exact List.forall_mem_nil _
  | cons c cs ih =>
    rw [decodeInteger] at h
    split_ifs at h with hdigit
    exact List.forall_mem_cons.2 ⟨by simpa using hdigit, ih h⟩

/-- What `decodeInteger` makes is the number, and is not too large. -/
theorem of_decodeInteger {max value n : ℕ} {ds : Str} (hvalue : value ≤ max)
    (h : decodeInteger max value ds = some n) : n = Nat.ofDigitChars 10 ds value ∧ n ≤ max := by
  induction ds generalizing value with
  | nil =>
    obtain rfl := Option.some.inj h
    exact ⟨rfl, hvalue⟩
  | cons c cs ih =>
    rw [decodeInteger] at h
    split_ifs at h with hdigit hguard
    have hc : isDigit c = true := by simpa using hdigit
    have hle : c.toNat - '0'.toNat ≤ 9 := by
      simp only [isDigit, Bool.and_eq_true, decide_eq_true_eq] at hc
      have hhigh : c.toNat ≤ '9'.toNat := hc.2
      have hnine : '9'.toNat = 57 := rfl
      have hzero : '0'.toNat = 48 := rfl
      omega
    -- The guard lets the last digit through only as far as `max` goes.
    have hnext : value * 10 + (c.toNat - '0'.toNat) ≤ max := by
      generalize c.toNat - '0'.toNat = digit at *
      rcases Nat.lt_or_ge value (max / 10) with hlow | hhigh
      · omega
      · have hnot := not_and.1 hguard hhigh
        rw [not_or, not_or] at hnot
        omega
    rw [Nat.ofDigitChars_cons, mul_comm]
    exact ih hnext h

/-- The digits of a number that stands for no 64-bit integer are refused. -/
theorem decodeInteger_eq_none {n : Numeral} {max : ℕ}
    (hz : ∀ z, n.integer? = some z → max < natOfDigits n.whole) :
    decodeInteger max 0 (n.whole ++ (Numeral.fracText n.frac ++ Numeral.expText n.exponent)) =
      none := by
  rw [Option.eq_none_iff_forall_ne_some]
  intro k hk
  have hdigits := decodeInteger_isDigit hk
  have hmark : ∀ c, isDigit c = false →
      c ∉ Numeral.fracText n.frac ++ Numeral.expText n.exponent := by
    intro c hc hmem
    exact absurd (hdigits c (List.mem_append_right _ hmem)) (by rw [hc]; simp)
  have hfrac : n.frac = [] := by
    by_contra hne
    refine hmark '.' (by decide) (List.mem_append_left _ ?_)
    rw [Numeral.fracText, if_neg hne]
    exact List.mem_cons_self
  have hexp : n.exponent = none := by
    cases hx : n.exponent with
    | none => rfl
    | some x =>
      have hchar : isDigit x.mark = false := by
        rcases x.mark_eq with h | h <;> rw [h] <;> decide
      refine absurd (List.mem_append_right _ ?_) (hmark x.mark hchar)
      rw [hx]
      exact List.mem_cons_self
  have hinteger : n.integer? ≠ none := by simp [Numeral.integer?, hfrac, hexp]
  obtain ⟨z, hz'⟩ := Option.ne_none_iff_exists'.1 hinteger
  have hover := hz z hz'
  rw [hfrac, hexp] at hk
  simp only [Numeral.fracText, Numeral.expText, if_true, List.append_nil] at hk
  obtain ⟨rfl, hle⟩ := of_decodeInteger (Nat.zero_le max) hk
  rw [natOfDigits_eq] at hover
  omega

/-- **A number token is read as the value the number stands for.** -/
theorem decodeNumber_text {n : Numeral} {v : Value} (h : n.StandsFor v) :
    decodeNumber n.text = .ok v := by
  have hinteger : ∀ (max : ℕ) {z : ℤ}, 10 ≤ max → n.integer? = some z →
      natOfDigits n.whole ≤ max → decodeInteger max 0
        (n.whole ++ (Numeral.fracText n.frac ++ Numeral.expText n.exponent)) =
          some (natOfDigits n.whole) := by
    intro max z hmax hz hle
    have htext := (Numeral.text_of_integer hz).1
    rw [Numeral.text, List.append_cancel_left_eq] at htext
    rw [htext, natOfDigits_eq]
    rw [natOfDigits_eq] at hle
    exact decodeInteger_eq hmax n.whole_isDigit hle
  unfold decodeNumber
  simp only [Numeral.head_text, Numeral.tail_text]
  cases h with
  | @int z hz hmin hmax =>
    have hvalue := (Numeral.text_of_integer hz).2
    by_cases hneg : n.neg = true
    · rw [if_pos hneg] at hvalue
      rw [if_pos hneg, hinteger (2 ^ 63) (by decide) hz (by omega)]
      simp only [hneg, if_true, hvalue]
    · rw [if_neg hneg] at hvalue
      unfold maxInt at hmax
      rw [if_neg hneg, hinteger (2 ^ 64 - 1) (by decide) hz (by omega)]
      simp only [hneg]
      rw [if_neg (by simp), if_pos (by unfold maxInt; omega), hvalue]
  | @uint z hz hmin hmax =>
    have hvalue := (Numeral.text_of_integer hz).2
    unfold maxInt at hmin
    have hneg : ¬ n.neg = true := by
      intro hneg
      rw [if_pos hneg] at hvalue
      omega
    rw [if_neg hneg] at hvalue
    have hz' : natOfDigits n.whole = z := by exact_mod_cast hvalue.symm
    rw [if_neg hneg, hinteger (2 ^ 64 - 1) (by decide) hz (by omega), hz']
    simp only [hneg]
    rw [if_neg (by simp), if_neg (by unfold maxInt; omega)]
  | @real d hz hneg hmag hmax =>
    -- No integer of 64 bits, so `decodeNumber` gives up on the digits and turns to `decodeDouble`.
    have hnone : decodeInteger (if n.neg = true then 2 ^ 63 else 2 ^ 64 - 1) 0
        (n.whole ++ (Numeral.fracText n.frac ++ Numeral.expText n.exponent)) = none := by
      apply decodeInteger_eq_none
      intro z hz'
      have hvalue := (Numeral.text_of_integer hz').2
      have hrange := hz z hz'
      by_cases hsign : n.neg = true
      · rw [if_pos hsign] at hvalue ⊢
        omega
      · rw [if_neg hsign] at hvalue ⊢
        omega
    have hdouble : decodeDouble n.text = some d := by
      rw [Numeral.decodeDouble_text, Double.ofDecimal_eq_some_iff]
      exact ⟨hneg, hmag, hmax⟩
    simp only [hnone, hdouble]

end Reader

theorem realToString_mark (d : Double) : '.' ∈ realToString d ∨ 'e' ∈ realToString d := by
  unfold realToString
  by_cases h : '.' ∉ d.format ∧ 'e' ∉ d.format
  · simp only [h, not_false_eq_true, and_self, if_true]
    exact Or.inl (by simp)
  · simp only [h, if_false]
    by_contra hnone
    exact h (not_or.1 hnone)

/-- The text of a double stands for it: it has a point or an exponent, so it is no integer. -/
theorem realToString_standsFor {d : Double} (hd : d.Finite) :
    ∃ n : Numeral, n.text = realToString d ∧ n.StandsFor (.real d) := by
  obtain ⟨n, htext, -⟩ := Numeral.realToString_spec d
  have hread := decodeDouble_realToString hd
  rw [← htext, Numeral.decodeDouble_text, Double.ofDecimal_eq_some_iff] at hread
  obtain ⟨hneg, hmag, hmax⟩ := hread
  refine ⟨n, htext, .real ?_ hneg hmag hmax⟩
  intro z hz
  exfalso
  obtain ⟨hplain, -⟩ := Numeral.text_of_integer hz
  have hno : ∀ c, isDigit c = false → c ≠ '-' → c ∉ realToString d := by
    intro c hc hminus hmem
    rw [← htext, hplain] at hmem
    rcases List.mem_append.1 hmem with hmem | hmem
    · split_ifs at hmem
      · exact hminus (List.mem_singleton.1 hmem)
      · cases hmem
    · exact absurd (n.whole_isDigit c hmem) (by rw [hc]; simp)
  rcases realToString_mark d with h | h
  · exact hno '.' (by decide) (by decide) h
  · exact hno 'e' (by decide) (by decide) h

end WsSignalServer.Json
