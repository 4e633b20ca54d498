import Mathlib

/-!
# Numbers of the JSON library

`json_reader.cpp` reads a numeral that is not a 64-bit integer with `istringstream >> double`,
and `json_value.cpp` converts the result back to `int` or to text. A numeral that overflows
`double` is refused by the stream, so no infinity and no NaN ever enters a `Json::Value`: a real
is a sign and a magnitude counted in the smallest subnormal, `2⁻¹⁰⁷⁴`.

* `Double.ofRatio`: correct rounding, to nearest and ties to even.
* `decodeDouble`: the numeral as the stream reads it.
* `valueToString`: `%.17g`, with `.0` added when the text would look like an integer.
* `Double.trunc_mem`: truncation after the range check of `asInt` stays in the range.
-/

namespace WsSignalServer.Json

/-- `std::string`. A `Char` stands for one `char` of it. -/
abbrev Str := List Char

/-- `Value::minInt` and `Value::maxInt`, which is also `INT_MAX`. -/
def minInt : ℤ := -2147483648
def maxInt : ℤ := 2147483647

/-! ## Decimal text -/

/-- `uintToString`. -/
def uintToString (n : ℕ) : Str := Nat.toDigits 10 n

/-- `valueToString(LargestInt)`. -/
def intToString (n : ℤ) : Str :=
  if n < 0 then '-' :: uintToString n.natAbs else uintToString n.natAbs

def isDigit (c : Char) : Bool := '0' ≤ c && c ≤ '9'

/-- The value of a run of decimal digits. -/
def natOfDigits (ds : Str) : ℕ := ds.foldl (fun n c => 10 * n + (c.toNat - '0'.toNat)) 0

/-- Quotient to the nearest integer, ties to even. -/
def divRoundEven (a b : ℕ) : ℕ :=
  if b < 2 * (a % b) ∨ (2 * (a % b) = b ∧ a / b % 2 = 1) then a / b + 1 else a / b

/-! ## Doubles -/

/-- A finite `double`: `±mag · 2⁻¹⁰⁷⁴`. Zero keeps its sign. -/
structure Double where
  neg : Bool
  mag : ℕ
  deriving DecidableEq, Repr

namespace Double

/-- The unit of `mag`, as the denominator of the value. -/
@[irreducible] def unit : ℕ := 2 ^ 1074

/-- `DBL_MAX` in units. -/
def maxMag : ℕ := (2 ^ 53 - 1) * 2 ^ 2045

/-- The signed magnitude. -/
def num (d : Double) : ℤ := if d.neg then -d.mag else d.mag

/-- The double nearest to `a / b`, or `none` when it exceeds `DBL_MAX`. -/
def ofRatio (neg : Bool) (a b : ℕ) : Option Double :=
  let x := a * unit
  let s := Nat.log2 (x / b) + 1 - 53
  let mag := divRoundEven x (b * 2 ^ s) * 2 ^ s
  if mag ≤ maxMag then some ⟨neg, mag⟩ else none

/-- The double nearest to `m · 10ᵉ`. The two guards keep the power of ten small: past them the
value is above `DBL_MAX`, or rounds to zero. -/
def ofDecimal (neg : Bool) (m : ℕ) (e : ℤ) : Option Double :=
  let len : ℤ := (Nat.toDigits 10 m).length
  if m = 0 ∨ len + e < -400 then some ⟨neg, 0⟩
  else if 310 < len + e then none
  else if 0 ≤ e then ofRatio neg (m * 10 ^ e.toNat) 1
  else ofRatio neg m (10 ^ (-e).toNat)

/-- `InRange(d, min, max)`. -/
def InRange (d : Double) (lo hi : ℤ) : Prop := lo * unit ≤ d.num ∧ d.num ≤ hi * unit

instance (d : Double) (lo hi : ℤ) : Decidable (d.InRange lo hi) :=
  inferInstanceAs (Decidable (_ ∧ _))

/-- `Int(d)`: the fraction is dropped. -/
def trunc (d : Double) : ℤ := d.num.tdiv unit

theorem unit_pos : 0 < unit := by unfold unit; positivity

theorem trunc_mem {d : Double} {lo hi : ℤ} (h : d.InRange lo hi) :
    lo ≤ d.trunc ∧ d.trunc ≤ hi := by
  have hpos : (0 : ℤ) < unit := Int.natCast_pos.2 unit_pos
  obtain ⟨hlo, hhi⟩ := h
  constructor
  · calc lo = (lo * unit).tdiv unit := (Int.mul_tdiv_cancel lo hpos.ne').symm
      _ ≤ d.num.tdiv unit := Int.tdiv_le_tdiv hpos hlo
  · calc d.num.tdiv unit ≤ (hi * unit).tdiv unit := Int.tdiv_le_tdiv hpos hhi
      _ = hi := Int.mul_tdiv_cancel hi hpos.ne'

/-! ### Text -/

/-- `⌊log₁₀ (a / b)⌋` for positive `a`, `b`: the digit counts leave two candidates. -/
def log10 (a b : ℕ) : ℤ :=
  let e : ℤ := (Nat.toDigits 10 a).length - (Nat.toDigits 10 b).length
  if b * 10 ^ e.toNat ≤ a * 10 ^ (-e).toNat then e else e - 1

/-- `a / b` to 17 significant digits: the digits as an integer, and the exponent of the first. -/
def significant (a b : ℕ) : ℕ × ℤ :=
  let x := log10 a b
  let n := divRoundEven (a * 10 ^ (16 - x).toNat) (b * 10 ^ (x - 16).toNat)
  if n = 10 ^ 17 then (10 ^ 16, x + 1) else (n, x)

/-- `%g` drops the zeros at the end of the fraction, and the point if nothing is left. -/
def fraction (ds : Str) : Str :=
  match (ds.reverse.dropWhile (· = '0')).reverse with
  | [] => []
  | ds => '.' :: ds

/-- `%e` writes at least two digits of the exponent. -/
def exponent (x : ℤ) : Str :=
  let ds := uintToString x.natAbs
  'e' :: (if x < 0 then '-' else '+') :: (if ds.length < 2 then '0' :: ds else ds)

/-- `snprintf("%.17g", d)`. -/
def format (d : Double) : Str :=
  let sign := if d.neg then ['-'] else []
  if d.mag = 0 then sign ++ ['0']
  else
    let (n, x) := significant d.mag unit
    let ds := uintToString n
    if x < -4 ∨ 17 ≤ x then sign ++ ds.take 1 ++ fraction (ds.drop 1) ++ exponent x
    else if 0 ≤ x then sign ++ ds.take (x.toNat + 1) ++ fraction (ds.drop (x.toNat + 1))
    else sign ++ ['0'] ++ fraction (List.replicate (-x - 1).toNat '0' ++ ds)

end Double

/-- `valueToString(double)`. -/
def realToString (d : Double) : Str :=
  let buffer := d.format
  if '.' ∉ buffer ∧ 'e' ∉ buffer then buffer ++ ".0".toList else buffer

/-! ## Reading a numeral -/

/-- The exponent part of a numeral: nothing, or a mark, an optional sign and some digit. -/
def readExponent : Str → Option ℤ
  | [] => some 0
  | _ :: '-' :: ds => if ds = [] then none else some (-natOfDigits ds)
  | _ :: '+' :: ds => if ds = [] then none else some (natOfDigits ds)
  | _ :: ds => if ds = [] then none else some (natOfDigits ds)

/-- `is >> value` on the text of a number token, the extraction in `Reader::decodeDouble`. It
fails without a digit before the exponent, with a mark but no exponent, and on overflow. -/
def decodeDouble (token : Str) : Option Double :=
  let neg := token.head? = some '-'
  let token := if neg then token.tail else token
  let (whole, rest) := token.span isDigit
  let (frac, rest) := match rest with
    | '.' :: rest => rest.span isDigit
    | rest => ([], rest)
  if whole ++ frac = [] then none
  else (readExponent rest).bind fun e =>
    Double.ofDecimal neg (natOfDigits (whole ++ frac)) (e - frac.length)

end WsSignalServer.Json
