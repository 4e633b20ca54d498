import WsSignalServer.Json.Reader

/-!
# UTF-8

The reader encodes code points (`codePointToUTF8`), the writer decodes bytes (`utf8ToCodepoint`).
The decoder takes any bytes: what is no UTF-8 becomes U+FFFD, or some other code point, since it
does not look at the two high bits of a continuation byte, takes a stray one for the start of a
pair, and goes up to U+1FFFFF.

* `codePointToUTF8_toNat`: the encoder agrees with the standard encoding on every character.
* `utf8ToCodepoint_append`: the decoder gives back an encoded character.
* `utf8ToCodepoint_spec`: whatever it makes of other bytes, it is not below U+0080 unless it is the
  byte itself, and no surrogate.
-/

namespace WsSignalServer.Json

/-- A text in UTF-8. Each byte is a `Char`. -/
def utf8 (text : List Char) : Str :=
  (text.flatMap String.utf8EncodeChar).map fun b => Char.ofNat b.toNat

theorem utf8_append (t t' : List Char) : utf8 (t ++ t') = utf8 t ++ utf8 t' := by
  simp [utf8]

theorem utf8_cons (c : Char) (t : List Char) : utf8 (c :: t) = utf8 [c] ++ utf8 t :=
  utf8_append [c] t

theorem utf8_nil : utf8 [] = [] := rfl

/-- `utf8ToCodepoint`: the code point at `c`, and what is left behind its last byte. -/
def utf8ToCodepoint (c : Char) (cs : Str) : ℕ × Str :=
  let replacement := 0xFFFD
  let firstByte := c.toNat
  if firstByte < 0x80 then (firstByte, cs)
  else if firstByte < 0xE0 then
    match cs with
    | s₁ :: rest =>
      let calculated := ((firstByte &&& 0x1F) <<< 6) ||| (s₁.toNat &&& 0x3F)
      (if calculated < 0x80 then replacement else calculated, rest)
    | cs => (replacement, cs)
  else if firstByte < 0xF0 then
    match cs with
    | s₁ :: s₂ :: rest =>
      let calculated := ((firstByte &&& 0x0F) <<< 12) ||| ((s₁.toNat &&& 0x3F) <<< 6) |||
        (s₂.toNat &&& 0x3F)
      if 0xD800 ≤ calculated ∧ calculated ≤ 0xDFFF then (replacement, rest)
      else (if calculated < 0x800 then replacement else calculated, rest)
    | cs => (replacement, cs)
  else if firstByte < 0xF8 then
    match cs with
    | s₁ :: s₂ :: s₃ :: rest =>
      let calculated := ((firstByte &&& 0x07) <<< 18) ||| ((s₁.toNat &&& 0x3F) <<< 12) |||
        ((s₂.toNat &&& 0x3F) <<< 6) ||| (s₃.toNat &&& 0x3F)
      (if calculated < 0x10000 then replacement else calculated, rest)
    | cs => (replacement, cs)
  else (replacement, cs)

/-! ## Bits -/

theorem shift_or {a b i : ℕ} (h : b < 2 ^ i) : a <<< i ||| b = a * 2 ^ i + b := by
  rw [← Nat.shiftLeft_add_eq_or_of_lt h a, Nat.shiftLeft_eq]

theorem bits_two (a b : ℕ) :
    ((a &&& 0x1F) <<< 6) ||| (b &&& 0x3F) = a % 32 * 64 + b % 64 := by
  rw [Nat.and_two_pow_sub_one_eq_mod a 5, Nat.and_two_pow_sub_one_eq_mod b 6,
    shift_or (Nat.mod_lt b (by decide))]
  rfl

theorem bits_three (a b c : ℕ) :
    ((a &&& 0x0F) <<< 12) ||| ((b &&& 0x3F) <<< 6) ||| (c &&& 0x3F) =
      a % 16 * 4096 + b % 64 * 64 + c % 64 := by
  rw [Nat.and_two_pow_sub_one_eq_mod a 4, Nat.and_two_pow_sub_one_eq_mod b 6,
    Nat.and_two_pow_sub_one_eq_mod c 6, Nat.lor_assoc, shift_or (Nat.mod_lt c (by decide)),
    shift_or (by omega)]
  omega

theorem bits_four (a b c d : ℕ) :
    ((a &&& 0x07) <<< 18) ||| ((b &&& 0x3F) <<< 12) ||| ((c &&& 0x3F) <<< 6) ||| (d &&& 0x3F) =
      a % 8 * 262144 + b % 64 * 4096 + c % 64 * 64 + d % 64 := by
  rw [Nat.and_two_pow_sub_one_eq_mod a 3, Nat.and_two_pow_sub_one_eq_mod b 6,
    Nat.and_two_pow_sub_one_eq_mod c 6, Nat.and_two_pow_sub_one_eq_mod d 6, Nat.lor_assoc,
    Nat.lor_assoc, shift_or (Nat.mod_lt d (by decide)),
    shift_or (b := c % 2 ^ 6 * 2 ^ 6 + d % 2 ^ 6) (by omega), shift_or (by omega)]
  omega

/-- The marks of `codePointToUTF8` are added to the bits. -/
theorem mark_or (n : ℕ) :
    0xC0 ||| (0x1f &&& n) = 0xC0 + n % 32 ∧ 0xE0 ||| (0xf &&& n) = 0xE0 + n % 16 ∧
      0xF0 ||| (0x7 &&& n) = 0xF0 + n % 8 ∧ 0x80 ||| (0x3f &&& n) = 0x80 + n % 64 := by
  rw [Nat.and_comm 0x1f, Nat.and_comm 0xf, Nat.and_comm 0x7, Nat.and_comm 0x3f,
    Nat.and_two_pow_sub_one_eq_mod n 5, Nat.and_two_pow_sub_one_eq_mod n 4,
    Nat.and_two_pow_sub_one_eq_mod n 3, Nat.and_two_pow_sub_one_eq_mod n 6]
  refine ⟨?_, ?_, ?_, ?_⟩
  · exact shift_or (a := 6) (i := 5) (Nat.mod_lt n (by decide))
  · exact shift_or (a := 14) (i := 4) (Nat.mod_lt n (by decide))
  · exact shift_or (a := 30) (i := 3) (Nat.mod_lt n (by decide))
  · exact shift_or (a := 2) (i := 6) (Nat.mod_lt n (by decide))

theorem toNat_ofNat {n : ℕ} (h : n < 256) : (Char.ofNat n).toNat = n := by
  have hvalid : n.isValidChar := Or.inl (h.trans (by decide))
  rw [Char.ofNat, dif_pos hvalid]
  rfl

/-! ## Encoding -/

theorem codePointToUTF8_two {n : ℕ} (hlow : 0x7f < n) (hhigh : n ≤ 0x7FF) :
    Reader.codePointToUTF8 n = [Char.ofNat (0xC0 + n / 64), Char.ofNat (0x80 + n % 64)] := by
  rw [Reader.codePointToUTF8, if_neg (by omega), if_pos hhigh, (mark_or _).1, (mark_or _).2.2.2,
    Nat.shiftRight_eq_div_pow, Nat.mod_eq_of_lt (show n / 2 ^ 6 < 32 by omega)]
  rfl

theorem codePointToUTF8_three {n : ℕ} (hlow : 0x7FF < n) (hhigh : n ≤ 0xFFFF) :
    Reader.codePointToUTF8 n = [Char.ofNat (0xE0 + n / 4096), Char.ofNat (0x80 + n / 64 % 64),
      Char.ofNat (0x80 + n % 64)] := by
  rw [Reader.codePointToUTF8, if_neg (by omega), if_neg (by omega), if_pos hhigh,
    (mark_or _).2.1, (mark_or _).2.2.2, (mark_or _).2.2.2, Nat.shiftRight_eq_div_pow,
    Nat.shiftRight_eq_div_pow, Nat.mod_eq_of_lt (show n / 2 ^ 12 < 16 by omega)]
  rfl

theorem codePointToUTF8_four {n : ℕ} (hlow : 0xFFFF < n) (hhigh : n ≤ 0x10FFFF) :
    Reader.codePointToUTF8 n = [Char.ofNat (0xF0 + n / 262144), Char.ofNat (0x80 + n / 4096 % 64),
      Char.ofNat (0x80 + n / 64 % 64), Char.ofNat (0x80 + n % 64)] := by
  rw [Reader.codePointToUTF8, if_neg (by omega), if_neg (by omega), if_neg (by omega),
    if_pos hhigh, (mark_or _).2.2.1, (mark_or _).2.2.2, (mark_or _).2.2.2, (mark_or _).2.2.2,
    Nat.shiftRight_eq_div_pow, Nat.shiftRight_eq_div_pow, Nat.shiftRight_eq_div_pow,
    Nat.mod_eq_of_lt (show n / 2 ^ 18 < 8 by omega)]
  rfl

/-- **The encoder is the standard one.** -/
theorem codePointToUTF8_toNat (c : Char) : Reader.codePointToUTF8 c.toNat = utf8 [c] := by
  have hmax : c.toNat ≤ 0x10FFFF := by
    rcases c.valid with h | h
    · exact (Nat.le_of_lt h).trans (by decide)
    · exact Nat.le_of_lt_succ h.2
  have hutf8 : utf8 [c] = (String.utf8EncodeChar c).map fun b => Char.ofNat b.toNat := by
    simp [utf8]
  have hval : c.val.toNat = c.toNat := rfl
  have hbyte : ∀ m, m < 256 → (UInt8.ofNat m).toNat = m := fun m hm => by simpa using hm
  rw [hutf8, String.utf8EncodeChar]
  simp only [hval]
  generalize c.toNat = n at hmax
  by_cases h₁ : n ≤ 0x7f
  · rw [Reader.codePointToUTF8, if_pos h₁, if_pos h₁, List.map_singleton, hbyte n (by omega)]
  · by_cases h₂ : n ≤ 0x7FF
    · rw [codePointToUTF8_two (by omega) h₂, if_neg h₁, if_pos h₂]
      simp only [List.map_cons, List.map_nil]
      rw [hbyte _ (by omega), hbyte _ (by omega), Nat.mod_eq_of_lt (show n / 64 < 32 by omega),
        add_comm 0xC0, add_comm 0x80]
    · by_cases h₃ : n ≤ 0xFFFF
      · rw [codePointToUTF8_three (by omega) h₃, if_neg h₁, if_neg h₂, if_pos h₃]
        simp only [List.map_cons, List.map_nil]
        rw [hbyte _ (by omega), hbyte _ (by omega), hbyte _ (by omega),
          Nat.mod_eq_of_lt (show n / 4096 < 16 by omega), add_comm 0xE0, add_comm 0x80,
          add_comm 0x80]
      · rw [codePointToUTF8_four (by omega) hmax, if_neg h₁, if_neg h₂, if_neg h₃]
        simp only [List.map_cons, List.map_nil]
        rw [hbyte _ (by omega), hbyte _ (by omega), hbyte _ (by omega), hbyte _ (by omega),
          Nat.mod_eq_of_lt (show n / 262144 < 8 by omega), add_comm 0xF0, add_comm 0x80,
          add_comm 0x80, add_comm 0x80]

/-- ASCII is encoded as itself. -/
theorem utf8_ascii {c : Char} (h : c.toNat < 0x80) : utf8 [c] = [c] := by
  rw [← codePointToUTF8_toNat, Reader.codePointToUTF8, if_pos (by omega), Char.ofNat_toNat]

theorem utf8_of_ascii {s : Str} (h : ∀ c ∈ s, c.toNat < 0x80) : utf8 s = s := by
  induction s with
  | nil => rfl
  | cons c cs ih =>
    rw [List.forall_mem_cons] at h
    rw [utf8_cons, utf8_ascii h.1, ih h.2]
    rfl

/-- An ASCII byte is a character of its own. -/
theorem utf8_of_mem {c b : Char} (hb : b ∈ utf8 [c]) (h : b.toNat < 0x80) : c = b := by
  by_cases hascii : c.toNat < 0x80
  · rw [utf8_ascii hascii] at hb
    exact (List.mem_singleton.1 hb).symm
  exfalso
  have hmax : c.toNat ≤ 0x10FFFF := by
    rcases c.valid with h | h
    · exact (Nat.le_of_lt h).trans (by decide)
    · exact Nat.le_of_lt_succ h.2
  rw [← codePointToUTF8_toNat] at hb
  generalize c.toNat = n at hb hmax hascii
  have hbyte : ∀ k, 0x80 ≤ k → k < 0x100 → b ≠ Char.ofNat k := by
    rintro k hk hlt rfl
    rw [toNat_ofNat hlt] at h
    omega
  -- Every byte of a longer character has its high bit set.
  by_cases h₂ : n ≤ 0x7FF
  · rw [codePointToUTF8_two (by omega) h₂] at hb
    simp only [List.mem_cons, List.not_mem_nil, or_false] at hb
    rcases hb with hb | hb <;> exact hbyte _ (by omega) (by omega) hb
  by_cases h₃ : n ≤ 0xFFFF
  · rw [codePointToUTF8_three (by omega) h₃] at hb
    simp only [List.mem_cons, List.not_mem_nil, or_false] at hb
    rcases hb with hb | hb | hb <;> exact hbyte _ (by omega) (by omega) hb
  · rw [codePointToUTF8_four (by omega) hmax] at hb
    simp only [List.mem_cons, List.not_mem_nil, or_false] at hb
    rcases hb with hb | hb | hb | hb <;> exact hbyte _ (by omega) (by omega) hb

/-! ## Decoding -/

theorem utf8ToCodepoint_ascii {c : Char} (h : c.toNat < 0x80) (cs : Str) :
    utf8ToCodepoint c cs = (c.toNat, cs) := by
  unfold utf8ToCodepoint
  exact if_pos h

/-- **The decoder gives back a character.** -/
theorem utf8ToCodepoint_append (c : Char) (rest : Str) :
    ∃ b bs, utf8 [c] = b :: bs ∧ utf8ToCodepoint b (bs ++ rest) = (c.toNat, rest) := by
  rw [← codePointToUTF8_toNat]
  have hvalid : c.toNat < 0xD800 ∨ 0xDFFF < c.toNat ∧ c.toNat < 0x110000 := c.valid
  generalize c.toNat = n at hvalid
  by_cases h₁ : n ≤ 0x7f
  · refine ⟨Char.ofNat n, [], by rw [Reader.codePointToUTF8, if_pos h₁], ?_⟩
    rw [utf8ToCodepoint_ascii (by rw [toNat_ofNat (by omega)]; omega), toNat_ofNat (by omega),
      List.nil_append]
  · by_cases h₂ : n ≤ 0x7FF
    · refine ⟨_, _, codePointToUTF8_two (by omega) h₂, ?_⟩
      simp only [utf8ToCodepoint, List.cons_append, List.nil_append, bits_two]
      rw [toNat_ofNat (by omega), toNat_ofNat (by omega), if_neg (by omega), if_pos (by omega),
        if_neg (by omega)]
      congr 1
      omega
    · by_cases h₃ : n ≤ 0xFFFF
      · refine ⟨_, _, codePointToUTF8_three (by omega) h₃, ?_⟩
        simp only [utf8ToCodepoint, List.cons_append, List.nil_append, bits_three]
        rw [toNat_ofNat (by omega), toNat_ofNat (by omega), toNat_ofNat (by omega),
          if_neg (by omega), if_neg (by omega), if_pos (by omega), if_neg (by omega),
          if_neg (by omega)]
        congr 1
        omega
      · refine ⟨_, _, codePointToUTF8_four (by omega) (by omega), ?_⟩
        simp only [utf8ToCodepoint, List.cons_append, List.nil_append, bits_four]
        rw [toNat_ofNat (by omega), toNat_ofNat (by omega), toNat_ofNat (by omega),
          toNat_ofNat (by omega), if_neg (by omega), if_neg (by omega), if_neg (by omega),
          if_pos (by omega), if_neg (by omega)]
        congr 1
        omega

/-- **What the decoder makes of any bytes.** A byte of ASCII is itself; anything else is a code
point from U+0080 to U+1FFFFF, and no surrogate. What is left is a part of what there was. -/
theorem utf8ToCodepoint_spec (c : Char) (cs : Str) :
    (utf8ToCodepoint c cs).2 <:+ cs ∧
      (c.toNat < 0x80 ∧ (utf8ToCodepoint c cs) = (c.toNat, cs) ∨
        0x80 ≤ c.toNat ∧ 0x80 ≤ (utf8ToCodepoint c cs).1 ∧ (utf8ToCodepoint c cs).1 < 0x200000 ∧
        ¬(0xD800 ≤ (utf8ToCodepoint c cs).1 ∧ (utf8ToCodepoint c cs).1 ≤ 0xDFFF)) := by
  by_cases hascii : c.toNat < 0x80
  · rw [utf8ToCodepoint_ascii hascii]
    exact ⟨List.suffix_rfl, Or.inl ⟨hascii, rfl⟩⟩
  have hreplacement : 0x80 ≤ 0xFFFD ∧ 0xFFFD < 0x200000 ∧ ¬(0xD800 ≤ 0xFFFD ∧ 0xFFFD ≤ 0xDFFF) := by
    decide
  simp only [utf8ToCodepoint, if_neg hascii, bits_two, bits_three, bits_four]
  refine ⟨?_, Or.inr ⟨by omega, ?_⟩⟩
  · split_ifs
    · split
      · exact List.suffix_cons _ _
      · exact List.suffix_rfl
    · split
      · split_ifs <;> exact (List.suffix_cons _ _).trans (List.suffix_cons _ _)
      · exact List.suffix_rfl
    · split
      · exact (List.suffix_cons _ _).trans ((List.suffix_cons _ _).trans (List.suffix_cons _ _))
      · exact List.suffix_rfl
    · exact List.suffix_rfl
  · split_ifs
    · split
      · simp only
        split_ifs <;> omega
      · exact hreplacement
    · split
      · split_ifs <;> first | exact hreplacement | (simp only; omega)
      · exact hreplacement
    · split
      · simp only
        split_ifs <;> omega
      · exact hreplacement
    · exact hreplacement

/-- A code point of more than 16 bits takes more than one byte. -/
theorem utf8ToCodepoint_plane (c : Char) (cs : Str) :
    (utf8ToCodepoint c cs).1 < 0x10000 ∨ (utf8ToCodepoint c cs).2.length < cs.length := by
  have hreplacement : 0xFFFD < 0x10000 := by decide
  unfold utf8ToCodepoint
  simp only
  split_ifs
  · exact Or.inl (by omega)
  · split
    · exact Or.inr (Nat.lt_succ_self _)
    · exact Or.inl hreplacement
  · split
    · right
      split_ifs <;> (simp only [List.length_cons]; omega)
    · exact Or.inl hreplacement
  · split
    · right
      simp only [List.length_cons]
      omega
    · exact Or.inl hreplacement
  · exact Or.inl hreplacement

end WsSignalServer.Json
