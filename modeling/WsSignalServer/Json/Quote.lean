import WsSignalServer.Json.Grammar
import WsSignalServer.Json.Utf8

/-!
# Quoted strings

`valueToQuotedStringN` writes a string in ASCII alone: a control character below a space and
whatever is not ASCII goes out as an escape, a code point of more than 16 bits as two. Its input is
bytes, and nothing has checked that they are UTF-8 — the reader lets any byte through — so what
comes back is not always what went in. `repair` says what comes back.

* `valueToQuotedStringN_chars`: the text stands for `repair s`, by either of the two paths of the
  writer.
* `repair_isUtf8`, `repair_eq_self`: everything comes back as UTF-8, and UTF-8 alone as it was.
* `valueToQuotedStringN_ascii`: the text is ASCII from the space on, U+007F included.
-/

namespace WsSignalServer.Json

/-! ## The writer -/

/-- `toHex16Bit`. The table `hex2` holds the two digits of each byte. -/
def toHex16Bit (x : ℕ) : Str :=
  let hi := (x >>> 8) &&& 0xff
  let lo := x &&& 0xff
  [Nat.digitChar (hi / 16), Nat.digitChar (hi % 16), Nat.digitChar (lo / 16),
    Nat.digitChar (lo % 16)]

def appendHex (ch : ℕ) : Str := '\\' :: 'u' :: toHex16Bit ch

def doesAnyCharRequireEscaping (s : Str) : Bool :=
  s.any fun c => c = '\\' || c = '"' || c.toNat < 0x20 || 0x7F < c.toNat

/-- One round of the loop of `valueToQuotedStringN`: what it appends, and what is left. -/
def quoteChar (c : Char) (cs : Str) : Str × Str :=
  match c with
  | '"' => ("\\\"".toList, cs)
  | '\\' => ("\\\\".toList, cs)
  | '\x08' => ("\\b".toList, cs)
  | '\x0c' => ("\\f".toList, cs)
  | '\n' => ("\\n".toList, cs)
  | '\r' => ("\\r".toList, cs)
  | '\t' => ("\\t".toList, cs)
  | c =>
    let (codepoint, rest) := utf8ToCodepoint c cs
    if codepoint < 0x20 then (appendHex codepoint, rest)
    else if codepoint < 0x80 then ([Char.ofNat codepoint], rest)
    else if codepoint < 0x10000 then (appendHex codepoint, rest)
    else
      let codepoint := codepoint - 0x10000
      (appendHex (0xd800 + ((codepoint >>> 10) &&& 0x3ff)) ++
        appendHex (0xdc00 + (codepoint &&& 0x3ff)), rest)

/-- The loop of `valueToQuotedStringN`; every round takes at least one character. -/
def quoteChars : ℕ → Str → Str
  | _, [] => []
  | 0, _ :: _ => []
  | fuel + 1, c :: cs =>
    let (text, rest) := quoteChar c cs
    text ++ quoteChars fuel rest

def valueToQuotedStringN (value : Str) : Str :=
  if !doesAnyCharRequireEscaping value then '"' :: (value ++ ['"'])
  else '"' :: (quoteChars value.length value ++ ['"'])

/-! ## What comes back -/

/-- The code point behind an escape or a pair of escapes. A pair has room for 20 bits. -/
def escaped (codepoint : ℕ) : ℕ :=
  if codepoint < 0x10000 then codepoint else 0x10000 + (codepoint - 0x10000) % 2 ^ 20

def repairChars : ℕ → Str → Str
  | _, [] => []
  | 0, _ :: _ => []
  | fuel + 1, c :: cs =>
    let (codepoint, rest) := utf8ToCodepoint c cs
    Reader.codePointToUTF8 (escaped codepoint) ++ repairChars fuel rest

/-- A string with its ill-formed UTF-8 replaced, as a reader gets it back. -/
def repair (s : Str) : Str := repairChars s.length s

def IsUtf8 (s : Str) : Prop := ∃ text, s = utf8 text

/-! ## Digits -/

theorem hexDigit_digitChar {n : ℕ} (h : n < 16) : Reader.HexDigit (Nat.digitChar n) n :=
  ⟨h, Or.inl rfl⟩

theorem toHex16Bit_hex4 {x : ℕ} (h : x < 0x10000) : Reader.Hex4 (toHex16Bit x) x := by
  have hhi : (x >>> 8) &&& 0xff = x / 256 := by
    rw [Nat.and_two_pow_sub_one_eq_mod _ 8, Nat.shiftRight_eq_div_pow]
    exact Nat.mod_eq_of_lt (by omega)
  have hlo : x &&& 0xff = x % 256 := Nat.and_two_pow_sub_one_eq_mod x 8
  have hex := Reader.Hex4.mk (hexDigit_digitChar (show x / 256 / 16 < 16 by omega))
    (hexDigit_digitChar (show x / 256 % 16 < 16 by omega))
    (hexDigit_digitChar (show x % 256 / 16 < 16 by omega))
    (hexDigit_digitChar (show x % 256 % 16 < 16 by omega))
  have hx : ((x / 256 / 16 * 16 + x / 256 % 16) * 16 + x % 256 / 16) * 16 + x % 256 % 16 = x := by
    omega
  rw [hx] at hex
  simp only [toHex16Bit, hhi, hlo]
  exact hex

theorem codePointToUTF8_ascii {c : Char} (h : c.toNat < 0x80) :
    Reader.codePointToUTF8 c.toNat = [c] := by
  rw [Reader.codePointToUTF8, if_pos (by omega), Char.ofNat_toNat]

theorem escaped_of_lt {codepoint : ℕ} (h : codepoint < 0x10000) : escaped codepoint = codepoint :=
  if_pos h

/-! ## Reading back -/

/-- Whatever is decoded, the code point that comes back is a character. -/
theorem escaped_valid (c : Char) (cs : Str) : (escaped (utf8ToCodepoint c cs).1).isValidChar := by
  obtain ⟨-, hspec⟩ := utf8ToCodepoint_spec c cs
  unfold escaped Nat.isValidChar
  rcases hspec with ⟨hc, heq⟩ | ⟨-, -, hlt, hne⟩
  · rw [heq, if_pos (by omega)]
    omega
  · split_ifs <;> omega

/-- The character a round brings back. -/
def repairedChar (c : Char) (cs : Str) : Char := Char.ofNat (escaped (utf8ToCodepoint c cs).1)

theorem repairedChar_toNat (c : Char) (cs : Str) :
    (repairedChar c cs).toNat = escaped (utf8ToCodepoint c cs).1 := by
  rw [repairedChar, Char.ofNat, dif_pos (escaped_valid c cs)]
  rfl

theorem repairedChar_ascii {c : Char} (h : c.toNat < 0x80) (cs : Str) : repairedChar c cs = c := by
  rw [repairedChar, utf8ToCodepoint_ascii h, escaped_of_lt (by simp only; omega), Char.ofNat_toNat]

/-- One round: what it appends stands for the character it brings back. -/
theorem quoteChar_spec (c : Char) (cs : Str) :
    (quoteChar c cs).2 = (utf8ToCodepoint c cs).2 ∧ ∀ body s, Reader.Chars body s →
      Reader.Chars ((quoteChar c cs).1 ++ body) (repairedChar c cs :: s) := by
  have hescape : ∀ e d : Char, d.toNat < 0x80 → (e, d) ∈ Reader.escapes →
      cs = (utf8ToCodepoint d cs).2 ∧ ∀ body s, Reader.Chars body s →
        Reader.Chars (['\\', e] ++ body) (repairedChar d cs :: s) := by
    intro e d hd he
    rw [utf8ToCodepoint_ascii hd, repairedChar_ascii hd]
    exact ⟨rfl, fun body s h => .escape he h⟩
  unfold quoteChar
  split
  · exact hescape '"' '"' (by decide) (by simp [Reader.escapes])
  · exact hescape '\\' '\\' (by decide) (by simp [Reader.escapes])
  · exact hescape 'b' '\x08' (by decide) (by simp [Reader.escapes])
  · exact hescape 'f' '\x0c' (by decide) (by simp [Reader.escapes])
  · exact hescape 'n' '\n' (by decide) (by simp [Reader.escapes])
  · exact hescape 'r' '\r' (by decide) (by simp [Reader.escapes])
  · exact hescape 't' '\t' (by decide) (by simp [Reader.escapes])
  · rename_i hquote hslash _ _ _ _ _
    obtain ⟨-, hspec⟩ := utf8ToCodepoint_spec c cs
    have hchar := repairedChar_toNat c cs
    generalize repairedChar c cs = d at hchar ⊢
    generalize utf8ToCodepoint c cs = decoded at hspec hchar
    obtain ⟨codepoint, rest⟩ := decoded
    simp only at hspec hchar ⊢
    -- A control character, ASCII, the first plane, and what is above it.
    split_ifs with hcontrol hascii hplane
    · refine ⟨rfl, fun body s h => ?_⟩
      rw [escaped_of_lt (by omega)] at hchar
      refine .unicode ?_ h
      rw [hchar]
      exact toHex16Bit_hex4 (by omega)
    · refine ⟨rfl, fun body s h => ?_⟩
      rw [escaped_of_lt (by omega)] at hchar
      rcases hspec with ⟨hc, heq⟩ | ⟨-, hge, -⟩
      · obtain ⟨rfl, -⟩ := Prod.mk.inj heq
        obtain rfl : d = c := Char.ext (UInt32.toNat_inj.1 hchar)
        have hplain := Reader.Chars.plain (by omega) hquote hslash h
        rw [utf8_ascii hc] at hplain
        rw [Char.ofNat_toNat]
        exact hplain
      · omega
    · refine ⟨rfl, fun body s h => ?_⟩
      rw [escaped_of_lt hplane] at hchar
      refine .unicode ?_ h
      rw [hchar]
      exact toHex16Bit_hex4 hplane
    · refine ⟨rfl, fun body s h => ?_⟩
      have hhi : ((codepoint - 0x10000) >>> 10) &&& 0x3ff = (codepoint - 0x10000) / 1024 % 1024 := by
        rw [Nat.and_two_pow_sub_one_eq_mod _ 10, Nat.shiftRight_eq_div_pow]
      have hlo : (codepoint - 0x10000) &&& 0x3ff = (codepoint - 0x10000) % 1024 :=
        Nat.and_two_pow_sub_one_eq_mod _ 10
      -- The two escapes hold ten bits each of what is above the first plane.
      have hcode : d.toNat = 0x10000 + (codepoint - 0x10000) / 1024 % 1024 * 0x400 +
          (codepoint - 0x10000) % 1024 := by
        rw [hchar, escaped, if_neg hplane]
        omega
      have hpair := Reader.Chars.surrogates
        (toHex16Bit_hex4 (x := 0xd800 + (codepoint - 0x10000) / 1024 % 1024) (by omega))
        (toHex16Bit_hex4 (x := 0xdc00 + (codepoint - 0x10000) % 1024) (by omega)) (by omega)
        (by omega) hcode h
      simpa [appendHex, hhi, hlo] using hpair

/-- The rounds of the writer bring back the repaired string. -/
theorem quoteChars_chars {fuel : ℕ} {s : Str} (hfuel : s.length ≤ fuel) :
    ∃ text, Reader.Chars (quoteChars fuel s) text ∧ utf8 text = repairChars fuel s := by
  induction fuel generalizing s with
  | zero =>
    obtain rfl := List.eq_nil_of_length_eq_zero (Nat.le_zero.1 hfuel)
    exact ⟨[], .nil, rfl⟩
  | succ fuel ih =>
    cases s with
    | nil => exact ⟨[], .nil, rfl⟩
    | cons c cs =>
      obtain ⟨hrest, hchars⟩ := quoteChar_spec c cs
      obtain ⟨hsuffix, -⟩ := utf8ToCodepoint_spec c cs
      have hle := hsuffix.length_le
      rw [List.length_cons] at hfuel
      obtain ⟨text, htail, hutf8⟩ := ih (s := (utf8ToCodepoint c cs).2) (by omega)
      refine ⟨repairedChar c cs :: text, ?_, ?_⟩
      · simp only [quoteChars, hrest]
        exact hchars _ _ htail
      · rw [utf8_cons, hutf8, ← codePointToUTF8_toNat, repairedChar_toNat, repairChars]

/-- Without anything to escape the two paths agree. -/
theorem repairChars_plain {fuel : ℕ} {s : Str} (hfuel : s.length ≤ fuel)
    (h : ∀ c ∈ s, c.toNat < 0x80) : repairChars fuel s = s := by
  induction s generalizing fuel with
  | nil => cases fuel <;> rfl
  | cons c cs ih =>
    obtain ⟨fuel, rfl⟩ := Nat.exists_eq_add_one.2 ((Nat.succ_pos _).trans_le hfuel)
    have hc := h c List.mem_cons_self
    rw [repairChars, utf8ToCodepoint_ascii hc]
    simp only
    rw [escaped_of_lt (by omega), codePointToUTF8_ascii hc,
      ih (Nat.le_of_succ_le_succ hfuel) fun d hd => h d (List.mem_cons_of_mem c hd)]
    rfl

theorem not_requireEscaping {s : Str} (h : doesAnyCharRequireEscaping s = false) :
    ∀ c ∈ s, (c ≠ '"' ∧ c ≠ '\\') ∧ 0x20 ≤ c.toNat ∧ c.toNat < 0x80 := by
  intro c hc
  have hall := List.any_eq_false.1 h c hc
  simp only [Bool.or_eq_true, decide_eq_true_eq, not_or] at hall
  obtain ⟨⟨⟨hslash, hquote⟩, hcontrol⟩, hascii⟩ := hall
  exact ⟨⟨hquote, hslash⟩, by omega, by omega⟩

/-- **A quoted string stands for the repaired one**, on the fast path too. -/
theorem valueToQuotedStringN_chars (s : Str) : ∃ body text,
    valueToQuotedStringN s = '"' :: (body ++ ['"']) ∧ Reader.Chars body text ∧
      utf8 text = repair s := by
  unfold valueToQuotedStringN
  by_cases h : doesAnyCharRequireEscaping s = true
  · rw [if_neg (by simp [h])]
    obtain ⟨text, htext, hutf8⟩ := quoteChars_chars (s := s) le_rfl
    exact ⟨_, text, rfl, htext, hutf8⟩
  · rw [Bool.not_eq_true] at h
    have hplain := not_requireEscaping h
    have hascii : ∀ c ∈ s, c.toNat < 0x80 := fun c hc => (hplain c hc).2.2
    rw [if_pos (by simp [h])]
    refine ⟨s, s, rfl, Reader.chars_plain hplain, ?_⟩
    rw [repair, repairChars_plain le_rfl hascii, utf8_of_ascii hascii]

/-! ## UTF-8 -/

theorem IsUtf8.nil : IsUtf8 [] := ⟨[], rfl⟩

theorem IsUtf8.append {a b : Str} (ha : IsUtf8 a) (hb : IsUtf8 b) : IsUtf8 (a ++ b) := by
  obtain ⟨t, rfl⟩ := ha
  obtain ⟨u, rfl⟩ := hb
  exact ⟨t ++ u, (utf8_append t u).symm⟩

theorem codePointToUTF8_isUtf8 {n : ℕ} (h : n.isValidChar) :
    IsUtf8 (Reader.codePointToUTF8 n) := by
  have hchar : (Char.ofNat n).toNat = n := by
    rw [Char.ofNat, dif_pos h]
    rfl
  exact ⟨[Char.ofNat n], by rw [← codePointToUTF8_toNat, hchar]⟩

theorem isUtf8_ascii {c : Char} (h : c.toNat < 0x80) : IsUtf8 [c] := by
  have hutf8 := codePointToUTF8_isUtf8 (n := c.toNat) (Or.inl (h.trans (by decide)))
  rwa [codePointToUTF8_ascii h] at hutf8

theorem repairChars_utf8 {fuel : ℕ} (text : List Char) (hfuel : (utf8 text).length ≤ fuel) :
    repairChars fuel (utf8 text) = utf8 text := by
  induction text generalizing fuel with
  | nil => cases fuel <;> rfl
  | cons c text ih =>
    obtain ⟨b, bs, hc, hdecode⟩ := utf8ToCodepoint_append c (utf8 text)
    have hvalid : c.toNat < 0x110000 := by
      rcases c.valid with h | h
      · exact Nat.lt_trans h (by decide)
      · exact h.2
    have hescaped : escaped c.toNat = c.toNat := by
      unfold escaped
      split_ifs <;> omega
    rw [utf8_cons, hc, List.cons_append] at hfuel ⊢
    obtain ⟨fuel, rfl⟩ := Nat.exists_eq_add_one.2 ((Nat.succ_pos _).trans_le hfuel)
    rw [List.length_cons, List.length_append] at hfuel
    rw [repairChars, hdecode]
    simp only
    rw [hescaped, codePointToUTF8_toNat, hc, ih (by omega), List.cons_append]

/-- **UTF-8 comes back as it was.** -/
theorem repair_utf8 {s : Str} (h : IsUtf8 s) : repair s = s := by
  obtain ⟨text, rfl⟩ := h
  exact repairChars_utf8 text le_rfl

theorem repairChars_isUtf8 (fuel : ℕ) (s : Str) : IsUtf8 (repairChars fuel s) := by
  induction fuel generalizing s with
  | zero => cases s <;> exact .nil
  | succ fuel ih =>
    cases s with
    | nil => exact .nil
    | cons c cs =>
      obtain ⟨-, hspec⟩ := utf8ToCodepoint_spec c cs
      have hvalid : (escaped (utf8ToCodepoint c cs).1).isValidChar := by
        unfold escaped Nat.isValidChar
        rcases hspec with ⟨hc, heq⟩ | ⟨-, -, hlt, hne⟩
        · rw [heq]
          simp only
          split_ifs <;> omega
        · split_ifs <;> omega
      exact (codePointToUTF8_isUtf8 hvalid).append (ih _)

/-- **Everything comes back as UTF-8.** -/
theorem repair_isUtf8 (s : Str) : IsUtf8 (repair s) := repairChars_isUtf8 _ s

theorem repair_eq_self {s : Str} : repair s = s ↔ IsUtf8 s :=
  ⟨fun h => h ▸ repair_isUtf8 s, repair_utf8⟩

/-! ## ASCII -/

theorem digitChar_ascii {n : ℕ} (h : n < 16) :
    0x20 ≤ (Nat.digitChar n).toNat ∧ (Nat.digitChar n).toNat < 0x80 := by
  interval_cases n <;> decide

theorem appendHex_ascii (x : ℕ) : ∀ c ∈ appendHex x, 0x20 ≤ c.toNat ∧ c.toNat < 0x80 := by
  have hbyte : ∀ y, y &&& 0xff < 256 := by
    intro y
    rw [Nat.and_two_pow_sub_one_eq_mod y 8]
    exact Nat.mod_lt y (by decide)
  have hhi := hbyte (x >>> 8)
  have hlo := hbyte x
  intro c hc
  simp only [appendHex, toHex16Bit, List.mem_cons, List.not_mem_nil, or_false] at hc
  rcases hc with rfl | rfl | rfl | rfl | rfl | rfl
  · decide
  · decide
  all_goals exact digitChar_ascii (by omega)

theorem quoteChar_ascii (c : Char) (cs : Str) :
    ∀ d ∈ (quoteChar c cs).1, 0x20 ≤ d.toNat ∧ d.toNat < 0x80 := by
  unfold quoteChar
  split
  iterate 7
    · intro d hd
      rcases List.mem_pair.1 hd with rfl | rfl <;> decide
  · simp only
    split_ifs with hcontrol hascii hplane
    · exact appendHex_ascii _
    · intro d hd
      rw [List.mem_singleton.1 hd, toNat_ofNat (by omega)]
      omega
    · exact appendHex_ascii _
    · intro d hd
      rcases List.mem_append.1 hd with hd | hd <;> exact appendHex_ascii _ d hd

theorem quoteChars_ascii (fuel : ℕ) (s : Str) :
    ∀ c ∈ quoteChars fuel s, 0x20 ≤ c.toNat ∧ c.toNat < 0x80 := by
  induction fuel generalizing s with
  | zero => cases s <;> simp [quoteChars]
  | succ fuel ih =>
    cases s with
    | nil => simp [quoteChars]
    | cons c cs =>
      intro d hd
      rcases List.mem_append.1 hd with hd | hd
      · exact quoteChar_ascii c cs d hd
      · exact ih _ d hd

theorem valueToQuotedStringN_ascii (s : Str) :
    ∀ c ∈ valueToQuotedStringN s, 0x20 ≤ c.toNat ∧ c.toNat < 0x80 := by
  have hquoted : ∀ body : Str, (∀ c ∈ body, 0x20 ≤ c.toNat ∧ c.toNat < 0x80) →
      ∀ c ∈ '"' :: (body ++ ['"']), 0x20 ≤ c.toNat ∧ c.toNat < 0x80 := by
    intro body hbody c hc
    simp only [List.mem_cons, List.mem_append, List.not_mem_nil, or_false] at hc
    rcases hc with rfl | hc | rfl
    · decide
    · exact hbody c hc
    · decide
  unfold valueToQuotedStringN
  by_cases h : doesAnyCharRequireEscaping s = true
  · rw [if_neg (by simp [h])]
    exact hquoted _ (quoteChars_ascii _ s)
  · rw [Bool.not_eq_true] at h
    rw [if_pos (by simp [h])]
    exact hquoted s fun c hc => (not_requireEscaping h c hc).2

/-- **Quoting.** Whatever bytes a string holds, its text is ASCII without a character below the space
and is decoded to the repaired string, which is UTF-8, and which is the string itself exactly when
that is UTF-8. -/
theorem decodeString_valueToQuotedStringN (s : Str) :
    Reader.decodeString (valueToQuotedStringN s) = .ok (repair s) ∧ IsUtf8 (repair s) ∧
      (repair s = s ↔ IsUtf8 s) ∧
      ∀ c ∈ valueToQuotedStringN s, 0x20 ≤ c.toNat ∧ c.toNat < 0x80 := by
  obtain ⟨body, text, hquoted, hbody, hutf8⟩ := valueToQuotedStringN_chars s
  refine ⟨?_, repair_isUtf8 s, repair_eq_self, valueToQuotedStringN_ascii s⟩
  rw [hquoted, Reader.decodeString_eq hbody, hutf8]

end WsSignalServer.Json
