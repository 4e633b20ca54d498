import WsSignalServer.Json.Numeral
import WsSignalServer.Json.Utf8

/-!
# The grammar of JSON texts

What a JSON text stands for, said without a reader: `Denotes depth text v` builds the text of `v`
from the texts of its parts, with blanks wherever the grammar has them, and counts how deep the
parts are nested. A string stands for Unicode characters, of which its value holds the UTF-8. A
number stands for itself when it is an integer of 64 bits, and else for the double it is rounded to
(`Numeral.StandsFor`).

Four kinds of JSON text are left out, and the reader refuses them or reads them as something else:
a number that is rounded to more than `DBL_MAX`, a `\u` escape of a surrogate outside a pair, and
names and strings longer than a `Json::Value` holds. Beyond JSON, a number here may start with zeros;
the reader accepts more (comments, control characters and bytes that are no UTF-8 in a string), and
here it is shown to accept no less.

**Theorem (`parse_denotes`).** A text of depth at most `stackLimit` is read as the value it stands
for, whatever follows it, and so no text stands for two values.

A number goes as far as it can, so the text behind it must not go on (`Boundary`). Every other
value ends with its last character.
-/

namespace WsSignalServer.Json

namespace Reader

/-! ## Blanks -/

def isSpace (c : Char) : Bool := c = ' ' || c = '\t' || c = '\r' || c = '\n'

def Blank (ws : Str) : Prop := ∀ c ∈ ws, isSpace c = true

theorem Blank.nil : Blank [] := List.forall_mem_nil _

theorem Blank.append {ws ws' : Str} (h : Blank ws) (h' : Blank ws') : Blank (ws ++ ws') := by
  intro c hc
  rcases List.mem_append.1 hc with hc | hc
  · exact h c hc
  · exact h' c hc

theorem skipSpaces_append {ws : Str} (h : Blank ws) (cs : Str) :
    skipSpaces (ws ++ cs) = skipSpaces cs :=
  List.dropWhile_append_of_pos h

theorem skipSpaces_cons {c : Char} (h : isSpace c = false) (cs : Str) :
    skipSpaces (c :: cs) = c :: cs :=
  List.dropWhile_cons_of_neg (by simpa [isSpace] using h)

/-- What stands behind a number when the number is over. -/
def Boundary (rest : Str) : Prop :=
  ∀ c ∈ rest.head?, isDigit c = false ∧ c ≠ '.' ∧ c ≠ 'e' ∧ c ≠ 'E'

theorem Boundary.nil : Boundary [] := by simp [Boundary]

theorem Boundary.cons {c : Char} (hdigit : isDigit c = false)
    (hne : c ≠ '.' ∧ c ≠ 'e' ∧ c ≠ 'E') (rest : Str) : Boundary (c :: rest) := by
  intro d hd
  obtain rfl : c = d := by simpa using hd
  exact ⟨hdigit, hne⟩

theorem Boundary.of_blank {ws : Str} (h : Blank ws) {rest : Str} (hrest : Boundary rest) :
    Boundary (ws ++ rest) := by
  cases ws with
  | nil => exact hrest
  | cons c ws =>
    have hc := h c List.mem_cons_self
    simp only [isSpace, Bool.or_eq_true, decide_eq_true_eq] at hc
    rcases hc with ((rfl | rfl) | rfl) | rfl <;> exact .cons (by decide) (by decide) _

/-! ## Texts -/

/-- A hexadecimal digit, in lower or upper case, and its value. -/
def HexDigit (c : Char) (n : ℕ) : Prop :=
  n < 16 ∧ (c = Nat.digitChar n ∨ c = (Nat.digitChar n).toUpper)

/-- Four hexadecimal digits. -/
inductive Hex4 : Str → ℕ → Prop where
  | mk {a b c d : Char} {w x y z : ℕ} (ha : HexDigit a w) (hb : HexDigit b x)
      (hc : HexDigit c y) (hd : HexDigit d z) :
      Hex4 [a, b, c, d] (((w * 16 + x) * 16 + y) * 16 + z)

/-- The escapes of one letter, each with the character it stands for. -/
def escapes : List (Char × Char) :=
  [('"', '"'), ('\\', '\\'), ('/', '/'), ('b', '\x08'), ('f', '\x0c'), ('n', '\n'), ('r', '\r'),
    ('t', '\t')]

/-- The text between the quotes of a string, and the characters it stands for. A `\u` escape is a
character, or two are, a high and a low surrogate. -/
inductive Chars : Str → List Char → Prop where
  | nil : Chars [] []
  | plain {c : Char} {cs : Str} {s : List Char} (hcontrol : 0x20 ≤ c.toNat) (hquote : c ≠ '"')
      (hslash : c ≠ '\\') (h : Chars cs s) : Chars (utf8 [c] ++ cs) (c :: s)
  | escape {e c : Char} {cs : Str} {s : List Char} (he : (e, c) ∈ escapes) (h : Chars cs s) :
      Chars ('\\' :: e :: cs) (c :: s)
  | unicode {hex cs : Str} {c : Char} {s : List Char} (hc : Hex4 hex c.toNat) (h : Chars cs s) :
      Chars ('\\' :: 'u' :: (hex ++ cs)) (c :: s)
  | surrogates {hex hex' cs : Str} {n m : ℕ} {c : Char} {s : List Char}
      (hn : Hex4 hex (0xD800 + n)) (hm : Hex4 hex' (0xDC00 + m)) (hhigh : n < 0x400)
      (hlow : m < 0x400) (hc : c.toNat = 0x10000 + n * 0x400 + m) (h : Chars cs s) :
      Chars ('\\' :: 'u' :: (hex ++ '\\' :: 'u' :: (hex' ++ cs))) (c :: s)

/-- The most characters a string value holds. -/
def maxStringLength : ℕ := maxInt.toNat - 4 - 1

/-- The elements of an array, each the text of a value as `P` has it. -/
inductive Elements (P : Str → Value → Prop) : Str → List Value → Prop where
  | one {a t b : Str} {v : Value} (ha : Blank a) (h : P t v) (hb : Blank b) :
      Elements P (a ++ (t ++ b)) [v]
  | cons {a t b text : Str} {v : Value} {vs : List Value} (ha : Blank a) (h : P t v)
      (hb : Blank b) (hs : Elements P text vs) :
      Elements P (a ++ (t ++ (b ++ ',' :: text))) (v :: vs)

/-- A member's name, up to and with the colon. -/
inductive Name : Str → Str → Prop where
  | mk {a body b : Str} {name : List Char} (ha : Blank a) (hbody : Chars body name)
      (hlength : (utf8 name).length < 2 ^ 30) (hb : Blank b) :
      Name (a ++ '"' :: (body ++ '"' :: (b ++ [':']))) (utf8 name)

/-- The members of an object in the order of the text. -/
inductive Members (P : Str → Value → Prop) : Str → List (Str × Value) → Prop where
  | one {k a t b name : Str} {v : Value} (hk : Name k name) (ha : Blank a) (h : P t v)
      (hb : Blank b) : Members P (k ++ (a ++ (t ++ b))) [(name, v)]
  | cons {k a t b name text : Str} {v : Value} {ms : List (Str × Value)} (hk : Name k name)
      (ha : Blank a) (h : P t v) (hb : Blank b) (hs : Members P text ms) :
      Members P (k ++ (a ++ (t ++ (b ++ ',' :: text)))) ((name, v) :: ms)

/-- A value whose parts are as `P` has them. Of two members of one name the later counts. -/
inductive Node (P : Str → Value → Prop) : Str → Value → Prop where
  | null : Node P "null".toList .null
  | boolTrue : Node P "true".toList (.boolean .true)
  | boolFalse : Node P "false".toList (.boolean .false)
  | number (n : Numeral) {v : Value} (hv : n.StandsFor v) : Node P n.text v
  | string {body : Str} {s : List Char} (h : Chars body s)
      (hlength : (utf8 s).length ≤ maxStringLength) :
      Node P ('"' :: (body ++ ['"'])) (.string (utf8 s))
  | emptyArray {ws : Str} (hws : Blank ws) : Node P ('[' :: (ws ++ [']'])) (.array [])
  | array {text : Str} {vs : List Value} (h : Elements P text vs) :
      Node P ('[' :: (text ++ [']'])) (.array vs)
  | emptyObject {ws : Str} (hws : Blank ws) : Node P ('{' :: (ws ++ ['}'])) (.object [])
  | object {text : Str} {ms : List (Str × Value)} (h : Members P text ms) :
      Node P ('{' :: (text ++ ['}'])) (.object (ObjectValues.putAll [] ms))

/-- The text of `v`, nested at most `depth` deep and without blanks around it. -/
def Denotes : ℕ → Str → Value → Prop
  | 0 => fun _ _ => False
  | depth + 1 => Node (Denotes depth)

/-! ## Tokens -/

/-- A token is what the scanner takes behind the blanks. -/
theorem readToken_eq {ws t r : Str} {c : Char} {type : TokenType} (hws : Blank ws)
    (hc : isSpace c = false) (hscan : scan c (t ++ r) = (type, r)) :
    readToken (ws ++ c :: (t ++ r)) = (⟨type, c :: t⟩, r) := by
  unfold readToken
  rw [skipSpaces_append hws, skipSpaces_cons hc]
  simp [hscan]

theorem skipCommentTokens_eq {ws t r : Str} {c : Char} {type : TokenType} (hws : Blank ws)
    (hc : isSpace c = false) (hscan : scan c (t ++ r) = (type, r)) (htype : type ≠ .comment) :
    skipCommentTokens (ws ++ c :: (t ++ r)) = (⟨type, c :: t⟩, r) := by
  have htoken := readToken_eq hws hc hscan
  unfold skipCommentTokens
  generalize hlength : (ws ++ c :: (t ++ r)).length = fuel
  cases fuel with
  | zero => exact htoken
  | succ fuel =>
    rw [skipCommentTokens.go, htoken]
    exact if_neg htype

theorem isSpace_of_isDigit {c : Char} (h : isDigit c = true) : isSpace c = false := by
  have hne : ∀ d, isDigit d = false → c ≠ d := fun d hd => Numeral.isDigit_ne h hd
  simp [isSpace, hne ' ' (by decide), hne '\t' (by decide), hne '\r' (by decide),
    hne '\n' (by decide)]

theorem scan_isDigit {c : Char} (h : isDigit c = true) (cs : Str) :
    scan c cs = (.number, readNumber cs) := by
  have hne : ∀ d, isDigit d = false → c ≠ d := fun d hd => Numeral.isDigit_ne h hd
  unfold scan
  split <;> first
    | exact absurd rfl (hne _ (by decide))
    | simp [h]

/-! ### Numbers -/

theorem skipExponent_expText (x : Option Exponent) {rest : Str} (hrest : Boundary rest) :
    skipExponent (Numeral.expText x ++ rest) = rest := by
  cases x with
  | none =>
    simp only [Numeral.expText, List.nil_append]
    unfold skipExponent
    split <;> first
      | exact absurd rfl (hrest _ rfl).2.2.1
      | exact absurd rfl (hrest _ rfl).2.2.2
      | rfl
  | some x =>
    obtain ⟨mark, sign, digits, hmark, hne, hdigits⟩ := x
    have hdrop := Numeral.dropWhile_isDigit hdigits fun c hc => (hrest c hc).1
    obtain ⟨d, ds, rfl⟩ := List.exists_cons_of_ne_nil hne
    have hplus : d ≠ '+' := Numeral.isDigit_ne (hdigits d List.mem_cons_self) (by decide)
    have hminus : d ≠ '-' := Numeral.isDigit_ne (hdigits d List.mem_cons_self) (by decide)
    rw [List.cons_append] at hdrop
    rcases sign with _ | _ | _
    · have hskip : skipExponent (mark :: d :: (ds ++ rest)) =
          (d :: (ds ++ rest)).dropWhile isDigit := by
        rcases hmark with rfl | rfl <;> simp [skipExponent, hplus, hminus]
      simpa [Numeral.expText, Exponent.text, Exponent.signText] using hskip.trans hdrop
    · have hskip : skipExponent (mark :: '+' :: d :: (ds ++ rest)) =
          (d :: (ds ++ rest)).dropWhile isDigit := by
        rcases hmark with rfl | rfl <;> simp [skipExponent]
      simpa [Numeral.expText, Exponent.text, Exponent.signText] using hskip.trans hdrop
    · have hskip : skipExponent (mark :: '-' :: d :: (ds ++ rest)) =
          (d :: (ds ++ rest)).dropWhile isDigit := by
        rcases hmark with rfl | rfl <;> simp [skipExponent]
      simpa [Numeral.expText, Exponent.text, Exponent.signText] using hskip.trans hdrop

/-- What follows the digits of a whole number is no digit. -/
theorem tail_head (x : Option Exponent) {rest : Str} (hrest : Boundary rest) :
    ∀ c ∈ (Numeral.expText x ++ rest).head?, isDigit c = false ∧ c ≠ '.' := by
  intro c hc
  cases x with
  | none => exact ⟨(hrest c hc).1, (hrest c hc).2.1⟩
  | some x =>
    obtain rfl : x.mark = c := by simpa [Numeral.expText, Exponent.text] using hc
    rcases x.mark_eq with h | h <;> rw [h] <;> decide

theorem readNumber_eq (frac : Str) (x : Option Exponent) {digits rest : Str}
    (hdigits : ∀ c ∈ digits, isDigit c = true) (hfrac : ∀ c ∈ frac, isDigit c = true)
    (hrest : Boundary rest) :
    readNumber (digits ++ (Numeral.fracText frac ++ Numeral.expText x) ++ rest) = rest := by
  have htail := tail_head x hrest
  unfold readNumber
  rw [List.append_assoc, Numeral.dropWhile_isDigit hdigits, List.append_assoc]
  · by_cases h : frac = []
    · have hskip : skipFraction (Numeral.expText x ++ rest) = Numeral.expText x ++ rest := by
        unfold skipFraction
        split
        · rename_i h
          exact absurd rfl (htail '.' (by rw [h]; rfl)).2
        · rfl
      rw [Numeral.fracText, if_pos h, List.nil_append, hskip, skipExponent_expText x hrest]
    · rw [Numeral.fracText, if_neg h, List.cons_append, skipFraction,
        Numeral.dropWhile_isDigit hfrac fun c hc => (htail c hc).1, skipExponent_expText x hrest]
  · intro c hc
    by_cases h : frac = []
    · rw [Numeral.fracText, if_pos h, List.nil_append] at hc
      exact (htail c hc).1
    · rw [Numeral.fracText, if_neg h] at hc
      obtain rfl : '.' = c := by simpa using hc
      decide

theorem scan_numeral (n : Numeral) {rest : Str} (hrest : Boundary rest) :
    ∃ c cs, n.text = c :: cs ∧ isSpace c = false ∧ c ≠ ']' ∧
      scan c (cs ++ rest) = (.number, rest) := by
  obtain ⟨neg, whole, frac, x, hne, hwhole, hfrac⟩ := n
  cases neg with
  | true =>
    refine ⟨'-', _, rfl, by decide, by decide, ?_⟩
    exact congrArg (Prod.mk TokenType.number) (readNumber_eq frac x hwhole hfrac hrest)
  | false =>
    obtain ⟨d, ds, rfl⟩ := List.exists_cons_of_ne_nil hne
    have hd := hwhole d List.mem_cons_self
    have hds : ∀ c ∈ ds, isDigit c = true := fun c hc => hwhole c (List.mem_cons_of_mem d hc)
    refine ⟨d, _, rfl, isSpace_of_isDigit hd, Numeral.isDigit_ne hd (by decide), ?_⟩
    rw [scan_isDigit hd]
    exact congrArg (Prod.mk TokenType.number) (readNumber_eq frac x hds hfrac hrest)

/-! ### Strings -/

/-- The digits of the reader are those of the grammar. -/
theorem hexDigit_eq_some_iff {c : Char} {n : ℕ} : hexDigit c = some n ↔ HexDigit c n := by
  constructor
  · intro h
    have hrange : ∀ {a b : Char}, a ≤ c ∧ c ≤ b → a.toNat ≤ c.toNat ∧ c.toNat ≤ b.toNat :=
      fun h => ⟨h.1, h.2⟩
    have hc : c = Char.ofNat c.toNat := (Char.ofNat_toNat c).symm
    unfold hexDigit at h
    split_ifs at h with h₁ h₂ h₃
    · obtain ⟨hlow, hhigh⟩ := hrange h₁
      obtain rfl := Option.some.inj h
      generalize c.toNat = m at *
      rw [hc]
      change 48 ≤ m at hlow
      change m ≤ 57 at hhigh
      interval_cases m <;> exact ⟨by decide, by decide⟩
    · obtain ⟨hlow, hhigh⟩ := hrange h₂
      obtain rfl := Option.some.inj h
      generalize c.toNat = m at *
      rw [hc]
      change 97 ≤ m at hlow
      change m ≤ 102 at hhigh
      interval_cases m <;> exact ⟨by decide, by decide⟩
    · obtain ⟨hlow, hhigh⟩ := hrange h₃
      obtain rfl := Option.some.inj h
      generalize c.toNat = m at *
      rw [hc]
      change 65 ≤ m at hlow
      change m ≤ 70 at hhigh
      interval_cases m <;> exact ⟨by decide, by decide⟩
  · intro h
    obtain ⟨hn, rfl | rfl⟩ := h <;> interval_cases n <;> decide

theorem HexDigit.plain {c : Char} {n : ℕ} (h : HexDigit c n) : c ≠ '"' ∧ c ≠ '\\' := by
  obtain ⟨hn, rfl | rfl⟩ := h <;> interval_cases n <;> decide

/-- So are the escapes. -/
theorem escape_of_mem {e c : Char} (h : (e, c) ∈ escapes) : Reader.escape e = some c ∧ e ≠ 'u' := by
  simp only [escapes, List.mem_cons, Prod.mk.injEq, List.not_mem_nil, or_false] at h
  rcases h with h | h | h | h | h | h | h | h <;> (obtain ⟨rfl, rfl⟩ := h; decide)

theorem utf8_escape {e c : Char} (h : (e, c) ∈ escapes) : utf8 [c] = [c] := by
  simp only [escapes, List.mem_cons, Prod.mk.injEq, List.not_mem_nil, or_false] at h
  rcases h with h | h | h | h | h | h | h | h <;> (obtain ⟨-, rfl⟩ := h; exact utf8_ascii (by decide))

/-- No byte of a character is taken for a quote or a backslash that it is not. -/
theorem utf8_plain {c : Char} (hquote : c ≠ '"') (hslash : c ≠ '\\') :
    ∀ b ∈ utf8 [c], b ≠ '"' ∧ b ≠ '\\' := by
  intro b hb
  refine ⟨?_, ?_⟩ <;> rintro rfl
  · exact hquote (utf8_of_mem hb (by decide))
  · exact hslash (utf8_of_mem hb (by decide))

theorem readString_plain {bytes : Str} (h : ∀ b ∈ bytes, b ≠ '"' ∧ b ≠ '\\') (cs : Str) :
    readString (bytes ++ cs) = readString cs := by
  induction bytes with
  | nil => rfl
  | cons b bytes ih =>
    rw [List.forall_mem_cons] at h
    rw [List.cons_append, readString, ih h.2]
    · exact h.1.1
    · exact fun d ds heq => absurd heq h.1.2

theorem readString_hex4 {hex : Str} {n : ℕ} (h : Hex4 hex n) (cs : Str) :
    readString (hex ++ cs) = readString cs := by
  obtain ⟨ha, hb, hc, hd⟩ := h
  apply readString_plain
  simp only [List.forall_mem_cons, List.not_mem_nil, IsEmpty.forall_iff, implies_true, and_true]
  exact ⟨ha.plain, hb.plain, hc.plain, hd.plain⟩

/-- The scanner takes a string to its closing quote and no further. -/
theorem readString_eq {body : Str} {s : List Char} (h : Chars body s) (rest : Str) :
    readString (body ++ '"' :: rest) = (true, rest) := by
  induction h with
  | nil => rfl
  | plain _ hquote hslash _ ih =>
    rw [List.append_assoc, readString_plain (utf8_plain hquote hslash), ih]
  | escape he _ ih => exact ih
  | unicode hc _ ih =>
    rw [List.cons_append, List.cons_append, readString, List.append_assoc, readString_hex4 hc, ih]
  | surrogates hn hm _ _ _ _ ih =>
    rw [List.cons_append, List.cons_append, readString, List.append_assoc, readString_hex4 hn,
      List.cons_append, List.cons_append, readString, List.append_assoc, readString_hex4 hm, ih]

theorem decodeUnicodeEscapeSequence_hex4 {hex : Str} {n : ℕ} (h : Hex4 hex n) (cs : Str) :
    decodeUnicodeEscapeSequence (hex ++ cs) = some (n, cs) := by
  obtain ⟨ha, hb, hc, hd⟩ := h
  rw [← hexDigit_eq_some_iff] at ha hb hc hd
  simp [decodeUnicodeEscapeSequence, ha, hb, hc, hd]

/-- Bytes that are no quote and no backslash are decoded to themselves. -/
theorem decodeChars_plain {bytes cs s : Str} (h : ∀ b ∈ bytes, b ≠ '"' ∧ b ≠ '\\')
    (hcs : ∀ fuel, cs.length ≤ fuel → decodeChars fuel cs = some s) {fuel : ℕ}
    (hfuel : (bytes ++ cs).length ≤ fuel) : decodeChars fuel (bytes ++ cs) = some (bytes ++ s) := by
  induction bytes generalizing fuel with
  | nil => exact hcs fuel hfuel
  | cons b bytes ih =>
    rw [List.forall_mem_cons] at h
    obtain ⟨⟨hquote, hslash⟩, hbytes⟩ := h
    obtain ⟨fuel, rfl⟩ := Nat.exists_eq_add_one.2 ((Nat.succ_pos _).trans_le hfuel)
    rw [List.cons_append, decodeChars, ih hbytes (Nat.le_of_succ_le_succ hfuel)]
    · rfl
    · exact hquote
    · exact fun h => absurd h hslash
    · exact fun cs h => absurd h hslash
    · exact fun e cs h => absurd h hslash

/-- A body is decoded to the characters it stands for. -/
theorem decodeChars_eq {body : Str} {s : List Char} (h : Chars body s) {fuel : ℕ}
    (hfuel : body.length ≤ fuel) : decodeChars fuel body = some (utf8 s) := by
  induction h generalizing fuel with
  | nil => cases fuel <;> rfl
  | @plain c cs s _ hquote hslash _ ih =>
    rw [utf8_cons c s]
    exact decodeChars_plain (utf8_plain hquote hslash) (fun _ h => ih h) hfuel
  | @escape e c cs s he _ ih =>
    obtain ⟨fuel, rfl⟩ := Nat.exists_eq_add_one.2 ((Nat.succ_pos _).trans_le hfuel)
    obtain ⟨hescape, hu⟩ := escape_of_mem he
    rw [decodeChars, hescape, ih (by simp only [List.length_cons] at hfuel; omega)]
    · rw [utf8_cons, utf8_escape he]
      rfl
    · exact hu
  | @unicode hex cs c s hc _ ih =>
    obtain ⟨fuel, rfl⟩ := Nat.exists_eq_add_one.2 ((Nat.succ_pos _).trans_le hfuel)
    have hlength : cs.length ≤ fuel := by
      simp only [List.length_cons, List.length_append] at hfuel
      omega
    -- A character is no surrogate, so the reader looks for no second escape.
    have hsurrogate : ¬(0xD800 ≤ c.toNat ∧ c.toNat ≤ 0xDBFF) := by
      rcases c.valid with h | h
      · exact fun hs => absurd (show c.toNat < 0xD800 from h) (by omega)
      · exact fun hs => absurd (show 0xDFFF < c.toNat from h.1) (by omega)
    rw [decodeChars, decodeUnicodeCodePoint, decodeUnicodeEscapeSequence_hex4 hc]
    simp [hsurrogate, ih hlength, codePointToUTF8_toNat, utf8_cons c s]
  | @surrogates hex hex' cs n m c s hn hm hhigh hlow hc _ ih =>
    obtain ⟨fuel, rfl⟩ := Nat.exists_eq_add_one.2 ((Nat.succ_pos _).trans_le hfuel)
    have hlength : cs.length ≤ fuel := by
      simp only [List.length_cons, List.length_append] at hfuel
      omega
    -- The reader puts the ten low bits of the two surrogates together.
    have hpair : 0xD800 ≤ 0xD800 + n ∧ 0xD800 + n ≤ 0xDBFF := by omega
    have hcode : 0x10000 + (((0xD800 + n) &&& 0x3FF) <<< 10) + ((0xDC00 + m) &&& 0x3FF) =
        c.toNat := by
      rw [Nat.and_two_pow_sub_one_eq_mod _ 10, Nat.and_two_pow_sub_one_eq_mod _ 10,
        Nat.shiftLeft_eq, hc]
      omega
    rw [decodeChars, decodeUnicodeCodePoint, decodeUnicodeEscapeSequence_hex4 hn]
    simp only [Option.bind_eq_bind, Option.bind_some, if_pos hpair,
      decodeUnicodeEscapeSequence_hex4 hm, hcode, ih hlength, codePointToUTF8_toNat, pure]
    rw [utf8_cons c s]

/-- ASCII without control characters is a body, but for the two characters that are escaped. -/
theorem chars_plain {s : Str}
    (h : ∀ c ∈ s, (c ≠ '"' ∧ c ≠ '\\') ∧ 0x20 ≤ c.toNat ∧ c.toNat < 0x80) : Chars s s := by
  induction s with
  | nil => exact .nil
  | cons c cs ih =>
    rw [List.forall_mem_cons] at h
    obtain ⟨⟨⟨hquote, hslash⟩, hcontrol, hascii⟩, hcs⟩ := h
    have hplain := Chars.plain hcontrol hquote hslash (ih hcs)
    rwa [utf8_ascii hascii] at hplain

theorem decodeString_eq {body : Str} {s : List Char} (h : Chars body s) :
    decodeString ('"' :: (body ++ ['"'])) = .ok (utf8 s) := by
  unfold decodeString
  simp only [List.tail_cons, List.dropLast_concat]
  rw [decodeChars_eq h le_rfl]

theorem valueOfString_eq {s : Str} (h : s.length ≤ maxStringLength) :
    valueOfString s = .ok (.string s) := by
  have hmod : s.length % 2 ^ 32 = s.length := by
    apply Nat.mod_eq_of_lt
    unfold maxStringLength maxInt at h
    omega
  unfold valueOfString
  simp only [hmod, List.take_length]
  exact if_pos h

theorem skipCommentTokens_string {ws body : Str} {s : List Char} (hws : Blank ws) (h : Chars body s)
    (rest : Str) :
    skipCommentTokens (ws ++ '"' :: (body ++ '"' :: rest)) =
      (⟨.string, '"' :: (body ++ ['"'])⟩, rest) := by
  have hscan : scan '"' ((body ++ ['"']) ++ rest) = (.string, rest) := by
    have hread := readString_eq h rest
    simp [scan, hread]
  have htoken := skipCommentTokens_eq hws (by decide) hscan (by decide)
  rwa [List.append_assoc] at htoken

/-- A token of one character. -/
theorem skipCommentTokens_char {ws : Str} {c : Char} {type : TokenType} (hws : Blank ws)
    (hc : isSpace c = false) (rest : Str) (hscan : scan c rest = (type, rest))
    (htype : type ≠ .comment) : skipCommentTokens (ws ++ c :: rest) = (⟨type, [c]⟩, rest) :=
  skipCommentTokens_eq (t := []) hws hc hscan htype

theorem readToken_char {ws : Str} {c : Char} {type : TokenType} (hws : Blank ws)
    (hc : isSpace c = false) (rest : Str) (hscan : scan c rest = (type, rest)) :
    readToken (ws ++ c :: rest) = (⟨type, [c]⟩, rest) :=
  readToken_eq (t := []) hws hc hscan

/-! ## Values -/

/-- What the reader makes of the texts of `P`, at a stack of `nodes` values. -/
def Reads (P : Str → Value → Prop) (nodes : ℕ) : Prop :=
  ∀ t v ws rest fuel, P t v → Blank ws → Boundary rest →
    2 * (ws ++ (t ++ rest)).length + 1 ≤ fuel →
    readValue fuel nodes (ws ++ (t ++ rest)) = .ok (v, rest)

theorem boundary_comma (rest : Str) : Boundary (',' :: rest) := .cons (by decide) (by decide) rest

theorem boundary_bracket (rest : Str) : Boundary (']' :: rest) :=
  .cons (by decide) (by decide) rest

theorem boundary_brace (rest : Str) : Boundary ('}' :: rest) := .cons (by decide) (by decide) rest

theorem readArray_eq {P : Str → Value → Prop} {nodes : ℕ} (hP : Reads P (nodes + 1)) {text : Str}
    {vs : List Value} (h : Elements P text vs) (items : List Value) (rest : Str) {fuel : ℕ}
    (hfuel : 2 * (text ++ ']' :: rest).length + 2 ≤ fuel) :
    readArray fuel nodes items (text ++ ']' :: rest) = .ok (.array (items ++ vs), rest) := by
  induction h generalizing items fuel with
  | @one a t b v ha ht hb =>
    obtain ⟨fuel, rfl⟩ := Nat.exists_eq_add_one.2 ((Nat.succ_pos _).trans_le hfuel)
    have hvalue := hP t v a (b ++ ']' :: rest) fuel ht ha
      (.of_blank hb (boundary_bracket rest)) (by simp at hfuel ⊢; omega)
    have htoken := skipCommentTokens_char hb (c := ']') (by decide) rest rfl (by decide)
    simp only [List.append_assoc, readArray, hvalue]
    simp [bind, Except.bind, htoken]
  | @cons a t b text v vs ha ht hb _ ih =>
    obtain ⟨fuel, rfl⟩ := Nat.exists_eq_add_one.2 ((Nat.succ_pos _).trans_le hfuel)
    have hvalue := hP t v a (b ++ ',' :: (text ++ ']' :: rest)) fuel ht ha
      (.of_blank hb (boundary_comma _)) (by simp at hfuel ⊢; omega)
    have htoken := skipCommentTokens_char hb (c := ',') (by decide) (text ++ ']' :: rest) rfl
      (by decide)
    have hlength : 2 * (text ++ ']' :: rest).length + 2 ≤ fuel := by simp at hfuel ⊢; omega
    have hrest := ih (items ++ [v]) hlength
    simp only [List.append_assoc, List.cons_append, readArray, hvalue]
    simp only [bind, Except.bind, htoken, hrest, List.append_assoc, List.cons_append,
      List.nil_append]

theorem readObject_name {k name : Str} (hk : Name k name) (rest : Str) :
    ∃ text, skipCommentTokens (k ++ rest) = (⟨.string, text⟩, (skipCommentTokens (k ++ rest)).2) ∧
      decodeString text = .ok name ∧ name.length < 2 ^ 30 ∧
      readToken (skipCommentTokens (k ++ rest)).2 = (⟨.memberSeparator, [':']⟩, rest) := by
  obtain ⟨ha, hbody, hlength, hb⟩ := hk
  rename_i a body b name
  have htoken := skipCommentTokens_string ha hbody (b ++ ':' :: rest)
  have heq : (a ++ '"' :: (body ++ '"' :: (b ++ [':']))) ++ rest =
      a ++ '"' :: (body ++ '"' :: (b ++ ':' :: rest)) := by simp
  rw [heq, htoken]
  exact ⟨_, rfl, decodeString_eq hbody, hlength, readToken_char hb (by decide) rest rfl⟩

theorem readObject_eq {P : Str → Value → Prop} {nodes : ℕ} (hP : Reads P (nodes + 1)) {text : Str}
    {ms : List (Str × Value)} (h : Members P text ms) (name : Str) (members : ObjectValues)
    (rest : Str) {fuel : ℕ} (hfuel : 2 * (text ++ '}' :: rest).length + 1 ≤ fuel) :
    readObject fuel nodes name members (text ++ '}' :: rest) =
      .ok (.object (members.putAll ms), rest) := by
  induction h generalizing name members fuel with
  | @one k a t b name' v hk ha ht hb =>
    obtain ⟨fuel, rfl⟩ := Nat.exists_eq_add_one.2 ((Nat.succ_pos _).trans_le hfuel)
    obtain ⟨token, htoken, hname, hlength, hcolon⟩ :=
      readObject_name hk (a ++ (t ++ (b ++ '}' :: rest)))
    -- A name takes room in the text, and so its value is read with fuel to spare.
    have hk0 : 0 < k.length := by
      obtain ⟨-, -, -, -⟩ := hk
      simp
    have hvalue := hP t v a (b ++ '}' :: rest) fuel ht ha
      (.of_blank hb (boundary_brace rest)) (by simp at hfuel ⊢; omega)
    have hcomma := readToken_char hb (c := '}') (by decide) rest rfl
    simp only [List.append_assoc, readObject]
    rw [htoken]
    simp [bind, Except.bind, hname, hcolon, hvalue, hcomma, cZString_eq hlength,
      ObjectValues.putAll]
  | @cons k a t b name' text v ms hk ha ht hb _ ih =>
    obtain ⟨fuel, rfl⟩ := Nat.exists_eq_add_one.2 ((Nat.succ_pos _).trans_le hfuel)
    obtain ⟨token, htoken, hname, hlength, hcolon⟩ :=
      readObject_name hk (a ++ (t ++ (b ++ ',' :: (text ++ '}' :: rest))))
    have hvalue := hP t v a (b ++ ',' :: (text ++ '}' :: rest)) fuel ht ha
      (.of_blank hb (boundary_comma _)) (by
        have hk0 : 0 < k.length := by
          obtain ⟨-, -, -, -⟩ := hk
          simp
        simp at hfuel ⊢
        omega)
    have hcomma := readToken_char hb (c := ',') (by decide) (text ++ '}' :: rest) rfl
    have hlength' : 2 * (text ++ '}' :: rest).length + 1 ≤ fuel := by simp at hfuel ⊢; omega
    have hrest := ih name' (members.put name' v) hlength'
    simp only [List.append_assoc, List.cons_append, readObject]
    rw [htoken]
    simp [bind, Except.bind, hname, hcolon, hvalue, hcomma, cZString_eq hlength, hrest,
      ObjectValues.putAll]

/-- The first character of a value is none of those the reader treats apart. -/
def Starts (P : Str → Value → Prop) : Prop :=
  ∀ t v, P t v → ∃ c cs, t = c :: cs ∧ isSpace c = false ∧ c ≠ ']'

theorem Node.starts {P : Str → Value → Prop} {t : Str} {v : Value} (h : Node P t v) :
    ∃ c cs, t = c :: cs ∧ isSpace c = false ∧ c ≠ ']' := by
  cases h with
  | number n =>
    obtain ⟨c, cs, htext, hc, hne, -⟩ := scan_numeral n Boundary.nil
    exact ⟨c, cs, htext, hc, hne⟩
  | _ => exact ⟨_, _, rfl, by decide, by decide⟩

/-- `readValue` skips the blanks of a non-empty array before it enters the loop. -/
theorem Elements.skipSpaces {P : Str → Value → Prop} (hP : Starts P) {text : Str} {vs : List Value}
    (h : Elements P text vs) (rest : Str) : ∃ c cs, c ≠ ']' ∧ Elements P (c :: cs) vs ∧
      Reader.skipSpaces (text ++ rest) = (c :: cs) ++ rest ∧ (c :: cs).length ≤ text.length := by
  cases h with
  | @one a t b v ha ht hb =>
    obtain ⟨c, cs, rfl, hc, hne⟩ := hP t v ht
    refine ⟨c, cs ++ b, hne, ?_, ?_, by simp⟩
    · exact Elements.one .nil ht hb
    · rw [List.append_assoc, skipSpaces_append ha]
      exact skipSpaces_cons hc _
  | @cons a t b text v vs ha ht hb hs =>
    obtain ⟨c, cs, rfl, hc, hne⟩ := hP t v ht
    refine ⟨c, cs ++ (b ++ ',' :: text), hne, ?_, ?_, by simp⟩
    · exact Elements.cons .nil ht hb hs
    · rw [List.append_assoc, skipSpaces_append ha]
      exact skipSpaces_cons hc _

/-- One level: what the reader makes of a value, when it reads its parts. -/
theorem Node.reads {P : Str → Value → Prop} {nodes : ℕ} (hstarts : Starts P)
    (hP : Reads P (nodes + 1)) (hnodes : nodes ≤ stackLimit) : Reads (Node P) nodes := by
  intro t v ws rest fuel h hws hrest hfuel
  obtain ⟨fuel, rfl⟩ := Nat.exists_eq_add_one.2 ((Nat.succ_pos _).trans_le hfuel)
  rw [readValue, if_neg (Nat.not_lt.2 hnodes)]
  cases h with
  | null =>
    have htoken := skipCommentTokens_eq (c := 'n') (t := "ull".toList) (r := rest) hws
      (by decide) rfl (by decide)
    have htext : ws ++ ("null".toList ++ rest) = ws ++ 'n' :: ("ull".toList ++ rest) := rfl
    rw [htext, htoken]
  | boolTrue =>
    have htoken := skipCommentTokens_eq (c := 't') (t := "rue".toList) (r := rest) hws
      (by decide) rfl (by decide)
    have htext : ws ++ ("true".toList ++ rest) = ws ++ 't' :: ("rue".toList ++ rest) := rfl
    rw [htext, htoken]
  | boolFalse =>
    have htoken := skipCommentTokens_eq (c := 'f') (t := "alse".toList) (r := rest) hws
      (by decide) rfl (by decide)
    have htext : ws ++ ("false".toList ++ rest) = ws ++ 'f' :: ("alse".toList ++ rest) := rfl
    rw [htext, htoken]
  | number n hv =>
    obtain ⟨c, cs, htext, hc, -, hscan⟩ := scan_numeral n hrest
    have hread := decodeNumber_text hv
    rw [htext] at hread ⊢
    rw [List.cons_append, skipCommentTokens_eq hws hc hscan (by decide)]
    simp [hread, bind, Except.bind, pure, Except.pure]
  | @string body s hbody hlength =>
    have htoken := skipCommentTokens_string hws hbody rest
    have htext : ws ++ ('"' :: (body ++ ['"']) ++ rest) = ws ++ '"' :: (body ++ '"' :: rest) := by
      simp
    rw [htext, htoken]
    simp [decodeString_eq hbody, valueOfString_eq hlength, bind, Except.bind, pure, Except.pure]
  | @emptyArray blank hblank =>
    have htoken := skipCommentTokens_char (c := '[') hws (by decide) (blank ++ ']' :: rest) rfl
      (by decide)
    have hskip : skipSpaces (blank ++ ']' :: rest) = ']' :: rest := by
      rw [skipSpaces_append hblank, skipSpaces_cons (by decide)]
    have htext : ws ++ ('[' :: (blank ++ [']']) ++ rest) = ws ++ '[' :: (blank ++ ']' :: rest) := by
      simp
    simp only [htext, htoken, hskip]
  | @array text vs helements =>
    have htoken := skipCommentTokens_char (c := '[') hws (by decide) (text ++ ']' :: rest) rfl
      (by decide)
    -- The elements start with no closing bracket, so the array is not taken for an empty one.
    obtain ⟨c, cs, hne, helements, hskip, hle⟩ := helements.skipSpaces hstarts (']' :: rest)
    have hlength : 2 * (c :: cs ++ ']' :: rest).length + 2 ≤ fuel := by
      simp at hfuel hle ⊢
      omega
    have harray := readArray_eq hP helements [] rest hlength
    have htext : ws ++ ('[' :: (text ++ [']']) ++ rest) = ws ++ '[' :: (text ++ ']' :: rest) := by
      simp
    rw [List.cons_append] at hskip harray
    simp only [htext, htoken, hskip]
    split
    · rename_i h
      exact absurd (List.cons.inj h).1 hne
    · exact harray
  | @emptyObject blank hblank =>
    have htoken := skipCommentTokens_char (c := '{') hws (by decide) (blank ++ '}' :: rest) rfl
      (by decide)
    -- The loop of an object sees the closing brace in place of a name.
    have hclose := skipCommentTokens_char hblank (c := '}') (by decide) rest rfl (by decide)
    have htext : ws ++ ('{' :: (blank ++ ['}']) ++ rest) = ws ++ '{' :: (blank ++ '}' :: rest) := by
      simp
    obtain ⟨fuel, rfl⟩ := Nat.exists_eq_add_one.2 (show 0 < fuel by simp at hfuel; omega)
    simp only [htext, htoken, readObject, hclose]
    rfl
  | @object text ms hmembers =>
    have htoken := skipCommentTokens_char (c := '{') hws (by decide) (text ++ '}' :: rest) rfl
      (by decide)
    have hlength : 2 * (text ++ '}' :: rest).length + 1 ≤ fuel := by simp at hfuel ⊢; omega
    have hobject := readObject_eq hP hmembers [] [] rest hlength
    have htext : ws ++ ('{' :: (text ++ ['}']) ++ rest) = ws ++ '{' :: (text ++ '}' :: rest) := by
      simp
    simp only [htext, htoken, hobject]

theorem Denotes.reads (depth nodes : ℕ) (hnodes : nodes + depth ≤ stackLimit + 1) :
    Reads (Denotes depth) nodes := by
  induction depth generalizing nodes with
  | zero => exact fun t v ws rest fuel h => h.elim
  | succ depth ih =>
    have hstarts : Starts (Denotes depth) := by
      intro t v h
      cases depth with
      | zero => exact h.elim
      | succ depth => exact Node.starts h
    exact Node.reads hstarts (ih (nodes + 1) (by omega)) (by omega)

theorem parse_of_denotes {depth : ℕ} {ws t rest : Str} {v : Value} (hdepth : depth ≤ stackLimit)
    (h : Denotes depth t v) (hws : Blank ws) (hrest : Boundary rest) :
    parse (ws ++ (t ++ rest)) = .ok (some v) := by
  have hread := Denotes.reads depth 1 (by omega) t v ws rest _ h hws hrest le_rfl
  rw [parse, hread]

/-- **The reader is complete.** It reads every JSON text of an allowed depth as the value the text
stands for, which is the only one, and does not look at what comes after. -/
theorem parse_denotes {depth : ℕ} {ws t rest : Str} {v : Value} (hdepth : depth ≤ stackLimit)
    (h : Denotes depth t v) (hws : Blank ws) (hrest : Boundary rest) :
    parse (ws ++ (t ++ rest)) = .ok (some v) ∧
      ∀ depth' w, depth' ≤ stackLimit → Denotes depth' t w → w = v := by
  have hparse := parse_of_denotes hdepth h hws hrest
  refine ⟨hparse, fun depth' w hdepth' hw => ?_⟩
  rw [parse_of_denotes hdepth' hw hws hrest] at hparse
  exact Option.some.inj (Except.ok.inj hparse)

/-- `{"to": [7]}`, with blanks, and a comma too many behind it. -/
theorem parse_denotes_object :
    parse ([' '] ++ ("\x7b\"to\": [7\n]\x7d".toList ++ ",".toList)) =
        .ok (some (.object [("to".toList, .array [.int 7])])) ∧
      ∀ depth' w, depth' ≤ stackLimit → Denotes depth' "\x7b\"to\": [7\n]\x7d".toList w →
        w = .object [("to".toList, .array [.int 7])] := by
  have hblank : ∀ c, isSpace c = true → Blank [c] := fun c hc => List.forall_mem_singleton.2 hc
  have hseven : Denotes 1 ['7'] (.int 7) :=
    .number ⟨false, ['7'], [], none, by simp, by simp [isDigit], by simp⟩
      (.int rfl (by decide) (by decide))
  have harray : Denotes 2 "[7\n]".toList (.array [.int 7]) :=
    .array (.one .nil hseven (hblank '\n' (by decide)))
  have hto : utf8 "to".toList = "to".toList := by decide
  have hbody : Chars "to".toList "to".toList := chars_plain (by simp)
  have hlength : (utf8 "to".toList).length < 2 ^ 30 := by
    rw [hto]
    decide
  have hname := Name.mk .nil hbody hlength .nil
  rw [hto] at hname
  have hobject : Denotes 3 "\x7b\"to\": [7\n]\x7d".toList
      (.object [("to".toList, .array [.int 7])]) :=
    .object (.one hname (hblank ' ' (by decide)) harray .nil)
  exact parse_denotes (by decide) hobject (hblank ' ' (by decide)) (boundary_comma [])

end Reader

end WsSignalServer.Json
