import WsSignalServer.Json.Writer

/-!
# Round trips

`toStyledString` and `Reader::parse` on each other's results. A value is read back as it was, as
far as its strings are UTF-8; other bytes are repaired, and after one round trip there is nothing
left to repair. `Utf8Fits` says that a value is one the reader makes and that its strings are
UTF-8.

* `toStyledString_round_trip`: what is written is read as the repaired value.
* `parse_parse`: one round trip repairs what was read, and the next ones keep it.
* `repaired_eq`, `repaired_fits`: repair keeps UTF-8 and makes UTF-8.
* `Rewritable.fits`: whatever was read from a document of less than 2³⁰ / 3 bytes can be written
  and read back.
* `toStyledString_plain`: the text is ASCII with no control characters but tabs and line feeds, so
  it is a text frame whatever the value holds.
-/

namespace WsSignalServer.Json

open Reader

/-! ## Repair -/

theorem repairedArray_eq (vs : List Value) : Value.repairedArray vs = vs.map Value.repaired := by
  induction vs with
  | nil => rfl
  | cons v vs ih => rw [Value.repairedArray, ih, List.map_cons]

theorem repairedMembers_eq (ms : List (Str × Value)) :
    Value.repairedMembers ms = ms.map fun m => (repair m.1, m.2.repaired) := by
  induction ms with
  | nil => rfl
  | cons m ms ih => rw [Value.repairedMembers, ih, List.map_cons]

def Utf8Key (k : Str) : Prop := IsUtf8 k ∧ k.length < 2 ^ 30

def Utf8String (s : Str) : Prop := IsUtf8 s ∧ s.length ≤ maxStringLength

/-- A value the reader makes, with all its strings in UTF-8. -/
abbrev Utf8Fits : ℕ → Value → Prop := Value.Fits Utf8Key Utf8String

theorem Utf8Key.writable {k : Str} (h : Utf8Key k) : WritableKey k := by
  rw [WritableKey, repair_utf8 h.1]
  exact h.2

theorem Utf8String.writable {s : Str} (h : Utf8String s) : WritableString s := by
  rw [WritableString, repair_utf8 h.1]
  exact h.2

theorem Utf8Fits.writable {d : ℕ} {v : Value} (h : Utf8Fits d v) :
    v.Fits WritableKey WritableString d :=
  h.mono (fun _ => Utf8Key.writable) fun _ => Utf8String.writable

/-- Repair keeps what is UTF-8 already. -/
theorem repaired_eq {d : ℕ} {v : Value} (h : Utf8Fits d v) : v.repaired = v := by
  induction h with
  | string hs => rw [Value.repaired, repair_utf8 hs.1]
  | @array d vs _ ih =>
    rw [Value.repaired, repairedArray_eq, List.map_congr_left ih, List.map_id']
  | @object d ms hsorted hkeys _ ih =>
    have hmap : ms.map (fun m => (repair m.1, m.2.repaired)) = ms := by
      conv_rhs => rw [← List.map_id ms]
      apply List.map_congr_left
      intro m hm
      rw [repair_utf8 (hkeys m hm).1, ih m hm]
      rfl
    rw [Value.repaired, repairedMembers_eq, hmap, ObjectValues.putAll_sorted hsorted]
  | _ => rfl

/-- Only UTF-8 is kept: a value that repair leaves as it was holds no other string. -/
theorem utf8_of_repaired_eq {K S : Str → Prop} {d : ℕ} {v : Value} (h : v.Fits K S d)
    (hv : v.repaired = v) :
    v.Fits (fun k => IsUtf8 k ∧ K k) (fun s => IsUtf8 s ∧ S s) d := by
  induction h with
  | null => exact .null
  | int hmin hmax => exact .int hmin hmax
  | uint hmin hmax => exact .uint hmin hmax
  | real hx => exact .real hx
  | @string d s hs =>
    rw [Value.repaired] at hv
    exact .string ⟨repair_eq_self.1 (Value.string.inj hv), hs⟩
  | boolean => exact .boolean
  | @array d vs _ ih =>
    rw [Value.repaired, repairedArray_eq] at hv
    have hmap : vs.map Value.repaired = vs.map id := by rw [Value.array.inj hv, List.map_id]
    exact .array fun v hmem => ih v hmem (List.map_inj_left.1 hmap v hmem)
  | @object d ms hsorted hkeys _ ih =>
    rw [Value.repaired, repairedMembers_eq] at hv
    have hall := Value.object.inj hv
    have hutf8 : ∀ m ∈ ms, IsUtf8 m.1 := by
      intro m hm
      rw [← hall] at hm
      rcases ObjectValues.mem_putAll hm with hm | hm
      · obtain ⟨m', -, rfl⟩ := List.mem_map.1 hm
        exact repair_isUtf8 _
      · cases hm
    -- With its keys kept, the object is repaired member by member.
    have hplace : ms.map (fun m => (repair m.1, m.2.repaired)) =
        ms.map fun m => (m.1, m.2.repaired) := by
      apply List.map_congr_left
      intro m hm
      rw [repair_utf8 (hutf8 m hm)]
    have hsorted' : Sorted (ms.map fun m => (m.1, m.2.repaired)) := List.pairwise_map.2 hsorted
    rw [hplace, ObjectValues.putAll_sorted hsorted'] at hall
    have hmap : ms.map (fun m => (m.1, m.2.repaired)) = ms.map id := by rw [hall, List.map_id]
    refine .object hsorted (fun m hm => ⟨hutf8 m hm, hkeys m hm⟩) fun m hm => ?_
    exact ih m hm (Prod.ext_iff.1 (List.map_inj_left.1 hmap m hm)).2

/-- Of what the reader makes, repair keeps exactly the values with all their keys and strings in
UTF-8. -/
theorem repaired_eq_iff {document : Str} {v : Value} (h : parse document = .ok (some v)) :
    v.repaired = v ↔ Utf8Fits stackLimit v := by
  constructor
  · intro hv
    refine (utf8_of_repaired_eq (parse_wellFormed h) hv).mono (fun k hk => ?_) fun s hs => ?_
    · exact ⟨hk.1, hk.2.1⟩
    · exact ⟨hs.1, hs.2.1⟩
  · exact repaired_eq

/-- Under names in UTF-8 every member is repaired in its place. -/
theorem repaired_lookup {ms : ObjectValues} (hsorted : Sorted ms) (hkeys : ∀ m ∈ ms, IsUtf8 m.1) :
    ∃ ms', (Value.object ms).repaired = .object ms' ∧
      ∀ key, ms'.lookup key = (ms.lookup key).map Value.repaired := by
  have hmap : ms.map (fun m => (repair m.1, m.2.repaired)) =
      ms.map fun m => (m.1, m.2.repaired) := by
    apply List.map_congr_left
    intro m hm
    rw [repair_utf8 (hkeys m hm)]
  have hsorted' : Sorted (ms.map fun m => (m.1, m.2.repaired)) := List.pairwise_map.2 hsorted
  refine ⟨ms.map fun m => (m.1, m.2.repaired), ?_, fun key => ?_⟩
  · rw [Value.repaired, repairedMembers_eq, hmap, ObjectValues.putAll_sorted hsorted']
  · clear hsorted hkeys hmap hsorted'
    induction ms with
    | nil => rfl
    | cons m ms ih =>
      rw [List.map_cons, List.lookup_cons, List.lookup_cons, ih]
      split <;> rfl

/-- Whatever can be written is repaired to UTF-8. -/
theorem repaired_fits {d : ℕ} {v : Value} (h : v.Fits WritableKey WritableString d) :
    Utf8Fits d v.repaired := by
  induction h with
  | null => exact .null
  | int hmin hmax => exact .int hmin hmax
  | uint hmin hmax => exact .uint hmin hmax
  | real hx => exact .real hx
  | string hs => exact .string ⟨repair_isUtf8 _, hs⟩
  | boolean => exact .boolean
  | array _ ih =>
    rw [Value.repaired, repairedArray_eq]
    refine .array fun v hv => ?_
    obtain ⟨u, hu, rfl⟩ := List.mem_map.1 hv
    exact ih u hu
  | @object d ms hsorted hkeys _ ih =>
    rw [Value.repaired, repairedMembers_eq]
    have hmem : ∀ m ∈ ObjectValues.putAll [] (ms.map fun m => (repair m.1, m.2.repaired)),
        ∃ m' ∈ ms, m = (repair m'.1, m'.2.repaired) := by
      intro m hm
      rcases ObjectValues.mem_putAll hm with hm | hm
      · obtain ⟨m', hm', rfl⟩ := List.mem_map.1 hm
        exact ⟨m', hm', rfl⟩
      · cases hm
    refine .object (ObjectValues.sorted_putAll _ List.Pairwise.nil) (fun m hm => ?_) fun m hm => ?_
    · obtain ⟨m', hm', rfl⟩ := hmem m hm
      exact ⟨repair_isUtf8 _, hkeys m' hm'⟩
    · obtain ⟨m', hm', rfl⟩ := hmem m hm
      exact ih m' hm'

/-! ## Writing, then reading -/

/-- The writer's text as the grammar has it. -/
theorem toStyledString_denotes {d : ℕ} {v : Value} (h : v.Fits WritableKey WritableString d) :
    ∃ a t, Blank a ∧ Denotes d t v.repaired ∧ v.toStyledString = a ++ (t ++ ['\n']) := by
  obtain ⟨a, t, ha, ht, hsout, -⟩ := Writer.writeValue_spec h ⟨[], [], true⟩ Blank.nil
  refine ⟨a, t, ha, ht, ?_⟩
  rw [Value.toStyledString, Writer.write, Writer.put, hsout]
  simp [Writer.endingLineFeedSymbol]

/-- **What is written is read as the repaired value.** -/
theorem parse_toStyledString {v : Value} (h : v.Fits WritableKey WritableString stackLimit) :
    parse v.toStyledString = .ok (some v.repaired) := by
  obtain ⟨a, t, ha, ht, htext⟩ := toStyledString_denotes h
  rw [htext]
  exact parse_of_denotes le_rfl ht ha (.cons (by decide) (by decide) _)

/-! ## Lengths -/

theorem codePointToUTF8_length_le {n : ℕ} :
    (codePointToUTF8 n).length ≤ if n ≤ 0x7f then 1 else if n ≤ 0x7FF then 2 else
      if n ≤ 0xFFFF then 3 else 4 := by
  unfold codePointToUTF8
  split_ifs <;> simp

/-- A code point takes at most three bytes for each it was decoded from. -/
theorem utf8ToCodepoint_length (c : Char) (cs : Str) :
    (codePointToUTF8 (escaped (utf8ToCodepoint c cs).1)).length +
      3 * (utf8ToCodepoint c cs).2.length ≤ 3 * (cs.length + 1) := by
  have hfour : ∀ n, (codePointToUTF8 n).length ≤ 4 := Reader.codePointToUTF8_length
  have hthree : ∀ n, n < 0x10000 → (codePointToUTF8 (escaped n)).length ≤ 3 := by
    intro n hn
    rw [escaped_of_lt hn]
    refine codePointToUTF8_length_le.trans ?_
    split_ifs <;> omega
  have hle := (utf8ToCodepoint_spec c cs).1.length_le
  rcases utf8ToCodepoint_plane c cs with hplane | hplane
  · have hbytes := hthree _ hplane
    omega
  · have hbytes := hfour (escaped (utf8ToCodepoint c cs).1)
    omega

theorem repairChars_length {fuel : ℕ} {s : Str} (hfuel : s.length ≤ fuel) :
    (repairChars fuel s).length ≤ 3 * s.length := by
  induction fuel generalizing s with
  | zero =>
    obtain rfl := List.eq_nil_of_length_eq_zero (Nat.le_zero.1 hfuel)
    exact Nat.zero_le _
  | succ fuel ih =>
    cases s with
    | nil => exact Nat.zero_le _
    | cons c cs =>
      have hle := (utf8ToCodepoint_spec c cs).1.length_le
      have hstep := utf8ToCodepoint_length c cs
      rw [List.length_cons] at hfuel
      have hrest := ih (s := (utf8ToCodepoint c cs).2) (by omega)
      simp only [repairChars, List.length_append, List.length_cons]
      omega

/-- Repair makes a string at most three times as long. -/
theorem repair_length (s : Str) : (repair s).length ≤ 3 * s.length := repairChars_length le_rfl

/-- Keys and strings of at most `n` bytes can be written, and keep so in any object. -/
theorem Value.Fits.writable {n d : ℕ} {v : Value} (hn : 3 * n < 2 ^ 30)
    (h : v.Fits (KeyFits n) (StringFits n) d) : v.Fits WritableKey WritableString d := by
  refine h.mono (fun k hk => ?_) fun s hs => ?_
  · exact (repair_length k).trans_lt (by have := hk.2; omega)
  · refine (repair_length s).trans ?_
    have := hs.2
    unfold maxStringLength maxInt
    omega

/-! ## Documents -/

/-- The tokens of a document, up to its end or to the first that is none. -/
def Reader.tokens : ℕ → Str → List Token
  | 0, _ => []
  | fuel + 1, cs =>
    let (token, rest) := readToken cs
    if token.type = .endOfStream ∨ token.type = .error then [token]
    else token :: tokens fuel rest

/-- A document whose value can be written. There is no comment in it: the reader keeps a comment
with the value next to it, and the writer would write it there. -/
def Rewritable (document : Str) : Prop :=
  (∀ token ∈ tokens (document.length + 1) document, token.type ≠ .comment) ∧
    3 * document.length < 2 ^ 30

instance (document : Str) : Decidable (Rewritable document) := inferInstanceAs (Decidable (_ ∧ _))

/-- Whatever was read can be written. -/
theorem Rewritable.fits {document : Str} {v : Value} (hdocument : Rewritable document)
    (h : parse document = .ok (some v)) : v.Fits WritableKey WritableString stackLimit :=
  (parse_fits (decodes_fits document) h).writable hdocument.2

/-- **Reading, writing and reading again.** The first round trip repairs, and the value is kept
from then on. -/
theorem parse_parse {document : Str} {v : Value} (hdocument : Rewritable document)
    (h : parse document = .ok (some v)) :
    parse v.toStyledString = .ok (some v.repaired) ∧
      parse v.repaired.toStyledString = .ok (some v.repaired) := by
  have hwritable := hdocument.fits h
  have hutf8 := repaired_fits hwritable
  have hagain := parse_toStyledString (Utf8Fits.writable hutf8)
  rw [repaired_eq hutf8] at hagain
  exact ⟨parse_toStyledString hwritable, hagain⟩

/-- A string of one byte, which is no UTF-8. -/
theorem parse_parse_byte : parse (Value.array [.string ['\xff']]).toStyledString =
      .ok (some (Value.array [.string ['\xff']]).repaired) ∧
    parse (Value.array [.string ['\xff']]).repaired.toStyledString =
      .ok (some (Value.array [.string ['\xff']]).repaired) := by
  have hread : parse ['[', '"', '\xff', '"', ']'] = .ok (some (.array [.string ['\xff']])) := by
    decide +kernel
  exact parse_parse (by decide) hread

/-! ## ASCII -/

/-- ASCII without control characters, but for the tab and the line feed. -/
def Plain (c : Char) : Prop := 0x20 ≤ c.toNat ∧ c.toNat < 0x80 ∨ c = '\t' ∨ c = '\n'

instance (c : Char) : Decidable (Plain c) := inferInstanceAs (Decidable (_ ∨ _))

def PlainText (s : Str) : Prop := ∀ c ∈ s, Plain c

instance (s : Str) : Decidable (PlainText s) := List.decidableBAll Plain s

theorem PlainText.append {s t : Str} (hs : PlainText s) (ht : PlainText t) : PlainText (s ++ t) := by
  intro c hc
  rcases List.mem_append.1 hc with hc | hc
  · exact hs c hc
  · exact ht c hc

theorem plain_of_isDigit {c : Char} (h : isDigit c = true) : Plain c := by
  simp only [isDigit, Bool.and_eq_true, decide_eq_true_eq] at h
  have hlow : '0'.toNat ≤ c.toNat := h.1
  have hhigh : c.toNat ≤ '9'.toNat := h.2
  exact Or.inl ⟨le_trans (by decide) hlow, lt_of_le_of_lt hhigh (by decide)⟩

theorem Numeral.text_plain (n : Numeral) : PlainText n.text := by
  have hdigits : ∀ ds : Str, (∀ c ∈ ds, isDigit c = true) → PlainText ds :=
    fun ds h c hc => plain_of_isDigit (h c hc)
  unfold Numeral.text
  refine PlainText.append ?_ ((hdigits _ n.whole_isDigit).append (PlainText.append ?_ ?_))
  · cases n.neg <;> (intro c hc; simp at hc)
    rw [hc]
    decide
  · unfold Numeral.fracText
    split_ifs
    · exact List.forall_mem_nil _
    · exact List.forall_mem_cons.2 ⟨by decide, hdigits _ n.frac_isDigit⟩
  · cases n.exponent with
    | none => exact List.forall_mem_nil _
    | some x =>
      unfold Numeral.expText Exponent.text
      have hmark : Plain x.mark := by
        rcases x.mark_eq with h | h <;> rw [h] <;> decide
      have hsign : PlainText (Exponent.signText x.sign) := by
        rcases x.sign with _ | _ | _ <;> decide
      exact List.forall_mem_cons.2 ⟨hmark, hsign.append (hdigits _ x.digits_isDigit)⟩

namespace Writer

/-- What has been written is plain, and so is the indentation. -/
def PlainState (w : Writer) : Prop := PlainText w.sout ∧ PlainText w.indentString

theorem PlainState.put {w : Writer} {s : Str} (h : w.PlainState) (hs : PlainText s) :
    (w.put s).PlainState := ⟨h.1.append hs, h.2⟩

theorem PlainState.ensureIndent {w : Writer} (h : w.PlainState) : w.ensureIndent.PlainState := by
  unfold Writer.ensureIndent
  split_ifs
  · exact h
  · exact h.put (List.forall_mem_cons.2 ⟨by decide, h.2⟩)

theorem PlainState.writeWithIndent {w : Writer} {s : Str} (h : w.PlainState) (hs : PlainText s) :
    (w.writeWithIndent s).PlainState := h.ensureIndent.put hs

theorem PlainState.indent {w : Writer} (h : w.PlainState) : w.indent.PlainState :=
  ⟨h.1, h.2.append (by decide)⟩

theorem PlainState.unindent {w : Writer} (h : w.PlainState) : w.unindent.PlainState :=
  ⟨h.1, fun c hc => h.2 c (List.mem_of_mem_take hc)⟩

theorem quoted_plain (s : Str) : PlainText (valueToQuotedStringN s) :=
  fun c hc => Or.inl (valueToQuotedStringN_ascii s c hc)

mutual

theorem writeValue_plain : ∀ (v : Value) (w : Writer), w.PlainState → (writeValue w v).PlainState
  | .null, w, h => h.put (by decide)
  | .int n, w, h => h.put (Numeral.ofInt_text n ▸ Numeral.text_plain _)
  | .uint n, w, h => h.put (Numeral.ofInt_text_nat n ▸ Numeral.text_plain _)
  | .real d, w, h => by
    obtain ⟨n, hn, -⟩ := Numeral.realToString_spec d
    exact h.put (hn ▸ n.text_plain)
  | .string s, w, h => h.put (quoted_plain s)
  | .boolean b, w, h => h.put (by cases b <;> decide)
  | .array vs, w, h => by
    rw [writeValue]
    split_ifs
    · exact h.put (by decide)
    · have hloop := writeElements_plain vs _ (h.writeWithIndent (s := ['[']) (by decide)).indent
      exact hloop.unindent.writeWithIndent (by decide)
  | .object ms, w, h => by
    rw [writeValue]
    split_ifs
    · exact h.put (by decide)
    · have hloop := writeMembers_plain ms _ (h.writeWithIndent (s := ['{']) (by decide)).indent
      exact hloop.unindent.writeWithIndent (by decide)

theorem writeElements_plain :
    ∀ (vs : List Value) (w : Writer), w.PlainState → (writeElements w vs).PlainState
  | [], w, h => h
  | v :: vs, w, h => by
    have hvalue := writeValue_plain v { w.ensureIndent with indented := true } h.ensureIndent
    rw [writeElements]
    simp only
    split_ifs
    · exact hvalue
    · exact writeElements_plain vs _ (PlainState.put hvalue (by decide))

theorem writeMembers_plain :
    ∀ (ms : List (Str × Value)) (w : Writer), w.PlainState → (writeMembers w ms).PlainState
  | [], w, h => h
  | (name, v) :: ms, w, h => by
    have hvalue := writeValue_plain v _ ((h.writeWithIndent (quoted_plain name)).put
      (s := colonSymbol) (by decide))
    rw [writeMembers]
    split_ifs
    · exact hvalue
    · exact writeMembers_plain ms _ (hvalue.put (by decide))

end

end Writer

/-- **The text of any value is ASCII.** -/
theorem toStyledString_plain (v : Value) : PlainText v.toStyledString := by
  have hwrite := Writer.writeValue_plain v ⟨[], [], true⟩ ⟨by decide, by decide⟩
  exact (hwrite.put (by decide)).1.append (by decide)

/-- ASCII comes back as it was. -/
theorem repair_of_plain {s : Str} (h : PlainText s) : repair s = s := by
  apply repairChars_plain le_rfl
  intro c hc
  rcases h c hc with h | rfl | rfl
  · exact h.2
  · decide
  · decide

theorem writableString_of_plain {s : Str} (h : PlainText s) (hlength : s.length ≤ 100) :
    WritableString s := by
  rw [WritableString, repair_of_plain h]
  exact hlength.trans (by decide)

theorem uintToString_length {n k : ℕ} (hk : 0 < k) (h : n < 10 ^ k) :
    (uintToString n).length ≤ k :=
  (Nat.length_toDigits_le_iff (by decide) hk).2 h

namespace Double

theorem pow_two_le_ten (k : ℕ) : 2 ^ (3 * k) ≤ 10 ^ k := by
  rw [pow_mul]
  exact Nat.pow_le_pow_left (by norm_num) k

/-- The exponent of a finite double has at most four digits. -/
theorem significant_exponent {d : Double} (hd : d.Finite) :
    (significant d.mag unit).2.natAbs < 10 ^ 4 := by
  have hmag : (Nat.toDigits 10 d.mag).length ≤ 1000 := by
    apply uintToString_length (by decide)
    calc d.mag ≤ maxMag := hd.le_max
      _ < 2 ^ 53 * 2 ^ 2045 := by
          unfold maxMag
          gcongr
          norm_num
      _ = 2 ^ (53 + 2045) := (pow_add 2 53 2045).symm
      _ ≤ 2 ^ (3 * 1000) := Nat.pow_le_pow_right (by decide) (by norm_num)
      _ ≤ 10 ^ 1000 := pow_two_le_ten 1000
  have hunit : (Nat.toDigits 10 unit).length ≤ 1000 := by
    apply uintToString_length (by decide)
    calc unit = 2 ^ 1074 := by unfold unit; rfl
      _ < 2 ^ (3 * 1000) := Nat.pow_lt_pow_right (by decide) (by norm_num)
      _ ≤ 10 ^ 1000 := pow_two_le_ten 1000
  have hlog : (log10 d.mag unit).natAbs ≤ 1001 := by
    unfold log10
    simp only
    split_ifs <;> omega
  have hfour : 10 ^ 4 = 10000 := by norm_num
  rw [hfour]
  unfold significant
  simp only
  split_ifs <;> simp only <;> omega

theorem fraction_length (ds : Str) : (fraction ds).length ≤ ds.length + 1 := by
  obtain ⟨j, hj⟩ := Numeral.trim_append_zeros ds
  have hlength : (Numeral.trim ds).length ≤ ds.length := by
    conv_rhs => rw [hj]
    rw [List.length_append]
    exact Nat.le_add_right _ _
  rw [Numeral.fraction_eq]
  unfold Numeral.fracText
  split_ifs
  · exact Nat.zero_le _
  · rw [List.length_cons]
    omega

theorem format_length {d : Double} (hd : d.Finite) : d.format.length ≤ 60 := by
  have hexp := significant_exponent hd
  have hsign : (if d.neg then ['-'] else []).length ≤ 1 := by split_ifs <;> simp
  by_cases hmag : d.mag = 0
  · rw [format, if_pos hmag, List.length_append, List.length_singleton]
    omega
  have hdigits := uintToString_length (by decide)
    (significant_spec (Nat.pos_of_ne_zero hmag) unit_pos).2.1
  rcases hsignificant : significant d.mag unit with ⟨n, x⟩
  rw [Numeral.format_of_significant hmag hsignificant]
  rw [hsignificant] at hexp hdigits
  simp only at hexp hdigits
  generalize (if d.neg = true then ['-'] else []) = sign at *
  by_cases hlarge : x < -4 ∨ 17 ≤ x
  · have hfrac := fraction_length ((uintToString n).drop 1)
    have hexponent : (exponent x).length ≤ 6 := by
      have hx := uintToString_length (k := 4) (by decide) hexp
      unfold exponent
      simp only [List.length_cons]
      split_ifs
      · rw [List.length_cons]
        omega
      · omega
    rw [if_pos hlarge]
    simp only [List.length_append, List.length_take, List.length_drop] at hfrac ⊢
    omega
  rw [if_neg hlarge]
  by_cases hpos : 0 ≤ x
  · have hfrac := fraction_length ((uintToString n).drop (x.toNat + 1))
    rw [if_pos hpos]
    simp only [List.length_append, List.length_take, List.length_drop] at hfrac ⊢
    omega
  · have hfrac := fraction_length (List.replicate (-x - 1).toNat '0' ++ uintToString n)
    rw [if_neg hpos]
    simp only [List.length_append, List.length_replicate, List.length_singleton] at hfrac ⊢
    omega

end Double

theorem realToString_length {d : Double} (hd : d.Finite) : (realToString d).length ≤ 100 := by
  have hformat := Double.format_length hd
  unfold realToString
  simp only
  split_ifs
  · rw [List.length_append]
    exact (Nat.add_le_add_right hformat _).trans (by decide)
  · omega

/-- Whatever `asString` returns for a value of writable strings is writable. -/
theorem asString_writable {K : Str → Prop} {d : ℕ} {v : Value} {s : Str}
    (hv : v.Fits K WritableString d) (h : v.asString = .ok s) : WritableString s := by
  cases hv with
  | null =>
    obtain rfl := Except.ok.inj h
    exact writableString_of_plain (by decide) (by decide)
  | @int _ n hmin hmax =>
    obtain rfl := Except.ok.inj h
    -- An integer of 64 bits has at most 20 digits and a sign.
    have hplain : PlainText (intToString n) := Numeral.ofInt_text n ▸ Numeral.text_plain _
    have hlength := uintToString_length (n := n.natAbs) (k := 20) (by decide) (by
      unfold maxInt at hmax
      have : 10 ^ 20 = 100000000000000000000 := by norm_num
      omega)
    refine writableString_of_plain hplain ?_
    unfold intToString
    split_ifs
    · rw [List.length_cons]
      omega
    · omega
  | @uint _ n hmin hmax =>
    obtain rfl := Except.ok.inj h
    have hplain : PlainText (uintToString n) := Numeral.ofInt_text_nat n ▸ Numeral.text_plain _
    have hlength := uintToString_length (n := n) (k := 20) (by decide) (by
      have : 10 ^ 20 = 100000000000000000000 := by norm_num
      omega)
    exact writableString_of_plain hplain (by omega)
  | @real _ x hx =>
    obtain rfl := Except.ok.inj h
    obtain ⟨n, hn, -⟩ := Numeral.realToString_spec x
    exact writableString_of_plain (hn ▸ n.text_plain) (realToString_length hx)
  | string hs =>
    obtain rfl := Except.ok.inj h
    exact hs
  | @boolean _ b =>
    obtain rfl := Except.ok.inj h
    cases b <;> exact writableString_of_plain (by decide) (by decide)
  | array => cases h
  | object => cases h

end WsSignalServer.Json
