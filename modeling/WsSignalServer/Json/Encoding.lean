import WsSignalServer.Json.RoundTrip

/-!
# UTF-8 documents

The payload of a text frame is UTF-8. The reader takes it byte by byte, but it only ever cuts at a
quote or a backslash, so what it cuts out is UTF-8 again, and what it puts in for an escape is
UTF-8 as well, unless the escape is a low surrogate that no high surrogate takes along.

**Theorem (`document_kept`).** A UTF-8 document without low surrogate escapes is read as a value that
comes through writing and reading as it is.
-/

namespace WsSignalServer.Json

open Reader

/-! ## Cutting -/

/-- Both sides of an ASCII byte are UTF-8. -/
theorem IsUtf8.of_append_cons {a b : Str} {c : Char} (hc : c.toNat < 0x80)
    (h : IsUtf8 (a ++ c :: b)) : IsUtf8 a ∧ IsUtf8 b := by
  obtain ⟨text, htext⟩ := h
  induction text generalizing a with
  | nil => exact absurd htext (by simp [utf8_nil])
  | cons d text ih =>
    rw [utf8_cons, eq_comm, List.append_eq_append_iff] at htext
    rcases htext with ⟨a', rfl, htext⟩ | ⟨bytes, hd, htext⟩
    · obtain ⟨ha', hb⟩ := ih htext.symm
      exact ⟨IsUtf8.append ⟨[d], rfl⟩ ha', hb⟩
    · cases bytes with
      | nil =>
        rw [List.append_nil] at hd
        exact ⟨⟨[d], hd.symm⟩, (ih (a := []) htext).2⟩
      | cons e bytes =>
        obtain ⟨rfl, rfl⟩ := List.cons.inj htext
        have hone : d = c := utf8_of_mem (by simp [hd]) hc
        rw [hone, utf8_ascii hc] at hd
        obtain ⟨rfl, hnil⟩ : a = [] ∧ bytes = [] := by
          cases a with
          | nil => exact ⟨rfl, (List.cons.inj hd).2.symm⟩
          | cons x a => exact absurd (congrArg List.length hd) (by simp)
        exact ⟨.nil, ⟨text, by rw [hnil]; rfl⟩⟩

theorem IsUtf8.of_ascii_append {a b : Str} (ha : ∀ c ∈ a, c.toNat < 0x80) (h : IsUtf8 (a ++ b)) :
    IsUtf8 b := by
  induction a with
  | nil => exact h
  | cons c a ih =>
    rw [List.forall_mem_cons] at ha
    exact ih ha.2 (IsUtf8.of_append_cons (a := []) ha.1 h).2

/-! ## Escapes -/

/-- No escape in the document is a low surrogate. -/
def NoLowSurrogate (document : Str) : Prop :=
  ∀ hex n, Hex4 hex n → '\\' :: 'u' :: hex <:+: document → ¬(0xDC00 ≤ n ∧ n ≤ 0xDFFF)

theorem NoLowSurrogate.of_no_escape {document : Str} (h : '\\' ∉ document) :
    NoLowSurrogate document :=
  fun _ _ _ hpart => absurd (hpart.subset List.mem_cons_self) h

theorem NoLowSurrogate.mono {cs document : Str} (h : NoLowSurrogate document)
    (hcs : cs <:+: document) : NoLowSurrogate cs :=
  fun hex n hhex hpart => h hex n hhex (hpart.trans hcs)

theorem Reader.HexDigit.ascii {c : Char} {n : ℕ} (h : HexDigit c n) : c.toNat < 0x80 := by
  obtain ⟨hn, rfl | rfl⟩ := h <;> interval_cases n <;> decide

theorem Reader.Hex4.spec {hex : Str} {n : ℕ} (h : Hex4 hex n) :
    (∀ c ∈ hex, c.toNat < 0x80) ∧ n < 0x10000 := by
  obtain ⟨ha, hb, hc, hd⟩ := h
  have hw := ha.1
  have hx := hb.1
  have hy := hc.1
  have hz := hd.1
  refine ⟨?_, by omega⟩
  simp only [List.forall_mem_cons, List.not_mem_nil, IsEmpty.forall_iff, implies_true, and_true]
  exact ⟨ha.ascii, hb.ascii, hc.ascii, hd.ascii⟩

theorem decodeUnicodeEscapeSequence_eq_some {cs rest : Str} {n : ℕ}
    (h : decodeUnicodeEscapeSequence cs = some (n, rest)) : ∃ hex, Hex4 hex n ∧ cs = hex ++ rest := by
  unfold decodeUnicodeEscapeSequence at h
  split at h
  · rename_i a b c d tail
    simp only [Option.bind_eq_bind, Option.bind_eq_some_iff, pure, Option.some.injEq,
      Prod.mk.injEq] at h
    obtain ⟨w, ha, x, hb, y, hc, z, hd, rfl, rfl⟩ := h
    rw [hexDigit_eq_some_iff] at ha hb hc hd
    exact ⟨[a, b, c, d], .mk ha hb hc hd, rfl⟩
  · cases h

/-- What `\u` escapes stand for, and what is left, when no low surrogate is among them. -/
theorem decodeUnicodeCodePoint_utf8 {cs rest : Str} {n : ℕ}
    (hlow : NoLowSurrogate ('\\' :: 'u' :: cs)) (hutf8 : IsUtf8 cs)
    (h : decodeUnicodeCodePoint cs = some (n, rest)) :
    IsUtf8 (codePointToUTF8 n) ∧ IsUtf8 rest ∧ rest <:+ cs := by
  simp only [decodeUnicodeCodePoint, Option.bind_eq_bind, Option.bind_eq_some_iff] at h
  obtain ⟨⟨unicode, tail⟩, hfirst, h⟩ := h
  obtain ⟨hex, hhex, rfl⟩ := decodeUnicodeEscapeSequence_eq_some hfirst
  obtain ⟨hascii, hlt⟩ := hhex.spec
  have htail := hutf8.of_ascii_append hascii
  simp only at h
  split_ifs at h with hhigh
  · split at h
    · rename_i second
      simp only [Option.bind_eq_some_iff, pure, Option.some.injEq, Prod.mk.injEq] at h
      obtain ⟨⟨m, rest'⟩, hsecond, rfl, rfl⟩ := h
      obtain ⟨hex', hhex', rfl⟩ := decodeUnicodeEscapeSequence_eq_some hsecond
      have hmarks : ∀ c ∈ ['\\', 'u'], c.toNat < 0x80 := by simp
      have hrest := (htail.of_ascii_append (a := ['\\', 'u']) hmarks).of_ascii_append
        hhex'.spec.1
      refine ⟨codePointToUTF8_isUtf8 (Or.inr ?_), hrest, ?_⟩
      · rw [Nat.and_two_pow_sub_one_eq_mod _ 10, Nat.and_two_pow_sub_one_eq_mod _ 10,
          Nat.shiftLeft_eq]
        omega
      · exact (((List.suffix_append hex' rest').trans (List.suffix_cons 'u' _)).trans
          (List.suffix_cons '\\' _)).trans (List.suffix_append hex _)
    · cases h
  · obtain ⟨rfl, rfl⟩ := Prod.mk.inj (Option.some.inj h)
    have hne := hlow hex _ hhex ⟨[], tail, rfl⟩
    exact ⟨codePointToUTF8_isUtf8 (by unfold Nat.isValidChar; omega), htail,
      List.suffix_append hex tail⟩

/-- **Decoding keeps UTF-8.** By induction on the rounds; `p` is what a character cut in two has
left in front. -/
theorem decodeChars_utf8 {fuel : ℕ} {cs s : Str} (h : decodeChars fuel cs = some s)
    (hlow : NoLowSurrogate cs) (p : Str) (hutf8 : IsUtf8 (p ++ cs)) : IsUtf8 (p ++ s) := by
  fun_induction decodeChars fuel cs generalizing s p with
  | case1 => exact Option.some.inj h ▸ hutf8
  | case2 | case4 => cases h
  | case3 =>
    obtain rfl := Option.some.inj h
    rw [List.append_nil]
    exact (IsUtf8.of_append_cons (by decide) hutf8).1
  | case5 fuel cs ih =>
    simp only [Option.bind_eq_bind, Option.bind_eq_some_iff, pure, Option.some.injEq] at h
    obtain ⟨⟨n, rest⟩, hn, decoded, hrest, rfl⟩ := h
    obtain ⟨hp, hcs⟩ := IsUtf8.of_append_cons (by decide) hutf8
    have hcs := IsUtf8.of_ascii_append (a := ['u']) (List.forall_mem_singleton.2 (by decide)) hcs
    obtain ⟨hbytes, hrest', hsuffix⟩ := decodeUnicodeCodePoint_utf8 hlow hcs hn
    have hpart : rest <:+: '\\' :: 'u' :: cs :=
      (hsuffix.trans ((List.suffix_cons 'u' cs).trans (List.suffix_cons '\\' _))).isInfix
    exact hp.append (hbytes.append (ih rest hrest (hlow.mono hpart) [] hrest'))
  | case6 fuel e cs _ ih =>
    simp only [Option.bind_eq_bind, Option.bind_eq_some_iff, pure, Option.some.injEq] at h
    obtain ⟨c, hc, decoded, hrest, rfl⟩ := h
    have hascii : e.toNat < 0x80 ∧ c.toNat < 0x80 := by
      unfold escape at hc
      split at hc <;> cases hc <;> decide
    obtain ⟨hp, hcs⟩ := IsUtf8.of_append_cons (by decide) hutf8
    have hcs := IsUtf8.of_ascii_append (a := [e]) (by simpa using hascii.1) hcs
    have hpart : cs <:+: '\\' :: e :: cs :=
      ((List.suffix_cons e cs).trans (List.suffix_cons '\\' _)).isInfix
    exact hp.append ((isUtf8_ascii hascii.2).append (ih hrest (hlow.mono hpart) [] hcs))
  | case7 fuel c cs _ _ _ _ ih =>
    simp only [Option.bind_eq_bind, Option.bind_eq_some_iff, pure, Option.some.injEq] at h
    obtain ⟨decoded, hrest, rfl⟩ := h
    rw [List.append_cons] at hutf8 ⊢
    exact ih hrest (hlow.mono (List.suffix_cons c cs).isInfix) (p ++ [c]) hutf8

/-! ## Documents -/

theorem Reader.StringToken.utf8 {document text s : Str} (hutf8 : IsUtf8 document)
    (hlow : NoLowSurrogate document) (htext : StringToken document text)
    (h : decodeString text = .ok s) : IsUtf8 s := by
  obtain ⟨⟨body, rfl⟩, hpart⟩ := htext
  have hbody : body <:+: '"' :: (body ++ ['"']) := ⟨['"'], ['"'], rfl⟩
  obtain ⟨a, b, rfl⟩ := hpart
  have hcut : IsUtf8 body := by
    rw [List.append_assoc, List.cons_append, List.append_assoc] at hutf8
    exact (IsUtf8.of_append_cons (c := '"') (by decide)
      (IsUtf8.of_append_cons (by decide) hutf8).2).1
  unfold decodeString at h
  simp only [List.tail_cons, List.dropLast_concat] at h
  split at h
  · rename_i decoded hdecoded
    obtain rfl := Except.ok.inj h
    have hlow := hlow.mono (hbody.trans ⟨a, b, rfl⟩)
    exact decodeChars_utf8 hdecoded hlow [] hcut
  · cases h

theorem decodes_utf8 {document : Str} (hutf8 : IsUtf8 document) (hlow : NoLowSurrogate document)
    (hlength : document.length < 2 ^ 30) : Decodes Utf8Key Utf8String document where
  key {text s} htext h := by
    have hs := (decodeString_length h).trans htext.2.length_le
    rw [cZString_eq (by omega)]
    exact ⟨htext.utf8 hutf8 hlow h, by omega⟩
  string {text s} htext h hle := by
    have hs := (decodeString_length h).trans htext.2.length_le
    have hmod : s.length % 2 ^ 32 = s.length := Nat.mod_eq_of_lt (by omega)
    rw [hmod] at hle
    rw [hmod, List.take_length]
    exact ⟨htext.utf8 hutf8 hlow h, hle⟩

/-- **A UTF-8 document without low surrogate escapes loses nothing** when what was read is written
and read again. -/
theorem document_kept {document : Str} {v : Value} (hutf8 : IsUtf8 document)
    (hlow : NoLowSurrogate document) (hdocument : Rewritable document)
    (h : parse document = .ok (some v)) : parse v.toStyledString = parse document := by
  have hlength := hdocument.2
  have hfits := parse_fits (decodes_utf8 hutf8 hlow (by omega)) h
  rw [h, parse_toStyledString (Utf8Fits.writable hfits), repaired_eq hfits]

/-- A document with a word that is not ASCII. -/
theorem document_kept_word :
    parse (Value.array [.string (utf8 "é".toList)]).toStyledString =
      parse (utf8 "[\"é\"]".toList) := by
  have hescape : '\\' ∉ utf8 "[\"é\"]".toList := by decide
  exact document_kept ⟨_, rfl⟩ (.of_no_escape hescape) (by decide) (by decide +kernel)

end WsSignalServer.Json
