import WsSignalServer.Json.Grammar

/-!
# What the reader returns

Not every `Value` is one the reader returns: an integer of 32 bits never comes as `uint`, the
members of an object are in key order, a real has 53 digits, and nothing is nested deeper than the
stack allows. `Value.Fits K S depth` collects this, with `K` and `S` for what is known of the keys
and the strings.

* `parse_fits`: what the reader returns fits, with whatever is known of the strings of the document
  once they are decoded (`Decodes`).
* `parse_wellFormed`: so it does with keys and strings no longer than the document.
* `putAll_sorted`: entries in key order are the object they are read into.
-/

namespace WsSignalServer.Json

/-! ## Key order -/

/-- `CZString::operator<` is the lexicographic order. -/
theorem keyLess_iff (a b : Str) : keyLess a b = true ↔ a < b := by
  induction a generalizing b with
  | nil => cases b <;> simp [keyLess]
  | cons x a ih =>
    cases b with
    | nil => simp [keyLess]
    | cons y b =>
      rw [keyLess, List.cons_lt_cons_iff]
      rcases lt_trichotomy x y with h | rfl | h
      · simp [h]
      · simp [ih]
      · simp [h, h.not_gt, h.ne']

/-- Entries in strict key order. -/
def Sorted (ms : List (Str × Value)) : Prop := ms.Pairwise fun a b => a.1 < b.1

namespace ObjectValues

theorem mem_put {key : Str} {v : Value} {ms : ObjectValues} {m : Str × Value}
    (h : m ∈ put key v ms) : m = (key, v) ∨ m ∈ ms := by
  induction ms with
  | nil => exact Or.inl (List.mem_singleton.1 h)
  | cons e ms ih =>
    obtain ⟨k, w⟩ := e
    unfold put at h
    split_ifs at h with hk hless
    · rcases List.mem_cons.1 h with h | h
      · exact Or.inl h
      · exact Or.inr (List.mem_cons_of_mem _ h)
    · rcases List.mem_cons.1 h with h | h
      · exact Or.inl h
      · exact Or.inr h
    · rcases List.mem_cons.1 h with h | h
      · exact Or.inr (h ▸ List.mem_cons_self)
      · rcases ih h with h | h
        · exact Or.inl h
        · exact Or.inr (List.mem_cons_of_mem _ h)

theorem sorted_put (key : Str) (v : Value) {ms : ObjectValues} (h : Sorted ms) :
    Sorted (put key v ms) := by
  induction ms with
  | nil => exact List.pairwise_singleton _ _
  | cons e ms ih =>
    obtain ⟨k, w⟩ := e
    obtain ⟨hhead, htail⟩ := List.pairwise_cons.1 h
    unfold put
    split_ifs with hk hless
    · exact List.pairwise_cons.2 ⟨fun m hm => hk ▸ hhead m hm, htail⟩
    · have hkey := (keyLess_iff key k).1 hless
      refine List.pairwise_cons.2 ⟨fun m hm => ?_, h⟩
      rcases List.mem_cons.1 hm with rfl | hm
      · exact hkey
      · exact hkey.trans (hhead m hm)
    · rw [keyLess_iff, not_lt] at hless
      refine List.pairwise_cons.2 ⟨fun m hm => ?_, ih htail⟩
      rcases mem_put hm with rfl | hm
      · exact lt_of_le_of_ne hless hk
      · exact hhead m hm

theorem mem_putAll {entries : List (Str × Value)} {ms : ObjectValues} {m : Str × Value}
    (h : m ∈ putAll ms entries) : m ∈ entries ∨ m ∈ ms := by
  induction entries generalizing ms with
  | nil => exact Or.inr h
  | cons e entries ih =>
    rcases ih h with h | h
    · exact Or.inl (List.mem_cons_of_mem _ h)
    · rcases mem_put h with rfl | h
      · exact Or.inl List.mem_cons_self
      · exact Or.inr h

theorem sorted_putAll {ms : ObjectValues} (entries : List (Str × Value)) (h : Sorted ms) :
    Sorted (putAll ms entries) := by
  induction entries generalizing ms with
  | nil => exact h
  | cons e entries ih => exact ih (sorted_put e.1 e.2 h)

/-- A key above all others goes to the end. -/
theorem put_last {key : Str} {v : Value} {ms : ObjectValues} (h : ∀ m ∈ ms, m.1 < key) :
    put key v ms = ms ++ [(key, v)] := by
  induction ms with
  | nil => rfl
  | cons e ms ih =>
    obtain ⟨k, w⟩ := e
    have hk : k < key := h (k, w) List.mem_cons_self
    have hless : ¬keyLess key k = true := by
      rw [keyLess_iff]
      exact hk.not_gt
    rw [put, if_neg hk.ne, if_neg hless, ih fun m hm => h m (List.mem_cons_of_mem _ hm)]
    rfl

/-- Entries in key order are the members they make. -/
theorem putAll_sorted {entries : List (Str × Value)} (h : Sorted entries) :
    putAll [] entries = entries := by
  have hgen : ∀ ms : ObjectValues, Sorted (ms ++ entries) → putAll ms entries = ms ++ entries := by
    clear h
    induction entries with
    | nil => exact fun ms _ => (List.append_nil ms).symm
    | cons e entries ih =>
      intro ms hms
      have hlast : ∀ m ∈ ms, m.1 < e.1 :=
        fun m hm => (List.pairwise_append.1 hms).2.2 m hm e List.mem_cons_self
      have hput := put_last (v := e.2) hlast
      change putAll (put e.1 e.2 ms) entries = _
      rw [hput, ih _ (by rwa [List.append_assoc]), List.append_assoc]
      rfl
  exact hgen [] h

end ObjectValues

/-! ## Values that fit -/

/-- A value as the reader makes it, of keys in `K` and strings in `S`. -/
inductive Value.Fits (K S : Str → Prop) : ℕ → Value → Prop where
  | null {d : ℕ} : Fits K S (d + 1) .null
  | int {d : ℕ} {n : ℤ} (hmin : -2 ^ 63 ≤ n) (hmax : n ≤ maxInt) : Fits K S (d + 1) (.int n)
  | uint {d n : ℕ} (hmin : maxInt < n) (hmax : n < 2 ^ 64) : Fits K S (d + 1) (.uint n)
  | real {d : ℕ} {x : Double} (hx : x.Finite) : Fits K S (d + 1) (.real x)
  | string {d : ℕ} {s : Str} (hs : S s) : Fits K S (d + 1) (.string s)
  | boolean {d : ℕ} {b : Bool} : Fits K S (d + 1) (.boolean b)
  | array {d : ℕ} {vs : List Value} (h : ∀ v ∈ vs, Fits K S d v) : Fits K S (d + 1) (.array vs)
  | object {d : ℕ} {ms : List (Str × Value)} (hsorted : Sorted ms) (hkeys : ∀ m ∈ ms, K m.1)
      (h : ∀ m ∈ ms, Fits K S d m.2) : Fits K S (d + 1) (.object ms)

namespace Value.Fits

variable {K K' S S' : Str → Prop} {d : ℕ} {v : Value}

theorem mono (hK : ∀ s, K s → K' s) (hS : ∀ s, S s → S' s) (h : v.Fits K S d) :
    v.Fits K' S' d := by
  induction h with
  | null => exact .null
  | int hmin hmax => exact .int hmin hmax
  | uint hmin hmax => exact .uint hmin hmax
  | real hx => exact .real hx
  | string hs => exact .string (hS _ hs)
  | boolean => exact .boolean
  | array _ ih => exact .array ih
  | object hsorted hkeys _ ih => exact .object hsorted (fun m hm => hK _ (hkeys m hm)) ih

/-- Storing a member keeps an object fit. -/
theorem put {key : Str} {w : Value} {ms : ObjectValues} (hkey : K key) (hw : w.Fits K S d)
    (h : (Value.object ms).Fits K S (d + 1)) :
    (Value.object (ms.put key w)).Fits K S (d + 1) := by
  cases h with | object hsorted hkeys hms => ?_
  refine .object (ObjectValues.sorted_put key w hsorted) (fun m hm => ?_) fun m hm => ?_
  · rcases ObjectValues.mem_put hm with rfl | hm
    · exact hkey
    · exact hkeys m hm
  · rcases ObjectValues.mem_put hm with rfl | hm
    · exact hw
    · exact hms m hm

theorem empty : (Value.object []).Fits K S (d + 1) :=
  .object List.Pairwise.nil (List.forall_mem_nil _) (List.forall_mem_nil _)

theorem lookup {key : Str} {w : Value} {ms : ObjectValues}
    (h : (Value.object ms).Fits K S (d + 1)) (hlookup : ms.lookup key = some w) : w.Fits K S d := by
  cases h with | object _ _ hms => ?_
  obtain ⟨l₁, l₂, rfl, -⟩ := List.lookup_eq_some_iff.1 hlookup
  exact hms (key, w) (by simp)

end Value.Fits

namespace Reader

/-! ## Lengths -/

theorem codePointToUTF8_length (n : ℕ) : (codePointToUTF8 n).length ≤ 4 := by
  unfold codePointToUTF8
  split_ifs <;> simp

theorem decodeUnicodeEscapeSequence_length {cs rest : Str} {n : ℕ}
    (h : decodeUnicodeEscapeSequence cs = some (n, rest)) : rest.length + 4 = cs.length := by
  unfold decodeUnicodeEscapeSequence at h
  split at h
  · simp only [Option.bind_eq_bind, Option.bind_eq_some_iff, pure, Option.some.injEq,
      Prod.mk.injEq] at h
    obtain ⟨_, -, _, -, _, -, _, -, -, rfl⟩ := h
    rfl
  · cases h

theorem decodeUnicodeCodePoint_length {cs rest : Str} {n : ℕ}
    (h : decodeUnicodeCodePoint cs = some (n, rest)) : rest.length + 4 ≤ cs.length := by
  simp only [decodeUnicodeCodePoint, Option.bind_eq_bind, Option.bind_eq_some_iff] at h
  obtain ⟨⟨unicode, cs'⟩, hfirst, h⟩ := h
  have hlength := decodeUnicodeEscapeSequence_length hfirst
  simp only at h
  split_ifs at h
  · split at h
    · simp only [Option.bind_eq_some_iff, pure, Option.some.injEq, Prod.mk.injEq] at h
      obtain ⟨⟨m, rest'⟩, hsecond, -, rfl⟩ := h
      have hlength' := decodeUnicodeEscapeSequence_length hsecond
      simp only [List.length_cons] at hlength ⊢
      omega
    · cases h
  · obtain ⟨-, rfl⟩ := Prod.mk.inj (Option.some.inj h)
    omega

/-- An escape is never shorter than the bytes it stands for. -/
theorem decodeChars_length {fuel : ℕ} {cs s : Str} (h : decodeChars fuel cs = some s) :
    s.length ≤ cs.length := by
  fun_induction decodeChars fuel cs generalizing s with
  | case1 | case3 =>
    obtain rfl := Option.some.inj h
    simp
  | case2 | case4 => cases h
  | case5 fuel cs ih =>
    simp only [Option.bind_eq_bind, Option.bind_eq_some_iff, pure, Option.some.injEq] at h
    obtain ⟨⟨n, rest⟩, hn, decoded, hrest, rfl⟩ := h
    have hle := ih rest hrest
    have hlength := decodeUnicodeCodePoint_length hn
    have hbytes := codePointToUTF8_length n
    simp only [List.length_append, List.length_cons]
    omega
  | case6 fuel e cs _ ih =>
    simp only [Option.bind_eq_bind, Option.bind_eq_some_iff, pure, Option.some.injEq] at h
    obtain ⟨c, -, decoded, hrest, rfl⟩ := h
    have hle := ih hrest
    simp only [List.length_cons]
    omega
  | case7 fuel c cs _ _ _ _ ih =>
    simp only [Option.bind_eq_bind, Option.bind_eq_some_iff, pure, Option.some.injEq] at h
    obtain ⟨decoded, hrest, rfl⟩ := h
    have hle := ih hrest
    simp only [List.length_cons]
    omega

theorem decodeString_length {text s : Str} (h : decodeString text = .ok s) :
    s.length ≤ text.length := by
  unfold decodeString at h
  simp only at h
  split at h
  · rename_i hdecoded
    obtain rfl := Except.ok.inj h
    have hle := decodeChars_length hdecoded
    rw [List.length_dropLast, List.length_tail] at hle
    omega
  · cases h

/-! ## Tokens in the document -/

theorem readCStyleComment_suffix (cs : Str) : (readCStyleComment cs).2 <:+ cs := by
  fun_induction readCStyleComment cs with
  | case1 => exact List.suffix_rfl
  | case2 c => exact List.suffix_cons c []
  | case3 c d cs => exact (List.suffix_cons d cs).trans (List.suffix_cons c _)
  | case4 c d cs _ ih => exact ih.trans (List.suffix_cons c _)

theorem readCppStyleComment_suffix (cs : Str) : readCppStyleComment cs <:+ cs := by
  fun_induction readCppStyleComment cs with
  | case1 => exact List.suffix_rfl
  | case2 cs => exact List.suffix_cons '\n' cs
  | case3 cs => exact (List.suffix_cons '\n' cs).trans (List.suffix_cons '\r' _)
  | case4 cs => exact List.suffix_cons '\r' cs
  | case5 c cs _ _ _ ih => exact ih.trans (List.suffix_cons c cs)

theorem readComment_suffix (cs : Str) : (readComment cs).2 <:+ cs := by
  unfold readComment
  split
  · exact (readCStyleComment_suffix _).trans (List.suffix_cons '*' _)
  · exact (readCppStyleComment_suffix _).trans (List.suffix_cons '/' _)
  · exact List.tail_suffix cs

theorem readNumber_suffix (cs : Str) : readNumber cs <:+ cs := by
  have hfraction : ∀ cs, skipFraction cs <:+ cs := by
    intro cs
    unfold skipFraction
    split
    · exact (List.dropWhile_suffix _).trans (List.suffix_cons '.' _)
    · exact List.suffix_rfl
  have hexponent : ∀ cs, skipExponent cs <:+ cs := by
    intro cs
    unfold skipExponent
    split <;> first
      | exact List.suffix_rfl
      | exact (List.dropWhile_suffix _).trans (List.suffix_cons _ _)
      | exact (List.dropWhile_suffix _).trans
          ((List.suffix_cons _ _).trans (List.suffix_cons _ _))
  exact (hexponent _).trans ((hfraction _).trans (List.dropWhile_suffix _))

/-- A string goes to its closing quote. -/
theorem readString_spec (cs : Str) : (readString cs).2 <:+ cs ∧
    ((readString cs).1 = .true → ∃ body, cs = body ++ '"' :: (readString cs).2) := by
  fun_induction readString cs with
  | case1 => exact ⟨List.suffix_rfl, by simp⟩
  | case2 cs => exact ⟨List.suffix_cons '"' cs, fun _ => ⟨[], rfl⟩⟩
  | case3 c cs ih =>
    refine ⟨ih.1.trans ((List.suffix_cons c cs).trans (List.suffix_cons '\\' _)), fun h => ?_⟩
    obtain ⟨body, hbody⟩ := ih.2 h
    exact ⟨'\\' :: c :: body, by rw [List.cons_append, List.cons_append, ← hbody]⟩
  | case4 c cs _ _ ih =>
    refine ⟨ih.1.trans (List.suffix_cons c cs), fun h => ?_⟩
    obtain ⟨body, hbody⟩ := ih.2 h
    exact ⟨c :: body, by rw [List.cons_append, ← hbody]⟩

theorem scan_spec (c : Char) (cs : Str) : (scan c cs).2 <:+ cs ∧
    ((scan c cs).1 = .string → c = '"' ∧ ∃ body, cs = body ++ '"' :: (scan c cs).2) := by
  have hliteral : ∀ pattern rest, matchPattern pattern cs = some rest → rest <:+ cs := by
    intro pattern rest h
    unfold matchPattern at h
    split_ifs at h
    exact Option.some.inj h ▸ List.drop_suffix _ _
  unfold scan
  split
  case h_5 =>
    obtain ⟨hsuffix, hbody⟩ := readString_spec cs
    refine ⟨hsuffix, fun h => ⟨rfl, hbody ?_⟩⟩
    cases hread : (readString cs).1 with
    | false => simp [hread] at h
    | true => rfl
  case h_6 =>
    refine ⟨readComment_suffix cs, fun h => ?_⟩
    cases hread : (readComment cs).1 <;> simp [hread] at h
  case h_7 | h_8 | h_9 =>
    simp only
    split
    · rename_i rest hrest
      exact ⟨hliteral _ _ hrest, nofun⟩
    · exact ⟨List.suffix_rfl, nofun⟩
  case h_13 =>
    split_ifs
    · exact ⟨readNumber_suffix cs, nofun⟩
    · exact ⟨List.suffix_rfl, nofun⟩
  all_goals exact ⟨List.suffix_rfl, nofun⟩

/-- The token is a string with its quotes, as it stands in `document`. -/
def StringToken (document text : Str) : Prop :=
  (∃ body, text = '"' :: (body ++ ['"'])) ∧ text <:+: document

theorem readToken_spec (cs : Str) : (readToken cs).2 <:+ cs ∧
    ((readToken cs).1.type = .string → StringToken cs (readToken cs).1.text) := by
  have hspaces : skipSpaces cs <:+ cs := List.dropWhile_suffix _
  unfold readToken
  split
  · exact ⟨List.nil_suffix, nofun⟩
  · rename_i c rest hrest
    rw [hrest] at hspaces
    obtain ⟨hsuffix, hstring⟩ := scan_spec c rest
    refine ⟨(hsuffix.trans (List.suffix_cons c rest)).trans hspaces, fun h => ?_⟩
    obtain ⟨rfl, body, hbody⟩ := hstring h
    generalize scan '"' rest = r at hbody
    obtain ⟨type, after⟩ := r
    simp only at hbody
    have hrest : rest = (body ++ ['"']) ++ after := by simp [hbody]
    have htake : rest.take (rest.length - after.length) = body ++ ['"'] := by
      rw [hrest, List.length_append, Nat.add_sub_cancel, List.take_left]
    have hprefix : '"' :: (body ++ ['"']) <+: '"' :: rest := ⟨after, by simp [hrest]⟩
    simp only [htake]
    exact ⟨⟨body, rfl⟩, hprefix.isInfix.trans hspaces.isInfix⟩

theorem StringToken.mono {document document' text : Str} (h : StringToken document text)
    (hdocument : document <:+ document') : StringToken document' text :=
  ⟨h.1, h.2.trans hdocument.isInfix⟩

theorem skipCommentTokens_string_spec (cs : Str) : (skipCommentTokens cs).2 <:+ cs ∧
    ((skipCommentTokens cs).1.type = .string → StringToken cs (skipCommentTokens cs).1.text) := by
  have hgo : ∀ fuel cs, (skipCommentTokens.go fuel cs).2 <:+ cs ∧
      ((skipCommentTokens.go fuel cs).1.type = .string →
        StringToken cs (skipCommentTokens.go fuel cs).1.text) := by
    intro fuel
    induction fuel with
    | zero => exact readToken_spec
    | succ fuel ih =>
      intro cs
      obtain ⟨hsuffix, hstring⟩ := readToken_spec cs
      rw [skipCommentTokens.go]
      simp only
      split_ifs
      · exact ⟨(ih _).1.trans hsuffix, fun h => ((ih _).2 h).mono hsuffix⟩
      · exact ⟨hsuffix, hstring⟩
  exact hgo _ cs

/-! ## Values -/

theorem bind_eq_ok {ε α β : Type} {x : Except ε α} {f : α → Except ε β} {b : β} :
    (x >>= f) = .ok b ↔ ∃ a, x = .ok a ∧ f a = .ok b := by
  cases x with
  | ok a => simp [bind, Except.bind]
  | error e => simp [bind, Except.bind]

/-- Keys and strings of a document of `n` characters. -/
def KeyFits (n : ℕ) (k : Str) : Prop := k.length < 2 ^ 30 ∧ k.length ≤ n

def StringFits (n : ℕ) (s : Str) : Prop := s.length ≤ maxStringLength ∧ s.length ≤ n

theorem valueOfString_eq_ok {s : Str} {v : Value} (h : valueOfString s = .ok v) :
    s.length % 2 ^ 32 ≤ maxStringLength ∧ v = .string (s.take (s.length % 2 ^ 32)) := by
  unfold valueOfString at h
  simp only at h
  split_ifs at h with hle
  exact ⟨hle, (Except.ok.inj h).symm⟩

/-- What is known of the names and the strings of a document once they are decoded. -/
structure Decodes (K S : Str → Prop) (document : Str) : Prop where
  key {text s : Str} (htext : StringToken document text) (h : decodeString text = .ok s) :
    K (cZString s)
  string {text s : Str} (htext : StringToken document text) (h : decodeString text = .ok s)
    (hle : s.length % 2 ^ 32 ≤ maxStringLength) : S (s.take (s.length % 2 ^ 32))

/-- Nothing in a document is longer than the document. -/
theorem decodes_fits (document : Str) :
    Decodes (KeyFits document.length) (StringFits document.length) document where
  key {text s} htext h := by
    have hs := (decodeString_length h).trans htext.2.length_le
    have hlength : (cZString s).length ≤ s.length % 2 ^ 30 := by
      rw [cZString, List.length_take]
      exact min_le_left _ _
    have hlt := Nat.mod_lt s.length (show 0 < 2 ^ 30 by decide)
    exact ⟨by omega, hlength.trans ((Nat.mod_le _ _).trans hs)⟩
  string {text s} htext h hle := by
    have hs := (decodeString_length h).trans htext.2.length_le
    rw [StringFits, List.length_take]
    exact ⟨(min_le_left _ _).trans hle, (min_le_right _ _).trans hs⟩

theorem decodeInteger_le {max value n : ℕ} {ds : Str} (hvalue : value ≤ max)
    (h : decodeInteger max value ds = some n) : n ≤ max := by
  induction ds generalizing value with
  | nil => exact Option.some.inj h ▸ hvalue
  | cons c cs ih =>
    rw [decodeInteger] at h
    split_ifs at h with hdigit hguard
    refine ih ?_ h
    have hnine : c.toNat - '0'.toNat ≤ 9 := by
      simp only [isDigit, Bool.not_eq_true', Bool.and_eq_true, decide_eq_true_eq,
        Bool.not_eq_false] at hdigit
      have hle : c.toNat ≤ '9'.toNat := hdigit.2
      exact Nat.sub_le_sub_right hle _
    omega

theorem decodeNumber_fits {K S : Str → Prop} {d : ℕ} {text : Str} {v : Value}
    (h : decodeNumber text = .ok v) : v.Fits K S (d + 1) := by
  unfold decodeNumber at h
  simp only at h
  split at h
  · rename_i value hvalue
    have hle := decodeInteger_le (Nat.zero_le _) hvalue
    split_ifs at h hle with hneg hmax
    · obtain rfl := Except.ok.inj h
      refine .int ?_ ?_
      · omega
      · unfold maxInt
        omega
    · obtain rfl := Except.ok.inj h
      unfold maxInt at hmax
      refine .int (by omega) ?_
      unfold maxInt
      omega
    · obtain rfl := Except.ok.inj h
      unfold maxInt at hmax
      refine .uint ?_ (by omega)
      unfold maxInt
      omega
  · split at h
    · rename_i d hd
      obtain rfl := Except.ok.inj h
      exact .real (decodeDouble_finite hd)
    · cases h

/-- **What the reader returns fits.** By induction on the fuel, for the three functions at once;
the loops carry the members and the items read so far, and what is left is the end of the
document. -/
theorem readValue_fits {K S : Str → Prop} {document : Str} (hdocument : Decodes K S document)
    (fuel : ℕ) :
    (∀ nodes cs v rest, cs <:+ document → readValue fuel nodes cs = .ok (v, rest) →
      v.Fits K S (stackLimit + 1 - nodes) ∧ rest <:+ cs) ∧
    (∀ nodes name members cs v rest, cs <:+ document → nodes ≤ stackLimit →
      (Value.object members).Fits K S (stackLimit + 1 - nodes) →
      readObject fuel nodes name members cs = .ok (v, rest) →
      v.Fits K S (stackLimit + 1 - nodes) ∧ rest <:+ cs) ∧
    (∀ nodes items cs v rest, cs <:+ document → nodes ≤ stackLimit →
      (Value.array items).Fits K S (stackLimit + 1 - nodes) →
      readArray fuel nodes items cs = .ok (v, rest) →
      v.Fits K S (stackLimit + 1 - nodes) ∧ rest <:+ cs) := by
  induction fuel with
  | zero =>
    refine ⟨?_, ?_, ?_⟩ <;> intros <;> rename_i h <;> cases h
  | succ fuel ih =>
    -- One part for each function; none calls another but with less fuel.
    obtain ⟨ihValue, ihObject, ihArray⟩ := ih
    refine ⟨?_, ?_, ?_⟩
    · intro nodes cs v rest hcs h
      rw [readValue] at h
      split_ifs at h with hnodes
      obtain ⟨htoken, hstring⟩ := skipCommentTokens_string_spec cs
      generalize skipCommentTokens cs = tok at h htoken hstring
      obtain ⟨⟨type, text⟩, after⟩ := tok
      simp only at h htoken hstring
      have hafter := htoken.trans hcs
      obtain ⟨d, hd⟩ : ∃ d, stackLimit + 1 - nodes = d + 1 := ⟨stackLimit - nodes, by omega⟩
      cases type
      -- A token is a part of the document, so `hdocument` speaks of what it decodes to.
      case objectBegin =>
        obtain ⟨hv, hrest⟩ := ihObject nodes [] [] after v rest hafter (by omega)
          (by rw [hd]; exact .empty) h
        exact ⟨hv, hrest.trans htoken⟩
      case arrayBegin =>
        -- An empty array is closed here, any other is left to the loop.
        simp only at h
        have hspaces : skipSpaces after <:+ after := List.dropWhile_suffix _
        split at h
        · rename_i tail hskip
          obtain ⟨rfl, rfl⟩ := Prod.mk.inj (Except.ok.inj h)
          rw [hskip] at hspaces
          rw [hd]
          exact ⟨.array (List.forall_mem_nil _),
            ((List.suffix_cons ']' tail).trans hspaces).trans htoken⟩
        · obtain ⟨hv, hrest⟩ := ihArray nodes [] _ v rest (hspaces.trans hafter) (by omega)
            (by rw [hd]; exact .array (List.forall_mem_nil _)) h
          exact ⟨hv, (hrest.trans hspaces).trans htoken⟩
      case number =>
        obtain ⟨w, hnumber, h⟩ := bind_eq_ok.1 h
        obtain ⟨rfl, rfl⟩ := Prod.mk.inj (Except.ok.inj h)
        rw [hd]
        exact ⟨decodeNumber_fits hnumber, htoken⟩
      case string =>
        obtain ⟨s, hdecode, h⟩ := bind_eq_ok.1 h
        obtain ⟨w, hvalue, h⟩ := bind_eq_ok.1 h
        obtain ⟨rfl, rfl⟩ := Prod.mk.inj (Except.ok.inj h)
        obtain ⟨hle, rfl⟩ := valueOfString_eq_ok hvalue
        rw [hd]
        exact ⟨.string (hdocument.string ((hstring rfl).mono hcs) hdecode hle), htoken⟩
      case true =>
        obtain ⟨rfl, rfl⟩ := Prod.mk.inj (Except.ok.inj h)
        rw [hd]
        exact ⟨.boolean, htoken⟩
      case false =>
        obtain ⟨rfl, rfl⟩ := Prod.mk.inj (Except.ok.inj h)
        rw [hd]
        exact ⟨.boolean, htoken⟩
      case null =>
        obtain ⟨rfl, rfl⟩ := Prod.mk.inj (Except.ok.inj h)
        rw [hd]
        exact ⟨.null, htoken⟩
      all_goals cases h
    · intro nodes name members cs v rest hcs hnodes hmembers h
      rw [readObject] at h
      obtain ⟨htoken, hstring⟩ := skipCommentTokens_string_spec cs
      generalize skipCommentTokens cs = tok at h htoken hstring
      obtain ⟨⟨type, text⟩, afterName⟩ := tok
      simp only at h htoken hstring
      -- The object ends, or the name is no string, or a member is read.
      split_ifs at h with hclose hne
      · obtain ⟨rfl, rfl⟩ := Prod.mk.inj (Except.ok.inj h)
        exact ⟨hmembers, htoken⟩
      · obtain ⟨key, -, h⟩ := bind_eq_ok.1 h
        cases h
      obtain ⟨key, hdecode, h⟩ := bind_eq_ok.1 h
      obtain ⟨⟨w, after⟩, hw, h⟩ := bind_eq_ok.1 h
      have hkey := hdocument.key ((hstring (not_not.1 hne)).mono hcs) hdecode
      have hcolon := (readToken_spec afterName).1.trans htoken
      obtain ⟨hvalue, hafter⟩ := ihValue (nodes + 1) _ w after (hcolon.trans hcs) hw
      have hcomma := (readToken_spec after).1.trans (hafter.trans hcolon)
      have hskip := (skipCommentTokens_string_spec (readToken after).2).1.trans hcomma
      -- The member's value may be one level less deep, and goes into the object under its key.
      have hmembers' : (Value.object (ObjectValues.put (cZString key) w members)).Fits K S
          (stackLimit + 1 - nodes) := by
        obtain ⟨d, hd⟩ : ∃ d, stackLimit + 1 - nodes = d + 1 := ⟨stackLimit - nodes, by omega⟩
        have hd' : stackLimit + 1 - (nodes + 1) = d := by omega
        rw [hd] at hmembers ⊢
        rw [hd'] at hvalue
        exact Value.Fits.put hkey hvalue hmembers
      simp only at h
      split_ifs at h
      -- A comment before the separator, then no comment; each closes the object or goes on.
      · obtain ⟨rfl, rfl⟩ := Prod.mk.inj (Except.ok.inj h)
        exact ⟨hmembers', hskip⟩
      · obtain ⟨hv, hrest⟩ := ihObject nodes key _ _ v rest (hskip.trans hcs) hnodes hmembers' h
        exact ⟨hv, hrest.trans hskip⟩
      · obtain ⟨rfl, rfl⟩ := Prod.mk.inj (Except.ok.inj h)
        exact ⟨hmembers', hcomma⟩
      · obtain ⟨hv, hrest⟩ := ihObject nodes key _ _ v rest (hcomma.trans hcs) hnodes hmembers' h
        exact ⟨hv, hrest.trans hcomma⟩
    · intro nodes items cs v rest hcs hnodes hitems h
      rw [readArray] at h
      obtain ⟨⟨w, after⟩, hw, h⟩ := bind_eq_ok.1 h
      obtain ⟨hvalue, hafter⟩ := ihValue (nodes + 1) cs w after hcs hw
      have htoken := (skipCommentTokens_string_spec after).1.trans hafter
      have hitems' : (Value.array (items ++ [w])).Fits K S (stackLimit + 1 - nodes) := by
        obtain ⟨d, hd⟩ : ∃ d, stackLimit + 1 - nodes = d + 1 := ⟨stackLimit - nodes, by omega⟩
        have hd' : stackLimit + 1 - (nodes + 1) = d := by omega
        rw [hd] at hitems ⊢
        rw [hd'] at hvalue
        cases hitems with | array hitems => ?_
        refine .array fun u hu => ?_
        rcases List.mem_append.1 hu with hu | hu
        · exact hitems u hu
        · exact List.mem_singleton.1 hu ▸ hvalue
      simp only at h
      -- The array ends, or goes on with the items so far, or the separator is wrong.
      split at h
      · obtain ⟨rfl, rfl⟩ := Prod.mk.inj (Except.ok.inj h)
        exact ⟨hitems', htoken⟩
      · obtain ⟨hv, hrest⟩ := ihArray nodes _ _ v rest (htoken.trans hcs) hnodes hitems' h
        exact ⟨hv, hrest.trans htoken⟩
      · cases h

theorem parse_fits {K S : Str → Prop} {document : Str} {v : Value}
    (hdocument : Decodes K S document) (h : parse document = .ok (some v)) :
    v.Fits K S stackLimit := by
  unfold parse at h
  split at h
  · rename_i root rest hread
    obtain rfl := Option.some.inj (Except.ok.inj h)
    exact ((readValue_fits hdocument _).1 1 document root rest List.suffix_rfl hread).1
  · cases h
  · cases h

/-- **What is accepted is well formed.** Whatever the document, its value nests no deeper than
`stackLimit`, every integer is of the type of its size, every double is finite, the members of an
object are in the order of their keys with no key twice, and nothing is longer than the document. -/
theorem parse_wellFormed {document : Str} {v : Value} (h : parse document = .ok (some v)) :
    v.Fits (KeyFits document.length) (StringFits document.length) stackLimit :=
  parse_fits (decodes_fits document) h

/-- An object with its keys out of order, one of them twice. -/
theorem parse_wellFormed_object :
    (Value.object [(['a'], .int 3), (['b'], .array [])]).Fits (KeyFits 20) (StringFits 20)
      stackLimit := by
  have hread : parse "\x7b\"b\":1,\"a\":3,\"b\":[]\x7d".toList =
      .ok (some (.object [(['a'], .int 3), (['b'], .array [])])) := by
    decide +kernel
  exact parse_wellFormed hread

end Reader

end WsSignalServer.Json
