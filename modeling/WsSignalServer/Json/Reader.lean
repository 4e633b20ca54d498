import WsSignalServer.Json.Value

/-!
# `Json::Reader`

The recursive-descent reader behind `reader.parse(message, jinput)`, with the features
`Features::all()` switches on: comments are skipped and any value may be the root. The position
`current_` is what is left of the document, and a token carries its text.

A document ends in one of three ways: a root value, a syntax error (`parse` returns false), or
an exception. The exceptions are not in what `reader.h` promises of `parse`, but a text of 1001
opening brackets already raises one. After the first error the reader only skips tokens and still
returns false, so the recovery is left out, with the list of messages that nobody reads; so are the
comments.

The recursion runs on fuel. `readValue_spec` shows by induction on it that every token takes at
least one character, hence that twice the length of the document is enough
(`parse_not_exhausted`).
-/

namespace WsSignalServer.Json

inductive TokenType where
  | endOfStream | objectBegin | objectEnd | arrayBegin | arrayEnd | string | number
  | true | false | null | arraySeparator | memberSeparator | comment | error
  deriving DecidableEq, Repr

/-- A token and the text from `start_` to `end_`. `readToken` returns false exactly when the
type is `error`. -/
structure Token where
  type : TokenType
  text : Str
  deriving DecidableEq, Repr

/-- Why no value was read. `exhausted` is the end of the fuel. -/
inductive Failure where
  | syntaxError
  | raised (e : Exception)
  | exhausted
  deriving DecidableEq, Repr

namespace Reader

/-- `stackLimit_g`. -/
def stackLimit : ℕ := 1000

/-! ## Tokens -/

def skipSpaces (cs : Str) : Str :=
  cs.dropWhile fun c => c = ' ' || c = '\t' || c = '\r' || c = '\n'

/-- The characters left after `pattern`, if `cs` starts with it. -/
def matchPattern (pattern cs : Str) : Option Str :=
  if pattern.isPrefixOf cs then some (cs.drop pattern.length) else none

/-- After `/*`. When a single character is left, the loop of the source is over and the last
`getNextChar` alone decides: `/*/` is a comment at the end of a document. -/
def readCStyleComment : Str → Bool × Str
  | [] => (.false, [])
  | [c] => (c = '/', [])
  | c :: d :: cs => if c = '*' ∧ d = '/' then (.true, cs) else readCStyleComment (d :: cs)

/-- After `//`, up to the end of the line: `\n`, `\r\n` or `\r`. -/
def readCppStyleComment : Str → Str
  | [] => []
  | '\n' :: cs => cs
  | '\r' :: '\n' :: cs => cs
  | '\r' :: cs => cs
  | _ :: cs => readCppStyleComment cs

def readComment : Str → Bool × Str
  | '*' :: cs => readCStyleComment cs
  | '/' :: cs => (.true, readCppStyleComment cs)
  | cs => (.false, cs.tail)

/-- After the opening quote: the character behind a backslash is skipped. -/
def readString : Str → Bool × Str
  | [] => (.false, [])
  | '"' :: cs => (.true, cs)
  | '\\' :: _ :: cs => readString cs
  | _ :: cs => readString cs

/-- The fractional part of a number, if there is one. -/
def skipFraction : Str → Str
  | '.' :: cs => cs.dropWhile isDigit
  | cs => cs

/-- The exponential part of a number, if there is one. -/
def skipExponent : Str → Str
  | 'e' :: '+' :: cs | 'e' :: '-' :: cs | 'E' :: '+' :: cs | 'E' :: '-' :: cs
  | 'e' :: cs | 'E' :: cs => cs.dropWhile isDigit
  | cs => cs

/-- After the first character of a number: each part goes as far as it can and may be empty. -/
def readNumber (cs : Str) : Str := skipExponent (skipFraction (cs.dropWhile isDigit))

/-- The token that starts with `c`, and what follows it. -/
def scan (c : Char) (cs : Str) : TokenType × Str :=
  let literal (type : TokenType) (pattern : String) : TokenType × Str :=
    match matchPattern pattern.toList cs with
    | some rest => (type, rest)
    | none => (.error, cs)
  match c with
  | '{' => (.objectBegin, cs)
  | '}' => (.objectEnd, cs)
  | '[' => (.arrayBegin, cs)
  | ']' => (.arrayEnd, cs)
  | '"' => let (ok, rest) := readString cs; (if ok then .string else .error, rest)
  | '/' => let (ok, rest) := readComment cs; (if ok then .comment else .error, rest)
  | 't' => literal .true "rue"
  | 'f' => literal .false "alse"
  | 'n' => literal .null "ull"
  | ',' => (.arraySeparator, cs)
  | ':' => (.memberSeparator, cs)
  | '\x00' => (.endOfStream, cs)
  | c => if isDigit c || c = '-' then (.number, readNumber cs) else (.error, cs)

def readToken (cs : Str) : Token × Str :=
  match skipSpaces cs with
  | [] => (⟨.endOfStream, []⟩, [])
  | c :: cs =>
    let (type, rest) := scan c cs
    (⟨type, c :: cs.take (cs.length - rest.length)⟩, rest)

/-- The first token that is not a comment. -/
def skipCommentTokens (cs : Str) : Token × Str := go cs.length cs
where
  go : ℕ → Str → Token × Str
    | 0, cs => readToken cs
    | fuel + 1, cs =>
      let (token, rest) := readToken cs
      if token.type = .comment then go fuel rest else (token, rest)

/-! ## Strings -/

def hexDigit (c : Char) : Option ℕ :=
  if '0' ≤ c ∧ c ≤ '9' then some (c.toNat - '0'.toNat)
  else if 'a' ≤ c ∧ c ≤ 'f' then some (c.toNat - 'a'.toNat + 10)
  else if 'A' ≤ c ∧ c ≤ 'F' then some (c.toNat - 'A'.toNat + 10)
  else none

def decodeUnicodeEscapeSequence : Str → Option (ℕ × Str)
  | a :: b :: c :: d :: cs => do
    let a ← hexDigit a
    let b ← hexDigit b
    let c ← hexDigit c
    let d ← hexDigit d
    return (((a * 16 + b) * 16 + c) * 16 + d, cs)
  | _ => none

/-- A high surrogate takes a second escape; the reader does not check that this is a low
surrogate. -/
def decodeUnicodeCodePoint (cs : Str) : Option (ℕ × Str) := do
  let (unicode, cs) ← decodeUnicodeEscapeSequence cs
  if 0xD800 ≤ unicode ∧ unicode ≤ 0xDBFF then
    match cs with
    | '\\' :: 'u' :: cs =>
      let (surrogatePair, cs) ← decodeUnicodeEscapeSequence cs
      return (0x10000 + ((unicode &&& 0x3FF) <<< 10) + (surrogatePair &&& 0x3FF), cs)
    | _ => none
  else return (unicode, cs)

/-- The bytes of a code point, each as a `Char`. -/
def codePointToUTF8 (cp : ℕ) : Str :=
  if cp ≤ 0x7f then [Char.ofNat cp]
  else if cp ≤ 0x7FF then
    [Char.ofNat (0xC0 ||| (0x1f &&& (cp >>> 6))), Char.ofNat (0x80 ||| (0x3f &&& cp))]
  else if cp ≤ 0xFFFF then
    [Char.ofNat (0xE0 ||| (0xf &&& (cp >>> 12))), Char.ofNat (0x80 ||| (0x3f &&& (cp >>> 6))),
      Char.ofNat (0x80 ||| (0x3f &&& cp))]
  else if cp ≤ 0x10FFFF then
    [Char.ofNat (0xF0 ||| (0x7 &&& (cp >>> 18))), Char.ofNat (0x80 ||| (0x3f &&& (cp >>> 12))),
      Char.ofNat (0x80 ||| (0x3f &&& (cp >>> 6))), Char.ofNat (0x80 ||| (0x3f &&& cp))]
  else []

/-- The character a one-letter escape stands for. -/
def escape : Char → Option Char
  | '"' => some '"'
  | '/' => some '/'
  | '\\' => some '\\'
  | 'b' => some '\x08'
  | 'f' => some '\x0c'
  | 'n' => some '\n'
  | 'r' => some '\r'
  | 't' => some '\t'
  | _ => none

/-- The characters between the quotes, decoded; every round takes at least one. -/
def decodeChars : ℕ → Str → Option Str
  | _, [] => some []
  | 0, _ :: _ => none
  | _ + 1, '"' :: _ => some []
  | _ + 1, ['\\'] => none
  | fuel + 1, '\\' :: 'u' :: cs => do
    let (unicode, cs) ← decodeUnicodeCodePoint cs
    let decoded ← decodeChars fuel cs
    return codePointToUTF8 unicode ++ decoded
  | fuel + 1, '\\' :: e :: cs => do
    let c ← escape e
    let decoded ← decodeChars fuel cs
    return c :: decoded
  | fuel + 1, c :: cs => do
    let decoded ← decodeChars fuel cs
    return c :: decoded

/-- `decodeString(token, decoded)`: the text without its two quotes. -/
def decodeString (text : Str) : Except Failure Str :=
  let chars := text.tail.dropLast
  match decodeChars chars.length chars with
  | some decoded => .ok decoded
  | none => .error .syntaxError

/-- `Value(const String&)`: the length is cut to 32 bits and must leave room for its prefix. -/
def valueOfString (s : Str) : Except Failure Value :=
  let length := s.length % 2 ^ 32
  if length ≤ maxInt.toNat - 4 - 1 then .ok (.string (s.take length))
  else .error (.raised (.logicError
    "in Json::Value::duplicateAndPrefixStringValue(): length too big for prefixing"))

/-! ## Numbers -/

/-- The digits of an integer, or `none` when the token is no integer or exceeds
`maxIntegerValue`. -/
def decodeInteger (maxIntegerValue : ℕ) : ℕ → Str → Option ℕ
  | value, [] => some value
  | value, c :: cs =>
    let threshold := maxIntegerValue / 10
    let digit := c.toNat - '0'.toNat
    if !isDigit c then none
    else if threshold ≤ value ∧
        (threshold < value ∨ cs ≠ [] ∨ maxIntegerValue % 10 < digit) then none
    else decodeInteger maxIntegerValue (value * 10 + digit) cs

/-- A lone `-` has no digits and reads as zero. -/
def decodeNumber (text : Str) : Except Failure Value :=
  let isNegative := text.head? = some '-'
  let maxIntegerValue := if isNegative then 2 ^ 63 else 2 ^ 64 - 1
  match decodeInteger maxIntegerValue 0 (if isNegative then text.tail else text) with
  | some value =>
    if isNegative then .ok (.int (-value))
    else if value ≤ maxInt.toNat then .ok (.int value)
    else .ok (.uint value)
  | none =>
    match decodeDouble text with
    | some d => .ok (.real d)
    | none => .error .syntaxError

/-! ## Values -/

mutual

/-- `readValue`, at a stack of `nodes` values. -/
def readValue : ℕ → ℕ → Str → Except Failure (Value × Str)
  | 0, _, _ => .error .exhausted
  | fuel + 1, nodes, cs =>
    if stackLimit < nodes then
      .error (.raised (.runtimeError "Exceeded stackLimit in readValue()."))
    else
      let (token, cs) := skipCommentTokens cs
      match token.type with
      | .objectBegin => readObject fuel nodes [] [] cs
      | .arrayBegin =>
        match skipSpaces cs with
        | ']' :: cs => .ok (.array [], cs)
        | cs => readArray fuel nodes [] cs
      | .number => do return (← decodeNumber token.text, cs)
      | .string => do return (← valueOfString (← decodeString token.text), cs)
      | .true => .ok (.boolean .true, cs)
      | .false => .ok (.boolean .false, cs)
      | .null => .ok (.null, cs)
      | _ => .error .syntaxError

/-- The loop of `readObject`. `name` is the previous member's name, so that a `}` also closes
the object after an empty name and a comma. After a value, a comment lets any token pass for
the separator. -/
def readObject : ℕ → ℕ → Str → ObjectValues → Str → Except Failure (Value × Str)
  | 0, _, _, _, _ => .error .exhausted
  | fuel + 1, nodes, name, members, cs =>
    let (tokenName, cs) := skipCommentTokens cs
    if tokenName.type = .objectEnd ∧ name = [] then .ok (.object members, cs)
    else if tokenName.type ≠ .string then .error .syntaxError
    else do
      let name ← decodeString tokenName.text
      let (colon, cs) := readToken cs
      if colon.type ≠ .memberSeparator then .error .syntaxError
      else do
        let (value, cs) ← readValue fuel (nodes + 1) cs
        let members := members.put (cZString name) value
        let (comma, cs) := readToken cs
        if comma.type ≠ .objectEnd ∧ comma.type ≠ .arraySeparator ∧ comma.type ≠ .comment then
          .error .syntaxError
        else
          let (comma, cs) := if comma.type = .comment then skipCommentTokens cs else (comma, cs)
          if comma.type = .objectEnd then .ok (.object members, cs)
          else readObject fuel nodes name members cs

/-- The loop of `readArray`. -/
def readArray : ℕ → ℕ → List Value → Str → Except Failure (Value × Str)
  | 0, _, _, _ => .error .exhausted
  | fuel + 1, nodes, items, cs => do
    let (value, cs) ← readValue fuel (nodes + 1) cs
    let items := items ++ [value]
    let (token, cs) := skipCommentTokens cs
    match token.type with
    | .arrayEnd => .ok (.array items, cs)
    | .arraySeparator => readArray fuel nodes items cs
    | _ => .error .syntaxError

end

/-- `reader.parse(document, root)`: the root, or `none` for a return of false. -/
@[irreducible] def parse (document : Str) : Except Exception (Option Value) :=
  match readValue (2 * document.length + 1) 1 document with
  | .ok (root, _) => .ok (some root)
  | .error (.raised e) => .error e
  | .error _ => .ok none

/-! ## Every token takes a character -/

theorem readCStyleComment_length (cs : Str) : (readCStyleComment cs).2.length ≤ cs.length := by
  fun_induction readCStyleComment cs with
  | case4 c d cs _ ih => exact ih.trans (Nat.le_succ _)
  | _ => simp only [List.length_nil, List.length_cons]; omega

theorem readCppStyleComment_length (cs : Str) : (readCppStyleComment cs).length ≤ cs.length := by
  fun_induction readCppStyleComment cs with
  | case5 c cs _ _ _ ih => exact ih.trans (Nat.le_succ _)
  | _ => simp only [List.length_nil, List.length_cons]; omega

theorem readComment_length (cs : Str) : (readComment cs).2.length ≤ cs.length := by
  unfold readComment
  split
  · exact (readCStyleComment_length _).trans (Nat.le_succ _)
  · exact (readCppStyleComment_length _).trans (Nat.le_succ _)
  · exact (List.tail_sublist cs).length_le

theorem readString_length (cs : Str) : (readString cs).2.length ≤ cs.length := by
  fun_induction readString cs with
  | case3 c cs ih => exact ih.trans ((Nat.le_succ _).trans (Nat.le_succ _))
  | case4 c cs _ _ ih => exact ih.trans (Nat.le_succ _)
  | _ => simp

theorem length_dropWhile_le (p : Char → Bool) (cs : Str) : (cs.dropWhile p).length ≤ cs.length :=
  (List.dropWhile_suffix p).length_le

theorem skipFraction_length (cs : Str) : (skipFraction cs).length ≤ cs.length := by
  unfold skipFraction
  split
  · exact (length_dropWhile_le _ _).trans (Nat.le_succ _)
  · exact le_rfl

theorem skipExponent_length (cs : Str) : (skipExponent cs).length ≤ cs.length := by
  unfold skipExponent
  split <;> first
    | exact le_rfl
    | exact (length_dropWhile_le _ _).trans (by simp only [List.length_cons]; omega)

theorem readNumber_length (cs : Str) : (readNumber cs).length ≤ cs.length :=
  (skipExponent_length _).trans ((skipFraction_length _).trans (length_dropWhile_le _ _))

theorem scan_length (c : Char) (cs : Str) : (scan c cs).2.length ≤ cs.length := by
  have hliteral (pattern : Str) (rest : Str) (h : matchPattern pattern cs = some rest) :
      rest.length ≤ cs.length := by
    unfold matchPattern at h
    split_ifs at h
    rw [← Option.some.inj h, List.length_drop]
    omega
  unfold scan
  split <;> try exact le_rfl
  · exact readString_length cs
  · exact readComment_length cs
  iterate 3
    · simp only
      split
      · exact hliteral _ _ ‹_›
      · exact le_rfl
  · split_ifs
    · exact readNumber_length cs
    · exact le_rfl

/-- A token other than the end of the document leaves less to read. -/
theorem readToken_length (cs : Str) :
    (readToken cs).2.length ≤ cs.length ∧
      ((readToken cs).1.type ≠ .endOfStream → (readToken cs).2.length < cs.length) := by
  have hspaces : (skipSpaces cs).length ≤ cs.length := length_dropWhile_le _ _
  unfold readToken
  split
  · exact ⟨Nat.zero_le _, fun h => absurd rfl h⟩
  · rename_i c rest hrest
    rw [hrest, List.length_cons] at hspaces
    have hscan := scan_length c rest
    exact ⟨by simp only; omega, fun _ => by simp only; omega⟩

theorem skipCommentTokens_go_spec (fuel : ℕ) (cs : Str) (hfuel : cs.length ≤ fuel) :
    (skipCommentTokens.go fuel cs).1.type ≠ .comment ∧
      (skipCommentTokens.go fuel cs).2.length ≤ cs.length ∧
      ((skipCommentTokens.go fuel cs).1.type ≠ .endOfStream →
        (skipCommentTokens.go fuel cs).2.length < cs.length) := by
  induction fuel generalizing cs with
  | zero =>
    obtain rfl : cs = [] := List.eq_nil_of_length_eq_zero (Nat.le_zero.1 hfuel)
    exact ⟨by decide, le_rfl, fun h => absurd rfl h⟩
  | succ fuel ih =>
    obtain ⟨hle, hlt⟩ := readToken_length cs
    unfold skipCommentTokens.go
    by_cases hcomment : (readToken cs).1.type = .comment
    · have hless := hlt (by rw [hcomment]; decide)
      obtain ⟨hne, hle', hlt'⟩ := ih (readToken cs).2 (by omega)
      simp only [if_pos hcomment]
      exact ⟨hne, hle'.trans hle, fun h => (hlt' h).trans_le hle⟩
    · simp only [if_neg hcomment]
      exact ⟨hcomment, hle, hlt⟩

/-- The loop of `skipCommentTokens` ends on a token that is no comment. -/
theorem skipCommentTokens_spec (cs : Str) :
    (skipCommentTokens cs).1.type ≠ .comment ∧
      (skipCommentTokens cs).2.length ≤ cs.length ∧
      ((skipCommentTokens cs).1.type ≠ .endOfStream →
        (skipCommentTokens cs).2.length < cs.length) :=
  skipCommentTokens_go_spec cs.length cs le_rfl

/-! ## The fuel suffices -/

/-- What the recursion promises of a result: with `need` fuel it did not run out, and a value
took at least one of the `len` characters. -/
def Progress (fuel need len : ℕ) (r : Except Failure (Value × Str)) : Prop :=
  (need ≤ fuel → r ≠ .error .exhausted) ∧ ∀ v rest, r = .ok (v, rest) → rest.length < len

theorem Progress.syntaxError (fuel need len : ℕ) :
    Progress fuel need len (.error .syntaxError) := ⟨fun _ => nofun, nofun⟩

theorem Progress.raised (fuel need len : ℕ) (e : Exception) :
    Progress fuel need len (.error (.raised e)) := ⟨fun _ => nofun, nofun⟩

theorem Progress.ok {fuel need len : ℕ} {v : Value} {rest : Str} (h : rest.length < len) :
    Progress fuel need len (.ok (v, rest)) :=
  ⟨fun _ => nofun, fun _ _ he => (Prod.mk.inj (Except.ok.inj he)).2 ▸ h⟩

/-- A smaller promise: more fuel needed, more characters taken. -/
theorem Progress.mono {fuel fuel' need need' len len' : ℕ} {r : Except Failure (Value × Str)}
    (h : Progress fuel need len r) (hneed : need' ≤ fuel' → need ≤ fuel) (hlen : len ≤ len') :
    Progress fuel' need' len' r :=
  ⟨fun hf => h.1 (hneed hf), fun v rest he => (h.2 v rest he).trans_le hlen⟩

/-- Sequencing: the first part must not run out of fuel, the second keeps the promise on every
result of the first. -/
theorem Progress.bind {α : Type} {fuel need len : ℕ} {r : Except Failure α}
    {f : α → Except Failure (Value × Str)} (hr : need ≤ fuel → r ≠ .error .exhausted)
    (hf : ∀ a, r = .ok a → Progress fuel need len (f a)) :
    Progress fuel need len (r >>= f) := by
  cases r with
  | ok a => exact hf a rfl
  | error e => exact ⟨fun h he => hr h (by rw [Except.error.inj he]), nofun⟩

theorem decodeString_ne_exhausted (text : Str) : decodeString text ≠ .error .exhausted := by
  unfold decodeString
  simp only
  split <;> nofun

theorem valueOfString_ne_exhausted (s : Str) : valueOfString s ≠ .error .exhausted := by
  unfold valueOfString
  simp only
  split <;> nofun

theorem decodeNumber_ne_exhausted (text : Str) : decodeNumber text ≠ .error .exhausted := by
  unfold decodeNumber
  simp only
  split
  · split_ifs <;> nofun
  · split <;> nofun

/-- **The reader makes progress.** By induction on the fuel, for the three functions at once:
two units for each character are enough, and one more to enter an array. -/
theorem readValue_spec (fuel : ℕ) :
    (∀ nodes cs, Progress fuel (2 * cs.length + 1) cs.length (readValue fuel nodes cs)) ∧
    (∀ nodes name members cs,
      Progress fuel (2 * cs.length + 1) cs.length (readObject fuel nodes name members cs)) ∧
    (∀ nodes items cs,
      Progress fuel (2 * cs.length + 2) cs.length (readArray fuel nodes items cs)) := by
  induction fuel with
  | zero =>
    refine ⟨fun nodes cs => ?_, fun nodes name members cs => ?_, fun nodes items cs => ?_⟩
    · exact ⟨fun h => absurd h (by omega), nofun⟩
    · exact ⟨fun h => absurd h (by omega), nofun⟩
    · exact ⟨fun h => absurd h (by omega), nofun⟩
  | succ fuel ih =>
    -- Before each recursive call a token is taken, which pays for the unit of fuel.
    obtain ⟨ihValue, ihObject, ihArray⟩ := ih
    refine ⟨fun nodes cs => ?_, fun nodes name members cs => ?_, fun nodes items cs => ?_⟩
    · obtain ⟨-, -, hlt⟩ := skipCommentTokens_spec cs
      rw [readValue]
      split_ifs
      · exact .raised _ _ _ _
      simp only
      generalize skipCommentTokens cs = tok at hlt ⊢
      obtain ⟨⟨type, text⟩, rest⟩ := tok
      cases type
      case objectBegin =>
        have hless := hlt nofun
        exact (ihObject nodes [] [] rest).mono (by simp only at hless; omega) hless.le
      case arrayBegin =>
        have hless := hlt nofun
        simp only at hless ⊢
        -- Here the array pays with the bracket; its loop takes no token before the first element.
        have hspaces : (skipSpaces rest).length ≤ rest.length := length_dropWhile_le _ _
        split
        · rename_i rest' hrest
          rw [hrest, List.length_cons] at hspaces
          exact .ok (by omega)
        · exact (ihArray nodes [] _).mono (by omega) (by omega)
      case number =>
        exact .bind (fun _ => decodeNumber_ne_exhausted text) fun v _ => .ok (hlt nofun)
      case string =>
        refine .bind (fun _ => decodeString_ne_exhausted text) fun decoded _ => ?_
        exact .bind (fun _ => valueOfString_ne_exhausted decoded) fun v _ => .ok (hlt nofun)
      case true => exact .ok (hlt nofun)
      case false => exact .ok (hlt nofun)
      case null => exact .ok (hlt nofun)
      all_goals exact .syntaxError _ _ _
    · obtain ⟨-, -, hlt⟩ := skipCommentTokens_spec cs
      rw [readObject]
      generalize skipCommentTokens cs = tok at hlt ⊢
      obtain ⟨⟨type, text⟩, rest⟩ := tok
      simp only at hlt ⊢
      split_ifs with hclose hstring hseparator
      · exact .ok (hlt (by rw [hclose.1]; nofun))
      · exact .syntaxError _ _ _
      · exact .bind (fun _ => decodeString_ne_exhausted text) fun _ _ => .syntaxError _ _ _
      -- The name and the colon go before the value is read, so its fuel is enough.
      have hname : rest.length < cs.length := hlt (by rw [not_not.1 hstring]; nofun)
      refine .bind (fun _ => decodeString_ne_exhausted text) fun name _ => ?_
      obtain ⟨-, hcolon⟩ := readToken_length rest
      have hcolon := hcolon (by rw [not_not.1 hseparator]; nofun)
      have hvalue := ihValue (nodes + 1) (readToken rest).2
      refine .bind (fun hf => hvalue.1 (by omega)) fun ⟨value, after⟩ hok => ?_
      have hafter := hvalue.2 value after hok
      obtain ⟨hcomma, -⟩ := readToken_length after
      obtain ⟨-, hskip, -⟩ := skipCommentTokens_spec (readToken after).2
      simp only
      split_ifs
      -- A comment before the separator, then no comment; each closes the object or goes on.
      · exact .syntaxError _ _ _
      · exact .ok (by omega)
      · exact (ihObject nodes name _ _).mono (by omega) (by omega)
      · exact .ok (by simp only; omega)
      · exact (ihObject nodes name _ _).mono (by simp only; omega) (by simp only; omega)
    · have hvalue := ihValue (nodes + 1) cs
      rw [readArray]
      refine .bind (fun hf => hvalue.1 (by omega)) fun ⟨value, after⟩ hok => ?_
      have hafter := hvalue.2 value after hok
      obtain ⟨-, hle, -⟩ := skipCommentTokens_spec after
      simp only
      split
      · exact .ok (by omega)
      · exact (ihArray nodes _ _).mono (by omega) (by omega)
      · exact .syntaxError _ _ _

/-- The fuel `parse` hands out is never used up: its `none` is a syntax error. -/
theorem parse_not_exhausted (document : Str) :
    readValue (2 * document.length + 1) 1 document ≠ .error .exhausted :=
  ((readValue_spec _).1 1 document).1 le_rfl

end Reader

end WsSignalServer.Json
