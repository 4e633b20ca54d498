import WsSignalServer.Json.Fits
import WsSignalServer.Json.Quote

/-!
# `toStyledString`

`BuiltStyledStreamWriter` of `json_writer.cpp`, with the settings of `StreamWriterBuilder`: tabs for
indentation, one line for each element and each member, 17 digits, strings in ASCII. With the
comment style `All` every array that is not empty goes over several lines, so `childValues_` is
never filled. The comments themselves are not part of a `Value` here.

* `writeValue_spec`: what is written is a JSON text, by the grammar, of the value with its strings
  repaired.
* `decodeNumber_asString`: a number is read back from its text.
-/

namespace WsSignalServer.Json

/-! ## The writer -/

/-- The members of `BuiltStyledStreamWriter` that change while it writes. -/
structure Writer where
  sout : Str
  indentString : Str
  indented : Bool

namespace Writer

/-- `StreamWriterBuilder::setDefaults`, as `newStreamWriter` takes it. -/
def indentation : Str := ['\t']
def colonSymbol : Str := " : ".toList
def nullSymbol : Str := "null".toList
def endingLineFeedSymbol : Str := []

/-- `*sout_ << value`. -/
def put (w : Writer) (value : Str) : Writer := { w with sout := w.sout ++ value }

def writeIndent (w : Writer) : Writer := w.put ('\n' :: w.indentString)

/-- `if (!indented_) writeIndent()`. -/
def ensureIndent (w : Writer) : Writer := if w.indented then w else w.writeIndent

def writeWithIndent (w : Writer) (value : Str) : Writer :=
  { w.ensureIndent.put value with indented := false }

def indent (w : Writer) : Writer := { w with indentString := w.indentString ++ indentation }

def unindent (w : Writer) : Writer :=
  { w with indentString := w.indentString.take (w.indentString.length - indentation.length) }

mutual

def writeValue (w : Writer) : Value → Writer
  | .null => w.put nullSymbol
  | .int n => w.put (intToString n)
  | .uint n => w.put (uintToString n)
  | .real d => w.put (realToString d)
  | .string s => w.put (valueToQuotedStringN s)
  | .boolean b => w.put (if b then "true".toList else "false".toList)
  | .array vs =>
    if vs.isEmpty then w.put "[]".toList
    else (writeElements (w.writeWithIndent ['[']).indent vs).unindent.writeWithIndent [']']
  | .object ms =>
    if ms.isEmpty then w.put "\x7b\x7d".toList
    else (writeMembers (w.writeWithIndent ['{']).indent ms).unindent.writeWithIndent ['}']

/-- The loop of `writeArrayValue`. -/
def writeElements (w : Writer) : List Value → Writer
  | [] => w
  | v :: vs =>
    let w := { writeValue { w.ensureIndent with indented := true } v with indented := false }
    if vs.isEmpty then w else writeElements (w.put [',']) vs

/-- The loop over the members of an object. -/
def writeMembers (w : Writer) : List (Str × Value) → Writer
  | [] => w
  | (name, childValue) :: ms =>
    let w := writeValue ((w.writeWithIndent (valueToQuotedStringN name)).put colonSymbol) childValue
    if ms.isEmpty then w else writeMembers (w.put [',']) ms

end

/-- `write(root, sout)`, from an empty stream. -/
def write (root : Value) : Str :=
  ((writeValue ⟨[], [], true⟩ root).put endingLineFeedSymbol).sout

end Writer

def Value.toStyledString (v : Value) : Str := Writer.write v ++ ['\n']

/-! ## What it stands for -/

mutual

/-- A value with its strings and keys repaired. Two keys may become one; the later member counts. -/
def Value.repaired : Value → Value
  | .string s => .string (repair s)
  | .array vs => .array (Value.repairedArray vs)
  | .object ms => .object (ObjectValues.putAll [] (Value.repairedMembers ms))
  | .null => .null
  | .int n => .int n
  | .uint n => .uint n
  | .real d => .real d
  | .boolean b => .boolean b

def Value.repairedArray : List Value → List Value
  | [] => []
  | v :: vs => v.repaired :: Value.repairedArray vs

def Value.repairedMembers : List (Str × Value) → List (Str × Value)
  | [] => []
  | (name, v) :: ms => (repair name, v.repaired) :: Value.repairedMembers ms

end

/-- What a key and a string must keep to after repair, to be read back in full. -/
def WritableKey (k : Str) : Prop := (repair k).length < 2 ^ 30

def WritableString (s : Str) : Prop := (repair s).length ≤ Reader.maxStringLength

/-! ### Numbers -/

/-- The numeral of an integer. -/
def Numeral.ofInt (n : ℤ) : Numeral where
  neg := n < 0
  whole := uintToString n.natAbs
  frac := []
  exponent := none
  whole_ne := Numeral.uintToString_ne_nil _
  whole_isDigit := Numeral.uintToString_isDigit _
  frac_isDigit := List.forall_mem_nil _

theorem Numeral.ofInt_text (n : ℤ) : (Numeral.ofInt n).text = intToString n := by
  unfold Numeral.ofInt Numeral.text intToString
  by_cases h : n < 0 <;> simp [h, Numeral.fracText, Numeral.expText]

theorem Numeral.ofInt_text_nat (n : ℕ) : (Numeral.ofInt n).text = uintToString n := by
  rw [Numeral.ofInt_text, intToString, if_neg (by omega), Int.natAbs_natCast]

/-- An integer stands for itself. -/
theorem Numeral.ofInt_integer (n : ℤ) : (Numeral.ofInt n).integer? = some n := by
  unfold Numeral.integer? Numeral.ofInt
  simp only [and_self, if_true, natOfDigits_uintToString, decide_eq_true_eq]
  congr 1
  split_ifs <;> omega

namespace Reader

/-- An integer is read back. -/
theorem decodeNumber_int {n : ℤ} (hmin : -2 ^ 63 ≤ n) (hmax : n ≤ maxInt) :
    decodeNumber (intToString n) = .ok (.int n) := by
  rw [← Numeral.ofInt_text]
  exact decodeNumber_text (.int (Numeral.ofInt_integer n) hmin hmax)

theorem decodeNumber_uint {n : ℕ} (hmin : maxInt < n) (hmax : n < 2 ^ 64) :
    decodeNumber (uintToString n) = .ok (.uint n) := by
  rw [← Numeral.ofInt_text_nat]
  exact decodeNumber_text (.uint (Numeral.ofInt_integer n) hmin hmax)

/-- A real is read back. -/
theorem decodeNumber_real {d : Double} (hd : d.Finite) :
    decodeNumber (realToString d) = .ok (.real d) := by
  obtain ⟨n, htext, hstands⟩ := realToString_standsFor hd
  rw [← htext]
  exact decodeNumber_text hstands

/-- **A number is kept.** Whatever the reader makes of a number token has a text, and that text is
read as the same number: an integer in all its digits, a double as the nearest one again. -/
theorem decodeNumber_asString {text : Str} {v : Value} (h : decodeNumber text = .ok v) :
    ∃ t, v.asString = .ok t ∧ decodeNumber t = .ok v := by
  have hfits : v.Fits (fun _ => False) (fun _ => False) 1 := decodeNumber_fits h
  cases hfits with
  | int hmin hmax => exact ⟨_, rfl, decodeNumber_int hmin hmax⟩
  | uint hmin hmax => exact ⟨_, rfl, decodeNumber_uint hmin hmax⟩
  | real hx => exact ⟨_, rfl, decodeNumber_real hx⟩
  | string hs => exact hs.elim
  | null | boolean | array | object =>
    unfold decodeNumber at h
    simp only at h
    split at h
    · split_ifs at h <;> cases h
    · split at h <;> cases h

/-- A tenth is no double, and comes back as the double it was read as. -/
theorem tenth_asString : ∃ t, (Value.real ⟨false, 0x1999999999999A * 2 ^ 1018⟩).asString = .ok t ∧
    decodeNumber t = .ok (.real ⟨false, 0x1999999999999A * 2 ^ 1018⟩) :=
  decodeNumber_asString (show decodeNumber "0.1".toList = _ by decide +kernel)

end Reader

/-! ### The text of a value -/

namespace Reader

variable {P : Str → Value → Prop}

theorem Elements.append_blank {text b : Str} {vs : List Value} (h : Elements P text vs)
    (hb : Blank b) : Elements P (text ++ b) vs := by
  induction h with
  | one ha ht hb' =>
    rw [List.append_assoc, List.append_assoc]
    exact .one ha ht (hb'.append hb)
  | cons ha ht hb' _ ih =>
    rw [List.append_assoc, List.append_assoc, List.append_assoc, List.cons_append]
    exact .cons ha ht hb' ih

theorem Members.append_blank {text b : Str} {ms : List (Str × Value)} (h : Members P text ms)
    (hb : Blank b) : Members P (text ++ b) ms := by
  induction h with
  | one hk ha ht hb' =>
    rw [List.append_assoc, List.append_assoc, List.append_assoc]
    exact .one hk ha ht (hb'.append hb)
  | cons hk ha ht hb' _ ih =>
    rw [List.append_assoc, List.append_assoc, List.append_assoc, List.append_assoc,
      List.cons_append]
    exact .cons hk ha ht hb' ih

end Reader

namespace Writer

open Reader

/-- What `writeWithIndent` writes, but for the blanks in front. -/
theorem writeWithIndent_spec (w : Writer) (hw : Blank w.indentString) (value : Str) :
    ∃ a, Blank a ∧ (w.writeWithIndent value).sout = w.sout ++ (a ++ value) ∧
      (w.writeWithIndent value).indentString = w.indentString := by
  unfold writeWithIndent ensureIndent
  split_ifs
  · exact ⟨[], Blank.nil, rfl, rfl⟩
  · refine ⟨'\n' :: w.indentString, List.forall_mem_cons.2 ⟨by decide, hw⟩, ?_, rfl⟩
    exact List.append_assoc _ _ _

theorem blank_indent {w : Writer} (hw : Blank w.indentString) : Blank w.indent.indentString :=
  hw.append (List.forall_mem_singleton.2 (by decide))

/-- `indent`, some writing that keeps the indentation, `unindent`. -/
theorem unindent_indent {w w' : Writer} (h : w'.indentString = w.indent.indentString) :
    w'.unindent.indentString = w.indentString := by
  unfold unindent
  rw [h]
  simp [indent, indentation]

/-- What `writeValue` promises of a value. -/
def Writes (d : ℕ) (v : Value) : Prop :=
  ∀ w : Writer, Blank w.indentString → ∃ a t, Blank a ∧ Denotes d t v.repaired ∧
    (writeValue w v).sout = w.sout ++ (a ++ t) ∧ (writeValue w v).indentString = w.indentString

theorem writeElements_spec {d : ℕ} {vs : List Value} (hne : vs ≠ []) (h : ∀ v ∈ vs, Writes d v)
    (w : Writer) (hw : Blank w.indentString) : ∃ text,
    Elements (Denotes d) text (Value.repairedArray vs) ∧
      (writeElements w vs).sout = w.sout ++ text ∧
      (writeElements w vs).indentString = w.indentString := by
  induction vs generalizing w with
  | nil => exact absurd rfl hne
  | cons v vs ih =>
    obtain ⟨a', ha', hsout', hindent'⟩ : ∃ a, Blank a ∧ w.ensureIndent.sout = w.sout ++ a ∧
        w.ensureIndent.indentString = w.indentString := by
      unfold ensureIndent
      split_ifs
      · exact ⟨[], Blank.nil, (List.append_nil _).symm, rfl⟩
      · exact ⟨'\n' :: w.indentString, List.forall_mem_cons.2 ⟨by decide, hw⟩, rfl, rfl⟩
    obtain ⟨a, t, ha, ht, hsout, hindent⟩ := h v List.mem_cons_self
      { w.ensureIndent with indented := true } (by simpa [hindent'] using hw)
    rw [writeElements]
    generalize writeValue _ v = w₁ at hsout hindent ⊢
    simp only [hsout', hindent'] at hsout hindent
    by_cases hvs : vs = []
    · subst hvs
      refine ⟨(a' ++ a) ++ (t ++ []), .one (ha'.append ha) ht .nil, ?_, hindent⟩
      simpa using hsout
    · have hempty : vs.isEmpty = false := by simpa using hvs
      obtain ⟨text, htext, hsout₂, hindent₂⟩ := ih hvs (fun u hu => h u (List.mem_cons_of_mem v hu))
        (({ w₁ with indented := false } : Writer).put [',']) (by simpa [put, hindent] using hw)
      refine ⟨(a' ++ a) ++ (t ++ ([] ++ ',' :: text)), .cons (ha'.append ha) ht .nil htext, ?_, ?_⟩
      · simp only [hempty, Bool.false_eq_true, if_false, hsout₂]
        simp [put, hsout]
      · simp only [hempty, Bool.false_eq_true, if_false, hindent₂]
        simpa [put] using hindent

theorem writeMembers_spec {d : ℕ} {ms : List (Str × Value)} (hne : ms ≠ [])
    (hkeys : ∀ m ∈ ms, WritableKey m.1) (h : ∀ m ∈ ms, Writes d m.2) (w : Writer)
    (hw : Blank w.indentString) : ∃ text,
    Members (Denotes d) text (Value.repairedMembers ms) ∧
      (writeMembers w ms).sout = w.sout ++ text ∧
      (writeMembers w ms).indentString = w.indentString := by
  induction ms generalizing w with
  | nil => exact absurd rfl hne
  | cons m ms ih =>
    obtain ⟨name, v⟩ := m
    obtain ⟨body, chars, hquoted, hbody, hutf8⟩ := valueToQuotedStringN_chars name
    obtain ⟨a', ha', hsout', hindent'⟩ := writeWithIndent_spec w hw (valueToQuotedStringN name)
    obtain ⟨a, t, ha, ht, hsout, hindent⟩ := h (name, v) List.mem_cons_self
      ((w.writeWithIndent (valueToQuotedStringN name)).put colonSymbol)
      (by simpa [put, hindent'] using hw)
    have hspace : Blank [' '] := List.forall_mem_singleton.2 (by decide)
    have hlength : (repair name).length < 2 ^ 30 := hkeys (name, v) List.mem_cons_self
    have hname : Name (a' ++ '"' :: (body ++ '"' :: ([' '] ++ [':']))) (repair name) := by
      rw [← hutf8] at hlength ⊢
      exact .mk ha' hbody hlength hspace
    rw [hquoted] at hsout' hindent'
    rw [writeMembers]
    generalize writeValue _ v = w₁ at hsout hindent ⊢
    simp only [put, hquoted, hsout', hindent', colonSymbol] at hsout hindent
    -- The last member has no comma behind it; for the others the indentation is as it was before.
    by_cases hms : ms = []
    · subst hms
      refine ⟨_, .one hname (hspace.append ha) ht .nil, ?_, ?_⟩
      · simpa using hsout
      · simpa using hindent
    · have hempty : ms.isEmpty = false := by simpa using hms
      obtain ⟨text, htext, hsout₂, hindent₂⟩ := ih hms
        (fun m hm => hkeys m (List.mem_cons_of_mem _ hm))
        (fun m hm => h m (List.mem_cons_of_mem _ hm)) (w₁.put [','])
        (by simpa [put, hindent] using hw)
      refine ⟨_, .cons hname (hspace.append ha) ht .nil htext, ?_, ?_⟩
      · simp only [hempty, Bool.false_eq_true, if_false, hsout₂]
        simp [put, hsout]
      · simp only [hempty, Bool.false_eq_true, if_false, hindent₂]
        simpa [put] using hindent

/-- What stands between brackets: each line of it one level deeper, and the closing bracket on the
old level again. -/
theorem brackets_spec {P : Str → Prop} {body : Writer → Writer}
    (hbody : ∀ w, Blank w.indentString → ∃ text, P text ∧ (body w).sout = w.sout ++ text ∧
      (body w).indentString = w.indentString) (left right : Char) (w : Writer)
    (hw : Blank w.indentString) : ∃ a text b, Blank a ∧ P text ∧ Blank b ∧
    ((body (w.writeWithIndent [left]).indent).unindent.writeWithIndent [right]).sout =
        w.sout ++ (a ++ left :: ((text ++ b) ++ [right])) ∧
      ((body (w.writeWithIndent [left]).indent).unindent.writeWithIndent [right]).indentString =
        w.indentString := by
  obtain ⟨a, ha, hsout, hindent⟩ := writeWithIndent_spec w hw [left]
  obtain ⟨text, htext, hsout₁, hindent₁⟩ := hbody (w.writeWithIndent [left]).indent
    (blank_indent (by rwa [hindent]))
  have hindent₂ := (unindent_indent hindent₁).trans hindent
  obtain ⟨b, hb, hsout₃, hindent₃⟩ := writeWithIndent_spec
    (body (w.writeWithIndent [left]).indent).unindent (by rwa [hindent₂]) [right]
  refine ⟨a, text, b, ha, htext, hb, ?_, hindent₃.trans hindent₂⟩
  -- Neither `indent` nor `unindent` writes anything.
  calc _ = (body (w.writeWithIndent [left]).indent).sout ++ (b ++ [right]) := hsout₃
    _ = (w.writeWithIndent [left]).sout ++ text ++ (b ++ [right]) := by rw [hsout₁]; rfl
    _ = w.sout ++ (a ++ left :: ((text ++ b) ++ [right])) := by
      rw [hsout]
      simp

/-- **What is written is the text of the repaired value.** By induction on the value as it fits;
the loops write the elements and the members one by one. -/
theorem writeValue_spec {d : ℕ} {v : Value} (hv : v.Fits WritableKey WritableString d) :
    Writes d v := by
  -- Numbers, strings and words are appended as they are; the blanks come with the brackets.
  induction hv with
  | null =>
    intro w _
    exact ⟨[], nullSymbol, Blank.nil, Node.null, by simp [writeValue, put],
      by simp [writeValue, put]⟩
  | @int d n hmin hmax =>
    intro w _
    have htext : Denotes (d + 1) (intToString n) (.int n) := by
      rw [← Numeral.ofInt_text]
      exact Node.number _ (.int (Numeral.ofInt_integer n) hmin hmax)
    exact ⟨[], _, Blank.nil, htext, by simp [writeValue, put], by simp [writeValue, put]⟩
  | @uint d n hmin hmax =>
    intro w _
    have htext : Denotes (d + 1) (uintToString n) (.uint n) := by
      rw [← Numeral.ofInt_text_nat]
      exact Node.number _ (.uint (Numeral.ofInt_integer n) hmin hmax)
    exact ⟨[], _, Blank.nil, htext, by simp [writeValue, put], by simp [writeValue, put]⟩
  | @real d x hx =>
    intro w _
    obtain ⟨n, hn, hstands⟩ := realToString_standsFor hx
    have htext : Denotes (d + 1) (realToString x) (.real x) := by
      rw [← hn]
      exact Node.number n hstands
    exact ⟨[], _, Blank.nil, htext, by simp [writeValue, put], by simp [writeValue, put]⟩
  | @string d s hs =>
    intro w _
    obtain ⟨body, chars, hquoted, hbody, hutf8⟩ := valueToQuotedStringN_chars s
    have htext : Denotes (d + 1) ('"' :: (body ++ ['"'])) (.string (repair s)) := by
      have hlength : (utf8 chars).length ≤ maxStringLength := hutf8 ▸ hs
      rw [← hutf8]
      exact Node.string hbody hlength
    refine ⟨[], _, Blank.nil, htext, ?_, by simp [writeValue, put]⟩
    simp [writeValue, put, hquoted]
  | @boolean d b =>
    intro w _
    cases b
    · exact ⟨[], _, Blank.nil, Node.boolFalse, by simp [writeValue, put], by simp [writeValue, put]⟩
    · exact ⟨[], _, Blank.nil, Node.boolTrue, by simp [writeValue, put], by simp [writeValue, put]⟩
  | @array d vs _ ih =>
    intro w hw
    by_cases hvs : vs = []
    · subst hvs
      exact ⟨[], _, Blank.nil, Node.emptyArray Blank.nil, by simp [writeValue, put],
        by simp [writeValue, put]⟩
    · have hempty : vs.isEmpty = false := by simpa using hvs
      obtain ⟨a, text, b, ha, htext, hb, hsout, hindent⟩ :=
        brackets_spec (writeElements_spec hvs ih) '[' ']' w hw
      refine ⟨a, '[' :: ((text ++ b) ++ [']']), ha, Node.array (htext.append_blank hb), ?_, ?_⟩
      · simpa only [writeValue, hempty, Bool.false_eq_true, if_false] using hsout
      · simpa only [writeValue, hempty, Bool.false_eq_true, if_false] using hindent
  | @object d ms hsorted hkeys _ ih =>
    intro w hw
    by_cases hms : ms = []
    · subst hms
      exact ⟨[], _, Blank.nil, Node.emptyObject Blank.nil, by simp [writeValue, put],
        by simp [writeValue, put]⟩
    · have hempty : ms.isEmpty = false := by simpa using hms
      obtain ⟨a, text, b, ha, htext, hb, hsout, hindent⟩ :=
        brackets_spec (writeMembers_spec hms hkeys ih) '{' '}' w hw
      refine ⟨a, '{' :: ((text ++ b) ++ ['}']), ha, Node.object (htext.append_blank hb), ?_, ?_⟩
      · simpa only [writeValue, hempty, Bool.false_eq_true, if_false] using hsout
      · simpa only [writeValue, hempty, Bool.false_eq_true, if_false] using hindent

end Writer

end WsSignalServer.Json
