import WsSignalServer.General.BasicString
import WsSignalServer.SignalServer

/-!
# The ICE server option

`main` reads the server offered to clients from a text `uri [username:password]`. It searches a
space, and then, in the text from the space on, the first `[`, `]` and `:`. The uri is assigned
when the space is found (`parseIceServer_uri`); the credentials when all three are, wherever they
are.

**Theorem (`parse_render`).** A text put together from the parts is read as these parts.

**Theorem (`rejectsMalformed_iff`).** A text without the three delimiters in their order is
rejected as a whole, and no length wraps, exactly when there is no space in it, or the delimiters
are there in their order, or one of them is missing and the uri is the one already set.
-/

namespace WsSignalServer

open General Json

/-! ## Reading the option -/

/-- `i3 - i1 - 1`, for the positions of `[` and `:`. -/
def usernameLength (iceServer : BasicString Char) : ℕ :=
  subSize (subSize (iceServer.find ':') (iceServer.find '[')) 1

/-- `i2 - i3 - 1`, for the positions of `:` and `]`. -/
def passwordLength (iceServer : BasicString Char) : ℕ :=
  subSize (subSize (iceServer.find ']') (iceServer.find ':')) 1

/-- The credentials, in the text from the space on. -/
def parseCredentials (g : ICE) (iceServer : BasicString Char) : Option ICE :=
  let i1 := iceServer.find '['
  let i2 := iceServer.find ']'
  let i3 := iceServer.find ':'
  if i1 ≠ npos ∧ i2 ≠ npos ∧ i3 ≠ npos then do
    let username ← iceServer.substr (i1 + 1) (usernameLength iceServer)
    let password ← iceServer.substr (i3 + 1) (passwordLength iceServer)
    return { g with username := username.chars, password := password.chars }
  else return g

/-- What `main` makes of `g_ice_server`. An exception of `substr` would be `none`. -/
def parseIceServer (g : ICE) (iceServer : BasicString Char) : Option ICE :=
  let ef := iceServer.find ' '
  if iceServer.chars ≠ [] ∧ ef ≠ npos then do
    let uri ← iceServer.substr 0 ef
    let iceServer ← iceServer.substr ef npos
    parseCredentials { g with uri := uri.chars } iceServer
  else return g

/-- The default of the option. -/
def defaultIceServer : BasicString Char where
  chars := "turn:115.231.220.242:8101?transport=tcp [ts1:12345678]".toList
  size_lt := by decide

variable {g : ICE} {s : BasicString Char} {before after : Str}

def delimiters : Str := ['[', ':', ']']

theorem forall_mem_delimiters {p : Char → Prop} :
    (∀ c ∈ delimiters, p c) ↔ p '[' ∧ p ':' ∧ p ']' := by
  simp [delimiters]

/-- What the credentials are read on. -/
theorem found_iff : (s.find '[' ≠ npos ∧ s.find ']' ≠ npos ∧ s.find ':' ≠ npos) ↔
    ∀ c ∈ delimiters, c ∈ s.chars := by
  simp only [BasicString.find_ne_npos_iff, forall_mem_delimiters]
  exact and_congr_right fun _ => and_comm

/-- Without a space nothing is read. -/
theorem parseIceServer_of_no_space (g : ICE) (h : ' ' ∉ s.chars) : parseIceServer g s = some g := by
  have hef : s.find ' ' = npos := not_not.1 fun hne => h (BasicString.find_ne_npos_iff.1 hne)
  simp [parseIceServer, hef]

/-- With a space the text before it becomes the uri. -/
theorem parseIceServer_of_space (g : ICE) (h : s.chars = before ++ ' ' :: after)
    (hbefore : ' ' ∉ before) : ∃ rest, rest.chars = ' ' :: after ∧
      parseIceServer g s = parseCredentials { g with uri := before } rest := by
  have hef : s.find ' ' = before.length := BasicString.find_eq_length h hbefore
  have hne : s.chars ≠ [] ∧ s.find ' ' ≠ npos := by
    refine ⟨?_, BasicString.find_ne_npos_iff.2 ?_⟩
    · simp [h]
    · simp [h]
  have hsplit : s.chars = [] ++ before ++ ' ' :: after := h
  obtain ⟨uri, huri, huriChars⟩ := BasicString.substr_eq hsplit rfl hef
  obtain ⟨rest, hrest, hrestChars⟩ := BasicString.substr_npos h hef
  refine ⟨rest, hrestChars, ?_⟩
  change s.substr 0 (s.find ' ') = some uri at huri
  simp [parseIceServer, if_pos hne, huri, hrest, huriChars]

/-! ## A text put together -/

/-- The text of a server, with anything after it. -/
def ICE.render (ice : ICE) (padding tail : Str) : Str :=
  ice.uri ++ ' ' :: padding ++ '[' :: ice.username ++ ':' :: ice.password ++ ']' :: tail

/-- The credentials between the first `[`, `:` and `]`. -/
theorem parseCredentials_of_split {before username password tail : Str} (g : ICE)
    (h : s.chars = before ++ '[' :: username ++ ':' :: password ++ ']' :: tail)
    (h₁ : '[' ∉ before) (h₃ : ':' ∉ before ++ '[' :: username)
    (h₂ : ']' ∉ before ++ '[' :: username ++ ':' :: password) :
    parseCredentials g s = some { g with username, password } := by
  have hopen : s.chars = before ++ '[' :: (username ++ ':' :: password ++ ']' :: tail) := by
    simp [h]
  have hcolon : s.chars = before ++ '[' :: username ++ ':' :: (password ++ ']' :: tail) := by
    simp [h]
  have hi₁ := BasicString.find_eq_length hopen h₁
  have hi₃ := BasicString.find_eq_length hcolon h₃
  have hi₂ := BasicString.find_eq_length h h₂
  simp only [List.length_append, List.length_cons] at hi₂ hi₃
  have hsize := s.size_lt
  simp only [h, List.length_append, List.length_cons] at hsize
  have husername : usernameLength s = username.length := by
    rw [usernameLength, hi₁, hi₃]
    apply subSize_pred_add
    omega
  have hpassword : passwordLength s = password.length := by
    rw [passwordLength, hi₂, hi₃]
    apply subSize_pred_add
    omega
  have hall : ∀ c ∈ delimiters, c ∈ s.chars := by
    rw [forall_mem_delimiters, h]
    simp
  have hfound := found_iff.2 hall
  obtain ⟨t₁, ht₁, hchars₁⟩ := BasicString.substr_after_find hcolon h₁ husername
  obtain ⟨t₂, ht₂, hchars₂⟩ := BasicString.substr_after_find h h₃ hpassword
  simp [parseCredentials, hfound, ht₁, ht₂, hchars₁, hchars₂]

/-- **A text is read as the parts it was put together from.** -/
theorem parse_render {ice : ICE} {padding tail : Str} (g : ICE)
    (h : s.chars = ice.render padding tail) (huri : ' ' ∉ ice.uri)
    (hpadding : '[' ∉ padding ∧ ']' ∉ padding ∧ ':' ∉ padding)
    (husername : ':' ∉ ice.username ∧ ']' ∉ ice.username) (hpassword : ']' ∉ ice.password) :
    parseIceServer g s = some ice := by
  have hsplit : s.chars = ice.uri ++ ' ' :: (padding ++ '[' :: ice.username ++ ':' ::
      ice.password ++ ']' :: tail) := by
    simp [h, ICE.render]
  obtain ⟨rest, hrest, hparse⟩ := parseIceServer_of_space g hsplit huri
  have hsplit' : rest.chars = (' ' :: padding) ++ '[' :: ice.username ++ ':' :: ice.password ++
      ']' :: tail := by
    simp [hrest]
  obtain ⟨hopen, hclose, hcolon⟩ := hpadding
  obtain ⟨hcolon', hclose'⟩ := husername
  rw [hparse]
  apply parseCredentials_of_split _ hsplit'
  · simp [hopen]
  · simp [hcolon, hcolon']
  · simp [hclose, hclose', hpassword]

/-- The default of the option is the default of the server. -/
theorem parse_render_default : parseIceServer ⟨[], [], []⟩ defaultIceServer = some ICE.default :=
  have h : defaultIceServer.chars = ICE.default.render [] [] := rfl
  parse_render _ h (by decide) (by decide) (by decide) (by decide)

/-! ## A malformed text -/

/-- The part from the first space on. -/
def fromSpace (s : BasicString Char) : BasicString Char where
  chars := s.chars.dropWhile (· ≠ ' ')
  size_lt := (List.dropWhile_suffix _).length_le.trans_lt s.size_lt

/-- The delimiters are there, and their first positions are in this order. -/
def Ordered (part : Str) : Prop :=
  (∀ c ∈ delimiters, c ∈ part) ∧
    part.idxOf '[' < part.idxOf ':' ∧ part.idxOf ':' < part.idxOf ']'

/-- The demand on a text: rejected as a whole when the delimiters are not in order, and no length
in use is a wrapped one. -/
structure RejectsMalformed (g : ICE) (s : BasicString Char) : Prop where
  unchanged : ¬ Ordered (fromSpace s).chars → parseIceServer g s = some g
  lengths : (∀ c ∈ delimiters, c ∈ (fromSpace s).chars) →
    (usernameLength (fromSpace s) : ℤ) = (fromSpace s).find ':' - (fromSpace s).find '[' - 1 ∧
    (passwordLength (fromSpace s) : ℤ) = (fromSpace s).find ']' - (fromSpace s).find ':' - 1

/-- The lengths do not wrap exactly when the delimiters are in order. -/
theorem lengths_iff (hall : ∀ c ∈ delimiters, c ∈ s.chars) :
    ((usernameLength s : ℤ) = s.find ':' - s.find '[' - 1 ∧
      (passwordLength s : ℤ) = s.find ']' - s.find ':' - 1) ↔ Ordered s.chars := by
  obtain ⟨hopen, hcolon, hclose⟩ := forall_mem_delimiters.1 hall
  rw [usernameLength, passwordLength, BasicString.subSize_find_iff hopen hcolon,
    BasicString.subSize_find_iff hcolon hclose, Ordered, and_iff_right hall]

/-- A missing delimiter leaves the credentials alone. -/
theorem parseCredentials_of_missing (g : ICE) (h : ¬ ∀ c ∈ delimiters, c ∈ s.chars) :
    parseCredentials g s = some g := by
  rw [← found_iff] at h
  simp [parseCredentials, h]

theorem fromSpace_of_no_space (h : ' ' ∉ s.chars) : (fromSpace s).chars = [] := by
  simp only [fromSpace, List.dropWhile_eq_nil_iff]
  intro c hc
  have hne : c ≠ ' ' := ne_of_mem_of_not_mem hc h
  simp [hne]

/-- With a space, the uri is assigned before the delimiters are looked for. -/
theorem parseIceServer_eq (g : ICE) (h : ' ' ∈ s.chars) :
    parseIceServer g s =
      parseCredentials { g with uri := s.chars.takeWhile (· ≠ ' ') } (fromSpace s) := by
  obtain ⟨before, after, hsplit, hbefore⟩ := List.eq_append_cons_of_mem h
  have hall : ∀ c ∈ before, (decide (c ≠ ' ')) = true := by
    intro c hc
    have hne : c ≠ ' ' := ne_of_mem_of_not_mem hc hbefore
    simp [hne]
  have htake : s.chars.takeWhile (· ≠ ' ') = before := by
    rw [hsplit, List.takeWhile_append_of_pos hall]
    simp
  have hdrop : (fromSpace s).chars = ' ' :: after := by
    change s.chars.dropWhile (· ≠ ' ') = ' ' :: after
    rw [hsplit, List.dropWhile_append_of_pos hall]
    simp
  obtain ⟨rest, hrest, hparse⟩ := parseIceServer_of_space g hsplit hbefore
  have heq : rest = fromSpace s := BasicString.ext (hrest.trans hdrop.symm)
  rw [hparse, htake, heq]

theorem parseCredentials_uri (g : ICE) (s : BasicString Char) :
    ∃ ice, parseCredentials g s = some ice ∧ ice.uri = g.uri := by
  by_cases hall : ∀ c ∈ delimiters, c ∈ s.chars
  · obtain ⟨hopen, hcolon, hclose⟩ := forall_mem_delimiters.1 hall
    have hfound := found_iff.2 hall
    obtain ⟨username, husername⟩ :=
      BasicString.substr_isSome (usernameLength s) (BasicString.find_lt hopen)
    obtain ⟨password, hpassword⟩ :=
      BasicString.substr_isSome (passwordLength s) (BasicString.find_lt hcolon)
    simp [parseCredentials, hfound, husername, hpassword]
  · exact ⟨g, parseCredentials_of_missing g hall, rfl⟩

/-- **What becomes of the uri.** No text raises an exception, and every text with a space sets the
uri, whatever comes after the space. -/
theorem parseIceServer_uri (g : ICE) (s : BasicString Char) :
    ∃ ice, parseIceServer g s = some ice ∧
      ice.uri = if ' ' ∈ s.chars then s.chars.takeWhile (· ≠ ' ') else g.uri := by
  by_cases hspace : ' ' ∈ s.chars
  · rw [parseIceServer_eq g hspace, if_pos hspace]
    exact parseCredentials_uri _ _
  · rw [parseIceServer_of_no_space g hspace, if_neg hspace]
    exact ⟨g, rfl, rfl⟩

/-- **When a malformed text is rejected as a whole.** The uri is assigned as soon as there is a
space, and the order of the delimiters is not looked at. -/
theorem rejectsMalformed_iff : RejectsMalformed g s ↔ ' ' ∉ s.chars ∨ Ordered (fromSpace s).chars ∨
    (∃ c ∈ delimiters, c ∉ (fromSpace s).chars) ∧ g.uri = s.chars.takeWhile (· ≠ ' ') := by
  by_cases hspace : ' ' ∈ s.chars
  · have hparse := parseIceServer_eq g hspace
    by_cases hall : ∀ c ∈ delimiters, c ∈ (fromSpace s).chars
    · -- all three there: what is left is their order
      have hmissing : ¬ ∃ c ∈ delimiters, c ∉ (fromSpace s).chars := by simpa using hall
      simp only [hspace, not_true, hmissing, false_and, or_false, false_or]
      constructor
      · intro hrejects
        exact (lengths_iff hall).1 (hrejects.lengths hall)
      · intro hordered
        exact ⟨fun hnot => absurd hordered hnot, fun _ => (lengths_iff hall).2 hordered⟩
    · -- one missing: the uri is all that changes
      have hordered : ¬ Ordered (fromSpace s).chars := fun hordered => hall hordered.1
      have hmissing : ∃ c ∈ delimiters, c ∉ (fromSpace s).chars := by simpa using hall
      rw [parseCredentials_of_missing _ hall] at hparse
      simp only [hspace, not_true, hordered, hmissing, true_and, false_or]
      constructor
      · intro hrejects
        have heq := hparse.symm.trans (hrejects.unchanged hordered)
        exact (congrArg ICE.uri (Option.some.inj heq)).symm
      · intro huri
        refine ⟨fun _ => ?_, fun hall' => absurd hall' hall⟩
        rw [hparse, ← huri]
  · have hnil := fromSpace_of_no_space hspace
    refine iff_of_true ⟨fun _ => parseIceServer_of_no_space g hspace, fun hall => ?_⟩ (.inl hspace)
    have hopen := (forall_mem_delimiters.1 hall).1
    simp [hnil] at hopen

/-- A uri, and no credentials after the space. -/
def uriAlone : BasicString Char where
  chars := "stun:example:3478 ".toList
  size_lt := by decide

/-- The colon comes before the brackets. -/
def colonFirst : BasicString Char where
  chars := "turn:example:3478 ts2:secret [realm]".toList
  size_lt := by decide

/-- The new uri is taken with the credentials of another server; and a length wraps, which makes
the username everything after `[`. -/
theorem malformed_accepted :
    (¬ Ordered (fromSpace uriAlone).chars ∧ parseIceServer ICE.default uriAlone =
      some { ICE.default with uri := "stun:example:3478".toList } ∧
      ¬ RejectsMalformed ICE.default uriAlone) ∧
    (¬ Ordered (fromSpace colonFirst).chars ∧ usernameLength (fromSpace colonFirst) = 2 ^ 64 - 9 ∧
      parseIceServer ICE.default colonFirst = some
        ⟨"turn:example:3478".toList, "realm]".toList, "secret [realm".toList⟩ ∧
      ¬ RejectsMalformed ICE.default colonFirst) := by
  have hAlone : ¬ Ordered (fromSpace uriAlone).chars := by
    have hpart : (fromSpace uriAlone).chars = [' '] := rfl
    simp [Ordered, delimiters, hpart]
  have hFirst : ¬ Ordered (fromSpace colonFirst).chars := by
    have hpart : (fromSpace colonFirst).chars = " ts2:secret [realm]".toList := rfl
    rw [hpart]
    intro hordered
    exact absurd hordered.2.1 (by decide)
  have hparseAlone : parseIceServer ICE.default uriAlone =
      some { ICE.default with uri := "stun:example:3478".toList } := rfl
  have hparseFirst : parseIceServer ICE.default colonFirst =
      some ⟨"turn:example:3478".toList, "realm]".toList, "secret [realm".toList⟩ := rfl
  refine ⟨⟨hAlone, hparseAlone, fun h => ?_⟩, hFirst, rfl, hparseFirst, fun h => ?_⟩
  · have heq := hparseAlone.symm.trans (h.unchanged hAlone)
    exact absurd (congrArg ICE.uri (Option.some.inj heq)) (by decide)
  · have heq := hparseFirst.symm.trans (h.unchanged hFirst)
    exact absurd (congrArg ICE.uri (Option.some.inj heq)) (by decide)

end WsSignalServer
