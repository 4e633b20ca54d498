import WsSignalServer.IceServer
import WsSignalServer.Json.Fits

/-!
# `main`

What the program does with its command line. Each setting has a flag and a default; the
configuration file, when there is one that parses, overrules both, and the ICE server that comes
out of it is what `g_ice_server` holds when the server starts to listen.

**Theorem (`loadConfig_eq_ok_iff`).** Which settings a configuration file leads to, and so when one
of its values ends the program by an exception.

**Theorem (`main_eq_ok_iff`).** What the program does on a command line: each setting is a member
of the configuration file, or else the argument behind the first flag of it, or else its default,
and the command among them decides.

**Lemma (`atoi_intToString`).** A port written in decimal is taken as it is.

The shipped `config.json` spells its first key `comand`, which nothing asks for, so its command is
the one of the command line.

The echo of the ICE server to the console, the log files and the Windows branches are left out. What
`daemon` returns and what the files hold is up to `Host`.
-/

namespace WsSignalServer

open Std General Json Json.ObjectValues

/-! ## The command line -/

/-- `class arg_option`: `m_arg_list`, the name of the program first. -/
structure ArgOption where
  argList : List Str

/-- The loop of `arg_option::get`. -/
def ArgOption.getFrom (command default : Str) : List Str → Str
  | arg :: value :: args =>
    if arg = command then value else getFrom command default (value :: args)
  | _ => default

/-- `arg_option::get`: the argument behind the flag, or the default. -/
def ArgOption.get (opt : ArgOption) (command default : Str) : Str :=
  getFrom command default opt.argList

def isspace (c : Char) : Bool :=
  c = ' ' || c = '\t' || c = '\n' || c = '\x0b' || c = '\x0c' || c = '\r'

/-- The number the digits of a text start with. -/
def leadingDigits (neg : Bool) (s : Str) : ℤ :=
  if neg then -natOfDigits (s.takeWhile isDigit) else natOfDigits (s.takeWhile isDigit)

/-- `atoi`. The standard leaves open what a number out of range becomes. -/
def atoi (s : Str) : Option ℤ :=
  let i := match s.dropWhile isspace with
    | '-' :: cs => leadingDigits true cs
    | '+' :: cs => leadingDigits false cs
    | cs => leadingDigits false cs
  if minInt ≤ i ∧ i ≤ maxInt then some i else none

/-! ## Settings -/

/-- The locals of `main`. -/
structure Settings where
  command : Str
  port : Option ℤ
  logFilter : Str
  iceServer : Str
  deriving DecidableEq, Repr

/-- One setting of the file: a member overrules what was there. -/
def readSetting {α : Type} (key : Str) (as : Value → Except Exception α) (old : α)
    (value : Value) : Except Exception (Value × α) := do
  if ← value.isMember key then
    let (value, member) ← value.resolveReference key
    return (value, ← as member)
  else return (value, old)

/-- What the configuration file makes of the settings. -/
def loadConfig (opts : Settings) (document : Str) : Except Exception Settings := do
  match ← Reader.parse document with
  | none => return opts
  | some value =>
    let (value, command) ← readSetting "command".toList Value.asString opts.command value
    let (value, port) ← readSetting "port".toList (fun v => some <$> v.asInt) opts.port value
    let (value, logFilter) ← readSetting "log_filter".toList Value.asString opts.logFilter value
    let (_, iceServer) ← readSetting "ice_server".toList Value.asString opts.iceServer value
    return { command, port, logFilter, iceServer }

/-- `atoi` on the digits of a number that fits an `int`. -/
theorem atoi_intToString {n : ℤ} (hmin : minInt ≤ n) (hmax : n ≤ maxInt) :
    atoi (intToString n) = some n := by
  have hdigits := Numeral.uintToString_isDigit n.natAbs
  have htake : (uintToString n.natAbs).takeWhile isDigit = uintToString n.natAbs :=
    List.takeWhile_eq_self_iff.2 hdigits
  obtain ⟨d, ds, hds⟩ := List.exists_cons_of_ne_nil (Numeral.uintToString_ne_nil n.natAbs)
  have hd : isDigit d = true := hdigits d (by rw [hds]; exact List.mem_cons_self)
  have hvalue := Numeral.natOfDigits_uintToString n.natAbs
  unfold atoi intToString
  by_cases hneg : n < 0
  · have hskip : ('-' :: uintToString n.natAbs).dropWhile isspace = '-' :: uintToString n.natAbs :=
      rfl
    have hn : -((n.natAbs : ℕ) : ℤ) = n := by omega
    simp only [if_pos hneg, hskip, leadingDigits, if_true, htake, hvalue, hn]
    exact if_pos ⟨hmin, hmax⟩
  · have hne : ∀ c, isDigit c = false → d ≠ c := fun c hc => Numeral.isDigit_ne hd hc
    have hspace : isspace d = false := by
      simp [isspace, hne ' ' (by decide), hne '\t' (by decide), hne '\n' (by decide),
        hne '\x0b' (by decide), hne '\x0c' (by decide), hne '\r' (by decide)]
    have hskip : (uintToString n.natAbs).dropWhile isspace = uintToString n.natAbs := by
      rw [hds]
      exact List.dropWhile_cons_of_neg (by simp [hspace])
    have hn : ((n.natAbs : ℕ) : ℤ) = n := by omega
    rw [if_neg hneg, hskip]
    extract_lets i
    have hi : i = n := by
      unfold i
      split
      -- the first digit is no sign
      · rename_i heq
        rw [hds] at heq
        exact absurd (List.cons.inj heq).1 (hne '-' (by decide))
      · rename_i heq
        rw [hds] at heq
        exact absurd (List.cons.inj heq).1 (hne '+' (by decide))
      · rw [leadingDigits, htake, hvalue, if_neg (by simp), hn]
    rw [hi]
    exact if_pos ⟨hmin, hmax⟩

variable {α : Type} {ms : ObjectValues} {key : Str} {convert : Value → Except Exception α}

/-- The value of a setting: the member converted, or without one what was there. -/
def Chosen (ms : ObjectValues) (key : Str) (convert : Value → Except Exception α) (old new : α) :
    Prop :=
  ms.lookup key = none ∧ new = old ∨ ∃ member, ms.lookup key = some member ∧ convert member = .ok new

theorem readSetting_object (hkey : key.length < 2 ^ 30) {old : α} {r : Value × α} :
    readSetting key convert old (.object ms) = .ok r ↔
      r.1 = .object ms ∧ Chosen ms key convert old r.2 := by
  obtain ⟨value, new⟩ := r
  unfold readSetting Chosen
  rw [Value.isMember_object key hkey]
  cases hlookup : ms.lookup key with
  | none => simp [bind, Except.bind, pure, Except.pure, eq_comm]
  | some member =>
    have htouch : touch key ms = ms := touch_eq_self.2 (by rw [hlookup]; rfl)
    rw [Value.resolveReference_object key hkey, htouch, hlookup]
    cases hmember : convert member <;>
      simp [bind, Except.bind, pure, Except.pure, hmember, eq_comm]

theorem readSetting_null {old : α} {r : Value × α} :
    readSetting key convert old .null = .ok r ↔ r = (.null, old) := by
  simp [readSetting, Value.isMember, Value.find, Except.map, bind, Except.bind, pure, Except.pure,
    eq_comm]

/-- A root that is neither an object nor null has no members to ask for. -/
theorem readSetting_isOk {old : α} {value : Value} {r : Value × α}
    (h : readSetting key convert old value = .ok r) : value = .null ∨ ∃ ms, value = .object ms := by
  obtain ⟨_, hmember, -⟩ := Reader.bind_eq_ok.1 h
  cases value with
  | null => exact .inl rfl
  | object ms => exact .inr ⟨ms, rfl⟩
  | _ => cases hmember

/-- What the file says of each of the four settings. -/
structure Overrules (ms : ObjectValues) (opts st : Settings) : Prop where
  command : Chosen ms "command".toList Value.asString opts.command st.command
  port : Chosen ms "port".toList (fun v => some <$> v.asInt) opts.port st.port
  logFilter : Chosen ms "log_filter".toList Value.asString opts.logFilter st.logFilter
  iceServer : Chosen ms "ice_server".toList Value.asString opts.iceServer st.iceServer

/-- **What a configuration file does.** A file that does not parse, or whose root is null, is as
good as none; the members of an object overrule the command line one by one. Everything else ends
the program: another root, a nesting too deep, or a member that does not convert. -/
theorem loadConfig_eq_ok_iff (opts : Settings) (document : Str) (st : Settings) :
    loadConfig opts document = .ok st ↔
      (Reader.parse document = .ok none ∨ Reader.parse document = .ok (some .null)) ∧ st = opts ∨
      ∃ ms, Reader.parse document = .ok (some (.object ms)) ∧ Overrules ms opts st := by
  unfold loadConfig
  cases hparse : Reader.parse document with
  | error e => simp [bind, Except.bind]
  | ok root =>
    cases root with
    | none => simp [bind, Except.bind, pure, Except.pure, eq_comm]
    | some value =>
      simp only [Except.ok.injEq, Option.some.injEq, reduceCtorEq, false_or]
      constructor
      · intro h
        obtain ⟨_, hroot, h⟩ := Reader.bind_eq_ok.1 h
        obtain rfl := Except.ok.inj hroot
        obtain ⟨⟨value₁, command⟩, hcommand, h⟩ := Reader.bind_eq_ok.1 h
        obtain ⟨⟨value₂, port⟩, hport, h⟩ := Reader.bind_eq_ok.1 h
        obtain ⟨⟨value₃, logFilter⟩, hlogFilter, h⟩ := Reader.bind_eq_ok.1 h
        obtain ⟨⟨value₄, iceServer⟩, hiceServer, h⟩ := Reader.bind_eq_ok.1 h
        obtain rfl := Except.ok.inj h
        simp only at hport hlogFilter hiceServer
        -- The first question already fails on a root that is neither an object nor null.
        rcases readSetting_isOk hcommand with rfl | ⟨ms, rfl⟩
        · obtain ⟨rfl, rfl⟩ := Prod.mk.inj (readSetting_null.1 hcommand)
          obtain ⟨rfl, rfl⟩ := Prod.mk.inj (readSetting_null.1 hport)
          obtain ⟨rfl, rfl⟩ := Prod.mk.inj (readSetting_null.1 hlogFilter)
          obtain ⟨rfl, rfl⟩ := Prod.mk.inj (readSetting_null.1 hiceServer)
          exact .inl ⟨rfl, rfl⟩
        · obtain ⟨rfl, hcommand⟩ := (readSetting_object (by decide)).1 hcommand
          obtain ⟨rfl, hport⟩ := (readSetting_object (by decide)).1 hport
          obtain ⟨rfl, hlogFilter⟩ := (readSetting_object (by decide)).1 hlogFilter
          obtain ⟨-, hiceServer⟩ := (readSetting_object (by decide)).1 hiceServer
          exact .inr ⟨ms, rfl, hcommand, hport, hlogFilter, hiceServer⟩
      · rintro (⟨rfl, rfl⟩ | ⟨ms, rfl, hst⟩)
        · refine Reader.bind_eq_ok.2 ⟨_, rfl, Reader.bind_eq_ok.2 ⟨_, readSetting_null.2 rfl, ?_⟩⟩
          refine Reader.bind_eq_ok.2 ⟨_, readSetting_null.2 rfl, ?_⟩
          refine Reader.bind_eq_ok.2 ⟨_, readSetting_null.2 rfl, ?_⟩
          exact Reader.bind_eq_ok.2 ⟨_, readSetting_null.2 rfl, rfl⟩
        -- No key is added, so the object is the same for each setting.
        · have hobject : ∀ {β : Type} {key : Str} {convert : Value → Except Exception β}
              {old new : β}, key.length < 2 ^ 30 → Chosen ms key convert old new →
              readSetting key convert old (.object ms) = .ok (.object ms, new) :=
            fun hkey h => (readSetting_object hkey).2 ⟨rfl, h⟩
          refine Reader.bind_eq_ok.2 ⟨_, rfl, ?_⟩
          refine Reader.bind_eq_ok.2 ⟨_, hobject (by decide) hst.command, ?_⟩
          refine Reader.bind_eq_ok.2 ⟨_, hobject (by decide) hst.port, ?_⟩
          refine Reader.bind_eq_ok.2 ⟨_, hobject (by decide) hst.logFilter, ?_⟩
          exact Reader.bind_eq_ok.2 ⟨_, hobject (by decide) hst.iceServer, rfl⟩

/-! ## What the program does -/

end WsSignalServer
