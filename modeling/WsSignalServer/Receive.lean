import WsSignalServer.Registry

/-!
# When `OnReceive` returns

`process_messages` has no handler around `OnReceive`, so an exception that escapes it ends the
server for everybody. `OnReceive` tests that the text parses and that the root has a `signal`,
but not that the root can have members, nor that any member converts to the type a handler reads
it as.

**Theorem (`onReceive_returns_iff`).** From a reachable state `OnReceive` returns exactly when
the reader does not raise, the root (if the text parses) is null or an object, and every member
that the requested handler converts is convertible (`Accepts`). A sign-in also needs an id that
is not taken.

`[]` is such a text that does not return.
-/

namespace WsSignalServer

open Std General Json Json.ObjectValues

variable {H : Type} [LinearOrder H] {s : SignalServer H}

/-! ## What the handlers convert -/

/-- A `type` must be convertible to a string, and the `from` of an offer to an integer. -/
def AcceptsOffer (ms : ObjectValues) : Prop :=
  ∀ type, ms.lookup "type".toList = some type → type.isConvertibleToString = true ∧
    (type.asString = .ok "offer".toList → (member ms "from".toList).isConvertibleToInt = true)

/-- The members that the handler of signal `type` needs. -/
def AcceptsMembers (s : SignalServer H) (ms : ObjectValues) (type : Str) : Prop :=
  if type = kSignIn then
    (member ms kName).isConvertibleToString = true ∧ (s.mapPeers.size : ℤ) < maxInt
  else if type = kSignOut then (member ms kID).isConvertibleToInt = true
  else if type = kMessage then
    (member ms "to".toList).isConvertibleToInt = true ∧ AcceptsOffer ms
  else if type = "exist".toList then (member ms "name".toList).isConvertibleToString = true
  else True

/-- An object the server can handle. -/
def AcceptsObject (s : SignalServer H) (ms : ObjectValues) : Prop :=
  ∀ signal, ms.lookup kSignal = some signal → signal.isConvertibleToString = true ∧
    ∀ type, signal.asString = .ok type → AcceptsMembers s ms type

/-- The results of the reader that the server can handle. -/
def Accepts (s : SignalServer H) : Except Exception (Option Value) → Prop
  | .error _ => False
  | .ok none | .ok (some .null) => True
  | .ok (some (.object ms)) => AcceptsObject s ms
  | .ok (some _) => False

/-! ## Requests that return -/

theorem exists_bind_iff {α β : Type} {m : Except Exception α} {f : α → Except Exception β}
    {P : β → Prop} : (∃ b, (m >>= f) = .ok b ∧ P b) ↔ ∃ a, m = .ok a ∧ ∃ b, f a = .ok b ∧ P b := by
  cases m with
  | error e =>
    constructor
    · intro h
      obtain ⟨b, hb, -⟩ := h
      cases hb
    · intro h
      obtain ⟨a, ha, -⟩ := h
      cases ha
  | ok a =>
    refine ⟨fun h => ⟨a, rfl, h⟩, fun h => ?_⟩
    obtain ⟨_, ha, hb⟩ := h
    cases ha
    exact hb

theorem exists_pure_iff {α : Type} {a : α} {P : α → Prop} :
    (∃ b, (pure a : Except Exception α) = .ok b ∧ P b) ↔ P a := by
  refine ⟨fun h => ?_, fun h => ⟨a, rfl, h⟩⟩
  obtain ⟨b, hb, hP⟩ := h
  cases hb
  exact hP

/-- What is read off a text returns when it is a request that returns. -/
theorem outcomeOf_returns_iff (env : Env H) (hdl : H) (s : SignalServer H)
    (r : Except Exception Request) : (outcomeOf env hdl s r).ending = none ↔
      ∃ request, r = .ok request ∧ (request.outcome env hdl s).ending = none := by
  cases r with
  | error e =>
    constructor
    · intro h
      cases h
    · intro h
      obtain ⟨_, hr, -⟩ := h
      cases hr
  | ok request =>
    refine ⟨fun h => ⟨request, rfl, h⟩, fun h => ?_⟩
    obtain ⟨_, hr, hreturn⟩ := h
    cases hr
    exact hreturn

/-- A sign-in needs an id, and a message to make sense as an offer if it is one. -/
theorem Request.returns_iff (hs : Registered s) (env : Env H) (hdl : H) (request : Request) :
    (request.outcome env hdl s).ending = none ↔ match request with
      | .signIn _ _ => (s.mapPeers.size : ℤ) < maxInt
      | .message _ _ offer => ∃ sender, offer = .ok sender
      | _ => True := by
  cases request with
  | signIn name nolist =>
    rw [← Int.not_le, ← hs.freshId_eq_none_iff]
    simp only [Request.outcome]
    cases s.freshId with
    | none =>
      refine ⟨fun h => ?_, fun h => absurd rfl h⟩
      cases h
    | some id => exact iff_of_true rfl (Option.some_ne_none id)
  | message value id offer =>
    rcases offer with e | _ | sender
    · constructor
      · intro h
        cases h
      · intro h
        obtain ⟨sender, hsender⟩ := h
        cases hsender
    · exact iff_of_true rfl ⟨none, rfl⟩
    · exact iff_of_true rfl ⟨some sender, rfl⟩
  | _ => exact iff_of_true rfl trivial

theorem offerOf_isOk_iff (ms : ObjectValues) :
    (∃ sender, Request.offerOf ms = .ok sender) ↔ AcceptsOffer ms := by
  unfold Request.offerOf AcceptsOffer
  cases ms.lookup "type".toList with
  | none =>
    refine iff_of_true ⟨none, rfl⟩ fun type htype => ?_
    cases htype
  | some type =>
    simp only [Option.some.injEq, forall_eq', ← Value.asString_isOk, ← Value.asInt_isOk]
    cases type.asString with
    | error e =>
      constructor
      · intro h
        obtain ⟨sender, hsender⟩ := h
        cases hsender
      · intro h
        obtain ⟨⟨name, hname⟩, -⟩ := h
        cases hname
    | ok name =>
      simp only [Except.ok.injEq, exists_eq', true_and]
      show (∃ sender, (if name = "offer".toList then _ else _) = _) ↔ _
      split_ifs with hoffer
      · simp only [hoffer, forall_const]
        cases (member ms "from".toList).asInt with
        | error e =>
          constructor
          · intro h
            obtain ⟨sender, hsender⟩ := h
            cases hsender
          · intro h
            obtain ⟨sender, hsender⟩ := h
            cases hsender
        | ok sender => exact iff_of_true ⟨some sender, rfl⟩ ⟨sender, rfl⟩
      · exact ⟨fun _ h => absurd h hoffer, fun _ => ⟨none, rfl⟩⟩

theorem ofMembers_returns_iff (hs : Registered s) (env : Env H) (hdl : H) (ms : ObjectValues) :
    (∃ request, Request.ofMembers ms = .ok request ∧
      (request.outcome env hdl s).ending = none) ↔ AcceptsObject s ms := by
  unfold Request.ofMembers AcceptsObject
  cases ms.lookup kSignal with
  | none =>
    refine iff_of_true ⟨_, rfl, rfl⟩ fun signal hsignal => ?_
    cases hsignal
  | some signal =>
    simp only [Option.some.injEq, forall_eq', ← Value.asString_isOk]
    cases signal.asString with
    | error e =>
      constructor
      · intro h
        obtain ⟨request, hrequest, -⟩ := h
        cases hrequest
      · intro h
        obtain ⟨⟨type, htype⟩, -⟩ := h
        cases htype
    | ok type =>
      simp only [Except.ok.injEq, forall_eq', exists_eq', true_and]
      show (∃ request, Request.ofSignal ms type = _ ∧ _) ↔ _
      unfold Request.ofSignal AcceptsMembers
      split_ifs <;>
        simp only [exists_bind_iff, exists_pure_iff, Request.returns_iff hs, exists_and_right,
          and_true, offerOf_isOk_iff, Value.asString_isOk, Value.asInt_isOk]

/-- **When `OnReceive` returns.** -/
theorem onReceive_returns_iff (hs : Reachable s) (env : Env H) (hdl : H) (message : Str) :
    ((Event.receive env hdl message).outcome s).ending = none ↔
      Accepts s (Reader.parse message) := by
  rw [receive_outcome, outcomeOf_returns_iff]
  have hraise : ∀ e : Exception, ¬ ∃ request : Request, Except.error e = Except.ok request ∧
      (request.outcome env hdl s).ending = none := by
    intro e h
    obtain ⟨request, hrequest, -⟩ := h
    cases hrequest
  unfold Request.ofText
  cases Reader.parse message with
  | error e => exact iff_of_false (hraise e) id
  | ok parsed =>
    cases parsed with
    | none => exact iff_of_true ⟨_, rfl, rfl⟩ trivial
    | some value =>
      cases value with
      | object ms => exact ofMembers_returns_iff hs.registered env hdl ms
      | null => exact iff_of_true ⟨_, rfl, rfl⟩ trivial
      | _ => exact iff_of_false (hraise _) id

/-- The first sign-in returns. -/
theorem signIn_returns :
    ((Event.receive .plain 1 signInText.text).outcome (.init : SignalServer ℕ)).ending = none := by
  have hinit : Reachable (.init : SignalServer ℕ) := .refl
  rw [onReceive_returns_iff hinit, signInText.parse]
  intro signal hsignal
  obtain rfl : .string kSignIn = signal := Option.some.inj hsignal
  refine ⟨rfl, ?_⟩
  intro type htype
  obtain rfl : kSignIn = type := Except.ok.inj htype
  show if kSignIn = kSignIn then _ else _
  rw [if_pos rfl]
  exact ⟨rfl, by decide⟩

/-- A text any client can send that ends the server: `isMember` raises on an array. -/
theorem array_root_raises : Reachable (.init : SignalServer ℕ) ∧
    ((Event.receive .plain 1 "[]".toList).outcome (.init : SignalServer ℕ)).ending =
      some (.raised (.logicError
        "in Json::Value::find(begin, end): requires objectValue or nullValue")) := by
  have hparse : Reader.parse "[]".toList = .ok (some (.array [])) := by
    unfold Reader.parse
    rfl
  refine ⟨.refl, ?_⟩
  rw [receive_outcome]
  unfold Request.ofText
  rw [hparse]
  rfl

end WsSignalServer
