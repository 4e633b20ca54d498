import WsSignalServer.Json.Encoding
import WsSignalServer.Receive

/-!
# Relaying

`ProcessMessage` reads the recipient with `value["to"].asInt()`. On a missing member that lookup
inserts a null into the value that is then forwarded, and the conversion turns null into 0, a
boolean into 0 or 1 and a real into its integer part. So a message that names no peer is
delivered all the same, to whoever has that id, and not as it was received.

What is sent is the text of that value, and the writer repairs whatever is no UTF-8. The reader makes
such strings, of the escape `"\udc00"` for one, so they too do not arrive as they were received.

**Theorem (`relay_iff`).** A message is relayed as it should be exactly when its `to` is a JSON
integer and all its keys and strings are UTF-8, or when nobody with a live connection has the id that
`to` converts to.

The offer is looked for after the message went out. So a `type` or `from` that does not convert
raises when the callee has the offer already, and the call is not recorded.

**Theorem (`receive_atomic_iff`).** `OnReceive` leaves no trace when it raises, except when it
relays to a live connection a message that does not convert as an offer.
-/

namespace WsSignalServer

open Std General Json Json.ObjectValues

variable {H : Type} [LinearOrder H] {s : SignalServer H}

/-- The text of a message tells `v`: it is written for `v`, repaired, and it is read as `v`. -/
def Sent.Tells (m : Sent H) (v : Value) : Prop :=
  m.text.repaired = v ∧ Reader.parse m.text.toStyledString = .ok (some v)

/-- What relaying the object `ms` is to do: every send goes to the peer registered under the
integer `to`, its text tells what was received, and there is at most one. -/
def Relays (s : SignalServer H) (ms : ObjectValues) (o : Outcome H) : Prop :=
  (∀ m ∈ o.sent, m.Tells (.object ms) ∧ ∃ v j p, ms.lookup "to".toList = some v ∧
    v.integer? = some j ∧ s.mapPeers[m.hdl]? = some p ∧ p.id = j) ∧ o.sent.length ≤ 1

omit [LinearOrder H] in
/-- Of the values the reader makes, the writer tells those that are in UTF-8 throughout. -/
theorem tells_iff {document : Str} {m : Sent H}
    (h : Reader.parse document = .ok (some m.text)) :
    m.Tells m.text ↔ Utf8Fits Reader.stackLimit m.text := by
  constructor
  · intro htells
    exact (repaired_eq_iff h).1 htells.1
  · intro hutf8
    have hread := parse_toStyledString (Utf8Fits.writable hutf8)
    have hkept := repaired_eq hutf8
    rw [hkept] at hread
    exact ⟨hkept, hread⟩

theorem integer?_getD {ms : ObjectValues} {key : Str} {j : ℤ}
    (h : (member ms key).integer? = some j) :
    ∃ v, ms.lookup key = some v ∧ v.integer? = some j := by
  unfold member at h
  cases hlookup : ms.lookup key with
  | none =>
    rw [hlookup] at h
    cases h
  | some v =>
    rw [hlookup] at h
    exact ⟨v, rfl, h⟩

/-- **A message is relayed as it should be exactly when** its `to` is a JSON integer and its keys and
strings are UTF-8, or its `to` leads to nobody. -/
theorem relay_iff (hs : Reachable s) (env : Env H) (hdl : H) {message : Str} {ms : ObjectValues}
    {signal : Value} (hparse : Reader.parse message = .ok (some (.object ms)))
    (hsignal : ms.lookup kSignal = some signal) (htype : signal.asString = .ok kMessage) :
    Relays s ms ((Event.receive env hdl message).outcome s) ↔
      ((∃ j, (member ms "to".toList).integer? = some j) ∧
          Utf8Fits Reader.stackLimit (.object ms)) ∨
        ∀ i k, (member ms "to".toList).asInt = .ok i → s.getConnectionFromID i = some k →
          env.expired k = true := by
  rw [receive_outcome, ofText_object hparse hsignal htype, Request.ofSignal, if_neg (by decide),
    if_neg (by decide), if_pos rfl]
  cases hint : (member ms "to".toList).asInt with
  | error e =>
    refine iff_of_true ⟨?_, Nat.zero_le 1⟩ (.inr ?_)
    · intro m hm
      cases hm
    · intro i k h
      cases h
  | ok i =>
    show Relays s ms ((Request.message _ i (Request.offerOf ms)).outcome env hdl s) ↔ _
    unfold Relays
    rw [Request.message_sent]
    -- With `to` present, the value sent is the one received: only the writer is in between.
    have htells : ∀ v (k : H), ms.lookup "to".toList = some v →
        ((⟨.object (touch "to".toList ms), k⟩ : Sent H).Tells (.object ms) ↔
          Utf8Fits Reader.stackLimit (.object ms)) := by
      intro v k hv
      have htouch : touch "to".toList ms = ms := touch_eq_self.2 (by rw [hv]; rfl)
      rw [htouch]
      exact tells_iff (m := ⟨.object ms, k⟩) hparse
    constructor
    · intro h
      obtain ⟨hsent, -⟩ := h
      by_cases hlive : ∃ k, s.getConnectionFromID i = some k ∧ env.expired k = false
      · obtain ⟨k, hk, hexp⟩ := hlive
        obtain ⟨hsaid, v, j, -, hv, hj, -, -⟩ := hsent ⟨.object (touch "to".toList ms), k⟩
          (mem_deliver_iff.2 ⟨k, hk, hexp, rfl⟩)
        exact .inl ⟨⟨j, by rw [member, hv]; exact hj⟩, (htells v k hv).1 hsaid⟩
      · refine .inr fun j k hj hk => ?_
        obtain rfl := Except.ok.inj hj
        by_contra hexp
        exact hlive ⟨k, hk, eq_false_of_ne_true hexp⟩
    · intro hcond
      refine ⟨fun m hm => ?_, length_deliver s env i _⟩
      obtain ⟨k, hk, hexp, rfl⟩ := mem_deliver_iff.1 hm
      rcases hcond with ⟨⟨j, hj⟩, hutf8⟩ | hdead
      · obtain ⟨v, hv, hvj⟩ := integer?_getD hj
        obtain ⟨p, hp, hid⟩ := hs.registered.getConnectionFromID_eq_some_iff.1 hk
        refine ⟨(htells v k hv).2 hutf8, v, j, p, hv, hvj, hp, hid.trans ?_⟩
        exact Value.asInt_of_integer hint hj
      · rw [hdead i k rfl hk] at hexp
        cases hexp

/-- A message to the peer 1, with a word that is not ASCII. -/
def wordText : ObjectText where
  text := utf8 "\x7b\"signal\":\"message\",\"text\":\"é\",\"to\":1\x7d".toList
  members := [(kSignal, .string kMessage), ("text".toList, .string (utf8 "é".toList)),
    ("to".toList, .int 1)]
  parse := by decide +kernel

/-- It goes from the connection 1 to the connection 2. -/
theorem message_relayed :
    Relays twoPeers wordText.members
      ((Event.receive .plain 1 wordText.text).outcome twoPeers) := by
  have hescape : '\\' ∉ wordText.text := by decide +kernel
  have hlength : wordText.text.length < 2 ^ 30 := by decide +kernel
  have hutf8 : Utf8Fits Reader.stackLimit (.object wordText.members) :=
    Reader.parse_fits (decodes_utf8 ⟨_, rfl⟩ (.of_no_escape hescape) hlength) wordText.parse
  exact (relay_iff twoPeers_reachable .plain 1 wordText.parse rfl rfl).2
    (.inl ⟨⟨1, rfl⟩, hutf8⟩)

/-- A message to nobody. -/
def strayText : ObjectText where
  text := "\x7b\"signal\":\"message\"\x7d".toList
  members := [(kSignal, .string kMessage)]
  parse := by decide +kernel

/-- It is handled, and reaches the peer 0 with a member it was not sent with. -/
theorem stray_relayed : Reachable onePeer ∧
    Reader.parse strayText.text = .ok (some (.object [(kSignal, .string kMessage)])) ∧
    ((Event.receive .plain 2 strayText.text).outcome onePeer).ending = none ∧
    ((Event.receive .plain 2 strayText.text).outcome onePeer).sent =
      [⟨.object [(kSignal, .string kMessage), ("to".toList, .null)], 1⟩] ∧
    ¬ Relays onePeer [(kSignal, .string kMessage)]
      ((Event.receive .plain 2 strayText.text).outcome onePeer) := by
  have hrequest : Request.ofText strayText.text =
      .ok (.message (.object [(kSignal, .string kMessage), ("to".toList, .null)]) 0 (.ok none)) :=
    strayText.request
  rw [receive_outcome_of_request hrequest]
  refine ⟨onePeer_reachable, strayText.parse, rfl, rfl, ?_⟩
  intro hrelays
  obtain ⟨-, v, -, -, hv, -⟩ := hrelays.1
    ⟨.object [(kSignal, .string kMessage), ("to".toList, .null)], 1⟩ (List.mem_singleton.2 rfl)
  cases hv

/-! ## Failure -/

/-- A call that raises has changed and sent nothing. -/
def Outcome.Atomic (s : SignalServer H) (o : Outcome H) : Prop :=
  ∀ ex, o.ending = some (.raised ex) → o.server = s ∧ o.sent = []

/-- Only relaying does anything before it raises. -/
theorem outcomeOf_atomic_iff (env : Env H) (hdl : H) (s : SignalServer H)
    (r : Except Exception Request) : (outcomeOf env hdl s r).Atomic s ↔
      ∀ value i ex, r = .ok (.message value i (.error ex)) → s.deliver env i value = [] := by
  constructor
  · intro hatomic value i ex hr
    subst hr
    exact (hatomic ex rfl).2
  · intro hquiet ex hraise
    cases r with
    | error e => exact ⟨rfl, rfl⟩
    | ok request =>
      cases request with
      | message value i offer =>
        rcases offer with e | _ | sender
        · exact ⟨rfl, hquiet value i e rfl⟩
        · cases hraise
        · cases hraise
      | signIn name nolist =>
        simp only [outcomeOf, Request.outcome] at hraise
        cases hid : s.freshId <;> rw [hid] at hraise <;> cases hraise
      | _ => cases hraise

/-- **`OnReceive` fails without a trace exactly when** it does not relay, to a live connection, a
message whose `type` or `from` does not convert. -/
theorem receive_atomic_iff (env : Env H) (hdl : H) (message : Str) (s : SignalServer H) :
    ((Event.receive env hdl message).outcome s).Atomic s ↔
      ∀ ms signal i k, Reader.parse message = .ok (some (.object ms)) →
        ms.lookup kSignal = some signal → signal.asString = .ok kMessage →
        (member ms "to".toList).asInt = .ok i → s.getConnectionFromID i = some k →
        env.expired k = false → AcceptsOffer ms := by
  rw [receive_outcome, outcomeOf_atomic_iff]
  constructor
  · intro hquiet ms signal i k hparse hsignal htype hint hk hlive
    rw [← offerOf_isOk_iff]
    have hrequest := ofText_message hparse hsignal htype hint
    cases hoffer : Request.offerOf ms with
    | ok sender => exact ⟨sender, rfl⟩
    | error ex =>
      rw [hoffer] at hrequest
      have hsent := hquiet _ _ _ hrequest
      rw [deliver_of_lookup hk hlive] at hsent
      cases hsent
  · intro haccepts value i ex hrequest
    obtain ⟨ms, signal, hparse, hsignal, htype, hint, hoffer⟩ := ofText_eq_message hrequest
    rw [List.eq_nil_iff_forall_not_mem]
    intro m hm
    obtain ⟨k, hk, hlive, -⟩ := mem_deliver_iff.1 hm
    have hok := haccepts ms signal i k hparse hsignal htype hint hk hlive
    obtain ⟨sender, hsender⟩ := (offerOf_isOk_iff ms).2 hok
    rw [hsender] at hoffer
    cases hoffer

/-- An offer to the peer 0 from something that is no id. -/
def brokenOfferText : ObjectText where
  text := "\x7b\"from\":\"x\",\"signal\":\"message\",\"to\":0,\"type\":\"offer\"\x7d".toList
  members := [("from".toList, .string "x".toList), (kSignal, .string kMessage),
    ("to".toList, .int 0), ("type".toList, .string "offer".toList)]
  parse := by decide +kernel

/-- It raises, and the peer 0 has it. -/
theorem broken_offer_sent : Reachable onePeer ∧
    ((Event.receive .plain 2 brokenOfferText.text).outcome onePeer).ending =
      some (.raised (.logicError "Value is not convertible to Int.")) ∧
    ((Event.receive .plain 2 brokenOfferText.text).outcome onePeer).sent =
      [⟨.object brokenOfferText.members, 1⟩] ∧
    ¬ ((Event.receive .plain 2 brokenOfferText.text).outcome onePeer).Atomic onePeer := by
  have hrequest : Request.ofText brokenOfferText.text =
      .ok (.message (.object brokenOfferText.members) 0
        (.error (.logicError "Value is not convertible to Int."))) := brokenOfferText.request
  rw [receive_outcome_of_request hrequest]
  refine ⟨onePeer_reachable, rfl, rfl, fun hatomic => ?_⟩
  obtain ⟨-, hsent⟩ := hatomic _ rfl
  cases hsent

end WsSignalServer
