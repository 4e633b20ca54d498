import WsSignalServer.General.Transition
import WsSignalServer.SignalServer

/-!
# What a call does

A text is first read as a request: a parsed value, one of four signals, and the members that
signal needs, converted (`Request.ofText`). Everything a client can make a call raise is raised
by that conversion, with one exception: an offer whose `type` or `from` does not convert raises
after the offer was relayed. What a request then does is a function of the server
(`Request.outcome`).

**Theorem (`receive_outcome`).** `OnReceive` reads the request off the text and does what it
asks.

**Theorem (`close_outcome`).** `OnClose` is the departure of the connection under the id it is
registered with.

From these two, `Event.outcome_server` reads off the one change an event makes to the members
(`Event.change`), and `raised_server` says that a call that raises makes none.
-/

namespace WsSignalServer

open Std General Json Json.ObjectValues

variable {H : Type} [LinearOrder H]

/-! ## Events and their outcomes -/

/-- How a call ended: the exception or the endless loop that kept it from returning, if one did,
the server it left, and the messages it sent. -/
structure Outcome (H : Type) [LinearOrder H] where
  ending : Option Abort
  server : SignalServer H
  sent : List (Sent H)

/-- A call of the processing thread into the server. -/
inductive Event (H : Type) where
  | receive (env : Env H) (hdl : H) (message : Str)
  | close (env : Env H) (hdl : H)

def Outcome.ofResult : EStateM.Result Abort (Frame H) Unit → Outcome H
  | .ok _ fr => ⟨none, fr.server, fr.sent⟩
  | .error e fr => ⟨some e, fr.server, fr.sent⟩

def Call.outcome (c : Call H Unit) (s : SignalServer H) : Outcome H := .ofResult (c.run ⟨s, []⟩)

def Event.call : Event H → Call H Unit
  | .receive env hdl message => onReceive env hdl message
  | .close env hdl => onClose env hdl

def Event.outcome (e : Event H) (s : SignalServer H) : Outcome H := e.call.outcome s

def Event.env : Event H → Env H
  | .receive env _ _ | .close env _ => env

/-- A call that comes to an end, by returning or by raising, takes the server to the state it
leaves. -/
def Step (s : SignalServer H) (e : Event H) (s' : SignalServer H) : Prop :=
  (e.outcome s).ending ≠ some .spins ∧ s' = (e.outcome s).server

/-- The states of a server that has just been constructed and then handled any events. -/
def Reachable (s : SignalServer H) : Prop := Transition.Reachable Step SignalServer.init s

/-! ## Requests -/

/-- The member of that name, or null. -/
def member (ms : ObjectValues) (key : Str) : Value := (ms.lookup key).getD .null

/-- A text as the server understands it. -/
inductive Request where
  | ignored
  | signIn (name : Str) (nolist : Bool)
  | signOut (id : ℤ)
  | message (value : Value) (id : ℤ) (offer : Except Exception (Option ℤ))
  | exist (name : Str)
  deriving DecidableEq

namespace Request

/-- The sender an offer names; nothing when the message is no offer. -/
def offerOf (ms : ObjectValues) : Except Exception (Option ℤ) :=
  match ms.lookup "type".toList with
  | none => .ok none
  | some type => do
    if (← type.asString) = "offer".toList then return some (← (member ms "from".toList).asInt)
    else return none

/-- The request of an object whose signal is `type`. -/
def ofSignal (ms : ObjectValues) (type : Str) : Except Exception Request :=
  if type = kSignIn then
    return .signIn (← (member ms kName).asString) (ms.lookup "nolist".toList).isSome
  else if type = kSignOut then return .signOut (← (member ms kID).asInt)
  else if type = kMessage then
    return .message (.object (touch "to".toList ms)) (← (member ms "to".toList).asInt) (offerOf ms)
  else if type = "exist".toList then return .exist (← (member ms "name".toList).asString)
  else return .ignored

def ofMembers (ms : ObjectValues) : Except Exception Request :=
  match ms.lookup kSignal with
  | none => .ok .ignored
  | some signal => do ofSignal ms (← signal.asString)

def ofValue : Value → Except Exception Request
  | .null => .ok .ignored
  | .object ms => ofMembers ms
  | _ => .error (.logicError
      "in Json::Value::find(begin, end): requires objectValue or nullValue")

@[irreducible] def ofText (text : Str) : Except Exception Request := do
  let some value ← Reader.parse text | return .ignored
  ofValue value

end Request

/-- A text that is read as an object, with its members. -/
structure ObjectText where
  text : Str
  members : ObjectValues
  parse : Reader.parse text = .ok (some (.object members))

theorem ObjectText.request (t : ObjectText) :
    Request.ofText t.text = Request.ofMembers t.members := by
  unfold Request.ofText
  rw [t.parse]
  rfl

/-! ## Effects -/

namespace SignalServer

/-- The id the loop of `NextID` stops at. -/
def freshId (s : SignalServer H) : Option ℤ :=
  runWhile s.isExistId (wrap maxInt) maxInt.toNat (wrap maxInt s.lastId)

def signIn (s : SignalServer H) (hdl : H) (name : Str) (id : ℤ) : SignalServer H :=
  { s with mapPeers := s.mapPeers.insert hdl ⟨id, hdl, name⟩, lastId := id }

/-- Connection `hdl` leaves, and the first pair that mentions `id` with it. -/
def leave (s : SignalServer H) (hdl : H) (id : ℤ) : SignalServer H :=
  { s with mapPeers := s.mapPeers.erase hdl, vPairID := s.vPairID.eraseP fun p => p.Mentions id }

def record (s : SignalServer H) (p : Pair) : SignalServer H :=
  { s with vPairID := s.vPairID ++ [p] }

/-- The sends that relay `text` to `id`. -/
def deliver (s : SignalServer H) (env : Env H) (id : ℤ) (text : Value) : List (Sent H) :=
  match s.getConnectionFromID id with
  | some hdl => if env.expired hdl then [] else [⟨text, hdl⟩]
  | none => []

/-- The notice that `id` left, to the other end of the first pair that mentions it. -/
def notices (s : SignalServer H) (env : Env H) (hdl : H) (id : ℤ) : List (Sent H) :=
  match s.vPairID.find? fun p => p.Mentions id with
  | some p =>
    if p.other id = -1 then [] else (s.leave hdl id).deliver env (p.other id) (signOutNotice id)
  | none => []

end SignalServer

def Request.outcome (env : Env H) (hdl : H) (s : SignalServer H) : Request → Outcome H
  | .ignored => ⟨none, s, []⟩
  | .signIn name nolist =>
    match s.freshId with
    | none => ⟨some .spins, s, []⟩
    | some id =>
      let jreturn := signInReply env.iceServer id name (s.isExistName name)
      ⟨none, s.signIn hdl name id,
        [⟨.object (if nolist then jreturn else put "peers".toList s.peerList jreturn), hdl⟩]⟩
  | .signOut id => ⟨none, s.leave hdl id, ⟨.object signOutReply, hdl⟩ :: s.notices env hdl id⟩
  | .message value id offer =>
    match offer with
    | .error e => ⟨some (.raised e), s, s.deliver env id value⟩
    | .ok none => ⟨none, s, s.deliver env id value⟩
    | .ok (some sender) => ⟨none, s.record ⟨sender, id⟩, s.deliver env id value⟩
  | .exist name => ⟨none, s, [⟨.object (existReply (s.isExistName name)), hdl⟩]⟩

/-- A message goes to the connection its recipient's id leads to, and is then checked for an
offer. -/
theorem Request.message_sent (env : Env H) (hdl : H) (s : SignalServer H) (value : Value) (id : ℤ)
    (offer : Except Exception (Option ℤ)) :
    ((Request.message value id offer).outcome env hdl s).sent = s.deliver env id value := by
  rcases offer with e | _ | sender <;> rfl

/-! ## Running a call -/

theorem liftM_ok {α : Type} (a : α) : (liftM (Except.ok (ε := Exception) a) : Call H α) = pure a :=
  rfl

/-- `RemovePairID` erases the first pair that mentions `id` and returns its other end. -/
theorem removePair_eq (id : ℤ) (ps : List Pair) :
    removePair id ps = (((ps.find? fun p => p.Mentions id).map fun p => p.other id).getD (-1),
      ps.eraseP fun p => p.Mentions id) := by
  induction ps with
  | nil => rfl
  | cons p ps ih =>
    by_cases h : p.Mentions id
    · rw [removePair, if_pos h, List.find?_cons_of_pos (by simpa using h),
        List.eraseP_cons_of_pos (by simpa using h)]
      rfl
    · rw [removePair, if_neg h, ih, List.find?_cons_of_neg (by simpa using h),
        List.eraseP_cons_of_neg (by simpa using h)]

theorem removePairID_run (id : ℤ) (fr : Frame H) :
    (removePairID id).run fr =
      .ok (((fr.server.vPairID.find? fun p => p.Mentions id).map fun p => p.other id).getD (-1))
        { fr with server.vPairID := fr.server.vPairID.eraseP fun p => p.Mentions id } := by
  show EStateM.Result.ok (removePair id fr.server.vPairID).1
    { fr with server.vPairID := (removePair id fr.server.vPairID).2 } = _
  rw [removePair_eq]

theorem sendUnlessExpired_run (env : Env H) (id : ℤ) (text : Value) (fr : Frame H) :
    (sendUnlessExpired env text (fr.server.getConnectionFromID id)).run fr =
      .ok () { fr with sent := fr.sent ++ fr.server.deliver env id text } := by
  unfold SignalServer.deliver
  cases fr.server.getConnectionFromID id with
  | none =>
    rw [List.append_nil]
    rfl
  | some hdl =>
    by_cases hexp : env.expired hdl
    · simp only [sendUnlessExpired, hexp, if_true, List.append_nil]
      rfl
    · simp only [sendUnlessExpired, hexp]
      rfl

/-- Telling the partner, once the connection is out of the registry. -/
theorem tellPartner_run (env : Env H) (hdl : H) (id : ℤ) (s : SignalServer H)
    (sent : List (Sent H)) :
    (tellPartner env id (signOutNotice id)).run
        ⟨{ s with mapPeers := s.mapPeers.erase hdl }, sent⟩ =
      .ok () ⟨s.leave hdl id, sent ++ s.notices env hdl id⟩ := by
  rw [tellPartner, EStateM.run_bind, removePairID_run]
  unfold SignalServer.notices
  cases hp : s.vPairID.find? fun p => p.Mentions id with
  | none =>
    rw [List.append_nil]
    rfl
  | some p =>
    by_cases hother : p.other id = -1
    · simp only [Option.map_some, Option.getD_some, hother, ne_eq, not_true, if_false, if_true,
        List.append_nil]
      rfl
    · simp only [Option.map_some, Option.getD_some, hother, ne_eq, not_false_eq_true, if_true,
        if_false]
      exact sendUnlessExpired_run env (p.other id) (signOutNotice id) ⟨s.leave hdl id, sent⟩

/-! ## The handlers -/

/-- The outcome of the request a text carries. -/
def outcomeOf (env : Env H) (hdl : H) (s : SignalServer H) : Except Exception Request → Outcome H
  | .ok request => request.outcome env hdl s
  | .error e => ⟨some (.raised e), s, []⟩

theorem processExist_outcome (env : Env H) (hdl : H) (ms : ObjectValues) (s : SignalServer H) :
    (processExist hdl (.object ms)).outcome s = outcomeOf env hdl s
      (do return .exist (← (member ms "name".toList).asString)) := by
  simp only [processExist, Value.resolveReference_object "name".toList (by decide), liftM_ok,
    pure_bind]
  show Call.outcome (do let name ← liftM (member ms "name".toList).asString; _) s = _
  cases (member ms "name".toList).asString <;> rfl

theorem processSignOut_outcome (env : Env H) (hdl : H) (ms : ObjectValues) (s : SignalServer H) :
    (processSignOut env hdl (.object ms)).outcome s = outcomeOf env hdl s
      (do return .signOut (← (member ms kID).asInt)) := by
  simp only [processSignOut, Value.resolveReference_object kID (by decide), liftM_ok,
    pure_bind]
  show Call.outcome (do let id ← liftM (member ms kID).asInt; _) s = _
  cases (member ms kID).asInt with
  | error e => rfl
  | ok id =>
    have htell := tellPartner_run env hdl id s [⟨.object signOutReply, hdl⟩]
    exact congrArg Outcome.ofResult htell

theorem nextID_run (fr : Frame H) : nextID.run fr = match fr.server.freshId with
    | none => .error .spins fr
    | some id => .ok id { fr with server.lastId := id } := by
  show (match fr.server.freshId with
    | none => throw Abort.spins
    | some id => do
      assign fun s => { s with lastId := id }
      return id : Call H ℤ).run fr = _
  cases fr.server.freshId <;> rfl

theorem processSignIn_outcome (env : Env H) (hdl : H) (ms : ObjectValues) (s : SignalServer H) :
    (processSignIn env hdl (.object ms)).outcome s = outcomeOf env hdl s
      (do return .signIn (← (member ms kName).asString) (ms.lookup "nolist".toList).isSome) := by
  have hnolist : (touch kName ms).lookup "nolist".toList = ms.lookup "nolist".toList := by
    rw [lookup_touch, if_neg (by decide)]
  simp only [processSignIn, Value.resolveReference_object kName (by decide),
    Value.isMember_object "nolist".toList (by decide), liftM_ok, pure_bind, hnolist]
  show Call.outcome (do let name ← liftM (member ms kName).asString; _) s = _
  cases (member ms kName).asString with
  | error e => rfl
  | ok name =>
    simp only [liftM_ok, pure_bind, Call.outcome, EStateM.run_bind, nextID_run]
    show _ = (Request.signIn name _).outcome env hdl s
    simp only [Request.outcome]
    cases s.freshId with
    | none => rfl
    | some id => rfl

theorem processMessage_outcome (env : Env H) (hdl : H) (ms : ObjectValues) (s : SignalServer H) :
    (processMessage env (.object ms)).outcome s = outcomeOf env hdl s
      (do return .message (.object (touch "to".toList ms)) (← (member ms "to".toList).asInt)
            (Request.offerOf ms)) := by
  have htype : (touch "to".toList ms).lookup "type".toList = ms.lookup "type".toList := by
    rw [lookup_touch, if_neg (by decide)]
  simp only [processMessage, Value.resolveReference_object "to".toList (by decide),
    Value.isMember_object "type".toList (by decide), liftM_ok, pure_bind, htype]
  show Call.outcome (do let id ← liftM (member ms "to".toList).asInt; _) s = _
  cases (member ms "to".toList).asInt with
  | error e => rfl
  | ok id =>
    -- The text is sent before the type is looked at.
    have hsend := sendUnlessExpired_run env id (.object (touch "to".toList ms)) ⟨s, []⟩
    simp only [liftM_ok, pure_bind]
    show Outcome.ofResult
      (EStateM.run (do sendUnlessExpired env _ (s.getConnectionFromID id); _) ⟨s, []⟩) = _
    rw [EStateM.run_bind, hsend]
    show Outcome.ofResult (EStateM.run (if _ then _ else _) _) = _
    unfold Request.offerOf
    cases hlookup : ms.lookup "type".toList with
    | none => rfl
    | some type =>
      -- The object has a `to` by now, which changes neither `type` nor `from`.
      have hmember : (touch "to".toList ms).lookup "type".toList = some type := htype.trans hlookup
      have hfrom : ((touch "type".toList (touch "to".toList ms)).lookup "from".toList).getD .null =
          member ms "from".toList := by
        rw [lookup_touch, if_neg (by decide), lookup_touch, if_neg (by decide)]
        rfl
      simp only [Option.isSome_some, if_true,
        Value.resolveReference_object "type".toList (by decide), hmember,
        Option.getD_some, liftM_ok, pure_bind]
      cases type.asString with
      | error e => rfl
      | ok name =>
        by_cases hoffer : name = "offer".toList
        · simp only [liftM_ok, pure_bind, hoffer, if_true,
            Value.resolveReference_object "from".toList (by decide), hfrom]
          show _ = outcomeOf env hdl s (.ok (.message _ id
            (do return some (← (member ms "from".toList).asInt))))
          cases (member ms "from".toList).asInt <;> rfl
        · simp only [liftM_ok, pure_bind, hoffer, if_false]
          show _ = outcomeOf env hdl s (.ok (.message _ id
            (if name = "offer".toList then _ else _)))
          rw [if_neg hoffer]
          rfl

/-! ## `OnReceive` and `OnClose` -/

theorem onReceive_object (env : Env H) (hdl : H) (ms : ObjectValues) (s : SignalServer H) :
    Call.outcome (do
      if ← (Value.object ms).isMember kSignal then
        let (jinput, member) ← (Value.object ms).resolveReference kSignal
        let type ← member.asString
        if type = kSignIn then processSignIn env hdl jinput
        else if type = kSignOut then processSignOut env hdl jinput
        else if type = kMessage then processMessage env jinput
        else if type = "exist".toList then processExist hdl jinput) s =
      outcomeOf env hdl s (Request.ofMembers ms) := by
  unfold Request.ofMembers
  simp only [Value.isMember_object kSignal (by decide),
    Value.resolveReference_object kSignal (by decide), liftM_ok, pure_bind]
  cases hlookup : ms.lookup kSignal with
  | none => rfl
  | some signal =>
    have htouch : touch kSignal ms = ms := touch_eq_self.2 (by rw [hlookup]; rfl)
    simp only [Option.isSome_some, if_true, htouch, Option.getD_some]
    cases signal.asString with
    | error e => rfl
    | ok type =>
      simp only [liftM_ok, pure_bind]
      show _ = outcomeOf env hdl s (Request.ofSignal ms type)
      unfold Request.ofSignal
      split_ifs
      · exact processSignIn_outcome env hdl ms s
      · exact processSignOut_outcome env hdl ms s
      · exact processMessage_outcome env hdl ms s
      · exact processExist_outcome env hdl ms s
      · rfl

/-- **`OnReceive` does what the text asks.** -/
theorem receive_outcome (env : Env H) (hdl : H) (message : Str) (s : SignalServer H) :
    (Event.receive env hdl message).outcome s = outcomeOf env hdl s (Request.ofText message) := by
  show Call.outcome (onReceive env hdl message) s = _
  unfold onReceive Request.ofText
  cases hparse : Reader.parse message with
  | error e => rfl
  | ok parsed =>
    cases parsed with
    | none => rfl
    | some value =>
      cases value with
      | object ms => exact onReceive_object env hdl ms s
      | _ => rfl

theorem ofText_object {message : Str} {ms : ObjectValues} {signal : Value} {type : Str}
    (hparse : Reader.parse message = .ok (some (.object ms)))
    (hsignal : ms.lookup kSignal = some signal) (htype : signal.asString = .ok type) :
    Request.ofText message = Request.ofSignal ms type := by
  unfold Request.ofText
  rw [hparse]
  show Request.ofMembers ms = _
  unfold Request.ofMembers
  rw [hsignal]
  show (do Request.ofSignal ms (← signal.asString)) = _
  rw [htype]
  rfl

/-- What is not ignored was an object with a signal. -/
theorem ofText_eq_ok {message : Str} {request : Request} (h : Request.ofText message = .ok request)
    (hne : request ≠ .ignored) : ∃ ms signal type,
      Reader.parse message = .ok (some (.object ms)) ∧ ms.lookup kSignal = some signal ∧
      signal.asString = .ok type ∧ Request.ofSignal ms type = .ok request := by
  unfold Request.ofText at h
  cases hparse : Reader.parse message with
  | error e =>
    rw [hparse] at h
    cases h
  | ok parsed =>
    rw [hparse] at h
    cases parsed with
    | none =>
      cases h
      exact absurd rfl hne
    | some value =>
      cases value with
      | null =>
        cases h
        exact absurd rfl hne
      | object ms =>
        -- Only an object is asked for its signal; any other root that is not null raises.
        change Request.ofMembers ms = _ at h
        unfold Request.ofMembers at h
        cases hsignal : ms.lookup kSignal with
        | none =>
          rw [hsignal] at h
          cases h
          exact absurd rfl hne
        | some signal =>
          rw [hsignal] at h
          change (do Request.ofSignal ms (← signal.asString)) = _ at h
          cases htype : signal.asString with
          | error e =>
            rw [htype] at h
            cases h
          | ok type =>
            rw [htype] at h
            exact ⟨ms, signal, type, rfl, hsignal, htype, h⟩
      | _ => cases h

theorem ofSignal_eq_message {ms : ObjectValues} {type : Str} {value : Value} {id : ℤ}
    {offer : Except Exception (Option ℤ)}
    (h : Request.ofSignal ms type = .ok (.message value id offer)) :
    type = kMessage ∧ (member ms "to".toList).asInt = .ok id ∧ offer = Request.offerOf ms := by
  unfold Request.ofSignal at h
  split_ifs at h with hin hout hmessage hexist
  · cases hname : (member ms kName).asString <;> rw [hname] at h <;> cases h
  · cases hid : (member ms kID).asInt <;> rw [hid] at h <;> cases h
  · cases hint : (member ms "to".toList).asInt <;> rw [hint] at h <;> cases h
    exact ⟨hmessage, rfl, rfl⟩
  · cases hname : (member ms "name".toList).asString <;> rw [hname] at h <;> cases h
  · cases h

/-- A request to relay was an object whose signal is a message, with a `to` that converts. -/
theorem ofText_eq_message {message : Str} {value : Value} {id : ℤ}
    {offer : Except Exception (Option ℤ)}
    (h : Request.ofText message = .ok (.message value id offer)) :
    ∃ ms signal, Reader.parse message = .ok (some (.object ms)) ∧ ms.lookup kSignal = some signal ∧
      signal.asString = .ok kMessage ∧ (member ms "to".toList).asInt = .ok id ∧
      offer = Request.offerOf ms := by
  obtain ⟨ms, signal, type, hparse, hsignal, htype, hrequest⟩ := ofText_eq_ok h nofun
  obtain ⟨rfl, hint, hoffer⟩ := ofSignal_eq_message hrequest
  exact ⟨ms, signal, hparse, hsignal, htype, hint, hoffer⟩

/-- Such an object is a request to relay. -/
theorem ofText_message {message : Str} {ms : ObjectValues} {signal : Value} {id : ℤ}
    (hparse : Reader.parse message = .ok (some (.object ms)))
    (hsignal : ms.lookup kSignal = some signal) (htype : signal.asString = .ok kMessage)
    (hint : (member ms "to".toList).asInt = .ok id) : Request.ofText message =
      .ok (.message (.object (touch "to".toList ms)) id (Request.offerOf ms)) := by
  rw [ofText_object hparse hsignal htype, Request.ofSignal, if_neg (by decide),
    if_neg (by decide), if_pos rfl, hint]
  rfl

theorem ofText_signIn {message name : Str} {ms : ObjectValues} {signal : Value}
    (hparse : Reader.parse message = .ok (some (.object ms)))
    (hsignal : ms.lookup kSignal = some signal) (htype : signal.asString = .ok kSignIn)
    (hname : (member ms kName).asString = .ok name) : Request.ofText message =
      .ok (.signIn name (ms.lookup "nolist".toList).isSome) := by
  rw [ofText_object hparse hsignal htype, Request.ofSignal, if_pos rfl, hname]
  rfl

theorem ofText_exist {message name : Str} {ms : ObjectValues} {signal : Value}
    (hparse : Reader.parse message = .ok (some (.object ms)))
    (hsignal : ms.lookup kSignal = some signal) (htype : signal.asString = .ok "exist".toList)
    (hname : (member ms "name".toList).asString = .ok name) :
    Request.ofText message = .ok (.exist name) := by
  rw [ofText_object hparse hsignal htype, Request.ofSignal, if_neg (by decide),
    if_neg (by decide), if_neg (by decide), if_pos rfl, hname]
  rfl

/-- **`OnClose` is a departure.** -/
theorem close_outcome (env : Env H) (hdl : H) (s : SignalServer H) :
    (Event.close env hdl).outcome s = match s.mapPeers[hdl]? with
      | none => ⟨none, s, []⟩
      | some p =>
        if p.id = -1 then ⟨none, { s with mapPeers := s.mapPeers.erase hdl }, []⟩
        else ⟨none, s.leave hdl p.id, s.notices env hdl p.id⟩ := by
  show Call.outcome (onClose env hdl) s = _
  simp only [Call.outcome, onClose, EStateM.run_bind]
  show Outcome.ofResult ((match s.mapPeers[hdl]? with
    | none => _
    | some p => _ : Call H Unit).run ⟨s, []⟩) = _
  cases s.mapPeers[hdl]? with
  | none => rfl
  | some p =>
    by_cases hid : p.id = -1
    · simp only [hid, ne_eq, not_true, if_false, if_true]
      rfl
    · simp only [hid, ne_eq, not_false_eq_true, if_true, if_false]
      exact congrArg Outcome.ofResult (tellPartner_run env hdl p.id s [])

/-- A close always completes. -/
theorem Step.close {env : Env H} {hdl : H} {s : SignalServer H} :
    Step s (.close env hdl) ((Event.close env hdl).outcome s).server := by
  refine ⟨?_, rfl⟩
  rw [close_outcome]
  split
  · exact nofun
  · split_ifs <;> exact nofun

theorem receive_outcome_of_request {message : Str} {request : Request}
    (h : Request.ofText message = .ok request) (env : Env H) (hdl : H) (s : SignalServer H) :
    (Event.receive env hdl message).outcome s = request.outcome env hdl s := by
  rw [receive_outcome, h]
  rfl

theorem Step.signIn {env : Env H} {hdl : H} {message name : Str} {nolist : Bool} {id : ℤ}
    {s : SignalServer H} (h : Request.ofText message = .ok (.signIn name nolist))
    (hid : s.freshId = some id) : Step s (.receive env hdl message) (s.signIn hdl name id) := by
  unfold Step
  rw [receive_outcome_of_request h]
  simp only [Request.outcome, hid]
  exact ⟨nofun, trivial⟩

/-- A sign-in that completes got an id. -/
theorem Step.freshId {env : Env H} {hdl : H} {message name : Str} {nolist : Bool}
    {s s' : SignalServer H} (h : Step s (.receive env hdl message) s')
    (hrequest : Request.ofText message = .ok (.signIn name nolist)) :
    ∃ id, s.freshId = some id ∧ s' = s.signIn hdl name id := by
  obtain ⟨hends, rfl⟩ := h
  rw [receive_outcome_of_request hrequest] at hends ⊢
  cases hid : s.freshId with
  | none => simp [Request.outcome, hid] at hends
  | some id => exact ⟨id, rfl, by simp only [Request.outcome, hid]⟩

theorem Step.offer {env : Env H} {hdl : H} {message : Str} {value : Value} {sender id : ℤ}
    {s : SignalServer H}
    (h : Request.ofText message = .ok (.message value id (.ok (some sender)))) :
    Step s (.receive env hdl message) (s.record ⟨sender, id⟩) := by
  unfold Step
  rw [receive_outcome_of_request h]
  exact ⟨nofun, rfl⟩

/-! ## Changes of the members -/

/-- What a call does to the members of the server. -/
inductive Change (H : Type) where
  | stay
  | signIn (hdl : H) (name : Str) (id : ℤ)
  | leave (hdl : H) (id : ℤ)
  | record (p : Pair)

def SignalServer.apply (s : SignalServer H) : Change H → SignalServer H
  | .stay => s
  | .signIn hdl name id => s.signIn hdl name id
  | .leave hdl id => s.leave hdl id
  | .record p => s.record p

/-- The change a request makes. -/
def Request.change (s : SignalServer H) (hdl : H) : Request → Change H
  | .signIn name _ =>
    match s.freshId with
    | some id => .signIn hdl name id
    | none => .stay
  | .signOut id => .leave hdl id
  | .message _ id (.ok (some sender)) => .record ⟨sender, id⟩
  | .message _ _ _ | .exist _ | .ignored => .stay

def changeOf (s : SignalServer H) (hdl : H) : Except Exception Request → Change H
  | .ok request => request.change s hdl
  | .error _ => .stay

/-- The change the close of a connection makes, by its entry in the registry. -/
def closeChange (hdl : H) : Option (Peer H) → Change H
  | some p => .leave hdl p.id
  | none => .stay

def Event.change (s : SignalServer H) : Event H → Change H
  | .receive _ hdl message => changeOf s hdl (Request.ofText message)
  | .close _ hdl => closeChange hdl s.mapPeers[hdl]?

theorem Request.outcome_server (env : Env H) (hdl : H) (s : SignalServer H) (request : Request) :
    (request.outcome env hdl s).server = s.apply (request.change s hdl) := by
  cases request with
  | signIn name nolist =>
    simp only [Request.outcome, Request.change]
    cases s.freshId <;> rfl
  | message value id offer =>
    rcases offer with e | _ | sender <;> rfl
  | _ => rfl

/-- **The members change as the event says.** The id -1, under which `OnClose` would keep the
pairs, is taken by no peer. -/
theorem Event.outcome_server {s : SignalServer H}
    (hid : ∀ (k : H) (p : Peer H), s.mapPeers[k]? = some p → p.id ≠ -1) (e : Event H) :
    (e.outcome s).server = s.apply (e.change s) := by
  cases e with
  | receive env hdl message =>
    rw [receive_outcome]
    show _ = s.apply (changeOf s hdl (Request.ofText message))
    cases Request.ofText message with
    | error e => rfl
    | ok request => exact request.outcome_server env hdl s
  | close env hdl =>
    rw [close_outcome]
    show _ = s.apply (closeChange hdl s.mapPeers[hdl]?)
    cases hpeer : s.mapPeers[hdl]? with
    | none => rfl
    | some p =>
      simp only [if_neg (hid hdl p hpeer)]
      rfl

/-- **A call that raises changes no member.** -/
theorem raised_server {s : SignalServer H} {e : Event H} {ex : Exception}
    (h : (e.outcome s).ending = some (.raised ex)) : (e.outcome s).server = s := by
  cases e with
  | receive env hdl message =>
    rw [receive_outcome] at h ⊢
    cases hreq : Request.ofText message with
    | error e => rfl
    | ok request =>
      rw [hreq] at h
      cases request with
      | signIn name nolist =>
        simp only [outcomeOf, Request.outcome] at h
        cases hid : s.freshId <;> rw [hid] at h <;> cases h
      | message value id offer =>
        rcases offer with e | _ | sender
        · rfl
        · cases h
        · cases h
      | _ => cases h
  | close env hdl =>
    rw [close_outcome] at h
    cases hpeer : s.mapPeers[hdl]? with
    | none =>
      rw [hpeer] at h
      cases h
    | some p =>
      rw [hpeer] at h
      dsimp only at h
      split_ifs at h

/-- What an event can do to the members: nothing, or one change, by what it is. -/
theorem Event.change_cases (s : SignalServer H) (e : Event H) :
    e.change s = .stay ∨
    (∃ env hdl message name nolist id, e = .receive env hdl message ∧
      Request.ofText message = .ok (.signIn name nolist) ∧ s.freshId = some id ∧
      e.change s = .signIn hdl name id) ∨
    (∃ env hdl message id, e = .receive env hdl message ∧
      Request.ofText message = .ok (.signOut id) ∧ e.change s = .leave hdl id) ∨
    (∃ env hdl message value sender id, e = .receive env hdl message ∧
      Request.ofText message = .ok (.message value id (.ok (some sender))) ∧
      e.change s = .record ⟨sender, id⟩) ∨
    ∃ env hdl p, e = .close env hdl ∧ s.mapPeers[hdl]? = some p ∧
      e.change s = .leave hdl p.id := by
  cases e with
  | receive env hdl message =>
    have hchange : (Event.receive env hdl message).change s =
        changeOf s hdl (Request.ofText message) := rfl
    cases hreq : Request.ofText message with
    | error e =>
      rw [hreq] at hchange
      exact .inl hchange
    | ok request =>
      rw [hreq] at hchange
      cases request with
      | signIn name nolist =>
        simp only [changeOf, Request.change] at hchange
        cases hid : s.freshId with
        | none =>
          rw [hid] at hchange
          exact .inl hchange
        | some id =>
          rw [hid] at hchange
          exact .inr (.inl ⟨env, hdl, message, name, nolist, id, rfl, hreq, rfl, hchange⟩)
      | signOut id => exact .inr (.inr (.inl ⟨env, hdl, message, id, rfl, hreq, hchange⟩))
      | message value id offer =>
        rcases offer with e | _ | sender
        · exact .inl hchange
        · exact .inl hchange
        · exact .inr (.inr (.inr (.inl
            ⟨env, hdl, message, value, sender, id, rfl, hreq, hchange⟩)))
      | exist name => exact .inl hchange
      | ignored => exact .inl hchange
  | close env hdl =>
    have hchange : (Event.close env hdl).change s = closeChange hdl s.mapPeers[hdl]? := rfl
    cases hpeer : s.mapPeers[hdl]? with
    | none =>
      rw [hpeer] at hchange
      exact .inl hchange
    | some p =>
      rw [hpeer] at hchange
      exact .inr (.inr (.inr (.inr ⟨env, hdl, p, rfl, hpeer, hchange⟩)))

/-- Only a request to sign in signs in, under the id `NextID` returns. -/
theorem Event.change_signIn {s : SignalServer H} {e : Event H} {hdl : H} {name : Str} {id : ℤ}
    (h : e.change s = .signIn hdl name id) : s.freshId = some id ∧ ∃ env message nolist,
      e = .receive env hdl message ∧ Request.ofText message = .ok (.signIn name nolist) := by
  rcases e.change_cases s with hc | ⟨env, hdl', message, name', nolist, id', he, hreq, hid, hc⟩ |
    ⟨_, _, _, _, _, _, hc⟩ | ⟨_, _, _, _, _, _, _, _, hc⟩ | ⟨_, _, _, _, _, hc⟩
  all_goals rw [h] at hc
  all_goals cases hc
  exact ⟨hid, env, message, nolist, he, hreq⟩

/-- Only a request to sign out and a close give up an id: the one in the message, and the one
registered. -/
theorem Event.change_leave {s : SignalServer H} {e : Event H} {hdl : H} {id : ℤ}
    (h : e.change s = .leave hdl id) :
    (∃ env message, e = .receive env hdl message ∧
      Request.ofText message = .ok (.signOut id)) ∨
    ∃ env p, e = .close env hdl ∧ s.mapPeers[hdl]? = some p ∧ p.id = id := by
  rcases e.change_cases s with hc | ⟨_, _, _, _, _, _, _, _, _, hc⟩ |
    ⟨env, hdl', message, id', he, hreq, hc⟩ | ⟨_, _, _, _, _, _, _, _, hc⟩ |
    ⟨env, hdl', p, he, hpeer, hc⟩
  all_goals rw [h] at hc
  all_goals cases hc
  · exact .inl ⟨env, message, he, hreq⟩
  · exact .inr ⟨env, p, he, hpeer, rfl⟩

end WsSignalServer
