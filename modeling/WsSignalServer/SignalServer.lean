import WsSignalServer.General.Index
import WsSignalServer.General.While
import WsSignalServer.Json.Reader

/-!
# `SignalServer`

The signalling core of `signal_server.cpp`: peers sign in under a name and get an id, messages
are relayed by id, and an offer records a pair whose other end is told when one end leaves.

**Handles.** `H` is the type of the connection handles websocketpp delivers, up to the owner
they share. `std::owner_less` orders them by an address, so nothing but a linear order is known
of them. `connection_hdl()`, the handle of no connection, is `none`.

**Calls.** A call to `OnReceive` or `OnClose` runs in `Call H`: it reads and writes the members
of the server, appends to the messages it has sent, and may fail to return (`Abort`), with what
it did so far kept. `Send` catches every exception of websocketpp. Its text is always some
value's `toStyledString()`, and that value stands for it here. The text itself says the repaired
value, `Value.repaired`: where a string is no UTF-8 the writer puts U+FFFD. The comments of a
message that is relayed, which go with its text, are no part of the value.

**Environment.** `Env` is what a call reads outside the server: the ICE server set up by `main`,
and which handles have expired. A call looks at no handle's expiry twice.

Locks and logging are left out: the members are only touched by the one processing thread.
-/

namespace WsSignalServer

open Std General Json Json.ObjectValues

/-! ## Texts -/

def kSignal : Str := "signal".toList
def kName : Str := "name".toList
def kMessage : Str := "message".toList
def kSignIn : Str := "sign_in".toList
def kSignOut : Str := "sign_out".toList
def kID : Str := "id".toList

/-! ## State -/

/-- `ICE`, the server offered to clients at sign-in. -/
structure ICE where
  uri : Str
  username : Str
  password : Str
  deriving DecidableEq, Repr

/-- `ICE()`. -/
def ICE.default : ICE where
  uri := "turn:115.231.220.242:8101?transport=tcp".toList
  username := "ts1".toList
  password := "12345678".toList

structure Peer (H : Type) where
  id : ℤ
  hdl : H
  name : Str
  deriving DecidableEq, Repr

/-- A recorded call. -/
structure Pair where
  «from» : ℤ
  «to» : ℤ
  deriving DecidableEq, Repr

variable {H : Type} [LinearOrder H]

/-- The members of `SignalServer`: `m_map_peers`, `m_last_id` and `m_vPairID`. -/
structure SignalServer (H : Type) [LinearOrder H] where
  mapPeers : ExtTreeMap H (Peer H) compare
  lastId : ℤ
  vPairID : List Pair

/-- `SignalServer()`. -/
def SignalServer.init : SignalServer H := ⟨∅, -1, []⟩

structure Env (H : Type) where
  iceServer : ICE
  expired : H → Bool

/-- A message handed to `Send`. -/
structure Sent (H : Type) where
  text : Value
  hdl : H
  deriving DecidableEq, Repr

/-! ## Calls -/

/-- Why a call does not return: an exception escapes it, or the loop of `NextID` never ends. -/
inductive Abort where
  | raised (e : Exception)
  | spins
  deriving DecidableEq, Repr

/-- The server during a call, and what the call has sent. -/
structure Frame (H : Type) [LinearOrder H] where
  server : SignalServer H
  sent : List (Sent H)

abbrev Call (H : Type) [LinearOrder H] := EStateM Abort (Frame H)

instance : MonadLift (Except Exception) (Call H) where
  monadLift r := match r with
    | .ok a => pure a
    | .error e => throw (.raised e)

/-- The server as it is now. -/
def self : Call H (SignalServer H) := do return (← get).server

def assign (f : SignalServer H → SignalServer H) : Call H Unit :=
  modify fun fr => { fr with server := f fr.server }

/-- `Send(text, hdl)`. -/
def send (text : Value) (hdl : H) : Call H Unit :=
  modify fun fr => { fr with sent := fr.sent ++ [⟨text, hdl⟩] }

/-- `if (!hdl.expired()) Send(text, hdl)`, where `connection_hdl()` counts as expired. -/
def sendUnlessExpired (env : Env H) (text : Value) : Option H → Call H Unit
  | some hdl => if env.expired hdl then return else send text hdl
  | none => return

/-! ## Lookups -/

namespace SignalServer

/-- `IsExist(int)`. -/
def isExistId (s : SignalServer H) (id : ℤ) : Bool :=
  s.mapPeers.toList.any fun p => p.2.id = id

/-- `IsExist(const std::string&)`: the id of the first peer of that name, or -1. -/
def isExistName (s : SignalServer H) (name : Str) : ℤ :=
  match s.mapPeers.toList.find? fun p => p.2.name = name with
  | some p => p.2.id
  | none => -1

/-- `GetConnectionFromID`. -/
def getConnectionFromID (s : SignalServer H) (id : ℤ) : Option H :=
  firstKey (fun p => p.id = id) s.mapPeers

end SignalServer

/-- `NextID`. With every id below `INT_MAX` in use the loop has no end; `INT_MAX` rounds tell. -/
def nextID : Call H ℤ := do
  let s ← self
  match runWhile s.isExistId (wrap maxInt) maxInt.toNat (wrap maxInt s.lastId) with
  | none => throw .spins
  | some id =>
    assign fun s => { s with lastId := id }
    return id

/-! ## Pairs -/

namespace Pair

def Mentions (p : Pair) (id : ℤ) : Prop := p.from = id ∨ p.to = id

instance (p : Pair) (id : ℤ) : Decidable (p.Mentions id) := inferInstanceAs (Decidable (_ ∨ _))

/-- The end of a pair across from `id`. -/
def other (p : Pair) (id : ℤ) : ℤ := if p.from = id then p.to else p.from

end Pair

/-- The loop of `RemovePairID`: the first pair that mentions `id` is erased and its other end
returned; -1 without one. -/
def removePair (id : ℤ) : List Pair → ℤ × List Pair
  | [] => (-1, [])
  | p :: ps =>
    if p.Mentions id then (p.other id, ps)
    else let (pid, ps) := removePair id ps; (pid, p :: ps)

/-- `RemovePairID`. -/
def removePairID (id : ℤ) : Call H ℤ := do
  let (pid, pairs) := removePair id (← self).vPairID
  assign fun s => { s with vPairID := pairs }
  return pid

/-- How both ways of leaving end: `text` goes to the partner of `id`, if there is one with a
live connection. -/
def tellPartner (env : Env H) (id : ℤ) (text : Value) : Call H Unit := do
  let pid ← removePairID id
  if pid ≠ -1 then
    sendUnlessExpired env text ((← self).getConnectionFromID pid)

/-- The message that tells a partner that `id` is gone. -/
def signOutNotice (id : ℤ) : Value :=
  .object (putAll [] [(kSignal, .string kSignOut), (kID, .int id)])

/-! ## Handlers -/

/-- The peers already registered, or null when there is none. -/
def SignalServer.peerList (s : SignalServer H) : Value :=
  match s.mapPeers.toList with
  | [] => .null
  | peers => .array (peers.map fun pa => .object (putAll []
      [("name".toList, .string pa.2.name), ("id".toList, .int pa.2.id)]))

/-- The reply to a sign-in, up to the list of peers. `repeat` says that `sameId` was found for
the name among the registered peers. -/
def signInReply (ice : ICE) (id : ℤ) (name : Str) (sameId : ℤ) : ObjectValues :=
  let jreturn := putAll []
    [(kID, .int id),
     (kName, .string name),
     (kSignal, .string "return".toList),
     ("request".toList, .string "sign_in".toList),
     ("status".toList, .string "ok".toList),
     ("repeat".toList, .boolean (sameId ≠ -1))]
  if ice.uri ≠ [] then
    put "ice".toList (.object (putAll []
      [("uri".toList, .string ice.uri),
       ("username".toList, .string ice.username),
       ("password".toList, .string ice.password)])) jreturn
  else jreturn

def processSignIn (env : Env H) (hdl : H) (value : Value) : Call H Unit := do
  let (value, member) ← value.resolveReference kName
  let name ← member.asString
  let id ← nextID
  let p : Peer H := { id, hdl, name }
  let s ← self
  let jreturn := signInReply env.iceServer p.id p.name (s.isExistName p.name)
  let nolist ← value.isMember "nolist".toList
  let jreturn := if nolist then jreturn else put "peers".toList s.peerList jreturn
  assign fun s => { s with mapPeers := s.mapPeers.insert hdl p }
  send (.object jreturn) hdl

def signOutReply : ObjectValues :=
  putAll []
    [(kSignal, .string "return".toList),
     ("request".toList, .string "sign_out".toList),
     ("status".toList, .string "ok".toList)]

def processSignOut (env : Env H) (hdl : H) (value : Value) : Call H Unit := do
  let (_, member) ← value.resolveReference kID
  let id ← member.asInt
  assign fun s => { s with mapPeers := s.mapPeers.erase hdl }
  send (.object signOutReply) hdl
  tellPartner env id (signOutNotice id)

/-- The value relayed has been touched by the lookup of `to`. The offer is recorded after it was
sent, and whether or not it was. -/
def processMessage (env : Env H) (value : Value) : Call H Unit := do
  let (value, member) ← value.resolveReference "to".toList
  let id ← member.asInt
  sendUnlessExpired env value ((← self).getConnectionFromID id)
  if ← value.isMember "type".toList then
    let (value, member) ← value.resolveReference "type".toList
    if (← member.asString) = "offer".toList then
      let (_, member) ← value.resolveReference "from".toList
      let p : Pair := ⟨← member.asInt, id⟩
      assign fun s => { s with vPairID := s.vPairID ++ [p] }

/-- The reply to a request whether a name exists. -/
def existReply (id : ℤ) : ObjectValues :=
  let jreturn := putAll []
    [(kSignal, .string "return".toList), ("request".toList, .string "exist".toList)]
  if id ≥ 0 then putAll jreturn [("id".toList, .int id), ("exist".toList, .boolean true)]
  else put "exist".toList (.boolean false) jreturn

def processExist (hdl : H) (value : Value) : Call H Unit := do
  let (_, member) ← value.resolveReference "name".toList
  let name ← member.asString
  let s ← self
  send (.object (existReply (s.isExistName name))) hdl

/-! ## `OnReceive` and `OnClose` -/

def onReceive (env : Env H) (hdl : H) (message : Str) : Call H Unit := do
  let some jinput ← Reader.parse message | return
  if ← jinput.isMember kSignal then
    let (jinput, member) ← jinput.resolveReference kSignal
    let type ← member.asString
    if type = kSignIn then processSignIn env hdl jinput
    else if type = kSignOut then processSignOut env hdl jinput
    else if type = kMessage then processMessage env jinput
    else if type = "exist".toList then processExist hdl jinput

def onClose (env : Env H) (hdl : H) : Call H Unit := do
  match (← self).mapPeers[hdl]? with
  | none => return
  | some p =>
    assign fun s => { s with mapPeers := s.mapPeers.erase hdl }
    if p.id ≠ -1 then tellPartner env p.id (signOutNotice p.id)

end WsSignalServer
