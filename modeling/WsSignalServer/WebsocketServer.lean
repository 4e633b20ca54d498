import WsSignalServer.Registry

/-!
# `WebsocketServer`

The threads around the signalling core. The handlers websocketpp calls push one action each;
`process_messages`, on a thread of its own, pops one action at a time and dispatches it.

**Interleaving.** A step of the system is the push of a handler, the pop of the processing
thread, or the dispatch of the action it holds. Pushes and pops are atomic under
`m_action_lock`, a dispatch is atomic under `m_connection_lock`. A dispatch that does not return
is no step.

**Sends.** `m_server_plain` and `m_server_tls` are the two endpoints of the library. A send is
recorded as what is passed to one of them (`Delivery`); whether it succeeds does not matter to
the server, which catches the exception. A message goes to the core and from there to the
connections it answers or is relayed to; no message is sent on to all of them, as the comment of
`websocket_server.h` has it.
-/

namespace WsSignalServer

open Std General Json

/-! ## Actions -/

/-- The opcode of a data message. -/
inductive Opcode where
  | text
  | binary
  deriving DecidableEq, Repr

/-- A `message_ptr`. -/
structure Message where
  opcode : Opcode
  payload : Str
  deriving DecidableEq, Repr

/-- An `action`, by its type. The connection of an `EXIT` is empty. -/
inductive Action (H : Type) where
  | subscribe (hdl : H)
  | tlsSubscribe (hdl : H)
  | unsubscribe (hdl : H)
  | message (hdl : H) (msg : Message)
  | exit
  deriving DecidableEq, Repr

/-- `m_server_plain` and `m_server_tls`. -/
inductive Endpoint where
  | plain
  | tls
  deriving DecidableEq, Repr

/-- A call of an endpoint's `send`. -/
structure Delivery (α H : Type) where
  endpoint : Endpoint
  opcode : Opcode
  payload : α
  hdl : H
  deriving DecidableEq, Repr

/-- Where `process_messages` is: at the wait, holding an action it popped, returned, or ended by
an exception that escaped a dispatch. -/
inductive Loop (H : Type) where
  | waiting
  | holding (a : Action H)
  | returned
  | terminated
  deriving DecidableEq, Repr

variable {H : Type} [LinearOrder H]

/-- The members of `WebsocketServer`, the derived `SignalServer`, and its processing thread. -/
structure WebsocketServer (H : Type) [LinearOrder H] where
  conListPlain : ExtTreeSet H compare
  conListTls : ExtTreeSet H compare
  actions : List (Action H)
  signal : SignalServer H
  loop : Loop H

namespace WebsocketServer

def init : WebsocketServer H := ⟨∅, ∅, [], .init, .waiting⟩

/-! ## `Send` and `Broadcast` -/

section Send

variable {α : Type}

/-- Both overloads of `Send`: whatever is not in the plain list goes to the TLS endpoint. -/
def sendAs (opcode : Opcode) (w : WebsocketServer H) (payload : α) (hdl : H) : Delivery α H :=
  ⟨if hdl ∈ w.conListPlain then .plain else .tls, opcode, payload, hdl⟩

/-- `Send(const std::string&, connection_hdl)`. -/
def send (w : WebsocketServer H) (text : α) (hdl : H) : Delivery α H := sendAs .text w text hdl

/-- `Send(void*, int, connection_hdl)`. -/
def sendData (w : WebsocketServer H) (data : α) (hdl : H) : Delivery α H :=
  sendAs .binary w data hdl

/-- Both overloads of `Broadcast`: first the plain connections, then the TLS ones. -/
def broadcastAs (opcode : Opcode) (w : WebsocketServer H) (payload : α) : List (Delivery α H) :=
  w.conListPlain.toList.map (sendAs opcode w payload) ++
    w.conListTls.toList.map (sendAs opcode w payload)

/-- `Broadcast(const std::string&)`. -/
def broadcast (w : WebsocketServer H) (text : α) : List (Delivery α H) := broadcastAs .text w text

/-- `Broadcast(void*, int)`. -/
def broadcastData (w : WebsocketServer H) (data : α) : List (Delivery α H) :=
  broadcastAs .binary w data

end Send

/-! ## The handlers of the network threads -/

def push (w : WebsocketServer H) (a : Action H) : WebsocketServer H :=
  { w with actions := w.actions ++ [a] }

def onOpen (w : WebsocketServer H) (hdl : H) : WebsocketServer H := w.push (.subscribe hdl)

def onOpenTls (w : WebsocketServer H) (hdl : H) : WebsocketServer H := w.push (.tlsSubscribe hdl)

def onClose (w : WebsocketServer H) (hdl : H) : WebsocketServer H := w.push (.unsubscribe hdl)

def onMessage (w : WebsocketServer H) (hdl : H) (msg : Message) : WebsocketServer H :=
  w.push (.message hdl msg)

/-- `wait_exit_message`, once an exit message has come. -/
def waitExitMessage (w : WebsocketServer H) : WebsocketServer H := w.push .exit

/-! ## `process_messages` -/

/-- The lock is released with the front of the queue in hand. -/
def pop (w : WebsocketServer H) : Option (WebsocketServer H) :=
  match w.loop, w.actions with
  | .waiting, a :: as => some { w with actions := as, loop := .holding a }
  | _, _ => none

/-- A call into the signalling core, its sends routed by the lists as they are. An exception ends
the thread. -/
def finish (w : WebsocketServer H) (o : Outcome H) :
    Option (WebsocketServer H × List (Delivery Value H)) :=
  let deliveries := o.sent.map fun m => w.send m.text m.hdl
  match o.ending with
  | none => some ({ w with signal := o.server, loop := .waiting }, deliveries)
  | some (.raised _) => some ({ w with signal := o.server, loop := .terminated }, deliveries)
  | some .spins => none

/-- The body of the loop after the lock is released. -/
def dispatch (env : Env H) (w : WebsocketServer H) :
    Action H → Option (WebsocketServer H × List (Delivery Value H))
  | .subscribe hdl =>
    some ({ w with conListPlain := w.conListPlain.insert hdl, loop := .waiting }, [])
  | .tlsSubscribe hdl =>
    some ({ w with conListTls := w.conListTls.insert hdl, loop := .waiting }, [])
  | .unsubscribe hdl =>
    let w := { w with
      conListPlain := w.conListPlain.erase hdl
      conListTls := w.conListTls.erase hdl }
    w.finish ((Event.close env hdl).outcome w.signal)
  | .message hdl msg =>
    if msg.opcode = .text then w.finish ((Event.receive env hdl msg.payload).outcome w.signal)
    else some ({ w with loop := .waiting }, [])
  | .exit => some ({ w with loop := .returned }, [])

/-! ## Steps -/

inductive Label (H : Type) where
  | onOpen (hdl : H)
  | onOpenTls (hdl : H)
  | onClose (hdl : H)
  | onMessage (hdl : H) (msg : Message)
  | waitExitMessage
  | pop
  | dispatch (env : Env H) (a : Action H)

def step (w : WebsocketServer H) : Label H → Option (WebsocketServer H)
  | .onOpen hdl => some (w.onOpen hdl)
  | .onOpenTls hdl => some (w.onOpenTls hdl)
  | .onClose hdl => some (w.onClose hdl)
  | .onMessage hdl msg => some (w.onMessage hdl msg)
  | .waitExitMessage => some w.waitExitMessage
  | .pop => w.pop
  | .dispatch env a => if w.loop = .holding a then (w.dispatch env a).map Prod.fst else none

def Step (w : WebsocketServer H) (l : Label H) (w' : WebsocketServer H) : Prop := w.step l = some w'

/-- What a step passes to the endpoints. -/
def sends (w : WebsocketServer H) : Label H → List (Delivery Value H)
  | .dispatch env a => ((w.dispatch env a).map Prod.snd).getD []
  | _ => []

/-- The action a handler pushes. -/
def Label.pushed? : Label H → Option (Action H)
  | .onOpen hdl => some (.subscribe hdl)
  | .onOpenTls hdl => some (.tlsSubscribe hdl)
  | .onClose hdl => some (.unsubscribe hdl)
  | .onMessage hdl msg => some (.message hdl msg)
  | .waitExitMessage => some .exit
  | .pop | .dispatch _ _ => none

def Label.dispatched? : Label H → Option (Action H)
  | .dispatch _ a => some a
  | _ => none

/-- The actions pushed, in order. -/
def pushed (labels : List (Label H)) : List (Action H) := labels.filterMap Label.pushed?

/-- The actions dispatched, in order. -/
def dispatched (labels : List (Label H)) : List (Action H) := labels.filterMap Label.dispatched?

/-! ## What a step does -/

/-- What the dispatch of an action does to the server, and what it sends. -/
inductive Effect (env : Env H) (w : WebsocketServer H) :
    Action H → WebsocketServer H → List (Delivery Value H) → Prop
  | subscribe (hdl : H) : Effect env w (.subscribe hdl)
      { w with conListPlain := w.conListPlain.insert hdl, loop := .waiting } []
  | tlsSubscribe (hdl : H) : Effect env w (.tlsSubscribe hdl)
      { w with conListTls := w.conListTls.insert hdl, loop := .waiting } []
  | unsubscribe (hdl : H) (signal : SignalServer H) (loop : Loop H)
      (hstep : WsSignalServer.Step w.signal (.close env hdl) signal)
      (hloop : loop = .waiting ∨ loop = .terminated) :
      Effect env w (.unsubscribe hdl)
        ⟨w.conListPlain.erase hdl, w.conListTls.erase hdl, w.actions, signal, loop⟩
        (((Event.close env hdl).outcome w.signal).sent.map fun m =>
          send { w with conListPlain := w.conListPlain.erase hdl } m.text m.hdl)
  | text (hdl : H) (payload : Str) (signal : SignalServer H) (loop : Loop H)
      (hstep : WsSignalServer.Step w.signal (.receive env hdl payload) signal)
      (hloop : loop = .waiting ∨ loop = .terminated) :
      Effect env w (.message hdl ⟨.text, payload⟩) { w with signal, loop }
        (((Event.receive env hdl payload).outcome w.signal).sent.map fun m =>
          w.send m.text m.hdl)
  | binary (hdl : H) (payload : Str) :
      Effect env w (.message hdl ⟨.binary, payload⟩) { w with loop := .waiting } []
  | exit : Effect env w .exit { w with loop := .returned } []

variable {env : Env H} {w w' : WebsocketServer H} {a : Action H} {l : Label H}
  {ds : List (Delivery Value H)}

theorem finish_eq_some {o : Outcome H} (h : w.finish o = some (w', ds)) :
    o.ending ≠ some .spins ∧ ds = (o.sent.map fun m => w.send m.text m.hdl) ∧
      ∃ loop, (loop = .waiting ∨ loop = .terminated) ∧
        w' = { w with signal := o.server, loop } := by
  unfold finish at h
  rcases hending : o.ending with _ | ex | _ <;> rw [hending] at h
  · cases h
    exact ⟨nofun, rfl, .waiting, .inl rfl, rfl⟩
  · cases h
    exact ⟨nofun, rfl, .terminated, .inr rfl, rfl⟩
  · cases h

/-- **Every dispatch is one of the effects.** -/
theorem effect_of_dispatch (h : w.dispatch env a = some (w', ds)) : Effect env w a w' ds := by
  cases a with
  | subscribe hdl => cases h; exact .subscribe hdl
  | tlsSubscribe hdl => cases h; exact .tlsSubscribe hdl
  | unsubscribe hdl =>
    obtain ⟨hends, rfl, loop, hloop, rfl⟩ := finish_eq_some h
    exact .unsubscribe hdl _ loop ⟨hends, rfl⟩ hloop
  | message hdl msg =>
    obtain ⟨opcode, payload⟩ := msg
    cases opcode with
    | text =>
      obtain ⟨hends, rfl, loop, hloop, rfl⟩ := finish_eq_some h
      exact .text hdl payload _ loop ⟨hends, rfl⟩ hloop
    | binary => cases h; exact .binary hdl payload
  | exit => cases h; exact .exit

/-- **Every step** is the push of an action, a pop, or the dispatch of the action held. -/
theorem step_cases (h : Step w l w') :
    (∃ a, l.pushed? = some a ∧ l.dispatched? = none ∧ w' = w.push a) ∨
    (l = .pop ∧ ∃ a as, w.loop = .waiting ∧ w.actions = a :: as ∧
      w' = { w with actions := as, loop := .holding a }) ∨
    ∃ env a ds, l = .dispatch env a ∧ w.loop = .holding a ∧ ds = w.sends l ∧
      Effect env w a w' ds := by
  cases l with
  | onOpen hdl => exact .inl ⟨_, rfl, rfl, (Option.some.inj h).symm⟩
  | onOpenTls hdl => exact .inl ⟨_, rfl, rfl, (Option.some.inj h).symm⟩
  | onClose hdl => exact .inl ⟨_, rfl, rfl, (Option.some.inj h).symm⟩
  | onMessage hdl msg => exact .inl ⟨_, rfl, rfl, (Option.some.inj h).symm⟩
  | waitExitMessage => exact .inl ⟨_, rfl, rfl, (Option.some.inj h).symm⟩
  | pop =>
    refine .inr (.inl ⟨rfl, ?_⟩)
    change w.pop = some w' at h
    unfold pop at h
    split at h
    · cases h
      exact ⟨_, _, ‹_›, ‹_›, rfl⟩
    · cases h
  | dispatch env a =>
    change (if w.loop = .holding a then (w.dispatch env a).map Prod.fst else none) = some w' at h
    split_ifs at h with hloop
    obtain ⟨⟨w'', ds⟩, hdispatch, rfl⟩ := Option.map_eq_some_iff.1 h
    have hsends : ds = w.sends (.dispatch env a) := by rw [sends, hdispatch]; rfl
    exact .inr (.inr ⟨env, a, ds, rfl, hloop, hsends, effect_of_dispatch hdispatch⟩)

theorem Step.signal (h : Step w l w') (hw : WsSignalServer.Reachable w.signal) :
    WsSignalServer.Reachable w'.signal := by
  rcases step_cases h with ⟨a, -, -, rfl⟩ | ⟨-, a, as, -, -, rfl⟩ |
    ⟨env, a, ds, -, -, -, heffect⟩
  · exact hw
  · exact hw
  · cases heffect with
    | unsubscribe hdl signal loop hcore => exact hw.snoc hcore
    | text hdl payload signal loop hcore => exact hw.snoc hcore
    | _ => exact hw

/-- The signalling core of a reachable server is reachable. -/
theorem signal_reachable (h : Transition.Reachable Step init w) :
    WsSignalServer.Reachable w.signal := by
  have hinit : WsSignalServer.Reachable (init : WebsocketServer H).signal :=
    Transition.Reachable.refl
  exact h.invariant (P := fun w => WsSignalServer.Reachable w.signal)
    (fun _ _ _ hw hstep => hstep.signal hw) hinit

end WebsocketServer

end WsSignalServer
