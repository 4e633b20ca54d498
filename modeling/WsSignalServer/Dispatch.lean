import WsSignalServer.General.Fifo
import WsSignalServer.Relay
import WsSignalServer.WebsocketServer

/-!
# From the network threads to the relay

The queue of actions and the thread that empties it are an instance of a queue with one consumer
(`fifo_step`): pushing, popping and dispatching are its three labels, and `EXIT` is the item that
stops it.

**Theorem (`relay_in_order`).** In every run, whatever the interleaving, the actions dispatched
are a prefix of the actions pushed; the loop returns at the first `EXIT`; and the messages that
connection `A` sent to the id of a live connection `B` are passed on to `B` once each, in the
order in which they were pushed.
-/

namespace WsSignalServer

open Std General Json Json.ObjectValues

namespace WebsocketServer

variable {H : Type} [LinearOrder H] {w w' : WebsocketServer H} {l : Label H}
  {tr : List (WebsocketServer H × Label H)}

/-! ## The queue -/

/-- The processing thread as a consumer. -/
def consumer : Loop H → Fifo.Consumer (Action H)
  | .waiting => .waiting
  | .holding a => .holding a
  | .returned => .stopped
  | .terminated => .crashed

def queue (w : WebsocketServer H) : Fifo.State (Action H) := ⟨w.actions, consumer w.loop⟩

def Label.toFifo (l : Label H) : Fifo.Label (Action H) :=
  match l.pushed?, l.dispatched? with
  | some a, _ => .push a
  | none, some a => .handle a
  | none, none => .pop

omit [LinearOrder H] in
theorem toFifo_pushed? (l : Label H) : l.toFifo.pushed? = l.pushed? := by cases l <;> rfl

omit [LinearOrder H] in
theorem toFifo_handled? (l : Label H) : l.toFifo.handled? = l.dispatched? := by cases l <;> rfl

/-- `EXIT` stops the loop, and nothing else does. -/
def isExit (a : Action H) : Bool := a = .exit

/-- **The server refines the queue.** -/
theorem fifo_step (h : Step w l w') : Fifo.Step isExit w.queue l.toFifo w'.queue := by
  rcases step_cases h with ⟨a, hpushed, -, rfl⟩ | ⟨rfl, a, as, hloop, hactions, rfl⟩ |
    ⟨env, a, ds, rfl, hloop, -, heffect⟩
  · have hl : l.toFifo = .push a := by rw [Label.toFifo, hpushed]
    rw [hl]
    exact .push a
  · have hqueue : w.queue = ⟨a :: as, .waiting⟩ := by rw [queue, hactions, hloop]; rfl
    rw [hqueue]
    exact .pop
  · have hqueue : w.queue = ⟨w.actions, .holding a⟩ := by rw [queue, hloop]; rfl
    rw [hqueue]
    cases heffect with
    | subscribe hdl => exact .handle (.inr rfl)
    | tlsSubscribe hdl => exact .handle (.inr rfl)
    | unsubscribe hdl signal loop hcore hloop' =>
      rcases hloop' with rfl | rfl
      · exact .handle (.inr rfl)
      · exact .handle (.inl rfl)
    | text hdl payload signal loop hcore hloop' =>
      rcases hloop' with rfl | rfl
      · exact .handle (.inr rfl)
      · exact .handle (.inl rfl)
    | binary hdl payload => exact .handle (.inr rfl)
    | exit => exact .handle (.inr rfl)

/-- A run of the server is a run of the queue with the same pushes and dispatches. -/
theorem fifo_run (h : Transition.Run Step init tr w) :
    ∃ ftr, Transition.Run (Fifo.Step isExit) Fifo.State.init ftr w.queue ∧
      Fifo.pushed (ftr.map Prod.snd) = pushed (tr.map Prod.snd) ∧
      Fifo.handled (ftr.map Prod.snd) = dispatched (tr.map Prod.snd) := by
  obtain ⟨ftr, q, hrun, rfl, hlabels⟩ := h.simulate (R := fun w q => q = w.queue)
    (g := fun p => p.2.toFifo)
    (by rintro w l w' _ rfl hstep; exact ⟨_, fifo_step hstep, rfl⟩) rfl
  refine ⟨ftr, hrun, ?_, ?_⟩
  · rw [hlabels, Fifo.pushed, pushed, List.filterMap_map, List.filterMap_map]
    exact List.filterMap_congr fun p _ => toFifo_pushed? p.2
  · rw [hlabels, Fifo.handled, dispatched, List.filterMap_map, List.filterMap_map]
    exact List.filterMap_congr fun p _ => toFifo_handled? p.2

theorem dispatched_prefix_pushed (h : Transition.Run Step init tr w) :
    dispatched (tr.map Prod.snd) <+: pushed (tr.map Prod.snd) := by
  obtain ⟨ftr, hrun, hpushed, hhandled⟩ := fifo_run h
  rw [← hpushed, ← hhandled]
  exact Fifo.handled_prefix_pushed hrun

/-- The loop returns at the first `EXIT`. -/
theorem returned_at_exit (h : Transition.Run Step init tr w) (hloop : w.loop = .returned) :
    ∃ before, dispatched (tr.map Prod.snd) = before ++ [.exit] ∧ .exit ∉ before := by
  obtain ⟨ftr, hrun, -, hhandled⟩ := fifo_run h
  have hstopped : w.queue.consumer = .stopped := by rw [queue, hloop]; rfl
  obtain ⟨before, a, heq, ha, hbefore⟩ := Fifo.stopped hrun hstopped
  obtain rfl : a = .exit := of_decide_eq_true ha
  refine ⟨before, hhandled.symm.trans heq, fun hmem => ?_⟩
  exact absurd (hbefore _ hmem) (by simp [isExit])

/-! ## Relaying -/

/-- The value a step is to relay to `B`: it dispatches a text frame of `A` that holds an object
with signal `message` and the integer `j` as `to`, while `B` is registered as `j` and live. -/
def relayed (A B : H) (j : ℤ) (p : WebsocketServer H × Label H) : Option Value :=
  match p.2 with
  | .dispatch env (.message hdl ⟨.text, payload⟩) =>
    if hdl = A ∧ env.expired B = false ∧ p.1.signal.mapPeers[B]?.map Peer.id = some j then
      match Reader.parse payload with
      | .ok (some (.object ms)) =>
        if ms.lookup kSignal = some (.string kMessage) ∧
            (member ms "to".toList).integer? = some j then some (.object ms)
        else none
      | _ => none
    else none
  | _ => none

/-- A message that connection `A` sent. -/
def sentBy (A : H) : Action H → Bool
  | .message hdl _ => hdl = A
  | _ => false

theorem of_relayed {A B : H} {j : ℤ} {v : Value} (h : relayed A B j (w, l) = some v) :
    ∃ env payload ms p, l = .dispatch env (.message A ⟨.text, payload⟩) ∧
      env.expired B = false ∧ w.signal.mapPeers[B]? = some p ∧ p.id = j ∧
      Reader.parse payload = .ok (some (.object ms)) ∧
      ms.lookup kSignal = some (.string kMessage) ∧
      (member ms "to".toList).integer? = some j ∧ v = .object ms := by
  unfold relayed at h
  split at h
  case h_1 env hdl payload hl =>
    split_ifs at h with hcond
    obtain ⟨rfl, hlive, hpeer⟩ := hcond
    obtain ⟨p, hp, hid⟩ := Option.map_eq_some_iff.1 hpeer
    split at h
    case h_1 ms hparse =>
      split_ifs at h with hms
      exact ⟨env, payload, ms, p, hl, hlive, hp, hid, hparse, hms.1, hms.2,
        (Option.some.inj h).symm⟩
    case h_2 => cases h
  case h_2 => cases h

/-- What a text passes to the endpoints, when the call it leads to ends. -/
theorem sends_text {env : Env H} {hdl : H} {payload : Str} {request : Request}
    (hrequest : Request.ofText payload = .ok request)
    (hends : (request.outcome env hdl w.signal).ending ≠ some .spins) :
    w.sends (.dispatch env (.message hdl ⟨.text, payload⟩)) =
      (request.outcome env hdl w.signal).sent.map fun m => w.send m.text m.hdl := by
  show ((w.finish ((Event.receive env hdl payload).outcome w.signal)).map Prod.snd).getD [] = _
  rw [receive_outcome_of_request hrequest]
  unfold finish
  rcases hending : (request.outcome env hdl w.signal).ending with _ | ex | _
  · rfl
  · rfl
  · exact absurd hending hends

theorem message_ends (env : Env H) (hdl : H) (s : SignalServer H) (value : Value) (id : ℤ)
    (offer : Except Exception (Option ℤ)) :
    ((Request.message value id offer).outcome env hdl s).ending ≠ some .spins := by
  rcases offer with e | _ | sender
  · exact nofun
  · exact nofun
  · exact nofun

/-- **A relayed frame reaches its recipient once**, as it was received. -/
theorem relayed_sends (hw : Transition.Reachable Step init w) {A B : H} {j : ℤ} {v : Value}
    (h : relayed A B j (w, l) = some v) : w.sends l = [w.send v B] := by
  obtain ⟨env, payload, ms, p, rfl, hlive, hp, rfl, hparse, hsignal, hto, rfl⟩ := of_relayed h
  have hreg := (signal_reachable hw).registered
  obtain ⟨hmin, hmax⟩ := hreg.range B p hp
  have hlookup : w.signal.getConnectionFromID p.id = some B :=
    hreg.getConnectionFromID_eq_some_iff.2 ⟨p, hp, rfl⟩
  obtain ⟨recipient, hmember, -⟩ := integer?_getD hto
  have htouch : touch "to".toList ms = ms := touch_eq_self.2 (by rw [hmember]; rfl)
  have hint : (member ms "to".toList).asInt = .ok p.id :=
    Value.asInt_of_integer_mem hto (by unfold minInt; omega) (by omega)
  have hrequest : Request.ofText payload =
      .ok (.message (.object ms) p.id (Request.offerOf ms)) := by
    rw [ofText_object hparse hsignal rfl, Request.ofSignal, if_neg (by decide),
      if_neg (by decide), if_pos rfl, hint, htouch]
    rfl
  rw [sends_text hrequest (message_ends _ _ _ _ _ _), Request.message_sent,
    deliver_of_lookup hlookup hlive]
  rfl

/-- **From the network threads to the relay, in order.** -/
theorem relay_in_order (hrun : Transition.Run Step init tr w) :
    dispatched (tr.map Prod.snd) <+: pushed (tr.map Prod.snd) ∧
    (w.loop = .returned →
      ∃ before, dispatched (tr.map Prod.snd) = before ++ [.exit] ∧ .exit ∉ before) ∧
    ∀ (A B : H) (j : ℤ),
      (∀ p ∈ tr, ∀ v, relayed A B j p = some v →
        (p.1.sends p.2).filter (fun d => d.hdl = B) = [p.1.send v B]) ∧
      ((tr.filter fun p => (relayed A B j p).isSome).filterMap fun p => p.2.dispatched?).Sublist
        ((pushed (tr.map Prod.snd)).filter (sentBy A)) := by
  refine ⟨dispatched_prefix_pushed hrun, returned_at_exit hrun, fun A B j => ⟨?_, ?_⟩⟩
  · intro p hmem v hv
    obtain ⟨w, l⟩ := p
    rw [relayed_sends (hrun.reachable_of_mem hmem) hv]
    exact List.filter_eq_self.2 (by simp [send, sendAs])
  · have hsub : ((tr.filter fun p => (relayed A B j p).isSome).filterMap
        fun p => p.2.dispatched?).Sublist (dispatched (tr.map Prod.snd)) := by
      rw [dispatched, List.filterMap_map]
      exact List.filter_sublist.filterMap _
    have hfrom : ∀ a ∈ (tr.filter fun p => (relayed A B j p).isSome).filterMap
        fun p => p.2.dispatched?, sentBy A a = true := by
      intro a ha
      obtain ⟨⟨w, l⟩, hp, hl⟩ := List.mem_filterMap.1 ha
      obtain ⟨v, hv⟩ := Option.isSome_iff_exists.1 (List.mem_filter.1 hp).2
      obtain ⟨env, payload, ms, p, rfl, -⟩ := of_relayed hv
      obtain rfl := Option.some.inj hl
      exact decide_eq_true rfl
    rw [← List.filter_eq_self.2 hfrom]
    exact (hsub.trans (dispatched_prefix_pushed hrun).sublist).filter _

/-- The dispatch of a text that carries a request. -/
theorem Step.text {env : Env H} {hdl : H} {payload : Str} {request : Request}
    (hloop : w.loop = .holding (.message hdl ⟨.text, payload⟩))
    (hrequest : Request.ofText payload = .ok request)
    (hends : (request.outcome env hdl w.signal).ending = none) :
    Step w (.dispatch env (.message hdl ⟨.text, payload⟩))
      { w with signal := (request.outcome env hdl w.signal).server, loop := .waiting } := by
  show (if w.loop = .holding (.message hdl ⟨.text, payload⟩) then
    (w.finish ((Event.receive env hdl payload).outcome w.signal)).map Prod.fst else none) = _
  rw [if_pos hloop, receive_outcome_of_request hrequest]
  unfold finish
  rw [hends]
  rfl

/-- A message to the peer 0. -/
def messageText : ObjectText where
  text := "\x7b\"signal\":\"message\",\"to\":0\x7d".toList
  members := [(kSignal, .string kMessage), ("to".toList, .int 0)]
  parse := by decide +kernel

/-- Connection 1 signs in and connection 2 sends it a message. -/
theorem message_dispatched : ∃ (tr : List (WebsocketServer ℕ × Label ℕ)) (w : WebsocketServer ℕ),
    Transition.Run Step init tr w ∧ ∃ p ∈ tr, (p.1.sends p.2).filter (fun d => d.hdl = 1) =
      [p.1.send (.object [(kSignal, .string kMessage), ("to".toList, .int 0)]) 1] := by
  let signIn : Action ℕ := .message 1 ⟨.text, signInText.text⟩
  let message : Action ℕ := .message 2 ⟨.text, messageText.text⟩
  let value : Value := .object [(kSignal, .string kMessage), ("to".toList, .int 0)]
  have hmessage : Request.ofText messageText.text = .ok (.message value 0 (.ok none)) :=
    messageText.request
  let w₁ : WebsocketServer ℕ := { init with actions := [signIn] }
  let w₂ : WebsocketServer ℕ := { init with loop := .holding signIn }
  let w₃ : WebsocketServer ℕ := { init with
    signal := ((Request.signIn "a".toList false).outcome .plain 1 .init).server }
  let w₄ := { w₃ with actions := [message] }
  let w₅ := { w₃ with loop := .holding message }
  have h₁ : Step init (.onMessage 1 ⟨.text, signInText.text⟩) w₁ := rfl
  have h₂ : Step w₁ .pop w₂ := rfl
  have h₃ : Step w₂ (.dispatch .plain signIn) w₃ :=
    .text rfl signInText_request rfl
  have h₄ : Step w₃ (.onMessage 2 ⟨.text, messageText.text⟩) w₄ := rfl
  have h₅ : Step w₄ .pop w₅ := rfl
  have h₆ : Step w₅ (.dispatch .plain message)
      { w₅ with signal := ((Request.message value 0 (.ok none)).outcome .plain 2 w₅.signal).server
                loop := .waiting } := .text rfl hmessage rfl
  have hrun := (((((Transition.Run.nil.snoc h₁).snoc h₂).snoc h₃).snoc h₄).snoc h₅).snoc h₆
  have hrelayed : relayed 2 1 0 (w₅, .dispatch .plain message) = some value := by
    have hpeer : w₅.signal.mapPeers[1]?.map Peer.id = some 0 := by decide
    simp only [relayed, message, messageText.parse, hpeer]
    rfl
  obtain ⟨-, -, hrelay⟩ := relay_in_order hrun
  refine ⟨_, _, hrun, (w₅, .dispatch .plain message), ?_, (hrelay 2 1 0).1 _ ?_ value hrelayed⟩
  · exact List.mem_append_right _ (List.mem_singleton_self _)
  · exact List.mem_append_right _ (List.mem_singleton_self _)

end WebsocketServer

end WsSignalServer
