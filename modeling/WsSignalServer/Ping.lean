import WsSignalServer.Lifecycle

/-!
# Pings and pong timeouts

`loop_ping` pings the connections of the two lists, each on the endpoint of its list. When no pong
comes for 15 seconds `on_pong_timeout` runs on a network thread and closes the connection: on the
plain endpoint if it is in the plain list *then*, and on the TLS endpoint otherwise.

**Steps.** The steps of `WebsocketServer`, a ping round, a pong, and a timeout of a connection
whose pong is awaited. A round is atomic, since `loop_ping` holds `m_connection_lock`. Nothing is
assumed of the order of a connection's handlers, or of a timeout and a close, since the timer keeps
the connection alive: an awaited connection can time out at any step.

**Theorem (`pings_routed`).** Every ping goes to the endpoint its connection was opened on.

**Theorem (`pongTimeout_routed_iff`).** A pong timeout closes the connection on the endpoint it was
opened on exactly when that is the TLS endpoint, or no close of the connection has been dispatched
since its open.
-/

namespace WsSignalServer

open Std General Json Transition

variable {H : Type} [LinearOrder H]

namespace WebsocketServer

/-! ## `loop_ping` and `on_pong_timeout` -/

/-- A call of an endpoint's `ping`, with an empty payload. -/
structure Ping (H : Type) where
  endpoint : Endpoint
  hdl : H
  deriving DecidableEq, Repr

/-- The status codes given to `close`. -/
inductive CloseStatus where
  | normal
  deriving DecidableEq, Repr

/-- A call of an endpoint's `close`. -/
structure Closing (H : Type) where
  endpoint : Endpoint
  hdl : H
  code : CloseStatus
  reason : Str
  deriving DecidableEq, Repr

/-- A round of `loop_ping`. -/
def loopPing (w : WebsocketServer H) : List (Ping H) :=
  w.conListPlain.toList.map (⟨.plain, ·⟩) ++ w.conListTls.toList.map (⟨.tls, ·⟩)

def onPongTimeout (w : WebsocketServer H) (hdl : H) : Closing H :=
  ⟨if hdl ∈ w.conListPlain then .plain else .tls, hdl, .normal, "pong timeout".toList⟩

/-! ## The lists, by what was dispatched -/

/-- The list of an endpoint. -/
def conList (w : WebsocketServer H) : Endpoint → ExtTreeSet H compare
  | .plain => w.conListPlain
  | .tls => w.conListTls

variable {env : Env H} {w w' : WebsocketServer H} {a : Action H} {ds : List (Delivery Value H)}
  {tr : List (WebsocketServer H × Label H)} {hdl : H} {e : Endpoint} {as : List (Action H)}

/-- A dispatch puts a connection into the list it opens it on, and a close takes it out. -/
theorem Effect.mem_conList (h : Effect env w a w' ds) : hdl ∈ w'.conList e ↔
    a = opens e hdl ∨ a ≠ .unsubscribe hdl ∧ hdl ∈ w.conList e := by
  cases h with
  | subscribe k => cases e <;> simp [conList, opens]
  | tlsSubscribe k => cases e <;> simp [conList, opens]
  | unsubscribe k signal loop hcore => cases e <;> simp [conList, opens]
  | text k payload signal loop hcore => cases e <;> simp [conList, opens]
  | binary k payload => cases e <;> simp [conList, opens]
  | exit => cases e <;> simp [conList, opens]

/-- **A connection is in a list since its open was dispatched**, whatever the order of its
handlers. -/
theorem mem_conList_iff (hrun : Run Step init tr w) : hdl ∈ w.conList e ↔
    Since (opens e hdl) (.unsubscribe hdl) (dispatched (tr.map Prod.snd)) := by
  refine hrun.history (P := fun labels w =>
    hdl ∈ w.conList e ↔ Since (opens e hdl) (.unsubscribe hdl) (dispatched labels)) ?_ ?_
  · refine iff_of_false ?_ not_since_nil
    cases e <;> simp [conList, init]
  · intro labels w l w' hbefore hstep
    rw [dispatched_snoc]
    rcases step_cases hstep with ⟨a, -, hnone, rfl⟩ | ⟨rfl, a, as, -, -, rfl⟩ |
      ⟨env, a, ds, rfl, -, -, heffect⟩
    · rw [hnone, Option.toList_none, List.append_nil]
      cases e <;> exact hbefore
    · show _ ↔ Since _ _ (dispatched labels ++ [])
      rw [List.append_nil]
      cases e <;> exact hbefore
    · show _ ↔ Since _ _ (dispatched labels ++ [a])
      rw [heffect.mem_conList, hbefore, since_snoc (opens_ne_unsubscribe e hdl hdl)]

/-- No connection is opened on both endpoints. -/
def OneEndpoint (as : List (Action H)) : Prop :=
  ∀ hdl, ¬ (.subscribe hdl ∈ as ∧ .tlsSubscribe hdl ∈ as)

omit [LinearOrder H] in
theorem OneEndpoint.openedOn_iff (hone : OneEndpoint as) :
    OpenedOn as e hdl ↔ opens e hdl ∈ as := by
  refine ⟨fun h => (h e).2 rfl, fun h e' => ⟨fun h' => ?_, fun heq => heq ▸ h⟩⟩
  have hboth := hone hdl
  cases e <;> cases e'
  · rfl
  · exact absurd ⟨h, h'⟩ hboth
  · exact absurd ⟨h', h⟩ hboth
  · rfl

/-- **Every ping goes to the endpoint its connection was opened on.** -/
theorem pings_routed (hrun : Run Step init tr w) (hone : OneEndpoint (pushed (tr.map Prod.snd)))
    {p : Ping H} (hp : p ∈ w.loopPing) : OpenedOn (pushed (tr.map Prod.snd)) p.endpoint p.hdl := by
  have hlisted : p.hdl ∈ w.conList p.endpoint := by
    rcases List.mem_append.1 hp with hp | hp
    · obtain ⟨k, hk, rfl⟩ := List.mem_map.1 hp
      exact ExtTreeSet.mem_toList.1 hk
    · obtain ⟨k, hk, rfl⟩ := List.mem_map.1 hp
      exact ExtTreeSet.mem_toList.1 hk
  rw [hone.openedOn_iff]
  exact (dispatched_prefix_pushed hrun).subset ((mem_conList_iff hrun).1 hlisted).mem

end WebsocketServer

/-! ## Timeouts -/

/-- The server with the connections whose pong is awaited. -/
structure PingedServer (H : Type) [LinearOrder H] where
  server : WebsocketServer H
  awaited : List H

namespace PingedServer

open WebsocketServer (OpenedOn OneEndpoint pushed dispatched)

def init : PingedServer H := ⟨.init, []⟩

inductive Label (H : Type) where
  | server (l : WebsocketServer.Label H)
  | ping
  | pong (hdl : H)
  | pongTimeout (hdl : H)

def step (p : PingedServer H) : Label H → Option (PingedServer H)
  | .server l => (p.server.step l).map fun server => { p with server }
  | .ping => some { p with awaited := p.awaited ++ p.server.loopPing.map WebsocketServer.Ping.hdl }
  | .pong hdl => some { p with awaited := p.awaited.filter (· ≠ hdl) }
  | .pongTimeout hdl => if hdl ∈ p.awaited then some p else none

def Step (p : PingedServer H) (l : Label H) (p' : PingedServer H) : Prop := p.step l = some p'

def Label.server? : Label H → Option (WebsocketServer.Label H)
  | .server l => some l
  | _ => none

/-- The steps that are the server's. -/
def serverLabels (labels : List (Label H)) : List (WebsocketServer.Label H) :=
  labels.filterMap Label.server?

variable {p p' : PingedServer H} {l : Label H} {tr tr₁ tr₂ : List (PingedServer H × Label H)}
  {hdl : H}

/-- Pings and timeouts leave the server alone: they are no steps of it. -/
theorem server_run (hrun : Run Step init tr p) : ∃ wtr,
    Run WebsocketServer.Step .init wtr p.server ∧
      wtr.map Prod.snd = serverLabels (tr.map Prod.snd) := by
  refine hrun.project (f := PingedServer.server) (g := Label.server?) ?_ ?_
  · intro p l p' wl hstep hl
    cases l with
    | server l' =>
      cases hl
      obtain ⟨w, hw, rfl⟩ := Option.map_eq_some_iff.1 hstep
      exact hw
    | _ => cases hl
  · intro p l p' hstep hl
    cases l with
    | server l' => cases hl
    | ping => cases hstep; rfl
    | pong k => cases hstep; rfl
    | pongTimeout k =>
      obtain ⟨-, hstep⟩ := Option.ite_none_right_eq_some.1 hstep
      cases hstep
      rfl

theorem dispatched_subset_pushed (hrun : Run Step init (tr₁ ++ (p, l) :: tr₂) p') :
    dispatched (serverLabels (tr₁.map Prod.snd)) ⊆
      pushed (serverLabels ((tr₁ ++ (p, l) :: tr₂).map Prod.snd)) := by
  obtain ⟨wtr, hwrun, hlabels⟩ := server_run hrun.split_at.1
  have hpre := WebsocketServer.dispatched_prefix_pushed hwrun
  rw [hlabels] at hpre
  intro a ha
  have hmem := hpre.subset ha
  simp only [serverLabels, pushed, List.map_append, List.filterMap_append,
    List.mem_append] at hmem ⊢
  exact .inl hmem

/-- **A pong timeout closes the right endpoint exactly when** the connection was opened on the TLS
endpoint, or no close of it has been dispatched since its open. -/
theorem pongTimeout_routed_iff
    (hrun : Run Step init (tr₁ ++ (p, .pongTimeout hdl) :: tr₂) p')
    (hone : OneEndpoint
      (pushed (serverLabels ((tr₁ ++ (p, .pongTimeout hdl) :: tr₂).map Prod.snd)))) :
    OpenedOn (pushed (serverLabels ((tr₁ ++ (p, .pongTimeout hdl) :: tr₂).map Prod.snd)))
        (p.server.onPongTimeout hdl).endpoint hdl ↔
      .tlsSubscribe hdl ∈
          pushed (serverLabels ((tr₁ ++ (p, .pongTimeout hdl) :: tr₂).map Prod.snd)) ∨
        Since (.subscribe hdl) (.unsubscribe hdl)
          (dispatched (serverLabels (tr₁.map Prod.snd))) := by
  have hsub := dispatched_subset_pushed hrun
  obtain ⟨wtr, hwrun, hlabels⟩ := server_run hrun.split_at.1
  have hplain : hdl ∈ p.server.conListPlain ↔ Since (.subscribe hdl) (.unsubscribe hdl)
      (dispatched (serverLabels (tr₁.map Prod.snd))) := by
    rw [← hlabels]
    exact WebsocketServer.mem_conList_iff (e := .plain) hwrun
  rw [hone.openedOn_iff]
  by_cases hmem : hdl ∈ p.server.conListPlain
  · have hend : (p.server.onPongTimeout hdl).endpoint = .plain := if_pos hmem
    rw [hend]
    exact iff_of_true (hsub (hplain.1 hmem).mem) (.inr (hplain.1 hmem))
  · have hend : (p.server.onPongTimeout hdl).endpoint = .tls := if_neg hmem
    rw [hend, ← hplain, or_iff_left hmem]
    rfl

/-- A plain connection that is open and was pinged. -/
def onePinged : PingedServer ℕ :=
  ⟨{ WebsocketServer.init with conListPlain := (∅ : ExtTreeSet ℕ compare).insert 1 }, [1]⟩

def onePingedRun : List (PingedServer ℕ × Label ℕ) :=
  [(init, .server (.onOpen 1)),
    (⟨{ WebsocketServer.init with actions := [.subscribe 1] }, []⟩, .server .pop),
    (⟨{ WebsocketServer.init with loop := .holding (.subscribe 1) }, []⟩,
      .server (.dispatch .plain (.subscribe 1))),
    ({ onePinged with awaited := [] }, .ping)]

theorem onePinged_run : Run Step init onePingedRun onePinged :=
  (((Run.nil.snoc rfl).snoc rfl).snoc rfl).snoc rfl

/-- The timeout of an open connection closes it on its endpoint. -/
theorem pongTimeout_routed_open :
    OpenedOn (pushed (serverLabels
        ((onePingedRun ++ [(onePinged, Label.pongTimeout 1)]).map Prod.snd)))
      (onePinged.server.onPongTimeout 1).endpoint 1 := by
  have hend : Run Step init (onePingedRun ++ [(onePinged, .pongTimeout 1)]) onePinged :=
    onePinged_run.snoc rfl
  refine (pongTimeout_routed_iff hend ?_).2 (.inr ⟨[], [], rfl, List.not_mem_nil⟩)
  show OneEndpoint [.subscribe 1]
  intro k
  simp

/-- The connection closes, and its close is dispatched, while its pong is awaited. -/
def closedPinged : PingedServer ℕ := ⟨.init, [1]⟩

def closedPingedRun : List (PingedServer ℕ × Label ℕ) :=
  onePingedRun ++ [(onePinged, .server (.onClose 1))] ++
    [(⟨{ onePinged.server with actions := [.unsubscribe 1] }, [1]⟩, .server .pop)] ++
    [(⟨{ onePinged.server with loop := .holding (.unsubscribe 1) }, [1]⟩,
      .server (.dispatch .plain (.unsubscribe 1)))]

theorem closedPinged_run : Run Step init closedPingedRun closedPinged := by
  have hclose : Step onePinged (.server (.onClose 1))
      ⟨{ onePinged.server with actions := [.unsubscribe 1] }, [1]⟩ := rfl
  have hpop : Step ⟨{ onePinged.server with actions := [.unsubscribe 1] }, [1]⟩ (.server .pop)
      ⟨{ onePinged.server with loop := .holding (.unsubscribe 1) }, [1]⟩ := rfl
  have hdispatch : Step ⟨{ onePinged.server with loop := .holding (.unsubscribe 1) }, [1]⟩
      (.server (.dispatch .plain (.unsubscribe 1))) closedPinged := rfl
  exact ((onePinged_run.snoc hclose).snoc hpop).snoc hdispatch

/-- The timeout of a plain connection whose close has been dispatched closes it on the TLS
endpoint. -/
theorem pongTimeout_routed_closed :
    Run Step init (closedPingedRun ++ [(closedPinged, .pongTimeout 1)]) closedPinged ∧
    OneEndpoint (pushed (serverLabels (closedPingedRun.map Prod.snd))) ∧
    OpenedOn (pushed (serverLabels (closedPingedRun.map Prod.snd))) .plain 1 ∧
    (closedPinged.server.onPongTimeout 1).endpoint = .tls := by
  refine ⟨?_, ?_, ?_, ?_⟩
  · exact closedPinged_run.snoc rfl
  · show OneEndpoint [.subscribe 1, .unsubscribe 1]
    intro k
    simp
  · show OpenedOn [.subscribe 1, .unsubscribe 1] .plain 1
    intro e
    cases e <;> simp [WebsocketServer.opens]
  · rfl

end PingedServer

end WsSignalServer
