import WsSignalServer.General.Monitor
import WsSignalServer.Dispatch

/-!
# Waking the processing thread

The handlers push under `m_action_lock` and call `notify_one` after they have released it;
`process_messages` finds the queue empty and blocks in one critical section. So a notification may
come when the thread is not blocked, and the thread may take an action before its producer has
notified.

**Steps.** A push and the notification that follows it are two steps of one producer, of which there
are any number. The processing thread blocks, is woken by a notification or by nothing, pops and
dispatches.

**Theorem (`no_lost_wakeup`).** If the thread is blocked while the queue is not empty, some producer
has pushed and not notified yet. With all of them done it takes the next action (`pop_enabled`).
-/

namespace WsSignalServer

variable {H P : Type} [LinearOrder H] [DecidableEq P]

/-- The server with the state of `m_action_cond`: whether the processing thread is blocked in
`wait`, and which producers have released `m_action_lock` but not called `notify_one`. -/
structure NotifiedServer (H P : Type) [LinearOrder H] where
  server : WebsocketServer H
  blocked : Bool
  owing : P → Bool

namespace NotifiedServer

def init : NotifiedServer H P := ⟨.init, false, fun _ => false⟩

/-- A push is labelled with the producer that calls the handler. -/
inductive Label (H P : Type) where
  | handler (p : P) (l : WebsocketServer.Label H)
  | notifyOne (p : P)
  | wake
  | block
  | process (l : WebsocketServer.Label H)

def step (t : NotifiedServer H P) : Label H P → Option (NotifiedServer H P)
  | .handler p l =>
    if l.pushed? = none ∨ t.owing p = true then none
    else (t.server.step l).map fun server =>
      { t with server, owing := Function.update t.owing p true }
  | .notifyOne p =>
    if t.owing p = true then
      some { t with blocked := false, owing := Function.update t.owing p false }
    else none
  | .wake => if t.blocked = true then some { t with blocked := false } else none
  | .block =>
    if t.blocked = false ∧ t.server.loop = .waiting ∧ t.server.actions = [] then
      some { t with blocked := true }
    else none
  | .process l =>
    if l.pushed? = none ∧ t.blocked = false then
      (t.server.step l).map fun server => { t with server }
    else none

def Step (t : NotifiedServer H P) (l : Label H P) (t' : NotifiedServer H P) : Prop :=
  t.step l = some t'

/-! ## The server -/

def Label.server? : Label H P → Option (WebsocketServer.Label H)
  | .handler _ l | .process l => some l
  | _ => none

/-- The steps that are the server's. -/
def serverLabels (labels : List (Label H P)) : List (WebsocketServer.Label H) :=
  labels.filterMap Label.server?

variable {t t' : NotifiedServer H P} {l : Label H P} {tr : List (NotifiedServer H P × Label H P)}

/-- Blocking and waking leave the server alone: they are no steps of it. -/
theorem server_run (hrun : Transition.Run Step init tr t) : ∃ wtr,
    Transition.Run WebsocketServer.Step .init wtr t.server ∧
      wtr.map Prod.snd = serverLabels (tr.map Prod.snd) := by
  refine hrun.project (f := NotifiedServer.server) (g := Label.server?) ?_ ?_
  · intro t l t' wl hstep hl
    cases l with
    | handler p l' =>
      cases hl
      obtain ⟨-, hstep⟩ := Option.ite_none_left_eq_some.1 hstep
      obtain ⟨w, hw, rfl⟩ := Option.map_eq_some_iff.1 hstep
      exact hw
    | process l' =>
      cases hl
      obtain ⟨-, hstep⟩ := Option.ite_none_right_eq_some.1 hstep
      obtain ⟨w, hw, rfl⟩ := Option.map_eq_some_iff.1 hstep
      exact hw
    | _ => cases hl
  · intro t l t' hstep hl
    cases l with
    | handler p l' => cases hl
    | process l' => cases hl
    | _ =>
      obtain ⟨-, hstep⟩ := Option.ite_none_right_eq_some.1 hstep
      cases hstep
      rfl

/-! ## The condition variable -/

/-- The queue and its condition variable, as a monitor. -/
def monitor (t : NotifiedServer H P) : Monitor.State (List (Action H)) P :=
  ⟨t.server.actions, t.blocked, {p | t.owing p = true}⟩

def Label.monitor : Label H P → Monitor.Label P
  | .handler p _ => .produce p
  | .notifyOne p => .notify p
  | .wake => .wake
  | .block => .block
  | .process _ => .consume

theorem setOf_update_true (owing : P → Bool) (p : P) :
    {q | Function.update owing p true q = true} = insert p {q | owing q = true} := by
  ext q
  by_cases hq : q = p
  · subst hq
    simp
  · simp [hq]

theorem setOf_update_false (owing : P → Bool) (p : P) :
    {q | Function.update owing p false q = true} = {q | owing q = true} \ {p} := by
  ext q
  by_cases hq : q = p
  · subst hq
    simp
  · simp [hq]

/-- **Every step is a step of the monitor.** -/
theorem monitor_step (h : Step t l t') :
    Monitor.Step (fun actions => actions ≠ []) t.monitor l.monitor t'.monitor := by
  cases l with
  | handler p l' =>
    obtain ⟨-, h⟩ := Option.ite_none_left_eq_some.1 h
    obtain ⟨w, -, rfl⟩ := Option.map_eq_some_iff.1 h
    unfold monitor
    rw [setOf_update_true]
    exact .produce _ p w.actions
  | notifyOne p =>
    obtain ⟨-, h⟩ := Option.ite_none_right_eq_some.1 h
    cases h
    unfold monitor
    rw [setOf_update_false]
    exact .notify _ p
  | wake =>
    obtain ⟨-, h⟩ := Option.ite_none_right_eq_some.1 h
    cases h
    exact .wake _
  | block =>
    obtain ⟨⟨-, -, hempty⟩, h⟩ := Option.ite_none_right_eq_some.1 h
    cases h
    exact .block _ (not_not_intro hempty)
  | process l' =>
    obtain ⟨⟨-, hawake⟩, h⟩ := Option.ite_none_right_eq_some.1 h
    obtain ⟨w, -, rfl⟩ := Option.map_eq_some_iff.1 h
    exact .consume _ w.actions hawake

theorem owed (hrun : Transition.Run Step init tr t) (hblocked : t.blocked = true)
    (hactions : t.server.actions ≠ []) : ∃ p, t.owing p = true := by
  obtain ⟨mtr, m, hmrun, rfl, -⟩ := hrun.simulate (R := fun t m => m = t.monitor)
    (g := fun q => q.2.monitor) (fun t l t' m hm hstep => ⟨_, hm ▸ monitor_step hstep, rfl⟩) rfl
  exact Monitor.owed hmrun rfl hblocked hactions

theorem awake_of_done (hrun : Transition.Run Step init tr t) (hdone : ∀ p, t.owing p = false)
    (hactions : t.server.actions ≠ []) : t.blocked = false := by
  by_contra hblocked
  obtain ⟨p, hp⟩ := owed hrun (eq_true_of_ne_false hblocked) hactions
  rw [hdone p] at hp
  cases hp

/-- **No wake-up is lost.** When the processing thread is blocked and the queue is not empty, some
producer has pushed and not yet notified. So it is not blocked when all of them are done. -/
theorem no_lost_wakeup (hrun : Transition.Run Step init tr t) :
    (t.blocked = true → t.server.actions ≠ [] → ∃ p, t.owing p = true) ∧
    ¬ ((∀ p, t.owing p = false) ∧ t.server.actions ≠ [] ∧ t.blocked = true) := by
  refine ⟨owed hrun, ?_⟩
  intro h
  obtain ⟨hdone, hactions, hblocked⟩ := h
  rw [awake_of_done hrun hdone hactions] at hblocked
  cases hblocked

/-- The thread is blocked, and the second of two producers has pushed. -/
def onePushed : NotifiedServer ℕ (Fin 2) where
  server := { WebsocketServer.init with actions := [.subscribe 1] }
  blocked := true
  owing := Function.update (fun _ => false) 1 true

theorem onePushed_owed : ∃ p, onePushed.owing p = true := by
  have hblock : Step init .block { (init : NotifiedServer ℕ (Fin 2)) with blocked := true } := rfl
  have hpush : Step { (init : NotifiedServer ℕ (Fin 2)) with blocked := true }
      (.handler 1 (.onOpen 1)) onePushed := rfl
  exact (no_lost_wakeup ((Transition.Run.nil.snoc hblock).snoc hpush)).1 rfl nofun

/-- When all producers are done, the thread takes the next action as soon as it has dispatched the
last. -/
theorem pop_enabled (hrun : Transition.Run Step init tr t) (hdone : ∀ p, t.owing p = false)
    (hloop : t.server.loop = .waiting) (hactions : t.server.actions ≠ []) :
    ∃ t', Step t (.process .pop) t' := by
  have hawake := awake_of_done hrun hdone hactions
  obtain ⟨a, as, hqueue⟩ := List.exists_cons_of_ne_nil hactions
  have hpop : t.server.step .pop =
      some { t.server with actions := as, loop := .holding a } := by
    simp only [WebsocketServer.step, WebsocketServer.pop, hloop, hqueue]
  exact ⟨_, (if_pos ⟨rfl, hawake⟩).trans (congrArg _ hpop)⟩

end NotifiedServer

end WsSignalServer
