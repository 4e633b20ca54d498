import WsSignalServer.General.LockOrder

/-!
# The mutexes

The threads of the server share four mutexes: `m_action_lock` guards the queue of actions,
`m_connection_lock` the lists of connections and every call into `SignalServer`, `m_mutex_peers` the
registry, and the lock of `m_mutex_exit` its flag. None of them may be locked twice by one thread.
What each function does to them is the language of the words of lock operations along its paths;
`1` stands for code that locks nothing.

A path that raises is left out: the exception ends the program. So are the locks inside websocketpp
and the log.

**Theorem (`mutex_obtainable`).** With any number of threads, running any of the loops, a thread that
waits for a mutex does not hold it, and can get it after some steps of others. The threads cannot
deadlock.
-/

open scoped Computability

namespace WsSignalServer.Locks

open LockOrder

inductive Mutex where
  | action | connection | peers | exit
  deriving DecidableEq, Repr

/-- The registry's mutex is locked under that of the connections, and no other under another. -/
def Mutex.rank : Mutex → ℕ
  | .peers => 1
  | _ => 0

/-! ## `SignalServer` -/

def isExistId : Language (Op Mutex) := guarded .peers 1
def isExistName : Language (Op Mutex) := guarded .peers 1
def getConnectionFromID : Language (Op Mutex) := guarded .peers 1

/-- The loop looks up an id at least once. -/
def nextID : Language (Op Mutex) := isExistId * isExistId∗

/-- `RemovePairID`, and the lookup of the partner when there is one. -/
def tellPartner : Language (Op Mutex) := 1 + getConnectionFromID

/-- The id, the search for the name, and the scope that enters the peer; `PrintPeers` locks
nothing. -/
def processSignIn : Language (Op Mutex) := nextID * isExistName * guarded .peers 1

def processSignOut : Language (Op Mutex) := guarded .peers 1 * tellPartner
def processMessage : Language (Op Mutex) := getConnectionFromID
def processExist : Language (Op Mutex) := isExistName

def onReceive : Language (Op Mutex) :=
  1 + processSignIn + processSignOut + processMessage + processExist

/-- `PrintPeers` runs in the scope. -/
def onClose : Language (Op Mutex) := guarded .peers 1 * (1 + tellPartner)

/-! ## `WebsocketServer` -/

/-- Where a thread is between two words. A thread that waits on a condition variable is at a point
of its own: it has released the mutex, and locks it again when it wakes. -/
inductive Point where
  /-- `m_ios.run()`, between two handlers -/
  | network
  /-- `process_messages`: at the top of the loop, in `m_action_cond.wait`, with an action -/
  | process | processWait | dispatch
  /-- `loop_ping`: at the top of the loop, in `cv_.wait_for`, after a timeout -/
  | ping | pingWait | pingRound
  /-- `wait_exit_message` -/
  | exitMessage
  /-- a caller of `Broadcast` -/
  | broadcast
  | returned
  deriving DecidableEq, Repr

/-- `on_open`, `on_open_tls`, `on_close` and `on_message`. -/
def push : Language (Op Mutex) := guarded .action 1

/-- `condition_mutex::notify`. -/
def notify : Language (Op Mutex) := guarded .exit 1

/-- What `process_messages` does with an action that is not `EXIT`. -/
def dispatched : Language (Op Mutex) := guarded .connection (1 + onClose + onReceive)

def program : Program Point Mutex
  | .network, .network => 1 + push
  | .network, .returned => 1
  | .process, .processWait | .process, .dispatch => guarded .action 1
  | .processWait, .processWait | .processWait, .dispatch => guarded .action 1
  | .dispatch, .process => dispatched
  | .dispatch, .returned => 1
  | .ping, .pingWait => guarded .exit 1
  | .pingWait, .pingWait | .pingWait, .pingRound | .pingWait, .returned => guarded .exit 1
  | .pingRound, .ping => guarded .connection 1
  | .exitMessage, .returned => 1 + notify * push
  | .broadcast, .broadcast => guarded .connection 1
  | _, _ => 0

/-! ## The order -/

variable {held : List Mutex}

/-- What holds the mutex of the connections at most may lock that of the peers. -/
theorem peers_keeps (h : held = [] ∨ held = [.connection]) :
    Keeps Mutex.rank held (guarded .peers 1) := by
  refine .guarded (fun m hm => ?_) .one
  rcases h with rfl | rfl
  · cases hm
  · obtain rfl := List.mem_singleton.1 hm
    decide

theorem tellPartner_keeps : Keeps Mutex.rank [.connection] tellPartner :=
  .add .one (peers_keeps (.inr rfl))

theorem onClose_keeps : Keeps Mutex.rank [.connection] onClose :=
  .mul (peers_keeps (.inr rfl)) (.add .one tellPartner_keeps)

theorem onReceive_keeps : Keeps Mutex.rank [.connection] onReceive := by
  have hpeers : Keeps Mutex.rank [.connection] (guarded .peers 1) := peers_keeps (.inr rfl)
  have hsignIn : Keeps Mutex.rank [.connection] processSignIn :=
    .mul (.mul (.mul hpeers (.kstar hpeers)) hpeers) hpeers
  have hsignOut : Keeps Mutex.rank [.connection] processSignOut := .mul hpeers tellPartner_keeps
  exact .add (.add (.add (.add .one hsignIn) hsignOut) hpeers) hpeers

/-- Every path of every thread keeps the order. -/
theorem orderly : Orderly Mutex.rank program := by
  have hscope : ∀ m X, Keeps Mutex.rank [m] X → Keeps Mutex.rank [] (guarded m X) :=
    fun m X hX => .guarded (List.forall_mem_nil _) hX
  have hnone : ∀ m, Keeps Mutex.rank [] (guarded m 1) := fun m => hscope m 1 .one
  intro q q'
  unfold program
  split
  case h_1 => exact .add .one (hnone .action)
  case h_7 => exact hscope .connection _ (.add (.add .one onClose_keeps) onReceive_keeps)
  case h_13 | h_15 => exact hnone .connection
  case h_14 => exact .add .one (.mul (hnone .exit) (hnone .action))
  case h_16 => exact fun w hw => absurd hw (Language.notMem_zero w)
  all_goals first
    | exact .one
    | exact hnone _

/-! ## No deadlock -/

variable {P : Type} [DecidableEq P] {t : P → Thread Point Mutex} {p : P} {m : Mutex}
  {w : List (Op Mutex)}

/-- **Every mutex can be obtained.** The threads may stand at any points of their loops to begin
with, and there may be any number of them. -/
theorem mutex_obtainable {at_ : P → Point}
    (h : Transition.Reachable (Step program) (start at_) t)
    (htodo : (t p).todo = .lock m :: w) :
    m ∉ (t p).held ∧ ∃ t', Transition.Reachable (Step program) t t' ∧ m ∈ (t' p).held := by
  have hbound : ∀ m : Mutex, m.rank ≤ 1 := by
    intro m
    cases m <;> decide
  exact obtainable orderly hbound h htodo

/-- The ping round waits for the connections, which the processing thread holds. -/
def contended : Bool → Thread Point Mutex
  | true => ⟨[.connection], [.unlock .connection], .process⟩
  | false => ⟨[], [.lock .connection, .unlock .connection], .ping⟩

theorem contended_reachable : Transition.Reachable (Step program)
    (start fun b => if b = true then .dispatch else .pingRound) contended := by
  have hdispatch : [.lock .connection, .unlock .connection] ∈ program .dispatch .process :=
    ⟨[], .inl (.inl rfl), rfl⟩
  have hround : [.lock .connection, .unlock .connection] ∈ program .pingRound .ping :=
    ⟨[], rfl, rfl⟩
  have hfree : ∀ q, Mutex.connection ∉ (Function.update
      (start fun b => if b = true then Point.dispatch else .pingRound) true
      ⟨[], [.lock .connection, .unlock .connection], .process⟩ q).held := by
    intro q
    cases q <;> exact List.not_mem_nil
  have hreach := ((Transition.Reachable.refl.snoc
    (Step.word (p := true) rfl hdispatch)).snoc (Step.lock (p := true) rfl hfree)).snoc
    (Step.word (p := false) rfl hround)
  convert hreach using 1
  funext b
  cases b <;> rfl

theorem contended_obtainable : Mutex.connection ∉ (contended false).held ∧
    ∃ t', Transition.Reachable (Step program) contended t' ∧ .connection ∈ (t' false).held :=
  mutex_obtainable contended_reachable rfl

end WsSignalServer.Locks
