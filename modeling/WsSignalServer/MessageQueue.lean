import WsSignalServer.General.Transition

/-!
# The exit message

A server creates a message queue and waits on it; the command `stop` opens the queue and sends it an
exit message. They find each other by one name, whichever servers and commands are run, in any
order. A server removes the name before it creates its queue and again when it is destroyed, and who
has the queue open keeps it.

**Steps.** The calls of the queue's library are atomic, and those of different processes interleave.
A server may be killed at any time. The constructor of a server makes two calls, and a round of
`WaitExitMessage` is a step.

**Library.** What the library does is a parameter (`Interprocess`), assumed to work as documented on
the names and queues that `Queues` keeps.

**Theorem (`leaves_iff`).** A server leaves its wait exactly if some command opened the queue after
the server had created it, with no server constructed or destroyed in between, and has sent. This
holds for a full queue too, where `try_send` fails.

**Theorem (`asked_unique`).** No command asks two servers.
-/

namespace WsSignalServer

/-- `task_msg`. -/
structure TaskMsg where
  exit : ℤ
  deriving DecidableEq, Repr

/-! ## The library -/

/-- The queue under the name `message_queue_signal_server`, and the queues there have been. Their
messages all have one priority. -/
structure Queues (Q : Type) where
  named : Option Q
  used : Q → Prop
  content : Q → List TaskMsg

namespace Queues

variable {Q : Type} [DecidableEq Q] (qs : Queues Q)

def remove : Queues Q := { qs with named := none }

def create (q : Q) : Queues Q where
  named := some q
  used q' := q' = q ∨ qs.used q'
  content := Function.update qs.content q []

def setContent (q : Q) (msgs : List TaskMsg) : Queues Q :=
  { qs with content := Function.update qs.content q msgs }

end Queues

/-- What `receive` comes to. -/
inductive Received (W : Type) where
  | blocks
  | raises
  | message (msg : TaskMsg) (w : W)

/-- `boost::interprocess::message_queue`, for the one name and size of messages that the program
uses. The constructor `open_only` gives the queue under the name, and raises without one. `none`
stands for an exception. -/
structure Interprocess (W Q : Type) [DecidableEq Q] where
  queues : W → Queues Q
  remove : W → W
  createOnly : W → Option (Q × W)
  trySend : W → Q → TaskMsg → Option (Bool × W)
  receive : W → Q → Received W
  used_of_named {w : W} {q : Q} : (queues w).named = some q → (queues w).used q
  queues_remove (w : W) : queues (remove w) = (queues w).remove
  of_createOnly {w w' : W} {q : Q} : createOnly w = some (q, w') →
    (queues w).named = none ∧ ¬ (queues w).used q ∧ queues w' = (queues w).create q
  trySend_lt {w : W} {q : Q} (msg : TaskMsg) : (queues w).used q →
    ((queues w).content q).length < 10 → ∃ w', trySend w q msg = some (true, w') ∧
      queues w' = (queues w).setContent q ((queues w).content q ++ [msg])
  trySend_full {w : W} {q : Q} (msg : TaskMsg) : (queues w).used q →
    10 ≤ ((queues w).content q).length → ∃ w', trySend w q msg = some (false, w') ∧
      queues w' = queues w
  receive_nil {w : W} {q : Q} : (queues w).used q → (queues w).content q = [] →
    receive w q = .blocks
  receive_cons {w : W} {q : Q} {msg : TaskMsg} {msgs : List TaskMsg} : (queues w).used q →
    (queues w).content q = msg :: msgs → ∃ w', receive w q = .message msg w' ∧
      queues w' = (queues w).setContent q msgs

/-! ## `class MessageQueue` -/

structure MessageQueue (Q : Type) where
  create_ : Bool
  mq : Option Q
  deriving DecidableEq, Repr

/-- What a round of the loop of `WaitExitMessage` comes to. -/
inductive WaitRound (W : Type) where
  | blocks
  | again (w : W)
  | returns (result : Bool) (w : W)

namespace MessageQueue

variable {W Q : Type} [DecidableEq Q] (lib : Interprocess W Q)

/-- `MessageQueue(true)`, once the name is removed. -/
def createOnly (w : W) : MessageQueue Q × W :=
  match lib.createOnly w with
  | some (q, w) => (⟨true, some q⟩, w)
  | none => (⟨true, none⟩, w)

/-- `MessageQueue(false)`. -/
def openOnly (w : W) : MessageQueue Q := ⟨false, (lib.queues w).named⟩

/-- `~MessageQueue`. -/
def destroy (self : MessageQueue Q) (w : W) : W := if self.create_ then lib.remove w else w

def waitExitMessage (self : MessageQueue Q) (w : W) : WaitRound W :=
  match self.mq with
  | none => .returns false w
  | some q =>
    match lib.receive w q with
    | .blocks => .blocks
    | .raises => .returns false w
    | .message msg w => if msg.exit ≠ 0 then .returns true w else .again w

def sendExitMessage (self : MessageQueue Q) (w : W) : Bool × W :=
  match self.mq with
  | none => (false, w)
  | some q => (lib.trySend w q ⟨1⟩).getD (false, w)

end MessageQueue

/-! ## Processes -/

/-- Where a server is: not constructed, in the constructor, in `WaitExitMessage`, past it, or
gone. -/
inductive Server (Q : Type) where
  | absent
  | removed
  | waiting (queue : MessageQueue Q)
  | returned (result : Bool) (queue : MessageQueue Q)
  | gone

/-- Where a command `stop` is. -/
inductive Stop (Q : Type) where
  | idle
  | opened (queue : MessageQueue Q)
  | sent (result : Bool) (queue : MessageQueue Q)

def Server.queue? {Q : Type} : Server Q → Option (MessageQueue Q)
  | .waiting queue | .returned _ queue => some queue
  | _ => none

def Stop.queue? {Q : Type} : Stop Q → Option (MessageQueue Q)
  | .opened queue | .sent _ queue => some queue
  | .idle => none

/-- The queue a server has open. -/
def Server.mq {Q : Type} (server : Server Q) : Option Q := server.queue?.bind (·.mq)

/-- The queue a command has open. -/
def Stop.mq {Q : Type} (stop : Stop Q) : Option Q := stop.queue?.bind (·.mq)

/-- Before a server creates its queue. -/
def Server.Early {Q : Type} (server : Server Q) : Prop := server = .absent ∨ server = .removed

/-- The processes of one machine: servers `P` and commands `R`. -/
structure Processes (W Q P R : Type) where
  world : W
  server : P → Server Q
  stop : R → Stop Q

namespace Processes

variable {W Q P R : Type} [DecidableEq Q]

inductive Label (P R : Type) where
  | construct (p : P)
  | create (p : P)
  | wait (p : P)
  | destroy (p : P)
  | kill (p : P)
  | «open» (r : R)
  | send (r : R)

/-- The server a step is of. -/
def Label.server? : Label P R → Option P
  | .construct p | .create p | .wait p | .destroy p | .kill p => some p
  | .open _ | .send _ => none

/-! ## What a history says -/

/-- The labels under which the name is removed. -/
def Label.Removes (l : Label P R) : Prop := ∃ p, l = .construct p ∨ l = .destroy p

/-- `p` has created its queue, and the name has not been removed since. -/
def NameKept (p : P) (labels : List (Label P R)) : Prop :=
  ∃ before after, labels = before ++ .create p :: after ∧ ∀ l ∈ after, ¬ l.Removes

/-- `r` opened the queue while the name led to that of `p`. -/
def Opened (p : P) (r : R) (labels : List (Label P R)) : Prop :=
  ∃ before after, labels = before ++ .open r :: after ∧ NameKept p before

/-- `r` has sent its message to the queue of `p`. -/
def Asked (p : P) (r : R) (labels : List (Label P R)) : Prop :=
  Opened p r labels ∧ .send r ∈ labels

variable {p : P} {r : R} {l : Label P R} {labels : List (Label P R)}

theorem nameKept_snoc :
    NameKept p (labels ++ [l]) ↔ l = .create p ∨ ¬ l.Removes ∧ NameKept p labels := by
  unfold NameKept
  rw [Transition.exists_split_snoc]
  refine or_congr (and_iff_left (List.forall_mem_nil _)) ?_
  simp only [List.forall_mem_append, List.forall_mem_singleton]
  constructor
  · intro hkept
    obtain ⟨before, after, h, hafter, hl⟩ := hkept
    exact ⟨hl, before, after, h, hafter⟩
  · intro hkept
    obtain ⟨hl, before, after, h, hafter⟩ := hkept
    exact ⟨before, after, h, hafter, hl⟩

theorem opened_snoc :
    Opened p r (labels ++ [l]) ↔ l = .open r ∧ NameKept p labels ∨ Opened p r labels :=
  Transition.exists_split_snoc

theorem NameKept.create_mem (h : NameKept p labels) : .create p ∈ labels := by
  obtain ⟨before, after, rfl, -⟩ := h
  simp

theorem Opened.create_mem (h : Opened p r labels) : .create p ∈ labels := by
  obtain ⟨before, after, rfl, hkept⟩ := h
  exact List.mem_append_left _ hkept.create_mem

/-! ## Steps -/

/-- A machine on which nothing of the program runs. There may be a name left over. -/
def start (w : W) : Processes W Q P R := ⟨w, fun _ => .absent, fun _ => .idle⟩

variable [DecidableEq P] [DecidableEq R]

def setServer (s : Processes W Q P R) (w : W) (p : P) (server : Server Q) : Processes W Q P R :=
  { s with world := w, server := Function.update s.server p server }

def setStop (s : Processes W Q P R) (w : W) (r : R) (stop : Stop Q) : Processes W Q P R :=
  { s with world := w, stop := Function.update s.stop r stop }

omit [DecidableEq Q] [DecidableEq R] in
theorem setServer_server (s : Processes W Q P R) (w : W) (p p' : P) (server : Server Q) :
    (s.setServer w p server).server p' = if p' = p then server else s.server p' :=
  Function.update_apply ..

omit [DecidableEq Q] [DecidableEq P] in
theorem setStop_stop (s : Processes W Q P R) (w : W) (r r' : R) (stop : Stop Q) :
    (s.setStop w r stop).stop r' = if r' = r then stop else s.stop r' :=
  Function.update_apply ..

omit [DecidableEq Q] [DecidableEq R] in
@[simp] theorem setServer_world (s : Processes W Q P R) (w : W) (p : P) (server : Server Q) :
    (s.setServer w p server).world = w := rfl

omit [DecidableEq Q] [DecidableEq P] in
@[simp] theorem setStop_world (s : Processes W Q P R) (w : W) (r : R) (stop : Stop Q) :
    (s.setStop w r stop).world = w := rfl

omit [DecidableEq Q] [DecidableEq P] in
@[simp] theorem setStop_server (s : Processes W Q P R) (w : W) (r : R) (stop : Stop Q) :
    (s.setStop w r stop).server = s.server := rfl

inductive Step (lib : Interprocess W Q) :
    Processes W Q P R → Label P R → Processes W Q P R → Prop
  | construct {s : Processes W Q P R} {p : P} : s.server p = .absent →
      Step lib s (.construct p) (s.setServer (lib.remove s.world) p .removed)
  | create {s : Processes W Q P R} {p : P} {queue : MessageQueue Q} {w : W} :
      s.server p = .removed → MessageQueue.createOnly lib s.world = (queue, w) →
      Step lib s (.create p) (s.setServer w p (.waiting queue))
  | again {s : Processes W Q P R} {p : P} {queue : MessageQueue Q} {w : W} :
      s.server p = .waiting queue → queue.waitExitMessage lib s.world = .again w →
      Step lib s (.wait p) { s with world := w }
  | returns {s : Processes W Q P R} {p : P} {queue : MessageQueue Q} {result : Bool} {w : W} :
      s.server p = .waiting queue → queue.waitExitMessage lib s.world = .returns result w →
      Step lib s (.wait p) (s.setServer w p (.returned result queue))
  | destroy {s : Processes W Q P R} {p : P} {queue : MessageQueue Q} {result : Bool} :
      s.server p = .returned result queue →
      Step lib s (.destroy p) (s.setServer (queue.destroy lib s.world) p .gone)
  | kill {s : Processes W Q P R} {p : P} : Step lib s (.kill p) (s.setServer s.world p .gone)
  | open {s : Processes W Q P R} {r : R} : s.stop r = .idle →
      Step lib s (.open r) (s.setStop s.world r (.opened (.openOnly lib s.world)))
  | send {s : Processes W Q P R} {r : R} {queue : MessageQueue Q} {result : Bool} {w : W} :
      s.stop r = .opened queue → queue.sendExitMessage lib s.world = (result, w) →
      Step lib s (.send r) (s.setStop w r (.sent result queue))

/-! ## What the calls come to -/

variable {lib : Interprocess W Q} {queue : MessageQueue Q} {result : Bool} {w w' : W}

theorem createOnly_cases (h : MessageQueue.createOnly lib w = (queue, w')) :
    queue = ⟨true, none⟩ ∧ w' = w ∨ ∃ q, queue = ⟨true, some q⟩ ∧ (lib.queues w).named = none ∧
      ¬ (lib.queues w).used q ∧ lib.queues w' = (lib.queues w).create q := by
  unfold MessageQueue.createOnly at h
  cases hcreate : lib.createOnly w with
  | none =>
    rw [hcreate] at h
    cases h
    exact .inl ⟨rfl, rfl⟩
  | some made =>
    obtain ⟨q, w''⟩ := made
    rw [hcreate] at h
    cases h
    exact .inr ⟨q, rfl, lib.of_createOnly hcreate⟩

/-- What a round takes from a queue that holds nothing but exit messages. -/
theorem waitExitMessage_cases {q : Q} (hmq : queue.mq = some q) (hused : (lib.queues w).used q)
    (hexit : ∀ msg ∈ (lib.queues w).content q, msg.exit ≠ 0) :
    (lib.queues w).content q = [] ∧ queue.waitExitMessage lib w = .blocks ∨
    ∃ msg msgs w', (lib.queues w).content q = msg :: msgs ∧
      queue.waitExitMessage lib w = .returns true w' ∧
      lib.queues w' = (lib.queues w).setContent q msgs := by
  unfold MessageQueue.waitExitMessage
  cases hcontent : (lib.queues w).content q with
  | nil => simp [hmq, lib.receive_nil hused hcontent]
  | cons msg msgs =>
    obtain ⟨w', hreceive, hqueues⟩ := lib.receive_cons hused hcontent
    have hmsg : msg.exit ≠ 0 := hexit msg (by simp [hcontent])
    exact .inr ⟨msg, msgs, w', rfl, by simp [hmq, hreceive, hmsg], hqueues⟩

/-- Whether there is room or not, an exit message is in the queue once `try_send` is over. -/
theorem sendExitMessage_cases {q : Q} (hmq : queue.mq = some q) (hused : (lib.queues w).used q)
    (h : queue.sendExitMessage lib w = (result, w')) :
    ∃ msgs, msgs ≠ [] ∧ (∀ msg ∈ msgs, msg ∈ (lib.queues w).content q ∨ msg = ⟨1⟩) ∧
      lib.queues w' = (lib.queues w).setContent q msgs := by
  simp only [MessageQueue.sendExitMessage, hmq] at h
  rcases Nat.lt_or_ge ((lib.queues w).content q).length 10 with hlt | hfull
  · obtain ⟨w'', hsend, hqueues⟩ := lib.trySend_lt ⟨1⟩ hused hlt
    rw [hsend] at h
    cases h
    exact ⟨_, by simp, by simp, hqueues⟩
  · obtain ⟨w'', hsend, hqueues⟩ := lib.trySend_full ⟨1⟩ hused hfull
    rw [hsend] at h
    cases h
    refine ⟨(lib.queues w).content q, ?_, fun msg hmsg => .inl hmsg, ?_⟩
    · exact List.ne_nil_of_length_pos (by omega)
    · rw [hqueues, Queues.setContent, Function.update_eq_self]

/-! ## Who has the name -/

variable {s s' : Processes W Q P R} {labels : List (Label P R)} {l : Label P R} {p p' : P} {r : R}
  {server : Server Q} {q : Q}

/-- Every server has a queue of its own, and the name leads to it as long as the history says. -/
structure Owned (lib : Interprocess W Q) (labels : List (Label P R)) (s : Processes W Q P R) :
    Prop where
  creates : ∀ p queue, (s.server p).queue? = some queue → queue.create_ = true
  early : ∀ p, Server.Early (s.server p) → .create p ∉ labels
  used : ∀ p q, (s.server p).mq = some q → (lib.queues s.world).used q
  inj : ∀ p p' q, (s.server p).mq = some q → (s.server p').mq = some q → p = p'
  named : ∀ p q, (s.server p).mq = some q →
    ((lib.queues s.world).named = some q ↔ NameKept p labels)

omit [DecidableEq P] [DecidableEq R] in
theorem owned_start : Owned lib [] (start w : Processes W Q P R) := by
  constructor <;> simp [start, Server.queue?, Server.mq]

omit [DecidableEq P] [DecidableEq R] in
/-- A step that removes no name, in which at most a wait returns. -/
theorem Owned.keeps (h : Owned lib labels s)
    (hserver : ∀ p, s'.server p = s.server p ∨ ∃ result queue,
      s.server p = .waiting queue ∧ s'.server p = .returned result queue)
    (hused : (lib.queues s'.world).used = (lib.queues s.world).used)
    (hnamed : (lib.queues s'.world).named = (lib.queues s.world).named)
    (hl : ¬ l.Removes) (hcreate : ∀ p, l ≠ .create p) : Owned lib (labels ++ [l]) s' := by
  have hqueue : ∀ p, (s'.server p).queue? = (s.server p).queue? := by
    intro p
    rcases hserver p with hp | ⟨result, queue, hp, hp'⟩
    · rw [hp]
    · rw [hp, hp']
      rfl
  have hmq : ∀ p, (s'.server p).mq = (s.server p).mq := by
    intro p
    rw [Server.mq, hqueue p]
    rfl
  constructor
  case creates => exact fun p queue hp => h.creates p queue (hqueue p ▸ hp)
  case early =>
    intro p hearly
    have hbefore : Server.Early (s.server p) := by
      rcases hserver p with hp | ⟨result, queue, -, hp'⟩
      · rwa [← hp]
      · rw [hp'] at hearly
        rcases hearly with hearly | hearly <;> cases hearly
    simp [h.early p hbefore, Ne.symm (hcreate p)]
  case used =>
    intro p q hq
    rw [hused]
    exact h.used p q (hmq p ▸ hq)
  case inj => exact fun p p' q hq hq' => h.inj p p' q (hmq p ▸ hq) (hmq p' ▸ hq')
  case named =>
    intro p q hq
    rw [nameKept_snoc, hnamed, h.named p q (hmq p ▸ hq)]
    simp [hl, hcreate p]

omit [DecidableEq Q] [DecidableEq R] in
/-- Who has a queue once a server has none. -/
theorem mq_quiet (hmq : server.mq = none)
    (hq : ((s.setServer w p server).server p').mq = some q) :
    p' ≠ p ∧ (s.setServer w p server).server p' = s.server p' ∧ (s.server p').mq = some q := by
  rw [setServer_server] at hq ⊢
  by_cases hp : p' = p
  · rw [if_pos hp, hmq] at hq
    cases hq
  · rw [if_neg hp] at hq
    exact ⟨hp, if_neg hp, hq⟩

omit [DecidableEq R] in
/-- A step that leaves a server without a queue, and at most removes the name. -/
theorem Owned.quiet (h : Owned lib labels s) (hmq : server.mq = none)
    (hcreates : ∀ queue, server.queue? = some queue → queue.create_ = true)
    (hearly : server.Early → .create p ∉ labels ++ [l])
    (hused : (lib.queues w).used = (lib.queues s.world).used)
    (hnamed : l.Removes ∧ (lib.queues w).named = none ∨
      ¬ l.Removes ∧ (lib.queues w).named = (lib.queues s.world).named)
    (hserver : l.server? = some p) :
    Owned lib (labels ++ [l]) (s.setServer w p server) := by
  have hcreate : ∀ p', l = .create p' → p' = p := by
    rintro p' rfl
    exact Option.some.inj hserver
  constructor
  case creates =>
    intro p' queue hqueue
    rw [setServer_server] at hqueue
    split_ifs at hqueue with hp
    · exact hcreates queue hqueue
    · exact h.creates p' queue hqueue
  case early =>
    intro p' hbefore
    rw [setServer_server] at hbefore
    by_cases hp : p' = p
    · rw [if_pos hp] at hbefore
      exact hp ▸ hearly hbefore
    · rw [if_neg hp] at hbefore
      rw [List.mem_append, List.mem_singleton, not_or]
      exact ⟨h.early p' hbefore, fun hl => hp (hcreate p' hl.symm)⟩
  case used =>
    intro p' q hq
    rw [setServer_world, hused]
    exact h.used p' q (mq_quiet hmq hq).2.2
  case inj =>
    exact fun p₁ p₂ q h₁ h₂ => h.inj p₁ p₂ q (mq_quiet hmq h₁).2.2 (mq_quiet hmq h₂).2.2
  -- Either the name is gone for everybody, or the step leaves it where it led.
  case named =>
    intro p' q hq
    obtain ⟨hp, -, hq⟩ := mq_quiet hmq hq
    have hne : l ≠ .create p' := fun hl => hp (hcreate p' hl)
    rw [setServer_world, nameKept_snoc, ← h.named p' q hq]
    rcases hnamed with ⟨hl, hw⟩ | ⟨hl, hw⟩ <;> simp [hl, hw, hne]

omit [DecidableEq R] in
/-- Of the servers that have a queue after one was created, one is new. -/
theorem Owned.mq_create (h : Owned lib labels s) (hfresh : ¬ (lib.queues s.world).used q)
    {q' : Q} (hq : ((s.setServer w p (.waiting ⟨true, some q⟩)).server p').mq = some q') :
    p' = p ∧ q' = q ∨ p' ≠ p ∧ q' ≠ q ∧ (s.server p').mq = some q' := by
  rw [setServer_server] at hq
  by_cases hp' : p' = p
  · rw [if_pos hp'] at hq
    exact .inl ⟨hp', (Option.some.inj hq).symm⟩
  · rw [if_neg hp'] at hq
    exact .inr ⟨hp', fun heq => hfresh (heq ▸ h.used p' q' hq), hq⟩

omit [DecidableEq R] in
/-- A server that has created its queue has the name, which was free. -/
theorem Owned.create (h : Owned lib labels s) (hnone : (lib.queues s.world).named = none)
    (hfresh : ¬ (lib.queues s.world).used q)
    (hw : lib.queues w = (lib.queues s.world).create q) :
    Owned lib (labels ++ [.create p])
      (s.setServer w p (.waiting ⟨true, some q⟩)) := by
  constructor
  case creates =>
    intro p' queue hqueue
    rw [setServer_server] at hqueue
    split_ifs at hqueue with hp'
    · cases hqueue
      rfl
    · exact h.creates p' queue hqueue
  case early =>
    intro p' hearly
    rw [setServer_server] at hearly
    split_ifs at hearly with hp'
    · rcases hearly with hearly | hearly <;> cases hearly
    · simp [h.early p' hearly, hp']
  case used =>
    intro p' q' hq
    rw [setServer_world, hw]
    rcases h.mq_create hfresh hq with ⟨-, rfl⟩ | ⟨-, -, hq⟩
    · exact .inl rfl
    · exact .inr (h.used p' q' hq)
  -- The new queue was not in use, so no other server has it.
  case inj =>
    intro p₁ p₂ q' h₁ h₂
    rcases h.mq_create hfresh h₁ with ⟨rfl, rfl⟩ | ⟨-, hne, h₁⟩
    · rcases h.mq_create hfresh h₂ with ⟨rfl, -⟩ | ⟨-, hne, -⟩
      · rfl
      · exact absurd rfl hne
    · rcases h.mq_create hfresh h₂ with ⟨-, heq⟩ | ⟨-, -, h₂⟩
      · exact absurd heq hne
      · exact h.inj p₁ p₂ q' h₁ h₂
  case named =>
    intro p' q' hq
    rw [setServer_world, nameKept_snoc, hw]
    rcases h.mq_create hfresh hq with ⟨rfl, rfl⟩ | ⟨hp', hq', hq⟩
    · simp [Queues.create]
    -- The name was free, so no older queue had kept it.
    · have hkept := h.named p' q' hq
      rw [hnone] at hkept
      simp [Queues.create, ← hkept, Ne.symm hp', Ne.symm hq']

/-! ## What the commands have open -/

/-- A command has the queue of a server open if it opened it while the name led there. -/
structure Asking (lib : Interprocess W Q) (labels : List (Label P R)) (s : Processes W Q P R) :
    Prop where
  used : ∀ r q, (s.stop r).mq = some q → (lib.queues s.world).used q
  opened : ∀ p q r, (s.server p).mq = some q → ((s.stop r).mq = some q ↔ Opened p r labels)
  sent : ∀ r, (∃ result queue, s.stop r = .sent result queue) ↔ .send r ∈ labels

omit [DecidableEq P] [DecidableEq R] in
theorem asking_start : Asking lib [] (start w : Processes W Q P R) := by
  constructor <;> simp [start, Server.queue?, Server.mq, Stop.queue?, Stop.mq]

omit [DecidableEq P] [DecidableEq R] in
/-- A step of a server. A queue that it creates was not open before. -/
theorem Asking.keeps (h : Asking lib labels s) (hstop : s'.stop = s.stop)
    (hused : ∀ q, (lib.queues s.world).used q → (lib.queues s'.world).used q)
    (hmq : ∀ p q, (s'.server p).mq = some q →
      (s.server p).mq = some q ∨ ¬ (lib.queues s.world).used q ∧ .create p ∉ labels)
    (hopen : ∀ r, l ≠ .open r) (hsend : ∀ r, l ≠ .send r) : Asking lib (labels ++ [l]) s' := by
  constructor
  case used =>
    intro r q hq
    rw [hstop] at hq
    exact hused q (h.used r q hq)
  case opened =>
    intro p q r hq
    rw [opened_snoc, hstop]
    rcases hmq p q hq with hq | ⟨hfresh, hnew⟩
    · simp [hopen r, h.opened p q r hq]
    · have hstop : (s.stop r).mq ≠ some q := fun hr => hfresh (h.used r q hr)
      have hnot : ¬ Opened p r labels := fun hopened => hnew hopened.create_mem
      simp [hopen r, hstop, hnot]
  case sent =>
    intro r
    rw [hstop, h.sent r]
    simp [Ne.symm (hsend r)]

omit [DecidableEq P] in
theorem Asking.open (h : Asking lib labels s) (howned : Owned lib labels s)
    (hr : s.stop r = .idle) :
    Asking lib (labels ++ [.open r]) (s.setStop s.world r (.opened (.openOnly lib s.world))) := by
  have hidle : (s.stop r).mq = none := by
    rw [hr]
    rfl
  constructor
  case used =>
    intro r' q hq
    rw [setStop_stop] at hq
    split_ifs at hq with hr'
    · exact lib.used_of_named hq
    · exact h.used r' q hq
  case opened =>
    intro p q r' hq
    have hbefore := h.opened p q r' hq
    rw [opened_snoc, setStop_stop]
    by_cases hr' : r' = r
    · subst hr'
      rw [hidle] at hbefore
      have hnamed : (Stop.opened (.openOnly lib s.world)).mq = (lib.queues s.world).named := rfl
      simp [hnamed, howned.named p q hq, ← hbefore]
    · simp [hr', Ne.symm hr', hbefore]
  case sent =>
    intro r'
    rw [setStop_stop, List.mem_append, ← h.sent r']
    by_cases hr' : r' = r
    · simp [hr', hr]
    · simp [hr']

omit [DecidableEq P] in
theorem Asking.send (h : Asking lib labels s) {queue : MessageQueue Q}
    (hr : s.stop r = .opened queue) (hused : (lib.queues w).used = (lib.queues s.world).used) :
    Asking lib (labels ++ [.send r]) (s.setStop w r (.sent result queue)) := by
  have hmq : ∀ r', ((s.setStop w r (.sent result queue)).stop r').mq = (s.stop r').mq := by
    intro r'
    rw [setStop_stop]
    split_ifs with hr'
    · rw [hr', hr]
      rfl
    · rfl
  constructor
  case used =>
    intro r' q hq
    rw [setStop_world, hused]
    exact h.used r' q (hmq r' ▸ hq)
  case opened =>
    intro p q r' hq
    rw [opened_snoc, hmq r', h.opened p q r' hq]
    simp
  case sent =>
    intro r'
    rw [setStop_stop, List.mem_append, ← h.sent r']
    by_cases hr' : r' = r
    · simp [hr']
    · simp [hr']

/-! ## What is in the queues -/

/-- The server has left its wait, or finds a message there. -/
def Told (lib : Interprocess W Q) (s : Processes W Q P R) (p : P) (q : Q) : Prop :=
  (∃ queue, s.server p = .waiting queue ∧ (lib.queues s.world).content q ≠ []) ∨
    ∃ queue, s.server p = .returned true queue

/-- Some command has sent to the queue. -/
def SentTo (s : Processes W Q P R) (q : Q) : Prop :=
  ∃ r result queue, s.stop r = .sent result queue ∧ queue.mq = some q

/-- The queue of a server holds exit messages, and the server is told to leave exactly if one was
sent. -/
structure Mail (lib : Interprocess W Q) (s : Processes W Q P R) : Prop where
  exits : ∀ p q, (s.server p).mq = some q → ∀ msg ∈ (lib.queues s.world).content q, msg.exit ≠ 0
  told : ∀ p q, (s.server p).mq = some q → (s.Told lib p q ↔ s.SentTo q)
  result : ∀ p result queue, s.server p = .returned result queue → result = queue.mq.isSome

omit [DecidableEq P] [DecidableEq R] in
theorem mail_start : Mail lib (start w : Processes W Q P R) := by
  constructor <;> simp [start, Server.queue?, Server.mq]

omit [DecidableEq P] [DecidableEq R] in
/-- A step that changes neither the server nor what is in its queue. -/
theorem Told.of_same (hserver : s'.server p = s.server p)
    (hcontent : (lib.queues s'.world).content q = (lib.queues s.world).content q) :
    s'.Told lib p q ↔ s.Told lib p q := by
  unfold Told
  rw [hserver, hcontent]

omit [DecidableEq R] in
theorem Mail.quiet (h : Mail lib s) (hmq : server.mq = none)
    (hresult : ∀ queue, server ≠ .returned true queue)
    (hcontent : (lib.queues w).content = (lib.queues s.world).content) :
    Mail lib (s.setServer w p server) := by
  constructor
  case exits =>
    intro p' q hq
    rw [setServer_world, hcontent]
    exact h.exits p' q (mq_quiet hmq hq).2.2
  case told =>
    intro p' q hq
    obtain ⟨-, hserver, hq⟩ := mq_quiet hmq hq
    exact (Told.of_same hserver (congrFun hcontent q)).trans (h.told p' q hq)
  case result =>
    intro p' result queue hp'
    rw [setServer_server] at hp'
    split_ifs at hp' with hp
    · subst hp'
      have hnone : queue.mq = none := hmq
      cases result with
      | true => exact absurd rfl (hresult queue)
      | false => rw [hnone, Option.isSome_none]
    · exact h.result p' result queue hp'

omit [DecidableEq R] in
/-- Nothing is in a new queue, and no command has it open. -/
theorem Mail.create (h : Mail lib s) (howned : Owned lib labels s) (hasking : Asking lib labels s)
    (hfresh : ¬ (lib.queues s.world).used q)
    (hw : lib.queues w = (lib.queues s.world).create q) :
    Mail lib (s.setServer w p (.waiting ⟨true, some q⟩)) := by
  have hcontent : ∀ q', q' ≠ q → (lib.queues w).content q' = (lib.queues s.world).content q' := by
    intro q' hq'
    rw [hw]
    exact Function.update_of_ne hq' ..
  have hempty : (lib.queues w).content q = [] := by
    rw [hw]
    exact Function.update_self ..
  constructor
  case exits =>
    intro p' q' hq
    rcases howned.mq_create hfresh hq with ⟨-, rfl⟩ | ⟨-, hq', hq⟩
    · simp [hempty]
    · rw [setServer_world, hcontent q' hq']
      exact h.exits p' q' hq
  case told =>
    intro p' q' hq
    rcases howned.mq_create hfresh hq with ⟨rfl, rfl⟩ | ⟨hp', hq', hq⟩
    -- Whoever has sent to a queue has opened it, and this one was not in use.
    · have hnone : ¬ s.SentTo q' := by
        intro hsent
        obtain ⟨r, result, queue, hr, hmq⟩ := hsent
        have hopen : (s.stop r).mq = some q' := by
          rw [hr]
          exact hmq
        exact hfresh (hasking.used r q' hopen)
      refine iff_of_false ?_ hnone
      simp [Told, setServer, hempty]
    · have hserver : (s.setServer w p (.waiting ⟨true, some q⟩)).server p' = s.server p' := by
        rw [setServer_server, if_neg hp']
      exact (Told.of_same hserver (hcontent q' hq')).trans (h.told p' q' hq)
  case result =>
    intro p' result queue hp'
    rw [setServer_server] at hp'
    split_ifs at hp'
    exact h.result p' result queue hp'

omit [DecidableEq R] in
/-- A server that takes a message leaves. What it leaves behind are exit messages. -/
theorem Mail.returns (h : Mail lib s) (howned : Owned lib labels s) {queue : MessageQueue Q}
    {msg : TaskMsg} {msgs : List TaskMsg} (hp : s.server p = .waiting queue)
    (hmq : queue.mq = some q) (hcons : (lib.queues s.world).content q = msg :: msgs)
    (hw : lib.queues w = (lib.queues s.world).setContent q msgs) :
    Mail lib (s.setServer w p (.returned true queue)) := by
  have hown : (s.server p).mq = some q := by
    rw [hp]
    exact hmq
  -- The queue is not empty, so a command has sent to it.
  have hsent : s.SentTo q := (h.told p q hown).1 (.inl ⟨queue, hp, by simp [hcons]⟩)
  have hmsgs : ∀ m ∈ (lib.queues w).content q, m.exit ≠ 0 := by
    have hexits := h.exits p q hown
    rw [hcons] at hexits
    simpa [hw, Queues.setContent] using fun m hm => hexits m (List.mem_cons_of_mem _ hm)
  have hcases : ∀ p' q', ((s.setServer w p (.returned true queue)).server p').mq = some q' →
      p' = p ∧ q' = q ∨ p' ≠ p ∧ (s.server p').mq = some q' ∧
        (lib.queues w).content q' = (lib.queues s.world).content q' := by
    intro p' q' hq
    rw [setServer_server] at hq
    by_cases hp' : p' = p
    · rw [if_pos hp'] at hq
      exact .inl ⟨hp', Option.some.inj (hq.symm.trans hmq)⟩
    · rw [if_neg hp'] at hq
      have hq' : q' ≠ q := by
        rintro rfl
        exact hp' (howned.inj p' p q' hq hown)
      refine .inr ⟨hp', hq, ?_⟩
      rw [hw]
      exact Function.update_of_ne hq' ..
  constructor
  case exits =>
    intro p' q' hq
    rcases hcases p' q' hq with ⟨-, rfl⟩ | ⟨-, hq, hcontent⟩
    · exact hmsgs
    · rw [setServer_world, hcontent]
      exact h.exits p' q' hq
  case told =>
    intro p' q' hq
    rcases hcases p' q' hq with ⟨rfl, rfl⟩ | ⟨hp', hq, hcontent⟩
    · exact iff_of_true (.inr ⟨queue, by simp [setServer]⟩) hsent
    · have hserver : (s.setServer w p (.returned true queue)).server p' = s.server p' := by
        rw [setServer_server, if_neg hp']
      exact (Told.of_same hserver hcontent).trans (h.told p' q' hq)
  case result =>
    intro p' result queue' hp'
    rw [setServer_server] at hp'
    split_ifs at hp'
    · cases hp'
      rw [hmq, Option.isSome_some]
    · exact h.result p' result queue' hp'

omit [DecidableEq P] in
/-- Opening a queue sends nothing. -/
theorem Mail.open (h : Mail lib s) (hr : s.stop r = .idle) {queue : MessageQueue Q} :
    Mail lib (s.setStop s.world r (.opened queue)) := by
  refine ⟨h.exits, fun p q hq => ?_, h.result⟩
  have hsent : (s.setStop s.world r (.opened queue)).SentTo q ↔ s.SentTo q := by
    refine exists_congr fun r' => ?_
    rw [setStop_stop]
    by_cases hr' : r' = r
    · simp [hr', hr]
    · simp [hr']
  rw [hsent]
  exact h.told p q hq

omit [DecidableEq P] in
/-- The server whose queue was sent to is told, and no other. -/
theorem Mail.send (h : Mail lib s) (hasking : Asking lib labels s) {queue : MessageQueue Q}
    (hr : s.stop r = .opened queue) (hsend : queue.sendExitMessage lib s.world = (result, w)) :
    Mail lib (s.setStop w r (.sent result queue)) := by
  have hsent : ∀ q, SentTo (s.setStop w r (.sent result queue)) q ↔
      s.SentTo q ∨ queue.mq = some q := by
    intro q
    constructor
    · rintro ⟨r', result', queue', hr', hmq⟩
      rw [setStop_stop] at hr'
      split_ifs at hr'
      · cases hr'
        exact .inr hmq
      · exact .inl ⟨r', result', queue', hr', hmq⟩
    · rintro (⟨r', result', queue', hr', hmq⟩ | hmq)
      · refine ⟨r', result', queue', ?_, hmq⟩
        rw [setStop_stop, if_neg, hr']
        rintro rfl
        rw [hr] at hr'
        cases hr'
      · exact ⟨r, result, queue, by simp [setStop], hmq⟩
  -- A command that found no queue sends nothing; the queue of any other is not empty after it.
  cases hmq : queue.mq with
  | none =>
    obtain ⟨rfl, rfl⟩ : result = false ∧ w = s.world := by
      simp only [MessageQueue.sendExitMessage, hmq] at hsend
      exact ⟨(Prod.mk.inj hsend).1.symm, (Prod.mk.inj hsend).2.symm⟩
    refine ⟨h.exits, fun p q hq => ?_, h.result⟩
    rw [hsent, hmq, or_iff_left (by simp)]
    exact h.told p q hq
  | some q =>
    have hused : (lib.queues s.world).used q := by
      apply hasking.used r q
      rw [hr]
      exact hmq
    obtain ⟨msgs, hne, hmsgs, hw⟩ := sendExitMessage_cases hmq hused hsend
    have hself : (lib.queues w).content q = msgs := by
      rw [hw]
      exact Function.update_self ..
    have hcontent : ∀ q', q' ≠ q → (lib.queues w).content q' =
        (lib.queues s.world).content q' := by
      intro q' hq'
      rw [hw]
      exact Function.update_of_ne hq' ..
    refine ⟨fun p q' hq => ?_, fun p q' hq => ?_, h.result⟩
    · by_cases hq' : q' = q
      · subst hq'
        rw [setStop_world, hself]
        intro msg hmsg
        rcases hmsgs msg hmsg with hold | rfl
        · exact h.exits p q' hq msg hold
        · decide
      · rw [setStop_world, hcontent q' hq']
        exact h.exits p q' hq
    · rw [hsent, hmq]
      by_cases hq' : q' = q
      · subst hq'
        -- Its server is told: it waits and the queue is not empty, or it has returned.
        refine iff_of_true ?_ (.inr rfl)
        cases hserver : s.server p with
        | waiting queue' => exact .inl ⟨queue', hserver, hself ▸ hne⟩
        | returned result' queue' =>
          have hsome : queue'.mq = some q' := by
            rw [setStop_server, hserver] at hq
            exact hq
          have hresult := h.result p result' queue' hserver
          rw [hsome, Option.isSome_some] at hresult
          exact .inr ⟨queue', hresult ▸ hserver⟩
        | absent | removed | gone =>
          rw [setStop_server, hserver] at hq
          cases hq
      · rw [or_iff_left (by simpa using Ne.symm hq')]
        have hsame : Told lib (s.setStop w r (.sent result queue)) p q' ↔ s.Told lib p q' :=
          Told.of_same rfl (hcontent q' hq')
        exact hsame.trans (h.told p q' hq)

/-! ## Who is told -/

/-- What the history fixes of the state. -/
structure Tracks (lib : Interprocess W Q) (labels : List (Label P R)) (s : Processes W Q P R) :
    Prop where
  owned : Owned lib labels s
  asking : Asking lib labels s
  mail : Mail lib s

omit [DecidableEq R] in
/-- A step of a server that has no queue after it. -/
theorem Tracks.quiet (h : Tracks lib labels s) (hserver : l.server? = some p)
    (hqueue : ∀ queue, server.queue? = some queue → queue.mq = none ∧ queue.create_ = true)
    (hresult : ∀ queue, server ≠ .returned true queue)
    (hearly : server.Early → .create p ∉ labels ++ [l])
    (hqueues : l.Removes ∧ lib.queues w = (lib.queues s.world).remove ∨
      ¬ l.Removes ∧ lib.queues w = lib.queues s.world) :
    Tracks lib (labels ++ [l]) (s.setServer w p server) := by
  have hmq : server.mq = none := by
    cases hsome : server.queue? with
    | none => rw [Server.mq, hsome, Option.bind_none]
    | some queue => rw [Server.mq, hsome, Option.bind_some, (hqueue queue hsome).1]
  have hsame : (lib.queues w).used = (lib.queues s.world).used ∧
      (lib.queues w).content = (lib.queues s.world).content ∧
      (l.Removes ∧ (lib.queues w).named = none ∨
        ¬ l.Removes ∧ (lib.queues w).named = (lib.queues s.world).named) := by
    rcases hqueues with ⟨hl, hw⟩ | ⟨hl, hw⟩ <;> rw [hw] <;> simp [Queues.remove, hl]
  obtain ⟨hused, hcontent, hnamed⟩ := hsame
  refine ⟨?_, ?_, h.mail.quiet hmq hresult hcontent⟩
  · exact h.owned.quiet hmq (fun queue hq => (hqueue queue hq).2) hearly hused hnamed hserver
  · refine h.asking.keeps rfl (fun q hq => ?_) (fun p' q hq => .inl (mq_quiet hmq hq).2.2) ?_ ?_
    · rwa [setServer_world, hused]
    · rintro r rfl
      cases hserver
    · rintro r rfl
      cases hserver

omit [DecidableEq P] [DecidableEq R] in
/-- What a wait comes to: without a queue it returns false, and with one it blocks or returns
true. -/
theorem Tracks.wait_cases (h : Tracks lib labels s) {queue : MessageQueue Q}
    (hp : s.server p = .waiting queue) :
    queue.mq = none ∧ queue.waitExitMessage lib s.world = .returns false s.world ∨
    ∃ q, queue.mq = some q ∧
      ((lib.queues s.world).content q = [] ∧ queue.waitExitMessage lib s.world = .blocks ∨
      ∃ msg msgs w, (lib.queues s.world).content q = msg :: msgs ∧
        queue.waitExitMessage lib s.world = .returns true w ∧
        lib.queues w = (lib.queues s.world).setContent q msgs) := by
  cases hmq : queue.mq with
  | none => simp [MessageQueue.waitExitMessage, hmq]
  | some q =>
    have hown : (s.server p).mq = some q := by
      rw [hp]
      exact hmq
    exact .inr ⟨q, rfl, waitExitMessage_cases hmq (h.owned.used p q hown) (h.mail.exits p q hown)⟩

omit [DecidableEq R] in
/-- A server takes a message and leaves its wait. -/
theorem Tracks.returns (h : Tracks lib labels s) {queue : MessageQueue Q} {msg : TaskMsg}
    {msgs : List TaskMsg} (hp : s.server p = .waiting queue) (hmq : queue.mq = some q)
    (hcons : (lib.queues s.world).content q = msg :: msgs)
    (hw : lib.queues w = (lib.queues s.world).setContent q msgs) :
    Tracks lib (labels ++ [.wait p]) (s.setServer w p (.returned true queue)) := by
  have hserver : ∀ p', (s.setServer w p (.returned true queue)).server p' = s.server p' ∨
      ∃ result queue', s.server p' = .waiting queue' ∧
        (s.setServer w p (.returned true queue)).server p' = .returned result queue' := by
    intro p'
    rw [setServer_server]
    by_cases hp' : p' = p
    · exact .inr ⟨true, queue, hp' ▸ hp, if_pos hp'⟩
    · exact .inl (if_neg hp')
  have hsame : (lib.queues w).used = (lib.queues s.world).used ∧
      (lib.queues w).named = (lib.queues s.world).named := by
    rw [hw]
    exact ⟨rfl, rfl⟩
  refine ⟨h.owned.keeps hserver hsame.1 hsame.2 (by simp [Label.Removes]) (by simp), ?_,
    h.mail.returns h.owned hp hmq hcons hw⟩
  refine h.asking.keeps rfl (fun q' hq' => ?_) (fun p' q' hq' => .inl ?_) (by simp) (by simp)
  · rwa [setServer_world, hsame.1]
  · rcases hserver p' with heq | ⟨result, queue', hbefore, hafter⟩
    · rwa [heq] at hq'
    · rw [hafter] at hq'
      rw [hbefore]
      exact hq'

omit [DecidableEq P] in
/-- A command sends, and what queues there are and the name stay. -/
theorem Tracks.send (h : Tracks lib labels s) {queue : MessageQueue Q}
    (hr : s.stop r = .opened queue) (hsend : queue.sendExitMessage lib s.world = (result, w)) :
    Tracks lib (labels ++ [.send r]) (s.setStop w r (.sent result queue)) := by
  have hsame : (lib.queues w).used = (lib.queues s.world).used ∧
      (lib.queues w).named = (lib.queues s.world).named := by
    cases hmq : queue.mq with
    | none =>
      simp only [MessageQueue.sendExitMessage, hmq] at hsend
      rw [← (Prod.mk.inj hsend).2]
      exact ⟨rfl, rfl⟩
    | some q =>
      have hopen : (s.stop r).mq = some q := by
        rw [hr]
        exact hmq
      obtain ⟨msgs, -, -, hw⟩ := sendExitMessage_cases hmq (h.asking.used r q hopen) hsend
      rw [hw]
      exact ⟨rfl, rfl⟩
  refine ⟨?_, h.asking.send hr hsame.1, h.mail.send h.asking hr hsend⟩
  exact h.owned.keeps (fun _ => .inl rfl) hsame.1 hsame.2 (by simp [Label.Removes]) (by simp)

/-- What the history fixes stays fixed. -/
theorem Step.tracks (h : Tracks lib labels s) (hs : Step lib s l s') :
    Tracks lib (labels ++ [l]) s' := by
  cases hs with
  | @construct p hp =>
    have hearly : .create p ∉ labels := h.owned.early p (.inl hp)
    apply h.quiet rfl (by simp [Server.queue?]) (by simp) (fun _ => by simp [hearly])
    exact .inl ⟨⟨p, .inl rfl⟩, lib.queues_remove s.world⟩
  | @create p queue w hp hmade =>
    rcases createOnly_cases hmade with ⟨rfl, rfl⟩ | ⟨q, rfl, hnone, hfresh, hw⟩
    · -- the name was taken again since the constructor removed it
      apply h.quiet rfl (by simp [Server.queue?]) (by simp) (by simp [Server.Early])
      exact .inr ⟨by simp [Label.Removes], rfl⟩
    · have hnew : .create p ∉ labels := h.owned.early p (.inr hp)
      refine ⟨h.owned.create hnone hfresh hw, ?_, h.mail.create h.owned h.asking hfresh hw⟩
      refine h.asking.keeps rfl (fun q' hq' => ?_) (fun p' q' hq' => ?_) (by simp) (by simp)
      · rw [setServer_world, hw]
        exact .inr hq'
      · rcases h.owned.mq_create hfresh hq' with ⟨rfl, rfl⟩ | ⟨-, -, hq'⟩
        · exact .inr ⟨hfresh, hnew⟩
        · exact .inl hq'
  | @again p queue w hp hround =>
    -- no message is without `exit`
    rcases h.wait_cases hp with ⟨-, hfalse⟩ | ⟨q, -, ⟨-, hblocks⟩ | ⟨_, _, _, -, htrue, -⟩⟩
    · simp [hround] at hfalse
    · simp [hround] at hblocks
    · simp [hround] at htrue
  | @returns p queue result w hp hround =>
    rcases h.wait_cases hp with ⟨hmq, hfalse⟩ | ⟨q, hmq, ⟨-, hblocks⟩ | ⟨_, _, _, hcons, htrue, hw⟩⟩
    · rw [hround] at hfalse
      cases hfalse
      have hcreate : queue.create_ = true := by
        apply h.owned.creates p
        rw [hp]
        rfl
      apply h.quiet rfl (by simp [Server.queue?, hmq, hcreate]) (by simp) (by simp [Server.Early])
      exact .inr ⟨by simp [Label.Removes], rfl⟩
    · simp [hround] at hblocks
    · rw [hround] at htrue
      cases htrue
      exact h.returns hp hmq hcons hw
  | @destroy p queue result hp =>
    have hcreate : queue.create_ = true := by
      apply h.owned.creates p
      rw [hp]
      rfl
    apply h.quiet rfl (by simp [Server.queue?]) (by simp) (by simp [Server.Early])
    refine .inl ⟨⟨p, .inr rfl⟩, ?_⟩
    rw [MessageQueue.destroy, if_pos hcreate, lib.queues_remove]
  | @kill p =>
    apply h.quiet rfl (by simp [Server.queue?]) (by simp) (by simp [Server.Early])
    exact .inr ⟨by simp [Label.Removes], rfl⟩
  | @«open» r hr =>
    have howned : Owned lib (labels ++ [.open r])
        (s.setStop s.world r (.opened (.openOnly lib s.world))) :=
      h.owned.keeps (fun _ => .inl rfl) rfl rfl (by simp [Label.Removes]) (by simp)
    exact ⟨howned, h.asking.open h.owned hr, h.mail.open hr⟩
  | @send r queue result w hr hsend => exact h.send hr hsend

variable {tr : List (Processes W Q P R × Label P R)}

theorem run_tracks (h : Transition.Run (Step lib) (start w) tr s) :
    Tracks lib (tr.map Prod.snd) s :=
  h.history ⟨owned_start, asking_start, mail_start⟩ fun _ _ _ _ ht hs => hs.tracks ht

/-- The server's wait has returned true, or its next round does. -/
def Leaves (lib : Interprocess W Q) (s : Processes W Q P R) (p : P) : Prop :=
  (∃ queue, s.server p = .returned true queue) ∨
    ∃ queue w, s.server p = .waiting queue ∧ queue.waitExitMessage lib s.world = .returns true w

/-- No command asks two servers. -/
theorem asked_unique (h : Transition.Run (Step lib) (start w) tr s) (hp : (s.server p).mq ≠ none)
    (hp' : (s.server p').mq ≠ none) (hr : Asked p r (tr.map Prod.snd))
    (hr' : Asked p' r (tr.map Prod.snd)) : p = p' := by
  have ht := run_tracks h
  obtain ⟨q, hq⟩ := Option.ne_none_iff_exists'.1 hp
  obtain ⟨q', hq'⟩ := Option.ne_none_iff_exists'.1 hp'
  have hopen : (s.stop r).mq = some q := (ht.asking.opened p q r hq).2 hr.1
  have hopen' : (s.stop r).mq = some q' := (ht.asking.opened p' q' r hq').2 hr'.1
  obtain rfl := Option.some.inj (hopen.symm.trans hopen')
  exact ht.owned.inj p p' q hq hq'

theorem sentTo_iff (h : Transition.Run (Step lib) (start w) tr s)
    (hq : (s.server p).mq = some q) : s.SentTo q ↔ ∃ r, Asked p r (tr.map Prod.snd) := by
  have ht := run_tracks h
  refine exists_congr fun r => ?_
  unfold Asked
  rw [← ht.asking.opened p q r hq, ← ht.asking.sent r]
  constructor
  · intro hsent
    obtain ⟨result, queue, hr, hmq⟩ := hsent
    refine ⟨?_, result, queue, hr⟩
    rw [hr]
    exact hmq
  · intro hasked
    obtain ⟨hmq, result, queue, hr⟩ := hasked
    rw [hr] at hmq
    exact ⟨result, queue, hr, hmq⟩

/-- **Which servers leave.** Whatever servers and commands have been run on the machine, a server
leaves its wait exactly if it has a queue and was asked to, by a command that opened the queue
before the name was removed. A queue too full to take the message loses nothing. -/
theorem leaves_iff (h : Transition.Run (Step lib) (start w) tr s) :
    s.Leaves lib p ↔ (s.server p).mq ≠ none ∧ ∃ r, Asked p r (tr.map Prod.snd) := by
  have ht := run_tracks h
  constructor
  · intro hleaves
    have htold : ∃ q, (s.server p).mq = some q ∧ s.Told lib p q := by
      rcases hleaves with ⟨queue, hp⟩ | ⟨queue, w', hp, hround⟩
      · have hmq := ht.mail.result p true queue hp
        obtain ⟨q, hmq⟩ := Option.isSome_iff_exists.1 hmq.symm
        refine ⟨q, ?_, .inr ⟨queue, hp⟩⟩
        rw [hp]
        exact hmq
      · rcases ht.wait_cases hp with ⟨-, hfalse⟩ | ⟨q, hmq, ⟨-, hblocks⟩ | ⟨_, _, _, hcons, -⟩⟩
        · simp [hround] at hfalse
        · simp [hround] at hblocks
        · refine ⟨q, ?_, .inl ⟨queue, hp, by simp [hcons]⟩⟩
          rw [hp]
          exact hmq
    obtain ⟨q, hq, htold⟩ := htold
    exact ⟨by simp [hq], (sentTo_iff h hq).1 ((ht.mail.told p q hq).1 htold)⟩
  · intro hasked
    obtain ⟨hmq, hasked⟩ := hasked
    obtain ⟨q, hq⟩ := Option.ne_none_iff_exists'.1 hmq
    rcases (ht.mail.told p q hq).2 ((sentTo_iff h hq).2 hasked) with ⟨queue, hp, hcontent⟩ | hreturned
    · rw [hp] at hq
      rcases ht.wait_cases hp with ⟨hmq, -⟩ | ⟨q', hmq, ⟨hnil, -⟩ | ⟨_, _, w', -, hround, -⟩⟩
      · cases hmq.symm.trans hq
      · obtain rfl := Option.some.inj (hmq.symm.trans hq)
        exact absurd hnil hcontent
      · exact .inr ⟨queue, w', hp, hround⟩
    · exact .inl hreturned

/-! ## Queues in memory -/

/-- Queues are numbered as they are created. -/
structure Memory where
  named : Option ℕ
  next : ℕ
  content : ℕ → List TaskMsg
  named_lt : ∀ q, named = some q → q < next

def Memory.queues (m : Memory) : Queues ℕ where
  named := m.named
  used q := q < m.next
  content := m.content

def Memory.setContent (m : Memory) (q : ℕ) (msgs : List TaskMsg) : Memory :=
  { m with content := Function.update m.content q msgs }

def inMemory : Interprocess Memory ℕ where
  queues := Memory.queues
  remove m := { m with named := none, named_lt := by simp }
  createOnly m :=
    if m.named = none then
      some (m.next, ⟨some m.next, m.next + 1, Function.update m.content m.next [], by simp⟩)
    else none
  trySend m q msg :=
    if (m.content q).length < 10 then some (true, m.setContent q (m.content q ++ [msg]))
    else some (false, m)
  receive m q := (m.content q).casesOn .blocks fun msg msgs => .message msg (m.setContent q msgs)
  used_of_named {m} {q} h := m.named_lt q h
  queues_remove _ := rfl
  of_createOnly {m} {m'} {q} h := by
    split_ifs at h with hnone
    cases h
    refine ⟨hnone, lt_irrefl _, ?_⟩
    have hused : (fun q => q < m.next + 1) = fun q => q = m.next ∨ q < m.next := by
      funext q
      rw [Nat.lt_succ_iff_lt_or_eq, or_comm]
    simp only [Memory.queues, Queues.create, hused]
  trySend_lt {m} {q} msg _ h := ⟨m.setContent q (m.content q ++ [msg]), if_pos h, rfl⟩
  trySend_full {m} {q} msg _ h := ⟨m, if_neg (Nat.not_lt.2 h), rfl⟩
  receive_nil {m} {q} _ h := by
    have hnil : m.content q = [] := h
    rw [hnil]
  receive_cons {m} {q} {msg} {msgs} _ h := by
    have hcons : m.content q = msg :: msgs := h
    exact ⟨m.setContent q msgs, by rw [hcons], rfl⟩

/-! ## A server and a command -/

/-- The name is left over from a server that was killed. -/
def leftOver : Memory := ⟨some 0, 1, fun _ => [], by simp⟩

def constructed : Processes Memory ℕ Unit Unit :=
  (start leftOver).setServer (inMemory.remove leftOver) () .removed

def created : Processes Memory ℕ Unit Unit :=
  constructed.setServer (MessageQueue.createOnly inMemory constructed.world).2 ()
    (.waiting (MessageQueue.createOnly inMemory constructed.world).1)

def opened : Processes Memory ℕ Unit Unit :=
  created.setStop created.world () (.opened (.openOnly inMemory created.world))

def sent : Processes Memory ℕ Unit Unit :=
  opened.setStop (MessageQueue.sendExitMessage inMemory ⟨false, some 1⟩ opened.world).2 ()
    (.sent true ⟨false, some 1⟩)

theorem sent_run : Transition.Run (Step inMemory) (start leftOver)
    [(start leftOver, .construct ()), (constructed, .create ()), (created, .open ()),
      (opened, .send ())] sent :=
  (((Transition.Run.nil.snoc (.construct rfl)).snoc (.create rfl rfl)).snoc (.open rfl)).snoc
    (.send rfl rfl)

theorem sent_leaves : sent.Leaves inMemory () := by
  refine (leaves_iff sent_run).2 ⟨?_, (), ⟨[.construct (), .create ()], [.send ()], rfl, ?_⟩, ?_⟩
  · intro hnone
    cases hnone
  · exact ⟨[.construct ()], [], rfl, List.forall_mem_nil _⟩
  · simp

end Processes

end WsSignalServer
