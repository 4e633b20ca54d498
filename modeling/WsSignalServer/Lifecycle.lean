import WsSignalServer.Dispatch
import WsSignalServer.Pairs

/-!
# The life of a connection

A connection is in up to three collections: the list of its endpoint, and the registry. They are
owned by two classes and changed by different actions, some time after the network event behind
the action.

Assume of websocketpp that the handlers of each connection are called in order: one open, on one
endpoint, then messages, then at most one close (`InOrder`). What was dispatched then fixes the
phase of every connection (`phase`), and the phase fixes what the connection is in (`Tracks`).

**Theorem (`lifecycle`).** Between any two dispatches a connection is in the list of the endpoint
it was opened on exactly from the dispatch of its open to that of its close, and is registered
only while it is in one of the lists.

**Theorem (`sends_routed`).** Every send goes to the endpoint its destination was opened on, and a
broadcast reaches every connection whose open was dispatched and whose close was not, once.
-/

namespace WsSignalServer

open Std General Json

variable {H : Type} [LinearOrder H]

namespace WebsocketServer

/-! ## Phases -/

inductive Phase where
  | fresh
  | opened (endpoint : Endpoint)
  | closed (endpoint : Endpoint)
  deriving DecidableEq, Repr

/-- The action that opens a connection on an endpoint. -/
def opens : Endpoint → H → Action H
  | .plain, hdl => .subscribe hdl
  | .tls, hdl => .tlsSubscribe hdl

/-- The connection an action is about. -/
def hdl? : Action H → Option H
  | .subscribe hdl | .tlsSubscribe hdl | .unsubscribe hdl | .message hdl _ => some hdl
  | .exit => none

/-- The next phase of a connection, if an action of it may come now. -/
def Phase.next : Phase → Action H → Option Phase
  | .fresh, .subscribe _ => some (.opened .plain)
  | .fresh, .tlsSubscribe _ => some (.opened .tls)
  | .opened endpoint, .message _ _ => some (.opened endpoint)
  | .opened endpoint, .unsubscribe _ => some (.closed endpoint)
  | _, _ => none

def nextPhase (hdl : H) (ph : Phase) (a : Action H) : Option Phase :=
  if hdl? a = some hdl then ph.next a else some ph

/-- The phase of a connection after a sequence of actions. -/
def phase (hdl : H) (as : List (Action H)) : Option Phase := as.foldlM (nextPhase hdl) .fresh

/-- The actions of every connection come in order. -/
def InOrder (as : List (Action H)) : Prop := ∀ hdl, ∃ ph, phase hdl as = some ph

variable {hdl : H} {as bs : List (Action H)} {a : Action H} {ph ph' : Phase}

theorem phase_snoc : phase hdl (as ++ [a]) = some ph' ↔
    ∃ ph, phase hdl as = some ph ∧ nextPhase hdl ph a = some ph' := by
  have hsnoc : phase hdl (as ++ [a]) = (phase hdl as).bind fun ph => nextPhase hdl ph a := by
    simp [phase]
  rw [hsnoc, Option.bind_eq_some_iff]

theorem InOrder.of_isPrefix (h : InOrder bs) (hpre : as <+: bs) : InOrder as := by
  obtain ⟨rest, rfl⟩ := hpre
  intro hdl
  obtain ⟨ph, hph⟩ := h hdl
  unfold phase at hph ⊢
  rw [List.foldlM_append] at hph
  cases hbefore : as.foldlM (nextPhase hdl) .fresh with
  | none =>
    rw [hbefore] at hph
    cases hph
  | some ph => exact ⟨ph, rfl⟩

omit [LinearOrder H] in
@[simp] theorem opens_inj {e e' : Endpoint} {hdl hdl' : H} :
    opens e hdl = opens e' hdl' ↔ e = e' ∧ hdl = hdl' := by
  cases e <;> cases e' <;> simp [opens]

omit [LinearOrder H] in
@[simp] theorem opens_ne_unsubscribe (e : Endpoint) (hdl hdl' : H) :
    opens e hdl ≠ .unsubscribe hdl' := by
  cases e <;> exact nofun

omit [LinearOrder H] in
@[simp] theorem opens_ne_message (e : Endpoint) (hdl hdl' : H) (msg : Message) :
    opens e hdl ≠ .message hdl' msg := by
  cases e <;> exact nofun

/-- What an action does to the phase of a connection. -/
theorem nextPhase_cases (h : nextPhase hdl ph a = some ph') :
    (hdl? a ≠ some hdl ∧ ph' = ph) ∨
    (∃ e, a = opens e hdl ∧ ph = .fresh ∧ ph' = .opened e) ∨
    (∃ msg e, a = .message hdl msg ∧ ph = .opened e ∧ ph' = .opened e) ∨
    ∃ e, a = .unsubscribe hdl ∧ ph = .opened e ∧ ph' = .closed e := by
  unfold nextPhase at h
  split_ifs at h with hdla
  · refine .inr ?_
    cases a with
    | subscribe k =>
      obtain rfl := Option.some.inj hdla
      cases ph <;> cases h
      exact .inl ⟨.plain, rfl, rfl, rfl⟩
    | tlsSubscribe k =>
      obtain rfl := Option.some.inj hdla
      cases ph <;> cases h
      exact .inl ⟨.tls, rfl, rfl, rfl⟩
    | unsubscribe k =>
      obtain rfl := Option.some.inj hdla
      cases ph <;> cases h
      exact .inr (.inr ⟨_, rfl, rfl, rfl⟩)
    | message k msg =>
      obtain rfl := Option.some.inj hdla
      cases ph <;> cases h
      exact .inr (.inl ⟨msg, _, rfl, rfl, rfl⟩)
    | exit => cases hdla
  · exact .inl ⟨hdla, (Option.some.inj h).symm⟩

/-- The endpoint a connection was opened on. -/
def Phase.endpoint? : Phase → Option Endpoint
  | .fresh => none
  | .opened e | .closed e => some e

def Phase.isClosed : Phase → Bool
  | .closed _ => true
  | _ => false

/-- The phase records which opens there were, and whether there was a close. -/
theorem phase_history (h : phase hdl as = some ph) :
    (∀ e, opens e hdl ∈ as ↔ ph.endpoint? = some e) ∧
      (.unsubscribe hdl ∈ as ↔ ph.isClosed = true) := by
  induction as using List.reverseRecOn generalizing ph with
  | nil =>
    obtain rfl := Option.some.inj h
    simp [Phase.endpoint?, Phase.isClosed]
  | append_singleton as a ih =>
    obtain ⟨ph, hbefore, hnext⟩ := phase_snoc.1 h
    obtain ⟨hopens, hcloses⟩ := ih hbefore
    simp only [List.mem_append, List.mem_singleton, hopens, hcloses]
    rcases nextPhase_cases hnext with ⟨hother, rfl⟩ | ⟨e, rfl, rfl, rfl⟩ |
      ⟨msg, e, rfl, rfl, rfl⟩ | ⟨e, rfl, rfl, rfl⟩
    · refine ⟨fun e => or_iff_left ?_, or_iff_left ?_⟩
      · rintro rfl
        cases e <;> exact hother rfl
      · rintro rfl
        exact hother rfl
    · simp [Phase.endpoint?, Phase.isClosed, eq_comm, (opens_ne_unsubscribe e hdl hdl).symm]
    · simp [Phase.endpoint?, Phase.isClosed]
    · simp [Phase.endpoint?, Phase.isClosed]

/-! ## What a phase says about the server -/

/-- The collections hold a connection as its phase says. -/
structure Tracks (w : WebsocketServer H) (hdl : H) (ph : Phase) : Prop where
  plain : hdl ∈ w.conListPlain ↔ ph = .opened .plain
  tls : hdl ∈ w.conListTls ↔ ph = .opened .tls
  registered : hdl ∈ w.signal.mapPeers → ∃ e, ph = .opened e

variable {env : Env H} {w w' : WebsocketServer H} {l : Label H} {ds : List (Delivery Value H)}
  {tr : List (WebsocketServer H × Label H)}

/-- **Frame.** A dispatch leaves the other connections where they are. -/
theorem Effect.other (h : Effect env w a w' ds) (hs : Registered w.signal)
    (hother : hdl? a ≠ some hdl) : (hdl ∈ w'.conListPlain ↔ hdl ∈ w.conListPlain) ∧
      (hdl ∈ w'.conListTls ↔ hdl ∈ w.conListTls) ∧
      w'.signal.mapPeers[hdl]? = w.signal.mapPeers[hdl]? := by
  have hne : ∀ k, hdl? a = some k → k ≠ hdl := fun k hk heq => hother (heq ▸ hk)
  cases h with
  | subscribe k => simp [hne k rfl]
  | tlsSubscribe k => simp [hne k rfl]
  | unsubscribe k signal loop hcore =>
    exact ⟨by simp [hne k rfl], by simp [hne k rfl], hcore.other_entry hs (hne k rfl)⟩
  | text k payload signal loop hcore =>
    exact ⟨Iff.rfl, Iff.rfl, hcore.other_entry hs (hne k rfl)⟩
  | binary k payload => exact ⟨Iff.rfl, Iff.rfl, rfl⟩
  | exit => exact ⟨Iff.rfl, Iff.rfl, rfl⟩

/-- **Step.** A dispatch moves a connection as its action moves the phase. -/
theorem Effect.tracks (h : Effect env w a w' ds) (hs : Registered w.signal)
    (ht : Tracks w hdl ph) (hnext : nextPhase hdl ph a = some ph') : Tracks w' hdl ph' := by
  rcases nextPhase_cases hnext with ⟨hother, rfl⟩ | ⟨e, rfl, rfl, rfl⟩ |
    ⟨msg, e, rfl, rfl, rfl⟩ | ⟨e, rfl, rfl, rfl⟩
  · obtain ⟨hplain, htls, hentry⟩ := h.other hs hother
    refine ⟨hplain.trans ht.plain, htls.trans ht.tls, fun hreg => ht.registered ?_⟩
    rw [ExtTreeMap.mem_iff_isSome_getElem?] at hreg ⊢
    rwa [← hentry]
  · have hplain : hdl ∉ w.conListPlain := fun hmem => nomatch ht.plain.1 hmem
    have htls : hdl ∉ w.conListTls := fun hmem => nomatch ht.tls.1 hmem
    cases e with
    | plain =>
      change Effect env w (.subscribe hdl) w' ds at h
      cases h
      exact ⟨by simp, by simp [htls], fun _ => ⟨_, rfl⟩⟩
    | tls =>
      change Effect env w (.tlsSubscribe hdl) w' ds at h
      cases h
      exact ⟨by simp [hplain], by simp, fun _ => ⟨_, rfl⟩⟩
  · cases h with
    | text k payload signal loop hcore => exact ⟨ht.plain, ht.tls, fun _ => ⟨e, rfl⟩⟩
    | binary k payload => exact ⟨ht.plain, ht.tls, fun _ => ⟨e, rfl⟩⟩
  · cases h with
    | unsubscribe k signal loop hcore =>
      refine ⟨by simp, by simp, fun hreg => ?_⟩
      rw [ExtTreeMap.mem_iff_isSome_getElem?, hcore.close_entry hs] at hreg
      cases hreg

omit [LinearOrder H] in
theorem dispatched_snoc (labels : List (Label H)) (l : Label H) :
    dispatched (labels ++ [l]) = dispatched labels ++ l.dispatched?.toList := by
  unfold dispatched
  rw [List.filterMap_append]
  cases h : l.dispatched? <;> simp [h]

/-- **Run.** The phase that the dispatched actions give a connection tells where it is. -/
theorem tracks (hrun : Transition.Run Step init tr w)
    (hphase : phase hdl (dispatched (tr.map Prod.snd)) = some ph) : Tracks w hdl ph := by
  have hinit : WsSignalServer.Reachable (init : WebsocketServer H).signal :=
    Transition.Reachable.refl
  refine (hrun.history (P := fun labels w => WsSignalServer.Reachable w.signal ∧
    ∀ ph, phase hdl (dispatched labels) = some ph → Tracks w hdl ph) ⟨hinit, ?_⟩ ?_).2 ph hphase
  · intro ph hph
    obtain rfl := Option.some.inj hph
    refine ⟨by simp [init], by simp [init], fun hreg => ?_⟩
    exact absurd hreg (by simp [init, SignalServer.init])
  · intro labels w l w' hbefore hstep
    obtain ⟨hw, ht⟩ := hbefore
    refine ⟨Step.signal hstep hw, fun ph' hph' => ?_⟩
    rw [dispatched_snoc] at hph'
    rcases step_cases hstep with ⟨a, -, hnone, rfl⟩ | ⟨rfl, a, as, -, -, rfl⟩ |
      ⟨env, a, ds, rfl, -, -, heffect⟩
    · rw [hnone, Option.toList_none, List.append_nil] at hph'
      obtain ⟨hplain, htls, hreg⟩ := ht ph' hph'
      exact ⟨hplain, htls, hreg⟩
    · change phase hdl (dispatched labels ++ []) = some ph' at hph'
      rw [List.append_nil] at hph'
      obtain ⟨hplain, htls, hreg⟩ := ht ph' hph'
      exact ⟨hplain, htls, hreg⟩
    · obtain ⟨ph, hph, hnext⟩ := phase_snoc.1 hph'
      exact heffect.tracks hw.registered (ht ph hph) hnext

theorem Tracks.eq_opened {e : Endpoint} (ht : Tracks w hdl ph) (he : Tracks w hdl (.opened e)) :
    ph = .opened e := by
  cases e with
  | plain => exact ht.plain.1 (he.plain.2 rfl)
  | tls => exact ht.tls.1 (he.tls.2 rfl)

/-- A connection is in one list at most. -/
theorem Tracks.not_both (ht : Tracks w hdl ph) (hplain : hdl ∈ w.conListPlain) :
    hdl ∉ w.conListTls := by
  intro htls
  rw [ht.plain.1 hplain] at ht
  exact nomatch ht.tls.1 htls

/-- A connection is in the list of an endpoint from the dispatch of its open to that of its
close. -/
theorem Tracks.listed_iff (ht : Tracks w hdl ph) (h : phase hdl as = some ph) :
    (hdl ∈ w.conListPlain ↔ .subscribe hdl ∈ as ∧ .unsubscribe hdl ∉ as) ∧
      (hdl ∈ w.conListTls ↔ .tlsSubscribe hdl ∈ as ∧ .unsubscribe hdl ∉ as) := by
  obtain ⟨hopens, hcloses⟩ := phase_history h
  have hphase : ∀ e, opens e hdl ∈ as ∧ .unsubscribe hdl ∉ as ↔ ph = .opened e := by
    intro e
    rw [hopens, hcloses]
    cases ph <;> simp [Phase.endpoint?, Phase.isClosed]
  exact ⟨ht.plain.trans (hphase .plain).symm, ht.tls.trans (hphase .tls).symm⟩

/-! ## The life of a connection -/

/-- Connection 1 is open; the open of connection 2 is not dispatched yet. -/
def twoOpens : WebsocketServer ℕ :=
  { init with conListPlain := (∅ : ExtTreeSet ℕ compare).insert 1, actions := [.subscribe 2] }

def twoOpensRun : List (WebsocketServer ℕ × Label ℕ) :=
  [(init, .onOpen 1),
    ({ init with actions := [.subscribe 1] }, .pop),
    ({ init with loop := .holding (.subscribe 1) }, .dispatch .plain (.subscribe 1)),
    ({ init with conListPlain := (∅ : ExtTreeSet ℕ compare).insert 1 }, .onOpen 2)]

theorem twoOpens_run : Transition.Run Step init twoOpensRun twoOpens :=
  (((Transition.Run.nil.snoc rfl).snoc rfl).snoc rfl).snoc rfl

theorem twoOpens_inOrder : InOrder (pushed (twoOpensRun.map Prod.snd)) := by
  show InOrder [Action.subscribe 1, Action.subscribe 2]
  intro hdl
  by_cases h₁ : 1 = hdl
  · subst h₁
    exact ⟨.opened .plain, rfl⟩
  · by_cases h₂ : 2 = hdl
    · subst h₂
      exact ⟨.opened .plain, rfl⟩
    · exact ⟨.fresh, by simp [phase, nextPhase, hdl?, h₁, h₂]⟩

/-- **The life of a connection**, in every state of every run. -/
theorem lifecycle (hrun : Transition.Run Step init tr w)
    (horder : InOrder (pushed (tr.map Prod.snd))) (hdl : H) :
    ¬ (hdl ∈ w.conListPlain ∧ hdl ∈ w.conListTls) ∧
    (hdl ∈ w.signal.mapPeers → hdl ∈ w.conListPlain ∨ hdl ∈ w.conListTls) ∧
    (hdl ∈ w.conListPlain ↔ .subscribe hdl ∈ dispatched (tr.map Prod.snd) ∧
      .unsubscribe hdl ∉ dispatched (tr.map Prod.snd)) ∧
    (hdl ∈ w.conListTls ↔ .tlsSubscribe hdl ∈ dispatched (tr.map Prod.snd) ∧
      .unsubscribe hdl ∉ dispatched (tr.map Prod.snd)) ∧
    (.unsubscribe hdl ∈ dispatched (tr.map Prod.snd) →
      hdl ∉ w.conListPlain ∧ hdl ∉ w.conListTls ∧ hdl ∉ w.signal.mapPeers) := by
  obtain ⟨ph, hph⟩ := horder.of_isPrefix (dispatched_prefix_pushed hrun) hdl
  have ht := tracks hrun hph
  obtain ⟨hplain, htls⟩ := ht.listed_iff hph
  have hlisted : hdl ∈ w.signal.mapPeers → hdl ∈ w.conListPlain ∨ hdl ∈ w.conListTls := by
    intro hreg
    obtain ⟨e, rfl⟩ := ht.registered hreg
    cases e with
    | plain => exact .inl (ht.plain.2 rfl)
    | tls => exact .inr (ht.tls.2 rfl)
  refine ⟨fun hboth => ht.not_both hboth.1 hboth.2, hlisted, hplain, htls, fun hclosed => ?_⟩
  have hp : hdl ∉ w.conListPlain := fun hmem => (hplain.1 hmem).2 hclosed
  have ht' : hdl ∉ w.conListTls := fun hmem => (htls.1 hmem).2 hclosed
  exact ⟨hp, ht', fun hreg => (hlisted hreg).elim hp ht'⟩

/-- The steps of an action that comes in while the loop waits for one. -/
def handled (w : WebsocketServer ℕ) (l : Label ℕ) (a : Action ℕ) :
    List (WebsocketServer ℕ × Label ℕ) :=
  [(w, l), ({ w with actions := [a] }, .pop), ({ w with loop := .holding a }, .dispatch .plain a)]

theorem handled_run {tr : List (WebsocketServer ℕ × Label ℕ)} {w w' : WebsocketServer ℕ}
    {l : Label ℕ} {a : Action ℕ} (hrun : Transition.Run Step init tr w)
    (hpush : Step w l { w with actions := [a] })
    (hpop : Step { w with actions := [a] } .pop { w with loop := .holding a })
    (hdispatch : Step { w with loop := .holding a } (.dispatch .plain a) w') :
    Transition.Run Step init (tr ++ handled w l a) w' := by
  have hall := ((hrun.snoc hpush).snoc hpop).snoc hdispatch
  rwa [List.append_assoc, List.append_assoc] at hall

/-- Connection 1 is open on the plain endpoint, and connection 2 on the other. -/
def plainOpen : WebsocketServer ℕ :=
  { init with conListPlain := (∅ : ExtTreeSet ℕ compare).insert 1 }

def bothOpen : WebsocketServer ℕ :=
  { plainOpen with conListTls := (∅ : ExtTreeSet ℕ compare).insert 2 }

/-- Connection 1 has signed in. -/
def signedIn : WebsocketServer ℕ := { bothOpen with signal := onePeer }

/-- It has been sent a message by connection 2, and was closed. -/
def oneClosed : WebsocketServer ℕ :=
  { signedIn with
    conListPlain := signedIn.conListPlain.erase 1
    signal := ((Event.close Env.plain 1).outcome onePeer).server }

def oneClosedRun : List (WebsocketServer ℕ × Label ℕ) :=
  handled init (.onOpen 1) (.subscribe 1) ++ handled plainOpen (.onOpenTls 2) (.tlsSubscribe 2) ++
    handled bothOpen (.onMessage 1 ⟨.text, signInText.text⟩)
      (.message 1 ⟨.text, signInText.text⟩) ++
    handled signedIn (.onMessage 2 ⟨.text, messageText.text⟩)
      (.message 2 ⟨.text, messageText.text⟩) ++
    handled signedIn (.onClose 1) (.unsubscribe 1)

theorem oneClosed_run : Transition.Run Step init oneClosedRun oneClosed := by
  have hmessage : Request.ofText messageText.text =
      .ok (.message (.object messageText.members) 0 (.ok none)) := messageText.request
  have hopen := handled_run (l := .onOpen 1) (a := .subscribe 1) .nil rfl rfl rfl
  have hboth := handled_run (l := .onOpenTls 2) (a := .tlsSubscribe 2) hopen rfl rfl rfl
  have hsigned : Transition.Run Step init _ signedIn :=
    handled_run (l := .onMessage 1 ⟨.text, signInText.text⟩)
      (a := .message 1 ⟨.text, signInText.text⟩) hboth rfl rfl (.text rfl signInText_request rfl)
  have hsent : Transition.Run Step init _ signedIn :=
    handled_run (l := .onMessage 2 ⟨.text, messageText.text⟩)
      (a := .message 2 ⟨.text, messageText.text⟩) hsigned rfl rfl (.text rfl hmessage rfl)
  exact handled_run (l := .onClose 1) (a := .unsubscribe 1) hsent rfl rfl rfl

theorem oneClosed_inOrder : InOrder (pushed (oneClosedRun.map Prod.snd)) := by
  show InOrder [Action.subscribe 1, .tlsSubscribe 2, .message 1 ⟨.text, signInText.text⟩,
    .message 2 ⟨.text, messageText.text⟩, .unsubscribe 1]
  intro hdl
  by_cases h₁ : 1 = hdl
  · subst h₁
    exact ⟨.closed .plain, rfl⟩
  · by_cases h₂ : 2 = hdl
    · subst h₂
      exact ⟨.opened .tls, rfl⟩
    · exact ⟨.fresh, by simp [phase, nextPhase, hdl?, h₁, h₂]⟩

/-- After the close connection 1 is nowhere, and connection 2 still in its list. -/
theorem lifecycle_oneClosed : (1 ∉ oneClosed.conListPlain ∧ 1 ∉ oneClosed.conListTls ∧
      1 ∉ oneClosed.signal.mapPeers) ∧
    2 ∈ oneClosed.conListTls ∧ 2 ∉ oneClosed.conListPlain := by
  obtain ⟨-, -, -, -, hclosed⟩ := lifecycle oneClosed_run oneClosed_inOrder 1
  obtain ⟨hnotBoth, -, -, htls, -⟩ := lifecycle oneClosed_run oneClosed_inOrder 2
  have hopen : 2 ∈ oneClosed.conListTls := htls.2 ⟨by decide, by decide⟩
  exact ⟨hclosed (by decide), hopen, fun hplain => hnotBoth ⟨hplain, hopen⟩⟩

/-! ## Where sends go -/

/-- The connection was opened, and on that endpoint only. -/
def OpenedOn (as : List (Action H)) (e : Endpoint) (hdl : H) : Prop :=
  ∀ e', opens e' hdl ∈ as ↔ e' = e

theorem openedOn_of_mem (horder : InOrder as) {e : Endpoint} (h : opens e hdl ∈ as) :
    OpenedOn as e hdl := by
  obtain ⟨ph, hph⟩ := horder hdl
  intro e'
  have hopens := (phase_history hph).1
  rw [hopens, (hopens e).1 h, Option.some_inj, eq_comm]

theorem mem_mapPeers_of_deliver {s : SignalServer H} {id : ℤ} {text : Value} {m : Sent H}
    (hs : Registered s) (hm : m ∈ s.deliver env id text) : m.hdl ∈ s.mapPeers := by
  obtain ⟨k, hk, -, rfl⟩ := mem_deliver_iff.1 hm
  obtain ⟨p, hp, -⟩ := hs.getConnectionFromID_eq_some_iff.1 hk
  rw [ExtTreeMap.mem_iff_isSome_getElem?, hp]
  rfl

theorem mem_mapPeers_of_notices {s : SignalServer H} {id : ℤ} {m : Sent H} (hs : Registered s)
    (hm : m ∈ s.notices env hdl id) : m.hdl ≠ hdl ∧ m.hdl ∈ s.mapPeers := by
  obtain ⟨-, q, b, -, hb, hne, -⟩ := of_mem_notices hs hm
  rw [ExtTreeMap.mem_iff_isSome_getElem?, hb]
  exact ⟨hne, rfl⟩

/-- A request is answered to its sender, or passed on to a registered peer. -/
theorem Request.sent_hdl {s : SignalServer H} {request : Request} {m : Sent H} (hs : Registered s)
    (hm : m ∈ (request.outcome env hdl s).sent) : m.hdl = hdl ∨ m.hdl ∈ s.mapPeers := by
  cases request with
  | ignored => cases hm
  | signIn name nolist =>
    simp only [Request.outcome] at hm
    cases hid : s.freshId with
    | none => rw [hid] at hm; cases hm
    | some id =>
      rw [hid] at hm
      rw [List.mem_singleton.1 hm]
      exact .inl rfl
  | signOut id =>
    rcases List.mem_cons.1 hm with rfl | hm
    · exact .inl rfl
    · exact .inr (mem_mapPeers_of_notices hs hm).2
  | message value id offer =>
    rw [Request.message_sent] at hm
    exact .inr (mem_mapPeers_of_deliver hs hm)
  | exist name =>
    rw [List.mem_singleton.1 hm]
    exact .inl rfl

/-- A text is answered to its sender, or passed on to a registered peer. -/
theorem receive_sent_hdl {s : SignalServer H} {payload : Str} {m : Sent H} (hs : Registered s)
    (hm : m ∈ ((Event.receive env hdl payload).outcome s).sent) :
    m.hdl = hdl ∨ m.hdl ∈ s.mapPeers := by
  rw [receive_outcome] at hm
  cases hreq : Request.ofText payload with
  | error e => rw [hreq] at hm; cases hm
  | ok request =>
    rw [hreq] at hm
    exact Request.sent_hdl hs hm

/-- A close is told to another peer. -/
theorem close_sent_hdl {s : SignalServer H} {m : Sent H} (hs : Registered s)
    (hm : m ∈ ((Event.close env hdl).outcome s).sent) : m.hdl ≠ hdl ∧ m.hdl ∈ s.mapPeers := by
  cases hpeer : s.mapPeers[hdl]? with
  | none =>
    rw [close_outcome, hpeer] at hm
    cases hm
  | some p =>
    rw [hs.close_outcome hpeer] at hm
    exact mem_mapPeers_of_notices hs hm

/-- Membership in the plain list decides, so a send to a listed connection is routed rightly. -/
theorem Tracks.sendAs_endpoint {e : Endpoint} {α : Type} (ht : Tracks w hdl (.opened e))
    (opcode : Opcode) (payload : α) : (sendAs opcode w payload hdl).endpoint = e := by
  unfold sendAs
  cases e with
  | plain => exact if_pos (ht.plain.2 rfl)
  | tls => exact if_neg fun hmem => nomatch ht.plain.1 hmem

theorem Tracks.sent {e : Endpoint} {α : Type} (ht : Tracks w hdl (.opened e)) (opcode : Opcode)
    (payload : α) : Tracks w hdl (.opened (sendAs opcode w payload hdl).endpoint) := by
  rwa [ht.sendAs_endpoint]

/-- **Every send of a dispatch** is to a connection that is open, on the endpoint of the send. -/
theorem Effect.sends_tracked (h : Effect env w a w' ds) (hs : Registered w.signal)
    (ht : ∀ hdl, ∃ ph ph', Tracks w hdl ph ∧ nextPhase hdl ph a = some ph')
    {d : Delivery Value H} (hd : d ∈ ds) : Tracks w d.hdl (.opened d.endpoint) := by
  have hreg : ∀ k, k ∈ w.signal.mapPeers → ∃ e, Tracks w k (.opened e) := by
    intro k hk
    obtain ⟨ph, -, hph, -⟩ := ht k
    obtain ⟨e, rfl⟩ := hph.registered hk
    exact ⟨e, hph⟩
  cases h with
  | unsubscribe k signal loop hcore =>
    obtain ⟨m, hm, rfl⟩ := List.mem_map.1 hd
    obtain ⟨hne, hmem⟩ := close_sent_hdl hs hm
    obtain ⟨e, he⟩ := hreg m.hdl hmem
    -- The lists that route the notice lack the connection that closed, which it is not for.
    have hsame : send { w with conListPlain := w.conListPlain.erase k } m.text m.hdl =
        w.send m.text m.hdl := by
      simp [send, sendAs, hne.symm]
    rw [hsame]
    exact he.sent .text m.text
  | text k payload signal loop hcore =>
    obtain ⟨m, hm, rfl⟩ := List.mem_map.1 hd
    have hopen : ∃ e, Tracks w m.hdl (.opened e) := by
      rcases receive_sent_hdl hs hm with rfl | hmem
      · obtain ⟨ph, ph', hph, hnext⟩ := ht m.hdl
        rcases nextPhase_cases hnext with ⟨hother, -⟩ | ⟨e, heq, -⟩ | ⟨msg, e, -, rfl, -⟩ |
          ⟨e, heq, -⟩
        · exact absurd rfl hother
        · exact absurd heq.symm (opens_ne_message e _ _ _)
        · exact ⟨e, hph⟩
        · cases heq
      · exact hreg m.hdl hmem
    obtain ⟨e, he⟩ := hopen
    exact he.sent .text m.text
  | _ => cases hd

theorem effect_of_mem_sends {d : Delivery Value H} (h : d ∈ w.sends l) :
    ∃ env a w' ds, l = .dispatch env a ∧ Effect env w a w' ds ∧ d ∈ ds := by
  cases l with
  | dispatch env a =>
    change d ∈ ((w.dispatch env a).map Prod.snd).getD [] at h
    cases hdispatch : w.dispatch env a with
    | none => rw [hdispatch] at h; cases h
    | some r =>
      rw [hdispatch] at h
      exact ⟨env, a, r.1, r.2, rfl, effect_of_dispatch hdispatch, h⟩
  | _ => cases h

/-! ## Broadcasts -/

section Broadcast

variable {α : Type} (opcode : Opcode) (w : WebsocketServer H) (payload : α)

/-- A broadcast addresses the two lists. -/
theorem broadcastAs_hdl : (broadcastAs opcode w payload).map Delivery.hdl =
    w.conListPlain.toList ++ w.conListTls.toList := by
  simp [broadcastAs, sendAs, Function.comp_def]

theorem mem_broadcastAs_hdl : hdl ∈ (broadcastAs opcode w payload).map Delivery.hdl ↔
    hdl ∈ w.conListPlain ∨ hdl ∈ w.conListTls := by
  rw [broadcastAs_hdl, List.mem_append, ExtTreeSet.mem_toList, ExtTreeSet.mem_toList]

theorem nodup_toList (t : ExtTreeSet H compare) : t.toList.Nodup := by
  refine ExtTreeSet.distinct_toList.imp ?_
  rintro a b hne rfl
  exact hne ReflCmp.compare_self

theorem broadcastAs_nodup (ht : ∀ hdl, ∃ ph, Tracks w hdl ph) :
    ((broadcastAs opcode w payload).map Delivery.hdl).Nodup := by
  rw [broadcastAs_hdl]
  apply (nodup_toList w.conListPlain).append (nodup_toList w.conListTls)
  intro hdl hplain htls
  obtain ⟨ph, hph⟩ := ht hdl
  exact hph.not_both (ExtTreeSet.mem_toList.1 hplain) (ExtTreeSet.mem_toList.1 htls)

/-- **A broadcast**, too, sends to open connections on the endpoint of the send. -/
theorem broadcastAs_tracked (ht : ∀ hdl, ∃ ph, Tracks w hdl ph) {d : Delivery α H}
    (hd : d ∈ broadcastAs opcode w payload) : Tracks w d.hdl (.opened d.endpoint) := by
  have hmem : d.hdl ∈ w.conListPlain ∨ d.hdl ∈ w.conListTls :=
    (mem_broadcastAs_hdl opcode w payload).1 (List.mem_map_of_mem hd)
  have heq : d = sendAs opcode w payload d.hdl := by
    rcases List.mem_append.1 hd with hd | hd
    · obtain ⟨k, -, rfl⟩ := List.mem_map.1 hd
      rfl
    · obtain ⟨k, -, rfl⟩ := List.mem_map.1 hd
      rfl
  obtain ⟨ph, hph⟩ := ht d.hdl
  have hopen : ∃ e, Tracks w d.hdl (.opened e) := by
    rcases hmem with hmem | hmem
    · rw [hph.plain.1 hmem] at hph
      exact ⟨_, hph⟩
    · rw [hph.tls.1 hmem] at hph
      exact ⟨_, hph⟩
  obtain ⟨e, he⟩ := hopen
  rw [heq]
  exact he.sent opcode payload

end Broadcast

/-- What is dispatched opens the connections of tracked sends, on one endpoint each. -/
theorem openedOn_of_tracks {e : Endpoint} (horder : InOrder bs) (hsub : as ⊆ bs)
    (hphase : phase hdl as = some ph) (ht : Tracks w hdl ph) (he : Tracks w hdl (.opened e)) :
    OpenedOn bs e hdl := by
  obtain rfl := ht.eq_opened he
  exact openedOn_of_mem horder (hsub (((phase_history hphase).1 e).2 rfl))

/-- **Every send and every broadcast goes to where its destination was opened.** -/
theorem sends_routed (hrun : Transition.Run Step init tr w)
    (horder : InOrder (pushed (tr.map Prod.snd))) :
    (∀ p ∈ tr, ∀ d ∈ p.1.sends p.2, OpenedOn (pushed (tr.map Prod.snd)) d.endpoint d.hdl) ∧
    ∀ {α : Type} (opcode : Opcode) (payload : α),
      (∀ d ∈ broadcastAs opcode w payload,
        OpenedOn (pushed (tr.map Prod.snd)) d.endpoint d.hdl) ∧
      ((broadcastAs opcode w payload).map Delivery.hdl).Nodup ∧
      ∀ hdl, hdl ∈ (broadcastAs opcode w payload).map Delivery.hdl ↔
        (∃ e, opens e hdl ∈ dispatched (tr.map Prod.snd)) ∧
          .unsubscribe hdl ∉ dispatched (tr.map Prod.snd) := by
  have hdispatched := dispatched_prefix_pushed hrun
  have hphase := horder.of_isPrefix hdispatched
  have ht : ∀ k, ∃ ph, Tracks w k ph := by
    intro k
    obtain ⟨ph, hph⟩ := hphase k
    exact ⟨ph, tracks hrun hph⟩
  refine ⟨?_, fun opcode payload => ⟨?_, broadcastAs_nodup opcode w payload ht, ?_⟩⟩
  · intro p hmem d hd
    obtain ⟨w', l⟩ := p
    -- The send is of one dispatched action; up to it the run is a run of its own.
    obtain ⟨tr₁, tr₂, rfl, hrun₁⟩ := hrun.before_of_mem hmem
    obtain ⟨env, a, w'', ds, rfl, heffect, hd⟩ := effect_of_mem_sends hd
    have hbefore : dispatched (tr₁.map Prod.snd) ++ [a] <+:
        dispatched ((tr₁ ++ (w', .dispatch env a) :: tr₂).map Prod.snd) := by
      simp [dispatched, Label.dispatched?]
    -- That action is in order too, so every connection has a phase before and after it.
    have ht₁ : ∀ k, ∃ ph ph', Tracks w' k ph ∧ nextPhase k ph a = some ph' := by
      intro k
      obtain ⟨ph', hph'⟩ := hphase.of_isPrefix hbefore k
      obtain ⟨ph, hph, hnext⟩ := phase_snoc.1 hph'
      exact ⟨ph, ph', tracks hrun₁ hph, hnext⟩
    have hreg := (signal_reachable ⟨tr₁, hrun₁⟩).registered
    obtain ⟨ph, hph⟩ := (hphase.of_isPrefix hbefore).of_isPrefix (List.prefix_append _ _) d.hdl
    have hsub : dispatched (tr₁.map Prod.snd) ⊆
        pushed ((tr₁ ++ (w', .dispatch env a) :: tr₂).map Prod.snd) :=
      (((List.prefix_append _ _).trans hbefore).trans hdispatched).subset
    exact openedOn_of_tracks horder hsub hph (tracks hrun₁ hph)
      (heffect.sends_tracked hreg ht₁ hd)
  · intro d hd
    obtain ⟨ph, hph⟩ := hphase d.hdl
    exact openedOn_of_tracks horder hdispatched.subset hph (tracks hrun hph)
      (broadcastAs_tracked opcode w payload ht hd)
  · intro k
    obtain ⟨ph, hph⟩ := hphase k
    -- A connection is in the list of one endpoint from its open to its close.
    obtain ⟨hplain, htls⟩ := (tracks hrun hph).listed_iff hph
    rw [mem_broadcastAs_hdl, hplain, htls, ← or_and_right]
    refine and_congr_left fun _ => ⟨?_, ?_⟩
    · rintro (hopen | hopen)
      · exact ⟨.plain, hopen⟩
      · exact ⟨.tls, hopen⟩
    · intro h
      obtain ⟨e, hopen⟩ := h
      cases e with
      | plain => exact .inl hopen
      | tls => exact .inr hopen

/-- The message goes to connection 1 on the endpoint it was opened on, not on that of the sender; and
after the close a broadcast reaches connection 2 only. -/
theorem sends_routed_oneClosed :
    (∃ p ∈ oneClosedRun, ∃ d ∈ p.1.sends p.2, d.hdl = 1 ∧
      d.payload = .object messageText.members ∧
      OpenedOn (pushed (oneClosedRun.map Prod.snd)) d.endpoint 1) ∧
    2 ∈ (broadcast oneClosed ()).map Delivery.hdl ∧
    1 ∉ (broadcast oneClosed ()).map Delivery.hdl := by
  have hmessage : Request.ofText messageText.text =
      .ok (.message (.object messageText.members) 0 (.ok none)) := messageText.request
  let held : WebsocketServer ℕ :=
    { signedIn with loop := .holding (.message 2 ⟨.text, messageText.text⟩) }
  obtain ⟨hsends, hbroadcast⟩ := sends_routed oneClosed_run oneClosed_inOrder
  obtain ⟨-, -, haddressed⟩ := hbroadcast .text ()
  have hmem : (held, .dispatch Env.plain (.message 2 ⟨.text, messageText.text⟩)) ∈ oneClosedRun := by
    simp [oneClosedRun, handled, held]
  have hsent : held.send (.object messageText.members) 1 ∈
      held.sends (.dispatch Env.plain (.message 2 ⟨.text, messageText.text⟩)) := by
    rw [sends_text hmessage (message_ends _ _ _ _ _ _)]
    exact List.mem_singleton.2 rfl
  refine ⟨⟨_, hmem, _, hsent, rfl, rfl, hsends _ hmem _ hsent⟩, ?_, ?_⟩
  · exact (haddressed 2).2 ⟨⟨.tls, by decide⟩, by decide⟩
  · intro hone
    exact absurd (by decide) ((haddressed 1).1 hone).2

/-- A broadcast misses a connection that is open but whose open waits in the queue. -/
theorem open_missed : Transition.Run Step init twoOpensRun twoOpens ∧
    InOrder (pushed (twoOpensRun.map Prod.snd)) ∧ twoOpens.loop = .waiting ∧
    opens .plain 2 ∈ pushed (twoOpensRun.map Prod.snd) ∧
    .unsubscribe 2 ∉ pushed (twoOpensRun.map Prod.snd) ∧
    2 ∉ (broadcast twoOpens ()).map Delivery.hdl := by
  refine ⟨twoOpens_run, twoOpens_inOrder, rfl, by decide, by decide, ?_⟩
  rw [broadcast, mem_broadcastAs_hdl]
  simp [twoOpens, init]

end WebsocketServer

end WsSignalServer
