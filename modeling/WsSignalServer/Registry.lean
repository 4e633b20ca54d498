import WsSignalServer.General.Index
import WsSignalServer.General.Directory
import WsSignalServer.Requests

/-!
# The registry

`m_map_peers` is keyed by connection, clients address each other by id, and every lookup by id
takes the first entry it meets. `Registered` is what makes that sound: ids are distinct, lie in
`[0, INT_MAX)`, and every entry is filed under its own handle. Each call preserves it
(`Step.registered`), so the registry and `GetConnectionFromID` are the two directions of one
partial bijection between handles and ids (`Registered.directory`), in every state reached
(`registry_consistent`).

As a directory the registry changes by joins and departures only (`directory_step`). An id
handed out therefore leads to its connection until that connection signs in again, signs out or
closes (`id_kept`).
-/

namespace WsSignalServer

open Std General Json Json.ObjectValues

variable {H : Type} [LinearOrder H] {s s' : SignalServer H}

structure Registered (s : SignalServer H) : Prop where
  distinct : KeyedBy Peer.id s.mapPeers
  own : ∀ (k : H) (p : Peer H), s.mapPeers[k]? = some p → p.hdl = k
  range : ∀ (k : H) (p : Peer H), s.mapPeers[k]? = some p → 0 ≤ p.id ∧ p.id < maxInt
  last : -1 ≤ s.lastId ∧ s.lastId < maxInt

theorem Registered.init : Registered (SignalServer.init : SignalServer H) where
  distinct := KeyedBy.empty
  own k p h := by
    rw [SignalServer.init, ExtTreeMap.getElem?_empty] at h
    cases h
  range k p h := by
    rw [SignalServer.init, ExtTreeMap.getElem?_empty] at h
    cases h
  last := show (-1 : ℤ) ≤ -1 ∧ (-1 : ℤ) < maxInt by decide

theorem Registered.id_ne (hs : Registered s) (k : H) (p : Peer H) (h : s.mapPeers[k]? = some p) :
    p.id ≠ -1 := by
  have hrange := (hs.range k p h).1
  omega

/-! ## Fresh ids -/

/-- Some registered peer has this id. -/
def SignalServer.Registers (s : SignalServer H) (id : ℤ) : Prop :=
  ∃ (k : H) (p : Peer H), s.mapPeers[k]? = some p ∧ p.id = id

theorem isExistId_eq_false_iff {id : ℤ} :
    s.isExistId id = false ↔ ∀ (k : H) (p : Peer H), s.mapPeers[k]? = some p → p.id ≠ id := by
  simp only [SignalServer.isExistId, List.any_eq_false, Prod.forall,
    ExtTreeMap.mem_toList_iff_getElem?_eq_some, decide_eq_true_eq, ne_eq]

/-- The id of a sign-in is in range and taken by no peer. -/
theorem Registered.freshId_spec (hs : Registered s) {id : ℤ} (h : s.freshId = some id) :
    (0 ≤ id ∧ id < maxInt) ∧
      ∀ (k : H) (p : Peer H), s.mapPeers[k]? = some p → p.id ≠ id := by
  have hstart := wrap_mem (N := maxInt) hs.last.1 (by decide)
  obtain ⟨hrange, hfree⟩ := runWhile_wrap_mem hstart.1 hstart.2 h
  exact ⟨hrange, isExistId_eq_false_iff.1 hfree⟩

/-- Fewer than `INT_MAX` peers leave an id free. -/
theorem exists_freshId (h₀ : -1 ≤ s.lastId) (hsize : (s.mapPeers.size : ℤ) < maxInt) :
    ∃ id, s.freshId = some id := by
  obtain ⟨hw₀, hwN⟩ := wrap_mem (N := maxInt) h₀ (by decide)
  obtain ⟨j, hj₀, hj, hfree⟩ := exists_unused (f := Peer.id) (m := s.mapPeers) hsize
  exact exists_runWhile_wrap hw₀ hwN hj₀ hj (isExistId_eq_false_iff.2 hfree)

/-- **`NextID` ends unless every id is taken.** -/
theorem Registered.freshId_eq_none_iff (hs : Registered s) :
    s.freshId = none ↔ maxInt ≤ s.mapPeers.size := by
  constructor
  · intro hnone
    by_contra hsize
    obtain ⟨id, hid⟩ := exists_freshId hs.last.1 (Int.not_le.1 hsize)
    rw [hid] at hnone
    cases hnone
  · intro hsize
    cases hid : s.freshId with
    | none => rfl
    | some id =>
      obtain ⟨⟨hid₀, hidN⟩, hfree⟩ := hs.freshId_spec hid
      obtain ⟨k, p, hp, hpid⟩ := hs.distinct.exists_of_size_ge hs.range hsize hid₀ hidN
      exact absurd hpid (hfree k p hp)

/-- Then no number of rounds ends the loop. -/
theorem Registered.nextID_spins (hs : Registered s) (h : s.freshId = none) (rounds : ℕ) :
    runWhile s.isExistId (wrap maxInt) rounds (wrap maxInt s.lastId) = none := by
  have hstart := wrap_mem (N := maxInt) hs.last.1 (by decide)
  exact runWhile_diverges (by decide) (wrap_iterate_cycle hstart.1 hstart.2) h rounds

/-! ## Every call keeps the registry -/

theorem Registered.signIn (hs : Registered s) (hdl : H) (name : Str) {id : ℤ}
    (h : s.freshId = some id) : Registered (s.signIn hdl name id) := by
  obtain ⟨hrange, hfree⟩ := hs.freshId_spec h
  have hlast : -1 ≤ id := by omega
  refine ⟨hs.distinct.insert fun k p hp _ => hfree k p hp, ?_, ?_, hlast, hrange.2⟩
  · intro k p hp
    rcases getElem?_insert_iff.1 hp with ⟨rfl, rfl⟩ | ⟨-, hp⟩
    · rfl
    · exact hs.own k p hp
  · intro k p hp
    rcases getElem?_insert_iff.1 hp with ⟨rfl, rfl⟩ | ⟨-, hp⟩
    · exact hrange
    · exact hs.range k p hp

theorem Registered.leave (hs : Registered s) (hdl : H) (id : ℤ) : Registered (s.leave hdl id) where
  distinct := hs.distinct.erase hdl
  own k p hp := hs.own k p (getElem?_erase_iff.1 hp).2
  range k p hp := hs.range k p (getElem?_erase_iff.1 hp).2
  last := hs.last

theorem Registered.record (hs : Registered s) (p : Pair) : Registered (s.record p) :=
  ⟨hs.distinct, hs.own, hs.range, hs.last⟩

/-- A call that ends applies the change of its event. -/
theorem Step.eq_apply {e : Event H} (hs : Registered s) (h : Step s e s') :
    s' = s.apply (e.change s) := by
  rw [h.2, e.outcome_server hs.id_ne]

/-- The connection whose entry a change may touch. -/
def Change.hdl? : Change H → Option H
  | .signIn hdl _ _ | .leave hdl _ => some hdl
  | .stay | .record _ => none

/-- The connection an event comes from. -/
def Event.hdl : Event H → H
  | .receive _ hdl _ | .close _ hdl => hdl

theorem apply_other {c : Change H} {k : H} (h : c.hdl? ≠ some k) :
    (s.apply c).mapPeers[k]? = s.mapPeers[k]? := by
  cases c with
  | stay => rfl
  | record p => rfl
  | signIn hdl name id => exact getElem?_insert_of_ne fun hk => h (congrArg some hk.symm)
  | leave hdl id => exact getElem?_erase_of_ne fun hk => h (congrArg some hk.symm)

/-- An event touches no entry but its own connection's. -/
theorem Event.change_hdl? (s : SignalServer H) (e : Event H) {k : H}
    (h : (e.change s).hdl? = some k) : e.hdl = k := by
  cases hc : e.change s with
  | signIn hdl name id =>
    obtain ⟨-, env, message, nolist, rfl, -⟩ := Event.change_signIn hc
    rw [hc] at h
    exact Option.some.inj h
  | leave hdl id =>
    rw [hc] at h
    rcases Event.change_leave hc with ⟨env, message, rfl, -⟩ | ⟨env, p, rfl, -, -⟩
    · exact Option.some.inj h
    · exact Option.some.inj h
  | stay => rw [hc] at h; cases h
  | record p => rw [hc] at h; cases h

/-- **Registrations are isolated**: a call leaves the entries of other connections alone. -/
theorem Step.other_entry {e : Event H} {k : H} (hs : Registered s) (h : Step s e s')
    (hk : e.hdl ≠ k) : s'.mapPeers[k]? = s.mapPeers[k]? := by
  rw [h.eq_apply hs]
  exact apply_other fun hc => hk (Event.change_hdl? s e hc)

theorem Step.close_entry {env : Env H} {hdl : H} (hs : Registered s)
    (h : Step s (.close env hdl) s') : s'.mapPeers[hdl]? = none := by
  rw [h.eq_apply hs]
  show (s.apply (closeChange hdl s.mapPeers[hdl]?)).mapPeers[hdl]? = none
  cases hpeer : s.mapPeers[hdl]? with
  | none => exact hpeer
  | some p => exact ExtTreeMap.getElem?_erase_self

theorem Step.registered {e : Event H} (hs : Registered s) (h : Step s e s') : Registered s' := by
  rw [h.eq_apply hs]
  cases hc : e.change s with
  | stay => exact hs
  | signIn hdl name id => exact hs.signIn hdl name (Event.change_signIn hc).1
  | leave hdl id => exact hs.leave hdl id
  | record p => exact hs.record p

theorem Reachable.registered (h : Reachable s) : Registered s :=
  h.invariant (fun _ _ _ hs hstep => hstep.registered hs) .init

/-! ## Handles and ids -/

/-- The registry as a directory: `GetConnectionFromID` is its other direction. -/
def Registered.directory (hs : Registered s) : H ≃. ℤ := hs.distinct.index

theorem Registered.directory_eq_some_iff (hs : Registered s) {k : H} {id : ℤ} :
    hs.directory k = some id ↔ ∃ p, s.mapPeers[k]? = some p ∧ p.id = id :=
  Option.map_eq_some_iff

/-- **Lookup by id inverts the registry**, whatever the order of the map. -/
theorem Registered.getConnectionFromID_eq_some_iff (hs : Registered s) {k : H} {id : ℤ} :
    s.getConnectionFromID id = some k ↔ ∃ p, s.mapPeers[k]? = some p ∧ p.id = id :=
  hs.distinct.firstKey_eq_some_iff

theorem getConnectionFromID_eq_none_iff {id : ℤ} : s.getConnectionFromID id = none ↔
    ∀ (k : H) (p : Peer H), s.mapPeers[k]? = some p → p.id ≠ id := by
  simp only [SignalServer.getConnectionFromID, firstKey_eq_none_iff, decide_eq_false_iff_not, ne_eq]

/-- **The registry is consistent in every reachable state.** No bound on the number of
connections is needed: with every id taken a sign-in does not end, so it reaches no state. -/
theorem registry_consistent (hs : Reachable s) :
    (∀ (k k' : H) (p p' : Peer H), s.mapPeers[k]? = some p → s.mapPeers[k']? = some p' →
      k ≠ k' → p.id ≠ p'.id) ∧
    (∀ (k : H) (p : Peer H), s.mapPeers[k]? = some p →
      0 ≤ p.id ∧ p.id < maxInt ∧ p.hdl = k) ∧
    (-1 ≤ s.lastId ∧ s.lastId < maxInt) ∧
    (∀ (i : ℤ) (k : H), s.getConnectionFromID i = some k ↔
      ∃ p, s.mapPeers[k]? = some p ∧ p.id = i) ∧
    (∀ i : ℤ, s.getConnectionFromID i = none ↔
      ∀ (k : H) (p : Peer H), s.mapPeers[k]? = some p → p.id ≠ i) := by
  have hreg := hs.registered
  refine ⟨?_, ?_, hreg.last, ?_, ?_⟩
  · intro k k' p p' hp hp' hne hid
    exact hne (hreg.distinct k k' p p' hp hp' hid)
  · intro k p hp
    obtain ⟨h₀, hN⟩ := hreg.range k p hp
    exact ⟨h₀, hN, hreg.own k p hp⟩
  · intro i k
    exact hreg.getConnectionFromID_eq_some_iff
  · intro i
    exact getConnectionFromID_eq_none_iff

/-- A client that signs in as `a`. -/
def signInText : ObjectText where
  text := "\x7b\"signal\":\"sign_in\",\"name\":\"a\"\x7d".toList
  members := [(kName, .string "a".toList), (kSignal, .string kSignIn)]
  parse := by decide +kernel

theorem signInText_request : Request.ofText signInText.text = .ok (.signIn "a".toList false) :=
  signInText.request

/-- The environment of a server started by `main`, with no handle expired. -/
def Env.plain : Env ℕ := ⟨ICE.default, fun _ => false⟩

/-- The server after connection 1 signed in. -/
def onePeer : SignalServer ℕ := SignalServer.init.signIn 1 "a".toList 0

theorem onePeer_step : Step .init (.receive .plain 1 signInText.text) onePeer :=
  .signIn signInText_request rfl

theorem onePeer_reachable : Reachable onePeer := Transition.Reachable.refl.snoc onePeer_step

/-- Connections 2 and 3 sign in after connection 1. -/
def twoPeers : SignalServer ℕ := onePeer.signIn 2 "a".toList 1

def threePeers : SignalServer ℕ := twoPeers.signIn 3 "a".toList 2

theorem twoPeers_step : Step onePeer (.receive .plain 2 signInText.text) twoPeers :=
  .signIn signInText_request rfl

theorem threePeers_step : Step twoPeers (.receive .plain 3 signInText.text) threePeers :=
  .signIn signInText_request rfl

theorem twoPeers_reachable : Reachable twoPeers := onePeer_reachable.snoc twoPeers_step

theorem threePeers_reachable : Reachable threePeers := twoPeers_reachable.snoc threePeers_step

/-- Three connections share a name, but no two an id. -/
theorem registry_consistent_three : ∃ s : SignalServer ℕ, Reachable s ∧
    (∀ (k k' : ℕ) (p p' : Peer ℕ), s.mapPeers[k]? = some p → s.mapPeers[k']? = some p' →
      k ≠ k' → p.id ≠ p'.id) ∧
    s.getConnectionFromID 1 = some 2 ∧ s.getConnectionFromID 2 = some 3 ∧
    s.getConnectionFromID 3 = none := by
  obtain ⟨hdistinct, -, -, hsome, -⟩ := registry_consistent threePeers_reachable
  have h₂ : threePeers.mapPeers[2]? = some ⟨1, 2, "a".toList⟩ := by decide
  have h₃ : threePeers.mapPeers[3]? = some ⟨2, 3, "a".toList⟩ := by decide
  exact ⟨threePeers, threePeers_reachable, hdistinct, (hsome 1 2).2 ⟨_, h₂, rfl⟩,
    (hsome 2 3).2 ⟨_, h₃, rfl⟩, by decide⟩

/-! ## An id is kept -/

/-- The change of the directory behind a change of the members. -/
def Change.toDirectory : Change H → Directory.Change H ℤ
  | .signIn hdl _ id => .join hdl id
  | .leave hdl _ => .leave hdl
  | .stay | .record _ => .stay

/-- **The registry refines a directory**: each call is one join, one departure, or neither. -/
theorem directory_step {e : Event H} (hs : Registered s) (h : Step s e s') :
    Directory.Step hs.directory (e.change s).toDirectory (h.registered hs).directory := by
  have hs' := h.registered hs
  have heq := h.eq_apply hs
  cases hc : e.change s with
  | stay =>
    rw [hc] at heq
    subst heq
    exact .stay
  | record p =>
    rw [hc] at heq
    subst heq
    exact .stay
  | signIn hdl name id =>
    rw [hc] at heq
    subst heq
    obtain ⟨-, hfree⟩ := hs.freshId_spec (Event.change_signIn hc).1
    refine .join ?_ ?_ ?_
    · intro k hk
      obtain ⟨p, hp, hid⟩ := hs.directory_eq_some_iff.1 hk
      exact absurd hid (hfree k p hp)
    · exact hs'.directory_eq_some_iff.2
        ⟨⟨id, hdl, name⟩, getElem?_insert_iff.2 (.inl ⟨rfl, rfl⟩), rfl⟩
    · intro k hk
      exact congrArg (Option.map Peer.id) (getElem?_insert_of_ne hk)
  | leave hdl id =>
    rw [hc] at heq
    subst heq
    refine .leave ?_ ?_
    · show ((s.mapPeers.erase hdl)[hdl]?).map Peer.id = none
      rw [ExtTreeMap.getElem?_erase_self, Option.map_none]
    · intro k hk
      exact congrArg (Option.map Peer.id) (getElem?_erase_of_ne hk)

/-- Connection `hdl` completes a sign-in. -/
def Event.SignsIn (hdl : H) : Event H → Prop
  | .receive _ hdl' message =>
    hdl' = hdl ∧ ∃ name nolist, Request.ofText message = .ok (.signIn name nolist)
  | .close _ _ => False

/-- Connection `hdl` signs out or closes. -/
def Event.SignsOff (hdl : H) : Event H → Prop
  | .receive _ hdl' message => hdl' = hdl ∧ ∃ id, Request.ofText message = .ok (.signOut id)
  | .close _ hdl' => hdl' = hdl

/-- Only these events change the entry of a connection. -/
theorem event_of_change {e : Event H} {hdl : H} (h : (e.change s).toDirectory.Of hdl) :
    e.SignsIn hdl ∨ e.SignsOff hdl := by
  cases hc : e.change s with
  | signIn hdl' name id =>
    rw [hc] at h
    obtain ⟨-, env, message, nolist, rfl, hreq⟩ := Event.change_signIn hc
    exact .inl ⟨h, name, nolist, hreq⟩
  | leave hdl' id =>
    rw [hc] at h
    rcases Event.change_leave hc with ⟨env, message, rfl, hreq⟩ | ⟨env, p, rfl, -, -⟩
    · exact .inr ⟨h, id, hreq⟩
    · exact .inr h
  | stay => rw [hc] at h; cases h
  | record p => rw [hc] at h; cases h

/-- Whatever other events happen, an id keeps leading to its connection. -/
theorem getConnectionFromID_kept {hdl : H} {i : ℤ} {tr : List (SignalServer H × Event H)}
    (hs : Registered s) (hrun : Transition.Run Step s tr s')
    (hkeep : ∀ p ∈ tr, ¬ p.2.SignsIn hdl ∧ ¬ p.2.SignsOff hdl)
    (hi : s.getConnectionFromID i = some hdl) :
    s'.getConnectionFromID i = some hdl := by
  -- Only the labels of the directory's run matter, and they are the events' changes.
  obtain ⟨atr, d, harun, ⟨hs', rfl⟩, hlabels⟩ := hrun.simulate
    (R := fun s d => ∃ hs : Registered s, d = hs.directory)
    (g := fun p => (p.2.change p.1).toDirectory)
    (by rintro s e s' _ ⟨hs, rfl⟩ hstep
        exact ⟨_, directory_step hs hstep, hstep.registered hs, rfl⟩)
    ⟨hs, rfl⟩
  refine Directory.address_kept harun ?_ hi
  intro q hq hof
  have hlabel : q.2 ∈ tr.map fun p => (p.2.change p.1).toDirectory :=
    hlabels ▸ List.mem_map_of_mem hq
  obtain ⟨p, hp, hpq⟩ := List.mem_map.1 hlabel
  exact not_or.2 (hkeep p hp) (event_of_change (hpq ▸ hof))

/-- The ICE server in the reply has a member of its own. -/
theorem signInReply_lookup (ice : ICE) (id : ℤ) (name : Str) (sameId : ℤ) {key : Str}
    (h : key ≠ "ice".toList) : (signInReply ice id name sameId).lookup key =
      (signInReply ⟨[], [], []⟩ id name sameId).lookup key := by
  unfold signInReply
  by_cases huri : ice.uri ≠ []
  · rw [if_pos huri, lookup_put, if_neg h]
    rfl
  · rw [if_neg huri]
    rfl

/-- The reply to a sign-in carries the id. -/
theorem signInReply_id (ice : ICE) (id : ℤ) (name : Str) (sameId : ℤ) :
    (signInReply ice id name sameId).lookup kID = some (.int id) := by
  rw [signInReply_lookup ice id name sameId (by decide)]
  rfl

/-- A sign-in sends its connection one reply: `signInReply`, and with it the list of peers, unless
none was asked for. -/
theorem signIn_reply (env : Env H) (hdl : H) {message name : Str} {nolist : Bool} {id : ℤ}
    (hrequest : Request.ofText message = .ok (.signIn name nolist)) (hid : s.freshId = some id) :
    ∃ reply, ((Event.receive env hdl message).outcome s).sent = [⟨.object reply, hdl⟩] ∧
      (∀ key, key ≠ "peers".toList → reply.lookup key =
        (signInReply env.iceServer id name (s.isExistName name)).lookup key) ∧
      (nolist = false → reply.lookup "peers".toList = some s.peerList) := by
  rw [receive_outcome_of_request hrequest]
  simp only [Request.outcome, hid]
  refine ⟨_, rfl, ?_, ?_⟩
  · intro key hkey
    split_ifs
    · rfl
    · rw [lookup_put, if_neg hkey]
  · intro hlist
    rw [hlist, if_neg (by decide), lookup_put, if_pos rfl]

/-- A sign-in replies to its connection with the id it registers. -/
theorem signIn_sent (env : Env H) (hdl : H) {message name : Str} {nolist : Bool} {id : ℤ}
    (hrequest : Request.ofText message = .ok (.signIn name nolist)) (hid : s.freshId = some id) :
    ∃ reply, ((Event.receive env hdl message).outcome s).sent = [⟨.object reply, hdl⟩] ∧
      reply.lookup kID = some (.int id) := by
  obtain ⟨reply, hsent, hlookup, -⟩ := signIn_reply env hdl hrequest hid
  refine ⟨reply, hsent, ?_⟩
  rw [hlookup kID (by decide), signInReply_id]

theorem deliver_of_lookup {env : Env H} {hdl : H} {id : ℤ} (h : s.getConnectionFromID id = some hdl)
    (hlive : env.expired hdl = false) (text : Value) : s.deliver env id text = [⟨text, hdl⟩] := by
  simp only [SignalServer.deliver, h, hlive]
  rfl

theorem mem_deliver_iff {env : Env H} {id : ℤ} {text : Value} {m : Sent H} :
    m ∈ s.deliver env id text ↔
      ∃ k, s.getConnectionFromID id = some k ∧ env.expired k = false ∧ m = ⟨text, k⟩ := by
  unfold SignalServer.deliver
  cases s.getConnectionFromID id with
  | none => simp
  | some k =>
    by_cases hexp : env.expired k = true
    · simp [hexp]
    · simp [hexp]

theorem length_deliver (s : SignalServer H) (env : Env H) (id : ℤ) (text : Value) :
    (s.deliver env id text).length ≤ 1 := by
  unfold SignalServer.deliver
  split
  · split_ifs
    · exact Nat.zero_le 1
    · exact Nat.le_refl 1
  · exact Nat.zero_le 1

/-- **A handed-out id keeps leading to its connection.** Once a sign-in on `hdl` has replied
with the id `i`, in every later state up to the next completed sign-in on `hdl`, sign-out from
`hdl` or close of `hdl`, the id leads to `hdl` and a message to it reaches `hdl`. -/
theorem id_kept {s₀ s₁ : SignalServer H} {env : Env H} {hdl : H} {message name : Str}
    {nolist : Bool} {reply : ObjectValues} {i : ℤ} {tr : List (SignalServer H × Event H)}
    (h₀ : Reachable s₀) (hsignIn : Step s₀ (.receive env hdl message) s₁)
    (hrequest : Request.ofText message = .ok (.signIn name nolist))
    (hreply : ⟨.object reply, hdl⟩ ∈ ((Event.receive env hdl message).outcome s₀).sent)
    (hid : reply.lookup kID = some (.int i))
    (hrun : Transition.Run Step s₁ tr s)
    (hkeep : ∀ p ∈ tr, ¬ p.2.SignsIn hdl ∧ ¬ p.2.SignsOff hdl) :
    s.getConnectionFromID i = some hdl ∧
      ∀ (env' : Env H) (sender : H) (text : Str) (value : Value)
        (offer : Except Exception (Option ℤ)),
        Request.ofText text = .ok (.message value i offer) → env'.expired hdl = false →
        ((Event.receive env' sender text).outcome s).sent = [⟨value, hdl⟩] := by
  have hreg := h₀.registered
  have hlookup : s.getConnectionFromID i = some hdl := by
    obtain ⟨id, hfresh, rfl⟩ := hsignIn.freshId hrequest
    obtain ⟨reply', hsent, hreplyId⟩ := signIn_sent env hdl hrequest hfresh
    rw [hsent] at hreply
    have hobject := congrArg Sent.text (List.mem_singleton.1 hreply)
    rw [← Value.object.inj hobject, hid] at hreplyId
    obtain rfl : i = id := Value.int.inj (Option.some.inj hreplyId)
    refine getConnectionFromID_kept (hsignIn.registered hreg) hrun hkeep ?_
    rw [(hsignIn.registered hreg).getConnectionFromID_eq_some_iff]
    exact ⟨⟨i, hdl, name⟩, getElem?_insert_iff.2 (.inl ⟨rfl, rfl⟩), rfl⟩
  refine ⟨hlookup, ?_⟩
  intro env' sender text value offer htext hlive
  rw [receive_outcome, htext]
  exact (Request.message_sent env' sender s value i offer).trans
    (deliver_of_lookup hlookup hlive value)

/-- The reply to the first sign-in. -/
def signInAnswer : ObjectValues :=
  put "peers".toList .null (signInReply ICE.default 0 "a".toList (-1))

theorem signInAnswer_sent : ⟨.object signInAnswer, 1⟩ ∈
    ((Event.receive Env.plain 1 signInText.text).outcome .init).sent := by
  rw [receive_outcome_of_request signInText_request]
  exact List.mem_singleton.2 rfl

/-- Connection 1 keeps its id while connection 2 signs in and closes. -/
theorem id_kept_first : ∃ s₁ s : SignalServer ℕ,
    Step .init (.receive .plain 1 signInText.text) s₁ ∧ s.getConnectionFromID 0 = some 1 := by
  let s₂ := onePeer.signIn 2 "a".toList 1
  let s₃ := ((Event.close Env.plain 2).outcome s₂).server
  have h₂ : Step onePeer (.receive .plain 2 signInText.text) s₂ :=
    .signIn signInText_request rfl
  have h₃ : Step s₂ (.close .plain 2) s₃ := .close
  refine ⟨onePeer, s₃, onePeer_step, (id_kept .refl onePeer_step signInText_request
    signInAnswer_sent (by decide) ((Transition.Run.nil.snoc h₂).snoc h₃) ?_).1⟩
  intro p hp
  rcases List.mem_append.1 hp with hp | hp
  · obtain rfl := List.mem_singleton.1 hp
    exact ⟨fun h => absurd h.1 (by decide), fun h => absurd h.1 (by decide)⟩
  · obtain rfl := List.mem_singleton.1 hp
    exact ⟨id, fun h => absurd h (by decide : ¬ 2 = 1)⟩

/-- A second sign-in on a connection moves it to another id. -/
theorem id_moved : ¬ ∀ (s₀ s₁ s : SignalServer ℕ) (env : Env ℕ) (hdl : ℕ) (message name : Str)
    (nolist : Bool) (reply : ObjectValues) (i : ℤ) (tr : List (SignalServer ℕ × Event ℕ)),
    Reachable s₀ → Step s₀ (.receive env hdl message) s₁ →
    Request.ofText message = .ok (.signIn name nolist) →
    ⟨.object reply, hdl⟩ ∈ ((Event.receive env hdl message).outcome s₀).sent →
    reply.lookup kID = some (.int i) → Transition.Run Step s₁ tr s →
    (∀ p ∈ tr, ¬ p.2.SignsOff hdl) → s.getConnectionFromID i = some hdl := by
  intro hclaim
  let s₂ := onePeer.signIn 1 "a".toList 1
  have h₂ : Step onePeer (.receive .plain 1 signInText.text) s₂ :=
    .signIn signInText_request rfl
  have hkept : s₂.getConnectionFromID 0 = some 1 := by
    refine hclaim _ _ _ _ _ _ _ _ _ 0 _ .refl onePeer_step signInText_request signInAnswer_sent
      (by decide) (Transition.Run.nil.snoc h₂) ?_
    intro p hp
    obtain rfl := List.mem_singleton.1 hp
    intro h
    obtain ⟨-, id, hid⟩ := h
    rw [signInText_request] at hid
    cases hid
  exact absurd hkept (by decide)

end WsSignalServer
