import WsSignalServer.Registry

/-!
# Sign-ins

A sign-in replaces the entry of its connection and replies with the id it registered. No other
connection is touched, whatever ids and names the text holds: `m_map_peers` is only ever written
at the handle a call came from. So the entry of a connection is what its own last sign-in,
sign-out or close left (`registrations_isolated`).

**Theorem (`ids_in_order`).** Up to the `INT_MAX`-th, the k-th sign-in gets the id k - 1. The ids in
use stay below the number of sign-ins so far, which is the id `NextID` tries first, so its loop
never takes a step. No id is given out twice, not even after its owner has left.

**Theorem (`spins_iff`).** The loop of `NextID` is the one thing that can keep a call from returning,
and it does so exactly when there are `INT_MAX` peers.
-/

namespace WsSignalServer

open Std General Json Json.ObjectValues

variable {H : Type} [LinearOrder H] {s s' : SignalServer H}

/-! ## The id in the reply -/

/-- The id in the one message a sign-in sends. -/
def Outcome.repliedId (o : Outcome H) : Option ℤ :=
  match o.sent with
  | [⟨.object reply, _⟩] =>
    match reply.lookup kID with
    | some (.int id) => some id
    | _ => none
  | _ => none

theorem signIn_repliedId {env : Env H} {hdl : H} {message name : Str} {nolist : Bool} {id : ℤ}
    (hrequest : Request.ofText message = .ok (.signIn name nolist)) (hid : s.freshId = some id) :
    ((Event.receive env hdl message).outcome s).repliedId = some id := by
  obtain ⟨reply, hsent, hreply⟩ := signIn_sent env hdl hrequest hid
  simp only [Outcome.repliedId, hsent, hreply]

/-! ## Isolation -/

/-- What a connection does to its entry. -/
inductive EntryChange where
  | signedIn (name : Str) (id : ℤ)
  | left
  deriving DecidableEq, Repr

/-- The entry it leaves. -/
def EntryChange.entry (hdl : H) : EntryChange → Option (Peer H)
  | .signedIn name id => some ⟨id, hdl, name⟩
  | .left => none

def entryChangeOf (repliedId : Option ℤ) : Except Exception Request → Option EntryChange
  | .ok (.signIn name _) => repliedId.map (.signedIn name)
  | .ok (.signOut _) => some .left
  | _ => none

/-- What an event does to the entry of its connection, by its text and the id in the reply. -/
def Event.entryChange (repliedId : Option ℤ) : Event H → Option EntryChange
  | .receive _ _ message => entryChangeOf repliedId (Request.ofText message)
  | .close _ _ => some .left

/-- What the events of a connection do to its entry, with the ids in the replies. -/
def entryChanges (hdl : H) (tr : List (SignalServer H × Event H)) : List EntryChange :=
  (tr.filter fun p => p.2.hdl = hdl).filterMap fun p =>
    p.2.entryChange (p.2.outcome p.1).repliedId

/-- The entry of a connection after an event of its own. -/
theorem Step.own_entry {e : Event H} (hs : Registered s) (h : Step s e s') :
    s'.mapPeers[e.hdl]? = match e.entryChange (e.outcome s).repliedId with
      | some c => c.entry e.hdl
      | none => s.mapPeers[e.hdl]? := by
  cases e with
  | close env hdl => exact h.close_entry hs
  | receive env hdl message =>
    have heq : s' = s.apply (changeOf s hdl (Request.ofText message)) := h.eq_apply hs
    show s'.mapPeers[hdl]? = match entryChangeOf _ (Request.ofText message) with
      | some c => c.entry hdl
      | none => s.mapPeers[hdl]?
    cases hreq : Request.ofText message with
    | error ex =>
      rw [heq, hreq]
      rfl
    | ok request =>
      rw [hreq] at heq
      cases request with
      | signIn name nolist =>
        obtain ⟨id, hid, rfl⟩ := h.freshId hreq
        rw [signIn_repliedId hreq hid]
        exact ExtTreeMap.getElem?_insert_self
      | signOut id =>
        rw [heq]
        exact ExtTreeMap.getElem?_erase_self
      | message value id offer =>
        rw [heq]
        rcases offer with ex | _ | sender <;> rfl
      | _ =>
        rw [heq]
        rfl

theorem entryChanges_snoc (hdl : H) (tr : List (SignalServer H × Event H)) (s : SignalServer H)
    (e : Event H) : entryChanges hdl (tr ++ [(s, e)]) = entryChanges hdl tr ++
      if e.hdl = hdl then (e.entryChange (e.outcome s).repliedId).toList else [] := by
  unfold entryChanges
  by_cases hown : e.hdl = hdl
  · cases hc : e.entryChange (e.outcome s).repliedId <;> simp [hown, hc]
  · simp [hown]

/-- **Registrations are isolated.** A call leaves the entry of every other connection alone,
whether it returns or not. Over a run the entry of a connection is what the last of its own
sign-ins, sign-outs and closes left. -/
theorem registrations_isolated (hs : Reachable s) :
    (∀ (e : Event H) (k : H), e.hdl ≠ k →
      (e.outcome s).server.mapPeers[k]? = s.mapPeers[k]?) ∧
    ∀ (tr : List (SignalServer H × Event H)) (s' : SignalServer H) (k : H),
      Transition.Run Step s tr s' → s'.mapPeers[k]? =
        (entryChanges k tr).foldl (fun _ c => c.entry k) s.mapPeers[k]? := by
  have hreg := hs.registered
  constructor
  · intro e k hk
    rw [e.outcome_server hreg.id_ne]
    exact apply_other fun hc => hk (Event.change_hdl? s e hc)
  · intro tr s' k hrun
    induction hrun with
    | nil => rfl
    | @snoc tr s₁ s₂ e hbefore hstep ih =>
      have hreg₁ : Registered s₁ :=
        hbefore.invariant (fun _ _ _ hr hstep => hstep.registered hr) hreg
      rw [entryChanges_snoc, List.foldl_append, ← ih]
      by_cases hown : e.hdl = k
      · subst hown
        rw [if_pos rfl, hstep.own_entry hreg₁]
        cases e.entryChange (e.outcome s₁).repliedId <;> rfl
      · rw [if_neg hown]
        exact hstep.other_entry hreg₁ hown

/-- Of two peers, connection 1 keeps its entry when connection 2 closes: its own sign-in is the only
change to it. -/
theorem twoPeers_isolated :
    ((Event.close Env.plain 2).outcome twoPeers).server.mapPeers[1]? = twoPeers.mapPeers[1]? ∧
    twoPeers.mapPeers[1]? = some ⟨0, 1, "a".toList⟩ ∧
    ((Event.close Env.plain 2).outcome twoPeers).server.mapPeers[2]? ≠ twoPeers.mapPeers[2]? := by
  have hfirst : (.init : SignalServer ℕ).freshId = some 0 := rfl
  have hsecond : onePeer.freshId = some 1 := rfl
  have hchanges : entryChanges 1 ([] ++ [(.init, .receive .plain 1 signInText.text)] ++
      [(onePeer, .receive .plain 2 signInText.text)]) = [.signedIn "a".toList 0] := by
    rw [entryChanges_snoc, entryChanges_snoc, signIn_repliedId signInText_request hfirst,
      signIn_repliedId signInText_request hsecond]
    show [] ++ (entryChangeOf (some 0) (Request.ofText signInText.text)).toList ++ [] = _
    rw [signInText_request]
    rfl
  have hinit : Reachable (.init : SignalServer ℕ) := .refl
  refine ⟨(registrations_isolated twoPeers_reachable).1 (.close .plain 2) 1 (by decide), ?_, ?_⟩
  · rw [(registrations_isolated hinit).2 _ _ 1 (.snoc (.snoc .nil onePeer_step) twoPeers_step),
      hchanges]
    rfl
  · decide

/-! ## Ids in order -/

def Event.isSignIn : Event H → Bool
  | .receive _ _ message =>
    match Request.ofText message with
    | .ok (.signIn _ _) => true
    | _ => false
  | .close _ _ => false

/-- The number of sign-ins among the events of a run. All of them complete. -/
def signIns (labels : List (Event H)) : ℕ := labels.countP Event.isSignIn

omit [LinearOrder H] in
theorem Event.isSignIn_iff {e : Event H} : e.isSignIn = true ↔ ∃ env hdl message name nolist,
    e = .receive env hdl message ∧ Request.ofText message = .ok (.signIn name nolist) := by
  constructor
  · intro h
    cases e with
    | close env hdl => cases h
    | receive env hdl message =>
      simp only [Event.isSignIn] at h
      split at h
      · exact ⟨env, hdl, message, _, _, rfl, ‹_›⟩
      · cases h
  · intro h
    obtain ⟨env, hdl, message, name, nolist, rfl, hrequest⟩ := h
    simp only [Event.isSignIn, hrequest]

/-- Any other event keeps the counter, and adds no entry. -/
theorem Step.no_signIn {e : Event H} (hs : Registered s) (h : Step s e s')
    (he : e.isSignIn = false) : s'.lastId = s.lastId ∧
      ∀ (k : H) (p : Peer H), s'.mapPeers[k]? = some p → s.mapPeers[k]? = some p := by
  rw [h.eq_apply hs]
  cases hc : e.change s with
  | stay => exact ⟨rfl, fun _ _ hp => hp⟩
  | record q => exact ⟨rfl, fun _ _ hp => hp⟩
  | leave hdl id => exact ⟨rfl, fun _ _ hp => (getElem?_erase_iff.1 hp).2⟩
  | signIn hdl name id =>
    obtain ⟨-, env, message, nolist, rfl, hrequest⟩ := Event.change_signIn hc
    have htrue := Event.isSignIn_iff.2 ⟨env, hdl, message, name, nolist, rfl, hrequest⟩
    rw [htrue] at he
    cases he

/-- After `n` sign-ins the last id is `n - 1`, and no peer has a greater one. -/
structure Counts (n : ℕ) (s : SignalServer H) : Prop where
  last : s.lastId = n - 1
  below : ∀ (k : H) (p : Peer H), s.mapPeers[k]? = some p → p.id < n

/-- So `n` is the id `NextID` tries first, and it is free. -/
theorem Counts.freshId {n : ℕ} (hs : Counts n s) (hn : (n : ℤ) < maxInt) :
    s.freshId = some (n : ℤ) := by
  have hfirst : wrap maxInt s.lastId = n := by
    rw [wrap, hs.last, if_neg (by omega)]
    omega
  have hfree : s.isExistId n = false :=
    isExistId_eq_false_iff.2 fun k p hp => (hs.below k p hp).ne
  rw [SignalServer.freshId, hfirst, runWhile_eq_some_iff]
  exact ⟨0, by decide, rfl, hfree, fun j hj => absurd hj (Nat.not_lt_zero j)⟩

theorem Counts.signIn {n : ℕ} (hs : Counts n s) (hdl : H) (name : Str) :
    Counts (n + 1) (s.signIn hdl name n) := by
  refine ⟨?_, ?_⟩
  · show (n : ℤ) = (n + 1 : ℕ) - 1
    omega
  · intro k p hp
    rcases getElem?_insert_iff.1 hp with ⟨-, rfl⟩ | ⟨-, hp⟩
    · show (n : ℤ) < (n + 1 : ℕ)
      omega
    · have hbelow := hs.below k p hp
      omega

theorem counts {tr : List (SignalServer H × Event H)} (hrun : Transition.Run Step .init tr s)
    (hmax : (signIns (tr.map Prod.snd) : ℤ) ≤ maxInt) : Counts (signIns (tr.map Prod.snd)) s := by
  have hinv := hrun.history (P := fun labels s => Registered s ∧
    ((signIns labels : ℤ) ≤ maxInt → Counts (signIns labels) s)) ?_ ?_
  · exact hinv.2 hmax
  · refine ⟨.init, fun _ => ⟨rfl, fun k p hp => ?_⟩⟩
    rw [SignalServer.init, ExtTreeMap.getElem?_empty] at hp
    cases hp
  · intro labels s e s' hbefore hstep
    obtain ⟨hs, hcounts⟩ := hbefore
    refine ⟨hstep.registered hs, fun hmax => ?_⟩
    cases he : e.isSignIn with
    | false =>
      have hsame : signIns (labels ++ [e]) = signIns labels := by simp [signIns, he]
      rw [hsame] at hmax ⊢
      obtain ⟨hlast, hentries⟩ := hstep.no_signIn hs he
      have hc := hcounts hmax
      exact ⟨hlast.trans hc.last, fun k p hp => hc.below k p (hentries k p hp)⟩
    | true =>
      have hmore : signIns (labels ++ [e]) = signIns labels + 1 := by simp [signIns, he]
      rw [hmore] at hmax ⊢
      obtain ⟨env, hdl, message, name, nolist, rfl, hrequest⟩ := Event.isSignIn_iff.1 he
      obtain ⟨id, hid, rfl⟩ := hstep.freshId hrequest
      have hc := hcounts (by omega)
      rw [hc.freshId (by omega)] at hid
      cases hid
      exact hc.signIn hdl name

/-- The sign-in after `n` others gets the id `n`. -/
theorem repliedId_eq {tr₁ tr₂ : List (SignalServer H × Event H)} {e : Event H}
    (hrun : Transition.Run Step .init (tr₁ ++ (s, e) :: tr₂) s') (he : e.isSignIn = true)
    (hmax : (signIns (tr₁.map Prod.snd) : ℤ) < maxInt) :
    (e.outcome s).repliedId = some (signIns (tr₁.map Prod.snd) : ℤ) := by
  obtain ⟨env, hdl, message, name, nolist, rfl, hrequest⟩ := Event.isSignIn_iff.1 he
  exact signIn_repliedId hrequest ((counts hrun.split_at.1 hmax.le).freshId hmax)

/-- **Ids are given out in order.** For `k` up to `INT_MAX`, the `k`-th sign-in replies with the id
`k - 1`, which then leads to its connection and was given to no earlier one. -/
theorem ids_in_order {tr₁ tr₂ : List (SignalServer H × Event H)} {env : Env H} {hdl : H}
    {message name : Str} {nolist : Bool} {k : ℕ}
    (hrun : Transition.Run Step .init (tr₁ ++ (s, .receive env hdl message) :: tr₂) s')
    (hrequest : Request.ofText message = .ok (.signIn name nolist))
    (hk : signIns (tr₁.map Prod.snd) + 1 = k) (hmax : (k : ℤ) ≤ maxInt) :
    (∃ reply, ((Event.receive env hdl message).outcome s).sent = [⟨.object reply, hdl⟩] ∧
      reply.lookup kID = some (.int (k - 1))) ∧
    (∃ t, Step s (.receive env hdl message) t ∧ Transition.Run Step t tr₂ s' ∧
      t.getConnectionFromID (k - 1) = some hdl) ∧
    ∀ p ∈ tr₁, p.2.isSignIn = true → (p.2.outcome p.1).repliedId ≠ some ((k : ℤ) - 1) := by
  have hlt : (signIns (tr₁.map Prod.snd) : ℤ) < maxInt := by omega
  have hpred : (k : ℤ) - 1 = (signIns (tr₁.map Prod.snd) : ℤ) := by omega
  obtain ⟨hbefore, t, hstep, hafter⟩ := hrun.split_at
  have hid := (counts hbefore hlt.le).freshId hlt
  have hreg : Registered s := Reachable.registered ⟨tr₁, hbefore⟩
  rw [hpred]
  refine ⟨signIn_sent env hdl hrequest hid, ⟨t, hstep, hafter, ?_⟩, ?_⟩
  · rw [(hstep.registered hreg).getConnectionFromID_eq_some_iff]
    obtain ⟨id, hid', rfl⟩ := hstep.freshId hrequest
    rw [hid] at hid'
    cases hid'
    exact ⟨_, ExtTreeMap.getElem?_insert_self, rfl⟩
  · intro p hmem he₁ heq
    obtain ⟨s₁, e₁⟩ := p
    obtain ⟨tr₀, tr₃, rfl⟩ := List.append_of_mem hmem
    -- An earlier sign-in has fewer sign-ins before it.
    have hfewer : signIns (tr₀.map Prod.snd) <
        signIns ((tr₀ ++ (s₁, e₁) :: tr₃).map Prod.snd) := by
      simp only [signIns, List.map_append, List.map_cons, List.countP_append,
        List.countP_cons_of_pos he₁]
      omega
    rw [List.append_assoc, List.cons_append] at hrun
    rw [repliedId_eq hrun he₁ (by omega)] at heq
    have hsame := Option.some.inj heq
    omega

/-- The second sign-in, of connection 1 again, gets the id 1. -/
theorem ids_in_order_second : ∃ reply,
    ((Event.receive Env.plain 1 signInText.text).outcome onePeer).sent = [⟨.object reply, 1⟩] ∧
      reply.lookup kID = some (.int 1) := by
  have hagain : Step onePeer (.receive .plain 1 signInText.text)
      (onePeer.signIn 1 "a".toList 1) := .signIn signInText_request rfl
  have hrun : Transition.Run Step .init ([(.init, .receive .plain 1 signInText.text)] ++
      [(onePeer, .receive .plain 1 signInText.text)]) (onePeer.signIn 1 "a".toList 1) :=
    (Transition.Run.nil.snoc onePeer_step).snoc hagain
  have hfirst : (Event.receive Env.plain 1 signInText.text).isSignIn = true :=
    Event.isSignIn_iff.2 ⟨_, _, _, _, _, rfl, signInText_request⟩
  have hone : signIns [Event.receive Env.plain 1 signInText.text] + 1 = 2 := by
    simp [signIns, hfirst]
  exact (ids_in_order hrun signInText_request hone (by decide)).1

/-! ## The call that does not return -/

/-- **When a call goes on for ever.** Nothing but a sign-in does, and a sign-in exactly if there are
`INT_MAX` peers: then the loop of `NextID` has no last round. -/
theorem spins_iff (hs : Reachable s) (e : Event H) :
    ((e.outcome s).ending = some .spins ↔ e.isSignIn = true ∧ maxInt ≤ s.mapPeers.size) ∧
      (maxInt ≤ s.mapPeers.size ↔
        ∀ rounds, runWhile s.isExistId (wrap maxInt) rounds (wrap maxInt s.lastId) = none) := by
  have hreg := hs.registered
  constructor
  · rw [← hreg.freshId_eq_none_iff]
    cases e with
    | close env hdl =>
      rw [close_outcome]
      cases s.mapPeers[hdl]? with
      | none => simp [Event.isSignIn]
      | some p => by_cases hp : p.id = -1 <;> simp [Event.isSignIn, hp]
    | receive env hdl message =>
      rw [receive_outcome]
      cases hrequest : Request.ofText message with
      | error ex => simp [outcomeOf, Event.isSignIn, hrequest]
      | ok request =>
        cases request with
        | signIn name nolist =>
          cases hid : s.freshId <;> simp [outcomeOf, Request.outcome, Event.isSignIn, hrequest, hid]
        | message value id offer =>
          rcases offer with ex | _ | sender <;>
            simp [outcomeOf, Request.outcome, Event.isSignIn, hrequest]
        | _ => simp [outcomeOf, Request.outcome, Event.isSignIn, hrequest]
  · rw [← hreg.freshId_eq_none_iff]
    exact ⟨hreg.nextID_spins, fun hrounds => hrounds maxInt.toNat⟩

/-- With two peers a third sign-in returns. -/
theorem spins_iff_third :
    ((Event.receive Env.plain 3 signInText.text).outcome twoPeers).ending ≠ some .spins := by
  intro hspins
  exact absurd ((spins_iff twoPeers_reachable _).1.1 hspins).2 (by decide)

end WsSignalServer
