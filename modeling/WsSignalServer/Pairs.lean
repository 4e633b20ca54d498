import WsSignalServer.Registry

/-!
# The pair list

An offer records a pair. When an end of it leaves, `RemovePairID` is to drop the pair and the
other end is to be told. It erases the first pair that mentions the id it is given and returns:

* a peer in two pairs leaves one of them behind, and one partner untold (`departure_iff`);
* `OnClose` gives it the id the connection is registered with, but a sign-out the id in the
  message, so a client can remove other clients' pairs and announce their departure
  (`signOut_iff`);
* with nothing checked when an offer is recorded or a connection signs in again, the list keeps
  ids that no peer has (`pairs_registered_iff`).

Each theorem gives the exact condition under which the code does what it should.
-/

namespace WsSignalServer

open Std General Json Json.ObjectValues

/-! ## Erasing the first match -/

section FirstMatch

variable {α : Type*} {p q : α → Bool} {l : List α} {a : α}

/-- Erasing the first match of `p` leaves no match of `q` exactly when there was none, or just
one and that one was erased. -/
theorem forall_mem_eraseP_iff : (∀ x ∈ l.eraseP p, q x = false) ↔
    l.filter q = [] ∨ ∃ x, l.filter q = [x] ∧ l.find? p = some x := by
  induction l with
  | nil => simp
  | cons y l ih =>
    by_cases hp : p y = true
    · rw [List.eraseP_cons_of_pos hp, List.find?_cons_of_pos hp]
      by_cases hq : q y = true
      · rw [List.filter_cons_of_pos hq]
        simp [List.filter_eq_nil_iff]
      · rw [List.filter_cons_of_neg hq]
        -- The erased element does not match `q`, so it is not the one left.
        have hother : l.filter q ≠ [y] := by
          intro h
          have hmem : y ∈ l.filter q := h ▸ List.mem_singleton_self y
          exact hq (List.mem_filter.1 hmem).2
        simp [List.filter_eq_nil_iff, hother]
    · rw [List.eraseP_cons_of_neg hp, List.find?_cons_of_neg hp, List.forall_mem_cons]
      by_cases hq : q y = true
      · rw [List.filter_cons_of_pos hq]
        refine ⟨fun h => absurd (h.1.symm.trans hq) nofun, fun h => ?_⟩
        rcases h with h | ⟨x, hx, hfind⟩
        · cases h
        · obtain rfl := (List.cons.inj hx).1
          exact absurd (List.find?_some hfind) hp
      · rw [List.filter_cons_of_neg hq, ← ih]
        exact and_iff_right (by simpa using hq)

/-- Erasing the first match leaves none exactly when there was at most one. -/
theorem forall_mem_eraseP_self_iff :
    (∀ x ∈ l.eraseP p, p x = false) ↔ (l.filter p).length ≤ 1 := by
  rw [forall_mem_eraseP_iff, ← List.head?_filter]
  cases l.filter p with
  | nil => simp
  | cons x xs => cases xs <;> simp

variable [BEq α] [LawfulBEq α]

theorem eraseP_eq_erase (h : l.find? p = some a) : l.eraseP p = l.erase a := by
  induction l with
  | nil => cases h
  | cons y l ih =>
    by_cases hp : p y = true
    · rw [List.find?_cons_of_pos hp] at h
      obtain rfl := Option.some.inj h
      rw [List.eraseP_cons_of_pos hp, List.erase_cons_head]
    · rw [List.find?_cons_of_neg hp] at h
      have hne : y ≠ a := fun hya => hp (hya ▸ List.find?_some h)
      rw [List.eraseP_cons_of_neg hp, List.erase_cons_tail (by simpa using hne), ih h]

end FirstMatch

variable {H : Type} [LinearOrder H] {s : SignalServer H}

/-! ## Departures -/

/-- Connection `hdl` leaves as `id`: it closes, or it sends a sign-out that carries `id`. -/
def Event.Leaves (hdl : H) (id : ℤ) : Event H → Prop
  | .receive _ hdl' message => hdl' = hdl ∧ Request.ofText message = .ok (.signOut id)
  | .close _ hdl' => hdl' = hdl

/-- Two peers are in one pair, in either direction. -/
def Pair.Joins (q : Pair) (a b : ℤ) : Prop := q.from = a ∧ q.to = b ∨ q.from = b ∧ q.to = a

/-- What the departure of `hdl`, registered as `a`, is to do: the notice to every live partner,
and no pair left. -/
def Departs (s : SignalServer H) (e : Event H) (hdl : H) (a : ℤ) : Prop :=
  (∀ (k : H) (b : Peer H) (q : Pair), s.mapPeers[k]? = some b → k ≠ hdl →
      e.env.expired k = false → q ∈ s.vPairID → q.Joins a b.id →
      ⟨signOutNotice a, k⟩ ∈ (e.outcome s).sent) ∧
    ∀ q ∈ (e.outcome s).server.vPairID, ¬ q.Mentions a

theorem Registered.close_outcome {hdl : H} {p : Peer H} (hs : Registered s)
    (hp : s.mapPeers[hdl]? = some p) (env : Env H) : (Event.close env hdl).outcome s =
      ⟨none, s.leave hdl p.id, s.notices env hdl p.id⟩ := by
  rw [WsSignalServer.close_outcome, hp]
  exact if_neg (hs.id_ne hdl p hp)

/-- Both ways of leaving end the same way. -/
theorem leaves_outcome {e : Event H} {hdl : H} {p : Peer H} (hs : Registered s)
    (hp : s.mapPeers[hdl]? = some p) (he : e.Leaves hdl p.id) :
    (e.outcome s).server = s.leave hdl p.id ∧
      ∃ reply, (e.outcome s).sent = reply ++ s.notices e.env hdl p.id := by
  cases e with
  | receive env hdl' message =>
    obtain ⟨rfl, hreq⟩ := he
    rw [receive_outcome, hreq]
    exact ⟨rfl, [⟨.object signOutReply, hdl'⟩], rfl⟩
  | close env hdl' =>
    obtain rfl : hdl' = hdl := he
    rw [hs.close_outcome hp]
    exact ⟨rfl, [], rfl⟩

theorem Pair.Joins.mentions {q : Pair} {a b : ℤ} (h : q.Joins a b) : q.Mentions a := by
  rcases h with ⟨h, -⟩ | ⟨-, h⟩
  · exact .inl h
  · exact .inr h

theorem Pair.Mentions.joins {q : Pair} {a : ℤ} (h : q.Mentions a) : q.Joins a (q.other a) := by
  unfold Pair.other
  by_cases hfrom : q.from = a
  · rw [if_pos hfrom]
    exact .inl ⟨hfrom, rfl⟩
  · rw [if_neg hfrom]
    exact .inr ⟨rfl, h.resolve_left hfrom⟩

theorem Pair.Joins.other {q : Pair} {a b : ℤ} (h : q.Joins a b) (hne : a ≠ b) :
    q.other a = b := by
  rcases h with ⟨hfrom, hto⟩ | ⟨hfrom, -⟩
  · rw [Pair.other, if_pos hfrom, hto]
  · rw [Pair.other, if_neg (by rw [hfrom]; exact hne.symm), hfrom]

/-- The notice reaches the other end of the first pair, if that is a live peer. -/
theorem mem_notices {env : Env H} {hdl k : H} {p b : Peer H} {q : Pair} (hs : Registered s)
    (hp : s.mapPeers[hdl]? = some p) (hb : s.mapPeers[k]? = some b) (hne : k ≠ hdl)
    (hlive : env.expired k = false)
    (hfirst : s.vPairID.find? (fun q => q.Mentions p.id) = some q) (hq : q.Joins p.id b.id) :
    ⟨signOutNotice p.id, k⟩ ∈ s.notices env hdl p.id := by
  have hid : p.id ≠ b.id := fun h => hne (hs.distinct k hdl b p hb hp h.symm)
  have hlookup : (s.leave hdl p.id).getConnectionFromID b.id = some k :=
    (hs.leave hdl p.id).getConnectionFromID_eq_some_iff.2
      ⟨b, getElem?_erase_iff.2 ⟨hne, hb⟩, rfl⟩
  unfold SignalServer.notices
  rw [hfirst]
  simp only [hq.other hid, if_neg (hs.id_ne k b hb), deliver_of_lookup hlookup hlive]
  exact List.mem_singleton_self _

/-- **A departure is complete exactly when at most one pair mentions the peer that leaves.** -/
theorem departure_iff (hs : Reachable s) {e : Event H} {hdl : H} {p : Peer H}
    (hp : s.mapPeers[hdl]? = some p) (he : e.Leaves hdl p.id) :
    Departs s e hdl p.id ↔ (s.vPairID.filter fun q => q.Mentions p.id).length ≤ 1 := by
  obtain ⟨hserver, reply, hsent⟩ := leaves_outcome hs.registered hp he
  have hnone : (∀ q ∈ (e.outcome s).server.vPairID, ¬ q.Mentions p.id) ↔
      (s.vPairID.filter fun q => q.Mentions p.id).length ≤ 1 := by
    rw [hserver, ← forall_mem_eraseP_self_iff]
    simp only [decide_eq_false_iff_not]
    rfl
  refine ⟨fun h => hnone.1 h.2, fun h => ⟨?_, hnone.2 h⟩⟩
  intro k b q hb hne hlive hq hjoins
  rw [hsent]
  refine List.mem_append_right _ (mem_notices hs.registered hp hb hne hlive ?_ hjoins)
  -- With at most one pair that mentions `p.id`, the pair with `b` is the first.
  rw [← List.head?_filter]
  have hmem : q ∈ s.vPairID.filter fun q => q.Mentions p.id :=
    List.mem_filter.2 ⟨hq, by simpa using hjoins.mentions⟩
  revert hmem h
  cases s.vPairID.filter fun q => q.Mentions p.id with
  | nil => simp
  | cons x xs => cases xs <;> simp +contextual [eq_comm]

/-- The members of an offer from the peer 0 to the peer `id`. -/
def offerMembers (id : ℤ) : ObjectValues :=
  putAll [] [(kSignal, .string kMessage), ("type".toList, .string "offer".toList),
    ("from".toList, .int 0), ("to".toList, .int id)]

def offerToOne : ObjectText where
  text := "\x7b\"signal\":\"message\",\"type\":\"offer\",\"from\":0,\"to\":1\x7d".toList
  members := offerMembers 1
  parse := by decide +kernel

def offerToTwo : ObjectText where
  text := "\x7b\"signal\":\"message\",\"type\":\"offer\",\"from\":0,\"to\":2\x7d".toList
  members := offerMembers 2
  parse := by decide +kernel

theorem offerToOne_request : Request.ofText offerToOne.text =
    .ok (.message (.object (offerMembers 1)) 1 (.ok (some 0))) :=
  offerToOne.request

theorem offerToTwo_request : Request.ofText offerToTwo.text =
    .ok (.message (.object (offerMembers 2)) 2 (.ok (some 0))) :=
  offerToTwo.request

/-- Of three peers the first calls the second, and then also the third. -/
def oneCall : SignalServer ℕ := threePeers.record ⟨0, 1⟩

def twoCalls : SignalServer ℕ := oneCall.record ⟨0, 2⟩

def oneCallTrace : List (SignalServer ℕ × Event ℕ) :=
  [(.init, .receive .plain 1 signInText.text), (onePeer, .receive .plain 2 signInText.text),
    (twoPeers, .receive .plain 3 signInText.text),
    (threePeers, .receive .plain 1 offerToOne.text)]

theorem oneCall_run : Transition.Run Step .init oneCallTrace oneCall := by
  have hcall : Step threePeers (.receive .plain 1 offerToOne.text) oneCall :=
    .offer offerToOne_request
  have hpeers := ((Transition.Run.nil.snoc onePeer_step).snoc twoPeers_step).snoc threePeers_step
  exact hpeers.snoc hcall

theorem oneCall_reachable : Reachable oneCall := ⟨oneCallTrace, oneCall_run⟩

theorem twoCalls_reachable : Reachable twoCalls := by
  have h : Step oneCall (.receive .plain 1 offerToTwo.text) twoCalls := .offer offerToTwo_request
  exact oneCall_reachable.snoc h

/-- The partner of the one call is told, and the pair is gone. -/
theorem oneCall_departure : Departs oneCall (.close .plain 1) 1 0 := by
  have hp : oneCall.mapPeers[1]? = some ⟨0, 1, "a".toList⟩ := by decide
  have hleaves : (Event.close Env.plain 1).Leaves 1 0 := by exact rfl
  exact (departure_iff oneCall_reachable hp hleaves).2 (by decide)

/-- With two calls the second partner is not told, and its pair stays. -/
theorem second_partner_untold : Reachable twoCalls ∧
    twoCalls.mapPeers[1]? = some ⟨0, 1, "a".toList⟩ ∧
    twoCalls.mapPeers[3]? = some ⟨2, 3, "a".toList⟩ ∧ ⟨0, 2⟩ ∈ twoCalls.vPairID ∧
    ⟨signOutNotice 0, 3⟩ ∉ ((Event.close .plain 1).outcome twoCalls).sent ∧
    ⟨0, 2⟩ ∈ ((Event.close .plain 1).outcome twoCalls).server.vPairID :=
  ⟨twoCalls_reachable, by decide, by decide, by decide, by decide, by decide⟩

/-! ## Signing out -/

/-- What a sign-out of `hdl` is to touch: the pairs and the partner of the id `hdl` was registered
under, and no others. -/
def SignsOutItself (s : SignalServer H) (hdl : H) (o : Outcome H) : Prop :=
  s.vPairID.length ≤ o.server.vPairID.length + 1 ∧
  (∀ q, o.server.vPairID.count q < s.vPairID.count q →
    ∃ p, s.mapPeers[hdl]? = some p ∧ q.Mentions p.id) ∧
  (∀ (i : ℤ) (k : H), ⟨signOutNotice i, k⟩ ∈ o.sent → ∃ p, s.mapPeers[hdl]? = some p ∧ p.id = i) ∧
  ∀ (i : ℤ) (k k' : H) (p : Peer H), ⟨signOutNotice i, k⟩ ∈ o.sent →
    o.server.mapPeers[k']? = some p → p.id ≠ i

theorem signOutNotice_inj {i j : ℤ} (h : signOutNotice i = signOutNotice j) : i = j := by
  have hlookup := congrArg (List.lookup kID) (Value.object.inj h)
  exact Value.int.inj (Option.some.inj hlookup)

theorem signOutNotice_ne_reply (i : ℤ) : signOutNotice i ≠ .object signOutReply := by
  intro h
  have hlookup := congrArg (List.lookup kID) (Value.object.inj h)
  exact absurd hlookup nofun

theorem Pair.Mentions.eq_or {q : Pair} {a i : ℤ} (hi : q.Mentions i) (ha : q.Mentions a) :
    a = i ∨ a = q.other i := by
  unfold Pair.other
  by_cases hfrom : q.from = i
  · rw [if_pos hfrom]
    rcases ha with ha | ha
    · exact .inl (ha.symm.trans hfrom)
    · exact .inr ha.symm
  · rw [if_neg hfrom]
    have hto : q.to = i := hi.resolve_left hfrom
    rcases ha with ha | ha
    · exact .inr ha.symm
    · exact .inl (ha.symm.trans hto)

/-- A notice goes to the registered other end of the first pair that mentions `i`. -/
theorem of_mem_notices {env : Env H} {hdl : H} {i : ℤ} {m : Sent H} (hs : Registered s)
    (hm : m ∈ s.notices env hdl i) : m.text = signOutNotice i ∧
      ∃ q b, s.vPairID.find? (fun q => q.Mentions i) = some q ∧
        s.mapPeers[m.hdl]? = some b ∧ m.hdl ≠ hdl ∧ b.id = q.other i := by
  unfold SignalServer.notices at hm
  cases hfirst : s.vPairID.find? fun q => q.Mentions i with
  | none =>
    rw [hfirst] at hm
    cases hm
  | some q =>
    rw [hfirst] at hm
    simp only at hm
    split_ifs at hm with hother
    · cases hm
    · obtain ⟨k, hlookup, -, rfl⟩ := mem_deliver_iff.1 hm
      obtain ⟨b, hb, hid⟩ := (hs.leave hdl i).getConnectionFromID_eq_some_iff.1 hlookup
      obtain ⟨hne, hb⟩ := getElem?_erase_iff.1 hb
      exact ⟨rfl, q, b, rfl, hb, hne, hid⟩

/-- What `leave` takes out of the pair list. -/
theorem leave_vPairID (s : SignalServer H) (hdl : H) (i : ℤ) : (s.leave hdl i).vPairID =
    match s.vPairID.find? fun q => q.Mentions i with
    | none => s.vPairID
    | some q => s.vPairID.erase q := by
  cases hfirst : s.vPairID.find? fun q => q.Mentions i with
  | none => exact List.eraseP_of_forall_not (List.find?_eq_none.1 hfirst)
  | some q => exact eraseP_eq_erase hfirst

theorem count_leave_lt_iff {hdl : H} {i : ℤ} {q : Pair} :
    (s.leave hdl i).vPairID.count q < s.vPairID.count q ↔
      s.vPairID.find? (fun q => q.Mentions i) = some q := by
  rw [leave_vPairID]
  cases hfirst : s.vPairID.find? fun q => q.Mentions i with
  | none => exact ⟨fun h => absurd h (lt_irrefl _), nofun⟩
  | some q' =>
    rw [Option.some_inj]
    constructor
    · intro hlt
      by_contra hne
      rw [List.count_erase_of_ne (Ne.symm hne)] at hlt
      exact absurd hlt (lt_irrefl _)
    · rintro rfl
      have hpos : 0 < s.vPairID.count q' :=
        List.count_pos_iff.2 (List.mem_of_find?_eq_some hfirst)
      rw [List.count_erase_self]
      omega

theorem length_leave (s : SignalServer H) (hdl : H) (i : ℤ) :
    s.vPairID.length ≤ (s.leave hdl i).vPairID.length + 1 := by
  rw [leave_vPairID]
  cases hfirst : s.vPairID.find? fun q => q.Mentions i with
  | none => exact Nat.le_succ _
  | some q =>
    show s.vPairID.length ≤ (s.vPairID.erase q).length + 1
    rw [List.length_erase_of_mem (List.mem_of_find?_eq_some hfirst)]
    omega

/-- A sign-out with the id `i` touches only what is its own exactly when the first pair that
mentions `i` mentions the sender. -/
theorem leave_iff (hs : Registered s) (env : Env H) (hdl : H) (i : ℤ) :
    SignsOutItself s hdl ((Request.signOut i).outcome env hdl s) ↔
      ∀ q, s.vPairID.find? (fun q => q.Mentions i) = some q →
        ∃ p, s.mapPeers[hdl]? = some p ∧ q.Mentions p.id := by
  refine ⟨fun h q hfirst => h.2.1 q (count_leave_lt_iff.2 hfirst), fun hown => ?_⟩
  have hnotice : ∀ (j : ℤ) (k : H),
      ⟨signOutNotice j, k⟩ ∈ ((Request.signOut i).outcome env hdl s).sent →
        ∃ p, s.mapPeers[hdl]? = some p ∧ p.id = i ∧ j = i := by
    intro j k hsent
    have hmem : ⟨signOutNotice j, k⟩ ∈ s.notices env hdl i := by
      refine (List.mem_cons.1 hsent).resolve_left fun h => ?_
      exact signOutNotice_ne_reply j (congrArg Sent.text h)
    obtain ⟨htext, q, b, hfirst, hb, hne, hid⟩ := of_mem_notices hs hmem
    obtain ⟨p, hp, hmentions⟩ := hown q hfirst
    have hqi : q.Mentions i := by simpa using List.find?_some hfirst
    refine ⟨p, hp, (hqi.eq_or hmentions).resolve_right fun hother => ?_, signOutNotice_inj htext⟩
    exact hne (hs.distinct k hdl b p hb hp (hid.trans hother.symm))
  refine ⟨length_leave s hdl i, fun q hlt => hown q (count_leave_lt_iff.1 hlt), ?_, ?_⟩
  · intro j k hsent
    obtain ⟨p, hp, hpi, rfl⟩ := hnotice j k hsent
    exact ⟨p, hp, hpi⟩
  · intro j k k' p' hsent hp' hid
    obtain ⟨p, hp, hpi, rfl⟩ := hnotice j k hsent
    obtain ⟨hne, hp'⟩ := getElem?_erase_iff.1 hp'
    exact hne (hs.distinct k' hdl p' p hp' hp (hid.trans hpi.symm))

/-- **A sign-out message is harmless exactly when the id in it leads to a pair of the sender.** -/
theorem signOut_iff (hs : Reachable s) (env : Env H) (hdl : H) {message : Str} {ms : ObjectValues}
    {signal : Value} (hparse : Reader.parse message = .ok (some (.object ms)))
    (hsignal : ms.lookup kSignal = some signal) (htype : signal.asString = .ok kSignOut) :
    SignsOutItself s hdl ((Event.receive env hdl message).outcome s) ↔
      ∀ i q, (member ms kID).asInt = .ok i →
        s.vPairID.find? (fun q => q.Mentions i) = some q →
        ∃ p, s.mapPeers[hdl]? = some p ∧ q.Mentions p.id := by
  rw [receive_outcome, ofText_object hparse hsignal htype, Request.ofSignal, if_neg (by decide),
    if_pos rfl]
  cases (member ms kID).asInt with
  | error e =>
    refine iff_of_true ⟨Nat.le_succ _, ?_, ?_, ?_⟩ ?_
    · intro q h
      exact absurd h (lt_irrefl _)
    · intro i k h
      cases h
    · intro i k k' p h
      cases h
    · intro i q h
      cases h
  | ok i =>
    have hleave := leave_iff hs.registered env hdl i
    refine ⟨fun h j q hj => ?_, fun h => hleave.2 fun q => h i q rfl⟩
    obtain rfl := Except.ok.inj hj
    exact hleave.1 h q

/-- A sign-out of the peer 0. -/
def signOutText : ObjectText where
  text := "\x7b\"signal\":\"sign_out\",\"id\":0\x7d".toList
  members := [(kID, .int 0), (kSignal, .string kSignOut)]
  parse := by decide +kernel

/-- The caller itself may send it. -/
theorem caller_signs_out : SignsOutItself oneCall 1
    ((Event.receive .plain 1 signOutText.text).outcome oneCall) := by
  refine (signOut_iff oneCall_reachable .plain 1 signOutText.parse rfl rfl).2 ?_
  intro i q hi hfirst
  obtain rfl : (0 : ℤ) = i := Except.ok.inj hi
  obtain rfl : (⟨0, 1⟩ : Pair) = q := Option.some.inj hfirst
  exact ⟨⟨0, 1, "a".toList⟩, by decide, .inl rfl⟩

/-- So may a third peer: the callee is told that 0 signed out, the pair is gone, and 0 is still
registered. -/
theorem stranger_signs_out : Reachable oneCall ∧
    oneCall.mapPeers[3]? = some ⟨2, 3, "a".toList⟩ ∧
    ((Event.receive .plain 3 signOutText.text).outcome oneCall).server.vPairID = [] ∧
    ⟨signOutNotice 0, 2⟩ ∈ ((Event.receive .plain 3 signOutText.text).outcome oneCall).sent ∧
    ((Event.receive .plain 3 signOutText.text).outcome oneCall).server.mapPeers[1]? =
      some ⟨0, 1, "a".toList⟩ := by
  have hrequest : Request.ofText signOutText.text = .ok (.signOut 0) := signOutText.request
  rw [receive_outcome_of_request hrequest]
  exact ⟨oneCall_reachable, by decide, by decide, by decide, by decide⟩

/-! ## Referential integrity -/

/-- Both ends of every pair are registered. -/
def PairsRegistered (s : SignalServer H) : Prop :=
  ∀ q ∈ s.vPairID, s.Registers q.from ∧ s.Registers q.to

/-- At most one pair mentions `a`, and if one does it is the first that mentions `i`. -/
def OnlyFirst (s : SignalServer H) (i a : ℤ) : Prop :=
  s.vPairID.filter (fun q => q.Mentions a) = [] ∨
    ∃ q, s.vPairID.filter (fun q => q.Mentions a) = [q] ∧
      s.vPairID.find? (fun q => q.Mentions i) = some q

/-- When a text from `hdl` keeps the pairs registered: an offer names registered peers, a
connection that signs in again is in no pair, and a peer that signs out is in no pair but the one
`RemovePairID` erases. -/
def KeepsPairsOf (s : SignalServer H) (hdl : H) : Except Exception Request → Prop
  | .ok (.message _ id (.ok (some sender))) => s.Registers sender ∧ s.Registers id
  | .ok (.signIn _ _) => ∀ p, s.mapPeers[hdl]? = some p → ∀ q ∈ s.vPairID, ¬ q.Mentions p.id
  | .ok (.signOut id) => ∀ p, s.mapPeers[hdl]? = some p → OnlyFirst s id p.id
  | _ => True

def Event.KeepsPairs (s : SignalServer H) : Event H → Prop
  | .receive _ hdl message => KeepsPairsOf s hdl (Request.ofText message)
  | .close _ hdl => ∀ p, s.mapPeers[hdl]? = some p → OnlyFirst s p.id p.id

/-- With every peer gone there is no pair left. -/
theorem PairsRegistered.eq_nil (h : PairsRegistered s) (hempty : s.mapPeers = ∅) :
    s.vPairID = [] := by
  refine List.eq_nil_iff_forall_not_mem.2 fun q hq => ?_
  obtain ⟨⟨k, p, hp, -⟩, -⟩ := h q hq
  rw [hempty, ExtTreeMap.getElem?_empty] at hp
  cases hp

theorem onlyFirst_iff {i a : ℤ} :
    OnlyFirst s i a ↔ ∀ q ∈ s.vPairID.eraseP fun q => q.Mentions i, ¬ q.Mentions a := by
  unfold OnlyFirst
  rw [← forall_mem_eraseP_iff]
  simp only [decide_eq_false_iff_not]

/-- A connection gives up its id and the pairs only shrink: the pairs stay registered exactly when
none of those left mentions the id given up. -/
theorem pairsRegistered_iff {s' : SignalServer H} {hdl : H} (h : PairsRegistered s)
    (hsub : s'.vPairID ⊆ s.vPairID)
    (hkept : ∀ (k : H) (p : Peer H), k ≠ hdl → s.mapPeers[k]? = some p → s'.mapPeers[k]? = some p)
    (hgone : ∀ p, s.mapPeers[hdl]? = some p → ¬ s'.Registers p.id) :
    PairsRegistered s' ↔ ∀ p, s.mapPeers[hdl]? = some p → ∀ q ∈ s'.vPairID, ¬ q.Mentions p.id := by
  constructor
  · intro h' p hp q hq hmentions
    rcases hmentions with hid | hid
    · exact hgone p hp (hid ▸ (h' q hq).1)
    · exact hgone p hp (hid ▸ (h' q hq).2)
  · intro hnone q hq
    have hstill : ∀ i, q.Mentions i → s.Registers i → s'.Registers i := by
      intro i hmentions hreg
      obtain ⟨k, p, hp, rfl⟩ := hreg
      refine ⟨k, p, hkept k p (fun hk => ?_) hp, rfl⟩
      subst hk
      exact hnone p hp q hq hmentions
    obtain ⟨hfrom, hto⟩ := h q (hsub hq)
    exact ⟨hstill _ (.inl rfl) hfrom, hstill _ (.inr rfl) hto⟩

theorem record_iff (h : PairsRegistered s) (p : Pair) :
    PairsRegistered (s.record p) ↔ s.Registers p.from ∧ s.Registers p.to := by
  refine ⟨fun h' => h' p (List.mem_append_right _ (List.mem_singleton_self p)), fun hp q hq => ?_⟩
  rcases List.mem_append.1 hq with hq | hq
  · exact h q hq
  · rw [List.mem_singleton.1 hq]
    exact hp

theorem signIn_iff {hdl : H} {id : ℤ} (hs : Registered s) (h : PairsRegistered s) (name : Str)
    (hid : s.freshId = some id) : PairsRegistered (s.signIn hdl name id) ↔
      ∀ p, s.mapPeers[hdl]? = some p → ∀ q ∈ s.vPairID, ¬ q.Mentions p.id := by
  refine pairsRegistered_iff h (List.Subset.refl _) ?_ ?_
  · intro k p hne hp
    exact getElem?_insert_iff.2 (.inr ⟨hne, hp⟩)
  · intro p hp hreg
    obtain ⟨k, p', hp', hpp'⟩ := hreg
    rcases getElem?_insert_iff.1 hp' with ⟨-, rfl⟩ | ⟨hne, hp'⟩
    · exact (hs.freshId_spec hid).2 hdl p hp hpp'.symm
    · exact hne (hs.distinct k hdl p' p hp' hp hpp')

theorem leave_pairs_iff (hs : Registered s) (h : PairsRegistered s) (hdl : H) (i : ℤ) :
    PairsRegistered (s.leave hdl i) ↔ ∀ p, s.mapPeers[hdl]? = some p → OnlyFirst s i p.id := by
  simp only [onlyFirst_iff]
  refine pairsRegistered_iff h ?_ ?_ ?_
  · exact (List.eraseP_sublist (l := s.vPairID)).subset
  · intro k p hne hp
    exact getElem?_erase_iff.2 ⟨hne, hp⟩
  · intro p hp hreg
    obtain ⟨k, p', hp', hpp'⟩ := hreg
    obtain ⟨hne, hp'⟩ := getElem?_erase_iff.1 hp'
    exact hne (hs.distinct k hdl p' p hp' hp hpp')

/-- **One event** keeps the pairs registered exactly when it meets `KeepsPairs`. -/
theorem Step.pairsRegistered_iff {e : Event H} {s' : SignalServer H} (hs : Registered s)
    (h : PairsRegistered s) (hstep : Step s e s') : PairsRegistered s' ↔ e.KeepsPairs s := by
  have heq := hstep.eq_apply hs
  cases e with
  | receive env hdl message =>
    have hends := hstep.1
    rw [receive_outcome] at hends
    change s' = s.apply (changeOf s hdl (Request.ofText message)) at heq
    rw [heq]
    show _ ↔ KeepsPairsOf s hdl (Request.ofText message)
    cases hreq : Request.ofText message with
    | error e => exact iff_of_true h trivial
    | ok request =>
      cases request with
      | signIn name nolist =>
        rw [hreq] at hends
        simp only [outcomeOf, Request.outcome] at hends
        simp only [changeOf, Request.change]
        -- Without a free id the sign-in does not end, and there is no such step.
        cases hid : s.freshId with
        | none => rw [hid] at hends; exact absurd rfl hends
        | some id => exact signIn_iff hs h name hid
      | signOut id => exact leave_pairs_iff hs h hdl id
      | message value id offer =>
        -- Only an offer is recorded; an error in its `from` comes after the text is sent.
        rcases offer with e | _ | sender
        · exact iff_of_true h trivial
        · exact iff_of_true h trivial
        · exact record_iff h ⟨sender, id⟩
      | ignored => exact iff_of_true h trivial
      | exist name => exact iff_of_true h trivial
  | close env hdl =>
    change s' = s.apply (closeChange hdl s.mapPeers[hdl]?) at heq
    rw [heq]
    show _ ↔ ∀ p, s.mapPeers[hdl]? = some p → OnlyFirst s p.id p.id
    cases hpeer : s.mapPeers[hdl]? with
    | none =>
      refine iff_of_true h fun p hp => ?_
      cases hp
    | some p =>
      refine (leave_pairs_iff hs h hdl p.id).trans ?_
      rw [hpeer]
      simp only [Option.some.injEq, forall_eq']

/-- **The pair list in any run.** Every pair is between registered peers in all states of a run
exactly when every event of the run meets `KeepsPairs`. -/
theorem pairs_registered_iff {tr : List (SignalServer H × Event H)}
    (hrun : Transition.Run Step SignalServer.init tr s) :
    ((∀ p ∈ tr, PairsRegistered p.1) ∧ PairsRegistered s) ↔ ∀ p ∈ tr, p.2.KeepsPairs p.1 :=
  hrun.forall_iff (fun _ _ _ hs hstep => hstep.registered hs)
    (fun _ _ _ hs h hstep => hstep.pairsRegistered_iff hs h) .init nofun

theorem keepsPairs_signIn {s : SignalServer ℕ} {k : ℕ} (h : s.mapPeers[k]? = none) :
    (Event.receive .plain k signInText.text).KeepsPairs s := by
  show KeepsPairsOf s k (Request.ofText signInText.text)
  rw [signInText_request]
  intro p hp
  exact absurd (h.symm.trans hp) nofun

theorem keepsPairs_offer :
    (Event.receive .plain 1 offerToOne.text).KeepsPairs threePeers := by
  show KeepsPairsOf threePeers 1 (Request.ofText offerToOne.text)
  rw [offerToOne_request]
  exact ⟨⟨1, ⟨0, 1, "a".toList⟩, by decide, rfl⟩, ⟨2, ⟨1, 2, "a".toList⟩, by decide, rfl⟩⟩

/-- The one call is between registered peers. -/
theorem oneCall_pairs : PairsRegistered oneCall := by
  refine ((pairs_registered_iff oneCall_run).2 ?_).2
  intro p hp
  rcases List.mem_cons.1 hp with h | hp
  · exact h ▸ keepsPairs_signIn (by decide)
  rcases List.mem_cons.1 hp with h | hp
  · exact h ▸ keepsPairs_signIn (by decide)
  rcases List.mem_cons.1 hp with h | hp
  · exact h ▸ keepsPairs_signIn (by decide)
  · exact List.mem_singleton.1 hp ▸ keepsPairs_offer

/-- After the caller of two left, the second pair names an id that nobody has. -/
theorem pair_outlives_peer : ∃ s : SignalServer ℕ, Reachable s ∧ ¬ PairsRegistered s := by
  let s := ((Event.close .plain 1).outcome twoCalls).server
  have hstep : Step twoCalls (.close .plain 1) s := .close
  refine ⟨s, twoCalls_reachable.snoc hstep, fun h => ?_⟩
  have hpair : (⟨0, 2⟩ : Pair) ∈ s.vPairID := by decide
  obtain ⟨k, p, hp, hid⟩ := (h _ hpair).1
  have hnone : s.getConnectionFromID 0 = none := by decide
  exact getConnectionFromID_eq_none_iff.1 hnone k p hp hid

end WsSignalServer
