import WsSignalServer.Pairs

/-!
# Offers

The server has no notion of who a message is from: `from` is a member like the others, and the
handle of the connection that sent it is not looked at. A pair is recorded as the offer names it,
from any connection.

**Theorem (`pairs_as_named`).** Over a run, a pair is appended only by an offer, one by each,
between the ids that the offer names. Every offer with a proper `from` is recorded, and every pair
in the list was appended so.

**Theorem (`pairs_balance`).** The pairs recorded are those in the list, in the same order, and those
that departures took out.
-/

namespace WsSignalServer

open Std General Json Json.ObjectValues

variable {H : Type} [LinearOrder H] {s : SignalServer H}

/-- The text is an offer to `id`, an object with the members `ms`. -/
structure OfferTo (message : Str) (ms : ObjectValues) (id : ℤ) : Prop where
  parse : Reader.parse message = .ok (some (.object ms))
  signal : ∃ signal, ms.lookup kSignal = some signal ∧ signal.asString = .ok kMessage
  type : ∃ type, ms.lookup "type".toList = some type ∧ type.asString = .ok "offer".toList
  recipient : (member ms "to".toList).asInt = .ok id

theorem offerOf_eq_some_iff {ms : ObjectValues} {sender : ℤ} :
    Request.offerOf ms = .ok (some sender) ↔
      (∃ type, ms.lookup "type".toList = some type ∧ type.asString = .ok "offer".toList) ∧
        (member ms "from".toList).asInt = .ok sender := by
  unfold Request.offerOf
  cases ms.lookup "type".toList with
  | none => simp
  | some type =>
    simp only [Option.some.injEq, exists_eq_left']
    cases type.asString with
    | error e =>
      refine iff_of_false (fun h => ?_) fun h => ?_
      · cases h
      · cases h.1
    | ok name =>
      show (if name = "offer".toList then _ else _) = _ ↔ _
      by_cases hoffer : name = "offer".toList
      · subst hoffer
        rw [if_pos rfl]
        cases (member ms "from".toList).asInt with
        | error e => simp [bind, Except.bind]
        | ok i => simp [bind, Except.bind, pure, Except.pure]
      · rw [if_neg hoffer]
        refine iff_of_false (fun h => ?_) fun h => hoffer (Except.ok.inj h.1)
        cases h

/-- An event that records a pair is an offer. -/
theorem Event.change_record {e : Event H} {q : Pair} (h : e.change s = .record q) :
    ∃ env hdl message ms, e = .receive env hdl message ∧ OfferTo message ms q.to ∧
      (member ms "from".toList).asInt = .ok q.from := by
  rcases e.change_cases s with hc | ⟨_, _, _, _, _, _, _, _, _, hc⟩ | ⟨_, _, _, _, _, _, hc⟩ |
    ⟨env, hdl, message, value, sender, id, he, hreq, hc⟩ | ⟨_, _, _, _, _, hc⟩
  all_goals rw [h] at hc
  all_goals cases hc
  obtain ⟨ms, signal, hparse, hsignal, htype, hint, hoffer⟩ := ofText_eq_message hreq
  obtain ⟨hoffers, hfrom⟩ := offerOf_eq_some_iff.1 hoffer.symm
  refine ⟨env, hdl, message, ms, he, ?_, hfrom⟩
  exact ⟨hparse, ⟨signal, hsignal, htype⟩, hoffers, hint⟩

/-- An offer is recorded with the sender it names, whoever sent it. -/
theorem OfferTo.recorded {message : Str} {ms : ObjectValues} {id sender : ℤ}
    (h : OfferTo message ms id) (hfrom : (member ms "from".toList).asInt = .ok sender)
    (env : Env H) (hdl : H) (s : SignalServer H) :
    ((Event.receive env hdl message).outcome s).server = s.record ⟨sender, id⟩ := by
  obtain ⟨signal, hsignal, htype⟩ := h.signal
  have hrequest := ofText_message h.parse hsignal htype h.recipient
  rw [offerOf_eq_some_iff.2 ⟨h.type, hfrom⟩] at hrequest
  rw [receive_outcome_of_request hrequest]
  rfl

/-- A step takes pairs out of the list, or it is an offer and appends its pair. -/
theorem Step.vPairID {e : Event H} {s' : SignalServer H} (hs : Registered s) (h : Step s e s') :
    s'.vPairID.Sublist s.vPairID ∨ ∃ env hdl message ms q,
      e = .receive env hdl message ∧ OfferTo message ms q.to ∧
      (∀ j, (member ms "from".toList).integer? = some j → q.from = j) ∧
      s'.vPairID = s.vPairID ++ [q] := by
  rw [h.eq_apply hs]
  cases hc : e.change s with
  | stay => exact .inl (List.Sublist.refl _)
  | signIn hdl name id => exact .inl (List.Sublist.refl _)
  | leave hdl id => exact .inl List.eraseP_sublist
  | record q =>
    obtain ⟨env, hdl, message, ms, he, hoffer, hfrom⟩ := Event.change_record hc
    exact .inr ⟨env, hdl, message, ms, q, he, hoffer,
      fun j hj => Value.asInt_of_integer hfrom hj, rfl⟩

/-- Every pair in the list goes back to an offer of the run. -/
theorem exists_offer_of_mem {tr : List (SignalServer H × Event H)}
    (hrun : Transition.Run Step .init tr s) {q : Pair} (hq : q ∈ s.vPairID) :
    ∃ s₁ env hdl message ms, (s₁, .receive env hdl message) ∈ tr ∧ OfferTo message ms q.to ∧
      ∀ j, (member ms "from".toList).integer? = some j → q.from = j := by
  induction hrun with
  | nil => cases hq
  | @snoc tr s₁ s₂ e hbefore hstep ih =>
    have hearlier (hq : q ∈ s₁.vPairID) : ∃ s₀ env hdl message ms,
        (s₀, .receive env hdl message) ∈ tr ++ [(s₁, e)] ∧ OfferTo message ms q.to ∧
        ∀ j, (member ms "from".toList).integer? = some j → q.from = j := by
      obtain ⟨s₀, env, hdl, message, ms, hmem, hoffer⟩ := ih hq
      exact ⟨s₀, env, hdl, message, ms, List.mem_append_left _ hmem, hoffer⟩
    have hreg : Registered s₁ := Reachable.registered ⟨tr, hbefore⟩
    rcases hstep.vPairID hreg with hsub | ⟨env, hdl, message, ms, q', rfl, hoffer, hfrom, hpairs⟩
    · exact hearlier (hsub.subset hq)
    · rw [hpairs] at hq
      rcases List.mem_append.1 hq with hq | hq
      · exact hearlier hq
      · obtain rfl := List.mem_singleton.1 hq
        exact ⟨s₁, env, hdl, message, ms, by simp, hoffer, hfrom⟩

/-- **Pairs are recorded as named.** -/
theorem pairs_as_named {tr : List (SignalServer H × Event H)}
    (hrun : Transition.Run Step .init tr s) :
    (∀ p ∈ tr, (p.2.outcome p.1).server.vPairID.Sublist p.1.vPairID ∨
      ∃ env hdl message ms q, p.2 = .receive env hdl message ∧ OfferTo message ms q.to ∧
        (∀ j, (member ms "from".toList).integer? = some j → q.from = j) ∧
        (p.2.outcome p.1).server.vPairID = p.1.vPairID ++ [q]) ∧
    (∀ q ∈ s.vPairID, ∃ s₁ env hdl message ms, (s₁, .receive env hdl message) ∈ tr ∧
      OfferTo message ms q.to ∧
      ∀ j, (member ms "from".toList).integer? = some j → q.from = j) ∧
    ∀ env hdl message ms i j, OfferTo message ms i →
      (member ms "from".toList).integer? = some j → minInt ≤ j → j ≤ maxInt →
      ((Event.receive env hdl message).outcome s).server = s.record ⟨j, i⟩ := by
  refine ⟨?_, fun q hq => exists_offer_of_mem hrun hq, ?_⟩
  · intro p hmem
    obtain ⟨s₁, e⟩ := p
    obtain ⟨tr₁, tr₂, rfl, hbefore⟩ := hrun.before_of_mem hmem
    obtain ⟨-, t, hstep, -⟩ := hrun.split_at
    have hpairs := hstep.vPairID (Reachable.registered ⟨tr₁, hbefore⟩)
    rw [hstep.2] at hpairs
    exact hpairs
  · intro env hdl message ms i j hoffer hj hmin hmax
    exact hoffer.recorded (Value.asInt_of_integer_mem hj hmin hmax) env hdl s

theorem offerToTwo_offer : OfferTo offerToTwo.text offerToTwo.members 2 where
  parse := offerToTwo.parse
  signal := ⟨.string kMessage, rfl, rfl⟩
  type := ⟨.string "offer".toList, rfl, rfl⟩
  recipient := rfl

/-- The pair of the one call is the one its offer named. -/
theorem pairs_as_named_once : ∃ s₁ env hdl message ms,
    (s₁, .receive env hdl message) ∈ oneCallTrace ∧ OfferTo message ms 1 ∧
    ∀ j, (member ms "from".toList).integer? = some j → 0 = j :=
  (pairs_as_named oneCall_run).2.1 ⟨0, 1⟩ (by decide)

/-- The third peer records a call of the first, and so does a connection that never signed in. -/
theorem call_forged : Reachable oneCall ∧
    oneCall.mapPeers[3]? = some ⟨2, 3, "a".toList⟩ ∧ oneCall.mapPeers[4]? = none ∧
    ((Event.receive .plain 3 offerToTwo.text).outcome oneCall).server.vPairID =
      oneCall.vPairID ++ [⟨0, 2⟩] ∧
    ((Event.receive .plain 4 offerToTwo.text).outcome oneCall).server.vPairID =
      oneCall.vPairID ++ [⟨0, 2⟩] := by
  refine ⟨oneCall_reachable, by decide, by decide, ?_, ?_⟩
  · rw [offerToTwo_offer.recorded rfl]
    rfl
  · rw [offerToTwo_offer.recorded rfl]
    rfl

/-! ## Every pair is accounted for -/

/-- The pair that an event records. -/
def Event.recorded? (s : SignalServer H) (e : Event H) : Option Pair :=
  match e.change s with
  | .record q => some q
  | _ => none

/-- The pair that an event takes out of the list. -/
def Event.removed? (s : SignalServer H) (e : Event H) : Option Pair :=
  match e.change s with
  | .leave _ id => s.vPairID.find? fun p => p.Mentions id
  | _ => none

/-- The pairs recorded over a run, in order. -/
def recordedPairs (tr : List (SignalServer H × Event H)) : List Pair :=
  tr.filterMap fun p => p.2.recorded? p.1

/-- The pairs taken out over a run. -/
def removedPairs (tr : List (SignalServer H × Event H)) : List Pair :=
  tr.filterMap fun p => p.2.removed? p.1

/-- A step keeps the balance of the list. -/
theorem Step.keeps_balance {e : Event H} {s' : SignalServer H} (hs : Registered s)
    (h : Step s e s') :
    s'.vPairID.Sublist (s.vPairID ++ (e.recorded? s).toList) ∧
      (s.vPairID ++ (e.recorded? s).toList).Perm (s'.vPairID ++ (e.removed? s).toList) := by
  rw [h.eq_apply hs]
  unfold Event.recorded? Event.removed?
  cases hc : e.change s with
  | stay => simp [SignalServer.apply]
  | signIn hdl name id => simp [SignalServer.apply, SignalServer.signIn]
  | record q => simp [SignalServer.apply, SignalServer.record]
  | leave hdl id =>
    simp only [SignalServer.apply, SignalServer.leave, Option.toList_none, List.append_nil]
    refine ⟨List.eraseP_sublist, ?_⟩
    cases hfind : s.vPairID.find? fun p => p.Mentions id with
    | none =>
      have hnone : ∀ p ∈ s.vPairID, ¬ decide (p.Mentions id) = true := List.find?_eq_none.1 hfind
      rw [List.eraseP_of_forall_not hnone, Option.toList_none, List.append_nil]
    | some q =>
      -- what is erased is what was found
      obtain ⟨hq, before, after, hsplit, hbefore⟩ := List.find?_eq_some_iff_append.1 hfind
      have hfirst : ∀ p ∈ before, ¬ decide (p.Mentions id) = true := by
        intro p hp
        simpa using hbefore p hp
      have hself : (q :: after).eraseP (fun p => p.Mentions id) = after :=
        List.eraseP_cons_of_pos (by simpa using hq)
      rw [hsplit, List.eraseP_append_right _ hfirst, hself, Option.toList_some, List.append_assoc]
      have hlast : ([q] ++ after).Perm (after ++ [q]) := List.perm_append_comm
      exact hlast.append_left before

/-- **No pair is lost or made up.** Over a run, `m_vPairID` holds the pairs of the offers so far, in
their order, except for those that departures took out, one at a time. -/
theorem pairs_balance {tr : List (SignalServer H × Event H)}
    (hrun : Transition.Run Step .init tr s) :
    s.vPairID.Sublist (recordedPairs tr) ∧
      (recordedPairs tr).Perm (s.vPairID ++ removedPairs tr) := by
  induction hrun with
  | nil => exact ⟨List.Sublist.refl _, List.Perm.refl _⟩
  | @snoc tr s₁ s₂ e hbefore hstep ih =>
    obtain ⟨hsub, hperm⟩ := ih
    have hreg : Registered s₁ := Reachable.registered ⟨tr, hbefore⟩
    obtain ⟨hstepSub, hstepPerm⟩ := hstep.keeps_balance hreg
    have hrecorded : recordedPairs (tr ++ [(s₁, e)]) =
        recordedPairs tr ++ (e.recorded? s₁).toList := by
      rw [recordedPairs, List.filterMap_append]
      cases hr : e.recorded? s₁ <;> simp [recordedPairs, hr]
    have hremoved : removedPairs (tr ++ [(s₁, e)]) =
        removedPairs tr ++ (e.removed? s₁).toList := by
      rw [removedPairs, List.filterMap_append]
      cases hr : e.removed? s₁ <;> simp [removedPairs, hr]
    rw [hrecorded, hremoved]
    refine ⟨hstepSub.trans (hsub.append_right _), ?_⟩
    calc (recordedPairs tr ++ (e.recorded? s₁).toList).Perm
          (s₁.vPairID ++ removedPairs tr ++ (e.recorded? s₁).toList) := hperm.append_right _
      _ |>.Perm (s₁.vPairID ++ (e.recorded? s₁).toList ++ removedPairs tr) := by
          rw [List.append_assoc, List.append_assoc]
          exact List.perm_append_comm.append_left _
      _ |>.Perm (s₂.vPairID ++ (e.removed? s₁).toList ++ removedPairs tr) :=
          hstepPerm.append_right _
      _ |>.Perm (s₂.vPairID ++ (removedPairs tr ++ (e.removed? s₁).toList)) := by
          rw [List.append_assoc]
          exact List.perm_append_comm.append_left _

/-- Of two calls, the close of the caller takes out the first. -/
theorem pairs_balance_close : ∃ tr, ∃ s : SignalServer ℕ, Transition.Run Step .init tr s ∧
    s.vPairID = [⟨0, 2⟩] ∧ s.vPairID.Sublist (recordedPairs tr) ∧
    (recordedPairs tr).Perm (s.vPairID ++ removedPairs tr) ∧ removedPairs tr ≠ [] := by
  have hcall : Step oneCall (.receive .plain 1 offerToTwo.text) twoCalls :=
    .offer offerToTwo_request
  have hclose : Step twoCalls (.close .plain 1) ((Event.close .plain 1).outcome twoCalls).server :=
    .close
  have hrun := (oneCall_run.snoc hcall).snoc hclose
  obtain ⟨hsub, hperm⟩ := pairs_balance hrun
  refine ⟨_, _, hrun, by decide, hsub, hperm, ?_⟩
  have hremoved : (Event.close Env.plain 1).removed? twoCalls = some ⟨0, 1⟩ := by decide
  rw [removedPairs, List.filterMap_append]
  simp [hremoved]

end WsSignalServer
