import WsSignalServer.Pairs
import WsSignalServer.Relay

/-!
# Leaving

A connection leaves by a sign-out message or by its close. The two are written apart in the
source, but do the same when the message carries the id the connection is registered with
(`leavings_agree`). The close that follows a sign-out finds nothing left to do.

Whatever pairs clients had recorded, a close tells at most one peer, who was in a pair with the one
that left (`close_notice_sound`).
-/

namespace WsSignalServer

open Std General Json Json.ObjectValues

variable {H : Type} [LinearOrder H] {s : SignalServer H}

theorem length_notices (s : SignalServer H) (env : Env H) (hdl : H) (id : ℤ) :
    (s.notices env hdl id).length ≤ 1 := by
  unfold SignalServer.notices
  split
  · split_ifs
    · exact Nat.zero_le 1
    · exact length_deliver _ env _ _
  · exact Nat.zero_le 1

/-- The id that is given up has no peer any more. -/
theorem Registered.leave_not_registers {hdl : H} {p : Peer H} (hs : Registered s)
    (hp : s.mapPeers[hdl]? = some p) : ¬ (s.leave hdl p.id).Registers p.id := by
  intro h
  obtain ⟨k, b, hb, hid⟩ := h
  obtain ⟨hne, hb⟩ := getElem?_erase_iff.1 hb
  exact hne (hs.distinct k hdl b p hb hp hid)

/-- A notice takes the pair it is about out of the list, and no other. -/
theorem leave_vPairID_of_first (hdl : H) {i : ℤ} {q : Pair}
    (hfirst : s.vPairID.find? (fun q => q.Mentions i) = some q) : ∃ before after,
      s.vPairID = before ++ q :: after ∧ (s.leave hdl i).vPairID = before ++ after := by
  obtain ⟨before, after, -, hsplit, herase⟩ :=
    List.exists_erase_eq (List.mem_of_find?_eq_some hfirst)
  refine ⟨before, after, hsplit, ?_⟩
  rw [leave_vPairID, hfirst]
  exact herase

/-- Once it is not registered, the close of a connection does nothing. -/
theorem close_outcome_of_left {hdl : H} (h : s.mapPeers[hdl]? = none) (env : Env H) :
    (Event.close env hdl).outcome s = ⟨none, s, []⟩ := by
  rw [close_outcome, h]

/-- **A sign-out under its own id is a close.** A connection that signs out with the id it is
registered under leaves the server, and tells others, as its close would; the close that follows
does nothing. -/
theorem leavings_agree (hs : Reachable s) (env : Env H) {hdl : H} {p : Peer H} {message : Str}
    {ms : ObjectValues} {signal : Value} (hp : s.mapPeers[hdl]? = some p)
    (hparse : Reader.parse message = .ok (some (.object ms)))
    (hsignal : ms.lookup kSignal = some signal) (htype : signal.asString = .ok kSignOut)
    (hid : (member ms kID).asInt = .ok p.id) :
    ((Event.receive env hdl message).outcome s).server =
      ((Event.close env hdl).outcome s).server ∧
    ((Event.receive env hdl message).outcome s).sent.filter (·.hdl ≠ hdl) =
      ((Event.close env hdl).outcome s).sent.filter (·.hdl ≠ hdl) ∧
    ∀ env' : Env H,
      (Event.close env' hdl).outcome ((Event.receive env hdl message).outcome s).server =
        ⟨none, ((Event.receive env hdl message).outcome s).server, []⟩ := by
  have hrequest : Request.ofText message = .ok (.signOut p.id) := by
    rw [ofText_object hparse hsignal htype, Request.ofSignal, if_neg (by decide), if_pos rfl, hid]
    rfl
  rw [receive_outcome_of_request hrequest, hs.registered.close_outcome hp]
  refine ⟨rfl, ?_, fun env' => ?_⟩
  · show List.filter _ (⟨.object signOutReply, hdl⟩ :: s.notices env hdl p.id) = _
    rw [List.filter_cons_of_neg (by simp)]
  · exact close_outcome_of_left ExtTreeMap.getElem?_erase_self env'

/-- The caller of the first call may sign out or close. -/
theorem leavings_agree_caller :
    ((Event.receive .plain 1 signOutText.text).outcome oneCall).server =
      ((Event.close .plain 1).outcome oneCall).server := by
  have hp : oneCall.mapPeers[1]? = some ⟨0, 1, "a".toList⟩ := by decide
  exact (leavings_agree oneCall_reachable .plain hp signOutText.parse rfl rfl rfl).1

/-- **The notice of a close is sound.** There is at most one; it names the id the connection was
registered under, which nobody has any more, and goes to another peer, in a pair with that id; that
pair is gone, and no other. The close of a connection that is not registered does nothing. -/
theorem close_notice_sound (hs : Reachable s) (env : Env H) (hdl : H) :
    ((Event.close env hdl).outcome s).sent.length ≤ 1 ∧
    (∀ m ∈ ((Event.close env hdl).outcome s).sent, ∃ p b q before after,
      s.mapPeers[hdl]? = some p ∧ m.text = signOutNotice p.id ∧
      m.hdl ≠ hdl ∧ s.mapPeers[m.hdl]? = some b ∧ q.Joins p.id b.id ∧
      s.vPairID = before ++ q :: after ∧
      ((Event.close env hdl).outcome s).server.vPairID = before ++ after ∧
      ¬ ((Event.close env hdl).outcome s).server.Registers p.id) ∧
    (s.mapPeers[hdl]? = none → (Event.close env hdl).outcome s = ⟨none, s, []⟩) := by
  have hreg := hs.registered
  cases hp : s.mapPeers[hdl]? with
  | none =>
    rw [close_outcome_of_left hp]
    refine ⟨Nat.zero_le 1, fun m hm => ?_, fun _ => rfl⟩
    cases hm
  | some p =>
    rw [hreg.close_outcome hp]
    refine ⟨length_notices s env hdl p.id, fun m hm => ?_, fun h => ?_⟩
    · obtain ⟨htext, q, b, hfirst, hb, hne, hid⟩ := of_mem_notices hreg hm
      obtain ⟨before, after, hsplit, hleft⟩ := leave_vPairID_of_first hdl hfirst
      have hmentions : q.Mentions p.id := by simpa using List.find?_some hfirst
      have hjoins := hmentions.joins
      rw [← hid] at hjoins
      exact ⟨p, b, q, before, after, rfl, htext, hne, hb, hjoins, hsplit, hleft,
        hreg.leave_not_registers hp⟩
    · cases h

/-- The callee is told that the caller closed. -/
theorem close_notice_sound_callee : ∃ (p b : Peer ℕ) (q : Pair), oneCall.mapPeers[1]? = some p ∧
    oneCall.mapPeers[2]? = some b ∧ q.Joins p.id b.id ∧
    ⟨signOutNotice p.id, 2⟩ ∈ ((Event.close .plain 1).outcome oneCall).sent := by
  have hsent : ⟨signOutNotice 0, 2⟩ ∈ ((Event.close .plain 1).outcome oneCall).sent := by decide
  obtain ⟨p, b, q, -, -, hp, htext, -, hb, hjoins, -⟩ :=
    (close_notice_sound oneCall_reachable .plain 1).2.1 _ hsent
  refine ⟨p, b, q, hp, hb, hjoins, ?_⟩
  rw [← htext]
  exact hsent

end WsSignalServer
