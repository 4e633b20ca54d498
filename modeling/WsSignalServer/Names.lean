import WsSignalServer.Json.RoundTrip
import WsSignalServer.Registry

/-!
# Names

A client learns the ids of others by their names: from an `exist` request, and from the reply to
its own sign-in. Names may be shared, so a lookup by name takes the first entry it meets, and
returns its id, or -1 for none. Ids are never negative, so the sign tells the two apart.

**Theorem (`exist_resolves`).** The reply to `exist` says whether a peer of that name is
registered. Its id leads to one, and a message to that id reaches it.

**Theorem (`describesOthers_iff`).** The reply to a sign-in describes the registry before the
step. That is the other peers, unless the connection was registered itself: then its old entry
is in the list, under an id that leads nowhere from now on, and its own name counts as a repeat.
And what the client gets is the text of the reply, where a name that is no UTF-8 is repaired, and
so is a name that nobody has.
-/

namespace WsSignalServer

open Std General Json Json.ObjectValues

variable {H : Type} [LinearOrder H] {s t : SignalServer H}

/-! ## Lookup by name -/

/-- Connection `k` is registered under this name. -/
def SignalServer.Named (s : SignalServer H) (name : Str) (k : H) : Prop :=
  ∃ p, s.mapPeers[k]? = some p ∧ p.name = name

theorem not_named_of_none (name : Str) {k : H} (h : s.mapPeers[k]? = none) : ¬ s.Named name k := by
  intro hnamed
  obtain ⟨p, hp, -⟩ := hnamed
  rw [h] at hp
  cases hp

/-- A lookup by name finds the id of some peer of that name, or there is none. -/
theorem isExistName_cases (s : SignalServer H) (name : Str) :
    (s.isExistName name = -1 ∧ ∀ k, ¬ s.Named name k) ∨
      ∃ (k : H) (p : Peer H), s.mapPeers[k]? = some p ∧ p.name = name ∧
        s.isExistName name = p.id := by
  unfold SignalServer.isExistName
  cases hfind : s.mapPeers.toList.find? fun e => e.2.name = name with
  | none =>
    refine .inl ⟨rfl, ?_⟩
    intro k hk
    obtain ⟨p, hp, hname⟩ := hk
    have hmem := ExtTreeMap.mem_toList_iff_getElem?_eq_some.2 hp
    exact absurd (decide_eq_true hname) (List.find?_eq_none.1 hfind _ hmem)
  | some e =>
    obtain ⟨k, p⟩ := e
    have hmem := List.mem_of_find?_eq_some hfind
    have hname := List.find?_some hfind
    exact .inr ⟨k, p, ExtTreeMap.mem_toList_iff_getElem?_eq_some.1 hmem, of_decide_eq_true hname,
      rfl⟩

/-- The sign of the id is a found flag. -/
theorem Registered.isExistName_nonneg_iff (hs : Registered s) {name : Str} :
    0 ≤ s.isExistName name ↔ ∃ k, s.Named name k := by
  rcases isExistName_cases s name with ⟨hnone, hno⟩ | ⟨k, p, hp, hname, hid⟩
  · simp [hnone, hno]
  · simp only [hid, (hs.range k p hp).1, true_iff]
    exact ⟨k, p, hp, hname⟩

/-- So is being different from -1. -/
theorem Registered.isExistName_ne_iff (hs : Registered s) {name : Str} :
    s.isExistName name ≠ -1 ↔ ∃ k, s.Named name k := by
  rw [← hs.isExistName_nonneg_iff]
  rcases isExistName_cases s name with ⟨hnone, -⟩ | ⟨k, p, hp, -, hid⟩
  · simp [hnone]
  · have hnonneg := (hs.range k p hp).1
    rw [hid]
    omega

/-- An id found by name leads to a connection of that name. -/
theorem Registered.getConnectionFromID_isExistName (hs : Registered s) {name : Str}
    (h : ∃ k, s.Named name k) :
    ∃ k, s.getConnectionFromID (s.isExistName name) = some k ∧ s.Named name k := by
  rcases isExistName_cases s name with ⟨-, hno⟩ | ⟨k, p, hp, hname, hid⟩
  · obtain ⟨k, hk⟩ := h
    exact absurd hk (hno k)
  · exact ⟨k, hs.getConnectionFromID_eq_some_iff.2 ⟨p, hp, hid.symm⟩, p, hp, hname⟩

/-! ## Requests whether a name exists -/

theorem existReply_exist (id : ℤ) :
    (existReply id).lookup "exist".toList = some (.boolean (0 ≤ id)) := by
  unfold existReply
  by_cases hid : 0 ≤ id
  · rw [if_pos hid, decide_eq_true hid]
    rfl
  · rw [if_neg hid, decide_eq_false hid]
    rfl

theorem existReply_id {id : ℤ} (h : 0 ≤ id) :
    (existReply id).lookup "id".toList = some (.int id) := by
  unfold existReply
  rw [if_pos h]
  rfl

/-- **A peer found by name can be reached.** The request is answered, and changes nothing. The
answer is yes exactly when a peer of that name is registered. Then its id leads to one, and a
message to that id goes there. -/
theorem exist_resolves {message name : Str} {ms : ObjectValues} {signal : Value} (hs : Reachable s)
    (hparse : Reader.parse message = .ok (some (.object ms)))
    (hsignal : ms.lookup kSignal = some signal) (htype : signal.asString = .ok "exist".toList)
    (hname : (member ms "name".toList).asString = .ok name) (env : Env H) (hdl : H) :
    ∃ reply found, (Event.receive env hdl message).outcome s = ⟨none, s, [⟨.object reply, hdl⟩]⟩ ∧
      reply.lookup "exist".toList = some (.boolean found) ∧
      (found = true ↔ ∃ k, s.Named name k) ∧
      (found = true → ∃ id k, reply.lookup "id".toList = some (.int id) ∧
        s.getConnectionFromID id = some k ∧ s.Named name k ∧
        ∀ (env' : Env H) (sender : H) (text : Str) (value : Value)
          (offer : Except Exception (Option ℤ)),
          Request.ofText text = .ok (.message value id offer) → env'.expired k = false →
          ((Event.receive env' sender text).outcome s).sent = [⟨value, k⟩]) := by
  have hreg := hs.registered
  have hrequest := ofText_exist hparse hsignal htype hname
  refine ⟨existReply (s.isExistName name), decide (0 ≤ s.isExistName name), ?_,
    existReply_exist _, ?_, ?_⟩
  · rw [receive_outcome_of_request hrequest]
    rfl
  · rw [decide_eq_true_iff]
    exact hreg.isExistName_nonneg_iff
  · intro hfound
    have hnonneg := of_decide_eq_true hfound
    obtain ⟨k, hk, hnamed⟩ :=
      hreg.getConnectionFromID_isExistName (hreg.isExistName_nonneg_iff.1 hnonneg)
    refine ⟨_, k, existReply_id hnonneg, hk, hnamed, ?_⟩
    intro env' sender text value offer htext hlive
    rw [receive_outcome_of_request htext, Request.message_sent]
    exact deliver_of_lookup hk hlive value

/-- A client asks for `a`. -/
def existText : ObjectText where
  text := "\x7b\"signal\":\"exist\",\"name\":\"a\"\x7d".toList
  members := [("name".toList, .string "a".toList), (kSignal, .string "exist".toList)]
  parse := by decide +kernel

/-- Connection 2 finds connection 1. -/
theorem exist_resolves_first : ∃ reply found,
    (Event.receive Env.plain 2 existText.text).outcome onePeer =
      ⟨none, onePeer, [⟨.object reply, 2⟩]⟩ ∧
    reply.lookup "exist".toList = some (.boolean found) ∧ found = true := by
  have hsignal : existText.members.lookup kSignal = some (.string "exist".toList) := rfl
  obtain ⟨reply, found, houtcome, hexist, hfound, -⟩ :=
    exist_resolves onePeer_reachable existText.parse hsignal rfl rfl Env.plain 2
  have hpeer : onePeer.mapPeers[1]? = some ⟨0, 1, "a".toList⟩ := by decide
  exact ⟨reply, found, houtcome, hexist, hfound.2 ⟨1, _, hpeer, rfl⟩⟩

/-! ## The list of peers -/

/-- An entry of the list. -/
def peerOf : Value → Option (Str × ℤ)
  | .object ms =>
    match ms.lookup "name".toList, ms.lookup "id".toList with
    | some (.string name), some (.int id) => some (name, id)
    | _, _ => none
  | _ => none

/-- The entries of a list of peers. Null counts as the empty list. -/
def peersOf : Value → Option (List (Str × ℤ))
  | .null => some []
  | .array peers => peers.mapM peerOf
  | _ => none

def Peer.listing (p : Peer H) : Str × ℤ := (p.name, p.id)

/-- The registered connections other than `hdl`. -/
def SignalServer.others (s : SignalServer H) (hdl : H) : List (H × Peer H) :=
  s.mapPeers.toList.filter fun e => e.1 ≠ hdl

/-- The demand on the reply to a sign-in on `hdl` under `name`, as its text has it, from the registry
before (`s`) and after (`t`). -/
structure DescribesOthers (s t : SignalServer H) (hdl : H) (name : Str) (nolist : Bool)
    (reply : ObjectValues) : Prop where
  repeats : reply.lookup "repeat".toList = some (.boolean true) ↔ ∃ k ≠ hdl, s.Named name k
  lists : nolist = false → ∃ peers entries, reply.lookup "peers".toList = some peers ∧
    peersOf peers = some entries ∧ entries.Perm ((s.others hdl).map fun e => e.2.listing) ∧
    ∀ entry ∈ entries, ∃ k ≠ hdl, t.getConnectionFromID entry.2 = some k ∧ t.Named entry.1 k

/-- What the text says of a peer. -/
def Peer.listed (p : Peer H) : Str × ℤ := (repair p.name, p.id)

omit [LinearOrder H] in
theorem Peer.listed_eq_iff {p : Peer H} : p.listed = p.listing ↔ IsUtf8 p.name := by
  rw [← repair_eq_self, Peer.listed, Peer.listing, Prod.mk.injEq, and_iff_left rfl]

/-- What is listed in the text is the whole registry, with the names repaired. -/
theorem peersOf_peerList_repaired (s : SignalServer H) :
    peersOf s.peerList.repaired = some (s.mapPeers.toList.map fun e => e.2.listed) := by
  have hpeer : ∀ p : Peer H, peerOf (Value.object (putAll []
      [("name".toList, .string p.name), ("id".toList, .int p.id)])).repaired = some p.listed := by
    intro p
    have hname : repair "name".toList = "name".toList := repair_of_plain (by decide)
    have hid : repair "id".toList = "id".toList := repair_of_plain (by decide)
    show peerOf (Value.object [("id".toList, .int p.id), ("name".toList, .string p.name)]).repaired
      = _
    rw [Value.repaired, repairedMembers_eq]
    simp only [List.map_cons, List.map_nil, hname, hid]
    rfl
  unfold SignalServer.peerList
  cases s.mapPeers.toList with
  | nil => rfl
  | cons e es =>
    rw [Value.repaired, repairedArray_eq, peersOf, List.mapM_map, List.mapM_map]
    simp only [Function.comp_def, hpeer]
    exact List.mapM_pure

/-! ## The reply to a sign-in -/

theorem signInReply_repeat (ice : ICE) (id : ℤ) (name : Str) (sameId : ℤ) :
    (signInReply ice id name sameId).lookup "repeat".toList = some (.boolean (sameId ≠ -1)) := by
  rw [signInReply_lookup ice id name sameId (by decide)]
  rfl

/-- The names of the members of a sign-in reply. -/
def replyKeys : List Str :=
  [kID, kName, kSignal, "request".toList, "status".toList, "repeat".toList, "ice".toList,
    "peers".toList]

theorem replyKeys_utf8 {k : Str} (h : k ∈ replyKeys) : IsUtf8 k := by
  have hplain : ∀ k ∈ replyKeys, PlainText k := by decide
  exact repair_eq_self.1 (repair_of_plain (hplain k h))

/-- An object with members of those names only. -/
def IsReply (reply : ObjectValues) : Prop := Sorted reply ∧ ∀ m ∈ reply, m.1 ∈ replyKeys

theorem IsReply.put {reply : ObjectValues} {key : Str} (h : IsReply reply) (hkey : key ∈ replyKeys)
    (v : Value) : IsReply (reply.put key v) := by
  refine ⟨sorted_put key v h.1, ?_⟩
  intro m hm
  rcases mem_put hm with rfl | hm
  · exact hkey
  · exact h.2 m hm

theorem signInReply_isReply (ice : ICE) (id : ℤ) (name : Str) (sameId : ℤ) :
    IsReply (signInReply ice id name sameId) := by
  have hreturn : IsReply (ObjectValues.putAll []
      [(kID, Value.int id), (kName, .string name), (kSignal, .string "return".toList),
       ("request".toList, .string "sign_in".toList), ("status".toList, .string "ok".toList),
       ("repeat".toList, .boolean (sameId ≠ -1))]) := by
    refine ⟨sorted_putAll _ List.Pairwise.nil, ?_⟩
    intro m hm
    rcases mem_putAll hm with hm | hm
    · simp only [List.mem_cons, List.not_mem_nil, or_false] at hm
      rcases hm with rfl | rfl | rfl | rfl | rfl | rfl <;> simp [replyKeys]
    · cases hm
  unfold signInReply
  simp only
  split_ifs
  · exact hreturn.put (by simp [replyKeys]) _
  · exact hreturn

/-- What the text of the reply says, member by member. -/
theorem signIn_said (env : Env H) (hdl : H) {message name : Str} {nolist : Bool} {id : ℤ}
    (hrequest : Request.ofText message = .ok (.signIn name nolist)) (hid : s.freshId = some id) :
    ∃ reply said, ((Event.receive env hdl message).outcome s).sent = [⟨.object reply, hdl⟩] ∧
      (Value.object reply).repaired = .object said ∧
      (∀ key, key ≠ "peers".toList → said.lookup key =
        ((signInReply env.iceServer id name (s.isExistName name)).lookup key).map Value.repaired) ∧
      (nolist = false → said.lookup "peers".toList = some s.peerList.repaired) := by
  have hreply := signInReply_isReply env.iceServer id name (s.isExistName name)
  rw [receive_outcome_of_request hrequest]
  simp only [Request.outcome, hid]
  generalize signInReply env.iceServer id name (s.isExistName name) = jreturn at hreply
  have hwith : IsReply (if nolist then jreturn else put "peers".toList s.peerList jreturn) := by
    split_ifs
    · exact hreply
    · exact hreply.put (by simp [replyKeys]) _
  obtain ⟨said, hsaid, hlookup⟩ := repaired_lookup hwith.1 fun m hm => replyKeys_utf8 (hwith.2 m hm)
  refine ⟨_, said, rfl, hsaid, ?_, ?_⟩
  · intro key hkey
    rw [hlookup]
    split_ifs
    · rfl
    · rw [lookup_put, if_neg hkey]
  · intro hlist
    rw [hlookup, hlist, if_neg (by decide), lookup_put, if_pos rfl]
    rfl

/-! ## The other peers -/

/-- A list of the whole registry leaves out the own connection only when it has no entry. -/
theorem DescribesOthers.unregistered {hdl : H} {name : Str} {nolist : Bool} {reply : ObjectValues}
    (h : DescribesOthers s t hdl name nolist reply) (hnolist : nolist = false)
    (hpeers : reply.lookup "peers".toList = some s.peerList.repaired) :
    s.mapPeers[hdl]? = none ∧
      ∀ (k : H) (p : Peer H), s.mapPeers[k]? = some p → IsUtf8 p.name := by
  obtain ⟨peers, entries, hlist, hentries, hperm, -⟩ := h.lists hnolist
  rw [hpeers] at hlist
  obtain rfl := Option.some.inj hlist
  rw [peersOf_peerList_repaired] at hentries
  obtain rfl := Option.some.inj hentries
  have hids := hperm.map Prod.snd
  rw [List.map_map, List.map_map] at hids
  have hnone : s.mapPeers[hdl]? = none := perm_filter_ne_iff.1 hids
  refine ⟨hnone, ?_⟩
  intro k p hp
  have hne : k ≠ hdl := by
    intro hk
    rw [hk, hnone] at hp
    cases hp
  -- The entry of `p` under its own name is in the list, where all names are repaired.
  have hother : (k, p) ∈ s.others hdl :=
    List.mem_filter.2 ⟨ExtTreeMap.mem_toList_iff_getElem?_eq_some.2 hp, decide_eq_true hne⟩
  have hmem := hperm.mem_iff.2 (List.mem_map_of_mem (f := fun e => e.2.listing) hother)
  obtain ⟨e, -, he⟩ := List.mem_map.1 hmem
  have hname : repair e.2.name = p.name := congrArg Prod.fst he
  rw [← hname]
  exact repair_isUtf8 _

/-- Right after the sign-in of a new connection, the ids of the others lead to them. -/
theorem listed_resolves {hdl : H} {name : Str} {id : ℤ} (ht : Registered (s.signIn hdl name id))
    (hnew : s.mapPeers[hdl]? = none) {entry : Str × ℤ}
    (h : entry ∈ s.mapPeers.toList.map fun e => e.2.listing) :
    ∃ k ≠ hdl, (s.signIn hdl name id).getConnectionFromID entry.2 = some k ∧
      (s.signIn hdl name id).Named entry.1 k := by
  obtain ⟨⟨k, p⟩, hmem, rfl⟩ := List.mem_map.1 h
  have hp := ExtTreeMap.mem_toList_iff_getElem?_eq_some.1 hmem
  have hne : k ≠ hdl := by
    intro hk
    rw [hk, hnew] at hp
    cases hp
  have hkept : (s.signIn hdl name id).mapPeers[k]? = some p := (getElem?_insert_of_ne hne).trans hp
  exact ⟨k, hne, ht.getConnectionFromID_eq_some_iff.2 ⟨p, hkept, rfl⟩, p, hkept, rfl⟩

/-- The own connection of a name makes no difference, unless it is the only one. -/
theorem repeats_iff {hdl : H} {name : Str} :
    ((∃ k, s.Named name k) ↔ ∃ k ≠ hdl, s.Named name k) ↔
      (s.Named name hdl → ∃ k ≠ hdl, s.Named name k) := by
  constructor
  · intro h hown
    exact h.1 ⟨hdl, hown⟩
  · intro h
    refine ⟨?_, ?_⟩
    · intro hsome
      obtain ⟨k, hk⟩ := hsome
      by_cases hkh : k = hdl
      · exact h (hkh ▸ hk)
      · exact ⟨k, hkh, hk⟩
    · intro hother
      obtain ⟨k, -, hk⟩ := hother
      exact ⟨k, hk⟩

/-- **When the reply to a sign-in describes the other peers.** Either the connection is new and all
names are UTF-8, or no list was asked for and its own name is that of another connection too, or is a
different one. -/
theorem describesOthers_iff {env : Env H} {hdl : H} {message name : Str} {ms : ObjectValues}
    {signal : Value} (hs : Reachable s)
    (hparse : Reader.parse message = .ok (some (.object ms)))
    (hsignal : ms.lookup kSignal = some signal) (htype : signal.asString = .ok kSignIn)
    (hname : (member ms kName).asString = .ok name)
    (hstep : Step s (.receive env hdl message) t) :
    ∃ reply said, ((Event.receive env hdl message).outcome s).sent = [⟨.object reply, hdl⟩] ∧
      (Value.object reply).repaired = .object said ∧
      (DescribesOthers s t hdl name (ms.lookup "nolist".toList).isSome said ↔
        (s.mapPeers[hdl]? = none ∧
            ∀ (k : H) (p : Peer H), s.mapPeers[k]? = some p → IsUtf8 p.name) ∨
          (ms.lookup "nolist".toList).isSome = true ∧
            (s.Named name hdl → ∃ k ≠ hdl, s.Named name k)) := by
  have hreg := hs.registered
  have hrequest := ofText_signIn hparse hsignal htype hname
  have ht := hstep.registered hreg
  obtain ⟨id, hid, rfl⟩ := hstep.freshId hrequest
  obtain ⟨reply, said, hsent, hsaid, hlookup, hpeers⟩ := signIn_said env hdl hrequest hid
  refine ⟨reply, said, hsent, hsaid, ?_⟩
  -- The flag is about all names, the own one included.
  have hflag : said.lookup "repeat".toList = some (.boolean true) ↔ ∃ k, s.Named name k := by
    rw [hlookup "repeat".toList (by decide), signInReply_repeat, ← hreg.isExistName_ne_iff]
    simp [Value.repaired]
  constructor
  · intro hdescribes
    have hown := repeats_iff.1 (hflag.symm.trans hdescribes.repeats)
    cases hnolist : (ms.lookup "nolist".toList).isSome with
    | true => exact .inr ⟨rfl, hown⟩
    | false => exact .inl (hdescribes.unregistered hnolist (hpeers hnolist))
  · intro hcond
    rcases hcond with ⟨hnew, hutf8⟩ | ⟨hnolist, hown⟩
    · have hnot := not_named_of_none name hnew
      refine ⟨hflag.trans (repeats_iff.2 fun hown => absurd hown hnot), ?_⟩
      intro hnolist
      -- Names that are UTF-8 are written as they are, so the entries read are the entries listed.
      have hkept : (s.mapPeers.toList.map fun e => e.2.listed) =
          s.mapPeers.toList.map fun e => e.2.listing := by
        apply List.map_congr_left
        intro e he
        have hp := ExtTreeMap.mem_toList_iff_getElem?_eq_some.1 he
        exact Peer.listed_eq_iff.2 (hutf8 e.1 e.2 hp)
      have hentries := peersOf_peerList_repaired s
      rw [hkept] at hentries
      refine ⟨_, _, hpeers hnolist, hentries, perm_filter_ne_iff.2 hnew, ?_⟩
      intro entry hentry
      exact listed_resolves ht hnew hentry
    · refine ⟨hflag.trans (repeats_iff.2 hown), ?_⟩
      intro hlist
      rw [hnolist] at hlist
      cases hlist

/-- A third connection signs in under the name the two others have. -/
theorem describesOthers_third : ∃ reply said,
    ((Event.receive Env.plain 3 signInText.text).outcome twoPeers).sent = [⟨.object reply, 3⟩] ∧
      (Value.object reply).repaired = .object said ∧
      DescribesOthers twoPeers threePeers 3 "a".toList false said := by
  have hsignal : signInText.members.lookup kSignal = some (.string kSignIn) := rfl
  obtain ⟨reply, said, hsent, hsaid, hiff⟩ :=
    describesOthers_iff twoPeers_reachable signInText.parse hsignal rfl rfl threePeers_step
  have hnew : twoPeers.mapPeers[3]? = none := by decide
  have hnames : ∀ (k : ℕ) (p : Peer ℕ), twoPeers.mapPeers[k]? = some p → IsUtf8 p.name := by
    have hplain : ∀ e ∈ twoPeers.mapPeers.toList, PlainText e.2.name := by decide
    intro k p hp
    have hmem := ExtTreeMap.mem_toList_iff_getElem?_eq_some.2 hp
    exact repair_eq_self.1 (repair_of_plain (hplain (k, p) hmem))
  exact ⟨reply, said, hsent, hsaid, hiff.2 (.inl ⟨hnew, hnames⟩)⟩

/-- A connection that signs in again finds itself: a repeat of its name, though no other connection
is registered, and an entry in the list whose id leads nowhere after the step. -/
theorem finds_itself : ∃ reply said,
    ((Event.receive Env.plain 1 signInText.text).outcome onePeer).sent = [⟨.object reply, 1⟩] ∧
    (Value.object reply).repaired = .object said ∧
    Step onePeer (.receive .plain 1 signInText.text) (onePeer.signIn 1 "a".toList 1) ∧
    said.lookup "repeat".toList = some (.boolean true) ∧ onePeer.others 1 = [] ∧
    peersOf (member said "peers".toList) = some [("a".toList, 0)] ∧
    (onePeer.signIn 1 "a".toList 1).getConnectionFromID 0 = none ∧
    ¬ DescribesOthers onePeer (onePeer.signIn 1 "a".toList 1) 1 "a".toList false said := by
  have hid : onePeer.freshId = some 1 := rfl
  have hagain : Step onePeer (.receive .plain 1 signInText.text)
      (onePeer.signIn 1 "a".toList 1) := .signIn signInText_request hid
  obtain ⟨reply, said, hsent, hsaid, hlookup, hpeers⟩ :=
    signIn_said Env.plain 1 signInText_request hid
  have hrepeat : said.lookup "repeat".toList = some (.boolean true) := by
    rw [hlookup "repeat".toList (by decide), signInReply_repeat]
    rfl
  have hlist : peersOf (member said "peers".toList) = some [("a".toList, 0)] := by
    rw [member, hpeers rfl]
    exact peersOf_peerList_repaired onePeer
  refine ⟨reply, said, hsent, hsaid, hagain, hrepeat, by decide, hlist, by decide, ?_⟩
  intro hdescribes
  exact absurd (hdescribes.unregistered rfl (hpeers rfl)).1 (by decide)

end WsSignalServer
