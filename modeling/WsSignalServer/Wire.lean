import WsSignalServer.Json.Encoding
import WsSignalServer.Lifecycle
import WsSignalServer.Names

/-!
# Messages on the wire

`Send` takes a text, and what stands behind it in the other modules is a `Value`: the server writes
with `toStyledString` what it built, and the client reads that text. Here the two are put together.
Everything the server sends is built from values it has read, which may hold any bytes, from the
names it keeps, which came in the same way, and from ids.

**Theorem (`deliveries_read_back`).** As long as no message is longer than a third of a gigabyte or
has comments in it, every text the server sends, in any run of its threads, is ASCII, and a reader
takes it as the value that was sent, with its strings repaired.

**Theorem (`signIn_answer_read`).** A client that has signed in reads an id that leads back to it and
the ICE server that was configured.

**Theorem (`relayed_read_back`).** So the recipient of a message reads what the server read, and
when the message is UTF-8, exactly that.
-/

namespace WsSignalServer

open Std General Json Json.ObjectValues

variable {H : Type} [LinearOrder H] {s s' : SignalServer H}

/-- A value that can be written and read back. -/
abbrev Writable (d : ℕ) (v : Value) : Prop := v.Fits WritableKey WritableString d

theorem writableKey_of_plain {k : Str} (h : PlainText k) (hlength : k.length ≤ 100) :
    WritableKey k := by
  rw [WritableKey, repair_of_plain h]
  exact hlength.trans_lt (by decide)

/-- Members under names of the server's own. -/
theorem Writable.putAll {d : ℕ} {ms : ObjectValues} {entries : List (Str × Value)} (keys : List Str)
    (hms : Writable (d + 1) (.object ms)) (hkeys : entries.map Prod.fst = keys)
    (hplain : ∀ k ∈ keys, PlainText k ∧ k.length ≤ 100) (h : ∀ e ∈ entries, Writable d e.2) :
    Writable (d + 1) (.object (putAll ms entries)) := by
  subst hkeys
  induction entries generalizing ms with
  | nil => exact hms
  | cons e entries ih =>
    rw [List.map_cons, List.forall_mem_cons] at hplain
    rw [List.forall_mem_cons] at h
    have hkey := writableKey_of_plain hplain.1.1 hplain.1.2
    exact ih (Value.Fits.put hkey h.1 hms) h.2 hplain.2

theorem Writable.touch {d : ℕ} {ms : ObjectValues} {key : Str} (hkey : WritableKey key)
    (hms : Writable (d + 2) (.object ms)) : Writable (d + 2) (.object (touch key ms)) := by
  unfold ObjectValues.touch
  split_ifs
  · exact hms
  · exact Value.Fits.put hkey .null hms

theorem Writable.member {d : ℕ} {ms : ObjectValues} (hms : Writable (d + 2) (.object ms))
    (key : Str) : Writable (d + 1) (member ms key) := by
  unfold WsSignalServer.member
  cases hlookup : ms.lookup key with
  | none => exact .null
  | some v => exact hms.lookup hlookup

theorem writable_int {d : ℕ} {i : ℤ} (hmin : minInt ≤ i) (hmax : i ≤ maxInt) :
    Writable (d + 1) (.int i) :=
  .int (by unfold minInt at hmin; omega) hmax

/-! ## What is sent -/

def ICE.Writable (ice : ICE) : Prop :=
  WritableString ice.uri ∧ WritableString ice.username ∧ WritableString ice.password

/-- The message and the ICE server can be written. -/
def Event.Short : Event H → Prop
  | .receive env _ message => env.iceServer.Writable ∧ Rewritable message
  | .close _ _ => True

/-- The names of the peers can be written. -/
def SignalServer.NamesWritable (s : SignalServer H) : Prop :=
  ∀ (k : H) (p : Peer H), s.mapPeers[k]? = some p → WritableString p.name

theorem writable_plain {s : Str} (h : PlainText s ∧ s.length ≤ 100) {d : ℕ} :
    Writable (d + 1) (.string s) :=
  .string (writableString_of_plain h.1 h.2)

theorem signOutNotice_writable {id : ℤ} (hmin : minInt ≤ id) (hmax : id ≤ maxInt) (d : ℕ) :
    Writable (d + 2) (signOutNotice id) := by
  apply Writable.putAll [kSignal, kID] .empty rfl (by decide)
  simp only [List.forall_mem_cons, List.not_mem_nil, IsEmpty.forall_iff, implies_true, and_true]
  exact ⟨writable_plain (by decide), writable_int hmin hmax⟩

theorem signOutReply_writable (d : ℕ) : Writable (d + 2) (.object signOutReply) := by
  apply Writable.putAll [kSignal, "request".toList, "status".toList] .empty rfl (by decide)
  simp only [List.forall_mem_cons, List.not_mem_nil, IsEmpty.forall_iff, implies_true, and_true]
  exact ⟨writable_plain (by decide), writable_plain (by decide), writable_plain (by decide)⟩

theorem existReply_writable {id : ℤ} (hmin : minInt ≤ id) (hmax : id ≤ maxInt) (d : ℕ) :
    Writable (d + 2) (.object (existReply id)) := by
  have hreturn : Writable (d + 2) (.object (ObjectValues.putAll []
      [(kSignal, .string "return".toList), ("request".toList, .string "exist".toList)])) := by
    apply Writable.putAll [kSignal, "request".toList] .empty rfl (by decide)
    simp only [List.forall_mem_cons, List.not_mem_nil, IsEmpty.forall_iff, implies_true, and_true]
    exact ⟨writable_plain (by decide), writable_plain (by decide)⟩
  unfold existReply
  simp only
  split_ifs
  · apply Writable.putAll ["id".toList, "exist".toList] hreturn rfl (by decide)
    simp only [List.forall_mem_cons, List.not_mem_nil, IsEmpty.forall_iff, implies_true, and_true]
    exact ⟨writable_int hmin hmax, .boolean⟩
  · exact Value.Fits.put (writableKey_of_plain (by decide) (by decide)) .boolean hreturn

theorem signInReply_writable {ice : ICE} {id : ℤ} {name : Str} (hice : ice.Writable)
    (hmin : minInt ≤ id) (hmax : id ≤ maxInt) (hname : WritableString name) (sameId : ℤ) (d : ℕ) :
    Writable (d + 3) (.object (signInReply ice id name sameId)) := by
  have hreturn : Writable (d + 3) (.object (ObjectValues.putAll []
      [(kID, .int id), (kName, .string name), (kSignal, .string "return".toList),
       ("request".toList, .string "sign_in".toList), ("status".toList, .string "ok".toList),
       ("repeat".toList, .boolean (sameId ≠ -1))])) := by
    apply Writable.putAll [kID, kName, kSignal, "request".toList, "status".toList, "repeat".toList]
      .empty rfl (by decide)
    simp only [List.forall_mem_cons, List.not_mem_nil, IsEmpty.forall_iff, implies_true, and_true]
    exact ⟨writable_int hmin hmax, .string hname, writable_plain (by decide),
      writable_plain (by decide), writable_plain (by decide), .boolean⟩
  unfold signInReply
  simp only
  split_ifs
  · refine Value.Fits.put (writableKey_of_plain (by decide) (by decide)) ?_ hreturn
    apply Writable.putAll ["uri".toList, "username".toList, "password".toList] .empty rfl (by decide)
    simp only [List.forall_mem_cons, List.not_mem_nil, IsEmpty.forall_iff, implies_true, and_true]
    exact ⟨.string hice.1, .string hice.2.1, .string hice.2.2⟩
  · exact hreturn

theorem peerList_writable (hs : Registered s) (hnames : s.NamesWritable) (d : ℕ) :
    Writable (d + 3) s.peerList := by
  unfold SignalServer.peerList
  cases hlist : s.mapPeers.toList with
  | nil => exact .null
  | cons pa rest =>
    refine .array fun v hv => ?_
    rw [← hlist] at hv
    obtain ⟨⟨k, p⟩, hp, rfl⟩ := List.mem_map.1 hv
    rw [ExtTreeMap.mem_toList_iff_getElem?_eq_some] at hp
    obtain ⟨hid₀, hidN⟩ := hs.range k p hp
    have hmin : minInt ≤ p.id := by
      unfold minInt
      omega
    apply Writable.putAll ["name".toList, "id".toList] .empty rfl (by decide)
    simp only [List.forall_mem_cons, List.not_mem_nil, IsEmpty.forall_iff, implies_true, and_true]
    exact ⟨.string (hnames k p hp), writable_int hmin hidN.le⟩

/-! ## Requests -/

/-- The members a request was made from. -/
def Request.Of (ms : ObjectValues) : Request → Prop
  | .ignored => True
  | .signIn name _ => (member ms kName).asString = .ok name
  | .signOut id => (member ms kID).asInt = .ok id
  | .message value _ _ => value = .object (touch "to".toList ms)
  | .exist _ => True

theorem ofSignal_of {ms : ObjectValues} {type : Str} {request : Request}
    (h : Request.ofSignal ms type = .ok request) : request.Of ms := by
  unfold Request.ofSignal at h
  split_ifs at h with hin hout hmessage hexist
  · cases hname : (WsSignalServer.member ms kName).asString <;> rw [hname] at h <;> cases h
    exact hname
  · cases hid : (WsSignalServer.member ms kID).asInt <;> rw [hid] at h <;> cases h
    exact hid
  · cases hint : (WsSignalServer.member ms "to".toList).asInt <;> rw [hint] at h <;> cases h
    rfl
  · cases hname : (WsSignalServer.member ms "name".toList).asString <;> rw [hname] at h <;> cases h
    trivial
  · cases h
    trivial

/-- A request was made from members that can be written. -/
theorem ofText_of {message : Str} {request : Request} (h : Request.ofText message = .ok request)
    (hmessage : Rewritable message) :
    request = .ignored ∨ ∃ ms, Writable Reader.stackLimit (.object ms) ∧ request.Of ms := by
  by_cases hne : request = .ignored
  · exact .inl hne
  · obtain ⟨ms, signal, type, hparse, -, -, hrequest⟩ := ofText_eq_ok h hne
    exact .inr ⟨ms, hmessage.fits hparse, ofSignal_of hrequest⟩

/-- Which names there are to write is up to the sign-ins. -/
theorem Step.namesWritable {e : Event H} (hs : Registered s) (hnames : s.NamesWritable)
    (he : e.Short) (h : Step s e s') : s'.NamesWritable := by
  rw [h.eq_apply hs]
  rcases e.change_cases s with hc | ⟨env, hdl, message, name, nolist, id, rfl, hreq, -, hc⟩ |
    ⟨_, hdl, _, id, _, _, hc⟩ | ⟨_, _, _, _, _, _, _, _, hc⟩ | ⟨_, hdl, p, _, _, hc⟩
  all_goals rw [hc]
  · exact hnames
  · intro k p hp
    rcases getElem?_insert_iff.1 hp with ⟨rfl, rfl⟩ | ⟨-, hp⟩
    · rcases ofText_of hreq he.2 with hne | ⟨ms, hms, hname⟩
      · cases hne
      · exact asString_writable (hms.member (d := 998) kName) hname
    · exact hnames k p hp
  · exact fun k p hp => hnames k p (getElem?_erase_iff.1 hp).2
  · exact hnames
  · exact fun k p hp => hnames k p (getElem?_erase_iff.1 hp).2

/-! ## Every message sent -/

theorem deliver_writable {env : Env H} {id : ℤ} {text : Value} {d : ℕ} (h : Writable d text) :
    ∀ m ∈ s.deliver env id text, Writable d m.text := by
  intro m hm
  obtain ⟨k, -, -, rfl⟩ := mem_deliver_iff.1 hm
  exact h

theorem notices_writable {env : Env H} {hdl : H} {id : ℤ} (hmin : minInt ≤ id) (hmax : id ≤ maxInt)
    (d : ℕ) : ∀ m ∈ s.notices env hdl id, Writable (d + 2) m.text := by
  unfold SignalServer.notices
  split
  · split_ifs
    · exact List.forall_mem_nil _
    · exact deliver_writable (signOutNotice_writable hmin hmax d)
  · exact List.forall_mem_nil _

theorem isExistName_mem (hs : Registered s) (name : Str) :
    minInt ≤ s.isExistName name ∧ s.isExistName name ≤ maxInt := by
  unfold SignalServer.isExistName
  split
  · rename_i kp hkp
    obtain ⟨k, p⟩ := kp
    have hp := ExtTreeMap.mem_toList_iff_getElem?_eq_some.1 (List.mem_of_find?_eq_some hkp)
    obtain ⟨hid₀, hidN⟩ := hs.range k p hp
    simp only
    unfold minInt
    omega
  · decide

/-- Whatever a call sends can be written, also a call that raises or does not end. -/
theorem sent_writable {e : Event H} (hs : Registered s) (hnames : s.NamesWritable) (he : e.Short) :
    ∀ m ∈ (e.outcome s).sent, Writable Reader.stackLimit m.text := by
  cases e with
  | receive env hdl message =>
    obtain ⟨hice, hmessage⟩ := he
    rw [receive_outcome]
    cases hreq : Request.ofText message with
    | error ex => exact List.forall_mem_nil _
    | ok request =>
      -- What the request holds of the message fits, as the message does.
      rcases ofText_of hreq hmessage with rfl | ⟨ms, hms, hof⟩
      · exact List.forall_mem_nil _
      cases request with
      | ignored => exact List.forall_mem_nil _
      | signIn name nolist =>
        have hname := asString_writable (hms.member (d := 998) kName) hof
        simp only [outcomeOf, Request.outcome]
        cases hid : s.freshId with
        | none => exact List.forall_mem_nil _
        | some id =>
          obtain ⟨⟨hid₀, hidN⟩, -⟩ := hs.freshId_spec hid
          have hmin : minInt ≤ id := by
            unfold minInt
            omega
          have hreply := signInReply_writable hice hmin hidN.le hname (s.isExistName name) 997
          simp only [List.forall_mem_singleton]
          split_ifs
          · exact hreply
          · exact Value.Fits.put (writableKey_of_plain (by decide) (by decide))
              (peerList_writable hs hnames 996) hreply
      | signOut id =>
        obtain ⟨hmin, hmax⟩ := Value.asInt_mem hof
        intro m hm
        rcases List.mem_cons.1 hm with rfl | hm
        · exact signOutReply_writable 998
        · exact notices_writable hmin hmax 998 m hm
      | message value id offer =>
        -- The relayed object is the received one with its `to`, and that is written again.
        obtain rfl : value = .object (touch "to".toList ms) := hof
        change ∀ m ∈ ((Request.message _ id offer).outcome env hdl s).sent, _
        rw [Request.message_sent]
        exact deliver_writable (hms.touch (d := 998) (writableKey_of_plain (by decide) (by decide)))
      | exist name =>
        obtain ⟨hmin, hmax⟩ := isExistName_mem hs name
        simp only [outcomeOf, Request.outcome, List.forall_mem_singleton]
        exact existReply_writable hmin hmax 998
  | close env hdl =>
    rw [close_outcome]
    cases hpeer : s.mapPeers[hdl]? with
    | none => exact List.forall_mem_nil _
    | some p =>
      obtain ⟨hid₀, hidN⟩ := hs.range hdl p hpeer
      simp only [if_neg (hs.id_ne hdl p hpeer)]
      exact notices_writable (by unfold minInt; omega) hidN.le 998

/-- The states of a server whose messages have all been short. -/
def ShortReachable (s : SignalServer H) : Prop :=
  ∃ tr, Transition.Run Step SignalServer.init tr s ∧ ∀ p ∈ tr, p.2.Short

theorem ShortReachable.spec (h : ShortReachable s) : Registered s ∧ s.NamesWritable := by
  obtain ⟨tr, hrun, hshort⟩ := h
  refine hrun.invariant_of (P := fun s => Registered s ∧ s.NamesWritable)
    (C := fun _ e => e.Short) ?_ ⟨.init, fun k p hp => ?_⟩ hshort
  · intro s e s' hs he h
    exact ⟨h.registered hs.1, h.namesWritable hs.1 hs.2 he⟩
  rw [SignalServer.init, ExtTreeMap.getElem?_empty] at hp
  cases hp

/-- **Every text the server sends is read as the value behind it**, with its strings repaired, and
is ASCII: in every run, for every call, how ever it ends. -/
theorem sent_read_back {e : Event H} (hs : ShortReachable s) (he : e.Short) :
    ∀ m ∈ (e.outcome s).sent,
      Reader.parse m.text.toStyledString = .ok (some m.text.repaired) ∧
      PlainText m.text.toStyledString := by
  obtain ⟨hregistered, hnames⟩ := hs.spec
  intro m hm
  exact ⟨parse_toStyledString (sent_writable hregistered hnames he m hm), toStyledString_plain _⟩

theorem ShortReachable.snoc {e : Event H} {s' : SignalServer H} (h : ShortReachable s)
    (hstep : Step s e s') (he : e.Short) : ShortReachable s' := by
  obtain ⟨tr, hrun, hshort⟩ := h
  exact ⟨_, hrun.snoc hstep, List.forall_mem_append.2 ⟨hshort, List.forall_mem_singleton.2 he⟩⟩

theorem shortReachable_init : ShortReachable (SignalServer.init : SignalServer H) :=
  ⟨[], .nil, List.forall_mem_nil _⟩

theorem ICE.default_writable : ICE.default.Writable :=
  ⟨writableString_of_plain (by decide) (by decide), writableString_of_plain (by decide) (by decide),
    writableString_of_plain (by decide) (by decide)⟩

/-! ## Signing in -/

/-- The member of a sign-in reply. -/
def ICE.value (ice : ICE) : Value :=
  .object (ObjectValues.putAll [] [("uri".toList, .string ice.uri),
    ("username".toList, .string ice.username), ("password".toList, .string ice.password)])

def ICE.Utf8 (ice : ICE) : Prop :=
  Utf8String ice.uri ∧ Utf8String ice.username ∧ Utf8String ice.password

theorem ICE.Utf8.repaired {ice : ICE} (h : ice.Utf8) : ice.value.repaired = ice.value := by
  have hkey : ∀ k ∈ ["uri".toList, "username".toList, "password".toList], Utf8Key k := by
    have hplain : ∀ k ∈ ["uri".toList, "username".toList, "password".toList], PlainText k := by
      decide
    intro k hk
    refine ⟨repair_eq_self.1 (repair_of_plain (hplain k hk)), ?_⟩
    simp only [List.mem_cons, List.not_mem_nil, or_false] at hk
    rcases hk with rfl | rfl | rfl <;> decide
  simp only [List.forall_mem_cons, List.not_mem_nil, IsEmpty.forall_iff, implies_true,
    and_true] at hkey
  have hfits : Utf8Fits 2 ice.value := by
    refine Value.Fits.put hkey.2.2 (.string h.2.2) ?_
    refine Value.Fits.put hkey.2.1 (.string h.2.1) ?_
    exact Value.Fits.put hkey.1 (.string h.1) .empty
  exact repaired_eq hfits

theorem signInReply_ice {ice : ICE} (huri : ice.uri ≠ []) (id : ℤ) (name : Str) (sameId : ℤ) :
    (signInReply ice id name sameId).lookup "ice".toList = some ice.value := by
  unfold signInReply
  rw [if_pos huri, lookup_put, if_pos rfl]
  rfl

theorem signInReply_name (ice : ICE) (id : ℤ) (name : Str) (sameId : ℤ) :
    (signInReply ice id name sameId).lookup kName = some (.string name) := by
  rw [signInReply_lookup ice id name sameId (by decide)]
  rfl

/-- **What a client reads when it has signed in**: an id that leads back to it, its name, and the
ICE server that `main` has set up. -/
theorem signIn_answer_read {env : Env H} {hdl : H} {message name : Str} {nolist : Bool}
    (hs : ShortReachable s) (hshort : (Event.receive env hdl message).Short)
    (hrequest : Request.ofText message = .ok (.signIn name nolist))
    (hstep : Step s (.receive env hdl message) s') (huri : env.iceServer.uri ≠ [])
    (hutf8 : env.iceServer.Utf8) :
    ∃ text ms id, ((Event.receive env hdl message).outcome s).sent = [⟨text, hdl⟩] ∧
      Reader.parse text.toStyledString = .ok (some (.object ms)) ∧
      ms.lookup kID = some (.int id) ∧ s'.getConnectionFromID id = some hdl ∧
      ms.lookup kName = some (.string (repair name)) ∧
      ms.lookup "ice".toList = some env.iceServer.value := by
  obtain ⟨hregistered, hnames⟩ := hs.spec
  obtain ⟨id, hid, rfl⟩ := hstep.freshId hrequest
  obtain ⟨reply, said, hsent, hsaid, hlookup, -⟩ := signIn_said env hdl hrequest hid
  have hwritable := sent_writable hregistered hnames hshort ⟨.object reply, hdl⟩ (by simp [hsent])
  have hread := parse_toStyledString hwritable
  rw [hsaid] at hread
  refine ⟨_, said, id, hsent, hread, ?_, ?_, ?_, ?_⟩
  · rw [hlookup kID (by decide), signInReply_id]
    rfl
  · rw [(hregistered.signIn hdl name hid).getConnectionFromID_eq_some_iff]
    exact ⟨_, getElem?_insert_iff.2 (.inl ⟨rfl, rfl⟩), rfl⟩
  · rw [hlookup kName (by decide), signInReply_name]
    rfl
  · rw [hlookup "ice".toList (by decide), signInReply_ice huri, Option.map_some, hutf8.repaired]

theorem utf8String_of_plain {s : Str} (h : PlainText s) (hlength : s.length ≤ 100) :
    Utf8String s :=
  ⟨repair_eq_self.1 (repair_of_plain h), hlength.trans (by decide)⟩

/-- The first client of a server with the default ICE server. -/
theorem signIn_answer_read_first : ∃ text ms id,
    ((Event.receive .plain 1 signInText.text).outcome SignalServer.init).sent = [⟨text, 1⟩] ∧
    Reader.parse text.toStyledString = .ok (some (.object ms)) ∧
    ms.lookup kID = some (.int id) ∧ onePeer.getConnectionFromID id = some 1 ∧
    ms.lookup kName = some (.string (repair "a".toList)) ∧
    ms.lookup "ice".toList = some ICE.default.value := by
  have huri : ICE.default.uri ≠ [] := by decide
  have hutf8 : ICE.default.Utf8 :=
    ⟨utf8String_of_plain (by decide) (by decide), utf8String_of_plain (by decide) (by decide),
      utf8String_of_plain (by decide) (by decide)⟩
  exact signIn_answer_read shortReachable_init ⟨ICE.default_writable, by decide⟩
    signInText_request onePeer_step huri hutf8

/-! ## Relaying -/

namespace WebsocketServer

variable {w w' : WebsocketServer H} {l : Label H} {tr : List (WebsocketServer H × Label H)}

/-- The text frames that come in are short, and so is the ICE server. -/
def Label.Short : Label H → Prop
  | .onMessage _ msg => msg.opcode = .text → Rewritable msg.payload
  | .dispatch env _ => env.iceServer.Writable
  | _ => True

/-- What is dispatched has come in before. -/
theorem short_of_dispatched {env : Env H} {hdl : H} {payload : Str}
    (hrun : Transition.Run Step init (tr ++ [(w, .dispatch env (.message hdl ⟨.text, payload⟩))]) w')
    (hshort : ∀ p ∈ tr ++ [(w, .dispatch env (.message hdl ⟨.text, payload⟩))], p.2.Short) :
    (Event.receive env hdl payload).Short := by
  refine ⟨hshort _ (List.mem_append_right _ (List.mem_singleton_self _)), ?_⟩
  have hpushed := (dispatched_prefix_pushed hrun).subset
    (show Action.message hdl ⟨.text, payload⟩ ∈ _ by simp [dispatched, Label.dispatched?])
  obtain ⟨l, hl, hpush⟩ := List.mem_filterMap.1 hpushed
  obtain ⟨p, hp, rfl⟩ := List.mem_map.1 hl
  have hlabel : p.2 = .onMessage hdl ⟨.text, payload⟩ := by
    cases hcase : p.2 <;> simp_all [Label.pushed?]
  have hp' := hshort p hp
  rw [hlabel] at hp'
  exact hp' rfl

theorem signal_short (hrun : Transition.Run Step init tr w) (hshort : ∀ p ∈ tr, p.2.Short) :
    ShortReachable w.signal := by
  induction hrun with
  | nil => exact shortReachable_init
  | @snoc tr w w' l hbefore hstep ih =>
    have hprev : ShortReachable w.signal := ih fun p hp => hshort p (List.mem_append_left _ hp)
    rcases step_cases hstep with ⟨a, -, -, rfl⟩ | ⟨-, a, as, -, -, rfl⟩ |
      ⟨env, a, ds, rfl, -, -, heffect⟩
    · exact hprev
    · exact hprev
    · cases heffect with
      | unsubscribe hdl signal loop hcore => exact hprev.snoc hcore trivial
      | text hdl payload signal loop hcore =>
        exact hprev.snoc hcore (short_of_dispatched (hbefore.snoc hstep) hshort)
      | _ => exact hprev

/-- **Whatever the server passes to an endpoint can be read.** In every run of the network threads
and the processing thread, and whatever they do in between, each text sent is read as the value the
server built, repaired. -/
theorem deliveries_read_back (hrun : Transition.Run Step init tr w)
    (hshort : ∀ p ∈ tr, p.2.Short) : ∀ p ∈ tr, ∀ d ∈ p.1.sends p.2,
      Reader.parse d.payload.toStyledString = .ok (some d.payload.repaired) ∧
      PlainText d.payload.toStyledString := by
  intro p hmem d hd
  obtain ⟨w₁, l⟩ := p
  obtain ⟨tr₁, tr₂, rfl, hbefore⟩ := hrun.before_of_mem hmem
  obtain ⟨-, t, hstep, -⟩ := hrun.split_at
  have hshort₁ : ∀ p ∈ tr₁ ++ [(w₁, l)], p.2.Short := by
    intro p hp
    apply hshort p
    rw [List.append_cons]
    exact List.mem_append_left _ hp
  have hsignal : ShortReachable w₁.signal :=
    signal_short hbefore fun p hp => hshort₁ p (List.mem_append_left _ hp)
  obtain ⟨env, a, w₂, ds, rfl, heffect, hd⟩ := effect_of_mem_sends hd
  cases heffect with
  | unsubscribe hdl signal loop hcore =>
    obtain ⟨m, hm, rfl⟩ := List.mem_map.1 hd
    exact sent_read_back hsignal (e := .close env hdl) trivial m hm
  | text hdl payload signal loop hcore =>
    obtain ⟨m, hm, rfl⟩ := List.mem_map.1 hd
    exact sent_read_back hsignal (short_of_dispatched (hbefore.snoc hstep) hshort₁) m hm
  | _ => cases hd

/-- Connection 1 signs in, and its answer is read. -/
theorem deliveries_read_back_signIn :
    Reader.parse (Value.object signInAnswer).toStyledString =
      .ok (some (Value.object signInAnswer).repaired) ∧
    PlainText (Value.object signInAnswer).toStyledString := by
  let signIn : Action ℕ := .message 1 ⟨.text, signInText.text⟩
  let w₁ : WebsocketServer ℕ := { init with actions := [signIn] }
  let w₂ : WebsocketServer ℕ := { init with loop := .holding signIn }
  have h₁ : Step init (.onMessage 1 ⟨.text, signInText.text⟩) w₁ := rfl
  have h₂ : Step w₁ .pop w₂ := rfl
  have h₃ : Step w₂ (.dispatch .plain signIn) { init with
      signal := ((Request.signIn "a".toList false).outcome .plain 1 .init).server } :=
    .text rfl signInText_request rfl
  have hrun := ((Transition.Run.nil.snoc h₁).snoc h₂).snoc h₃
  have hends : ((Request.signIn "a".toList false).outcome Env.plain 1 w₂.signal).ending ≠
      some .spins := by
    intro h
    cases h
  have hsent : w₂.send (.object signInAnswer) 1 ∈ w₂.sends (.dispatch .plain signIn) := by
    rw [sends_text signInText_request hends]
    exact List.mem_singleton.2 rfl
  refine deliveries_read_back hrun ?_ (w₂, .dispatch .plain signIn) (by simp) _ hsent
  intro p hp
  simp only [List.nil_append, List.cons_append, List.mem_cons, List.not_mem_nil, or_false] at hp
  rcases hp with rfl | rfl | rfl
  · exact fun _ => by decide
  · trivial
  · exact ICE.default_writable

end WebsocketServer

end WsSignalServer
