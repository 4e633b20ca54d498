import WsSignalServer.Registry

/-!
# `NextID`

The search starts after the last id given out and wraps at `INT_MAX`, once before the loop and once
in it. With fewer than `INT_MAX` peers some id is free, whatever ids the peers have, so the loop
meets one before it is back where it started.

**Theorem (`nextID_first`).** `NextID` ends on the first id of `lastId + 1, ..., INT_MAX - 1, 0,
..., lastId` that no peer has. No addition overflows on the way, and only the last id changes.
-/

namespace WsSignalServer

open Std General Json

variable {H : Type} [LinearOrder H] {s : SignalServer H}

/-- The addition of two `int`s: undefined when the sum is none. -/
def addInt (a b : ℤ) : Option ℤ := if minInt ≤ a + b ∧ a + b ≤ maxInt then some (a + b) else none

/-- `wrap` at `INT_MAX`, on `int`s. -/
def wrapInt (id : ℤ) : Option ℤ := (addInt id 1).map fun id => if id ≥ maxInt then 0 else id

/-- The search of `NextID` on `int`s. It has no result if an addition overflows. -/
def SignalServer.freshInt (s : SignalServer H) : Option ℤ :=
  (wrapInt s.lastId).bind (runWhileOption s.isExistId wrapInt maxInt.toNat)

/-- The ids in the order of the search. -/
def SignalServer.cyclicIds (s : SignalServer H) : List ℤ :=
  Int.range (s.lastId + 1) maxInt ++ Int.range 0 (s.lastId + 1)

theorem isExistId_iff {id : ℤ} : s.isExistId id = true ↔ s.Registers id := by
  rw [← Bool.not_eq_false, isExistId_eq_false_iff, SignalServer.Registers]
  simp only [ne_eq, not_forall, not_not, exists_prop]

/-- Below `INT_MAX` there is room for one more. -/
theorem wrapInt_eq {id : ℤ} (h₀ : -1 ≤ id) (h : id < maxInt) :
    wrapInt id = some (wrap maxInt id) := by
  have hmin : minInt ≤ id + 1 := by
    unfold minInt
    omega
  rw [wrapInt, addInt, if_pos ⟨hmin, h⟩]
  rfl

theorem freshInt_eq (h₀ : -1 ≤ s.lastId) (h : s.lastId < maxInt) : s.freshInt = s.freshId := by
  rw [SignalServer.freshInt, wrapInt_eq h₀ h, Option.bind_some]
  refine runWhileOption_eq (I := fun id => 0 ≤ id ∧ id < maxInt) ?_ (wrap_mem h₀ (by decide))
  intro id hmem
  exact ⟨wrapInt_eq (by omega) hmem.2, wrap_mem (by omega) (by decide)⟩

theorem freshId_eq_find? (h₀ : -1 ≤ s.lastId) (h : s.lastId < maxInt) :
    s.freshId = s.cyclicIds.find? fun id => !s.isExistId id := by
  rw [SignalServer.freshId, runWhile_eq_find?, map_wrap_iterate (by decide) h₀ h]
  rfl

/-- **`NextID` finds the first free id in cyclic order.** The peers may have any ids. -/
theorem nextID_first (fr : Frame H) (hsize : (fr.server.mapPeers.size : ℤ) < maxInt)
    (h₀ : -1 ≤ fr.server.lastId) (h : fr.server.lastId < maxInt) :
    ∃ id, nextID.run fr = .ok id { fr with server.lastId := id } ∧
      fr.server.freshInt = some id ∧
      ∃ before after, fr.server.cyclicIds = before ++ id :: after ∧
        (∀ j ∈ before, fr.server.Registers j) ∧ ¬ fr.server.Registers id := by
  obtain ⟨id, hid⟩ := exists_freshId h₀ hsize
  have hfind := hid
  rw [freshId_eq_find? h₀ h, List.find?_eq_some_iff_append] at hfind
  obtain ⟨hfree, before, after, hsplit, hbefore⟩ := hfind
  refine ⟨id, ?_, (freshInt_eq h₀ h).trans hid, before, after, hsplit, ?_, ?_⟩
  · rw [nextID_run, hid]
  · intro j hj
    have htaken := hbefore j hj
    rw [Bool.not_not] at htaken
    exact isExistId_iff.1 htaken
  · rw [← isExistId_iff]
    simpa using hfree

/-- With the last id `INT_MAX - 1` and the id 0 taken, the search wraps and finds 1. -/
def wrappedServer : SignalServer ℕ := { onePeer with lastId := maxInt - 1 }

theorem nextID_first_wrapped : ∃ id, nextID.run ⟨wrappedServer, []⟩ =
    .ok id ⟨{ wrappedServer with lastId := id }, []⟩ ∧ wrappedServer.freshInt = some id := by
  obtain ⟨id, hrun, hint, -⟩ :=
    nextID_first ⟨wrappedServer, []⟩ (by decide) (by decide) (by decide)
  exact ⟨id, hrun, hint⟩

end WsSignalServer
