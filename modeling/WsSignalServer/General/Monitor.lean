import WsSignalServer.General.Transition

/-!
# A condition variable with one waiter

Producers change data under a lock and, once they have released it, notify. One consumer tests the
data under the same lock and blocks if they are not `ready`; a notification or nothing at all wakes
it, and it tests again. What producers and consumer do to the data is left open.

**Theorem (`owed`).** When the consumer is blocked although the data are ready, some producer still
owes its notification. The order of the notifications does not matter, nor that they come after
the lock was released.
-/

namespace Monitor

variable {σ P : Type*}

/-- The data, whether the consumer is blocked, and the producers that have changed the data but not
notified. -/
structure State (σ P : Type*) where
  shared : σ
  blocked : Bool
  owing : Set P

inductive Label (P : Type*) where
  | produce (p : P)
  | notify (p : P)
  | wake
  | block
  | consume

inductive Step (ready : σ → Prop) : State σ P → Label P → State σ P → Prop
  | produce (s : State σ P) (p : P) (shared : σ) :
      Step ready s (.produce p) { s with shared, owing := insert p s.owing }
  | notify (s : State σ P) (p : P) :
      Step ready s (.notify p) { s with blocked := false, owing := s.owing \ {p} }
  | wake (s : State σ P) : Step ready s .wake { s with blocked := false }
  | block (s : State σ P) (h : ¬ ready s.shared) : Step ready s .block { s with blocked := true }
  | consume (s : State σ P) (shared : σ) (h : s.blocked = false) :
      Step ready s .consume { s with shared }

variable {ready : σ → Prop} {s s₀ : State σ P} {tr : List (State σ P × Label P)}

/-- **No wake-up is lost.** -/
theorem owed (hrun : Transition.Run (Step ready) s₀ tr s) (h₀ : s₀.blocked = false) :
    s.blocked = true → ready s.shared → s.owing.Nonempty := by
  refine hrun.invariant (P := fun s => s.blocked = true → ready s.shared → s.owing.Nonempty) ?_ ?_
  · intro s l s' hs hstep hblocked hready
    cases hstep with
    | produce p shared => exact ⟨p, Set.mem_insert p s.owing⟩
    | notify p => cases hblocked
    | wake => cases hblocked
    | block h => exact absurd hready h
    | consume shared h =>
      rw [h] at hblocked
      cases hblocked
  · intro hblocked
    rw [h₀] at hblocked
    cases hblocked

end Monitor
