import WsSignalServer.General.Transition

/-!
# The exit signal

`loop_ping` waits on a `condition_mutex` between its ping rounds, and leaves when a wait returns
true. `wait_exit_message` calls `notify` on it once.

**Steps.** Every critical section of `lock_` is one step. `wait` clears the flag and, as it is
clear then, blocks; what wakes it (the notification, nothing at all, or the end of the time) makes
it test the flag again. The return of `wait` comes after its last critical section and is a step
of its own.

**Theorem (`firstReturn_iff`).** The first wait to return after `notify` returns true exactly when
`notify` found a wait blocked.

**Theorem (`lost_for_good`).** Otherwise no wait ever returns true, and `loop_ping` does not leave.
-/

namespace WsSignalServer

/-- `condition_mutex`: the flag and the reason of the last notification. -/
structure ConditionMutex where
  ready : Bool
  reason : ℤ
  deriving DecidableEq, Repr

/-- The thread of `loop_ping`: outside of `wait`, blocked in it, past its last critical section, or
gone. -/
inductive Waiter where
  | pinging
  | blocked
  | returning (result : Bool)
  | left
  deriving DecidableEq, Repr

namespace ConditionMutex

def init : ConditionMutex := ⟨false, 0⟩

/-- The test of `wait_for`, on entry and at every wake-up: it returns when the flag is set and
blocks when it is not. -/
def test (m : ConditionMutex) : Waiter := if m.ready then .returning true else .blocked

/-- `wait`, up to where it blocks. -/
def wait (m : ConditionMutex) : ConditionMutex × Waiter :=
  let m := { m with ready := false }
  (m, m.test)

/-- When the time is over, `wait_for` returns the flag. -/
def timeout (m : ConditionMutex) : Waiter := .returning m.ready

def notify (m : ConditionMutex) (reason : ℤ) : ConditionMutex := { m with ready := true, reason }

end ConditionMutex

/-- The two threads and what they share. -/
structure ExitSignal where
  mutexExit : ConditionMutex
  loopPing : Waiter
  notified : Bool
  deriving DecidableEq, Repr

namespace ExitSignal

def init : ExitSignal := ⟨.init, .pinging, false⟩

inductive Label where
  | wait
  | wake
  | timeout
  | returns (result : Bool)
  | notify
  deriving DecidableEq, Repr

/-- `loop_ping` leaves when `wait` returned true, and makes a ping round when it returned false.
`wait_exit_message` gives no reason. -/
def step (s : ExitSignal) : Label → Option ExitSignal
  | .wait =>
    if s.loopPing = .pinging then
      some { s with mutexExit := s.mutexExit.wait.1, loopPing := s.mutexExit.wait.2 }
    else none
  | .wake => if s.loopPing = .blocked then some { s with loopPing := s.mutexExit.test } else none
  | .timeout =>
    if s.loopPing = .blocked then some { s with loopPing := s.mutexExit.timeout } else none
  | .returns result =>
    if s.loopPing = .returning result then
      some { s with loopPing := if result then .left else .pinging }
    else none
  | .notify =>
    if s.notified then none
    else some { s with mutexExit := s.mutexExit.notify 0, notified := true }

def Step (s : ExitSignal) (l : Label) (s' : ExitSignal) : Prop := s.step l = some s'

def Label.result? : Label → Option Bool
  | .returns result => some result
  | _ => none

/-- What the waits returned, in order. -/
def results (labels : List Label) : List Bool := labels.filterMap Label.result?

variable {s s' : ExitSignal} {l : Label} {tr tr₁ tr₂ : List (ExitSignal × Label)}

theorem results_snoc (labels : List Label) (l : Label) :
    results (labels ++ [l]) = results labels ++ l.result?.toList := by
  unfold results
  rw [List.filterMap_append]
  cases hl : l.result? <;> simp [hl]

/-! ## Steps -/

/-- What a step does. -/
theorem step_cases (h : Step s l s') :
    (l = .wait ∧ s.loopPing = .pinging ∧
      s' = { s with mutexExit := { s.mutexExit with ready := false }, loopPing := .blocked }) ∨
    (l = .wake ∧ s.loopPing = .blocked ∧ s' = { s with loopPing := s.mutexExit.test }) ∨
    (l = .timeout ∧ s.loopPing = .blocked ∧
      s' = { s with loopPing := .returning s.mutexExit.ready }) ∨
    (∃ result, l = .returns result ∧ s.loopPing = .returning result ∧
      s' = { s with loopPing := if result then .left else .pinging }) ∨
    (l = .notify ∧ s.notified = false ∧
      s' = { s with mutexExit := ⟨true, 0⟩, notified := true }) := by
  cases l with
  | wait =>
    obtain ⟨hloop, h⟩ := Option.ite_none_right_eq_some.1 h
    exact .inl ⟨rfl, hloop, (Option.some.inj h).symm⟩
  | wake =>
    obtain ⟨hloop, h⟩ := Option.ite_none_right_eq_some.1 h
    exact .inr (.inl ⟨rfl, hloop, (Option.some.inj h).symm⟩)
  | timeout =>
    obtain ⟨hloop, h⟩ := Option.ite_none_right_eq_some.1 h
    exact .inr (.inr (.inl ⟨rfl, hloop, (Option.some.inj h).symm⟩))
  | returns result =>
    obtain ⟨hloop, h⟩ := Option.ite_none_right_eq_some.1 h
    exact .inr (.inr (.inr (.inl ⟨result, rfl, hloop, (Option.some.inj h).symm⟩)))
  | notify =>
    obtain ⟨hnotified, h⟩ := Option.ite_none_left_eq_some.1 h
    exact .inr (.inr (.inr (.inr ⟨rfl, eq_false_of_ne_true hnotified, (Option.some.inj h).symm⟩)))

/-- Before `notify` the flag is clear and no wait has returned true. -/
def Quiet (s : ExitSignal) : Prop :=
  s.notified = false → s.mutexExit.ready = false ∧ s.loopPing ≠ .returning true ∧ s.loopPing ≠ .left

theorem quiet_step (h : Step s l s') (hs : Quiet s) : Quiet s' := by
  intro hnotified
  rcases step_cases h with ⟨-, hloop, rfl⟩ | ⟨-, hloop, rfl⟩ | ⟨-, hloop, rfl⟩ |
    ⟨result, -, hloop, rfl⟩ | ⟨-, -, rfl⟩
  · simp
  · obtain ⟨hready, -⟩ := hs hnotified
    simp [ConditionMutex.test, hready]
  · obtain ⟨hready, -⟩ := hs hnotified
    simp [hready]
  · obtain ⟨hready, hreturning, -⟩ := hs hnotified
    have hresult : result = false := by
      simpa [hloop] using hreturning
    simp [hready, hresult]
  · cases hnotified

/-! ## After the notification -/

/-- A wait is about to return true. -/
def Heard (s : ExitSignal) : Prop :=
  s.loopPing = .blocked ∧ s.mutexExit.ready = true ∨ s.loopPing = .returning true

/-- No wait will ever return true. -/
def Lost (s : ExitSignal) : Prop :=
  s.notified = true ∧ (s.loopPing = .pinging ∨
    s.loopPing = .blocked ∧ s.mutexExit.ready = false ∨ s.loopPing = .returning false)

/-- **`notify` is heard exactly when it finds a wait blocked.** -/
theorem heard_or_lost (h : Step s .notify s') (hs : Quiet s) :
    s.loopPing = .blocked ∧ Heard s' ∨ s.loopPing ≠ .blocked ∧ Lost s' := by
  rcases step_cases h with ⟨hl, -⟩ | ⟨hl, -⟩ | ⟨hl, -⟩ | ⟨result, hl, -⟩ | ⟨-, hnotified, rfl⟩
  · cases hl
  · cases hl
  · cases hl
  · cases hl
  · obtain ⟨-, hreturning, hleft⟩ := hs hnotified
    cases hloop : s.loopPing with
    | pinging => exact .inr ⟨nofun, rfl, .inl rfl⟩
    | blocked => exact .inl ⟨rfl, .inl ⟨rfl, rfl⟩⟩
    | returning result =>
      cases result with
      | false => exact .inr ⟨nofun, rfl, .inr (.inr rfl)⟩
      | true => exact absurd hloop hreturning
    | left => exact absurd hloop hleft

theorem heard_step (h : Step s l s') (hs : Heard s) :
    l.result? = none ∧ Heard s' ∨ l.result? = some true := by
  rcases step_cases h with ⟨rfl, hloop, rfl⟩ | ⟨rfl, hloop, rfl⟩ | ⟨rfl, hloop, rfl⟩ |
    ⟨result, rfl, hloop, rfl⟩ | ⟨rfl, -, rfl⟩
  · simp [Heard, hloop] at hs
  · have hready : s.mutexExit.ready = true := by simpa [Heard, hloop] using hs
    exact .inl ⟨rfl, .inr (if_pos hready)⟩
  · have hready : s.mutexExit.ready = true := by simpa [Heard, hloop] using hs
    exact .inl ⟨rfl, .inr (congrArg Waiter.returning hready)⟩
  · have hresult : result = true := by simpa [Heard, hloop] using hs
    exact .inr (congrArg some hresult)
  · refine .inl ⟨rfl, ?_⟩
    rcases hs with ⟨hblocked, -⟩ | hreturning
    · exact .inl ⟨hblocked, rfl⟩
    · exact .inr hreturning

theorem lost_step (h : Step s l s') (hs : Lost s) : Lost s' ∧ l.result? ≠ some true := by
  obtain ⟨hnotified, hs⟩ := hs
  rcases step_cases h with ⟨rfl, -, rfl⟩ | ⟨rfl, hloop, rfl⟩ | ⟨rfl, hloop, rfl⟩ |
    ⟨result, rfl, hloop, rfl⟩ | ⟨rfl, hnot, rfl⟩
  · exact ⟨⟨hnotified, .inr (.inl ⟨rfl, rfl⟩)⟩, nofun⟩
  · have hready : s.mutexExit.ready = false := by simpa [hloop] using hs
    have htest : s.mutexExit.test = .blocked := if_neg (by simp [hready])
    exact ⟨⟨hnotified, .inr (.inl ⟨htest, hready⟩)⟩, nofun⟩
  · have hready : s.mutexExit.ready = false := by simpa [hloop] using hs
    exact ⟨⟨hnotified, .inr (.inr (congrArg Waiter.returning hready))⟩, nofun⟩
  · have hresult : result = false := by simpa [hloop] using hs
    refine ⟨⟨hnotified, .inl (if_neg (by simp [hresult]))⟩, ?_⟩
    simp [Label.result?, hresult]
  · rw [hnotified] at hnot
    cases hnot

/-! ## Runs -/

/-- In a run from a state that heard, the first wait to return returns true. -/
theorem heard_run (h : Transition.Run Step s tr s') (hs : Heard s) :
    results (tr.map Prod.snd) = [] ∧ Heard s' ∨ (results (tr.map Prod.snd)).head? = some true := by
  refine h.history (P := fun labels s =>
    results labels = [] ∧ Heard s ∨ (results labels).head? = some true) (.inl ⟨rfl, hs⟩) ?_
  intro labels s l s' hbefore hstep
  rw [results_snoc]
  rcases hbefore with ⟨hnone, hs⟩ | hhead
  · rw [hnone, List.nil_append]
    rcases heard_step hstep hs with ⟨hresult, hs'⟩ | hresult
    · rw [hresult]
      exact .inl ⟨rfl, hs'⟩
    · rw [hresult]
      exact .inr rfl
  · right
    rw [List.head?_append, hhead]
    rfl

/-- In a run from a state that lost the notification, no wait returns true. -/
theorem lost_run (h : Transition.Run Step s tr s') (hs : Lost s) :
    Lost s' ∧ true ∉ results (tr.map Prod.snd) := by
  refine h.history (P := fun labels s => Lost s ∧ true ∉ results labels)
    ⟨hs, List.not_mem_nil⟩ ?_
  intro labels s l s' hbefore hstep
  obtain ⟨hs, hnot⟩ := hbefore
  obtain ⟨hs', hresult⟩ := lost_step hstep hs
  rw [results_snoc, List.mem_append, Option.mem_toList]
  exact ⟨hs', not_or.2 ⟨hnot, hresult⟩⟩

theorem quiet_run (h : Transition.Run Step init tr s) : Quiet s :=
  h.invariant (fun _ _ _ hs hstep => quiet_step hstep hs) fun _ => ⟨rfl, nofun, nofun⟩

/-- **A notification is heard exactly when a wait is blocked.** The first wait to return after
`notify` returns true if and only if `notify` came while a wait was blocked. -/
theorem firstReturn_iff {result : Bool}
    (hrun : Transition.Run Step init (tr₁ ++ (s, .notify) :: tr₂) s')
    (hfirst : (results (tr₂.map Prod.snd)).head? = some result) :
    result = true ↔ s.loopPing = .blocked := by
  obtain ⟨hbefore, t, hnotify, hafter⟩ := hrun.split_at
  rcases heard_or_lost hnotify (quiet_run hbefore) with ⟨hblocked, hheard⟩ | ⟨hblocked, hlost⟩
  · refine iff_of_true ?_ hblocked
    rcases heard_run hafter hheard with ⟨hnone, -⟩ | hhead
    · rw [hnone] at hfirst
      cases hfirst
    · exact Option.some.inj (hfirst.symm.trans hhead)
  · refine iff_of_false ?_ hblocked
    rintro rfl
    exact (lost_run hafter hlost).2 (List.mem_of_head? hfirst)

/-- **A lost notification is lost for good.** -/
theorem lost_for_good (hrun : Transition.Run Step init (tr₁ ++ (s, .notify) :: tr₂) s')
    (hs : s.loopPing ≠ .blocked) : s'.loopPing ≠ .left := by
  obtain ⟨hbefore, t, hnotify, hafter⟩ := hrun.split_at
  rcases heard_or_lost hnotify (quiet_run hbefore) with ⟨hblocked, -⟩ | ⟨-, hlost⟩
  · exact absurd hblocked hs
  · obtain ⟨⟨-, hloop⟩, -⟩ := lost_run hafter hlost
    rcases hloop with hloop | ⟨hloop, -⟩ | hloop <;> simp [hloop]

/-- A notification during the first wait is heard. -/
theorem firstReturn_blocked : ∃ (s s' : ExitSignal) (tr₁ tr₂ : List (ExitSignal × Label)),
    Transition.Run Step init (tr₁ ++ (s, .notify) :: tr₂) s' ∧
      (results (tr₂.map Prod.snd)).head? = some true ∧ s.loopPing = .blocked := by
  let s₁ : ExitSignal := ⟨.init, .blocked, false⟩
  let s₂ : ExitSignal := ⟨⟨true, 0⟩, .blocked, true⟩
  let s₃ : ExitSignal := ⟨⟨true, 0⟩, .returning true, true⟩
  have hrun : Transition.Run Step init ([(init, .wait)] ++ (s₁, .notify) ::
      [(s₂, .wake), (s₃, .returns true)]) ⟨⟨true, 0⟩, .left, true⟩ :=
    (((Transition.Run.nil.snoc rfl).snoc rfl).snoc rfl).snoc rfl
  exact ⟨s₁, _, _, _, hrun, rfl, (firstReturn_iff hrun rfl).1 rfl⟩

/-- A notification before the first wait is not heard: that wait returns false. -/
theorem firstReturn_lost : ∃ (s' : ExitSignal) (tr₂ : List (ExitSignal × Label)),
    Transition.Run Step init ((init, .notify) :: tr₂) s' ∧
      (results (tr₂.map Prod.snd)).head? = some false := by
  let s₁ : ExitSignal := ⟨⟨true, 0⟩, .pinging, true⟩
  let s₂ : ExitSignal := ⟨.init, .blocked, true⟩
  let s₃ : ExitSignal := ⟨.init, .returning false, true⟩
  have hrun : Transition.Run Step init ((init, .notify) ::
      [(s₁, .wait), (s₂, .timeout), (s₃, .returns false)]) ⟨.init, .pinging, true⟩ :=
    (((Transition.Run.nil.snoc rfl).snoc rfl).snoc rfl).snoc rfl
  exact ⟨_, _, hrun, rfl⟩

end ExitSignal

end WsSignalServer
