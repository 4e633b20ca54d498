import WsSignalServer.General.Transition

/-!
# A queue with one consumer

Any number of producers push at one end of a queue. A single consumer pops from the other end,
handles what it holds, and goes on until it has handled an item that says to stop, or until the
handling crashes.

* `conserved`: what was pushed is what was handled, then what is held, then what is queued.
* `stopped`: a consumer that stopped did so at the first item that says to stop.
-/

namespace General.Fifo

variable {α : Type*}

inductive Consumer (α : Type*) where
  | waiting
  | holding (a : α)
  | stopped
  | crashed

structure State (α : Type*) where
  queue : List α
  consumer : Consumer α

inductive Label (α : Type*) where
  | push (a : α)
  | pop
  | handle (a : α)

inductive Step (stop : α → Bool) : State α → Label α → State α → Prop
  | push {queue : List α} {c : Consumer α} (a : α) :
      Step stop ⟨queue, c⟩ (.push a) ⟨queue ++ [a], c⟩
  | pop {a : α} {queue : List α} : Step stop ⟨a :: queue, .waiting⟩ .pop ⟨queue, .holding a⟩
  | handle {a : α} {queue : List α} {c : Consumer α}
      (h : c = .crashed ∨ c = if stop a then .stopped else .waiting) :
      Step stop ⟨queue, .holding a⟩ (.handle a) ⟨queue, c⟩

def State.init : State α := ⟨[], .waiting⟩

def Consumer.held : Consumer α → List α
  | .holding a => [a]
  | _ => []

def Label.pushed? : Label α → Option α
  | .push a => some a
  | _ => none

def Label.handled? : Label α → Option α
  | .handle a => some a
  | _ => none

/-- The items pushed, in order. -/
def pushed (labels : List (Label α)) : List α := labels.filterMap Label.pushed?

/-- The items handled, in order. -/
def handled (labels : List (Label α)) : List α := labels.filterMap Label.handled?

theorem pushed_snoc (labels : List (Label α)) (l : Label α) :
    pushed (labels ++ [l]) = pushed labels ++ l.pushed?.toList := by
  unfold pushed
  rw [List.filterMap_append]
  cases hl : l.pushed? <;> simp [hl]

theorem handled_snoc (labels : List (Label α)) (l : Label α) :
    handled (labels ++ [l]) = handled labels ++ l.handled?.toList := by
  unfold handled
  rw [List.filterMap_append]
  cases hl : l.handled? <;> simp [hl]

variable {stop : α → Bool} {s : State α} {tr : List (State α × Label α)}

/-- **Nothing is lost, doubled or reordered.** -/
theorem conserved (h : Transition.Run (Step stop) State.init tr s) :
    pushed (tr.map Prod.snd) =
      handled (tr.map Prod.snd) ++ (s.consumer.held ++ s.queue) := by
  refine h.history (P := fun labels s =>
    pushed labels = handled labels ++ (s.consumer.held ++ s.queue)) rfl ?_
  intro labels s l s' hs hstep
  rw [pushed_snoc, handled_snoc, hs]
  cases hstep with
  | push a => simp [Label.pushed?, Label.handled?]
  | pop => simp [Label.pushed?, Label.handled?, Consumer.held]
  | @handle a queue c h =>
    have hheld : c.held = [] := by
      rcases h with rfl | rfl
      · rfl
      · split_ifs <;> rfl
    rw [hheld]
    simp [Label.pushed?, Label.handled?, Consumer.held]

theorem handled_prefix_pushed (h : Transition.Run (Step stop) State.init tr s) :
    handled (tr.map Prod.snd) <+: pushed (tr.map Prod.snd) :=
  ⟨_, (conserved h).symm⟩

/-- What the consumer has handled, by what became of it. -/
def Progress (stop : α → Bool) (done : List α) : Consumer α → Prop
  | .waiting | .holding _ => ∀ a ∈ done, stop a = false
  | .stopped => ∃ before a, done = before ++ [a] ∧ stop a = true ∧ ∀ b ∈ before, stop b = false
  | .crashed => True

theorem progress (h : Transition.Run (Step stop) State.init tr s) :
    Progress stop (handled (tr.map Prod.snd)) s.consumer := by
  refine h.history (P := fun labels s => Progress stop (handled labels) s.consumer)
    (fun _ h => absurd h List.not_mem_nil) ?_
  intro labels s l s' hs hstep
  rw [handled_snoc]
  cases hstep with
  | push a => simpa [Label.handled?] using hs
  | pop => simpa [Label.handled?, Progress] using hs
  | @handle a queue c h =>
    change ∀ b ∈ handled labels, stop b = false at hs
    show Progress stop (handled labels ++ [a]) c
    rcases h with rfl | rfl
    · trivial
    · split_ifs with ha
      · exact ⟨handled labels, a, rfl, ha, hs⟩
      · intro b hb
        rcases List.mem_append.1 hb with hb | hb
        · exact hs b hb
        · rw [List.mem_singleton.1 hb]
          exact eq_false_of_ne_true ha

/-- **A consumer stops at the first item that says so.** -/
theorem stopped (h : Transition.Run (Step stop) State.init tr s) (hs : s.consumer = .stopped) :
    ∃ before a, handled (tr.map Prod.snd) = before ++ [a] ∧ stop a = true ∧
      ∀ b ∈ before, stop b = false := by
  have hprogress := progress h
  rw [hs] at hprogress
  exact hprogress

end General.Fifo
