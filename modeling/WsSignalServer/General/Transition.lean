import Mathlib

/-!
# Runs of a labelled transition relation

A system is a relation `step s e s'`: in state `s` the label `e` may lead to `s'`. A run keeps,
for every label, the state it was taken in, so that a statement about "every step of the run"
or "every state reached" is a statement about the members of one list.

* `Run.invariant`: what one step preserves holds at the end of every run.
* `Run.invariant_of`: the same when only steps that meet a side condition preserve it.
* `Run.forall_iff`: when a step preserves a property exactly if it meets the side condition,
  the property holds all along a run exactly if every step of it meets the condition.
* `Run.history`: an invariant may also speak of the labels taken so far, such as which of two
  came last (`Since`).
* `Run.simulate`: a step-by-step simulation carries runs to runs.
* `Run.project`: so does a map of the states under which some steps are not seen.
-/

namespace Transition

variable {σ ε τ δ : Type*}

/-- `Run step s₀ tr s`: the labels of `tr`, each taken in the state it is paired with, lead
from `s₀` to `s`. -/
inductive Run (step : σ → ε → σ → Prop) (s₀ : σ) : List (σ × ε) → σ → Prop
  | nil : Run step s₀ [] s₀
  | snoc {tr : List (σ × ε)} {s s' : σ} {e : ε} :
      Run step s₀ tr s → step s e s' → Run step s₀ (tr ++ [(s, e)]) s'

/-- The states some run from `s₀` ends in. -/
def Reachable (step : σ → ε → σ → Prop) (s₀ s : σ) : Prop := ∃ tr, Run step s₀ tr s

variable {step : σ → ε → σ → Prop} {s₀ s s' : σ} {e : ε} {tr tr' : List (σ × ε)}

/-- The last step of a run. -/
theorem Run.of_snoc (h : Run step s₀ (tr ++ [(s, e)]) s') : Run step s₀ tr s ∧ step s e s' := by
  generalize htr : tr ++ [(s, e)] = full at h
  cases h with
  | nil => simp at htr
  | snoc hrun hstep =>
    obtain ⟨rfl, hlast⟩ := List.append_inj' htr rfl
    cases hlast
    exact ⟨hrun, hstep⟩

/-- Any step of a run, with the runs before and after it. -/
theorem Run.split_at (h : Run step s₀ (tr ++ (s, e) :: tr') s') :
    Run step s₀ tr s ∧ ∃ t, step s e t ∧ Run step t tr' s' := by
  induction tr' using List.reverseRecOn generalizing s' with
  | nil =>
    obtain ⟨hrun, hstep⟩ := h.of_snoc
    exact ⟨hrun, s', hstep, .nil⟩
  | append_singleton tr' p ih =>
    rw [← List.cons_append, ← List.append_assoc] at h
    obtain ⟨hrun, hstep⟩ := h.of_snoc
    obtain ⟨hbefore, t, hfirst, hafter⟩ := ih hrun
    exact ⟨hbefore, t, hfirst, hafter.snoc hstep⟩

/-- A step of a run is taken in a state that a shorter run reaches. -/
theorem Run.before_of_mem (h : Run step s₀ tr s) (hmem : (s', e) ∈ tr) :
    ∃ tr₁ tr₂, tr = tr₁ ++ (s', e) :: tr₂ ∧ Run step s₀ tr₁ s' := by
  induction h with
  | nil => simp at hmem
  | @snoc tr s t e' hrun _ ih =>
    rcases List.mem_append.1 hmem with hmem | hmem
    · obtain ⟨tr₁, tr₂, rfl, hrun₁⟩ := ih hmem
      exact ⟨tr₁, tr₂ ++ [(s, e')], by simp, hrun₁⟩
    · obtain ⟨rfl, rfl⟩ := Prod.mk.inj (List.mem_singleton.1 hmem)
      exact ⟨tr, [], rfl, hrun⟩

theorem Run.reachable_of_mem (h : Run step s₀ tr s) (hmem : (s', e) ∈ tr) :
    Reachable step s₀ s' := by
  obtain ⟨tr₁, -, -, hrun⟩ := h.before_of_mem hmem
  exact ⟨tr₁, hrun⟩

/-! ## Invariants -/

/-- **Invariant rule with a side condition.** A property preserved by the steps that meet `C`
holds at the end of a run all of whose steps meet `C`. -/
theorem Run.invariant_of {P : σ → Prop} {C : σ → ε → Prop}
    (hstep : ∀ s e s', P s → C s e → step s e s' → P s')
    (h : Run step s₀ tr s) (h₀ : P s₀) (hC : ∀ p ∈ tr, C p.1 p.2) : P s := by
  induction h with
  | nil => exact h₀
  | @snoc tr s s' e _ hs ih =>
    have hprev : P s := ih fun p hp => hC p (List.mem_append_left _ hp)
    exact hstep s e s' hprev (hC (s, e) (by simp)) hs

/-- **Invariant rule.** A property that holds initially and that every step preserves holds at
the end of every run. -/
theorem Run.invariant {P : σ → Prop} (hstep : ∀ s e s', P s → step s e s' → P s')
    (h : Run step s₀ tr s) (h₀ : P s₀) : P s :=
  h.invariant_of (C := fun _ _ => True) (fun s e s' hs _ => hstep s e s' hs) h₀
    fun _ _ => trivial

theorem Reachable.invariant {P : σ → Prop} (hstep : ∀ s e s', P s → step s e s' → P s')
    (h : Reachable step s₀ s) (h₀ : P s₀) : P s := by
  obtain ⟨tr, hrun⟩ := h
  exact hrun.invariant hstep h₀

/-- The initial state is reachable. -/
theorem Reachable.refl : Reachable step s₀ s₀ := ⟨[], .nil⟩

theorem Reachable.snoc (h : Reachable step s₀ s) (hs : step s e s') : Reachable step s₀ s' := by
  obtain ⟨tr, hrun⟩ := h
  exact ⟨_, hrun.snoc hs⟩

theorem Reachable.trans (h : Reachable step s₀ s) (h' : Reachable step s s') :
    Reachable step s₀ s' := by
  obtain ⟨tr, hrun⟩ := h'
  induction hrun with
  | nil => exact h
  | snoc _ hs ih => exact ih.snoc hs

/-- **Exactness of a step condition.** Let `I` be an invariant under which a step from a state
with `P` reaches a state with `P` exactly when it meets `C`. Then `P` holds in every state of a
run exactly when every step of the run meets `C`. -/
theorem Run.forall_iff {I P : σ → Prop} {C : σ → ε → Prop}
    (hI : ∀ s e s', I s → step s e s' → I s')
    (hstep : ∀ s e s', I s → P s → step s e s' → (P s' ↔ C s e))
    (h : Run step s₀ tr s) (hI₀ : I s₀) (hP₀ : P s₀) :
    ((∀ p ∈ tr, P p.1) ∧ P s) ↔ ∀ p ∈ tr, C p.1 p.2 := by
  induction h with
  | nil => simp [hP₀]
  | @snoc tr s s' e hrun hs ih =>
    have hIs : I s := hrun.invariant hI hI₀
    simp only [List.forall_mem_append, List.forall_mem_singleton]
    constructor
    · intro hholds
      obtain ⟨⟨hall, hPs⟩, hPs'⟩ := hholds
      exact ⟨ih.1 ⟨hall, hPs⟩, (hstep s e s' hIs hPs hs).1 hPs'⟩
    · intro hmeets
      obtain ⟨hall, hC⟩ := hmeets
      obtain ⟨hbefore, hPs⟩ := ih.2 hall
      exact ⟨⟨hbefore, hPs⟩, (hstep s e s' hIs hPs hs).2 hC⟩

/-- **History rule.** A property of the labels taken so far and the state they led to, kept by
every step, holds at the end of every run. -/
theorem Run.history {P : List ε → σ → Prop} (h₀ : P [] s₀)
    (hstep : ∀ labels s e s', P labels s → step s e s' → P (labels ++ [e]) s')
    (h : Run step s₀ tr s) : P (tr.map Prod.snd) s := by
  induction h with
  | nil => exact h₀
  | snoc _ hs ih =>
    rw [List.map_append]
    exact hstep _ _ _ _ ih hs

/-! ## Since -/

/-- `a` is in the history, and `b` is not after it. -/
def Since {α : Type*} (a b : α) (as : List α) : Prop :=
  ∃ before after, as = before ++ a :: after ∧ b ∉ after

theorem not_since_nil {α : Type*} {a b : α} : ¬ Since a b [] := by
  intro hsince
  obtain ⟨before, after, h, -⟩ := hsince
  simp at h

theorem Since.mem {α : Type*} {a b : α} {as : List α} (h : Since a b as) : a ∈ as := by
  obtain ⟨before, after, rfl, -⟩ := h
  simp

theorem since_snoc {α : Type*} {a b c : α} {as : List α} (hne : a ≠ b) :
    Since a b (as ++ [c]) ↔ c = a ∨ c ≠ b ∧ Since a b as := by
  constructor
  · intro hsince
    obtain ⟨before, after, h, hb⟩ := hsince
    rcases List.eq_nil_or_concat after with rfl | ⟨after, d, rfl⟩
    · exact .inl (List.singleton_inj.1 (List.append_inj' h rfl).2)
    · rw [List.concat_eq_append, ← List.cons_append, ← List.append_assoc] at h
      obtain ⟨rfl, hc⟩ := List.append_inj' h rfl
      obtain rfl := List.singleton_inj.1 hc
      rw [List.concat_eq_append, List.mem_append, List.mem_singleton, not_or] at hb
      exact .inr ⟨fun hcb => hb.2 hcb.symm, before, after, rfl, hb.1⟩
  · rintro (rfl | ⟨hc, before, after, rfl, hb⟩)
    · exact ⟨as, [], rfl, List.not_mem_nil⟩
    · refine ⟨before, after ++ [c], by simp, ?_⟩
      simp [hb, hc.symm]

/-- Where an element of a history that has grown by one is: it is the new one, or it was there. -/
theorem exists_split_snoc {α : Type*} {a c : α} {as : List α} {P : List α → List α → Prop} :
    (∃ before after, as ++ [c] = before ++ a :: after ∧ P before after) ↔
      c = a ∧ P as [] ∨ ∃ before after, as = before ++ a :: after ∧ P before (after ++ [c]) := by
  constructor
  · intro hsplit
    obtain ⟨before, after, h, hP⟩ := hsplit
    rcases List.eq_nil_or_concat after with rfl | ⟨after, d, rfl⟩
    · obtain ⟨rfl, hc⟩ := List.append_inj' h rfl
      exact .inl ⟨List.singleton_inj.1 hc, hP⟩
    · rw [List.concat_eq_append] at h hP
      rw [← List.cons_append, ← List.append_assoc] at h
      obtain ⟨rfl, hc⟩ := List.append_inj' h rfl
      obtain rfl := List.singleton_inj.1 hc
      exact .inr ⟨before, after, rfl, hP⟩
  · rintro (⟨rfl, hP⟩ | ⟨before, after, rfl, hP⟩)
    · exact ⟨as, [], rfl, hP⟩
    · exact ⟨before, after ++ [c], by simp, hP⟩

/-! ## Simulation -/

/-- **Simulation.** If every concrete step is matched by an abstract step under the label `g`
gives it, a concrete run is matched by an abstract run with the translated labels. -/
theorem Run.simulate {astep : τ → δ → τ → Prop} {R : σ → τ → Prop} {g : σ × ε → δ}
    (hsim : ∀ s e s' t, R s t → step s e s' → ∃ t', astep t (g (s, e)) t' ∧ R s' t')
    (h : Run step s₀ tr s) {t₀ : τ} (h₀ : R s₀ t₀) :
    ∃ atr t, Run astep t₀ atr t ∧ R s t ∧ atr.map Prod.snd = tr.map g := by
  induction h with
  | nil => exact ⟨[], t₀, .nil, h₀, rfl⟩
  | @snoc tr s s' e _ hs ih =>
    obtain ⟨atr, t, hrun, hR, hlabels⟩ := ih
    obtain ⟨t', hstep', hR'⟩ := hsim s e s' t hR hs
    exact ⟨atr ++ [(t, g (s, e))], t', hrun.snoc hstep', hR', by simp [hlabels]⟩

/-- **Projection.** Let `f` forget part of the states and `g` hide part of the labels. If a step
whose label is seen is an abstract step, and one whose label is hidden changes nothing that is
seen, then a run is seen as an abstract run. -/
theorem Run.project {astep : τ → δ → τ → Prop} {f : σ → τ} {g : ε → Option δ}
    (hseen : ∀ s e s' d, step s e s' → g e = some d → astep (f s) d (f s'))
    (hhidden : ∀ s e s', step s e s' → g e = none → f s' = f s)
    (h : Run step s₀ tr s) :
    ∃ atr, Run astep (f s₀) atr (f s) ∧
      atr.map Prod.snd = (tr.map Prod.snd).filterMap g := by
  induction h with
  | nil => exact ⟨[], .nil, rfl⟩
  | @snoc tr s s' e _ hs ih =>
    obtain ⟨atr, hrun, hlabels⟩ := ih
    cases hg : g e with
    | none =>
      refine ⟨atr, ?_, by simp [hlabels, hg]⟩
      rw [hhidden s e s' hs hg]
      exact hrun
    | some d => exact ⟨atr ++ [(f s, d)], hrun.snoc (hseen s e s' d hs hg), by simp [hlabels, hg]⟩

end Transition
