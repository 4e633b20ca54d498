import Mathlib

/-!
# While loops and wrapping counters

`runWhile cond body` runs `while (cond s) s = body(s)` on fuel. Its result is the first iterate
of `body` that fails `cond`; without one among the first `fuel` iterates it has none.

A loop that comes back to its starting point after `n` rounds has nothing new to try, so `n`
units of fuel decide whether it ends at all (`runWhile_diverges`). The counter of a cyclic
search, `wrap n`, is such a loop: from `i` its iterates are `i + k` modulo `n`
(`wrap_iterate`), and a cycle of them is the rest of `[0, n)` followed by its start
(`map_wrap_iterate`).

`runWhileOption` is the loop with a body that may fail, `runWhile` where it does not
(`runWhileOption_eq`).
-/

namespace General

variable {σ : Type*} {cond : σ → Bool} {body : σ → σ} {s t : σ} {n m : ℕ}

def runWhile (cond : σ → Bool) (body : σ → σ) : ℕ → σ → Option σ
  | 0, _ => none
  | fuel + 1, s => if cond s then runWhile cond body fuel (body s) else some s

theorem runWhile_eq_some_iff : runWhile cond body n s = some t ↔
    ∃ k < n, t = body^[k] s ∧ cond t = false ∧ ∀ j < k, cond (body^[j] s) = true := by
  induction n generalizing s with
  | zero => simp [runWhile]
  | succ n ih =>
    rw [runWhile]
    by_cases hs : cond s = true
    · rw [if_pos hs, ih]
      constructor
      · intro h
        obtain ⟨k, hk, rfl, hend, hbefore⟩ := h
        refine ⟨k + 1, by omega, rfl, hend, fun j hj => ?_⟩
        cases j with
        | zero => exact hs
        | succ j => exact hbefore j (by omega)
      · intro h
        obtain ⟨k, hk, rfl, hend, hbefore⟩ := h
        cases k with
        | zero => exact absurd hs (by simpa using hend)
        | succ k =>
          exact ⟨k, by omega, rfl, hend, fun j hj => hbefore (j + 1) (by omega)⟩
    · rw [if_neg hs, Option.some_inj]
      constructor
      · rintro rfl
        exact ⟨0, by omega, rfl, by simpa using hs, fun j hj => absurd hj (by omega)⟩
      · intro h
        obtain ⟨k, -, rfl, -, hbefore⟩ := h
        cases k with
        | zero => rfl
        | succ k => exact absurd (hbefore 0 (by omega)) hs

theorem runWhile_eq_none_iff :
    runWhile cond body n s = none ↔ ∀ j < n, cond (body^[j] s) = true := by
  induction n generalizing s with
  | zero => simp [runWhile]
  | succ n ih =>
    rw [runWhile]
    by_cases hs : cond s = true
    · rw [if_pos hs, ih]
      refine ⟨fun h j hj => ?_, fun h j hj => h (j + 1) (by omega)⟩
      cases j with
      | zero => exact hs
      | succ j => exact h j (by omega)
    · rw [if_neg hs]
      exact ⟨nofun, fun h => absurd (h 0 (by omega)) hs⟩

/-- The result is the first of the iterates that fails `cond`. -/
theorem runWhile_eq_find? : runWhile cond body n s =
    ((List.range n).map fun k => body^[k] s).find? fun t => !cond t := by
  induction n generalizing s with
  | zero => rfl
  | succ n ih =>
    rw [runWhile, List.range_succ_eq_map, List.map_cons, List.map_map, Function.iterate_zero_apply]
    by_cases hs : cond s = true
    · rw [if_pos hs, ih, List.find?_cons_of_neg (by simp [hs])]
      rfl
    · rw [if_neg hs, List.find?_cons_of_pos (by simp [hs])]

/-- The loop whose body may fail: it has no result then. -/
def runWhileOption (cond : σ → Bool) (body : σ → Option σ) : ℕ → σ → Option σ
  | 0, _ => none
  | fuel + 1, s => if cond s then (body s).bind (runWhileOption cond body fuel) else some s

/-- On an invariant under which the body does not fail, it is the plain loop. -/
theorem runWhileOption_eq {body? : σ → Option σ} {I : σ → Prop}
    (hbody : ∀ s, I s → body? s = some (body s) ∧ I (body s)) (hs : I s) :
    runWhileOption cond body? n s = runWhile cond body n s := by
  induction n generalizing s with
  | zero => rfl
  | succ n ih =>
    obtain ⟨hsome, hnext⟩ := hbody s hs
    rw [runWhileOption, runWhile, hsome, Option.bind_some, ih hnext]

/-- **A cyclic loop ends within one cycle or never.** -/
theorem runWhile_diverges (hn : 0 < n) (hcycle : body^[n] s = s)
    (hnone : runWhile cond body n s = none) (m : ℕ) : runWhile cond body m s = none := by
  rw [runWhile_eq_none_iff] at hnone ⊢
  intro j _
  have hj : body^[j] s = body^[j % n] s := (Function.IsPeriodicPt.iterate_mod_apply hcycle j).symm
  rw [hj]
  exact hnone _ (Nat.mod_lt _ hn)

/-! ## Wrapping counters -/

/-- The next value of a counter that starts again at 0 when it reaches `n`. -/
def wrap (n i : ℤ) : ℤ := if i + 1 ≥ n then 0 else i + 1

theorem wrap_eq_mod {N i : ℤ} (h₀ : -1 ≤ i) (h : i < N) :
    wrap N i = (i + 1) % N := by
  unfold wrap
  split_ifs with hwrap
  · rw [show i + 1 = N by omega, Int.emod_self]
  · rw [Int.emod_eq_of_lt (by omega) (by omega)]

theorem wrap_mem {N i : ℤ} (h₀ : -1 ≤ i) (hN : 0 < N) : 0 ≤ wrap N i ∧ wrap N i < N := by
  unfold wrap
  split_ifs <;> omega

/-- The iterates of a wrapping counter. -/
theorem wrap_iterate {N i : ℤ} (h₀ : 0 ≤ i) (h : i < N) (k : ℕ) :
    (wrap N)^[k] i = (i + k) % N := by
  induction k with
  | zero => simp [Int.emod_eq_of_lt h₀ h]
  | succ k ih =>
    have hN : 0 < N := by omega
    have hmem : 0 ≤ (i + k) % N ∧ (i + k) % N < N :=
      ⟨Int.emod_nonneg _ (by omega), Int.emod_lt_of_pos _ hN⟩
    rw [Function.iterate_succ_apply', ih, wrap_eq_mod (by omega) hmem.2, Int.emod_add_emod]
    push_cast
    ring_nf

/-- One cycle of the counter visits every value below `n`. -/
theorem exists_wrap_iterate {N i j : ℤ} (hi₀ : 0 ≤ i) (hi : i < N) (hj₀ : 0 ≤ j) (hj : j < N) :
    ∃ k < N.toNat, (wrap N)^[k] i = j := by
  by_cases hle : i ≤ j
  · refine ⟨(j - i).toNat, by omega, ?_⟩
    rw [wrap_iterate hi₀ hi, Int.toNat_of_nonneg (by omega), show i + (j - i) = j by omega,
      Int.emod_eq_of_lt hj₀ hj]
  · refine ⟨(j - i + N).toNat, by omega, ?_⟩
    rw [wrap_iterate hi₀ hi, Int.toNat_of_nonneg (by omega), show i + (j - i + N) = j + N by omega,
      Int.add_emod_right, Int.emod_eq_of_lt hj₀ hj]

theorem wrap_iterate_cycle {N i : ℤ} (h₀ : 0 ≤ i) (h : i < N) : (wrap N)^[N.toNat] i = i := by
  rw [wrap_iterate h₀ h, Int.toNat_of_nonneg (by omega), Int.add_emod_right,
    Int.emod_eq_of_lt h₀ h]

/-- A cycle of the counter, from the value after `i`. -/
theorem map_wrap_iterate {N i : ℤ} (hN : 0 < N) (h₀ : -1 ≤ i) (h : i < N) :
    ((List.range N.toNat).map fun k => (wrap N)^[k] (wrap N i)) =
      Int.range (i + 1) N ++ Int.range 0 (i + 1) := by
  have hiter : ∀ k : ℕ, (wrap N)^[k] (wrap N i) = (i + 1 + k) % N := by
    intro k
    obtain ⟨hw₀, hwN⟩ := wrap_mem h₀ hN
    rw [wrap_iterate hw₀ hwN, wrap_eq_mod h₀ h, Int.emod_add_emod]
  have hlen : N.toNat = (N - (i + 1)).toNat + (i + 1 - 0).toNat := by omega
  rw [hlen, List.range_add, List.map_append, List.map_map]
  unfold Int.range
  congr 1
  · refine List.map_congr_left fun k hk => ?_
    have hlt := List.mem_range.1 hk
    rw [hiter, Int.emod_eq_of_lt (by omega) (by omega)]
  · refine List.map_congr_left fun k hk => ?_
    have hlt := List.mem_range.1 hk
    have hsum : i + 1 + ((N - (i + 1)).toNat + k : ℕ) = k + N := by omega
    rw [Function.comp_apply, hiter, hsum, Int.add_emod_right,
      Int.emod_eq_of_lt (by omega) (by omega), Int.zero_add]

/-- **A cyclic search finds a free value if there is one**, and it ends on a free value. -/
theorem exists_runWhile_wrap {taken : ℤ → Bool} {N i j : ℤ} (hi₀ : 0 ≤ i) (hi : i < N)
    (hj₀ : 0 ≤ j) (hj : j < N) (hfree : taken j = false) :
    ∃ r, runWhile taken (wrap N) N.toNat i = some r := by
  cases hr : runWhile taken (wrap N) N.toNat i with
  | some r => exact ⟨r, rfl⟩
  | none =>
    obtain ⟨k, hk, rfl⟩ := exists_wrap_iterate hi₀ hi hj₀ hj
    exact absurd (runWhile_eq_none_iff.1 hr k hk) (by simp [hfree])

theorem runWhile_wrap_mem {taken : ℤ → Bool} {N i r : ℤ} (hi₀ : 0 ≤ i) (hi : i < N)
    (h : runWhile taken (wrap N) n i = some r) : (0 ≤ r ∧ r < N) ∧ taken r = false := by
  obtain ⟨k, -, rfl, hend, -⟩ := runWhile_eq_some_iff.1 h
  rw [wrap_iterate hi₀ hi] at hend ⊢
  exact ⟨⟨Int.emod_nonneg _ (by omega), Int.emod_lt_of_pos _ (by omega)⟩, hend⟩

end General
