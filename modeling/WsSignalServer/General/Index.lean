import Mathlib

/-!
# Looking up an ordered map by a value's attribute

An ordered map answers a query about its values by walking its entries in key order and
stopping at the first that satisfies a predicate (`firstKey`). When the values carry an
attribute that no two entries share (`KeyedBy`), the order does not matter: the walk inverts the
map from keys to attributes, and the two directions form a partial equivalence
(`KeyedBy.index`).

Filed under such an attribute instead of their keys, the values are all kept and come in its order
(`KeyedBy.reindex_values`).

A map with fewer entries than there are attributes to choose from leaves one unused
(`exists_unused`).
-/

namespace General

open Std

variable {K V ι : Type*} [LinearOrder K]

instance transCmp_compare : TransCmp (compare : K → K → Ordering) := inferInstance

/-- The first key, in key order, whose value satisfies `p`. -/
def firstKey (p : V → Bool) (m : ExtTreeMap K V compare) : Option K :=
  (m.toList.find? fun e => p e.2).map Prod.fst

variable {p : V → Bool} {f : V → ι} {m : ExtTreeMap K V compare} {k k' : K} {v : V} {i : ι}

theorem exists_of_firstKey (h : firstKey p m = some k) : ∃ v, m[k]? = some v ∧ p v = true := by
  obtain ⟨⟨k', v⟩, he, rfl⟩ := Option.map_eq_some_iff.1 h
  have hp : p (k', v).2 = true := List.find?_some (p := fun e : K × V => p e.2) he
  exact ⟨v, ExtTreeMap.mem_toList_iff_getElem?_eq_some.1 (List.mem_of_find?_eq_some he), hp⟩

theorem firstKey_eq_none_iff :
    firstKey p m = none ↔ ∀ (k : K) (v : V), m[k]? = some v → p v = false := by
  simp only [firstKey, Option.map_eq_none_iff, List.find?_eq_none, Prod.forall,
    ExtTreeMap.mem_toList_iff_getElem?_eq_some, Bool.not_eq_true]

/-- A value that satisfies `p` makes the walk find some key. -/
theorem firstKey_isSome (h : m[k]? = some v) (hv : p v = true) : ∃ k', firstKey p m = some k' := by
  cases hk : firstKey p m with
  | some k' => exact ⟨k', rfl⟩
  | none => rw [firstKey_eq_none_iff.1 hk k v h] at hv; exact absurd hv nofun

/-- The entries of the other keys are all entries exactly when the key has none. -/
theorem perm_filter_ne_iff {β : Type*} {g : K × V → β} :
    (m.toList.map g).Perm ((m.toList.filter fun e => e.1 ≠ k).map g) ↔ m[k]? = none := by
  constructor
  · intro hperm
    have hlength := hperm.length_eq
    rw [List.length_map, List.length_map] at hlength
    have hall := List.length_filter_eq_length_iff.1 hlength.symm
    rw [Option.eq_none_iff_forall_ne_some]
    intro v hv
    have hne := hall (k, v) (ExtTreeMap.mem_toList_iff_getElem?_eq_some.2 hv)
    simp at hne
  · intro hnone
    have hself : (m.toList.filter fun e => e.1 ≠ k) = m.toList := by
      apply List.filter_eq_self.2
      intro e he
      obtain ⟨k', v⟩ := e
      have hv := ExtTreeMap.mem_toList_iff_getElem?_eq_some.1 he
      apply decide_eq_true
      intro hk
      change k' = k at hk
      rw [hk, hnone] at hv
      cases hv
    rw [hself]

/-! ## Attributes no two entries share -/

/-- No two entries have values of the same attribute. -/
def KeyedBy (f : V → ι) (m : ExtTreeMap K V compare) : Prop :=
  ∀ (k k' : K) (v v' : V), m[k]? = some v → m[k']? = some v' → f v = f v' → k = k'

theorem KeyedBy.empty : KeyedBy f (∅ : ExtTreeMap K V compare) := by
  intro k k' v v' h
  rw [ExtTreeMap.getElem?_empty] at h
  cases h

theorem getElem?_insert_iff {k' : K} {v' : V} : (m.insert k v)[k']? = some v' ↔
    (k' = k ∧ v' = v) ∨ (k' ≠ k ∧ m[k']? = some v') := by
  rw [ExtTreeMap.getElem?_insert]
  by_cases h : k' = k
  · subst h; simp [eq_comm]
  · simp [h, Ne.symm h]

theorem getElem?_erase_iff {k' : K} {v' : V} : (m.erase k)[k']? = some v' ↔
    k' ≠ k ∧ m[k']? = some v' := by
  rw [ExtTreeMap.getElem?_erase]
  by_cases h : k' = k
  · subst h; simp
  · simp [h, Ne.symm h]

theorem getElem?_insert_of_ne (h : k' ≠ k) : (m.insert k v)[k']? = m[k']? := by
  rw [ExtTreeMap.getElem?_insert, if_neg (by simpa using h.symm)]

theorem getElem?_erase_of_ne (h : k' ≠ k) : (m.erase k)[k']? = m[k']? := by
  rw [ExtTreeMap.getElem?_erase, if_neg (by simpa using h.symm)]

/-- Giving a key a value whose attribute no other key has. -/
theorem KeyedBy.insert (h : KeyedBy f m)
    (hnew : ∀ (k' : K) (v' : V), m[k']? = some v' → k' ≠ k → f v' ≠ f v) :
    KeyedBy f (m.insert k v) := by
  intro k₁ k₂ v₁ v₂ h₁ h₂ hf
  rcases getElem?_insert_iff.1 h₁ with ⟨rfl, rfl⟩ | ⟨hne₁, h₁'⟩ <;>
    rcases getElem?_insert_iff.1 h₂ with ⟨rfl, rfl⟩ | ⟨hne₂, h₂'⟩
  · rfl
  · exact absurd hf.symm (hnew k₂ v₂ h₂' hne₂)
  · exact absurd hf (hnew k₁ v₁ h₁' hne₁)
  · exact h k₁ k₂ v₁ v₂ h₁' h₂' hf

theorem KeyedBy.erase (h : KeyedBy f m) (k : K) : KeyedBy f (m.erase k) := by
  intro k₁ k₂ v₁ v₂ h₁ h₂ hf
  exact h k₁ k₂ v₁ v₂ (getElem?_erase_iff.1 h₁).2 (getElem?_erase_iff.1 h₂).2 hf

/-! ## Filing by the attribute -/

section Reindex

variable [LinearOrder ι]

/-- The values filed under their attributes. Of two with one attribute the later counts. -/
def reindex (f : V → ι) (m : ExtTreeMap K V compare) : ExtTreeMap ι V compare :=
  m.toList.foldl (fun m' e => m'.insert (f e.2) e.2) ∅

omit [LinearOrder K] in
theorem getElem?_foldl_insert {es : List (K × V)} {m' : ExtTreeMap ι V compare}
    (hsame : ∀ e ∈ es, ∀ e' ∈ es, f e.2 = f e'.2 → e.2 = e'.2) :
    (es.foldl (fun m' e => m'.insert (f e.2) e.2) m')[i]? = some v ↔
      (∃ e ∈ es, e.2 = v ∧ f v = i) ∨ (∀ e ∈ es, f e.2 ≠ i) ∧ m'[i]? = some v := by
  induction es generalizing m' with
  | nil => simp
  | cons e es ih =>
    have hrest : ∀ a ∈ es, ∀ b ∈ es, f a.2 = f b.2 → a.2 = b.2 :=
      fun a ha b hb => hsame a (List.mem_cons_of_mem _ ha) b (List.mem_cons_of_mem _ hb)
    rw [List.foldl_cons, ih hrest, getElem?_insert_iff]
    constructor
    · rintro (⟨a, ha, hv, hi⟩ | ⟨hall, ⟨rfl, rfl⟩ | ⟨hne, hm⟩⟩)
      · exact .inl ⟨a, List.mem_cons_of_mem _ ha, hv, hi⟩
      · exact .inl ⟨e, List.mem_cons_self, rfl, rfl⟩
      · exact .inr ⟨List.forall_mem_cons.2 ⟨Ne.symm hne, hall⟩, hm⟩
    · rintro (⟨a, ha, rfl, rfl⟩ | ⟨hall, hm⟩)
      · by_cases hlater : ∃ b ∈ es, f b.2 = f a.2
        · -- a later entry of the attribute has the same value
          obtain ⟨b, hb, hab⟩ := hlater
          have hv : b.2 = a.2 := hsame b (List.mem_cons_of_mem _ hb) a ha hab
          exact .inl ⟨b, hb, hv, rfl⟩
        · rcases List.mem_cons.1 ha with rfl | ha
          · exact .inr ⟨fun b hb heq => hlater ⟨b, hb, heq⟩, .inl ⟨rfl, rfl⟩⟩
          · exact absurd ⟨a, ha, rfl⟩ hlater
      · rw [List.forall_mem_cons] at hall
        exact .inr ⟨hall.2, .inr ⟨Ne.symm hall.1, hm⟩⟩

theorem KeyedBy.getElem?_reindex (h : KeyedBy f m) :
    (reindex f m)[i]? = some v ↔ f v = i ∧ ∃ k : K, m[k]? = some v := by
  have hsame : ∀ e ∈ m.toList, ∀ e' ∈ m.toList, f e.2 = f e'.2 → e.2 = e'.2 := by
    intro e he e' he' hf
    have hm := ExtTreeMap.mem_toList_iff_getElem?_eq_some.1 he
    have hm' := ExtTreeMap.mem_toList_iff_getElem?_eq_some.1 he'
    have heq := h e.1 e'.1 e.2 e'.2 hm hm' hf
    rw [heq] at hm
    exact Option.some.inj (hm.symm.trans hm')
  rw [reindex, getElem?_foldl_insert hsame]
  constructor
  · rintro (⟨e, he, rfl, hi⟩ | ⟨-, hm⟩)
    · exact ⟨hi, e.1, ExtTreeMap.mem_toList_iff_getElem?_eq_some.1 he⟩
    · rw [ExtTreeMap.getElem?_empty] at hm
      cases hm
  · intro hv
    obtain ⟨hi, k, hk⟩ := hv
    exact .inl ⟨(k, v), ExtTreeMap.mem_toList_iff_getElem?_eq_some.2 hk, rfl, hi⟩

/-- Filed by an attribute that no two share, every value is there once, in the order of the
attributes. -/
theorem KeyedBy.reindex_values (h : KeyedBy f m) :
    ((reindex f m).toList.map Prod.snd).Pairwise (fun v v' => f v < f v') ∧
      ∀ v, v ∈ (reindex f m).toList.map Prod.snd ↔ ∃ k : K, m[k]? = some v := by
  have hkey : ∀ e ∈ (reindex f m).toList, f e.2 = e.1 := by
    intro e he
    have hv := ExtTreeMap.mem_toList_iff_getElem?_eq_some.1 he
    exact (h.getElem?_reindex.1 hv).1
  constructor
  · rw [List.pairwise_map]
    refine ExtTreeMap.ordered_keys_toList.imp_of_mem fun {e e'} he he' hlt => ?_
    rw [hkey e he, hkey e' he']
    exact compare_lt_iff_lt.1 hlt
  · intro v
    constructor
    · intro hv
      obtain ⟨e, he, rfl⟩ := List.mem_map.1 hv
      exact (h.getElem?_reindex.1 (ExtTreeMap.mem_toList_iff_getElem?_eq_some.1 he)).2
    · intro hv
      refine List.mem_map.2 ⟨(f v, v), ?_, rfl⟩
      exact ExtTreeMap.mem_toList_iff_getElem?_eq_some.2 (h.getElem?_reindex.2 ⟨rfl, hv⟩)

end Reindex

/-! ## The index -/

variable [DecidableEq ι]

/-- **First match inverts the map.** Whatever the key order, the walk finds the one key whose
value has the attribute. -/
theorem KeyedBy.firstKey_eq_some_iff (h : KeyedBy f m) :
    firstKey (fun v => f v = i) m = some k ↔ ∃ v, m[k]? = some v ∧ f v = i := by
  constructor
  · intro hk
    obtain ⟨v, hv, hf⟩ := exists_of_firstKey hk
    exact ⟨v, hv, of_decide_eq_true hf⟩
  · intro hfound
    obtain ⟨v, hv, rfl⟩ := hfound
    obtain ⟨k', hk'⟩ := firstKey_isSome (p := fun v' => f v' = f v) hv (decide_eq_true rfl)
    obtain ⟨v', hv', hf⟩ := exists_of_firstKey hk'
    rw [hk', h k' k v' v hv' hv (of_decide_eq_true hf)]

/-- The keys and the attributes, each looked up by the other. -/
def KeyedBy.index (h : KeyedBy f m) : K ≃. ι where
  toFun k := m[k]?.map f
  invFun i := firstKey (fun v => f v = i) m
  inv k i := by
    simp only [h.firstKey_eq_some_iff, Option.map_eq_some_iff]

/-! ## Counting -/

/-- **Pigeonhole.** Fewer entries than integers below `N` leave one of these unused. -/
theorem exists_unused {f : V → ℤ} {N : ℤ} (h : (m.size : ℤ) < N) :
    ∃ i, 0 ≤ i ∧ i < N ∧ ∀ (k : K) (v : V), m[k]? = some v → f v ≠ i := by
  set used : Finset ℤ := (m.toList.map fun e => f e.2).toFinset
  have hused : used.card ≤ m.size := by
    calc used.card ≤ (m.toList.map fun e => f e.2).length := List.toFinset_card_le _
      _ = m.size := by rw [List.length_map, ExtTreeMap.length_toList]
  have hcard : used.card < (Finset.Ico 0 N).card := by
    rw [Int.card_Ico]
    omega
  obtain ⟨i, hi, hfree⟩ := Finset.exists_mem_notMem_of_card_lt_card hcard
  obtain ⟨h₀, hN⟩ := Finset.mem_Ico.1 hi
  refine ⟨i, h₀, hN, fun k v hv hf => hfree ?_⟩
  exact List.mem_toFinset.2 (List.mem_map.2
    ⟨(k, v), ExtTreeMap.mem_toList_iff_getElem?_eq_some.2 hv, hf⟩)

/-- Attributes below `N` that no two entries share are no more than `N`, and if they are `N`
every one is in use. -/
theorem KeyedBy.exists_of_size_ge {f : V → ℤ} {N : ℤ} (h : KeyedBy f m)
    (hmem : ∀ (k : K) (v : V), m[k]? = some v → 0 ≤ f v ∧ f v < N) (hN : N ≤ m.size)
    {i : ℤ} (h₀ : 0 ≤ i) (hi : i < N) : ∃ (k : K) (v : V), m[k]? = some v ∧ f v = i := by
  set used : List ℤ := m.toList.map fun e => f e.2
  have hnodup : used.Nodup := by
    refine List.Nodup.map_on ?_ ?_
    · rintro ⟨k, v⟩ hkv ⟨k', v'⟩ hkv' hf
      have hv := ExtTreeMap.mem_toList_iff_getElem?_eq_some.1 hkv
      have hv' := ExtTreeMap.mem_toList_iff_getElem?_eq_some.1 hkv'
      obtain rfl : k = k' := h k k' v v' hv hv' hf
      rw [Option.some.inj (hv.symm.trans hv')]
    · refine ExtTreeMap.distinct_keys_toList.imp fun hne he => hne ?_
      rw [he, compare_self]
  have hsub : used.toFinset ⊆ Finset.Ico 0 N := by
    intro j hj
    obtain ⟨⟨k, v⟩, hkv, rfl⟩ := List.mem_map.1 (List.mem_toFinset.1 hj)
    exact Finset.mem_Ico.2 (hmem k v (ExtTreeMap.mem_toList_iff_getElem?_eq_some.1 hkv))
  have hall : used.toFinset = Finset.Ico 0 N := by
    refine Finset.eq_of_subset_of_card_le hsub ?_
    rw [List.toFinset_card_of_nodup hnodup, List.length_map, ExtTreeMap.length_toList,
      Int.card_Ico]
    omega
  have hi' : i ∈ used.toFinset := hall ▸ Finset.mem_Ico.2 ⟨h₀, hi⟩
  obtain ⟨⟨k, v⟩, hkv, rfl⟩ := List.mem_map.1 (List.mem_toFinset.1 hi')
  exact ⟨k, v, ExtTreeMap.mem_toList_iff_getElem?_eq_some.1 hkv, rfl⟩

end General
