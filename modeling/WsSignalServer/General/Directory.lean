import WsSignalServer.General.Transition

/-!
# Directories

A directory gives each of its members one address, and each address to at most one member: a
partial bijection `K ≃. ι`, in which an address is looked up by `symm`. It changes in two ways:
a member joins under an address no other member has, giving up the one it had, or it leaves.

**Theorem (`address_kept`).** Whatever the others do, an address leads to the member that joined
under it until that member joins again or leaves.
-/

namespace General.Directory

variable {K ι : Type*}

inductive Change (K ι : Type*) where
  | join (k : K) (i : ι)
  | leave (k : K)
  | stay

/-- The members a change is about. -/
def Change.Of (k : K) : Change K ι → Prop
  | .join k' _ => k' = k
  | .leave k' => k' = k
  | .stay => False

/-- One change, by what it does to the address of every member. -/
inductive Step (d : K ≃. ι) : Change K ι → (K ≃. ι) → Prop
  | join {k : K} {i : ι} {d' : K ≃. ι} (free : ∀ k', d k' = some i → k' = k)
      (self : d' k = some i) (others : ∀ k', k' ≠ k → d' k' = d k') : Step d (.join k i) d'
  | leave {k : K} {d' : K ≃. ι} (self : d' k = none) (others : ∀ k', k' ≠ k → d' k' = d k') :
      Step d (.leave k) d'
  | stay : Step d .stay d

variable {d d' : K ≃. ι} {c : Change K ι} {k k' : K} {i : ι}

/-- A change moves no member it is not about. -/
theorem Step.other (h : Step d c d') (hc : ¬ c.Of k) : d' k = d k := by
  cases h with
  | join _ _ others => exact others k fun hk => hc hk.symm
  | leave _ others => exact others k fun hk => hc hk.symm
  | stay => rfl

/-- **An address is kept.** Along any run of changes none of which is about `k`, the address of
`k` still leads to `k`. -/
theorem address_kept {tr : List ((K ≃. ι) × Change K ι)} (h : Transition.Run Step d tr d')
    (hk : ∀ p ∈ tr, ¬ p.2.Of k) (hi : d.symm i = some k) : d'.symm i = some k := by
  have hd : d' k = some i := h.invariant_of (P := fun d => d k = some i)
    (C := fun _ c => ¬ c.Of k) (fun _ _ _ hd hc hstep => (hstep.other hc).trans hd)
    ((PEquiv.mem_iff_mem d).1 hi) hk
  exact (PEquiv.mem_iff_mem d').2 hd

end General.Directory
