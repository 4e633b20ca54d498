import WsSignalServer.General.Transition

/-!
# Locks taken in order

Threads share locks that a thread may take only while no thread has them, itself included. What a
thread does to the locks between two points of its loop is a word of operations, and a program says
which words lead from one point to the next. A word keeps the order of `rank` when it takes a lock
only above all it holds, gives back only what it holds, and everything in the end (`after`).

**Theorem (`obtainable`).** When all the words of a program keep the order, a thread that waits for a
lock can get it after some steps of others, in every state the threads reach, however many they are.

The words of a piece of code are a `Language`, put together from those of its parts; `guarded` is a
scope that holds a lock.
-/

open scoped Computability

namespace LockOrder

variable {L Q P : Type*} [DecidableEq L]

inductive Op (L : Type*) where
  | lock (l : L)
  | unlock (l : L)

/-! ## Words -/

variable {rank : L → ℕ} {held held' : List L} {l m : L} {w : List (Op L)} {X Y : Language (Op L)}

/-- What is held after a word, if the word keeps the order. -/
def after (rank : L → ℕ) (held : List L) : List (Op L) → Option (List L)
  | [] => some held
  | .lock l :: w => if ∀ m ∈ held, rank m < rank l then after rank (l :: held) w else none
  | .unlock l :: w => if l ∈ held then after rank (held.erase l) w else none

theorem after_append (w w' : List (Op L)) :
    after rank held (w ++ w') = (after rank held w).bind fun held => after rank held w' := by
  induction w generalizing held with
  | nil => rfl
  | cons op w ih =>
    cases op with
    | lock l =>
      simp only [List.cons_append, after]
      split_ifs
      · exact ih
      · rfl
    | unlock l =>
      simp only [List.cons_append, after]
      split_ifs
      · exact ih
      · rfl

/-- Every word of `X` keeps the order, and leaves with what was held. -/
def Keeps (rank : L → ℕ) (held : List L) (X : Language (Op L)) : Prop :=
  ∀ w ∈ X, after rank held w = some held

theorem Keeps.one : Keeps rank held 1 := by
  intro w hw
  obtain rfl := (Language.mem_one w).1 hw
  rfl

theorem Keeps.add (hX : Keeps rank held X) (hY : Keeps rank held Y) : Keeps rank held (X + Y) := by
  intro w hw
  rcases (Language.mem_add X Y w).1 hw with hw | hw
  · exact hX w hw
  · exact hY w hw

theorem Keeps.mul (hX : Keeps rank held X) (hY : Keeps rank held Y) : Keeps rank held (X * Y) := by
  intro w hw
  obtain ⟨a, ha, b, hb, rfl⟩ := Language.mem_mul.1 hw
  rw [after_append, hX a ha]
  exact hY b hb

theorem Keeps.kstar (hX : Keeps rank held X) : Keeps rank held X∗ := by
  intro w hw
  obtain ⟨ws, rfl, hws⟩ := Language.mem_kstar.1 hw
  induction ws with
  | nil => rfl
  | cons v ws ih =>
    rw [List.forall_mem_cons] at hws
    rw [List.flatten_cons, after_append, hX v hws.1]
    exact ih hws.2 (Language.join_mem_kstar hws.2)

/-- The words of a scope that holds `l`. -/
def guarded (l : L) (X : Language (Op L)) : Language (Op L) :=
  {w | ∃ v ∈ X, w = .lock l :: (v ++ [.unlock l])}

/-- A scope keeps the order when its lock is above what is held, and what is in it does with the
lock held. -/
theorem Keeps.guarded (hl : ∀ m ∈ held, rank m < rank l) (hX : Keeps rank (l :: held) X) :
    Keeps rank held (guarded l X) := by
  rintro w ⟨v, hv, rfl⟩
  rw [after, if_pos hl, after_append, hX v hv]
  simp [after]

/-! ## Threads -/

/-- The words that lead from one point of a loop to another. -/
abbrev Program (Q L : Type*) := Q → Q → Language (Op L)

/-- A thread: the locks it holds, what it will do to the locks before it is at `next`. -/
structure Thread (Q L : Type*) where
  held : List L
  todo : List (Op L)
  next : Q

variable {t t' : P → Thread Q L} {p q : P}

/-- Every thread at a point of its loop. -/
def start (at_ : P → Q) : P → Thread Q L := fun p => ⟨[], [], at_ p⟩

/-- What holds of the threads in every state they reach. -/
structure Sound (rank : L → ℕ) (t : P → Thread Q L) : Prop where
  order : ∀ p, after rank (t p).held (t p).todo = some []
  sorted : ∀ p, (t p).held.Pairwise fun l m => rank m < rank l
  exclusive : ∀ p q l, l ∈ (t p).held → l ∈ (t q).held → p = q

theorem Sound.start (at_ : P → Q) : Sound rank (start at_ : P → Thread Q L) where
  order _ := rfl
  sorted _ := .nil
  exclusive _ _ _ h := absurd h List.not_mem_nil

theorem Sound.lock_above (ht : Sound rank t) (htodo : (t p).todo = .lock l :: w) :
    (∀ m ∈ (t p).held, rank m < rank l) ∧ after rank (l :: (t p).held) w = some [] := by
  have horder := ht.order p
  rw [htodo, after] at horder
  split_ifs at horder with habove
  exact ⟨habove, horder⟩

theorem Sound.unlock_held (ht : Sound rank t) (htodo : (t p).todo = .unlock l :: w) :
    l ∈ (t p).held ∧ after rank ((t p).held.erase l) w = some [] := by
  have horder := ht.order p
  rw [htodo, after] at horder
  split_ifs at horder with hheld
  exact ⟨hheld, horder⟩

/-- A lock held once is held no more when it is given back. -/
theorem Sound.not_mem_erase (ht : Sound rank t) : l ∉ (t p).held.erase l := by
  have hnodup : (t p).held.Nodup := (ht.sorted p).imp fun hlt heq => by
    subst heq
    exact lt_irrefl _ hlt
  exact hnodup.not_mem_erase

variable [DecidableEq P] {prog : Program Q L}

/-- One thread goes on. -/
inductive Step (prog : Program Q L) : (P → Thread Q L) → P → (P → Thread Q L) → Prop
  | word {t : P → Thread Q L} {p : P} {w : List (Op L)} {next : Q} (htodo : (t p).todo = [])
      (hw : w ∈ prog (t p).next next) :
      Step prog t p (Function.update t p ⟨(t p).held, w, next⟩)
  | lock {t : P → Thread Q L} {p : P} {l : L} {w : List (Op L)}
      (htodo : (t p).todo = .lock l :: w) (hfree : ∀ q, l ∉ (t q).held) :
      Step prog t p (Function.update t p ⟨l :: (t p).held, w, (t p).next⟩)
  | unlock {t : P → Thread Q L} {p : P} {l : L} {w : List (Op L)}
      (htodo : (t p).todo = .unlock l :: w) :
      Step prog t p (Function.update t p ⟨(t p).held.erase l, w, (t p).next⟩)

/-- All words of the program keep the order. -/
def Orderly (rank : L → ℕ) (prog : Program Q L) : Prop := ∀ q q', Keeps rank [] (prog q q')

/-- A thread may change what it holds as long as nobody else holds it. -/
theorem Sound.update (ht : Sound rank t) {th : Thread Q L}
    (horder : after rank th.held th.todo = some [])
    (hsorted : th.held.Pairwise fun l m => rank m < rank l)
    (hexclusive : ∀ q l, q ≠ p → l ∈ th.held → l ∉ (t q).held) :
    Sound rank (Function.update t p th) := by
  refine ⟨fun q => ?_, fun q => ?_, fun q r l hq hr => ?_⟩
  · by_cases hqp : q = p
    · subst hqp
      rwa [Function.update_self]
    · rw [Function.update_of_ne hqp]
      exact ht.order q
  · by_cases hqp : q = p
    · subst hqp
      rwa [Function.update_self]
    · rw [Function.update_of_ne hqp]
      exact ht.sorted q
  · by_cases hqp : q = p <;> by_cases hrp : r = p
    · exact hqp.trans hrp.symm
    · subst hqp
      rw [Function.update_self] at hq
      rw [Function.update_of_ne hrp] at hr
      exact absurd hr (hexclusive r l hrp hq)
    · subst hrp
      rw [Function.update_of_ne hqp] at hq
      rw [Function.update_self] at hr
      exact absurd hq (hexclusive q l hqp hr)
    · rw [Function.update_of_ne hqp] at hq
      rw [Function.update_of_ne hrp] at hr
      exact ht.exclusive q r l hq hr

theorem Step.sound (hprog : Orderly rank prog) (ht : Sound rank t) (h : Step prog t p t') :
    Sound rank t' := by
  have hothers : ∀ q l, q ≠ p → l ∈ (t p).held → l ∉ (t q).held :=
    fun q l hqp hp hq => hqp (ht.exclusive q p l hq hp)
  cases h with
  | word htodo hw =>
    have hheld : (t p).held = [] := by
      have horder := ht.order p
      rw [htodo] at horder
      exact Option.some.inj horder
    rw [hheld]
    exact ht.update (hprog _ _ _ hw) .nil fun q l _ hl => absurd hl List.not_mem_nil
  | lock htodo hfree =>
    obtain ⟨habove, horder⟩ := ht.lock_above htodo
    refine ht.update horder ((ht.sorted p).cons habove) fun q m hqp hm => ?_
    rcases List.mem_cons.1 hm with rfl | hm
    · exact hfree q
    · exact hothers q m hqp hm
  | unlock htodo =>
    obtain ⟨-, horder⟩ := ht.unlock_held htodo
    exact ht.update horder ((ht.sorted p).sublist List.erase_sublist) fun q m hqp hm =>
      hothers q m hqp (List.mem_of_mem_erase hm)

/-! ## Getting a lock -/

/-- **A lock can be freed**, without a step of a thread all of whose locks are below it. By induction
on how far the lock is from the top, and on what its holder has still to do: a lock that the holder
waits for is farther up. -/
theorem Sound.freed (hprog : Orderly rank prog) {N : ℕ} (hN : ∀ l, rank l ≤ N)
    (ht : Sound rank t) (l : L) : ∃ t', Transition.Reachable (Step prog) t t' ∧ Sound rank t' ∧
      (∀ q, l ∉ (t' q).held) ∧ ∀ p, (∀ m ∈ (t p).held, rank m < rank l) → t' p = t p := by
  -- The outer induction is for a holder that waits, the inner one for a holder that goes on.
  induction hn : N - rank l using Nat.strong_induction_on generalizing t l with | _ n ihRank => ?_
  by_cases hfree : ∀ q, l ∉ (t q).held
  · exact ⟨t, .refl, ht, hfree, fun _ _ => rfl⟩
  obtain ⟨q, hq⟩ := not_forall_not.1 hfree
  clear hfree
  induction hk : (t q).todo.length using Nat.strong_induction_on generalizing t with
  | _ k ihTodo => ?_
  have hne : ∀ p, (∀ m ∈ (t p).held, rank m < rank l) → p ≠ q := by
    rintro p hp rfl
    exact lt_irrefl _ (hp l hq)
  cases htodo : (t q).todo with
  | nil =>
    have horder := ht.order q
    -- Nothing left to do means nothing held.
    rw [htodo] at horder
    rw [Option.some.inj horder] at hq
    exact absurd hq List.not_mem_nil
  | cons op w =>
    rw [htodo, List.length_cons] at hk
    cases op with
    | unlock m =>
      have hstep : Step prog t q _ := .unlock htodo
      have hsound := hstep.sound hprog ht
      by_cases hm : m = l
      -- The holder gives up `l` itself, or a lock above it and the inner induction goes on.
      · subst hm
        refine ⟨_, .snoc .refl hstep, hsound, fun p => ?_, fun p hp => ?_⟩
        · by_cases hpq : p = q
          · subst hpq
            rw [Function.update_self]
            exact ht.not_mem_erase
          · rw [Function.update_of_ne hpq]
            exact fun hp => hpq (ht.exclusive p q m hp hq)
        · exact Function.update_of_ne (hne p hp) _ _
      · obtain ⟨t', hreach, ht', hfree, hkept⟩ := ihTodo w.length (by omega) hsound
          (by rw [Function.update_self]; exact (List.mem_erase_of_ne (Ne.symm hm)).2 hq)
          (by rw [Function.update_self])
        refine ⟨t', (Transition.Reachable.refl.snoc hstep).trans hreach, ht', hfree,
          fun p hp => ?_⟩
        have hsame := Function.update_of_ne (hne p hp)
          ⟨(t q).held.erase m, w, (t q).next⟩ t
        rw [← hsame]
        exact hkept p (by rwa [hsame])
    | lock m =>
      -- The holder waits for `m`, which is above `l`: first `m` is freed, then the holder takes it.
      obtain ⟨habove, -⟩ := ht.lock_above htodo
      have hlm := habove l hq
      have hmN := hN m
      obtain ⟨t₁, hreach₁, ht₁, hfree₁, hkept₁⟩ := ihRank (N - rank m) (by omega) ht m rfl
      have hq₁ := hkept₁ q habove
      have hstep : Step prog t₁ q _ := .lock (hq₁ ▸ htodo) hfree₁
      obtain ⟨t', hreach, ht', hfree, hkept⟩ := ihTodo w.length (by omega)
        (hstep.sound hprog ht₁)
        (by rw [Function.update_self, hq₁]; exact List.mem_cons_of_mem m hq)
        (by rw [Function.update_self])
      refine ⟨t', (hreach₁.snoc hstep).trans hreach, ht', hfree, fun p hp => ?_⟩
      have hsame := Function.update_of_ne (hne p hp)
        ⟨m :: (t₁ q).held, w, (t₁ q).next⟩ t₁
      have hp₁ := hkept₁ p fun m' hm' => (hp m' hm').trans hlm
      rw [← hp₁, ← hsame]
      exact hkept p (by rwa [hsame, hp₁])

/-- **Whoever waits for a lock can get it**, after some steps of others. -/
theorem obtainable (hprog : Orderly rank prog) {N : ℕ} (hN : ∀ l, rank l ≤ N) {at_ : P → Q}
    (h : Transition.Reachable (Step prog) (start at_) t) (htodo : (t p).todo = .lock l :: w) :
    l ∉ (t p).held ∧ ∃ t', Transition.Reachable (Step prog) t t' ∧ l ∈ (t' p).held := by
  have ht : Sound rank t :=
    h.invariant (fun _ _ _ ht hstep => hstep.sound hprog ht) (.start at_)
  obtain ⟨habove, -⟩ := ht.lock_above htodo
  obtain ⟨t₁, hreach, -, hfree, hkept⟩ := ht.freed hprog hN l
  have hp := hkept p habove
  have hstep : Step prog t₁ p _ := .lock (hp ▸ htodo) hfree
  refine ⟨fun hl => lt_irrefl _ (habove l hl), _, hreach.snoc hstep, ?_⟩
  rw [Function.update_self]
  exact List.mem_cons_self

end LockOrder
