import Mathlib

/-!
# `std::basic_string`

Positions and lengths are of the unsigned 64-bit type `size_t`, whose greatest value `npos` stands
for "not found" and is the size of no string. `find` returns the first position of a character;
`substr` cuts its length off at the end of the string, and throws past the end.

A length computed as a difference of positions wraps when the positions are not in order
(`subSize_pred_iff`), and `substr` takes it all the same.
-/

namespace General

/-- `std::string::npos`. -/
def npos : ℕ := 2 ^ 64 - 1

/-- The difference of two values of type `size_t`. -/
def subSize (a b : ℕ) : ℕ := (a + 2 ^ 64 - b) % 2 ^ 64

@[ext]
structure BasicString (α : Type*) where
  chars : List α
  size_lt : chars.length < npos

/-- The length between two positions is right exactly when they are in order. -/
theorem subSize_pred_iff {i j : ℕ} (hi : i < npos) (hj : j < npos) :
    (subSize (subSize j i) 1 : ℤ) = j - i - 1 ↔ i < j := by
  unfold subSize npos at *
  omega

theorem subSize_pred_add {i n : ℕ} (h : i + (n + 1) < npos) :
    subSize (subSize (i + (n + 1)) i) 1 = n := by
  unfold subSize npos at *
  omega

namespace BasicString

variable {α : Type*} {s : BasicString α} {c d : α} {l m r : List α} {pos n : ℕ}

/-! ## `substr` -/

theorem length_substr_lt (s : BasicString α) (pos n : ℕ) :
    ((s.chars.drop pos).take n).length < npos := by
  have hlen := s.size_lt
  simp only [List.length_take, List.length_drop]
  omega

/-- `substr`: the exception is `none`. -/
def substr (s : BasicString α) (pos n : ℕ) : Option (BasicString α) :=
  if pos ≤ s.chars.length then
    some ⟨(s.chars.drop pos).take n, s.length_substr_lt pos n⟩
  else none

/-- A position in the string is taken, whatever the length. -/
theorem substr_isSome (n : ℕ) (h : pos ≤ s.chars.length) : ∃ t, s.substr pos n = some t :=
  ⟨_, if_pos h⟩

/-- The characters between two positions. -/
theorem substr_eq (h : s.chars = l ++ m ++ r) (hpos : pos = l.length) (hn : n = m.length) :
    ∃ t, s.substr pos n = some t ∧ t.chars = m := by
  subst hpos hn
  have hle : l.length ≤ s.chars.length := by simp [h]
  exact ⟨_, if_pos hle, by simp [h, List.append_assoc]⟩

/-- The rest of a string. -/
theorem substr_npos (h : s.chars = l ++ r) (hpos : pos = l.length) :
    ∃ t, s.substr pos npos = some t ∧ t.chars = r := by
  subst hpos
  have hle : l.length ≤ s.chars.length := by simp [h]
  have hlen : r.length ≤ npos := by
    have hsize := s.size_lt
    simp only [h, List.length_append] at hsize
    omega
  exact ⟨_, if_pos hle, by simp [h, List.take_of_length_le hlen]⟩

/-! ## `find` -/

variable [DecidableEq α]

/-- `find`, from the start of the string. -/
def find (s : BasicString α) (c : α) : ℕ := if c ∈ s.chars then s.chars.idxOf c else npos

theorem find_of_mem (h : c ∈ s.chars) : s.find c = s.chars.idxOf c := if_pos h

theorem find_lt (h : c ∈ s.chars) : s.find c < s.chars.length := by
  rw [find_of_mem h]
  exact List.idxOf_lt_length_of_mem h

theorem find_ne_npos_iff : s.find c ≠ npos ↔ c ∈ s.chars := by
  by_cases hc : c ∈ s.chars
  · have hlt := find_lt hc
    have hlen := s.size_lt
    simp only [hc, iff_true]
    omega
  · simp [find, hc]

/-- The first position of a character that is not in what comes before it. -/
theorem find_eq_length (h : s.chars = l ++ c :: r) (hc : c ∉ l) : s.find c = l.length := by
  have hmem : c ∈ s.chars := by simp [h]
  rw [find_of_mem hmem, h, List.idxOf_append_of_notMem hc, List.idxOf_cons_self, Nat.add_zero]

/-- What comes after the first of a character. -/
theorem substr_after_find (h : s.chars = l ++ c :: m ++ r) (hc : c ∉ l) (hn : n = m.length) :
    ∃ t, s.substr (s.find c + 1) n = some t ∧ t.chars = m := by
  have hfind : s.find c = l.length := find_eq_length (h.trans (List.append_assoc _ _ _)) hc
  have hsplit : s.chars = (l ++ [c]) ++ m ++ r := by simp [h]
  apply substr_eq hsplit
  · simp [hfind]
  · exact hn

/-- The length of what is between two characters does not wrap exactly when they are found in that
order. -/
theorem subSize_find_iff (hc : c ∈ s.chars) (hd : d ∈ s.chars) :
    (subSize (subSize (s.find d) (s.find c)) 1 : ℤ) = s.find d - s.find c - 1 ↔
      s.chars.idxOf c < s.chars.idxOf d := by
  have hlen := s.size_lt
  rw [subSize_pred_iff ((find_lt hc).trans hlen) ((find_lt hd).trans hlen), find_of_mem hc,
    find_of_mem hd]

end BasicString

end General
