import Mathlib.Data.Int.Bitwise
import Mathlib.Tactic.Linarith
import Mathlib.Tactic.Positivity
import Mathlib.Tactic.Ring

/-!
# Circular arrays

A sequence that grows at its end, of which a window shorter than the
array is kept at the positions modulo the size of the array. Positions in
the sequence are absolute; the array is a function of its index.
-/

namespace LinuxSampler

namespace CircularArray

variable {α : Type*} {buf : ℤ → α} {size r w x d : ℤ} {log xs ys : List α} {a n R : ℕ}

/-! ## Masks -/

/-- To keep the low bits of a number is to take it modulo a power of two. -/
theorem land_two_pow_sub_one (x : ℤ) (k : ℕ) : Int.land x (2 ^ k - 1) = x % 2 ^ k := by
  have hmask : (2 ^ k - 1 : ℤ) = ((2 ^ k - 1 : ℕ) : ℤ) := by
    rw [Nat.cast_sub (Nat.one_le_two_pow)]
    simp
  rw [hmask]
  cases x with
  | ofNat m =>
      change ((m &&& (2 ^ k - 1) : ℕ) : ℤ) = (m : ℤ) % 2 ^ k
      rw [Nat.and_two_pow_sub_one_eq_mod]
      simp
  | negSucc m =>
      change ((Nat.ldiff (2 ^ k - 1) m : ℕ) : ℤ) = _
      have hlt : m % 2 ^ k < 2 ^ k := Nat.mod_lt _ (Nat.two_pow_pos k)
      have hdiff : Nat.ldiff (2 ^ k - 1) m = 2 ^ k - (m % 2 ^ k + 1) := by
        apply Nat.eq_of_testBit_eq
        intro i
        rw [Nat.testBit_ldiff, Nat.testBit_two_pow_sub_succ hlt, Nat.testBit_two_pow_sub_one,
          Nat.testBit_mod_two_pow]
        by_cases hi : i < k <;> simp [hi]
      rw [hdiff, Int.negSucc_emod _ (by positivity)]
      rw [Nat.cast_sub hlt]
      push_cast
      ring

/-! ## Positions -/

/-- The index `d` places after `x`, `k` rounds later. -/
theorem emod_add_eq (k : ℤ) (h₀ : 0 ≤ x % size + d - size * k)
    (h₁ : x % size + d - size * k < size) : (x + d) % size = x % size + d - size * k := by
  have hx : x + d = x % size + d - size * k + size * (x / size + k) := by
    have := Int.emod_add_mul_ediv x size
    linarith
  rw [hx, Int.add_mul_emod_self_left]
  exact Int.emod_eq_of_lt h₀ h₁

/-- Positions less than one round apart have different indices. -/
theorem emod_ne (size : ℤ) {x y : ℤ} (hlt : x < y) (hround : y < x + size) : x % size ≠ y % size := by
  intro h
  have hzero := Int.emod_eq_emod_iff_emod_sub_eq_zero.mp h.symm
  rw [Int.emod_eq_of_lt (by omega) (by omega)] at hzero
  omega

/-! ## Copying -/

/-- The array with the elements of a list from index `w` on. -/
def overwrite (buf : ℤ → α) (w : ℤ) (xs : List α) : ℤ → α := fun i =>
  if i < w then buf i else (xs[(i - w).toNat]?).getD (buf i)

/-- The elements of `n` indices from `r` on. -/
def slice (buf : ℤ → α) (r : ℤ) (n : ℕ) : List α := (List.range n).map fun j : ℕ => buf (r + j)

@[simp] theorem length_slice : (slice buf r n).length = n := by
  simp [slice]

theorem overwrite_of_lt {i : ℤ} (h : i < w) : overwrite buf w xs i = buf i :=
  if_pos h

theorem overwrite_of_le {i : ℤ} (h : w + xs.length ≤ i) : overwrite buf w xs i = buf i := by
  have hlen : xs.length ≤ (i - w).toNat := by omega
  rw [overwrite, List.getElem?_eq_none hlen]
  split <;> rfl

theorem overwrite_add {t : ℕ} (h : t < xs.length) :
    some (overwrite buf w xs (w + t)) = xs[t]? := by
  have hge : ¬ w + (t : ℤ) < w := by omega
  have ht : (w + (t : ℤ) - w).toNat = t := by omega
  rw [overwrite, if_neg hge, ht, List.getElem?_eq_getElem h, Option.getD_some]

/-! ## Windows -/

/-- The array has the elements of the sequence from position `R` on, those
before it may have been overwritten. -/
def Shows (buf : ℤ → α) (size : ℤ) (log : List α) (R : ℕ) : Prop :=
  ∀ j : ℕ, R ≤ j → j < log.length → some (buf (j % size)) = log[j]?

theorem Shows.mono (h : Shows buf size log R) {R' : ℕ} (hR : R ≤ R') : Shows buf size log R' :=
  fun j hj => h j (hR.trans hj)

theorem slice_eq (h : ∀ t : ℕ, t < n → some (buf (r + t)) = log[a + t]?) :
    slice buf r n = (log.drop a).take n := by
  apply List.ext_getElem?
  intro t
  by_cases ht : t < n
  · rw [List.getElem?_take_of_lt ht, List.getElem?_drop, ← h t ht]
    simp [slice, ht]
  · rw [List.getElem?_eq_none (by simpa using ht), List.getElem?_take_eq_none (by omega)]

/-- A stretch that does not reach the end of the array. -/
theorem Shows.slice (h : Shows buf size log R) (hR : R ≤ a) (hn : a + n ≤ log.length)
    (hend : (a : ℤ) % size + n ≤ size) (hsize : 0 < size) :
    slice buf (a % size) n = (log.drop a).take n := by
  have hnn := Int.emod_nonneg (a : ℤ) hsize.ne'
  refine slice_eq fun t ht => ?_
  have hpos : ((a + t : ℕ) : ℤ) % size = a % size + t := by
    push_cast
    rw [emod_add_eq 0 (by omega) (by omega)]
    ring
  rw [← hpos]
  exact h (a + t) (by omega) (by omega)

/-- A stretch that goes on at the beginning of the array. -/
theorem Shows.slice_wrap (h : Shows buf size log R) (hR : R ≤ a) (n₁ n₂ : ℕ)
    (hn : a + (n₁ + n₂) ≤ log.length) (hend : (a : ℤ) % size + n₁ = size) (hsize : 0 < size)
    (hn₂ : n₂ ≤ size) :
    CircularArray.slice buf (a % size) n₁ ++ CircularArray.slice buf 0 n₂ =
      (log.drop a).take (n₁ + n₂) := by
  have hzero : ((a + n₁ : ℕ) : ℤ) % size = 0 := by
    push_cast
    rw [emod_add_eq 1 (by omega) (by omega)]
    omega
  have hrest := h.slice (a := a + n₁) (n := n₂) (by omega) (by omega) (by omega) hsize
  rw [hzero] at hrest
  rw [h.slice hR (by omega) hend.le hsize, hrest, List.take_add, List.drop_drop]

/-- The positions of the window are apart from those that follow it. -/
theorem emod_notMem_range {j W : ℕ} (hj : j < W) (hW : W + n ≤ j + size)
    (hsize : 0 < size) :
    (j : ℤ) % size < W % size ∨ (W : ℤ) % size + n ≤ j % size := by
  have hnn := Int.emod_nonneg (W : ℤ) hsize.ne'
  have hlt := Int.emod_lt_of_pos (W : ℤ) hsize
  have hj' : (j : ℤ) = W + ((j : ℤ) - W) := by ring
  by_cases hback : 0 ≤ (W : ℤ) % size + ((j : ℤ) - W)
  · left
    rw [hj', emod_add_eq 0 (by omega) (by omega)]
    omega
  · right
    have heq : (j : ℤ) % size = W % size + ((j : ℤ) - W) + size := by
      conv_lhs => rw [hj']
      rw [emod_add_eq (-1) (by omega) (by omega)]
      ring
    rw [heq]
    omega

/-- A stretch is written behind the sequence. -/
theorem Shows.store (h : Shows buf size log R) (xs : List α)
    (hcap : log.length + xs.length ≤ R + size) (hsize : 0 < size) :
    Shows (CircularArray.overwrite buf (log.length % size) xs) size log R := by
  intro j hR hj
  rw [← h j hR hj]
  rcases emod_notMem_range (n := xs.length) hj (by omega) hsize with hlt | hle
  · rw [overwrite_of_lt hlt]
  · rw [overwrite_of_le hle]

/-- What the array has behind the sequence is added to it. -/
theorem Shows.extend (h : Shows buf size log R)
    (hxs : ∀ t : ℕ, t < xs.length → some (buf (log.length % size + t)) = xs[t]?)
    (hend : (log.length : ℤ) % size + xs.length ≤ size) (hsize : 0 < size) :
    Shows buf size (log ++ xs) R := by
  intro j hR hj
  have hnn := Int.emod_nonneg (log.length : ℤ) hsize.ne'
  rw [List.length_append] at hj
  by_cases hold : j < log.length
  · rw [List.getElem?_append_left hold, ← h j hR hold]
  · obtain ⟨t, rfl⟩ := Nat.exists_eq_add_of_le (not_lt.mp hold)
    have ht : t < xs.length := by omega
    have hpos : ((log.length + t : ℕ) : ℤ) % size = log.length % size + t := by
      push_cast
      rw [emod_add_eq 0 (by omega) (by omega)]
      ring
    rw [hpos, hxs t ht, List.getElem?_append_right (Nat.le_add_right _ _),
      Nat.add_sub_cancel_left]

/-- A stretch is written that does not reach the end of the array. -/
theorem Shows.overwrite (h : Shows buf size log R) (xs : List α)
    (hcap : log.length + xs.length ≤ R + size)
    (hend : (log.length : ℤ) % size + xs.length ≤ size) (hsize : 0 < size) :
    Shows (overwrite buf (log.length % size) xs) size (log ++ xs) R :=
  (h.store xs hcap hsize).extend (fun _ => overwrite_add) hend hsize

/-- A stretch is written that goes on at the beginning of the array. -/
theorem Shows.overwrite_wrap (h : Shows buf size log R) (xs ys : List α)
    (hcap : log.length + (xs.length + ys.length) ≤ R + size)
    (hend : (log.length : ℤ) % size + xs.length = size) (hsize : 0 < size)
    (hys : (ys.length : ℤ) ≤ size) :
    Shows (CircularArray.overwrite (CircularArray.overwrite buf (log.length % size) xs) 0 ys) size
      (log ++ (xs ++ ys)) R := by
  have hfirst := h.overwrite xs (by omega) hend.le hsize
  have hzero : ((log ++ xs).length : ℤ) % size = 0 := by
    rw [List.length_append]
    push_cast
    rw [emod_add_eq 1 (by omega) (by omega)]
    omega
  have hboth := hfirst.overwrite ys (by rw [List.length_append]; omega)
    (by rw [hzero]; omega) hsize
  rwa [hzero, List.append_assoc] at hboth

end CircularArray

end LinuxSampler
