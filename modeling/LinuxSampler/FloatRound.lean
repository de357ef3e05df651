import Mathlib.Data.Int.Log
import Mathlib.Data.Rat.Floor

/-!
# Binary floating point rounding

Numbers with a binary significand of a given number of fraction bits, and
an exponent without bounds: `roundSig` rounds to the nearest one, ties to
the even significand. Rounding is monotone (`roundSig_mono`) and keeps
what is a number of the format already (`roundSig_of_scaled`).
-/

namespace FloatRound

/-! ## To integers -/

/-- The nearest integer, the even one of two. -/
def roundEven (q : ℚ) : Int :=
  if Int.fract q < 1 / 2 ∨ Int.fract q = 1 / 2 ∧ ⌊q⌋ % 2 = 0 then ⌊q⌋ else ⌊q⌋ + 1

@[simp] theorem roundEven_intCast (n : Int) : roundEven n = n := by
  simp [roundEven]

theorem floor_le_roundEven (q : ℚ) : ⌊q⌋ ≤ roundEven q := by
  unfold roundEven
  split_ifs <;> omega

theorem roundEven_le_floor_add_one (q : ℚ) : roundEven q ≤ ⌊q⌋ + 1 := by
  unfold roundEven
  split_ifs <;> omega

theorem roundEven_mono {q r : ℚ} (h : q ≤ r) : roundEven q ≤ roundEven r := by
  rcases (Int.floor_mono h).lt_or_eq with hlt | heq
  · -- an integer lies between them
    calc
      roundEven q ≤ ⌊q⌋ + 1 := roundEven_le_floor_add_one q
      _ ≤ ⌊r⌋ := hlt
      _ ≤ roundEven r := floor_le_roundEven r
  · have hfract : Int.fract q ≤ Int.fract r := by
      unfold Int.fract
      rw [heq]
      exact sub_le_sub_right h _
    unfold roundEven
    rw [heq]
    split_ifs with hq hr hr
    · exact le_rfl
    · omega
    · rcases hr with hr | ⟨hr, heven⟩
      · exact absurd (.inl (hfract.trans_lt hr)) hq
      · rcases (hfract.trans_eq hr).lt_or_eq with hlt | hhalf
        · exact absurd (.inl hlt) hq
        · exact absurd (.inr ⟨hhalf, heven⟩) hq
    · exact le_rfl

theorem le_roundEven {n : Int} {q : ℚ} (h : (n : ℚ) ≤ q) : n ≤ roundEven q :=
  (roundEven_intCast n).symm.trans_le (roundEven_mono h)

theorem roundEven_le {n : Int} {q : ℚ} (h : q ≤ n) : roundEven q ≤ n :=
  (roundEven_mono h).trans_eq (roundEven_intCast n)

/-! ## To a significand -/

/-- The weight of the last bit of a number. -/
def ulp (fractionBits : Nat) (q : ℚ) : ℚ := 2 ^ (Int.log 2 q - fractionBits)

/-- Rounding of a number that is not negative. -/
def roundPos (fractionBits : Nat) (q : ℚ) : ℚ :=
  roundEven (q / ulp fractionBits q) * ulp fractionBits q

def roundSig (fractionBits : Nat) (q : ℚ) : ℚ :=
  if q < 0 then -roundPos fractionBits (-q) else roundPos fractionBits q

variable {fractionBits : Nat} {q r : ℚ}

theorem ulp_pos : 0 < ulp fractionBits q := by
  unfold ulp
  exact zpow_pos two_pos _

theorem roundPos_nonneg (hq : 0 ≤ q) : 0 ≤ roundPos fractionBits q := by
  have hround : 0 ≤ roundEven (q / ulp fractionBits q) := by
    refine le_roundEven ?_
    rw [Int.cast_zero]
    exact div_nonneg hq ulp_pos.le
  exact mul_nonneg (by exact_mod_cast hround) ulp_pos.le

/-- The powers of two around a number are integer multiples of its last bit. -/
theorem two_zpow_eq (n : Nat) :
    (2 : ℚ) ^ (Int.log 2 q - fractionBits + n) = ((2 ^ n : Int) : ℚ) * ulp fractionBits q := by
  rw [zpow_add₀ two_ne_zero, ulp, mul_comm]
  push_cast
  norm_cast

theorem two_zpow_le_roundPos (hq : 0 < q) :
    (2 : ℚ) ^ Int.log 2 q ≤ roundPos fractionBits q := by
  have hpow : (2 : ℚ) ^ Int.log 2 q =
      ((2 ^ fractionBits : Int) : ℚ) * ulp fractionBits q := by
    rw [← two_zpow_eq]
    congr 1
    omega
  have hle := Int.zpow_log_le_self (b := 2) (by norm_num) hq
  rw [Nat.cast_ofNat, hpow] at hle
  rw [hpow, roundPos]
  refine mul_le_mul_of_nonneg_right ?_ ulp_pos.le
  exact_mod_cast le_roundEven ((le_div_iff₀ ulp_pos).mpr hle)

theorem roundPos_le_two_zpow :
    roundPos fractionBits q ≤ (2 : ℚ) ^ (Int.log 2 q + 1) := by
  have hpow : (2 : ℚ) ^ (Int.log 2 q + 1) =
      ((2 ^ (fractionBits + 1) : Int) : ℚ) * ulp fractionBits q := by
    rw [← two_zpow_eq]
    congr 1
    push_cast
    omega
  have hlt := (Int.lt_zpow_succ_log_self (b := 2) (by norm_num) q).le
  rw [Nat.cast_ofNat, hpow] at hlt
  rw [hpow, roundPos]
  refine mul_le_mul_of_nonneg_right ?_ ulp_pos.le
  exact_mod_cast roundEven_le ((div_le_iff₀ ulp_pos).mpr hlt)

theorem roundPos_mono (hq : 0 ≤ q) (h : q ≤ r) :
    roundPos fractionBits q ≤ roundPos fractionBits r := by
  rcases hq.eq_or_lt with rfl | hpos
  · have hzero : roundPos fractionBits 0 = 0 := by
      rw [roundPos, zero_div]
      exact mul_eq_zero_of_left (by exact_mod_cast roundEven_intCast 0) _
    rw [hzero]
    exact roundPos_nonneg h
  · rcases (Int.log_mono_right (b := 2) hpos h).lt_or_eq with hlt | heq
    · -- a power of two lies between them
      calc
        roundPos fractionBits q ≤ 2 ^ (Int.log 2 q + 1) := roundPos_le_two_zpow
        _ ≤ 2 ^ Int.log 2 r := zpow_le_zpow_right₀ (by norm_num) hlt
        _ ≤ roundPos fractionBits r := two_zpow_le_roundPos (hpos.trans_le h)
    · have hulp : ulp fractionBits q = ulp fractionBits r := by rw [ulp, heq, ulp]
      rw [roundPos, roundPos, hulp]
      refine mul_le_mul_of_nonneg_right ?_ ulp_pos.le
      exact_mod_cast roundEven_mono (div_le_div_of_nonneg_right h ulp_pos.le)

/-- Rounding keeps the order of numbers. -/
theorem roundSig_mono (fractionBits : Nat) (h : q ≤ r) :
    roundSig fractionBits q ≤ roundSig fractionBits r := by
  unfold roundSig
  split_ifs with hq hr hr
  · exact neg_le_neg (roundPos_mono (by linarith) (by linarith))
  · have hneg : 0 ≤ roundPos fractionBits (-q) := roundPos_nonneg (by linarith)
    have hpos : 0 ≤ roundPos fractionBits r := roundPos_nonneg (not_lt.mp hr)
    linarith
  · linarith
  · exact roundPos_mono (not_lt.mp hq) h

/-! ## Numbers of the format -/

theorem roundPos_of_eq_mul {n : Int} (h : q = n * ulp fractionBits q) :
    roundPos fractionBits q = q := by
  have hdiv : q / ulp fractionBits q = n := (div_eq_iff ulp_pos.ne').mpr h
  rw [roundPos, hdiv, roundEven_intCast]
  exact h.symm

theorem roundPos_of_scaled {n : Nat} {e : Int} (hn : n ≤ 2 ^ (fractionBits + 1)) :
    roundPos fractionBits (n * 2 ^ e) = n * 2 ^ e := by
  rcases n.eq_zero_or_pos with rfl | hpos
  · exact roundPos_of_eq_mul (n := 0) (by simp)
  have hq : (0 : ℚ) < n * 2 ^ e := mul_pos (by exact_mod_cast hpos) (zpow_pos two_pos e)
  have hlog := Int.zpow_log_le_self (b := 2) (by norm_num) hq
  rw [Nat.cast_ofNat] at hlog
  have hle : ((n : ℚ)) * 2 ^ e ≤ 2 ^ ((fractionBits + 1 : Nat) + e : Int) := by
    rw [zpow_add₀ two_ne_zero, zpow_natCast]
    exact mul_le_mul_of_nonneg_right (by exact_mod_cast hn) (zpow_pos two_pos e).le
  have hbound : Int.log 2 ((n : ℚ) * 2 ^ e) ≤ (fractionBits + 1 : Nat) + e :=
    (zpow_le_zpow_iff_right₀ (by norm_num)).mp (hlog.trans hle)
  rcases hbound.lt_or_eq with hlt | heq
  · -- the last bit weighs at most `2 ^ e`
    obtain ⟨d, hd⟩ : ∃ d : Nat, e = Int.log 2 ((n : ℚ) * 2 ^ e) - fractionBits + d :=
      ⟨(e - (Int.log 2 ((n : ℚ) * 2 ^ e) - fractionBits)).toNat, by push_cast at hlt; omega⟩
    refine roundPos_of_eq_mul (n := n * 2 ^ d) ?_
    have hscale : (2 : ℚ) ^ e = ((2 ^ d : Int) : ℚ) * ulp fractionBits (n * 2 ^ e) := by
      rw [← two_zpow_eq, ← hd]
    push_cast at hscale ⊢
    rw [mul_assoc, ← hscale]
  · -- the number is the next power of two
    have hpow : (n : ℚ) * 2 ^ e = 2 ^ Int.log 2 ((n : ℚ) * 2 ^ e) := by
      refine le_antisymm ?_ hlog
      rw [heq]
      exact hle
    refine roundPos_of_eq_mul (n := 2 ^ fractionBits) ?_
    rw [← two_zpow_eq, sub_add_cancel]
    exact hpow

/-- What has a significand that fits is not changed. -/
theorem roundSig_of_scaled {m e : Int} (hm : m.natAbs ≤ 2 ^ (fractionBits + 1)) :
    roundSig fractionBits (m * 2 ^ e) = m * 2 ^ e := by
  have habs : roundPos fractionBits (m.natAbs * 2 ^ e) = m.natAbs * 2 ^ e :=
    roundPos_of_scaled hm
  have hpow : (0 : ℚ) < 2 ^ e := zpow_pos two_pos e
  unfold roundSig
  rcases lt_or_ge m 0 with hneg | hnonneg
  · have hcast : (m : ℚ) = -(m.natAbs : ℚ) := by
      rw [Nat.cast_natAbs, abs_of_neg hneg]
      push_cast
      rw [neg_neg]
    rw [if_pos (mul_neg_of_neg_of_pos (by exact_mod_cast hneg) hpow), hcast, neg_mul, neg_neg,
      habs]
  · have hcast : (m : ℚ) = (m.natAbs : ℚ) := by
      rw [Nat.cast_natAbs, abs_of_nonneg hnonneg]
    rw [if_neg (not_lt.mpr (mul_nonneg (by exact_mod_cast hnonneg) hpow.le)), hcast, habs]

theorem roundEven_div_ulp (hq : 0 ≤ q) :
    (roundEven (q / ulp fractionBits q)).natAbs ≤ 2 ^ (fractionBits + 1) := by
  have hnonneg : 0 ≤ roundEven (q / ulp fractionBits q) :=
    le_roundEven (by rw [Int.cast_zero]; exact div_nonneg hq ulp_pos.le)
  have hle : roundPos fractionBits q ≤ ((2 ^ (fractionBits + 1) : Int) : ℚ) *
      ulp fractionBits q := by
    rw [← two_zpow_eq]
    refine roundPos_le_two_zpow.trans_eq ?_
    congr 1
    push_cast
    omega
  have hround : roundEven (q / ulp fractionBits q) ≤ 2 ^ (fractionBits + 1) := by
    exact_mod_cast le_of_mul_le_mul_right hle ulp_pos
  zify
  rwa [abs_of_nonneg hnonneg]

/-- The result is such a number. -/
theorem exists_scaled (fractionBits : Nat) (q : ℚ) :
    ∃ m e : Int, m.natAbs ≤ 2 ^ (fractionBits + 1) ∧ roundSig fractionBits q = m * 2 ^ e := by
  unfold roundSig
  split_ifs with hq
  · refine ⟨-roundEven (-q / ulp fractionBits (-q)), Int.log 2 (-q) - fractionBits, ?_, ?_⟩
    · rw [Int.natAbs_neg]
      exact roundEven_div_ulp (by linarith)
    · push_cast
      rw [neg_mul]
      rfl
  · exact ⟨roundEven (q / ulp fractionBits q), Int.log 2 q - fractionBits,
      roundEven_div_ulp (not_lt.mp hq), rfl⟩

theorem roundSig_roundSig (fractionBits : Nat) (q : ℚ) :
    roundSig fractionBits (roundSig fractionBits q) = roundSig fractionBits q := by
  obtain ⟨m, e, hm, heq⟩ := exists_scaled fractionBits q
  rw [heq, roundSig_of_scaled hm]

/-- Integers with a significand that fits. -/
theorem roundSig_intCast {n : Int} (hn : n.natAbs ≤ 2 ^ (fractionBits + 1)) :
    roundSig fractionBits n = n := by
  have hround := roundSig_of_scaled (e := 0) hn
  rwa [zpow_zero, mul_one] at hround

end FloatRound
