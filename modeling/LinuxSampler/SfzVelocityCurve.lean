import LinuxSampler.MidiData
import Mathlib.Data.List.Induction
import Mathlib.Tactic.FieldSimp
import Mathlib.Tactic.Linarith
import Mathlib.Tactic.Ring

/-!
# Velocity curves of the sfz engine

The array `amp_velcurve` of a region is set to -1 and then, by the opcodes
`amp_velcurve_N`, to the values of the points. When all is read the
constructor of `File` goes through the array and writes straight lines over
it, from each point to the next one. Numbers are rationals here.

The loop starts from the value 0 at velocity 0 and takes a point at 0 for
that start, without a look at its value; where no point has followed, it
takes the default curve. So the curve passes through the points if there is
a point at another velocity, and none at 0 but with the value 0
(`passesThrough_iff`).
-/

namespace LinuxSampler

namespace Sfz

namespace VelocityCurve

/-! ## Constructor of `File` -/

/-- The variables of the loop. -/
structure Curve where
  velcurve : ℕ → ℚ
  prev : ℕ
  prevvalue : ℚ

/-- `for ( ; prev < v ; prev++)`, which is run `v - prev` times. -/
def fill (step : ℚ) : ℕ → Curve → Curve
  | 0, c => c
  | k + 1, c =>
      fill step k {
        velcurve := Function.update c.velcurve c.prev c.prevvalue
        prev := c.prev + 1
        prevvalue := c.prevvalue + step }

def visit (c : Curve) (v : ℕ) : Curve :=
  if 0 ≤ c.velcurve v then
    fill ((c.velcurve v - c.prevvalue) / ((v : ℚ) - c.prev)) (v - c.prev) c
  else c

def scan (velcurve : ℕ → ℚ) (m : ℕ) : Curve := (List.range m).foldl visit ⟨velcurve, 0, 0⟩

def defaultCurve (velcurve : ℕ → ℚ) (m : ℕ) : ℕ → ℚ :=
  (List.range m).foldl (fun a v => Function.update a v ((v : ℚ) * v / (127 * 127))) velcurve

/-- The velocity response curve of a region, from its points and the -1 elsewhere. -/
def buildCurve (velcurve : ℕ → ℚ) : ℕ → ℚ :=
  let c := scan velcurve 128
  if c.prev ≠ 0 then
    (fill ((1 - c.prevvalue) / (127 - c.prev)) (128 - c.prev) c).velcurve
  else defaultCurve c.velcurve 128

/-- The curves of all regions; regions that share a buffer have it built once. -/
def buildAll : List ℕ → List ℕ → (ℕ → ℕ → ℚ) → ℕ → ℕ → ℚ
  | [], _, memory => memory
  | buffer :: buffers, velcurves, memory =>
      if buffer ∈ velcurves then buildAll buffers velcurves memory
      else
        buildAll buffers (buffer :: velcurves)
          (Function.update memory buffer (buildCurve (memory buffer)))

/-- `amp_velcurve` after the opcodes `amp_velcurve_N` for it. -/
def setAll (opcodes : List (Fin 128 × ℚ)) : ℕ → ℚ :=
  opcodes.foldl (fun a o => Function.update a o.1 o.2) fun _ => -1

/-! ## Curve through points -/

/-- The points that the opcodes give. -/
def points (opcodes : List (Fin 128 × ℚ)) : ℕ → Option ℚ :=
  opcodes.foldl (fun a o => Function.update a o.1 (some o.2)) fun _ => none

/-- The line through two points. -/
def line (a : ℕ) (p : ℚ) (b : ℕ) (q : ℚ) (n : ℕ) : ℚ :=
  p + ((n : ℚ) - a) * ((q - p) / ((b : ℚ) - a))

/-- Two points with none between them. -/
structure Neighbours (knots : ℕ → Option ℚ) (a : ℕ) (p : ℚ) (b : ℕ) (q : ℚ) : Prop where
  lt : a < b
  left : knots a = some p
  right : knots b = some q
  gap : ∀ n, a < n → n < b → knots n = none

/-- The points, with the value 0 at 0 and 1 at 127 where they are not given. -/
def withEnds (points : ℕ → Option ℚ) (n : ℕ) : Option ℚ :=
  if n = 0 then some ((points 0).getD 0)
  else if n = 127 then some ((points 127).getD 1)
  else points n

structure PassesThrough (points : ℕ → Option ℚ) (curve : ℕ → ℚ) : Prop where
  point : ∀ n p, points n = some p → curve n = p
  linear : ∀ a p b q, Neighbours (withEnds points) a p b q →
    ∀ n, a ≤ n → n ≤ b → curve n = line a p b q n

theorem line_left (a : ℕ) (p : ℚ) (b : ℕ) (q : ℚ) : line a p b q a = p := by
  simp [line]

theorem line_right {a b : ℕ} (h : a < b) (p q : ℚ) : line a p b q b = q := by
  have hne : (b : ℚ) - a ≠ 0 := sub_ne_zero.mpr (Nat.cast_injective.ne h.ne')
  rw [line, mul_div_cancel₀ _ hne]
  ring

/-! ## Loops -/

theorem fill_prev (step : ℚ) (k : ℕ) (c : Curve) : (fill step k c).prev = c.prev + k := by
  induction k generalizing c with
  | zero => rfl
  | succ k ih =>
      rw [fill, ih]
      show c.prev + 1 + k = c.prev + (k + 1)
      omega

theorem fill_prevvalue (step : ℚ) (k : ℕ) (c : Curve) :
    (fill step k c).prevvalue = c.prevvalue + k * step := by
  induction k generalizing c with
  | zero => simp [fill]
  | succ k ih =>
      rw [fill, ih]
      push_cast
      ring

theorem fill_velcurve_of_outside (step : ℚ) (k : ℕ) (c : Curve) {n : ℕ}
    (hn : n < c.prev ∨ c.prev + k ≤ n) : (fill step k c).velcurve n = c.velcurve n := by
  induction k generalizing c with
  | zero => rfl
  | succ k ih =>
      rw [fill, ih _ (by show n < c.prev + 1 ∨ c.prev + 1 + k ≤ n; omega)]
      exact Function.update_of_ne (by omega) ..

theorem fill_velcurve (step : ℚ) (k : ℕ) (c : Curve) {n : ℕ} (hlow : c.prev ≤ n)
    (hhigh : n < c.prev + k) :
    (fill step k c).velcurve n = c.prevvalue + ((n : ℚ) - c.prev) * step := by
  induction k generalizing c with
  | zero => omega
  | succ k ih =>
      rw [fill]
      rcases hlow.eq_or_lt with rfl | hlt
      · rw [fill_velcurve_of_outside _ _ _ (.inl (Nat.lt_succ_self _))]
        simp
      · rw [ih _ (by exact hlt) (by show n < c.prev + 1 + k; omega)]
        push_cast
        ring

theorem defaultCurve_apply (velcurve : ℕ → ℚ) (m : ℕ) {n : ℕ} (hn : n < m) :
    defaultCurve velcurve m n = (n : ℚ) * n / (127 * 127) := by
  induction m with
  | zero => omega
  | succ m ih =>
      rw [defaultCurve, List.range_succ, List.foldl_append]
      show Function.update (defaultCurve velcurve m) m ((m : ℚ) * m / (127 * 127)) n = _
      rcases (Nat.lt_succ_iff.mp hn).eq_or_lt with rfl | hlt
      · exact Function.update_self ..
      · rw [Function.update_of_ne hlt.ne, ih hlt]

theorem buildAll_apply (buffers velcurves : List ℕ) (memory : ℕ → ℕ → ℚ) (buffer : ℕ) :
    buildAll buffers velcurves memory buffer =
      if buffer ∈ buffers ∧ buffer ∉ velcurves then buildCurve (memory buffer)
      else memory buffer := by
  induction buffers generalizing velcurves memory with
  | nil => simp [buildAll]
  | cons other buffers ih =>
      rw [buildAll]
      by_cases hseen : other ∈ velcurves
      · rw [if_pos hseen, ih]
        by_cases heq : buffer = other
        · subst heq
          simp [hseen]
        · simp [heq]
      · rw [if_neg hseen, ih]
        by_cases heq : buffer = other
        · subst heq
          simp [hseen]
        · simp [heq]

/-! ## Scan of the points -/

section Scan

variable {points : ℕ → Option ℚ}

/-- What the loop takes for the points. -/
def knot (points : ℕ → Option ℚ) (n : ℕ) : Option ℚ := if n = 0 then some 0 else points n

theorem knot_of_pos {n : ℕ} (h : 0 < n) : knot points n = points n := if_neg h.ne'

/-- The array of the points. -/
structure Holds (points : ℕ → Option ℚ) (velcurve : ℕ → ℚ) : Prop where
  array : ∀ n, velcurve n = (points n).getD (-1)
  nonneg : ∀ n p, points n = some p → 0 ≤ p
  lt : ∀ n p, points n = some p → n < 128

/-- The loop has come to `m`: the lines are drawn up to `prev`, the last point so far. -/
structure Drawn (points : ℕ → Option ℚ) (velcurve : ℕ → ℚ) (m : ℕ) (c : Curve) : Prop where
  le : c.prev ≤ m - 1
  knot : knot points c.prev = some c.prevvalue
  gap : ∀ n, c.prev < n → n < m → points n = none
  rest : ∀ n, c.prev ≤ n → c.velcurve n = velcurve n
  point : ∀ n p, n < c.prev → VelocityCurve.knot points n = some p → c.velcurve n = p
  linear : ∀ a p b q, Neighbours (VelocityCurve.knot points) a p b q → b ≤ c.prev →
    ∀ n, a ≤ n → n < b → c.velcurve n = line a p b q n

/-- Neighbours with the second one behind the last point so far start there. -/
theorem Neighbours.start {knots : ℕ → Option ℚ} {a b m : ℕ} {p q x : ℚ}
    (h : Neighbours knots a p b q) (hm : knots m = some x) (hgap : ∀ n, m < n → n < b → knots n = none)
    (hlt : m < b) : a = m ∧ p = x := by
  have heq : a = m := by
    rcases Nat.lt_trichotomy a m with hbefore | heq | hbehind
    · rw [h.gap m hbefore hlt] at hm
      exact nomatch hm
    · exact heq
    · have hnone := hgap a hbehind h.lt
      rw [h.left] at hnone
      exact nomatch hnone
  subst heq
  exact ⟨rfl, Option.some.inj (h.left.symm.trans hm)⟩

theorem Drawn.initial (points : ℕ → Option ℚ) (velcurve : ℕ → ℚ) :
    Drawn points velcurve 0 ⟨velcurve, 0, 0⟩ where
  le := Nat.le_refl 0
  knot := rfl
  gap n _ hn := absurd hn (Nat.not_lt_zero n)
  rest _ _ := rfl
  point n _ hn := absurd hn (Nat.not_lt_zero n)
  linear _ _ _ _ h hb := absurd (h.lt.trans_le hb) (Nat.not_lt_zero _)

theorem Drawn.visit_of_none {velcurve : ℕ → ℚ} {m : ℕ} {c : Curve} (h : Drawn points velcurve m c)
    (hholds : Holds points velcurve) (hnone : points m = none) :
    Drawn points velcurve (m + 1) (visit c m) := by
  have hunset : ¬ 0 ≤ c.velcurve m := by
    rw [h.rest m (h.le.trans (Nat.sub_le m 1)), hholds.array, hnone]
    norm_num
  rw [visit, if_neg hunset]
  refine { h with le := h.le.trans (Nat.sub_le m 1), gap := fun n hlow hhigh => ?_ }
  rcases (Nat.lt_succ_iff.mp hhigh).eq_or_lt with rfl | hlt
  · exact hnone
  · exact h.gap n hlow hlt

/-- A point at 0 is where the loop starts anyway. -/
theorem Drawn.visit_zero {velcurve : ℕ → ℚ} {c : Curve} (h : Drawn points velcurve 0 c) :
    Drawn points velcurve 1 (visit c 0) := by
  have hsame : visit c 0 = c := by
    rw [visit, Nat.zero_sub]
    split <;> rfl
  rw [hsame]
  exact { h with le := h.le, gap := fun n hlow hhigh => by omega }

theorem Drawn.visit_of_some {velcurve : ℕ → ℚ} {m : ℕ} {c : Curve} (h : Drawn points velcurve m c)
    (hholds : Holds points velcurve) (hpos : 0 < m) {x : ℚ} (hsome : points m = some x) :
    Drawn points velcurve (m + 1) (visit c m) := by
  have hlt : c.prev < m := h.le.trans_lt (Nat.sub_lt hpos Nat.one_pos)
  have hx : c.velcurve m = x := by
    rw [h.rest m hlt.le, hholds.array, hsome]
    rfl
  have hknot : VelocityCurve.knot points m = some x := (knot_of_pos hpos).trans hsome
  have hgap : ∀ n, c.prev < n → n < m → VelocityCurve.knot points n = none := fun n hlow hhigh =>
    (knot_of_pos (by omega)).trans (h.gap n hlow hhigh)
  have hsum : c.prev + (m - c.prev) = m := by omega
  have hnew : ∀ n, c.prev ≤ n → n < m → (visit c m).velcurve n = line c.prev c.prevvalue m x n := by
    intro n hlow hhigh
    rw [visit, if_pos (hx ▸ hholds.nonneg m x hsome), hx, fill_velcurve _ _ _ hlow (by omega)]
    rfl
  have hold : ∀ n, n < c.prev → (visit c m).velcurve n = c.velcurve n := by
    intro n hn
    rw [visit, if_pos (hx ▸ hholds.nonneg m x hsome), fill_velcurve_of_outside _ _ _ (.inl hn)]
  have hprev : (visit c m).prev = m := by
    rw [visit, if_pos (hx ▸ hholds.nonneg m x hsome), fill_prev, hsum]
  have hvalue : (visit c m).prevvalue = x := by
    have hne : (m : ℚ) - c.prev ≠ 0 := sub_ne_zero.mpr (Nat.cast_injective.ne hlt.ne')
    rw [visit, if_pos (hx ▸ hholds.nonneg m x hsome), hx, fill_prevvalue, Nat.cast_sub hlt.le,
      mul_div_cancel₀ _ hne]
    ring
  constructor
  · exact hprev.le
  · rw [hprev, hvalue, hknot]
  · intro n hlow hhigh
    rw [hprev] at hlow
    omega
  · intro n hn
    rw [hprev] at hn
    rw [visit, if_pos (hx ▸ hholds.nonneg m x hsome), fill_velcurve_of_outside _ _ _ (.inr (by omega))]
    exact h.rest n (by omega)
  · intro n p hn hp
    rw [hprev] at hn
    rcases Nat.lt_trichotomy n c.prev with hbefore | rfl | hbehind
    · exact (hold n hbefore).trans (h.point n p hbefore hp)
    · rw [hnew _ (Nat.le_refl _) hn, line_left]
      exact Option.some.inj (h.knot.symm.trans hp)
    · rw [hgap n hbehind hn] at hp
      exact nomatch hp
  · intro a p b q hneighbours hb n hlow hhigh
    rw [hprev] at hb
    by_cases hearlier : b ≤ c.prev
    · exact (hold n (by omega)).trans (h.linear a p b q hneighbours hearlier n hlow hhigh)
    · have hbm : b = m := by
        by_contra hne
        have hnone := hgap b (by omega) (by omega)
        rw [hneighbours.right] at hnone
        exact nomatch hnone
      subst hbm
      obtain ⟨rfl, rfl⟩ := hneighbours.start h.knot hgap hlt
      cases hneighbours.right.symm.trans hknot
      exact hnew n hlow hhigh

theorem drawn_scan {velcurve : ℕ → ℚ} (hholds : Holds points velcurve) (m : ℕ) :
    Drawn points velcurve m (scan velcurve m) := by
  induction m with
  | zero => exact .initial points velcurve
  | succ m ih =>
      have hstep : scan velcurve (m + 1) = visit (scan velcurve m) m := by
        rw [scan, List.range_succ, List.foldl_append]
        rfl
      rw [hstep]
      cases hpoint : points m with
      | none => exact ih.visit_of_none hholds hpoint
      | some x =>
          rcases Nat.eq_zero_or_pos m with rfl | hpos
          · exact ih.visit_zero
          · exact ih.visit_of_some hholds hpos hpoint

/-! ## The whole curve -/

/-- The loop for the part behind the last point. -/
theorem buildCurve_of_pos {velcurve : ℕ → ℚ} (h : 0 < (scan velcurve 128).prev) {n : ℕ} :
    buildCurve velcurve n =
      if (scan velcurve 128).prev ≤ n ∧ n < (scan velcurve 128).prev + (128 - (scan velcurve 128).prev)
      then line (scan velcurve 128).prev (scan velcurve 128).prevvalue 127 1 n
      else (scan velcurve 128).velcurve n := by
  rw [buildCurve]
  simp only [ne_eq, h.ne', not_false_eq_true, if_true]
  split
  next hn => exact fill_velcurve _ _ _ hn.1 hn.2
  next hn => exact fill_velcurve_of_outside _ _ _ (by omega)

theorem buildCurve_of_zero {velcurve : ℕ → ℚ} (h : (scan velcurve 128).prev = 0) {n : ℕ}
    (hn : n < 128) : buildCurve velcurve n = (n : ℚ) * n / (127 * 127) := by
  rw [buildCurve]
  simp only [h, ne_eq, not_true_eq_false, if_false]
  exact defaultCurve_apply _ _ hn

section Whole

variable {velcurve : ℕ → ℚ} (hholds : Holds points velcurve)
include hholds

theorem Holds.pos_iff : 0 < (scan velcurve 128).prev ↔ ∃ n p, 0 < n ∧ points n = some p := by
  have hdrawn := drawn_scan hholds 128
  constructor
  · exact fun hpos => ⟨_, _, hpos, (knot_of_pos hpos).symm.trans hdrawn.knot⟩
  · rintro ⟨n, p, hpos, hp⟩
    by_contra hzero
    have hnone := hdrawn.gap n (by omega) (hholds.lt n p hp)
    rw [hp] at hnone
    exact nomatch hnone

/-- The curve has the value of each point that the loop takes. -/
theorem Holds.buildCurve_knot (hpos : 0 < (scan velcurve 128).prev) {n : ℕ} {p : ℚ}
    (hp : knot points n = some p) : buildCurve velcurve n = p := by
  have hdrawn := drawn_scan hholds 128
  have hlast := hdrawn.le
  have hn : n < 128 := by
    rcases Nat.eq_zero_or_pos n with rfl | hn
    · omega
    · exact hholds.lt n p ((knot_of_pos hn).symm.trans hp)
  rw [buildCurve_of_pos hpos]
  rcases Nat.lt_trichotomy n (scan velcurve 128).prev with hbefore | heq | hbehind
  · rw [if_neg (by omega)]
    exact hdrawn.point n p hbefore hp
  · rw [if_pos (by omega), heq, line_left]
    rw [heq] at hp
    exact Option.some.inj (hdrawn.knot.symm.trans hp)
  · rw [knot_of_pos (by omega), hdrawn.gap n hbehind hn] at hp
    exact nomatch hp

/-- The lines are those between the points, with the value 0 at 0. -/
theorem Holds.buildCurve_linear (hpos : 0 < (scan velcurve 128).prev)
    (hzero : ∀ p, points 0 = some p → p = 0) {a b : ℕ} {p q : ℚ}
    (h : Neighbours (withEnds points) a p b q) {n : ℕ} (hlow : a ≤ n) (hhigh : n ≤ b) :
    buildCurve velcurve n = line a p b q n := by
  have hdrawn := drawn_scan hholds 128
  have hlast := hdrawn.le
  have hinner : ∀ {n : ℕ}, n ≠ 127 → withEnds points n = knot points n := by
    intro n hn
    rw [withEnds, knot, if_neg hn]
    split
    · cases hpoint : points 0 with
      | none => rfl
      | some x => exact congrArg some (hzero x hpoint)
    · rfl
  have hb : b ≤ 127 := by
    by_contra hbig
    have hright := h.right
    rw [hinner (by omega), knot_of_pos (by omega)] at hright
    have hlt := hholds.lt b q hright
    omega
  by_cases hdone : b ≤ (scan velcurve 128).prev
  · have hright : knot points b = some q := by
      by_cases hend : b = 127
      · have hprev : (scan velcurve 128).prev = 127 := by omega
        have hpoint := hdrawn.knot
        rw [hprev, knot_of_pos (by omega)] at hpoint
        have hright := h.right
        rw [hend, withEnds, if_neg (by omega), if_pos rfl, hpoint] at hright
        rw [hend, knot_of_pos (by omega), hpoint]
        exact hright
      · exact (hinner hend).symm.trans h.right
    have hlt := h.lt
    have hneighbours : Neighbours (knot points) a p b q :=
      ⟨hlt, (hinner (by omega)).symm.trans h.left, hright,
        fun n hlow hhigh => (hinner (by omega)).symm.trans (h.gap n hlow hhigh)⟩
    rcases hhigh.eq_or_lt with rfl | hlt
    · rw [hholds.buildCurve_knot hpos hright, line_right h.lt]
    · rw [buildCurve_of_pos hpos, if_neg (by omega)]
      exact hdrawn.linear a p b q hneighbours hdone n hlow hlt
  · -- the line from the last point to the end of the array
    have hnone : ∀ n, (scan velcurve 128).prev < n → n < b → withEnds points n = none :=
      fun n hlow hhigh => (hinner (by omega)).trans
        ((knot_of_pos (by omega)).trans (hdrawn.gap n hlow (by omega)))
    have hstart : withEnds points (scan velcurve 128).prev = some (scan velcurve 128).prevvalue :=
      (hinner (by omega)).trans hdrawn.knot
    obtain ⟨ha, hp⟩ := h.start hstart hnone (by omega)
    have hright := h.right
    have hend : b = 127 := by
      by_contra hne
      rw [hinner hne, knot_of_pos (by omega), hdrawn.gap b (by omega) (by omega)] at hright
      exact nomatch hright
    rw [hend, withEnds, if_neg (by omega), if_pos rfl, hdrawn.gap 127 (by omega) (by omega)] at hright
    have hq : 1 = q := Option.some.inj hright
    rw [buildCurve_of_pos hpos, if_pos (by omega), ha, hp, hend, ← hq]

theorem Holds.passesThrough_buildCurve (hsome : ∃ n p, points n = some p) :
    PassesThrough points (buildCurve velcurve) ↔
      (∃ n p, 0 < n ∧ points n = some p) ∧ ∀ p, points 0 = some p → p = 0 := by
  rw [← hholds.pos_iff]
  constructor
  · intro h
    have hpos : 0 < (scan velcurve 128).prev := by
      by_contra hnot
      have hprev : (scan velcurve 128).prev = 0 := by omega
      have hnone : ∀ n, 0 < n → points n = none := fun n hn => by
        by_contra hne
        obtain ⟨p, hp⟩ := Option.ne_none_iff_exists'.mp hne
        exact hnot (hholds.pos_iff.mpr ⟨n, p, hn, hp⟩)
      obtain ⟨n, p, hp⟩ := hsome
      obtain rfl : n = 0 := by
        by_contra hn
        rw [hnone n (by omega)] at hp
        exact nomatch hp
      have hneighbours : Neighbours (withEnds points) 0 p 127 1 := by
        refine ⟨by omega, ?_, ?_, fun n hlow hhigh => ?_⟩
        · rw [withEnds, if_pos rfl, hp]
          rfl
        · rw [withEnds, if_neg (by omega), if_pos rfl, hnone 127 (by omega)]
          rfl
        · rw [withEnds, if_neg (by omega), if_neg (by omega), hnone n hlow]
      -- the default curve is none of the lines that start at its value at 0
      have hstart := h.point 0 p hp
      have hnext := h.linear 0 p 127 1 hneighbours 1 (by omega) (by omega)
      rw [buildCurve_of_zero hprev (by omega)] at hstart hnext
      norm_num at hstart
      rw [line, ← hstart] at hnext
      norm_num at hnext
    refine ⟨hpos, fun p hp => ?_⟩
    rw [← h.point 0 p hp]
    exact hholds.buildCurve_knot hpos rfl
  · rintro ⟨hpos, hzero⟩
    constructor
    · intro n p hp
      refine hholds.buildCurve_knot hpos ?_
      rcases Nat.eq_zero_or_pos n with rfl | hn
      · rw [hzero p hp]
        rfl
      · exact (knot_of_pos hn).trans hp
    · exact fun a p b q hneighbours n hlow hhigh =>
        hholds.buildCurve_linear hpos hzero hneighbours hlow hhigh

end Whole

end Scan

/-! ## Opcodes -/

theorem setAll_append (opcodes : List (Fin 128 × ℚ)) (o : Fin 128 × ℚ) :
    setAll (opcodes ++ [o]) = Function.update (setAll opcodes) o.1 o.2 :=
  List.foldl_append

theorem points_append (opcodes : List (Fin 128 × ℚ)) (o : Fin 128 × ℚ) :
    points (opcodes ++ [o]) = Function.update (points opcodes) o.1 (some o.2) :=
  List.foldl_append

theorem holds_setAll {opcodes : List (Fin 128 × ℚ)} (h : ∀ o ∈ opcodes, 0 ≤ o.2) :
    Holds (points opcodes) (setAll opcodes) := by
  induction opcodes using List.reverseRecOn with
  | nil => exact ⟨fun _ => rfl, (fun _ _ h => nomatch h), (fun _ _ h => nomatch h)⟩
  | append_singleton opcodes o ih =>
      have hholds := ih fun o ho => h o (List.mem_append_left _ ho)
      have hlast := h o (List.mem_append_right _ List.mem_cons_self)
      rw [setAll_append, points_append]
      constructor
      · intro n
        by_cases hn : n = o.1
        · rw [hn, Function.update_self, Function.update_self]
          rfl
        · rw [Function.update_of_ne hn, Function.update_of_ne hn, hholds.array]
      · intro n p hp
        by_cases hn : n = o.1
        · rw [hn, Function.update_self] at hp
          exact Option.some.inj hp ▸ hlast
        · rw [Function.update_of_ne hn] at hp
          exact hholds.nonneg n p hp
      · intro n p hp
        by_cases hn : n = o.1
        · exact hn ▸ o.1.isLt
        · rw [Function.update_of_ne hn] at hp
          exact hholds.lt n p hp

theorem points_of_ne_nil {opcodes : List (Fin 128 × ℚ)} (h : opcodes ≠ []) :
    ∃ n p, points opcodes n = some p := by
  induction opcodes using List.reverseRecOn with
  | nil => exact absurd rfl h
  | append_singleton opcodes o =>
      exact ⟨o.1, o.2, by rw [points_append, Function.update_self]⟩

/-- The curve of a region passes through its points just if one of them is not at 0, and one at 0
has the value 0. -/
theorem passesThrough_iff (buffers : List ℕ) (memory : ℕ → ℕ → ℚ) {buffer : ℕ}
    (hbuffer : buffer ∈ buffers) {opcodes : List (Fin 128 × ℚ)}
    (hmemory : memory buffer = setAll opcodes) (hopcodes : opcodes ≠ [])
    (hvalues : ∀ o ∈ opcodes, 0 ≤ o.2 ∧ o.2 ≤ 1) :
    PassesThrough (points opcodes) (buildAll buffers [] memory buffer) ↔
      (∃ n p, 0 < n ∧ points opcodes n = some p) ∧ ∀ p, points opcodes 0 = some p → p = 0 := by
  rw [buildAll_apply, if_pos ⟨hbuffer, List.not_mem_nil⟩, hmemory]
  exact (holds_setAll fun o ho => (hvalues o ho).1).passesThrough_buildCurve
    (points_of_ne_nil hopcodes)

/-- `amp_velcurve_64=0.25` -/
theorem passesThrough_single :
    PassesThrough (points [(64, 1 / 4)]) (buildAll [7, 7] [] (fun _ => setAll [(64, 1 / 4)]) 7) := by
  refine (passesThrough_iff [7, 7] _ List.mem_cons_self rfl (by simp) ?_).mpr ⟨⟨64, 1 / 4, ?_, ?_⟩, ?_⟩
  · norm_num
  · norm_num
  · rfl
  · intro p hp
    exact nomatch hp

/-- `amp_velcurve_0=0.5 amp_velcurve_127=1` -/
theorem not_passesThrough : ¬ ∀ (buffers : List ℕ) (memory : ℕ → ℕ → ℚ), ∀ buffer ∈ buffers,
    ∀ opcodes : List (Fin 128 × ℚ), memory buffer = setAll opcodes → opcodes ≠ [] →
      (∀ o ∈ opcodes, 0 ≤ o.2 ∧ o.2 ≤ 1) →
        PassesThrough (points opcodes) (buildAll buffers [] memory buffer) := by
  intro h
  have hpasses := h [0] (fun _ => setAll [(0, 1 / 2), (127, 1)]) 0 List.mem_cons_self _ rfl (by simp)
    (by norm_num)
  rw [buildAll_apply, if_pos ⟨List.mem_cons_self, List.not_mem_nil⟩,
    (holds_setAll (by norm_num)).passesThrough_buildCurve (points_of_ne_nil (by simp))] at hpasses
  have hzero := hpasses.2 (1 / 2) rfl
  norm_num at hzero

end VelocityCurve

end Sfz

end LinuxSampler
