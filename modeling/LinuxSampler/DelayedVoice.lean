import Mathlib.Algebra.BigOperators.Group.List.Basic
import Mathlib.Algebra.GroupWithZero.Nat
import Mathlib.Data.List.Nodup
import Mathlib.Data.List.Range

/-!
# Delayed voices

A voice with a signal unit rack is silent for as many sample points as the
endpoint unit of the rack says: `AbstractVoice::Synthesize()` of
`engines/common/AbstractVoice.cpp` and `VoiceBase::Render()` of
`engines/common/VoiceBase.h`, for a voice whose endpoint unit stays active.
Of what is rendered only the positions are kept.

In the fragment in which the delay ends, the delay is added to where the
voice begins and subtracted from where it stops, though the latter is a
position and not a length. Only if the voice has nothing to render in that
fragment there is no gap (`gapless_iff`).
-/

namespace LinuxSampler

namespace DelayedVoice

/-- `CONFIG_DEFAULT_SUBFRAGMENT_SIZE` -/
def subfragmentSize : Nat := 32

structure Voice where
  /-- `Delay`: the position in the first fragment at which the voice was triggered. -/
  delay : Nat
  /-- `uiDelayTrigger` of the endpoint unit. -/
  uiDelayTrigger : Nat

namespace Voice

def decreaseDelay (v : Voice) (samples : Nat) : Voice :=
  { v with uiDelayTrigger := v.uiDelayTrigger - samples }

/-- The loop over the subfragments, with the sample points they render. -/
def renderLoop (delay : Bool) (i samples : Nat) : List Nat :=
  if i < samples then
    let subFragmentEnd := min (i + subfragmentSize) samples
    (if delay then [] else List.range' i (subFragmentEnd - i)) ++
      renderLoop delay subFragmentEnd samples
  else []
termination_by samples - i
decreasing_by
  unfold subfragmentSize
  omega

def synthesize (v : Voice) (samples skip : Nat) : Voice × List Nat :=
  let delaySteps := v.uiDelayTrigger
  if delaySteps > 0 then
    if delaySteps ≥ samples then (v.decreaseDelay samples, renderLoop true skip samples)
    else
      (v.decreaseDelay delaySteps, renderLoop false (skip + delaySteps) (samples - delaySteps))
  else (v, renderLoop false skip samples)

def render (v : Voice) (samples : Nat) : Voice × List Nat :=
  let (v, points) := v.synthesize samples v.delay
  ({ v with delay := 0 }, points)

/-- What is rendered in fragments of the given sizes, in sample points from the beginning of the
first one. -/
def play (v : Voice) (start : Nat) : List Nat → List Nat
  | [] => []
  | samples :: sizes =>
      (v.render samples).2.map (start + ·) ++ (v.render samples).1.play (start + samples) sizes

end Voice

open Voice

/-! ## One fragment -/

theorem renderLoop_true (i samples : Nat) : renderLoop true i samples = [] := by
  induction i using renderLoop.induct samples with
  | case1 i h next ih =>
      unfold renderLoop
      rw [if_pos h]
      exact ih
  | case2 i h =>
      unfold renderLoop
      rw [if_neg h]

/-- The subfragments follow each other. -/
theorem renderLoop_false (i samples : Nat) :
    renderLoop false i samples = List.range' i (samples - i) := by
  induction i using renderLoop.induct samples with
  | case1 i h next ih =>
      unfold renderLoop
      rw [if_pos h]
      dsimp only
      rw [ih]
      have hle : i ≤ next ∧ next ≤ samples := by
        simp only [next, subfragmentSize]
        omega
      have hlength : samples - i = (next - i) + (samples - next) := by omega
      have hnext : i + (next - i) = next := by omega
      rw [hlength, ← List.range'_append_1, hnext]
      rfl
  | case2 i h =>
      unfold renderLoop
      rw [if_neg h, Nat.sub_eq_zero_of_le (Nat.le_of_not_lt h)]
      rfl

variable {delay steps start samples t : Nat} {sizes : List Nat}

theorem play_cons_of_le (h : samples ≤ steps) :
    play ⟨delay, steps⟩ start (samples :: sizes) =
      play ⟨0, steps - samples⟩ (start + samples) sizes := by
  have hrender : render ⟨delay, steps⟩ samples = (⟨0, steps - samples⟩, []) := by
    unfold render synthesize
    dsimp only
    by_cases hpos : steps > 0
    · rw [if_pos hpos, if_pos h, renderLoop_true]
      rfl
    · obtain rfl : steps = 0 := by omega
      obtain rfl : samples = 0 := by omega
      rw [if_neg hpos, renderLoop_false, Nat.zero_sub]
      rfl
  rw [play, hrender]
  rfl

/-- Without a delay everything is rendered. -/
theorem play_zero : play ⟨0, 0⟩ start sizes = List.range' start sizes.sum := by
  induction sizes generalizing start with
  | nil => rfl
  | cons samples sizes ih =>
      have hrender : render ⟨0, 0⟩ samples = (⟨0, 0⟩, List.range' 0 samples) := by
        unfold render synthesize
        dsimp only
        rw [if_neg (Nat.lt_irrefl 0), renderLoop_false]
        rfl
      rw [play, hrender, ih, List.sum_cons, ← List.range'_append_1, List.map_add_range']
      rfl

/-- In the fragment in which the delay ends, its end is cut off as well. -/
theorem play_cons_of_lt (h : steps < samples) :
    play ⟨delay, steps⟩ start (samples :: sizes) =
      (List.range' (start + (delay + steps)) (samples - steps - (delay + steps))) ++
        List.range' (start + samples) sizes.sum := by
  have hrender : render ⟨delay, steps⟩ samples =
      (⟨0, 0⟩, List.range' (delay + steps) (samples - steps - (delay + steps))) := by
    unfold render synthesize
    dsimp only
    by_cases hpos : steps > 0
    · rw [if_pos hpos, if_neg (Nat.not_le_of_lt h), renderLoop_false]
      unfold decreaseDelay
      rw [Nat.sub_self]
    · obtain rfl : steps = 0 := by omega
      rw [if_neg hpos, renderLoop_false]
      rfl
  rw [play, hrender, play_zero, List.map_add_range']

theorem le_of_mem_play {v : Voice} (h : t ∈ play v start sizes) : start ≤ t := by
  induction sizes generalizing start v with
  | nil => exact absurd h List.not_mem_nil
  | cons samples sizes ih =>
      rw [play] at h
      rcases List.mem_append.mp h with h | h
      · obtain ⟨point, -, rfl⟩ := List.mem_map.mp h
        exact Nat.le_add_right _ _
      · exact (Nat.le_add_right _ _).trans (ih h)

theorem count_range' (first length : Nat) :
    (List.range' first length).count t = if first ≤ t ∧ t < first + length then 1 else 0 := by
  rw [(List.nodup_range' 1).count]
  exact if_congr List.mem_range'_1 rfl rfl

/-! ## A run -/

/-- Nothing is rendered earlier than the delay after the trigger position, and everything from
there on once. -/
def Gapless (trigger steps : Nat) (sizes : List Nat) : Prop :=
  ∀ t < sizes.sum,
    (play ⟨trigger, steps⟩ 0 sizes).count t = if t < trigger + steps then 0 else 1

/-- The delay ends with `steps` left in a fragment of `samples` points, before `rest` more points
are played. -/
def EndsWell (trigger steps samples rest : Nat) (first : Prop) : Prop :=
  steps = 0 ∧ (first ∨ trigger = 0) ∨
    samples ≤ trigger + steps ∧ (trigger + steps = samples ∨ rest = 0) ∧
      (first ∨ samples ≤ 2 * steps)

theorem count_play_of_lt (h : steps < samples) :
    (play ⟨delay, steps⟩ start (samples :: sizes)).count (start + t) =
      (if delay + steps ≤ t ∧ t + steps < samples then 1 else 0) +
        if samples ≤ t ∧ t < samples + sizes.sum then 1 else 0 := by
  rw [play_cons_of_lt h, List.count_append, count_range', count_range']
  refine congrArg₂ (· + ·) (if_congr ?_ rfl rfl) (if_congr ?_ rfl rfl)
  · omega
  · omega

/-- The fragment in which the delay ends. -/
theorem endsWell_iff {trigger : Nat} {first : Prop} (hsteps : steps < samples)
    (hdelay : first ∧ delay = trigger ∧ trigger < samples ∨ ¬first ∧ delay = 0) :
    (∀ t < (samples :: sizes).sum, (play ⟨delay, steps⟩ start (samples :: sizes)).count (start + t) =
      if t < trigger + steps then 0 else 1) ↔
        EndsWell trigger steps samples sizes.sum first := by
  rw [List.sum_cons]
  constructor
  · intro h
    have hat : ∀ t < samples + sizes.sum,
        (if delay + steps ≤ t ∧ t + steps < samples then 1 else 0) +
          (if samples ≤ t ∧ t < samples + sizes.sum then 1 else 0) =
            if t < trigger + steps then 0 else 1 :=
      fun t ht => (count_play_of_lt hsteps).symm.trans (h t ht)
    by_cases hzero : steps = 0
    · refine .inl ⟨hzero, hdelay.imp And.left ?_⟩
      rintro ⟨-, rfl⟩
      -- the first point of the fragment is rendered
      have hfirst := hat 0 (by omega)
      split_ifs at hfirst
      all_goals omega
    · -- the last point of the fragment is not rendered, the one behind it is
      have hlast := hat (samples - 1) (by omega)
      have hlate : samples ≤ trigger + steps := by
        split_ifs at hlast
        all_goals omega
      refine .inr ⟨hlate, ?_, hdelay.imp And.left ?_⟩
      · by_cases hrest : sizes.sum = 0
        · exact .inr hrest
        · have hnext := hat samples (by omega)
          refine .inl ?_
          split_ifs at hnext
          all_goals omega
      · rintro ⟨-, rfl⟩
        have hbegin := hat steps (by omega)
        split_ifs at hbegin
        all_goals omega
  · intro h t ht
    rw [count_play_of_lt hsteps]
    rcases h with ⟨rfl, hzero⟩ | ⟨hlate, hend, hhalf⟩
    · have hsame : delay = trigger := by
        rcases hdelay with hd | hd
        · exact hd.2.1
        · exact hd.2.trans (hzero.resolve_left hd.1).symm
      split_ifs
      all_goals omega
    · have hnone : ¬(delay + steps ≤ t ∧ t + steps < samples) := by
        rcases hdelay with hd | hd
        · omega
        · have := hhalf.resolve_left hd.1
          omega
      rw [if_neg hnone]
      split_ifs
      all_goals omega

theorem endsWell_congr {trigger rest : Nat} {first first' : Prop} (h : first ↔ first') :
    EndsWell trigger steps samples rest first ↔ EndsWell trigger steps samples rest first' := by
  unfold EndsWell
  rw [h]

/-- A fragment that is shorter than the delay is silent. -/
theorem gapless_cons {trigger n : Nat} (hle : n ≤ steps) :
    (∀ t < (n :: sizes).sum, (play ⟨delay, steps⟩ start (n :: sizes)).count (start + t) =
      if t < trigger + steps then 0 else 1) ↔
    ∀ t < sizes.sum, (play ⟨0, steps - n⟩ (start + n) sizes).count (start + n + t) =
      if t < trigger + (steps - n) then 0 else 1 := by
  rw [play_cons_of_le hle, List.sum_cons]
  constructor
  · intro h t ht
    have hnext := h (n + t) (by omega)
    rw [← Nat.add_assoc] at hnext
    rw [hnext]
    exact if_congr (by omega) rfl rfl
  · intro h t ht
    by_cases htn : t < n
    · rw [if_pos (by omega)]
      refine List.count_eq_zero.mpr fun hmem => ?_
      have := le_of_mem_play hmem
      omega
    · obtain ⟨t, rfl⟩ := Nat.exists_eq_add_of_le (Nat.le_of_not_lt htn)
      rw [← Nat.add_assoc, h t (by omega)]
      exact if_congr (by omega) rfl rfl

/-- The delay ends in some fragment, or in none. -/
theorem gapless_aux {trigger : Nat} {first : Prop} (start : Nat)
    (hdelay : first ∧ delay = trigger ∧ (∀ samples ∈ sizes.head?, trigger < samples) ∨
      ¬first ∧ delay = 0) :
    (∀ t < sizes.sum, (play ⟨delay, steps⟩ start sizes).count (start + t) =
      if t < trigger + steps then 0 else 1) ↔
        ∀ before samples after, sizes = before ++ samples :: after → before.sum ≤ steps →
          steps < before.sum + samples →
            EndsWell trigger (steps - before.sum) samples after.sum (first ∧ before = []) := by
  induction sizes generalizing steps start delay first with
  | nil => simp
  | cons n sizes ih =>
      by_cases hlt : steps < n
      · rw [endsWell_iff hlt (hdelay.imp_left fun hd => ⟨hd.1, hd.2.1, hd.2.2 n rfl⟩)]
        constructor
        · intro h before samples after heq hbefore _
          cases before with
          | nil =>
              cases heq
              exact (endsWell_congr (by simp)).mp h
          | cons m before =>
              rw [List.cons_append] at heq
              rw [List.sum_cons, ← (List.cons.inj heq).1] at hbefore
              omega
        · intro h
          refine (endsWell_congr (by simp)).mp (h [] n sizes rfl (Nat.zero_le _) ?_)
          rwa [List.sum_nil, Nat.zero_add]
      · have hle := Nat.le_of_not_lt hlt
        rw [gapless_cons hle, ih _ (.inr ⟨not_false, rfl⟩)]
        constructor
        · intro h before samples after heq hbefore hafter
          cases before with
          | nil =>
              cases heq
              rw [List.sum_nil, Nat.zero_add] at hafter
              omega
          | cons m before =>
              rw [List.cons_append] at heq
              cases heq
              rw [List.sum_cons] at hbefore hafter
              have hnext := h before samples after rfl (by omega) (by omega)
              rw [List.sum_cons, ← Nat.sub_sub]
              exact (endsWell_congr (by simp)).mp hnext
        · intro h before samples after heq hbefore hafter
          have hnext := h (n :: before) samples after (by rw [heq]; rfl)
            (by rw [List.sum_cons]; omega) (by rw [List.sum_cons]; omega)
          rw [List.sum_cons, ← Nat.sub_sub] at hnext
          exact (endsWell_congr (by simp)).mp hnext

/-- A voice that is triggered in the first fragment plays without gaps if and only if the delay
ends well, should it end. -/
theorem gapless_iff (n : Nat) (rest : List Nat) (trigger : Fin n) (steps : Nat) :
    Gapless trigger steps (n :: rest) ↔
      ∀ before samples after, n :: rest = before ++ samples :: after → before.sum ≤ steps →
        steps < before.sum + samples →
          EndsWell trigger (steps - before.sum) samples after.sum (before = []) := by
  have hhead : ∀ samples ∈ (n :: rest).head?, trigger.val < samples := by
    rintro samples ⟨rfl⟩
    exact trigger.isLt
  have haux : (∀ t < (n :: rest).sum, (play ⟨trigger, steps⟩ 0 (n :: rest)).count (0 + t) =
      if t < trigger + steps then 0 else 1) ↔ _ := gapless_aux 0 (.inl ⟨trivial, rfl, hhead⟩)
  simp only [true_and, Nat.zero_add] at haux
  exact haux

/-- The last point of the first fragment is missing. -/
theorem not_gapless : ¬ ∀ (n : Nat) (rest : List Nat) (trigger : Fin n) (steps : Nat),
    Gapless trigger steps (n :: rest) := by
  intro h
  have hlast := h 64 [] 0 1 63 (by decide)
  have hcount : (play ⟨0, 1⟩ 0 [64]).count (0 + 63) = 0 := count_play_of_lt (by decide)
  exact absurd (hcount.symm.trans hlast) (by decide)

end DelayedVoice

end LinuxSampler
