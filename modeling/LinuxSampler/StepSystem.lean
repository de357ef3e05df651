import Mathlib.Data.List.Basic

/-!
# Step systems

A system that takes one step after another, and its runs. `ok` marks the steps
a run is restricted to.
-/

namespace LinuxSampler

/-- `enabled` says which actions the system can take in a state. -/
structure StepSystem (σ α : Type*) where
  init : σ
  enabled : σ → α → Prop
  step : σ → α → σ

namespace StepSystem

variable {σ α : Type*} {S : StepSystem σ α} {ok ok' : σ → α → Prop} {s : σ} {as bs : List α}

/-- The state after some actions. -/
def exec (S : StepSystem σ α) (s : σ) (as : List α) : σ := as.foldl S.step s

theorem exec_append : S.exec s (as ++ bs) = S.exec (S.exec s as) bs := List.foldl_append

/-- The actions are a run from `s`: each one is enabled and passes `ok` in the
state it is taken in. -/
def RunFrom (S : StepSystem σ α) (ok : σ → α → Prop) : σ → List α → Prop
  | _, [] => True
  | s, a :: as => S.enabled s a ∧ ok s a ∧ RunFrom S ok (S.step s a) as

instance decidableRunFrom [∀ s a, Decidable (S.enabled s a)] [∀ s a, Decidable (ok s a)] :
    ∀ (s : σ) (as : List α), Decidable (S.RunFrom ok s as)
  | _, [] => .isTrue trivial
  | s, a :: as =>
      have : Decidable (S.RunFrom ok (S.step s a) as) := decidableRunFrom _ as
      inferInstanceAs (Decidable (_ ∧ _ ∧ _))

/-- What one step preserves holds at the end of a run. -/
theorem RunFrom.invariant {I : σ → Prop}
    (hstep : ∀ s a, I s → S.enabled s a → ok s a → I (S.step s a)) (hs : I s)
    (hrun : S.RunFrom ok s as) : I (S.exec s as) := by
  induction as generalizing s with
  | nil => exact hs
  | cons a as ih =>
    obtain ⟨henabled, hok, hrest⟩ := hrun
    exact ih (hstep s a hs henabled hok) hrest

/-- Steps that make a measure smaller are no more than it. -/
theorem RunFrom.length_le {I : σ → Prop} {m : σ → ℕ}
    (hstep : ∀ s a, I s → S.enabled s a → ok s a → I (S.step s a) ∧ m (S.step s a) < m s) (hs : I s)
    (hrun : S.RunFrom ok s as) : as.length ≤ m s := by
  induction as generalizing s with
  | nil => exact Nat.zero_le _
  | cons a as ih =>
    obtain ⟨henabled, hok, hrest⟩ := hrun
    obtain ⟨hs', hlt⟩ := hstep s a hs henabled hok
    exact Nat.lt_of_le_of_lt (ih hs' hrest) hlt

theorem RunFrom.of_append (h : S.RunFrom ok s (as ++ bs)) :
    S.RunFrom ok s as ∧ S.RunFrom ok (S.exec s as) bs := by
  induction as generalizing s with
  | nil => exact ⟨trivial, h⟩
  | cons a as ih =>
    obtain ⟨henabled, hok, hrest⟩ := h
    exact ⟨⟨henabled, hok, (ih hrest).1⟩, (ih hrest).2⟩

/-- The invariant holds before each step of a run. -/
theorem RunFrom.invariant_before {I : σ → Prop}
    (hstep : ∀ s a, I s → S.enabled s a → ok s a → I (S.step s a)) (hs : I s) {a : α}
    (hrun : S.RunFrom ok s (as ++ a :: bs)) :
    I (S.exec s as) ∧ S.enabled (S.exec s as) a ∧ ok (S.exec s as) a := by
  obtain ⟨hbefore, henabled, hok, -⟩ := RunFrom.of_append hrun
  exact ⟨hbefore.invariant hstep hs, henabled, hok⟩

end StepSystem

/-! ## Steps that may fail -/

section StepsOk

variable {σ α : Type*} {step : σ → α → Option σ} {ok : σ → α → Prop} {I : σ → Prop} {s s' : σ}
  {as : List α}

/-- Each step of a run passes `ok`, as far as the run comes. -/
def StepsOk (step : σ → α → Option σ) (ok : σ → α → Prop) : List α → σ → Prop
  | [], _ => True
  | a :: as, s => ok s a ∧ ∀ s' ∈ step s a, StepsOk step ok as s'

instance decidableStepsOk [∀ s a, Decidable (ok s a)] :
    ∀ (as : List α) (s : σ), Decidable (StepsOk step ok as s)
  | [], _ => .isTrue trivial
  | _ :: as, _ =>
      have (s' : σ) : Decidable (StepsOk step ok as s') := decidableStepsOk as s'
      inferInstanceAs (Decidable (_ ∧ _))

end StepsOk

end LinuxSampler
