import Mathlib.Logic.Basic

/-!
# Loops that need not end

A loop is a function that gives for a state either the next state or a
result. Its meaning is the relation between states and results: a state
has no result if the loop does not end (`Computes`).

Two loops that take the same steps until something is wrong compute the
same if and only if they do so from the first wrong state on
(`same_iff`).
-/

namespace LinuxSampler

namespace PartialLoop

variable {α β γ δ : Type}

/-- What a loop does in a state. -/
inductive Next (α β : Type) where
  | more (a : α)
  | done (b : β)

def Next.map (f : β → γ) : Next α β → Next α γ
  | more a => .more a
  | done b => .done (f b)

/-- The loop ends with a result. -/
inductive Ends (step : α → Next α β) : α → β → Prop
  | done {a : α} {b : β} (h : step a = .done b) : Ends step a b
  | more {a a' : α} {b : β} (h : step a = .more a') (hrest : Ends step a' b) : Ends step a b

/-- The loop ends, and `f` makes the value of its result. -/
def Computes (step : α → Next α β) (f : β → γ) (a : α) (c : γ) : Prop :=
  ∃ b, Ends step a b ∧ f b = c

/-- The loop with a bound for the number of steps. -/
def iterate (step : α → Next α β) : Nat → α → Option β
  | 0, _ => none
  | n + 1, a =>
      match step a with
      | .more a' => iterate step n a'
      | .done b => some b

section

variable {step : α → Next α β} {f : β → γ} {a a' : α} {b : β} {c : γ}

theorem ends_iff_of_done (h : step a = .done b) {b' : β} : Ends step a b' ↔ b' = b := by
  constructor
  · intro hends
    cases hends with
    | done h' =>
        rw [h] at h'
        cases h'
        rfl
    | more h' hrest =>
        rw [h] at h'
        cases h'
  · rintro rfl
    exact .done h

theorem ends_iff_of_more (h : step a = .more a') : Ends step a b ↔ Ends step a' b := by
  constructor
  · intro hends
    cases hends with
    | done h' =>
        rw [h] at h'
        cases h'
    | more h' hrest =>
        rw [h] at h'
        cases h'
        exact hrest
  · exact .more h

/-- A loop has at most one result. -/
theorem Ends.unique {b' : β} (h : Ends step a b) (h' : Ends step a b') : b = b' := by
  induction h with
  | done hstep => exact ((ends_iff_of_done hstep).mp h').symm
  | more hstep _ ih => exact ih ((ends_iff_of_more hstep).mp h')

theorem Ends.of_iterate {n : Nat} (h : iterate step n a = some b) : Ends step a b := by
  induction n generalizing a with
  | zero => cases h
  | succ n ih =>
      unfold iterate at h
      cases hstep : step a with
      | more a' =>
          rw [hstep] at h
          exact .more hstep (ih h)
      | done b' =>
          rw [hstep] at h
          exact .done (hstep.trans (congrArg _ (Option.some.inj h)))

theorem computes_iff_of_done (h : step a = .done b) : Computes step f a c ↔ f b = c := by
  constructor
  · rintro ⟨b', hends, hf⟩
    rw [← (ends_iff_of_done h).mp hends]
    exact hf
  · exact fun hf => ⟨b, .done h, hf⟩

theorem computes_iff_of_more (h : step a = .more a') :
    Computes step f a c ↔ Computes step f a' c :=
  exists_congr fun _ => and_congr_left fun _ => ends_iff_of_more h

theorem Computes.unique {c' : γ} (h : Computes step f a c) (h' : Computes step f a c') : c = c' := by
  obtain ⟨b, hb, rfl⟩ := h
  obtain ⟨b', hb', rfl⟩ := h'
  rw [hb.unique hb']

end

/-! ## Two loops -/

section

variable {stepA : α → Next α β} {stepB : α → Next α δ} {f : β → γ} {g : δ → γ} {a : α}

/-- The loops have results of the same value, if any. -/
def Same (stepA : α → Next α β) (f : β → γ) (stepB : α → Next α δ) (g : δ → γ) (a : α) : Prop :=
  ∀ c, Computes stepA f a c ↔ Computes stepB g a c

/-- The loop comes to a wrong state, and the first one has the property `P`. -/
inductive First (step : α → Next α β) (Wrong P : α → Prop) : α → Prop
  | here {a : α} (hwrong : Wrong a) (h : P a) : First step Wrong P a
  | more {a a' : α} (hright : ¬Wrong a) (h : step a = .more a')
      (hrest : First step Wrong P a') : First step Wrong P a

/-- A common step does not change whether the loops compute the same. -/
theorem same_iff_of_more {a' : α} (hA : stepA a = .more a') (hB : stepB a = .more a') :
    Same stepA f stepB g a ↔ Same stepA f stepB g a' :=
  forall_congr' fun _ => by rw [computes_iff_of_more hA, computes_iff_of_more hB]

/-- If one of the loops ends at once, the other one must end with the same value. -/
theorem same_iff_of_done {b : β} (hA : stepA a = .done b) :
    Same stepA f stepB g a ↔ Computes stepB g a (f b) := by
  constructor
  · exact fun hsame => (hsame _).mp ⟨b, .done hA, rfl⟩
  · intro hB c
    rw [computes_iff_of_done hA]
    constructor
    · rintro rfl
      exact hB
    · exact fun hB' => hB.unique hB'

theorem First.mono {step : α → Next α β} {Wrong P Q : α → Prop} (h : ∀ a, Wrong a → P a → Q a)
    (hfirst : First step Wrong P a) : First step Wrong Q a := by
  induction hfirst with
  | here hwrong hP => exact .here hwrong (h _ hwrong hP)
  | more hright hstep _ ih => exact .more hright hstep ih

theorem eq_more_of_map {a' : α} (h : (stepA a).map f = (stepB a).map g)
    (hB : stepB a = .more a') : stepA a = .more a' := by
  rw [hB] at h
  cases hA : stepA a with
  | more a'' =>
      rw [hA] at h
      cases h
      rfl
  | done b =>
      rw [hA] at h
      cases h

/-- Loops with the same steps in all states that are not wrong compute the same if and only
if the first wrong state, if there is one, makes no difference. -/
theorem same_iff {Wrong : α → Prop}
    (hstep : ∀ a, ¬Wrong a → (stepA a).map f = (stepB a).map g) :
    Same stepA f stepB g a ↔ ¬First stepB Wrong (fun a => ¬Same stepA f stepB g a) a := by
  constructor
  · intro hsame hfirst
    induction hfirst with
    | here _ hnot => exact hnot hsame
    | more hright hB _ ih =>
        exact ih ((same_iff_of_more (eq_more_of_map (hstep _ hright) hB) hB).mp hsame)
  · intro hnot c
    constructor
    · rintro ⟨b, hends, hc⟩
      induction hends with
      | @done a b hA =>
          by_cases hwrong : Wrong a
          · have hsame : Same stepA f stepB g a := not_not.mp fun h => hnot (.here hwrong h)
            exact (hsame c).mp ⟨b, .done hA, hc⟩
          · have heq := hstep a hwrong
            rw [hA] at heq
            cases hB : stepB a with
            | more a' =>
                rw [hB] at heq
                cases heq
            | done d =>
                rw [hB] at heq
                exact ⟨d, .done hB, (Next.done.inj heq).symm.trans hc⟩
      | @more a a' b hA hrest ih =>
          by_cases hwrong : Wrong a
          · have hsame : Same stepA f stepB g a := not_not.mp fun h => hnot (.here hwrong h)
            exact (hsame c).mp ⟨b, .more hA hrest, hc⟩
          · have hB := eq_more_of_map (hstep a hwrong).symm hA
            exact (computes_iff_of_more hB).mpr (ih (fun h => hnot (.more hwrong hB h)) hc)
    · rintro ⟨d, hends, hc⟩
      induction hends with
      | @done a d hB =>
          by_cases hwrong : Wrong a
          · have hsame : Same stepA f stepB g a := not_not.mp fun h => hnot (.here hwrong h)
            exact (hsame c).mpr ⟨d, .done hB, hc⟩
          · have heq := hstep a hwrong
            rw [hB] at heq
            cases hA : stepA a with
            | more a' =>
                rw [hA] at heq
                cases heq
            | done b =>
                rw [hA] at heq
                exact ⟨b, .done hA, (Next.done.inj heq).trans hc⟩
      | @more a a' d hB hrest ih =>
          by_cases hwrong : Wrong a
          · have hsame : Same stepA f stepB g a := not_not.mp fun h => hnot (.here hwrong h)
            exact (hsame c).mpr ⟨d, .more hB hrest, hc⟩
          · have hA := eq_more_of_map (hstep a hwrong) hB
            exact (computes_iff_of_more hA).mpr (ih (fun h => hnot (.more hwrong hB h)) hc)

end

end PartialLoop

end LinuxSampler
