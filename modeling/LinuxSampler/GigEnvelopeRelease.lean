import LinuxSampler.GigEnvelope
import Mathlib.Data.Rat.Floor

/-!
# Releases of the gig envelope

Either a release stage has been entered, or the release is postponed
(`Releasing`): every update keeps that, except one that takes the release
back. A release gets there from all states that are reachable if the flags
agree (`KeepsRelease`), and for all other flags there is a run that goes
on to the sustain stage after it.
-/

namespace LinuxSampler

namespace Gig

open FloatArith

namespace EGADSR

variable {F : Type} [FloatArith F]

/-! ## What entering a stage keeps -/

/-- What decides about the next stage has not changed, but for the stage. -/
structure Entered (e : EGADSR F) (options : StateOptions) (hold sustain : Bool)
    (egStage : EgStage) (stages : List Stage) : Prop where
  options : e.options = options
  holdAttack : e.holdAttack = hold
  infiniteSustain : e.infiniteSustain = sustain
  egStage : e.stage = .sustain → e.egStage = egStage
  stage : e.stage ∈ stages

/-- The stages after the attack. -/
def afterAttack (sustain : Bool) : List Stage :=
  [.decay1Part1, .decay1Part2, .releasePart1, .releasePart2, if sustain then .sustain else .decay2]

section

variable {options : StateOptions} {hold sustain : Bool} {egStage : EgStage}
  {stages stages' : List Stage}

omit [FloatArith F] in
theorem Entered.mono {e : EGADSR F} (h : Entered e options hold sustain egStage stages)
    (hsub : ∀ s ∈ stages, s ∈ stages') : Entered e options hold sustain egStage stages' :=
  ⟨h.options, h.holdAttack, h.infiniteSustain, h.egStage, hsub _ h.stage⟩

theorem mem_afterAttack_release {s : Stage} (h : s ∈ [Stage.releasePart1, .releasePart2]) :
    s ∈ afterAttack sustain := by
  rw [List.mem_cons, List.mem_singleton] at h
  rcases h with rfl | rfl
  · simp [afterAttack]
  · simp [afterAttack]

variable (e : EGADSR F) (sampleRate : Nat)

theorem entered_enterFadeOutStage (h : e.stage ≠ .sustain) :
    Entered e.enterFadeOutStage e.options e.holdAttack e.infiniteSustain e.egStage [e.stage] := by
  unfold enterFadeOutStage
  dsimp only
  split_ifs
  · exact ⟨rfl, rfl, rfl, fun hs => absurd hs h, List.mem_cons_self⟩
  · exact ⟨rfl, rfl, rfl, fun hs => absurd hs h, List.mem_cons_self⟩

theorem entered_enterReleasePart2Stage :
    Entered e.enterReleasePart2Stage e.options e.holdAttack e.infiniteSustain e.egStage
      [.releasePart2] := by
  unfold enterReleasePart2Stage
  dsimp only
  split_ifs
  · exact entered_enterFadeOutStage _ (fun hs => nomatch hs)
  · exact ⟨rfl, rfl, rfl, fun hs => (nomatch hs), List.mem_cons_self⟩

theorem entered_enterReleasePart1Stage :
    Entered e.enterReleasePart1Stage e.options e.holdAttack e.infiniteSustain e.egStage
      [.releasePart1, .releasePart2] := by
  unfold enterReleasePart1Stage
  dsimp only
  split_ifs
  · exact (entered_enterReleasePart2Stage _).mono fun s hs => List.mem_cons_of_mem _ hs
  · exact ⟨rfl, rfl, rfl, fun hs => (nomatch hs), List.mem_cons_self⟩

theorem entered_enterDecay2Stage :
    Entered (e.enterDecay2Stage sampleRate) e.options e.holdAttack e.infiniteSustain e.egStage
      [.decay2] := by
  unfold enterDecay2Stage
  dsimp only
  split_ifs
  · exact ⟨rfl, rfl, rfl, fun hs => (nomatch hs), List.mem_cons_self⟩
  · exact ⟨rfl, rfl, rfl, fun hs => (nomatch hs), List.mem_cons_self⟩

/-- The two stages in which no release is waited for come after the decay 1 stage. -/
theorem entered_sustain_or_decay2 :
    Entered (if e.infiniteSustain then e.enterSustainStage else e.enterDecay2Stage sampleRate)
      e.options e.holdAttack e.infiniteSustain e.egStage (afterAttack e.infiniteSustain) := by
  by_cases hs : e.infiniteSustain = true
  · rw [if_pos hs]
    exact ⟨rfl, rfl, rfl, fun _ => rfl, by simp [afterAttack, enterSustainStage, hs]⟩
  · rw [if_neg hs]
    refine (entered_enterDecay2Stage e sampleRate).mono fun s h => ?_
    rw [List.mem_singleton.mp h]
    simp [afterAttack, hs]

theorem entered_enterNextStageFromDecay1 :
    Entered (e.enterNextStageFromDecay1 sampleRate) e.options e.holdAttack e.infiniteSustain e.egStage
      (afterAttack e.infiniteSustain) := by
  have hrelease : Entered e.enterReleasePart1Stage e.options e.holdAttack e.infiniteSustain
      e.egStage (afterAttack e.infiniteSustain) :=
    (entered_enterReleasePart1Stage e).mono fun _ hs => mem_afterAttack_release hs
  unfold enterNextStageFromDecay1
  split_ifs with hs hcancel
  · exact hrelease
  · exact hrelease
  · have hdecay := entered_sustain_or_decay2 e sampleRate
    rwa [if_neg hs] at hdecay

theorem entered_leaveDecay1 :
    Entered (e.leaveDecay1 sampleRate) e.options e.holdAttack e.infiniteSustain e.egStage
      (afterAttack e.infiniteSustain) := by
  unfold leaveDecay1
  by_cases hpostponed : e.postponedEvent = some .release
  · rw [if_pos hpostponed]
    exact entered_enterNextStageFromDecay1 _ _
  · rw [if_neg hpostponed]
    exact entered_sustain_or_decay2 e sampleRate

theorem entered_enterDecay1Part2Stage :
    Entered (e.enterDecay1Part2Stage sampleRate) e.options e.holdAttack e.infiniteSustain e.egStage
      (afterAttack e.infiniteSustain) := by
  unfold enterDecay1Part2Stage
  dsimp only
  split_ifs
  · exact ⟨rfl, rfl, rfl, fun hs => (nomatch hs), List.mem_cons_of_mem _ List.mem_cons_self⟩
  · exact entered_leaveDecay1 _ _
  · exact entered_leaveDecay1 _ _

theorem entered_enterDecay1Part1Stage :
    Entered (e.enterDecay1Part1Stage sampleRate) e.options e.holdAttack e.infiniteSustain e.egStage
      (afterAttack e.infiniteSustain) := by
  unfold enterDecay1Part1Stage
  dsimp only
  split_ifs
  · exact entered_enterDecay1Part2Stage _ _
  · exact ⟨rfl, rfl, rfl, fun hs => (nomatch hs), List.mem_cons_self⟩
  · exact entered_leaveDecay1 _ _

theorem entered_enterNextStageFromAttackHold :
    Entered (e.enterNextStageFromAttackHold sampleRate) e.options e.holdAttack e.infiniteSustain
      e.egStage
      (afterAttack e.infiniteSustain) := by
  unfold enterNextStageFromAttackHold
  split_ifs
  · exact entered_enterNextStageFromDecay1 e sampleRate
  · exact entered_enterDecay1Part1Stage e sampleRate

end

/-! ## Before the release -/

/-- What holds from `trigger()` on. -/
structure Configured (options : StateOptions) (hold sustain : Bool) (e : EGADSR F) : Prop where
  options : e.options = options
  infiniteSustain : e.infiniteSustain = sustain
  holdAttack : e.holdAttack = true → hold = true
  stage : e.stage = .attack ∨ (hold = true ∧ e.stage = .attackHold) ∨ e.stage ∈ afterAttack sustain
  egStage : e.stage = .sustain → e.egStage = .main

namespace Configured

variable {options : StateOptions} {hold sustain : Bool} {e e' : EGADSR F} {sampleRate : Nat}

section

variable (h : Configured options hold sustain e) (hmain : e.egStage = .main)

include h

omit [FloatArith F] in
/-- Something that does not matter has changed. -/
theorem congr (hoptions : e'.options = e.options) (hsustain : e'.infiniteSustain = e.infiniteSustain)
    (hhold : e'.holdAttack = true → e.holdAttack = true) (hstage : e'.stage = e.stage)
    (hbase : e.stage = .sustain → e'.egStage = e.egStage) : Configured options hold sustain e' where
  options := hoptions.trans h.options
  infiniteSustain := hsustain.trans h.infiniteSustain
  holdAttack hhold' := h.holdAttack (hhold hhold')
  stage := hstage ▸ h.stage
  egStage hs := (hbase (hstage ▸ hs)).trans (h.egStage (hstage ▸ hs))

include hmain

omit [FloatArith F] in
theorem entered (hE : Entered e' e.options e.holdAttack e.infiniteSustain e.egStage
    (afterAttack e.infiniteSustain)) : Configured options hold sustain e' where
  options := hE.options.trans h.options
  infiniteSustain := hE.infiniteSustain.trans h.infiniteSustain
  holdAttack hhold := h.holdAttack (hE.holdAttack ▸ hhold)
  stage := .inr (.inr (h.infiniteSustain ▸ hE.stage))
  egStage hs := (hE.egStage hs).trans hmain

theorem enterAttackHoldStage (hhold : e.holdAttack = true) :
    Configured options hold sustain e.enterAttackHoldStage :=
  ⟨h.options, h.infiniteSustain, h.holdAttack, .inr (.inl ⟨h.holdAttack hhold, rfl⟩), fun _ => hmain⟩

theorem enterReleasePart1Stage : Configured options hold sustain e.enterReleasePart1Stage :=
  h.entered hmain ((entered_enterReleasePart1Stage e).mono fun _ hs => mem_afterAttack_release hs)

theorem enterNextStageForReleaseEvent :
    Configured options hold sustain (e.enterNextStageForReleaseEvent sampleRate) := by
  unfold EGADSR.enterNextStageForReleaseEvent
  split
  · split_ifs with hif
    · exact h.enterAttackHoldStage hmain hif.1
    · exact h.entered hmain (entered_enterNextStageFromAttackHold e sampleRate)
  · exact h.entered hmain (entered_enterNextStageFromAttackHold e sampleRate)
  · exact h.entered hmain (entered_enterNextStageFromDecay1 e sampleRate)
  · exact h.entered hmain (entered_enterNextStageFromDecay1 e sampleRate)
  all_goals exact h.enterReleasePart1Stage hmain

theorem releaseIf (cancel : Bool) :
    Configured options hold sustain (e.releaseIf cancel sampleRate) := by
  unfold EGADSR.releaseIf
  split_ifs
  · exact h.enterNextStageForReleaseEvent hmain
  · exact h.congr rfl rfl id rfl fun _ => rfl

theorem cancelRelease : Configured options hold sustain (e.cancelRelease sampleRate) := by
  have hnext := h.entered hmain (entered_sustain_or_decay2 e sampleRate)
  unfold EGADSR.cancelRelease
  by_cases hcancel : e.options.releaseCancel = true
  · rw [if_neg (not_not.mpr hcancel)]
    exact hnext
  · rw [if_pos hcancel]
    exact h

omit hmain in
theorem enterFadeOutStage (hs : e.stage ≠ .sustain) :
    Configured options hold sustain e.enterFadeOutStage := by
  have hE := entered_enterFadeOutStage e hs
  refine h.congr hE.options hE.infiniteSustain (fun hhold => hE.holdAttack ▸ hhold)
    (List.mem_singleton.mp hE.stage) fun hs' => absurd hs' hs

theorem updateStage (event : EgEvent) :
    Configured options hold sustain (e.updateStage event sampleRate) := by
  have hdecay := h.entered hmain (entered_enterDecay1Part1Stage e sampleRate)
  have hnext := h.entered hmain (entered_sustain_or_decay2 e sampleRate)
  have hrefresh : Configured options hold sustain { e with stepsLeft := intMax } :=
    h.congr rfl rfl id rfl fun _ => rfl
  unfold EGADSR.updateStage
  split
  · exact h.releaseIf hmain _
  · split_ifs with hpostponed hhold
    · exact h.enterNextStageForReleaseEvent hmain
    · exact h.enterAttackHoldStage hmain hhold
    · exact hdecay
  · exact hrefresh
  · split_ifs
    · exact h.enterNextStageForReleaseEvent hmain
    · exact hdecay
  · exact h.releaseIf hmain _
  · exact h.entered hmain (entered_enterDecay1Part2Stage e sampleRate)
  · exact h.releaseIf hmain _
  · exact h.releaseIf hmain _
  next hstage =>
    by_cases hlevel : lt e.level egBottom = true
    · rw [if_pos hlevel]
      exact h.congr rfl rfl id rfl fun hs => nomatch hstage.symm.trans hs
    · rw [if_neg hlevel]
      by_cases hpostponed : e.postponedEvent = some .release
      · rw [if_pos hpostponed]
        exact h.enterNextStageForReleaseEvent hmain
      · rw [if_neg hpostponed]
        exact hnext
  next hstage => exact h.enterFadeOutStage fun hs => nomatch hstage.symm.trans hs
  · split_ifs
    · exact h.enterReleasePart1Stage hmain
    · exact h.congr rfl rfl id rfl fun _ => rfl
  · split_ifs
    · exact h.enterReleasePart1Stage hmain
    · exact hdecay
  · exact hrefresh
  · exact h.enterReleasePart1Stage hmain
  · exact hdecay
  · exact h.entered hmain ((entered_enterReleasePart2Stage e).mono fun _ hs =>
      mem_afterAttack_release (List.mem_cons_of_mem _ hs))
  · exact h.cancelRelease hmain
  next hstage => exact h.enterFadeOutStage fun hs => nomatch hstage.symm.trans hs
  · exact h.cancelRelease hmain
  · exact h

end

theorem step (h : Configured options hold sustain e) (input : Input F) :
    Configured options hold sustain (e.step input) := by
  cases input with
  | render level stepsLeft => exact h.congr rfl rfl id rfl fun _ => rfl
  | update event rate =>
      show Configured options hold sustain (e.update event rate)
      unfold EGADSR.update updateAtEnd
      by_cases hmain : e.egStage = .main
      · rw [if_neg (not_not.mpr hmain)]
        have hnow : Configured options hold sustain
            { e with holdAttack := if event = EgEvent.holdEnd then false else e.holdAttack } := by
          refine h.congr rfl rfl (fun hhold => ?_) rfl fun _ => rfl
          dsimp only at hhold
          split_ifs at hhold
          exact hhold
        exact hnow.updateStage hmain event
      · rw [if_pos hmain]
        split_ifs
        · exact h.congr rfl rfl id rfl fun hs => absurd (h.egStage hs) hmain
        · exact h

theorem run (h : Configured options hold sustain e) (inputs : List (Input F)) :
    Configured options hold sustain (e.run inputs) := by
  induction inputs generalizing e with
  | nil => exact h
  | cons input inputs ih => exact ih (h.step input)

theorem trigger (t : Trigger F) (e : EGADSR F) :
    Configured options t.holdAttack t.infiniteSustain ((e.setStateOptions options).trigger t) := by
  unfold EGADSR.trigger setStateOptions enterAttackStage
  dsimp only
  by_cases hle : le 1e-8 t.attackTime = true
  · rw [if_pos hle]
    exact ⟨rfl, rfl, id, .inl rfl, fun _ => rfl⟩
  · rw [if_neg hle]
    by_cases hhold : t.holdAttack = true
    · rw [if_pos hhold]
      exact ⟨rfl, rfl, id, .inr (.inl ⟨hhold, rfl⟩), fun _ => rfl⟩
    · rw [if_neg hhold]
      refine Configured.entered ?_ rfl (entered_enterDecay1Part1Stage _ _)
      exact ⟨rfl, rfl, id, .inl rfl, fun _ => rfl⟩

end Configured

/-! ## After the release -/

/-- A release is under way. -/
structure Releasing (e : EGADSR F) : Prop where
  infiniteSustain : e.infiniteSustain = true
  stage : e.stage ∈ [Stage.releasePart1, .releasePart2] ∨
    e.stage ∉ [Stage.sustain, .decay2] ∧ (e.egStage = .main → e.postponedEvent = some .release)

namespace Releasing

variable {e e' : EGADSR F} {sampleRate : Nat}

omit [FloatArith F] in
theorem entered (h : e.infiniteSustain = true) (hE : Entered e' e.options e.holdAttack
    e.infiniteSustain e.egStage [.releasePart1, .releasePart2]) : Releasing e' :=
  ⟨hE.infiniteSustain.trans h, .inl hE.stage⟩

section

variable (h : e.infiniteSustain = true)

include h

theorem enterReleasePart1Stage : Releasing e.enterReleasePart1Stage :=
  entered h (entered_enterReleasePart1Stage e)

theorem enterNextStageFromDecay1 : Releasing (e.enterNextStageFromDecay1 sampleRate) := by
  unfold EGADSR.enterNextStageFromDecay1
  rw [if_pos h]
  exact enterReleasePart1Stage h

variable (hpostponed : e.postponedEvent = some .release)

include hpostponed

/-- A postponed release is remembered when the decay 1 stage ends. -/
theorem leaveDecay1 : Releasing (e.leaveDecay1 sampleRate) := by
  unfold EGADSR.leaveDecay1
  rw [if_pos hpostponed]
  exact enterNextStageFromDecay1 h

theorem enterDecay1Part2Stage : Releasing (e.enterDecay1Part2Stage sampleRate) := by
  unfold EGADSR.enterDecay1Part2Stage
  dsimp only
  split_ifs
  · exact ⟨h, .inr ⟨by simp, fun _ => hpostponed⟩⟩
  · exact leaveDecay1 h hpostponed
  · exact leaveDecay1 h hpostponed

theorem enterDecay1Part1Stage : Releasing (e.enterDecay1Part1Stage sampleRate) := by
  unfold EGADSR.enterDecay1Part1Stage
  dsimp only
  split_ifs
  · exact enterDecay1Part2Stage h hpostponed
  · exact ⟨h, .inr ⟨by simp, fun _ => hpostponed⟩⟩
  · exact leaveDecay1 h hpostponed

theorem enterNextStageFromAttackHold : Releasing (e.enterNextStageFromAttackHold sampleRate) := by
  unfold EGADSR.enterNextStageFromAttackHold
  split_ifs
  · exact enterNextStageFromDecay1 h
  · exact enterDecay1Part1Stage h hpostponed

theorem enterNextStageForReleaseEvent :
    Releasing (e.enterNextStageForReleaseEvent sampleRate) := by
  unfold EGADSR.enterNextStageForReleaseEvent
  split
  · split_ifs
    · exact ⟨h, .inr ⟨by simp [enterAttackHoldStage], fun _ => hpostponed⟩⟩
    · exact enterNextStageFromAttackHold h hpostponed
  · exact enterNextStageFromAttackHold h hpostponed
  · exact enterNextStageFromDecay1 h
  · exact enterNextStageFromDecay1 h
  all_goals exact enterReleasePart1Stage h

end

/-- Once more a release. -/
theorem releaseIf (h : e.infiniteSustain = true) (hstage : e.stage ∉ [Stage.sustain, .decay2])
    (hpostponed : e.postponedEvent = some .release) (cancel : Bool) :
    Releasing (e.releaseIf cancel sampleRate) := by
  unfold EGADSR.releaseIf
  split_ifs
  · exact enterNextStageForReleaseEvent h hpostponed
  · exact ⟨h, .inr ⟨hstage, fun _ => rfl⟩⟩

theorem updateStage (h : Releasing e) (hmain : e.egStage = .main) {event : EgEvent}
    (hevent : event ≠ .cancelRelease) : Releasing (e.updateStage event sampleRate) := by
  have hs := h.infiniteSustain
  by_cases hrelease : e.stage ∈ [Stage.releasePart1, .releasePart2]
  · have hstage := hrelease
    rw [List.mem_cons, List.mem_singleton] at hstage
    unfold EGADSR.updateStage
    rcases hstage with hstage | hstage
    · rw [hstage]
      cases event with
      | stageEnd =>
          have hnext := entered_enterReleasePart2Stage e
          exact entered hs (hnext.mono fun _ h => List.mem_cons_of_mem _ h)
      | cancelRelease => exact absurd rfl hevent
      | release | holdEnd => exact h
    · rw [hstage]
      cases event with
      | stageEnd =>
          have hnext := entered_enterFadeOutStage e fun hs => nomatch hstage.symm.trans hs
          refine entered hs (hnext.mono fun s h => ?_)
          rw [List.mem_singleton.mp h, hstage]
          exact List.mem_cons_of_mem _ List.mem_cons_self
      | cancelRelease => exact absurd rfl hevent
      | release | holdEnd => exact h
  · obtain ⟨hstage, hpostponed⟩ := h.stage.resolve_left hrelease
    have hp := hpostponed hmain
    unfold EGADSR.updateStage
    cases hstage' : e.stage with
    | attack =>
        cases event with
        | stageEnd =>
            dsimp only
            rw [if_pos hp]
            exact enterNextStageForReleaseEvent hs hp
        | release => exact releaseIf hs hstage hp _
        | cancelRelease | holdEnd => exact h
    | attackHold =>
        cases event with
        | stageEnd => exact ⟨hs, .inr ⟨by simp, hpostponed⟩⟩
        | release => exact releaseIf hs hstage hp _
        | cancelRelease => exact h
        | holdEnd =>
            dsimp only
            rw [if_pos hp]
            exact enterNextStageForReleaseEvent hs hp
    | decay1Part1 =>
        cases event with
        | stageEnd => exact enterDecay1Part2Stage hs hp
        | release => exact releaseIf hs hstage hp _
        | cancelRelease | holdEnd => exact h
    | decay1Part2 =>
        cases event with
        | stageEnd =>
            dsimp only
            by_cases hlevel : lt e.level egBottom = true
            · rw [if_pos hlevel]
              exact ⟨hs, .inr ⟨by simp [enterEndStage, hstage'], fun hmain => nomatch hmain⟩⟩
            · rw [if_neg hlevel, if_pos hp]
              exact enterNextStageForReleaseEvent hs hp
        | release => exact releaseIf hs hstage hp _
        | cancelRelease | holdEnd => exact h
    | decay2 | sustain => exact absurd hstage (by simp [hstage'])
    | releasePart1 | releasePart2 => exact absurd hrelease (by simp [hstage'])

theorem step (h : Releasing e) {input : Input F}
    (hinput : ∀ rate, input ≠ .update .cancelRelease rate) : Releasing (e.step input) := by
  cases input with
  | render level stepsLeft => exact ⟨h.infiniteSustain, h.stage⟩
  | update event rate =>
      have hevent : event ≠ .cancelRelease := fun heq => hinput rate (heq ▸ rfl)
      show Releasing (e.update event rate)
      unfold EGADSR.update updateAtEnd
      by_cases hmain : e.egStage = .main
      · rw [if_neg (not_not.mpr hmain)]
        have hnow : Releasing
            { e with holdAttack := if event = EgEvent.holdEnd then false else e.holdAttack } :=
          ⟨h.infiniteSustain, h.stage⟩
        exact hnow.updateStage hmain hevent
      · rw [if_pos hmain]
        split_ifs
        · exact ⟨h.infiniteSustain, h.stage.imp_right fun hs => ⟨hs.1, fun hend => nomatch hend⟩⟩
        · exact h

theorem run (h : Releasing e) {inputs : List (Input F)}
    (hinputs : ∀ rate, .update .cancelRelease rate ∉ inputs) : Releasing (e.run inputs) := by
  induction inputs generalizing e with
  | nil => exact h
  | cons input inputs ih =>
      refine ih (h.step fun rate heq => hinputs rate (heq ▸ List.mem_cons_self)) fun rate hmem => ?_
      exact hinputs rate (List.mem_cons_of_mem _ hmem)

end Releasing

/-! ## When a release is kept -/

/-- With an infinite sustain stage, a stage that a release cancels is followed by no stage that it
does not cancel. -/
def KeepsRelease (options : StateOptions) (hold sustain : Bool) : Prop :=
  sustain = true →
    (options.attackCancel = true →
      options.decay1Cancel = true ∧ (hold = true → options.attackHoldCancel = true)) ∧
    (hold = true → options.attackHoldCancel = true → options.decay1Cancel = true)

variable {options : StateOptions} {hold sustain : Bool} {e : EGADSR F}

theorem releasing_releaseIf (hsustain : e.infiniteSustain = true) {cancel : Bool} {rate : Nat}
    (hstage : e.stage ∉ [Stage.sustain, .decay2])
    (hcancel : cancel = true → Releasing (e.enterNextStageForReleaseEvent rate)) :
    Releasing (e.releaseIf cancel rate) := by
  unfold releaseIf
  split_ifs with h
  · exact hcancel h
  · exact ⟨hsustain, .inr ⟨hstage, fun _ => rfl⟩⟩

theorem Configured.releasing (h : Configured options hold true e)
    (hkeeps : KeepsRelease options hold true) (rate : Nat) :
    Releasing (e.updateStage .release rate) := by
  have hs := h.infiniteSustain
  obtain ⟨hattack, hattackHold⟩ := hkeeps rfl
  rw [← h.options] at hattack hattackHold
  unfold EGADSR.updateStage
  cases hstage : e.stage with
  | attack =>
      refine releasing_releaseIf hs (by simp [hstage]) fun hcancel => ?_
      obtain ⟨hdecay, hnext⟩ := hattack hcancel
      unfold EGADSR.enterNextStageForReleaseEvent EGADSR.enterNextStageFromAttackHold
      rw [hstage]
      dsimp only
      rw [if_neg fun hnot => hnot.2 (hnext (h.holdAttack hnot.1)), if_neg (not_not.mpr hdecay)]
      exact Releasing.enterNextStageFromDecay1 hs
  | attackHold =>
      refine releasing_releaseIf hs (by simp [hstage]) fun hcancel => ?_
      have hhold : hold = true := by
        rcases h.stage with hnot | ⟨hhold, -⟩ | hnot
        · exact nomatch hstage.symm.trans hnot
        · exact hhold
        · rw [hstage] at hnot
          simp [afterAttack] at hnot
      unfold EGADSR.enterNextStageForReleaseEvent EGADSR.enterNextStageFromAttackHold
      rw [hstage]
      dsimp only
      rw [if_neg (not_not.mpr (hattackHold hhold hcancel))]
      exact Releasing.enterNextStageFromDecay1 hs
  | decay1Part1 | decay1Part2 =>
      refine releasing_releaseIf hs (by simp [hstage]) fun _ => ?_
      unfold EGADSR.enterNextStageForReleaseEvent
      rw [hstage]
      exact Releasing.enterNextStageFromDecay1 hs
  | decay2 =>
      rcases h.stage with hnot | ⟨-, hnot⟩ | hnot
      · exact nomatch hstage.symm.trans hnot
      · exact nomatch hstage.symm.trans hnot
      · rw [hstage] at hnot
        simp [afterAttack] at hnot
  | sustain => exact Releasing.enterReleasePart1Stage hs
  | releasePart1 | releasePart2 => exact ⟨hs, .inl (by simp [hstage])⟩

omit [FloatArith F] in
theorem Configured.not_decay2 (h : Configured options hold true e) : e.stage ≠ .decay2 := by
  intro hstage
  rcases h.stage with hnot | ⟨-, hnot⟩ | hnot
  · exact nomatch hstage.symm.trans hnot
  · exact nomatch hstage.symm.trans hnot
  · rw [hstage] at hnot
    simp [afterAttack] at hnot

/-- A release gets under way, or the envelope has ended before. -/
theorem Configured.releasing_step (h : Configured options hold true e)
    (hkeeps : KeepsRelease options hold true) (rate : Nat) :
    Releasing (e.step (.update .release rate)) := by
  show Releasing (e.update .release rate)
  unfold EGADSR.update updateAtEnd
  by_cases hmain : e.egStage = .main
  · rw [if_neg (not_not.mpr hmain)]
    have hnow : Configured options hold true
        { e with holdAttack := if EgEvent.release = EgEvent.holdEnd then false else e.holdAttack } :=
      h.congr rfl rfl id rfl fun _ => rfl
    exact hnow.releasing hkeeps rate
  · rw [if_pos hmain, if_neg fun hand => nomatch hand.2]
    refine ⟨h.infiniteSustain, .inr ⟨?_, fun hnot => absurd hnot hmain⟩⟩
    rw [List.mem_cons, List.mem_singleton]
    rintro (hstage | hstage)
    · exact hmain (h.egStage hstage)
    · exact h.not_decay2 hstage

/-- After a release that is not taken back the generator is not in the sustain stage once a stage
or the sample's hold phase has ended, whatever is triggered and however its levels come out. -/
def ReleaseKept (options : StateOptions) (hold sustain : Bool) : Prop :=
  ∀ (F : Type) [FloatArith F] (e : EGADSR F) (t : Trigger F) (before after : List (Input F))
    (rate : Nat), t.holdAttack = hold → t.infiniteSustain = sustain →
    (∀ rate, .update .cancelRelease rate ∉ after) →
    (∃ rate, .update .stageEnd rate ∈ after ∨ .update .holdEnd rate ∈ after) →
    (((e.setStateOptions options).trigger t).run
      (before ++ .update .release rate :: after)).stage ≠ .sustain

theorem releaseKept_of_keepsRelease (hkeeps : KeepsRelease options hold sustain) :
    ReleaseKept options hold sustain := by
  intro F _ e t before after rate hhold hsustain hcancel _ hstage
  subst hhold hsustain
  have htrigger : Configured options t.holdAttack t.infiniteSustain
      ((e.setStateOptions options).trigger t) := .trigger t e
  have hbefore := htrigger.run before
  cases hs : t.infiniteSustain with
  | true =>
      rw [hs] at hbefore hkeeps
      have hreleasing := (hbefore.releasing_step hkeeps rate).run hcancel
      have hnot : ((((e.setStateOptions options).trigger t).run before).step
          (.update .release rate)).run after = ((e.setStateOptions options).trigger t).run
            (before ++ .update .release rate :: after) := by
        unfold EGADSR.run
        rw [List.foldl_append, List.foldl_cons]
      rw [hnot] at hreleasing
      rcases hreleasing.stage with hnext | ⟨hnext, -⟩
      · rw [hstage] at hnext
        simp at hnext
      · rw [hstage] at hnext
        simp at hnext
  | false =>
      have hall := htrigger.run (before ++ .update .release rate :: after)
      rw [hs] at hall
      rcases hall.stage with hnext | ⟨-, hnext⟩ | hnext
      · exact nomatch hstage.symm.trans hnext
      · exact nomatch hstage.symm.trans hnext
      · rw [hstage] at hnext
        simp [afterAttack] at hnext

/-! ## Releases that are lost -/

/-- Numbers to run the generator with; none of the runs takes an exponential or a logarithm. -/
@[reducible] def ratArith : FloatArith ℚ where
  lt a b := decide (a < b)
  le a b := decide (a ≤ b)
  exp a := a
  log a := a
  ofInt n := n
  toInt q := q.num.tdiv q.den

/-- A voice that was never triggered. -/
def unused : EGADSR ℚ where
  level := 0
  coeff := 0
  offset := 0
  stepsLeft := 0
  segment := .segmentEnd
  egStage := .stageEnd
  fadeOutCoeff := -1
  stage := .attack
  postponedEvent := none
  holdAttack := false
  infiniteSustain := false
  options := ⟨true, true, true, true, true⟩
  decay1Time := 0
  decay1Level2 := 0
  decay1Slope := 0
  decay2Time := 0
  sustainLevel := 0
  releaseCoeff := 0
  releaseCoeff2 := 0
  releaseCoeff3 := 0
  releaseLevel2 := 0
  releaseSlope := 0
  invVolume := 0
  expOffset := 0

/-- An instrument without decay. -/
def organ (attackTime : ℚ) (hold sustain : Bool) : Trigger ℚ where
  preAttack := 0
  attackTime := attackTime
  holdAttack := hold
  decay1Time := 0
  decay2Time := 1
  infiniteSustain := sustain
  sustainLevel := 500
  releaseTime := 1
  volume := 1
  sampleRate := 1378

/-- A released key whose note is held further on. -/
def released (options : StateOptions) (hold sustain : Bool) (attackTime : ℚ) : EGADSR ℚ :=
  letI := ratArith
  ((unused.setStateOptions options).trigger (organ attackTime hold sustain)).run
    ([] ++ .update .release 1378 :: [.update .holdEnd 1378, .update .stageEnd 1378])

/-- The attack is cancelled, or there is none. -/
theorem released_sustain : ∀ attackCancel attackHoldCancel decay1Cancel decay2Cancel releaseCancel
    hold : Bool,
    let options : StateOptions :=
      ⟨attackCancel, attackHoldCancel, decay1Cancel, decay2Cancel, releaseCancel⟩
    ¬((attackCancel = true →
        decay1Cancel = true ∧ (hold = true → attackHoldCancel = true)) ∧
      (hold = true → attackHoldCancel = true → decay1Cancel = true)) →
    (released options hold true (if attackCancel then 1 else 0)).stage = .sustain := by
  decide +kernel

theorem keepsRelease_of_releaseKept (h : ReleaseKept options hold sustain) :
    KeepsRelease options hold sustain := by
  rintro rfl
  by_contra hnot
  let _ : FloatArith ℚ := ratArith
  refine h ℚ unused (organ (if options.attackCancel then 1 else 0) hold true) []
    [.update .holdEnd 1378, .update .stageEnd 1378] 1378 rfl rfl ?_ ?_ ?_
  · intro rate hmem
    simp at hmem
  · exact ⟨1378, .inl (by simp)⟩
  · exact released_sustain _ _ _ _ _ _ hnot

/-- No release gets lost just if, with an infinite sustain stage, none that a stage takes is met by
a later stage which does not. -/
theorem releaseKept_iff (options : StateOptions) (hold sustain : Bool) :
    ReleaseKept options hold sustain ↔ KeepsRelease options hold sustain :=
  ⟨keepsRelease_of_releaseKept, releaseKept_of_keepsRelease⟩

/-- Only the decay 1 stage is not to be cancelled. -/
theorem not_releaseKept : ¬ ∀ options hold sustain, ReleaseKept options hold sustain := by
  intro h
  obtain ⟨hattack, -⟩ := keepsRelease_of_releaseKept (h ⟨true, true, false, true, true⟩ false true) rfl
  exact Bool.false_ne_true (hattack rfl).1

end EGADSR

end Gig

end LinuxSampler
