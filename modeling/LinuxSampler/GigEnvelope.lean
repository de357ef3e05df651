import Mathlib.Data.Rat.Cast.Defs

/-!
# Envelope generator of the gig engine

`EGADSR` of `engines/gig/EGADSR.cpp` and what it inherits from `EG`. The
floating point arithmetic is a parameter: nothing is assumed of it, so that
every level and every number of steps may come out as it likes.

A release either takes effect at once or is postponed, if the stage is not
to be cancelled. Where the stage is cancelled but the one after it is not,
the generator goes on to that one and does not postpone anything. With an
infinite sustain stage the release is lost then, and only then
(`releaseKept_iff`).
-/

namespace LinuxSampler

namespace Gig

/-- `float` and `double`, as one type. `toInt` is the cast to an integer. -/
class FloatArith (F : Type) extends Add F, Sub F, Mul F, Div F, Neg F, OfScientific F where
  lt : F → F → Bool
  le : F → F → Bool
  exp : F → F
  log : F → F
  ofInt : Int → F
  toInt : F → Int

open FloatArith

/-! ## Stages and events -/

/-- `EG::stage_t` -/
inductive EgStage where
  | main
  | fadeout
  | stageEnd
  deriving DecidableEq

/-- `EGADSR::stage_t`, without the last two, which are never entered. -/
inductive Stage where
  | attack
  | attackHold
  | decay1Part1
  | decay1Part2
  | decay2
  | sustain
  | releasePart1
  | releasePart2
  deriving DecidableEq

/-- `EG::segment_t` -/
inductive Segment where
  | segmentEnd
  | lin
  | exp
  deriving DecidableEq

/-- `EG::event_t` -/
inductive EgEvent where
  | stageEnd
  | release
  | cancelRelease
  | holdEnd
  deriving DecidableEq

/-- The arguments of `setStateOptions()`. -/
structure StateOptions where
  attackCancel : Bool
  attackHoldCancel : Bool
  decay1Cancel : Bool
  decay2Cancel : Bool
  releaseCancel : Bool

/-- `egStage` is the `Stage` of the base class. -/
structure EGADSR (F : Type) where
  level : F
  coeff : F
  offset : F
  stepsLeft : Int
  segment : Segment
  egStage : EgStage
  fadeOutCoeff : F
  stage : Stage
  postponedEvent : Option EgEvent
  holdAttack : Bool
  infiniteSustain : Bool
  options : StateOptions
  decay1Time : F
  decay1Level2 : F
  decay1Slope : F
  decay2Time : F
  sustainLevel : F
  releaseCoeff : F
  releaseCoeff2 : F
  releaseCoeff3 : F
  releaseLevel2 : F
  releaseSlope : F
  invVolume : F
  expOffset : F

variable {F : Type} [FloatArith F]

/-- `RTMath::Max()` -/
def rtMax (a b : F) : F := if lt a b then b else a

/-- `CONFIG_EG_BOTTOM` -/
def egBottom : F := 0.001

/-- `CONFIG_EG_MIN_RELEASE_TIME` -/
def egMinReleaseTime : F := 0.0025

def intMax : Int := 2147483647

namespace EGADSR

/-! ## `EG` -/

def enterEndStage (e : EGADSR F) : EGADSR F :=
  { e with egStage := .stageEnd, segment := .segmentEnd, level := 0.0 }

def enterFadeOutStage (e : EGADSR F) : EGADSR F :=
  let e := { e with
    egStage := .fadeout
    segment := .lin
    stepsLeft := toInt (e.level / (-e.fadeOutCoeff))
    coeff := e.fadeOutCoeff }
  if e.stepsLeft ≤ 0 then e.enterEndStage else e

/-! ## Entering a stage -/

def enterReleasePart2Stage (e : EGADSR F) : EGADSR F :=
  let e := { e with
    stage := .releasePart2
    segment := .exp
    stepsLeft := toInt (log ((egBottom - e.expOffset) / (e.level - e.expOffset)) / e.releaseSlope)
    coeff := e.releaseCoeff2
    offset := e.releaseCoeff3 }
  if e.stepsLeft ≤ 0 then e.enterFadeOutStage else e

def enterReleasePart1Stage (e : EGADSR F) : EGADSR F :=
  let e := { e with
    stage := .releasePart1
    segment := .lin
    stepsLeft := toInt ((e.releaseLevel2 - e.level) / e.releaseCoeff)
    coeff := e.releaseCoeff
    postponedEvent := none }
  if e.stepsLeft ≤ 0 then e.enterReleasePart2Stage else e

def enterSustainStage (e : EGADSR F) : EGADSR F :=
  { e with
    stage := .sustain
    segment := .lin
    coeff := 0.0
    stepsLeft := intMax
    postponedEvent := none }

def enterDecay2Stage (sampleRate : Nat) (e : EGADSR F) : EGADSR F :=
  let e := { e with stage := .decay2, segment := .lin, decay2Time := rtMax e.decay2Time 0.05 }
  let stepsLeft := toInt (e.decay2Time * ofInt sampleRate)
  let e := { e with coeff := (-1.03 / ofInt stepsLeft) * e.invVolume }
  let e := { e with stepsLeft := toInt ((egBottom - e.level) / e.coeff) }
  if e.stepsLeft ≤ 0 then e.enterEndStage else e

/-- The labels of `enterNextStageForReleaseEvent()` from `stage_decay1_part1` on. -/
def enterNextStageFromDecay1 (sampleRate : Nat) (e : EGADSR F) : EGADSR F :=
  if e.infiniteSustain then e.enterReleasePart1Stage
  else if ¬ e.options.decay2Cancel then e.enterDecay2Stage sampleRate
  else e.enterReleasePart1Stage

/-- How both parts of the decay 1 stage are left. -/
def leaveDecay1 (sampleRate : Nat) (e : EGADSR F) : EGADSR F :=
  if e.postponedEvent = some .release then
    { e with stage := .decay1Part2 }.enterNextStageFromDecay1 sampleRate
  else if e.infiniteSustain then e.enterSustainStage
  else e.enterDecay2Stage sampleRate

def enterDecay1Part2Stage (sampleRate : Nat) (e : EGADSR F) : EGADSR F :=
  if lt e.sustainLevel e.decay1Level2 then
    let e := { e with
      stage := .decay1Part2
      segment := .exp
      decay1Slope := e.decay1Slope * 3.55 }
    let e := { e with coeff := exp e.decay1Slope }
    let e := { e with
      offset := e.expOffset * (1.0 - e.coeff)
      stepsLeft :=
        toInt (log ((e.sustainLevel - e.expOffset) / (e.level - e.expOffset)) / e.decay1Slope) }
    if e.stepsLeft > 0 then e else e.leaveDecay1 sampleRate
  else e.leaveDecay1 sampleRate

def enterDecay1Part1Stage (sampleRate : Nat) (e : EGADSR F) : EGADSR F :=
  let e := { e with stepsLeft := toInt (e.decay1Time * ofInt sampleRate) }
  if e.stepsLeft ≠ 0 ∧ lt e.sustainLevel e.level then
    let e := { e with
      stage := .decay1Part1
      segment := .lin
      decay1Slope := (1.347 * e.sustainLevel - 1.361) / ofInt e.stepsLeft }
    let e := { e with
      coeff := e.decay1Slope * e.invVolume
      decay1Level2 := 0.25 * e.invVolume }
    let e := { e with
      stepsLeft := toInt ((rtMax e.decay1Level2 e.sustainLevel - e.level) / e.coeff) }
    if e.stepsLeft ≤ 0 then e.enterDecay1Part2Stage sampleRate else e
  else e.leaveDecay1 sampleRate

def enterAttackHoldStage (e : EGADSR F) : EGADSR F :=
  { e with stage := .attackHold, segment := .lin, coeff := 0.0, stepsLeft := intMax }

/-- The label `stage_attack_hold`. -/
def enterNextStageFromAttackHold (sampleRate : Nat) (e : EGADSR F) : EGADSR F :=
  if ¬ e.options.decay1Cancel then e.enterDecay1Part1Stage sampleRate
  else e.enterNextStageFromDecay1 sampleRate

def enterNextStageForReleaseEvent (sampleRate : Nat) (e : EGADSR F) : EGADSR F :=
  match e.stage with
  | .attack =>
      if e.holdAttack ∧ ¬ e.options.attackHoldCancel then e.enterAttackHoldStage
      else e.enterNextStageFromAttackHold sampleRate
  | .attackHold => e.enterNextStageFromAttackHold sampleRate
  | .decay1Part1 | .decay1Part2 => e.enterNextStageFromDecay1 sampleRate
  | .decay2 | .sustain | .releasePart1 | .releasePart2 => e.enterReleasePart1Stage

def enterAttackStage (preAttack : Nat) (attackTime : F) (sampleRate : Nat) (e : EGADSR F) :
    EGADSR F :=
  let e := { e with stage := .attack, segment := .lin }
  if le 1e-8 attackTime then
    let e := { e with
      stepsLeft := toInt (0.655 * rtMax attackTime 0.0316 * ofInt sampleRate)
      level := ofInt preAttack / 1000.0 }
    { e with coeff := 0.896 * (1.0 - e.level) / ofInt e.stepsLeft }
  else
    let e := { e with level := 1.029 }
    if e.holdAttack then e.enterAttackHoldStage else e.enterDecay1Part1Stage sampleRate

/-! ## The generator -/

def setStateOptions (options : StateOptions) (e : EGADSR F) : EGADSR F := { e with options := options }

/-- The arguments of `trigger()`. -/
structure Trigger (F : Type) where
  preAttack : Nat
  attackTime : F
  holdAttack : Bool
  decay1Time : F
  decay2Time : F
  infiniteSustain : Bool
  sustainLevel : Nat
  releaseTime : F
  volume : F
  sampleRate : Nat

def trigger (t : Trigger F) (e : EGADSR F) : EGADSR F :=
  let invVolume := 1.0 / t.volume
  let expOffset := (0.25 - 1.0 / 3.55) * invVolume
  let releaseTime := if lt t.releaseTime egMinReleaseTime then egMinReleaseTime else t.releaseTime
  let releaseStepsLeft : F := ofInt (toInt (releaseTime * ofInt t.sampleRate))
  let releaseSlope := 1.365 * (0.0 - 1.0) / releaseStepsLeft
  let releaseCoeff := releaseSlope * invVolume
  let releaseSlope := releaseSlope * 3.55
  let releaseCoeff2 := exp releaseSlope
  { e with
    sustainLevel := ofInt t.sustainLevel / 1000.0
    infiniteSustain := t.infiniteSustain
    holdAttack := t.holdAttack
    decay1Time := t.decay1Time
    decay2Time := t.decay2Time
    invVolume := invVolume
    expOffset := expOffset
    releaseSlope := releaseSlope
    releaseCoeff := releaseCoeff
    releaseCoeff2 := releaseCoeff2
    releaseCoeff3 := expOffset * (1.0 - releaseCoeff2)
    releaseLevel2 := 0.25 * invVolume
    postponedEvent := none
    egStage := .main }.enterAttackStage t.preAttack t.attackTime t.sampleRate

/-- `atEnd()`, for the state in which it returns true. -/
def updateAtEnd (event : EgEvent) (e : EGADSR F) : EGADSR F :=
  if e.egStage = .fadeout ∧ event = .stageEnd then e.enterEndStage else e

/-- What a release does in a stage that may be cancelled. -/
def releaseIf (cancel : Bool) (sampleRate : Nat) (e : EGADSR F) : EGADSR F :=
  if cancel then e.enterNextStageForReleaseEvent sampleRate
  else { e with postponedEvent := some .release }

def cancelRelease (sampleRate : Nat) (e : EGADSR F) : EGADSR F :=
  if ¬ e.options.releaseCancel then e
  else if e.infiniteSustain then e.enterSustainStage
  else e.enterDecay2Stage sampleRate

/-- The stage and event switches of `update()`. -/
def updateStage (event : EgEvent) (sampleRate : Nat) (e : EGADSR F) : EGADSR F :=
  match e.stage, event with
  | .attack, .release => e.releaseIf e.options.attackCancel sampleRate
  | .attack, .stageEnd =>
      if e.postponedEvent = some .release then e.enterNextStageForReleaseEvent sampleRate
      else if e.holdAttack then e.enterAttackHoldStage
      else e.enterDecay1Part1Stage sampleRate
  | .attackHold, .stageEnd => { e with stepsLeft := intMax }
  | .attackHold, .holdEnd =>
      if e.postponedEvent = some .release then e.enterNextStageForReleaseEvent sampleRate
      else e.enterDecay1Part1Stage sampleRate
  | .attackHold, .release => e.releaseIf e.options.attackHoldCancel sampleRate
  | .decay1Part1, .stageEnd => e.enterDecay1Part2Stage sampleRate
  | .decay1Part1, .release => e.releaseIf e.options.decay1Cancel sampleRate
  | .decay1Part2, .release => e.releaseIf e.options.decay1Cancel sampleRate
  | .decay1Part2, .stageEnd =>
      if lt e.level egBottom then e.enterEndStage
      else if e.postponedEvent = some .release then e.enterNextStageForReleaseEvent sampleRate
      else if e.infiniteSustain then e.enterSustainStage
      else e.enterDecay2Stage sampleRate
  | .decay2, .stageEnd => e.enterFadeOutStage
  | .decay2, .release =>
      if e.options.decay2Cancel then e.enterReleasePart1Stage
      else { e with postponedEvent := some .release }
  | .decay2, .holdEnd =>
      if e.postponedEvent = some .release ∧ e.options.decay1Cancel then e.enterReleasePart1Stage
      else e.enterDecay1Part1Stage sampleRate
  | .sustain, .stageEnd => { e with stepsLeft := intMax }
  | .sustain, .release => e.enterReleasePart1Stage
  | .sustain, .holdEnd => e.enterDecay1Part1Stage sampleRate
  | .releasePart1, .stageEnd => e.enterReleasePart2Stage
  | .releasePart1, .cancelRelease => e.cancelRelease sampleRate
  | .releasePart2, .stageEnd => e.enterFadeOutStage
  | .releasePart2, .cancelRelease => e.cancelRelease sampleRate
  | _, _ => e

def update (event : EgEvent) (sampleRate : Nat) (e : EGADSR F) : EGADSR F :=
  if e.egStage ≠ .main then e.updateAtEnd event
  else
    { e with holdAttack := if event = EgEvent.holdEnd then false else e.holdAttack }.updateStage event
      sampleRate

/-- Between updates the voice renders: it leaves some level and number of steps. -/
inductive Input (F : Type) where
  | update (event : EgEvent) (sampleRate : Nat)
  | render (level : F) (stepsLeft : Int)

def step (e : EGADSR F) : Input F → EGADSR F
  | .update event sampleRate => e.update event sampleRate
  | .render level stepsLeft => { e with level := level, stepsLeft := stepsLeft }

def run (e : EGADSR F) (inputs : List (Input F)) : EGADSR F := inputs.foldl step e

end EGADSR

end Gig

end LinuxSampler
