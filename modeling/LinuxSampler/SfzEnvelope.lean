import LinuxSampler.GigEnvelopeRelease

/-!
# Multi stage envelope of the sfz engine

`EG` of `engines/sfz/EG.cpp` goes through the nodes that the opcodes of an
sfz file have made, over the floating point arithmetic of the gig engine's
generator. An access behind either end of the nodes has no result.

At a stage end the generator goes to the node after its own, which is not
the last one. At a release it goes to the node after the one that
`egN_sustain` names, and nothing has compared that number with the nodes.
So a release has to come at the last node, or in a definition whose sustain
node has a successor (`run_isSome_iff`).
-/

namespace LinuxSampler

namespace Sfz

namespace Envelope

open Gig (FloatArith EgEvent EgStage)
open Gig.FloatArith
open Gig.EGADSR (Input)

/-! ## Definitions of the file -/

/-- `EGNode`, without the lists of controllers. -/
structure EGNode (F : Type) where
  time : F
  level : F
  shape : F
  curve : F

/-- `sfz::EG`; of its members the generator reads these two. -/
structure EGDefinition (F : Type) where
  node : List (EGNode F)
  sustain : Int

/-- `ArrayList::operator[]` -/
def element {α : Type} (list : List α) (i : Int) : Option α :=
  if 0 ≤ i then list[i.toNat]? else none

theorem element_of_inside {α : Type} {l : List α} {i : Int} (hi : 0 ≤ i) (hlt : i < l.length) :
    ∃ a, element l i = some a :=
  ⟨l[i.toNat], by rw [element, if_pos hi, List.getElem?_eq_getElem (by omega)]⟩

theorem element_of_outside {α : Type} {l : List α} {i : Int} (h : i < 0 ∨ l.length ≤ i) :
    element l i = none := by
  rw [element]
  split
  · exact List.getElem?_eq_none (by omega)
  · rfl

variable {F : Type} [FloatArith F]

/-- `EGNode::EGNode()` -/
def newNode : EGNode F := ⟨0.0, 0.0, 0.0, 0.0⟩

/-- `EG::EG()` -/
def newEG : EGDefinition F := ⟨[], 0⟩

/-- The list made longer up to the element `x`, which is then changed. -/
def change {α : Type} (new : α) (x : Int) (f : α → Option α) (list : List α) : Option (List α) := do
  let list := list ++ List.replicate (x + 1 - list.length).toNat new
  let a ← element list x
  return list.set x.toNat (← f a)

inductive NodeMember where
  | time
  | level
  | shape
  | curve

/-- `check()` -/
def check (min max val : F) : F :=
  let val := if lt val min then min else val
  if lt max val then max else val

def NodeMember.assign (value : F) (n : EGNode F) : NodeMember → EGNode F
  | .time => { n with time := check 0.0 100.0 value }
  | .level => { n with level := check 0.0 1.0 value }
  | .shape => { n with shape := value }
  | .curve => { n with curve := value }

/-- An opcode `eg<x>_…`. The last two stand for those that the generator does not see. -/
inductive EgOpcode (F : Type) where
  | node (x y : Int) (member : NodeMember) (value : F)
  | sustain (x value : Int)
  | otherOfNode (x y : Int)
  | other (x : Int)

/-- `eg()` with the assignment to its result. -/
def changeEg (x : Int) (f : EGDefinition F → Option (EGDefinition F)) :
    List (EGDefinition F) → Option (List (EGDefinition F)) :=
  change newEG x f

/-- `egnode()` with the assignment to its result. -/
def changeEgNode (x y : Int) (f : EGNode F → EGNode F) :
    List (EGDefinition F) → Option (List (EGDefinition F)) :=
  changeEg x fun eg => do return { eg with node := ← change newNode y (some ∘ f) eg.node }

/-- `push_opcode()`, for `pCurDef->eg` -/
def pushOpcode (egs : List (EGDefinition F)) : EgOpcode F → Option (List (EGDefinition F))
  | .node x y member value => changeEgNode x y (fun n => member.assign value n) egs
  | .sustain x value => changeEg x (fun eg => some { eg with sustain := value }) egs
  | .otherOfNode x y => changeEgNode x y id egs
  | .other x => changeEg x some egs

/-! ## Generator -/

/-- `EG::segment_t` -/
inductive Segment where
  | segmentEnd
  | lin
  | exp
  | pow
  deriving DecidableEq

/-- `egStage` is the `Stage` of the base class. -/
structure EG (F : Type) where
  level : F
  coeff : F
  offset : F
  exponent : F
  x : F
  xDelta : F
  stepsLeft : Int
  segment : Segment
  egStage : EgStage
  fadeOutCoeff : F
  stage : Int
  timeCoeff : F
  gotRelease : Bool

namespace EG

def enterEndStage (e : EG F) : EG F :=
  { e with egStage := .stageEnd, segment := .segmentEnd, level := 0.0 }

def enterFadeOutStage (e : EG F) : EG F :=
  let e := { e with
    egStage := .fadeout
    segment := .lin
    stepsLeft := toInt (e.level / (-e.fadeOutCoeff))
    coeff := e.fadeOutCoeff }
  if e.stepsLeft ≤ 0 then e.enterEndStage else e

def atEnd (event : EgEvent) (e : EG F) : Bool × EG F :=
  match e.egStage with
  | .stageEnd => (true, e)
  | .fadeout => (true, if event = .stageEnd then e.enterEndStage else e)
  | .main => (false, e)

def enterSustainStage (eg : EGDefinition F) (e : EG F) : Option (EG F) := do
  let node ← element eg.node e.stage
  return { e with segment := .lin, coeff := 0.0, stepsLeft := Gig.intMax, level := node.level }

/-- The part of `update()` behind `Stage++`. -/
def enterStage (eg : EGDefinition F) (sampleRate : Nat) (e : EG F) : Option (EG F) := do
  let node ← element eg.node e.stage
  let shape := if lt node.shape 0.000001 then 1.0 else node.shape
  let xd := node.time * ofInt sampleRate * e.timeCoeff
  let yd := node.level - e.level
  let previous ← element eg.node (e.stage - 1)
  let e :=
    if lt 0.999999 previous.shape || lt previous.shape 0.000001 then
      { e with exponent := 1.0 / shape, offset := e.level, x := 0.0, xDelta := 1.0 / xd, coeff := yd }
    else
      { e with exponent := shape, offset := node.level, x := 1.0, xDelta := -1.0 / xd, coeff := -yd }
  return { e with segment := .pow, stepsLeft := toInt xd }

/-- The stage that the number is increased from. -/
def departure (eg : EGDefinition F) (event : EgEvent) (e : EG F) : Option (EG F) :=
  if event = .release then some { e with stage := eg.sustain }
  else (element eg.node e.stage).map fun node => { e with level := node.level }

def leaveStage (eg : EGDefinition F) (event : EgEvent) (sampleRate : Nat) (e : EG F) :
    Option (EG F) :=
  if e.stage = eg.node.length - 1 then some e.enterFadeOutStage
  else if e.stage = eg.sustain ∧ e.stage ≠ 0 ∧ event ≠ .release then e.enterSustainStage eg
  else do
    let e ← e.departure eg event
    { e with stage := e.stage + 1 }.enterStage eg sampleRate

def update (eg : EGDefinition F) (event : EgEvent) (sampleRate : Nat) (e : EG F) : Option (EG F) :=
  let (ended, e) := e.atEnd event
  if ended then some e
  else if event = .release ∧ e.gotRelease then some e
  else
    let e := if event = .release then { e with gotRelease := true } else e
    if event = .stageEnd ∨ event = .release then e.leaveStage eg event sampleRate else some e

def trigger (eg : EGDefinition F) (sampleRate velocity : Nat) (e : EG F) : Option (EG F) :=
  { e with
    stage := 0
    timeCoeff := Gig.FloatArith.exp (0.0054578518 * ofInt velocity)
    gotRelease := false
    egStage := .main }.update eg .stageEnd sampleRate

def step (eg : EGDefinition F) (e : EG F) : Input F → Option (EG F)
  | .update event sampleRate => e.update eg event sampleRate
  | .render level stepsLeft => some { e with level := level, stepsLeft := stepsLeft }

/-- `trigger()` and what follows it. -/
def run (eg : EGDefinition F) (sampleRate velocity : Nat) (inputs : List (Input F)) (e : EG F) :
    Option (EG F) :=
  (e.trigger eg sampleRate velocity).bind fun e => inputs.foldlM (step eg) e

/-! ## Stages -/

section Stages

variable (eg : EGDefinition F) (sampleRate : Nat)

/-- In the main stage, the number is one of a node that has a predecessor. -/
def Inside (e : EG F) : Prop :=
  e.egStage = .main → 1 ≤ e.stage ∧ e.stage < eg.node.length

/-- The node after the sustain node exists, as does the sustain node. -/
def SustainInside : Prop := 0 ≤ eg.sustain ∧ eg.sustain + 1 < eg.node.length

instance : Decidable (SustainInside eg) := inferInstanceAs (Decidable (_ ∧ _))

theorem enterFadeOutStage_egStage (e : EG F) : e.enterFadeOutStage.egStage ≠ .main := by
  unfold enterFadeOutStage
  simp only
  split
  · simp [enterEndStage]
  · simp

theorem enterStage_of_inside {e : EG F} (hlow : 1 ≤ e.stage) (hhigh : e.stage < eg.node.length) :
    ∃ e', e.enterStage eg sampleRate = some e' ∧
      e'.stage = e.stage ∧ e'.egStage = e.egStage ∧ e'.gotRelease = e.gotRelease := by
  obtain ⟨node, hnode⟩ := element_of_inside (show 0 ≤ e.stage by omega) hhigh
  obtain ⟨previous, hprevious⟩ := element_of_inside (show 0 ≤ e.stage - 1 by omega)
    (show e.stage - 1 < eg.node.length by omega)
  simp only [enterStage, hnode, hprevious, Option.bind_eq_bind, Option.bind_some]
  refine ⟨_, rfl, ?_⟩
  split <;> exact ⟨rfl, rfl, rfl⟩

theorem enterStage_of_outside {e : EG F} (h : e.stage < 1 ∨ eg.node.length ≤ e.stage) :
    e.enterStage eg sampleRate = none := by
  unfold enterStage
  by_cases hnode : e.stage < 0 ∨ eg.node.length ≤ e.stage
  · rw [element_of_outside hnode]
    rfl
  · obtain ⟨node, hsome⟩ := element_of_inside (l := eg.node) (i := e.stage) (by omega) (by omega)
    simp only [hsome, element_of_outside (l := eg.node) (i := e.stage - 1) (.inl (by omega)),
      Option.bind_eq_bind, Option.bind_some, Option.bind_none]

/-! ## Updates -/

theorem update_of_ended {e : EG F} (event : EgEvent) (h : e.egStage ≠ .main) :
    ∃ e', e.update eg event sampleRate = some e' ∧ e'.egStage ≠ .main := by
  unfold update atEnd
  cases hstage : e.egStage with
  | main => exact absurd hstage h
  | stageEnd => exact ⟨e, rfl, h⟩
  | fadeout =>
      refine ⟨_, rfl, ?_⟩
      split
      · simp [enterEndStage]
      · exact h

theorem update_of_main {e : EG F} (event : EgEvent) (hmain : e.egStage = .main) :
    e.update eg event sampleRate =
      if event = .release ∧ e.gotRelease then some e
      else if event = .stageEnd then e.leaveStage eg event sampleRate
      else if event = .release then
        { e with gotRelease := true }.leaveStage eg event sampleRate
      else some e := by
  unfold update atEnd
  cases event <;> simp [hmain]

theorem leaveStage_of_last {e : EG F} (event : EgEvent) (hlast : e.stage = eg.node.length - 1) :
    ∃ e', e.leaveStage eg event sampleRate = some e' ∧ e'.egStage ≠ .main :=
  ⟨_, if_pos hlast, e.enterFadeOutStage_egStage⟩

/-- A stage end before the last node. -/
theorem leaveStage_stageEnd {e : EG F} (hlow : 0 ≤ e.stage) (hhigh : e.stage + 1 < eg.node.length) :
    ∃ e', e.leaveStage eg .stageEnd sampleRate = some e' ∧
      e'.egStage = e.egStage ∧ e'.gotRelease = e.gotRelease ∧
      e'.stage = if e.stage = eg.sustain ∧ e.stage ≠ 0 then e.stage else e.stage + 1 := by
  obtain ⟨node, hnode⟩ := element_of_inside hlow (show e.stage < eg.node.length by omega)
  have hlast : e.stage ≠ eg.node.length - 1 := by omega
  unfold leaveStage
  rw [if_neg hlast]
  by_cases hsustain : e.stage = eg.sustain ∧ e.stage ≠ 0
  · rw [if_pos ⟨hsustain.1, hsustain.2, by simp⟩, if_pos hsustain, enterSustainStage, hnode]
    exact ⟨_, rfl, rfl, rfl, rfl⟩
  · rw [if_neg fun h => hsustain ⟨h.1, h.2.1⟩, if_neg hsustain, departure, if_neg (by simp), hnode]
    obtain ⟨e', hentered, hstage, hmain, hgot⟩ := enterStage_of_inside eg sampleRate
      (e := { e with level := node.level, stage := e.stage + 1 }) (by simp; omega) hhigh
    exact ⟨e', hentered, hmain, hgot, hstage⟩

/-- A release before the last node. -/
theorem leaveStage_release {e : EG F} (hlast : e.stage ≠ eg.node.length - 1) :
    e.leaveStage eg .release sampleRate =
      { e with stage := eg.sustain + 1 }.enterStage eg sampleRate := by
  unfold leaveStage
  rw [if_neg hlast, if_neg (by simp), departure, if_pos rfl]
  rfl

/-! ## Runs -/

/-- From here on no input can lead out of the nodes. -/
def Steady (e : EG F) : Prop :=
  e.egStage = .main →
    (1 ≤ e.stage ∧ e.stage < eg.node.length) ∧ (SustainInside eg ∨ e.gotRelease = true)

variable {eg}

omit [FloatArith F] in
theorem Steady.of_ended {e : EG F} (h : e.egStage ≠ .main) : Steady eg e := fun hmain => absurd hmain h

theorem Steady.leaveStage {e : EG F} (event : EgEvent) (h : Steady eg e) (hmain : e.egStage = .main)
    (hevent : event = .stageEnd ∨ event = .release ∧ SustainInside eg) :
    ∃ e', e.leaveStage eg event sampleRate = some e' ∧ Steady eg e' := by
  obtain ⟨⟨hlow, hhigh⟩, hkept⟩ := h hmain
  by_cases hlast : e.stage = eg.node.length - 1
  · obtain ⟨e', hleft, hended⟩ := leaveStage_of_last eg sampleRate event hlast
    exact ⟨e', hleft, .of_ended hended⟩
  · rcases hevent with rfl | ⟨rfl, hsustain⟩
    · obtain ⟨e', hleft, hbase, hgot, hstage⟩ :=
        leaveStage_stageEnd eg sampleRate (e := e) (by omega) (by omega)
      refine ⟨e', hleft, fun _ => ⟨?_, hgot ▸ hkept⟩⟩
      rw [hstage]
      split <;> omega
    · obtain ⟨hfirst, hnext⟩ := hsustain
      obtain ⟨e', hentered, hstage, -, -⟩ := enterStage_of_inside eg sampleRate
        (e := { e with stage := eg.sustain + 1 }) (by simp; omega) hnext
      refine ⟨e', (leaveStage_release eg sampleRate hlast).trans hentered, fun _ => ⟨?_, ?_⟩⟩
      · rw [hstage]
        simp only
        omega
      · exact .inl ⟨hfirst, hnext⟩

theorem Steady.step {e : EG F} (h : Steady eg e) (input : Input F) :
    ∃ e', e.step eg input = some e' ∧ Steady eg e' := by
  cases input with
  | render level stepsLeft => exact ⟨_, rfl, h⟩
  | update event sampleRate =>
      by_cases hmain : e.egStage = .main
      · show ∃ e', e.update eg event sampleRate = some e' ∧ Steady eg e'
        rw [update_of_main eg sampleRate event hmain]
        split
        · exact ⟨e, rfl, h⟩
        next hagain =>
          split
          next hend => exact h.leaveStage sampleRate event hmain (.inl hend)
          next =>
            split
            next hrelease =>
              have hgot : e.gotRelease ≠ true := fun hgot => hagain ⟨hrelease, hgot⟩
              obtain ⟨hstage, hkept⟩ := h hmain
              have hsustain := hkept.resolve_right hgot
              exact Steady.leaveStage sampleRate event (fun _ => ⟨hstage, .inl hsustain⟩) hmain
                (.inr ⟨hrelease, hsustain⟩)
            next => exact ⟨e, rfl, h⟩
      · obtain ⟨e', hupdated, hended⟩ := update_of_ended eg sampleRate event hmain
        exact ⟨e', hupdated, .of_ended hended⟩

theorem Steady.run {e : EG F} (h : Steady eg e) (inputs : List (Input F)) :
    (inputs.foldlM (EG.step eg) e).isSome := by
  induction inputs generalizing e with
  | nil => rfl
  | cons input inputs ih =>
      obtain ⟨e', hstep, h'⟩ := h.step input
      rw [List.foldlM_cons, hstep]
      exact ih h'

end Stages

end EG

/-! ## Releases -/

def releases : Input F → Bool
  | .update .release _ => true
  | _ => false

def endsStage : Input F → Bool
  | .update .stageEnd _ => true
  | _ => false

def stageEndsBeforeRelease (inputs : List (Input F)) : Nat :=
  (inputs.takeWhile (!releases ·)).countP endsStage

/-- The first release, if there is one, finds the generator at the last node when it
starts at this one and every stage end goes one node further. -/
def ReleasedLast (eg : EGDefinition F) (stage : Int) (inputs : List (Input F)) : Prop :=
  (∀ input ∈ inputs, ¬ releases input) ∨
    eg.node.length ≤ 1 + stage + stageEndsBeforeRelease inputs

section ReleasedLast

variable {eg : EGDefinition F} {stage : Int} {inputs : List (Input F)}

omit [FloatArith F] in
theorem releasedLast_stageEnd (sampleRate : Nat) :
    ReleasedLast eg stage (.update .stageEnd sampleRate :: inputs) ↔
      ReleasedLast eg (stage + 1) inputs := by
  have hcount : stageEndsBeforeRelease (.update .stageEnd sampleRate :: inputs) =
      stageEndsBeforeRelease inputs + 1 := List.countP_cons_of_pos rfl
  unfold ReleasedLast
  rw [hcount, List.forall_mem_cons, and_iff_right (fun h => nomatch h)]
  refine or_congr_right ?_
  omega

omit [FloatArith F] in
theorem releasedLast_release (sampleRate : Nat) :
    ReleasedLast eg stage (.update .release sampleRate :: inputs) ↔ eg.node.length ≤ 1 + stage := by
  simp [ReleasedLast, stageEndsBeforeRelease, releases]

omit [FloatArith F] in
theorem releasedLast_other {input : Input F} (hrelease : releases input = false)
    (hend : endsStage input = false) :
    ReleasedLast eg stage (input :: inputs) ↔ ReleasedLast eg stage inputs := by
  simp [ReleasedLast, stageEndsBeforeRelease, hrelease, hend]

omit [FloatArith F] in
/-- Of all sequences this holds only of one or two nodes. -/
theorem forall_releasedLast_iff (eg : EGDefinition F) :
    (∀ inputs : List (Input F), ReleasedLast eg 1 inputs) ↔ eg.node.length ≤ 2 := by
  constructor
  · intro h
    have hrelease := (releasedLast_release 0).mp (h [.update .release 0])
    omega
  · intro hnode inputs
    exact .inr (by omega)

end ReleasedLast

namespace EG

variable {eg : EGDefinition F}

/-- Without a node after the sustain node, each stage end goes one node further. -/
theorem foldlM_isSome_iff (hsustain : ¬ SustainInside eg) (inputs : List (Input F)) :
    ∀ {e : EG F}, e.egStage = .main → e.gotRelease = false →
      1 ≤ e.stage → e.stage < eg.node.length →
      ((inputs.foldlM (step eg) e).isSome ↔ ReleasedLast eg e.stage inputs) := by
  induction inputs with
  | nil => exact fun _ _ _ _ => iff_of_true rfl (.inl fun _ h => nomatch h)
  | cons input inputs ih =>
      intro e hmain hgot hlow hhigh
      rw [List.foldlM_cons]
      -- the run ends at the last node
      have hended {event : EgEvent} {sampleRate : Nat} {e₁ : EG F}
          (hstep : e.step eg input = e₁.leaveStage eg event sampleRate)
          (hlast : e₁.stage = eg.node.length - 1) :
          (e.step eg input >>= fun e' => inputs.foldlM (step eg) e').isSome := by
        obtain ⟨e', hleft, hend⟩ := leaveStage_of_last eg sampleRate event hlast
        rw [hstep, hleft]
        exact (Steady.of_ended hend).run inputs
      cases input with
      | render level stepsLeft =>
          rw [releasedLast_other rfl rfl]
          exact ih hmain hgot hlow hhigh
      | update event sampleRate =>
          have hstep := update_of_main eg sampleRate event hmain
          cases event with
          | cancelRelease | holdEnd =>
              rw [releasedLast_other rfl rfl]
              have hstays : e.step eg (.update _ sampleRate) = some e := hstep.trans (by simp)
              rw [hstays]
              exact ih hmain hgot hlow hhigh
          | stageEnd =>
              rw [releasedLast_stageEnd]
              have hstep : e.step eg (.update .stageEnd sampleRate) =
                  e.leaveStage eg .stageEnd sampleRate := hstep.trans (by simp)
              by_cases hlast : e.stage = eg.node.length - 1
              · exact iff_of_true (hended hstep hlast) (.inr (by omega))
              · obtain ⟨e', hleft, hbase, hgot', hstage⟩ :=
                  leaveStage_stageEnd eg sampleRate (e := e) (by omega) (by omega)
                have hnot : ¬ (e.stage = eg.sustain ∧ e.stage ≠ 0) := fun h =>
                  hsustain ⟨by omega, by omega⟩
                rw [if_neg hnot] at hstage
                rw [hstep, hleft, ← hstage]
                exact ih (hbase.trans hmain) (hgot'.trans hgot) (by omega) (by omega)
          | release =>
              rw [releasedLast_release]
              have hstep : e.step eg (.update .release sampleRate) =
                  { e with gotRelease := true }.leaveStage eg .release sampleRate :=
                hstep.trans (by simp [hgot])
              by_cases hlast : e.stage = eg.node.length - 1
              · exact iff_of_true (hended hstep hlast) (by omega)
              · have houtside : eg.sustain + 1 < 1 ∨ eg.node.length ≤ eg.sustain + 1 := by
                  unfold SustainInside at hsustain
                  omega
                have houtside : e.step eg (.update .release sampleRate) = none :=
                  hstep.trans
                    ((leaveStage_release eg sampleRate (e := { e with gotRelease := true })
                      hlast).trans
                      (enterStage_of_outside eg sampleRate houtside))
                rw [houtside]
                exact iff_of_false (by simp) (by omega)

/-- `trigger()` enters the node after the first one, if there is one. -/
theorem trigger_of_nodes (sampleRate velocity : Nat) (e : EG F) (hnode : 2 ≤ eg.node.length) :
    ∃ e', e.trigger eg sampleRate velocity = some e' ∧
      e'.egStage = .main ∧ e'.gotRelease = false ∧ e'.stage = 1 := by
  unfold trigger
  rw [update_of_main eg sampleRate .stageEnd rfl, if_neg (by simp), if_pos rfl]
  obtain ⟨e', hleft, hbase, hgot, hstage⟩ := leaveStage_stageEnd eg sampleRate
    (e := { e with
      stage := 0
      timeCoeff := Gig.FloatArith.exp (0.0054578518 * ofInt velocity)
      gotRelease := false
      egStage := .main }) (by simp) (by simp; omega)
  exact ⟨e', hleft, hbase, hgot, hstage.trans (by simp)⟩

theorem trigger_of_single (sampleRate velocity : Nat) (e : EG F) (hnode : eg.node.length = 1) :
    ∃ e', e.trigger eg sampleRate velocity = some e' ∧ e'.egStage ≠ .main := by
  unfold trigger
  rw [update_of_main eg sampleRate .stageEnd rfl, if_neg (by simp), if_pos rfl]
  exact leaveStage_of_last eg sampleRate .stageEnd (by simp [hnode])

theorem run_isSome_iff_releasedLast (sampleRate velocity : Nat) (inputs : List (Input F)) (e : EG F)
    (hnode : 2 ≤ eg.node.length) (hsustain : ¬ SustainInside eg) :
    (e.run eg sampleRate velocity inputs).isSome ↔ ReleasedLast eg 1 inputs := by
  obtain ⟨e', htriggered, hmain, hgot, hstage⟩ := trigger_of_nodes sampleRate velocity e hnode
  rw [run, htriggered, ← hstage]
  exact foldlM_isSome_iff hsustain inputs hmain hgot (by omega) (by omega)

/-- The accesses stay within the nodes just if the sustain node has a successor, or if the first
release finds the generator at the last node. -/
theorem run_isSome_iff (eg : EGDefinition F) (sampleRate velocity : Nat) (inputs : List (Input F))
    (e : EG F) (hnode : eg.node ≠ []) :
    (e.run eg sampleRate velocity inputs).isSome ↔
      SustainInside eg ∨ ReleasedLast eg 1 inputs := by
  have hpos := List.length_pos_of_ne_nil hnode
  by_cases hsingle : eg.node.length = 1
  · obtain ⟨e', htriggered, hended⟩ := trigger_of_single sampleRate velocity e hsingle
    rw [run, htriggered]
    exact iff_of_true ((Steady.of_ended hended).run inputs) (.inr (.inr (by omega)))
  · have hnodes : 2 ≤ eg.node.length := by omega
    by_cases hsustain : SustainInside eg
    · obtain ⟨e', htriggered, -, -, hstage⟩ := trigger_of_nodes sampleRate velocity e hnodes
      have hsteady : Steady eg e' := fun _ => ⟨by omega, .inl hsustain⟩
      rw [run, htriggered]
      exact iff_of_true (hsteady.run inputs) (.inl hsustain)
    · rw [or_iff_right hsustain]
      exact run_isSome_iff_releasedLast sampleRate velocity inputs e hnodes hsustain

/-- A generator that was never triggered. -/
def unused : EG ℚ where
  level := 0
  coeff := 0
  offset := 0
  exponent := 0
  x := 0
  xDelta := 0
  stepsLeft := 0
  segment := .segmentEnd
  egStage := .stageEnd
  fadeOutCoeff := -1
  stage := 0
  timeCoeff := 1
  gotRelease := false

theorem run_isSome_sustained :
    letI := Gig.EGADSR.ratArith
    (unused.run ⟨[newNode, newNode, newNode], 1⟩ 44100 64 [.update .release 44100]).isSome :=
  letI := Gig.EGADSR.ratArith
  (run_isSome_iff ⟨[newNode, newNode, newNode], 1⟩ _ _ _ _ (by simp)).mpr
    (.inl (show SustainInside _ from by decide))

end EG

/-! ## What files may say -/

theorem change_nil {α : Type} (new : α) (n : Nat) (f : α → Option α) :
    change new n f [] = (f new).map fun a => List.replicate n new ++ [a] := by
  have hlist : ([] : List α) ++ List.replicate ((n : Int) + 1 - ([] : List α).length).toNat new =
      List.replicate (n + 1) new := by
    rw [List.nil_append]
    congr 1
  have helement : element (List.replicate (n + 1) new) n = some new := by
    rw [element, if_pos (by omega)]
    simp
  unfold change
  rw [hlist]
  simp only [helement, Option.bind_eq_bind, Option.bind_some]
  cases f new with
  | none => rfl
  | some a => simp [List.replicate_succ']

/-- A file can give an envelope any number of nodes and any sustain node. -/
theorem exists_parsed (n : Nat) (sustain : Int) :
    ∃ eg : EGDefinition F,
      [EgOpcode.node 0 n .time 1.0, .sustain 0 sustain].foldlM pushOpcode [] = some [eg] ∧
        eg.node.length = n + 1 ∧ eg.sustain = sustain := by
  have hnode : pushOpcode [] (.node 0 n .time (1.0 : F)) =
      some [⟨List.replicate n newNode ++ [NodeMember.assign 1.0 newNode .time], 0⟩] := by
    show change newEG (0 : Nat) _ [] = _
    rw [change_nil]
    show ((change newNode n _ []).bind _).map _ = _
    rw [change_nil]
    rfl
  refine ⟨⟨List.replicate n newNode ++ [NodeMember.assign 1.0 newNode .time], sustain⟩, ?_, by simp,
    rfl⟩
  rw [List.foldlM_cons, hnode]
  rfl

/-- A release at the second node of `eg0_time2=1 eg0_sustain=5`. -/
theorem not_run_isSome : ¬ ∀ (_ : FloatArith ℚ) (opcodes : List (EgOpcode ℚ))
    (egs : List (EGDefinition ℚ)), opcodes.foldlM pushOpcode [] = some egs →
      ∀ eg ∈ egs, eg.node ≠ [] → ∀ (sampleRate velocity : Nat) (inputs : List (Input ℚ)) (e : EG ℚ),
        (e.run eg sampleRate velocity inputs).isSome := by
  intro h
  let _ : FloatArith ℚ := Gig.EGADSR.ratArith
  obtain ⟨eg, hparsed, hlength, hsustain⟩ := exists_parsed (F := ℚ) 2 5
  have hnode : eg.node ≠ [] := List.ne_nil_of_length_pos (by omega)
  have hsome := h _ _ _ hparsed eg List.mem_cons_self hnode 44100 64 [.update .release 44100]
    EG.unused
  have hlast := (EG.run_isSome_iff_releasedLast 44100 64 _ EG.unused (by omega) (by
    unfold EG.SustainInside
    omega)).mp hsome
  rw [releasedLast_release] at hlast
  omega

end Envelope

end Sfz

end LinuxSampler
