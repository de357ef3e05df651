import LinuxSampler.FsPath
import Mathlib.Data.Rat.Defs

/-!
# Definitions of the sfz format

`Definition` of `engines/sfz/sfz.h` as far as it holds single values: what
an opcode that is assigned one value sets. Its members are numbers, names
and texts, arrays with one value for each controller or velocity, and the
lists of envelope generators and low frequency oscillators, whose elements
have members of their own. A list that is too short for an element has it
with its initial values.

`defaults` is `ContainerDefinition::Reset()` and `copyValuesToDefinition`
is `CopyValuesToDefinition()`. Each value is copied from its own, but for
`xfin_hivel` (`copyValuesToDefinition_eq`).
-/

namespace LinuxSampler

namespace Sfz

/-- The names of the enumerations. -/
inductive Enumerator where
  | velCurrent | velPrevious
  | triggerAttack | triggerRelease | triggerFirst | triggerLegato
  | offFast | offNormal
  | noLoop | oneShot | loopContinuous | loopSustain | loopUnset
  | gain | power
  | lpf1p | hpf1p | bpf1p | brf1p | apf1p | lpf2p | hpf2p | bpf2p | brf2p | pkf2p
  | lpf4p | hpf4p | lpf6p | hpf6p
  deriving DecidableEq

/-- A value of a member; `nothing` is that of an `optional` which is unset. -/
inductive Value where
  | number (x : ℚ)
  | enumerator (e : Enumerator)
  | text (s : Bytes)
  | nothing
  deriving DecidableEq

/-- The members with a single value. -/
inductive Single where
  | sample | lochan | hichan | lokey | hikey | lovel | hivel | lobend | hibend | lobpm | hibpm
  | lochanaft | hichanaft | lopolyaft | hipolyaft | loprog | hiprog | lorand | hirand | lotimer
  | hitimer | seqLength | seqPosition | swLokey | swHikey | swLast | swDown | swUp | swPrevious
  | swVel | trigger | group | offBy | offMode | count | delay | delayRandom | delayBeats
  | stopBeats | delaySamples | end_ | loopCrossfade | offset | offsetRandom | loopMode | loopStart
  | loopEnd | syncBeats | syncOffset | volume | amplitude | pan | width | position | ampKeytrack
  | ampKeycenter | ampVeltrack | ampRandom | rtDecay | xfinLokey | xfinHikey | xfoutLokey
  | xfoutHikey | xfKeycurve | xfinLovel | xfinHivel | xfoutLovel | xfoutHivel | xfVelcurve
  | xfCccurve | transpose | tune | pitchKeycenter | pitchKeytrack | pitchVeltrack | pitchRandom
  | bendUp | bendDown | bendStep | filType | fil2Type | cutoff | cutoff2 | cutoffChanaft
  | cutoff2Chanaft | cutoffPolyaft | cutoff2Polyaft | resonance | resonance2 | filKeytrack
  | fil2Keytrack | filKeycenter | fil2Keycenter | filVeltrack | fil2Veltrack | filRandom
  | fil2Random | eq1Freq | eq2Freq | eq3Freq | eq1Vel2freq | eq2Vel2freq | eq3Vel2freq | eq1Bw
  | eq2Bw | eq3Bw | eq1Gain | eq2Gain | eq3Gain | eq1Vel2gain | eq2Vel2gain | eq3Vel2gain
  | ampegDelay | ampegStart | ampegAttack | ampegHold | ampegDecay | ampegSustain | ampegRelease
  | ampegVel2delay | ampegVel2attack | ampegVel2hold | ampegVel2decay | ampegVel2sustain
  | ampegVel2release | filegDelay | filegStart | filegAttack | filegHold | filegDecay
  | filegSustain | filegRelease | filegVel2delay | filegVel2attack | filegVel2hold
  | filegVel2decay | filegVel2sustain | filegVel2release | pitchegDelay | pitchegStart
  | pitchegAttack | pitchegHold | pitchegDecay | pitchegSustain | pitchegRelease
  | pitchegVel2delay | pitchegVel2attack | pitchegVel2hold | pitchegVel2decay | pitchegVel2sustain
  | pitchegVel2release | filegDepth | pitchegDepth | amplfoDelay | amplfoFade | amplfoFreq
  | amplfoDepth | fillfoDelay | fillfoFade | fillfoFreq | fillfoDepth | pitchlfoDelay
  | pitchlfoFade | pitchlfoFreq | pitchlfoDepth
  deriving DecidableEq

/-- The members with 128 values. -/
inductive ArrayMember where
  | locc | hicc | startLocc | startHicc | stopLocc | stopHicc | onLocc | onHicc | delayOncc
  | delaySamplesOncc | offsetOncc | ampVelcurve | gainOncc | xfinLocc | xfinHicc | xfoutLocc
  | xfoutHicc | eq1FreqOncc | eq2FreqOncc | eq3FreqOncc | eq1BwOncc | eq2BwOncc | eq3BwOncc
  | eq1GainOncc | eq2GainOncc | eq3GainOncc
  deriving DecidableEq

/-- The members of `EqImpl`. -/
inductive EqMember where
  | eq1freq | eq2freq | eq3freq | eq1bw | eq2bw | eq3bw | eq1gain | eq2gain | eq3gain
  deriving DecidableEq

inductive NodeMember where
  | time | level | shape | curve
  deriving DecidableEq

inductive EGMember where
  | eq (m : EqMember)
  | sustain | loop | loopCount | amplitude | volume | cutoff | pitch | resonance | pan | panCurve
  deriving DecidableEq

inductive LFOMember where
  | eq (m : EqMember)
  | delay | freq | fade | phase | wave | volume | pitch | cutoff | resonance | pan
  deriving DecidableEq

/-- Where a definition has a value. -/
inductive Place where
  | single (s : Single)
  | element (a : ArrayMember) (i : Fin 128)
  | eg (x : Nat) (m : EGMember)
  | egnode (x y : Nat) (m : NodeMember)
  | lfo (x : Nat) (m : LFOMember)
  deriving DecidableEq

abbrev Definition := Place → Value

/-! ## Defaults -/

def defaultSingle : Single → Value
  | .sample => .text []
  | .lochan => .number 1
  | .hichan => .number 16
  | .lokey => .number 0
  | .hikey => .number 127
  | .lovel => .number 0
  | .hivel => .number 127
  | .lobend => .number (-8192)
  | .hibend => .number 8192
  | .lobpm => .number 0
  | .hibpm => .number 500
  | .lochanaft => .number 0
  | .hichanaft => .number 127
  | .lopolyaft => .number 0
  | .hipolyaft => .number 127
  | .loprog => .number 0
  | .hiprog => .number 127
  | .lorand => .number 0
  | .hirand => .number 1
  | .lotimer | .hitimer => .number 0
  | .seqLength | .seqPosition => .number 1
  | .swLokey | .swHikey | .swLast | .swDown | .swUp | .swPrevious => .number (-1)
  | .swVel => .enumerator .velCurrent
  | .trigger => .enumerator .triggerAttack
  | .group | .offBy => .number 0
  | .offMode => .enumerator .offFast
  | .count | .delay | .delayRandom | .delayBeats | .stopBeats | .delaySamples => .nothing
  | .end_ => .number 0
  | .loopCrossfade | .offset | .offsetRandom => .nothing
  | .loopMode => .enumerator .loopUnset
  | .loopStart | .loopEnd | .syncBeats | .syncOffset => .nothing
  | .volume => .number 0
  | .amplitude => .number 100
  | .pan => .number 0
  | .width => .number 100
  | .position | .ampKeytrack => .number 0
  | .ampKeycenter => .number 60
  | .ampVeltrack => .number 100
  | .ampRandom | .rtDecay | .xfinLokey | .xfinHikey => .number 0
  | .xfoutLokey | .xfoutHikey => .number 127
  | .xfKeycurve => .enumerator .power
  | .xfinLovel | .xfinHivel => .number 0
  | .xfoutLovel | .xfoutHivel => .number 127
  | .xfVelcurve | .xfCccurve => .enumerator .power
  | .transpose | .tune => .number 0
  | .pitchKeycenter => .number 60
  | .pitchKeytrack => .number 100
  | .pitchVeltrack | .pitchRandom => .number 0
  | .bendUp => .number 200
  | .bendDown => .number (-200)
  | .bendStep => .number 1
  | .filType => .enumerator .lpf2p
  | .cutoff => .nothing
  | .cutoffChanaft | .cutoffPolyaft | .resonance | .filKeytrack => .number 0
  | .filKeycenter => .number 60
  | .filVeltrack | .filRandom => .number 0
  | .fil2Type => .enumerator .lpf2p
  | .cutoff2 => .nothing
  | .cutoff2Chanaft | .cutoff2Polyaft | .resonance2 | .fil2Keytrack => .number 0
  | .fil2Keycenter => .number 60
  | .fil2Veltrack | .fil2Random => .number 0
  | .eq1Freq => .number 50
  | .eq2Freq => .number 500
  | .eq3Freq => .number 5000
  | .eq1Vel2freq | .eq2Vel2freq | .eq3Vel2freq => .number 0
  | .eq1Bw | .eq2Bw | .eq3Bw => .number 1
  | .eq1Gain | .eq2Gain | .eq3Gain | .eq1Vel2gain | .eq2Vel2gain | .eq3Vel2gain | .ampegDelay
  | .ampegStart | .ampegAttack | .ampegHold | .ampegDecay => .number 0
  | .ampegSustain => .number (-1)
  | .ampegRelease | .ampegVel2delay | .ampegVel2attack | .ampegVel2hold | .ampegVel2decay
  | .ampegVel2sustain | .ampegVel2release | .filegDelay | .filegStart | .filegAttack | .filegHold
  | .filegDecay => .number 0
  | .filegSustain => .number 100
  | .filegRelease | .filegVel2delay | .filegVel2attack | .filegVel2hold | .filegVel2decay
  | .filegVel2sustain | .filegVel2release | .filegDepth | .pitchegDelay | .pitchegStart
  | .pitchegAttack | .pitchegHold | .pitchegDecay => .number 0
  | .pitchegSustain => .number 100
  | .pitchegRelease | .pitchegDepth | .pitchegVel2delay | .pitchegVel2attack | .pitchegVel2hold
  | .pitchegVel2decay | .pitchegVel2sustain | .pitchegVel2release | .amplfoDelay | .amplfoFade =>
      .number 0
  | .amplfoFreq => .number (-1)
  | .amplfoDepth | .fillfoDelay | .fillfoFade => .number 0
  | .fillfoFreq => .number (-1)
  | .fillfoDepth | .pitchlfoDelay | .pitchlfoFade => .number 0
  | .pitchlfoFreq => .number (-1)
  | .pitchlfoDepth => .number 0

def defaultElement : ArrayMember → Value
  | .locc => .number 0
  | .hicc => .number 127
  | .startLocc | .startHicc | .stopLocc | .stopHicc | .onLocc | .onHicc => .number (-1)
  | .delayOncc | .delaySamplesOncc | .offsetOncc => .nothing
  | .ampVelcurve => .number (-1)
  | .gainOncc | .xfinLocc | .xfinHicc | .xfoutLocc | .xfoutHicc => .number 0
  | .eq1FreqOncc | .eq2FreqOncc | .eq3FreqOncc => .number 0
  | .eq1BwOncc | .eq2BwOncc | .eq3BwOncc => .number 0
  | .eq1GainOncc | .eq2GainOncc | .eq3GainOncc => .number 0

/-- `EG::EG()` -/
def defaultEG : EGMember → Value
  | .volume => .number (-200)
  | .panCurve => .number (-1)
  | _ => .number 0

/-- `LFO::LFO()` -/
def defaultLFO : LFOMember → Value
  | .freq => .number (-1)
  | _ => .number 0

/-- `ContainerDefinition::Reset()` -/
def defaults : Definition
  | .single s => defaultSingle s
  | .element a _ => defaultElement a
  | .eg _ m => defaultEG m
  | .egnode _ _ _ => .number 0
  | .lfo _ m => defaultLFO m

/-! ## Copies -/

/-- Which member each member is assigned from. -/
def copiedSingles : List (Single × Single) :=
  [(.sample, .sample), (.lochan, .lochan), (.hichan, .hichan), (.lokey, .lokey),
    (.hikey, .hikey), (.lovel, .lovel), (.hivel, .hivel), (.lobend, .lobend), (.hibend, .hibend),
    (.lobpm, .lobpm), (.hibpm, .hibpm), (.lochanaft, .lochanaft), (.hichanaft, .hichanaft),
    (.lopolyaft, .lopolyaft), (.hipolyaft, .hipolyaft), (.loprog, .loprog), (.hiprog, .hiprog),
    (.lorand, .lorand), (.hirand, .hirand), (.lotimer, .lotimer), (.hitimer, .hitimer),
    (.seqLength, .seqLength), (.seqPosition, .seqPosition), (.swLokey, .swLokey),
    (.swHikey, .swHikey), (.swLast, .swLast), (.swDown, .swDown), (.swUp, .swUp),
    (.swPrevious, .swPrevious), (.swVel, .swVel), (.trigger, .trigger), (.group, .group),
    (.offBy, .offBy), (.offMode, .offMode), (.count, .count), (.delay, .delay),
    (.delayRandom, .delayRandom), (.delayBeats, .delayBeats), (.stopBeats, .stopBeats),
    (.delaySamples, .delaySamples), (.end_, .end_), (.loopCrossfade, .loopCrossfade),
    (.offset, .offset), (.offsetRandom, .offsetRandom), (.loopMode, .loopMode),
    (.loopStart, .loopStart), (.loopEnd, .loopEnd), (.syncBeats, .syncBeats),
    (.syncOffset, .syncOffset), (.volume, .volume), (.amplitude, .amplitude), (.pan, .pan),
    (.width, .width), (.position, .position), (.ampKeytrack, .ampKeytrack),
    (.ampKeycenter, .ampKeycenter), (.ampVeltrack, .ampVeltrack), (.ampRandom, .ampRandom),
    (.rtDecay, .rtDecay), (.xfinLokey, .xfinLokey), (.xfinHikey, .xfinHikey),
    (.xfoutLokey, .xfoutLokey), (.xfoutHikey, .xfoutHikey), (.xfKeycurve, .xfKeycurve),
    (.xfinLovel, .xfinLovel), (.xfinHivel, .xfinLovel), (.xfoutLovel, .xfoutLovel),
    (.xfoutHivel, .xfoutHivel), (.xfVelcurve, .xfVelcurve), (.xfCccurve, .xfCccurve),
    (.transpose, .transpose), (.tune, .tune), (.pitchKeycenter, .pitchKeycenter),
    (.pitchKeytrack, .pitchKeytrack), (.pitchVeltrack, .pitchVeltrack),
    (.pitchRandom, .pitchRandom), (.bendUp, .bendUp), (.bendDown, .bendDown),
    (.bendStep, .bendStep), (.filType, .filType), (.cutoff, .cutoff),
    (.cutoffChanaft, .cutoffChanaft), (.cutoffPolyaft, .cutoffPolyaft), (.resonance, .resonance),
    (.filKeytrack, .filKeytrack), (.filKeycenter, .filKeycenter), (.filVeltrack, .filVeltrack),
    (.filRandom, .filRandom), (.fil2Type, .fil2Type), (.cutoff2, .cutoff2),
    (.cutoff2Chanaft, .cutoff2Chanaft), (.cutoff2Polyaft, .cutoff2Polyaft),
    (.resonance2, .resonance2), (.fil2Keytrack, .fil2Keytrack), (.fil2Keycenter, .fil2Keycenter),
    (.fil2Veltrack, .fil2Veltrack), (.fil2Random, .fil2Random), (.eq1Freq, .eq1Freq),
    (.eq2Freq, .eq2Freq), (.eq3Freq, .eq3Freq), (.eq1Vel2freq, .eq1Vel2freq),
    (.eq2Vel2freq, .eq2Vel2freq), (.eq3Vel2freq, .eq3Vel2freq), (.eq1Bw, .eq1Bw),
    (.eq2Bw, .eq2Bw), (.eq3Bw, .eq3Bw), (.eq1Gain, .eq1Gain), (.eq2Gain, .eq2Gain),
    (.eq3Gain, .eq3Gain), (.eq1Vel2gain, .eq1Vel2gain), (.eq2Vel2gain, .eq2Vel2gain),
    (.eq3Vel2gain, .eq3Vel2gain), (.ampegDelay, .ampegDelay), (.ampegStart, .ampegStart),
    (.ampegAttack, .ampegAttack), (.ampegHold, .ampegHold), (.ampegDecay, .ampegDecay),
    (.ampegSustain, .ampegSustain), (.ampegRelease, .ampegRelease),
    (.ampegVel2delay, .ampegVel2delay), (.ampegVel2attack, .ampegVel2attack),
    (.ampegVel2hold, .ampegVel2hold), (.ampegVel2decay, .ampegVel2decay),
    (.ampegVel2sustain, .ampegVel2sustain), (.ampegVel2release, .ampegVel2release),
    (.filegDelay, .filegDelay), (.filegStart, .filegStart), (.filegAttack, .filegAttack),
    (.filegHold, .filegHold), (.filegDecay, .filegDecay), (.filegSustain, .filegSustain),
    (.filegRelease, .filegRelease), (.filegDepth, .filegDepth),
    (.filegVel2delay, .filegVel2delay), (.filegVel2attack, .filegVel2attack),
    (.filegVel2hold, .filegVel2hold), (.filegVel2decay, .filegVel2decay),
    (.filegVel2sustain, .filegVel2sustain), (.filegVel2release, .filegVel2release),
    (.pitchegDelay, .pitchegDelay), (.pitchegStart, .pitchegStart),
    (.pitchegAttack, .pitchegAttack), (.pitchegHold, .pitchegHold),
    (.pitchegDecay, .pitchegDecay), (.pitchegSustain, .pitchegSustain),
    (.pitchegRelease, .pitchegRelease), (.pitchegDepth, .pitchegDepth),
    (.pitchegVel2delay, .pitchegVel2delay), (.pitchegVel2attack, .pitchegVel2attack),
    (.pitchegVel2hold, .pitchegVel2hold), (.pitchegVel2decay, .pitchegVel2decay),
    (.pitchegVel2sustain, .pitchegVel2sustain), (.pitchegVel2release, .pitchegVel2release),
    (.amplfoDelay, .amplfoDelay), (.amplfoFade, .amplfoFade), (.amplfoFreq, .amplfoFreq),
    (.amplfoDepth, .amplfoDepth), (.fillfoDelay, .fillfoDelay), (.fillfoFade, .fillfoFade),
    (.fillfoFreq, .fillfoFreq), (.fillfoDepth, .fillfoDepth), (.pitchlfoDelay, .pitchlfoDelay),
    (.pitchlfoFade, .pitchlfoFade), (.pitchlfoFreq, .pitchlfoFreq),
    (.pitchlfoDepth, .pitchlfoDepth)]

def copiedArrays : List (ArrayMember × ArrayMember) :=
  [(.locc, .locc), (.hicc, .hicc), (.startLocc, .startLocc), (.startHicc, .startHicc),
    (.stopLocc, .stopLocc), (.stopHicc, .stopHicc), (.onLocc, .onLocc), (.onHicc, .onHicc),
    (.delayOncc, .delayOncc), (.delaySamplesOncc, .delaySamplesOncc), (.offsetOncc, .offsetOncc),
    (.ampVelcurve, .ampVelcurve), (.gainOncc, .gainOncc), (.xfinLocc, .xfinLocc),
    (.xfinHicc, .xfinHicc), (.xfoutLocc, .xfoutLocc), (.xfoutHicc, .xfoutHicc),
    (.eq1FreqOncc, .eq1FreqOncc), (.eq2FreqOncc, .eq2FreqOncc), (.eq3FreqOncc, .eq3FreqOncc),
    (.eq1BwOncc, .eq1BwOncc), (.eq2BwOncc, .eq2BwOncc), (.eq3BwOncc, .eq3BwOncc),
    (.eq1GainOncc, .eq1GainOncc), (.eq2GainOncc, .eq2GainOncc), (.eq3GainOncc, .eq3GainOncc)]

/-- `ContainerDefinition::CopyValuesToDefinition()`; the elements of the lists are copied
as a whole. -/
def copyValuesToDefinition (container definition : Definition) : Definition
  | .single s =>
      match copiedSingles.lookup s with
      | some source => container (.single source)
      | none => definition (.single s)
  | .element a i =>
      match copiedArrays.lookup a with
      | some source => container (.element source i)
      | none => definition (.element a i)
  | .eg x m => container (.eg x m)
  | .egnode x y m => container (.egnode x y m)
  | .lfo x m => container (.lfo x m)

/-- The place that a place is copied from. -/
def copySource (p : Place) : Place :=
  if p = .single .xfinHivel then .single .xfinLovel else p

theorem lookup_copiedSingles (s : Single) :
    copiedSingles.lookup s = some (if s = .xfinHivel then .xfinLovel else s) := by
  cases s <;> rfl

theorem lookup_copiedArrays (a : ArrayMember) : copiedArrays.lookup a = some a := by
  cases a <;> rfl

/-- Every value is replaced, so that nothing is left of what the definition had. -/
theorem copyValuesToDefinition_eq (container definition : Definition) (p : Place) :
    copyValuesToDefinition container definition p = container (copySource p) := by
  cases p with
  | single s =>
      show (match copiedSingles.lookup s with
        | some source => container (.single source)
        | none => definition (.single s)) = _
      rw [lookup_copiedSingles, copySource]
      by_cases hs : s = .xfinHivel
      · rw [if_pos hs, if_pos (by rw [hs])]
      · rw [if_neg hs, if_neg fun h => hs (Place.single.inj h)]
  | element a i =>
      show (match copiedArrays.lookup a with
        | some source => container (.element source i)
        | none => definition (.element a i)) = _
      rw [lookup_copiedArrays]
      rfl
  | eg x m => rfl
  | egnode x y m => rfl
  | lfo x m => rfl

end Sfz

end LinuxSampler
