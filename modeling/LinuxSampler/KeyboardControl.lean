import LinuxSampler.KeyboardEngine

/-!
# Controllers and audio fragments

The hard coded MIDI controllers, the RPNs, and one audio fragment: what an
engine does with its keys from the import of the events to the cleanup.
-/

namespace LinuxSampler

namespace Keyboards

variable {C : Type*} [DecidableEq C]

/-! ## Script calls -/

def freeEventAt (s : Keyboards C) : EventPlace C → Keyboards C
  | .pending c n => s.onChannel c fun ch => { ch with events := ch.events.eraseIdx n }
  | .key c k n => s.onChannel c (·.modifyKey k (·.freeEvent n))
  | .stolen n => { s with voiceStealingQueue := s.voiceStealingQueue.eraseIdx n }

def callScript (s : Keyboards C) : ScriptCall C → Keyboards C
  | .ignoreEvent event => s.freeEventAt event
  | .ignoreNote id event =>
      match s.noteByID id with
      | some _ => { s with notes := s.notes.eraseP (·.id = id) }.freeEventAt event
      | none => s
  | .scheduleNote c pools e => (s.launchNewNote pools c e).1

/-! ## RPN -/

/-- Coarse tuning releases all voices, so that there are no hanging notes. -/
def processHardcodedRpn (o : KeyOutcome C) (c : C) (e : KeyEvent) (s : Keyboards C) :
    Keyboards C :=
  if e.parameter = 2 then
    let valueMSB := e.value / 128 % 256
    let transpose := min ((valueMSB : ℤ) - 64) 24
    let transpose := max transpose (-24)
    s.onChannel c fun ch => { ch with globalTranspose := transpose }.releaseAllVoices o.alloc e
  else if e.parameter = 16383 then s.onChannel c (·.resetMidiRpnParameter)
  else s

/-- The other NRPNs change the volume, the panning and the sends of a key. -/
def processHardcodedNrpn (c : C) (e : KeyEvent) (s : Keyboards C) : Keyboards C :=
  if e.parameter / 128 % 256 = 0x7f ∧ e.parameter % 128 = 0x7f then
    s.onChannel c (·.resetMidiNrpnParameter)
  else s

/-- `set` changes the data of the parameter. If `skip` is true then the data
entry goes on with the next event. -/
def enterRpn (set : ParamNumber → ParamNumber) (skip : Bool) (o : KeyOutcome C) (c : C)
    (e : KeyEvent) (s : Keyboards C) : Keyboards C :=
  let s := s.onChannel c fun ch => { ch with rpn := set ch.rpn }
  if skip then s
  else
    let p := (s.channel c).rpn
    let e := { e with type := .rpn, parameter := p.parameter.getD 0, value := p.data.toNat }
    let s := o.script.foldl callScript s
    if o.dropped then s else s.processHardcodedRpn o c e

def enterNrpn (set : ParamNumber → ParamNumber) (skip : Bool) (o : KeyOutcome C) (c : C)
    (e : KeyEvent) (s : Keyboards C) : Keyboards C :=
  let s := s.onChannel c fun ch => { ch with nrpn := set ch.nrpn }
  if skip then s
  else
    let p := (s.channel c).nrpn
    let e := { e with type := .nrpn, parameter := p.parameter.getD 0, value := p.data.toNat }
    let s := o.script.foldl callScript s
    if o.dropped then s else s.processHardcodedNrpn c e

/-- Data entry for the parameter number that was sent. -/
def enterData (set : ParamNumber → ParamNumber) (skip : Bool) (o : KeyOutcome C) (c : C)
    (e : KeyEvent) (s : Keyboards C) : Keyboards C :=
  if (s.channel c).rpn.parameter.isSome then
    (s.enterRpn set skip o c e).onChannel c (·.resetParameters true false)
  else if (s.channel c).nrpn.parameter.isSome then
    (s.enterNrpn set skip o c e).onChannel c (·.resetParameters false true)
  else s.onChannel c (·.resetParameters false false)

/-- The next event is data entry LSB. -/
def isNextDataLsb (s : Keyboards C) (c : C) : Bool :=
  match (s.channel c).events with
  | [] => false
  | e :: _ => e.type = .control_change && e.controller = 38

/-! ## Pedals -/

/-- The body of the loop of `ProcessSustainPedalUp()`. A control change has no
parent note. -/
def releaseBySustain (o : KeyOutcome C) (c : C) (e : KeyEvent) (s : Keyboards C) (k : Key) :
    Keyboards C :=
  if !(s.key c k).keyPressed && (s.channel c).shouldReleaseVoice k && o.alloc k then
    let t := (s.key c k).releaseTrigger
    let n := (s.key c k).events.length
    let velocity := if t.sustainKeyvelocity then (s.key c k).velocity else 127
    let e := { e with type := .release_key, key := k, velocity := velocity, parentNoteID := 0 }
    let s := s.onChannel c (·.append k e)
    if t.sustain then s.processReleaseTrigger o c k n e else s
  else s

def processSustainPedalUp (o : KeyOutcome C) (c : C) (e : KeyEvent) (s : Keyboards C) :
    Keyboards C :=
  (s.channel c).activeKeys.foldl (releaseBySustain o c e) s

/-- Controller 64. On a muted channel only the state of the pedal changes. -/
def processSustain (o : KeyOutcome C) (c : C) (e : KeyEvent) (s : Keyboards C) : Keyboards C :=
  if e.value ≥ 64 ∧ (s.channel c).sustainPedal = false then
    let s := s.onChannel c ({ · with sustainPedal := true })
    if (s.channel c).mute then s
    else s.onChannel c fun ch => (ch.processSustainPedalDown o.alloc e).resetParameters false false
  else if e.value < 64 ∧ (s.channel c).sustainPedal = true then
    let s := s.onChannel c ({ · with sustainPedal := false })
    if (s.channel c).mute then s
    else (s.processSustainPedalUp o c e).onChannel c (·.resetParameters false false)
  else s.onChannel c (·.resetParameters false false)

/-- Controller 66. -/
def processSostenuto (o : KeyOutcome C) (c : C) (e : KeyEvent) (s : Keyboards C) :
    Keyboards C :=
  if e.value ≥ 64 ∧ (s.channel c).sostenutoPedal = false then
    let s := s.onChannel c ({ · with sostenutoPedal := true })
    if (s.channel c).mute then s
    else s.onChannel c fun ch => ch.processSostenutoPedalDown.resetParameters false false
  else if e.value < 64 ∧ (s.channel c).sostenutoPedal = true then
    let s := s.onChannel c ({ · with sostenutoPedal := false })
    if (s.channel c).mute then s
    else s.onChannel c fun ch => (ch.processSostenutoPedalUp o.alloc e).resetParameters false false
  else s.onChannel c (·.resetParameters false false)

/-! ## Controllers -/

/-- The keys do not depend on the other controllers. -/
def processHardcodedControllers (o : KeyOutcome C) (c : C) (e : KeyEvent) (s : Keyboards C) :
    Keyboards C :=
  match e.controller with
  | 6 => s.enterData (·.setDataMsb e.value) (s.isNextDataLsb c) o c e
  | 38 => s.enterData (·.setDataLsb e.value) false o c e
  | 64 => s.processSustain o c e
  | 66 => s.processSostenuto o c e
  | 96 => s.enterData (fun p => p.setData (p.data + 1)) false o c e
  | 97 => s.enterData (fun p => p.setData (p.data - 1)) false o c e
  | 98 => s.onChannel c fun ch =>
      { ch with nrpn := ch.nrpn.setParameterLsb e.value }.resetParameters false true
  | 99 => s.onChannel c fun ch =>
      { ch with nrpn := ch.nrpn.setParameterMsb e.value }.resetParameters false true
  | 100 => s.onChannel c fun ch =>
      { ch with rpn := ch.rpn.setParameterLsb e.value }.resetParameters true false
  | 101 => s.onChannel c fun ch =>
      { ch with rpn := ch.rpn.setParameterMsb e.value }.resetParameters true false
  | 121 => s.onChannel c fun ch => ch.resetControllers.resetParameters false false
  | 123 => s.onChannel c fun ch => (ch.releaseAllVoices o.alloc e).resetParameters false false
  | 126 => s.onChannel c fun ch => { ch with soloMode := true }.resetParameters false false
  | 127 => s.onChannel c fun ch => { ch with soloMode := false }.resetParameters false false
  | _ => s.onChannel c (·.resetParameters false false)

/-- One turn of the loop over the events of the channel. -/
def processEvent (o : KeyOutcome C) (c : C) (s : Keyboards C) : Keyboards C :=
  match (s.channel c).events with
  | [] => s
  | e :: rest =>
      let s := s.onChannel c ({ · with events := rest })
      match e.type with
      | .note_on | .play_note =>
          (s.processNoteOn o c e).onChannel c (·.resetParameters false false)
      | .note_off | .stop_note =>
          (s.processNoteOff o c e).onChannel c (·.resetParameters false false)
      | .kill_note | .note_synth_param =>
          (s.moveToNoteKey c e).onChannel c (·.resetParameters false false)
      | .control_change => s.processHardcodedControllers o c e
      | .rpn => s.processHardcodedRpn o c e
      | .nrpn => s.processHardcodedNrpn c e
      | _ => s.onChannel c (·.resetParameters false false)

/-- A control change triggers a note-on or a note-off, by a MIDI rule of a gig
instrument. -/
def processCtrlTrigger (o : KeyOutcome C) (c : C) (e : KeyEvent) (s : Keyboards C) :
    Keyboards C :=
  if (s.channel c).hasInstrument then
    if e.type = .note_on then s.processNoteOn o c e else s.processNoteOff o c e
  else s

/-- A control change launches the voices of sfz regions, on key 60. -/
def processRegions (o : KeyOutcome C) (c : C) (e : KeyEvent) (s : Keyboards C) : Keyboards C :=
  if (s.channel c).hasInstrument then
    let e := { e with key := 60, velocity := 127 }
    let launched := s.launchNewNote o.pools c e
    let noteID := launched.2
    if noteID = 0 then launched.1
    else (o.launches 60).foldl (launchVoice false c { e with noteID := noteID }) launched.1
  else s

/-! ## Import -/

/-- `note` is the note number of a note event. -/
def importEvent (alloc : Bool) (pools : NotePools) (c : C) (note : ℕ) (e : KeyEvent)
    (s : Keyboards C) : Keyboards C :=
  if alloc then
    match (s.channel c).applyTranspose note e with
    | none => s
    | some e =>
        if e.type = .note_on then
          let launched := s.launchNewNote pools c e
          let noteID := launched.2
          if noteID = 0 then launched.1
          else launched.1.onChannel c fun ch =>
            { ch with events := ch.events ++ [{ e with noteID := noteID }] }
        else s.onChannel c fun ch => { ch with events := ch.events ++ [e] }
  else s

/-- A delayed event that is due is moved to position `n`. -/
def insertDelayed (c : C) (n : ℕ) (e : KeyEvent) (s : Keyboards C) : Keyboards C :=
  s.onChannel c fun ch => { ch with events := ch.events.take n ++ e :: ch.events.drop n }

/-! ## The end of the fragment -/

def finishTheft (v : StolenVoice C) (s : Keyboards C) : Keyboards C :=
  s.onChannel v.channel (·.modifyKey v.event.key (·.finishTheft))

/-- One turn of the loop of `RenderStolenVoices()`. `answer` is what the launch of
the voice ends with, but `LaunchVoice()` gives no voice without the note of the event:
no new note is launched for it here. -/
def renderStolenVoice (answer : Launch) (v : StolenVoice C) (s : Keyboards C) : Keyboards C :=
  if !(s.channel v.channel).hasInstrument then s
  else
    match answer with
    | .started flags =>
        if (s.noteByID v.event.noteID).isSome then
          (s.launchVoice false v.channel v.event (.started flags)).finishTheft v
        else s.finishTheft v
    | _ => s.finishTheft v

def renderStolenVoices (answer : ℕ → Launch) (s : Keyboards C) : Keyboards C :=
  s.voiceStealingQueue.zipIdx.foldl (fun s v => s.renderStolenVoice (answer v.2) v.1) s

/-- `PostProcess()` of all channels. The notes that `silent` names have no active
voices left. -/
def postProcess (silent : ℕ → Bool) (s : Keyboards C) : Keyboards C :=
  let notes := s.notes.filter fun note =>
    !(silent note.id && decide (note.hostKey ∈ (s.channel note.channel).activeKeys))
  { s with
    notes := notes
    channel := fun c =>
      ((s.channel c).freeAllInactiveKeys fun k =>
        notes.any fun note => note.channel = c && note.hostKey = k).clearEventListsOfCurrentFragment }

/-- What follows on the processing of the events in `RenderAudio()`. -/
def endFragment (answer : ℕ → Launch) (silent : ℕ → Bool) (s : Keyboards C) :
    Keyboards C :=
  { (s.renderStolenVoices answer).postProcess silent with
    voiceStealingQueue := []
    rendering := false }

/-! ## Resets -/

/-- `ResetInternal()` of a channel. -/
def resetInternal (c : C) (s : Keyboards C) : Keyboards C :=
  { s with notes := s.notes.filter (·.channel ≠ c) }.onChannel c (·.reset)

/-- `ResetInternal()` of the engine. -/
def resetEngine (s : Keyboards C) : Keyboards C :=
  { s with
    notes := []
    voiceStealingQueue := []
    channel := fun c => (s.channel c).reset }

end Keyboards

/-- What happens to the keys. In an audio fragment the events are imported and
processed and scripts are run; the resets and the change of the instrument are
kept out of it. -/
inductive KeyAction (C : Type*) where
  | startFragment
  | importEvent (alloc : Bool) (pools : NotePools) (c : C) (note : ℕ) (e : KeyEvent)
  | callScript (call : ScriptCall C)
  | insertDelayed (c : C) (n : ℕ) (e : KeyEvent)
  | processEvent (o : KeyOutcome C) (c : C)
  | processCtrlTrigger (o : KeyOutcome C) (c : C) (e : KeyEvent)
  | processRegions (o : KeyOutcome C) (c : C) (e : KeyEvent)
  | endFragment (answer : ℕ → Launch) (silent : ℕ → Bool)
  | resetInternal (c : C)
  | resetEngine
  | resetControllers (c : C)
  | setInstrument (c : C) (loaded : Bool)
  | setMute (c : C) (mute : Bool)

namespace Keyboards

variable {C : Type*} [DecidableEq C]

/-- The events that MIDI input queues; they have no IDs yet. -/
def IsMidi (e : KeyEvent) : Prop :=
  (e.type = .note_on ∨ e.type = .note_off ∨ e.type = .control_change ∨ e.type = .pitchbend ∨
    e.type = .channel_pressure ∨ e.type = .note_pressure) ∧
  e.noteID = 0 ∧ e.parentNoteID = 0

instance (e : KeyEvent) : Decidable (IsMidi e) := inferInstanceAs (Decidable (_ ∧ _))

/-- All events are processed before a fragment ends. -/
def Enabled (s : Keyboards C) : KeyAction C → Prop
  | .startFragment => s.rendering = false
  | .importEvent _ _ _ _ e => s.rendering = true ∧ IsMidi e
  | .callScript _ => s.rendering = true
  | .insertDelayed _ _ _ => s.rendering = true
  | .processEvent _ _ => s.rendering = true
  | .processCtrlTrigger _ _ e => s.rendering = true ∧
      (e.type = .note_on ∨ e.type = .note_off) ∧ e.noteID = 0 ∧ e.parentNoteID = 0
  | .processRegions _ _ e => s.rendering = true ∧ e.type = .control_change ∧ e.parentNoteID = 0
  | .endFragment _ _ => s.rendering = true ∧ ∀ c, (s.channel c).events = []
  | .resetInternal _ => s.rendering = false
  | .resetEngine => s.rendering = false
  | .resetControllers _ => s.rendering = false
  | .setInstrument _ _ => s.rendering = false
  | .setMute _ _ => True

instance [Fintype C] (s : Keyboards C) : ∀ a : KeyAction C, Decidable (s.Enabled a)
  | .startFragment => inferInstanceAs (Decidable (s.rendering = false))
  | .importEvent _ _ _ _ _ => inferInstanceAs (Decidable (_ ∧ _))
  | .callScript _ => inferInstanceAs (Decidable (s.rendering = true))
  | .insertDelayed _ _ _ => inferInstanceAs (Decidable (s.rendering = true))
  | .processEvent _ _ => inferInstanceAs (Decidable (s.rendering = true))
  | .processCtrlTrigger _ _ _ => inferInstanceAs (Decidable (_ ∧ _))
  | .processRegions _ _ _ => inferInstanceAs (Decidable (_ ∧ _))
  | .endFragment _ _ =>
      inferInstanceAs (Decidable (s.rendering = true ∧ ∀ c, (s.channel c).events = []))
  | .resetInternal _ => inferInstanceAs (Decidable (s.rendering = false))
  | .resetEngine => inferInstanceAs (Decidable (s.rendering = false))
  | .resetControllers _ => inferInstanceAs (Decidable (s.rendering = false))
  | .setInstrument _ _ => inferInstanceAs (Decidable (s.rendering = false))
  | .setMute _ _ => .isTrue trivial

def step (s : Keyboards C) : KeyAction C → Keyboards C
  | .startFragment => { s with rendering := true }
  | .importEvent alloc pools c note e => s.importEvent alloc pools c note e
  | .callScript call => s.callScript call
  | .insertDelayed c n e => s.insertDelayed c n e
  | .processEvent o c => s.processEvent o c
  | .processCtrlTrigger o c e => s.processCtrlTrigger o c e
  | .processRegions o c e => s.processRegions o c e
  | .endFragment answer silent => s.endFragment answer silent
  | .resetInternal c => s.resetInternal c
  | .resetEngine => s.resetEngine
  | .resetControllers c => s.onChannel c (·.resetControllers)
  | .setInstrument c loaded => s.onChannel c ({ · with hasInstrument := loaded })
  | .setMute c mute => s.onChannel c ({ · with mute := mute })

variable (C) in
/-- The keys of an engine, from its creation. -/
def system : StepSystem (Keyboards C) (KeyAction C) where
  init := init
  enabled := Enabled
  step := step

instance [Fintype C] (s : Keyboards C) (a : KeyAction C) : Decidable ((system C).enabled s a) :=
  inferInstanceAs (Decidable (s.Enabled a))

end Keyboards

end LinuxSampler
