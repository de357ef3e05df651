import LinuxSampler.ImportEvents

/-!
# What a SysEx message acts on

The engine with its channels, as far as system exclusive messages read or
change them: the routing of the parts, the controls a message may set, and
the queues that a reset empties. The bytes of the messages wait in a
buffer of their own, apart from their events.
-/

namespace LinuxSampler

/-! ## MIDI channels -/

def midi_chan_10 : ℕ := 9

def midi_chan_none : ℕ := 254

def midi_chan_all : ℕ := 16

def isValidMidiChan (ch : ℕ) : Bool := ch ≤ midi_chan_all

inductive MidiMode where
  | GM
  | GM2
  | GS
  | XG
deriving DecidableEq

inductive AssignMode where
  | single
  | multi
  | instrument
deriving DecidableEq

/-- The parameters of an event. `sent` stands for what was passed to
`SendSysex()` together with the event: the program has no such field, and
no operation below reads it. -/
inductive EventParam (π : Type*) where
  | sysex (Size : ℕ) (pMidiInputPort : π) (sent : List UInt8)
  | cc (Controller Value Channel : UInt8)
deriving DecidableEq

/-- Why a step does not end: a read or a write the program must not make,
a loop without end, or an exception. -/
inductive Abort where
  | nullDereference
  | uninitialised
  | foreignByte
  | staleCache
  | outOfBounds
  | dataAsAddress
  | endless
  | midiInputException
deriving DecidableEq

/-- `PartMode` is a number: a message may set it to any byte. -/
structure EngineChannel (π : Type*) where
  originalMidiChannel : ℕ
  midiChannel : ℕ
  midiInputs : List π
  keyAssignMode : AssignMode
  partMode : ℕ
  bMidiBankMsbReceived : Bool
  uiMidiBankMsb : UInt8
  bMidiBankLsbReceived : Bool
  uiMidiBankLsb : UInt8
  bProgramChangeReceived : Bool
  uiMidiProgram : UInt8
  defaultGsLsb : ℕ
  poweronGsLsb : ℕ
  globalVolume : ℚ
  bStatusChanged : Bool
  eventQueue : RingBuffer (Event (EventParam π))

namespace EngineChannel

variable {π : Type*}

def PART_NORMAL : ℕ := 0

def PART_DRUM : ℕ := 1

def setMidiProgram (Program : UInt8) (c : EngineChannel π) : EngineChannel π :=
  { c with bProgramChangeReceived := true, uiMidiProgram := Program }

def setMidiBankMsb (BankMSB : UInt8) (c : EngineChannel π) : EngineChannel π :=
  { c with bMidiBankMsbReceived := true, uiMidiBankMsb := BankMSB }

def setMidiBankLsb (BankLSB : UInt8) (c : EngineChannel π) : EngineChannel π :=
  { c with bMidiBankLsbReceived := true, uiMidiBankLsb := BankLSB }

/-- `Volume(float f)`. The rounding to a `float` is left out. -/
def volume (f : ℚ) (c : EngineChannel π) : EngineChannel π :=
  { c with globalVolume := f, bStatusChanged := true }

/-- The event is lost when the queue is full. `now` is the time stamp that
`CreateEvent()` gives. -/
def sendControlChange (now : ℤ) (Controller Value MidiChannel : UInt8) (c : EngineChannel π) :
    EngineChannel π :=
  let event : Event (EventParam π) :=
    { type := .control_change
      key := 0
      noteID := 0
      param := .cc Controller Value MidiChannel
      timeStamp := now
      iFragmentPos := -1 }
  if c.eventQueue.writeSpace > 0 then { c with eventQueue := (c.eventQueue.push event).1 } else c

/-- `Connect()`: a port is not connected twice. -/
def connect [DecidableEq π] (connections : List π) (pMidiPort : π) : List π :=
  if pMidiPort ∈ connections then connections else connections ++ [pMidiPort]

/-- The channel is connected to its ports again. -/
def setMidiChannel [DecidableEq π] (mode : MidiMode) (MidiChannel : ℕ) (c : EngineChannel π) :
    Except Abort (EngineChannel π) :=
  if c.midiChannel = MidiChannel then .ok c
  else if ¬ isValidMidiChan MidiChannel then .error .midiInputException
  else
    let c := { c with midiChannel := MidiChannel, originalMidiChannel := MidiChannel }
    let c := if c.midiChannel = midi_chan_10 then
        { c with partMode := PART_DRUM
                 keyAssignMode := if mode = .GS then .single else .instrument }
      else { c with partMode := PART_NORMAL, keyAssignMode := .multi }
    .ok { c with midiInputs := c.midiInputs.foldl connect [] }

/-- `ResetInternal(false)` of the channel. -/
def resetInternal (c : EngineChannel π) : EngineChannel π :=
  { c with eventQueue := c.eventQueue.init, bStatusChanged := true }

end EngineChannel

/-- `globalEvents` are the events of the list that were not processed yet,
`now` is the clock of the event generator. -/
structure Engine (π : Type*) where
  renderMode : MidiMode
  scaleTuning : List Int8
  scaleTuningChanged : Bool
  frameTime : ℕ
  now : ℤ
  engineChannels : List (EngineChannel π)
  eventQueue : RingBuffer (Event (EventParam π))
  sysexBuffer : RingBuffer UInt8
  globalEvents : List (Event (EventParam π))

namespace Engine

variable {π : Type*}

/-- The elements of `channelsCache`, which is resized with `engineChannels`
in `AcquireEngine()` and `FreeEngine()`. -/
def channelsCacheSize (e : Engine π) : ℕ := e.engineChannels.length

def adjustScaleTuning (ScaleTunes : List Int8) (e : Engine π) : Engine π :=
  { e with scaleTuning := ScaleTunes, scaleTuningChanged := true }

/-- A channel is written through a pointer. -/
def modifyChannel (f : EngineChannel π → EngineChannel π) (e : Engine π) (i : ℕ) : Engine π :=
  { e with engineChannels := e.engineChannels.modify i f }

/-- The queues, as far as `ResetInternal()` changes them. -/
def resetInternal (keepSysex : Bool) (e : Engine π) : Engine π :=
  { e with
    engineChannels := e.engineChannels.map EngineChannel.resetInternal
    eventQueue := e.eventQueue.init
    sysexBuffer := if ¬ keepSysex ∧ e.sysexBuffer.readSpace ≠ 0 then e.sysexBuffer.init
      else e.sysexBuffer }

/-- The parts are routed anew, as if their channel were assigned again. -/
def resetMidiMode [DecidableEq π] (mode : MidiMode) (e : Engine π) : Except Abort (Engine π) := do
  let channels ← e.engineChannels.mapM fun c =>
    if c.originalMidiChannel ≠ midi_chan_all then
      { c with midiChannel := midi_chan_none }.setMidiChannel mode c.originalMidiChannel
    else .ok c
  return { e with renderMode := mode, engineChannels := channels }.resetInternal true

end Engine

end LinuxSampler
