import LinuxSampler.PoolRun
import LinuxSampler.RingBuffer

/-!
# ImportEvents

At the beginning of each audio cycle an engine channel copies the events
of its virtual MIDI devices, and then those that are due from its input
queue, to its event list. The queue is read through a non-volatile
reader, which is freed at the end.
-/

namespace LinuxSampler

inductive EventType where
  | note_on
  | note_off
  | pitchbend
  | control_change
  | rpn
  | nrpn
  | sysex
  | cancel_release_key
  | release_key
  | release_note
  | channel_pressure
  | note_pressure
  | play_note
  | stop_note
  | kill_note
  | note_synth_param
deriving DecidableEq

/-- An event. `key` and `noteID` are `Param.Note.Key` and `Param.Note.ID`,
`param` is the rest of its parameters. -/
structure Event (δ : Type*) where
  type : EventType
  key : ℕ
  noteID : ℕ
  param : δ
  timeStamp : ℤ
  iFragmentPos : ℤ
deriving DecidableEq

/-- `VirtualMidiDevice::event_type_t` -/
inductive DevEventType where
  | noteon
  | noteoff
  | cc
  | pitchbend
  | program
  | chpressure
deriving DecidableEq

/-- `VirtualMidiDevice::event_t` -/
structure DevEvent where
  type : DevEventType
  arg1 : ℕ
  arg2 : ℕ

def ctrlTableIdxAftertouch : ℕ := 128

/-- What the import asks for: the clock of the current fragment, the
transposition and the MIDI channel, if it is not for all, and the engine, which
answers with a note ID or zero. `created` is what `CreateEvent(0)` answers; the
parameters of other types of events than notes are up to `δ`. -/
structure ImportEnv (σ δ : Type*) where
  toFragmentPos : ℤ → ℤ
  globalTranspose : ℤ
  midiChannel : Option ℕ
  created : Event δ
  note : (velocity channel : ℕ) → δ
  cc : (controller value channel : ℕ) → δ
  pitch : (pitch : ℤ) → (channel : ℕ) → δ
  channelPressure : (controller value channel : ℕ) → δ
  launchNewNote : σ → Event δ → σ × ℕ
  setMidiBankMsb : σ → ℕ → σ
  setMidiBankLsb : σ → ℕ → σ
  sendProgramChange : σ → ℕ → σ

namespace Event

variable {δ : Type*}

/-- `FragmentPos()`: the position is computed once. -/
def fragmentPos (toFragmentPos : ℤ → ℤ) (e : Event δ) : ℤ × Event δ :=
  if e.iFragmentPos ≥ 0 then (e.iFragmentPos, e)
  else
    let pos := toFragmentPos e.timeStamp
    let pos := if pos < 0 then 0 else pos
    (pos, { e with iFragmentPos := pos })

def resetFragmentPos (e : Event δ) : Event δ := { e with iFragmentPos := -1 }

def applyTranspose (globalTranspose : ℤ) (e : Event δ) : Option (Event δ) :=
  if e.type ≠ .note_on ∧ e.type ≠ .note_off then some e
  else
    let k := (e.key : ℤ) + globalTranspose
    if k < 0 ∨ k > 127 then none else some { e with key := k.toNat }

end Event

/-- What became of an event that was copied to the event list. A program change or a bank
select of a virtual device is executed at once. -/
inductive Outcome (δ : Type*) where
  | kept (e : Event δ)
  | outOfRange
  | launchFailed
  | executed
deriving DecidableEq

def Outcome.event? {δ : Type*} : Outcome δ → Option (Event δ)
  | .kept e => some e
  | _ => none

/-- The events that wait in the virtual devices, the input queue, the event pool with its
elements, and the engine. -/
structure ImportState (σ δ ι : Type*) where
  devices : List (List DevEvent)
  queue : RingBuffer (Event δ)
  pool : Pool ι
  data : ℕ → Event δ
  engine : σ

namespace ImportState

variable {σ δ ι : Type*} [DecidableEq ι]

/-- A pointer into the queue is written through. -/
def setQueued (S : ImportState σ δ ι) (index : ℤ) (e : Event δ) : ImportState σ δ ι :=
  { S with queue := { S.queue with buf := Function.update S.queue.buf index e } }

/-- A copied event is transposed, and launched if it is a note-on. -/
def handle (env : ImportEnv σ δ) (engine : σ) (e : Event δ) : σ × Outcome δ :=
  match e.applyTranspose env.globalTranspose with
  | none => (engine, .outOfRange)
  | some e =>
      if e.type = .note_on then
        let (engine, newNoteID) := env.launchNewNote engine e
        if newNoteID = 0 then (engine, .launchFailed)
        else (engine, .kept { e with noteID := newNoteID })
      else (engine, .kept e)

/-- `switch (devEvent.Type)`: notes are transposed and launched as those of the queue. -/
def handleDevEvent (env : ImportEnv σ δ) (engine : σ) (devEvent : DevEvent) : σ × Outcome δ :=
  let channel := env.midiChannel.getD 0
  match devEvent.type with
  | .noteon => handle env engine { env.created with
      type := .note_on, key := devEvent.arg1, param := env.note devEvent.arg2 channel }
  | .noteoff => handle env engine { env.created with
      type := .note_off, key := devEvent.arg1, param := env.note devEvent.arg2 channel }
  | .cc =>
      if devEvent.arg1 = 0 then (env.setMidiBankMsb engine devEvent.arg2, .executed)
      else if devEvent.arg1 = 32 then (env.setMidiBankLsb engine devEvent.arg2, .executed)
      else (engine, .kept { env.created with
        type := .control_change, param := env.cc devEvent.arg1 devEvent.arg2 channel })
  | .pitchbend => (engine, .kept { env.created with
      type := .pitchbend
      param := env.pitch (((devEvent.arg2 <<< 7) ||| devEvent.arg1 : ℕ) - 8192) channel })
  | .program => (env.sendProgramChange engine devEvent.arg1, .executed)
  | .chpressure => (engine, .kept { env.created with
      type := .channel_pressure
      param := env.channelPressure ctrlTableIdxAftertouch devEvent.arg2 channel })

/-- An event is copied to the event list, and freed again unless it is kept. -/
def importCopy (events : ι) (S : ImportState σ δ ι) (e : Event δ) (handled : σ × Outcome δ) :
    ImportState σ δ ι × Outcome δ :=
  let (P, itEvent) := S.pool.allocAppend events
  let (engine, outcome) := handled
  match itEvent.index with
  | none => ({ S with pool := P }, outcome)
  | some i =>
      match outcome with
      | .kept e' =>
          ({ S with pool := P, data := Function.update S.data i e', engine := engine }, outcome)
      | _ =>
          ({ S with pool := (P.free itEvent).1, data := Function.update S.data i e,
                    engine := engine }, outcome)

/-- The loop over the events of a virtual device. The result has what is left of them, and
whether the event pool was found empty. -/
def importDevice (env : ImportEnv σ δ) (events : ι) :
    List DevEvent → ImportState σ δ ι → ImportState σ δ ι × List DevEvent × Bool
  | [], S => (S, [], false)
  | devEvent :: rest, S =>
      if S.pool.poolIsEmpty then (S, rest, true)
      else
        importDevice env events rest
          (S.importCopy events env.created (handleDevEvent env S.engine devEvent)).1

/-- The loop over the virtual devices, which ends where the pool is found empty. -/
def importDevices (env : ImportEnv σ δ) (events : ι) :
    List (List DevEvent) → ImportState σ δ ι → ImportState σ δ ι × List (List DevEvent)
  | [], S => (S, [])
  | device :: devices, S =>
      match importDevice env events device S with
      | (S, rest, true) => (S, rest :: devices)
      | (S, rest, false) =>
          let (S, devices) := importDevices env events devices S
          (S, rest :: devices)

/-- The body of the queue's loop from the copy of the event on. -/
def importEvent (env : ImportEnv σ δ) (events : ι) (S : ImportState σ δ ι) (e : Event δ) :
    ImportState σ δ ι × Outcome δ :=
  S.importCopy events e (handle env S.engine e)

/-- The loop. The result has what became of the events. -/
def importLoop (env : ImportEnv σ δ) (events : ι) (Samples : ℕ) :
    ℕ → ImportState σ δ ι → ℤ → Option (ImportState σ δ ι × ℤ × List (Outcome δ))
  | 0, _, _ => none
  | fuel + 1, S, eventQueueReader =>
      match RingBuffer.NonVolatileReader.pop S.queue eventQueueReader with
      | (reader, none) => some (S, reader, [])
      | (reader, some pEvent) =>
          let (pos, e) := pEvent.fragmentPos env.toFragmentPos
          let S := S.setQueued eventQueueReader e
          if pos ≥ Samples then
            let reader := RingBuffer.NonVolatileReader.dec S.queue reader
            some (S.setQueued eventQueueReader e.resetFragmentPos, reader, [])
          else if S.pool.poolIsEmpty then some (S, reader, [])
          else do
            let (S, outcome) := importEvent env events S e
            let (S, reader, outcomes) ← importLoop env events Samples fuel S reader
            return (S, reader, outcome :: outcomes)

/-- The import from the input queue, which the regular MIDI devices write to. -/
def importQueue (env : ImportEnv σ δ) (events : ι) (Samples : ℕ) (S : ImportState σ δ ι) :
    Option (ImportState σ δ ι × List (Outcome δ)) := do
  let reader := S.queue.getNonVolatileReader
  let (S, reader, outcomes) ←
    importLoop env events Samples (S.queue.readSpace.toNat + 1) S reader
  return ({ S with queue := RingBuffer.NonVolatileReader.free S.queue reader }, outcomes)

/-- `ImportEvents()`, with what became of the events of the input queue. -/
def importEvents (env : ImportEnv σ δ) (events : ι) (Samples : ℕ) (S : ImportState σ δ ι) :
    Option (ImportState σ δ ι × List (Outcome δ)) :=
  let (S, devices) := importDevices env events S.devices S
  importQueue env events Samples { S with devices := devices }

end ImportState

end LinuxSampler
