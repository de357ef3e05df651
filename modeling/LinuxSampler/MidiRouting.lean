import LinuxSampler.StepSystem
import LinuxSampler.SysexEngine

/-!
# MIDI routing

Which engine channel listens to which MIDI channel of which port. It is stored on
both sides: the engine channel has a list of its ports, and the channel map of a
port has a set of engine channels for each MIDI channel. Both sides inform each
other about a new connection, and about a lost one.
-/

namespace LinuxSampler

/-- A call returns, or throws a `MidiInputException` in some state. -/
inductive Call (σ : Type*) where
  | returned (s : σ)
  | thrown (s : σ)

namespace Call

variable {σ τ : Type*}

def state : Call σ → σ
  | .returned s | .thrown s => s

def map (f : σ → τ) : Call σ → Call τ
  | .returned s => .returned (f s)
  | .thrown s => .thrown (f s)

/-- The statements after a call are skipped if it throws. -/
def andThen (x : Option (Call σ)) (f : σ → Option (Call σ)) : Option (Call σ) :=
  match x with
  | some (.returned s) => f s
  | x => x

end Call

/-- An engine channel, and its entries in the channel maps of the ports: `listens p i`
if set `i` of port `p` contains it. -/
@[ext]
structure Route (P : Type*) where
  midiInputs : List P
  midiChannel : ℕ
  originalMidiChannel : ℕ
  listens : P → ℕ → Bool

namespace Route

variable {P : Type*} [DecidableEq P]

def register (p : P) (i : ℕ) (r : Route P) : Route P :=
  { r with listens := fun p' i' => decide (p' = p ∧ i' = i) || r.listens p' i' }

/-- The channel is erased from all 17 sets of a port. -/
def unregister (p : P) (r : Route P) : Route P :=
  { r with listens := fun p' i => !decide (p' = p ∧ i ≤ midi_chan_all) && r.listens p' i }

mutual

/-- `EngineChannel::Disconnect()`. The calls of the two sides end when `fuel` does. -/
def disconnect (p : P) : ℕ → Route P → Option (Route P)
  | 0, _ => none
  | fuel + 1, r =>
      if p ∈ r.midiInputs then
        portDisconnect p fuel { r with midiInputs := r.midiInputs.erase p }
      else some r

/-- `MidiInputPort::Disconnect()` -/
def portDisconnect (p : P) : ℕ → Route P → Option (Route P)
  | 0, _ => none
  | fuel + 1, r =>
      let bChannelFound := (List.range 17).any (r.listens p)
      if bChannelFound then disconnect p fuel (r.unregister p) else some (r.unregister p)

end

def disconnectAllMidiInputPorts (fuel : ℕ) (r : Route P) : Option (Route P) :=
  r.midiInputs.foldlM (fun r p => portDisconnect p fuel r) { r with midiInputs := [] }

mutual

/-- `EngineChannel::Connect()` -/
def connect (p : P) : ℕ → Route P → Option (Call (Route P))
  | 0, _ => none
  | fuel + 1, r =>
      if p ∈ r.midiInputs then some (.returned r)
      else
        portConnect p r.midiChannel fuel { r with midiInputs := r.midiInputs ++ [p] }

/-- `MidiInputPort::Connect()` -/
def portConnect (p : P) (MidiChannel : ℕ) : ℕ → Route P → Option (Call (Route P))
  | 0, _ => none
  | fuel + 1, r =>
      if ¬ isValidMidiChan MidiChannel then some (.thrown r)
      else if r.listens p MidiChannel then some (.returned r)
      else
        (portDisconnect p fuel r).bind fun r =>
          Call.andThen (connect p fuel (r.register p MidiChannel)) fun r =>
            if r.midiChannel ≠ MidiChannel then setMidiChannel MidiChannel fuel r
            else some (.returned r)

/-- `SetMidiChannel()`, of a channel that has an engine. -/
def setMidiChannel (MidiChannel : ℕ) : ℕ → Route P → Option (Call (Route P))
  | 0, _ => none
  | fuel + 1, r =>
      if r.midiChannel = MidiChannel then some (.returned r)
      else if ¬ isValidMidiChan MidiChannel then some (.thrown r)
      else
        (disconnectAllMidiInputPorts fuel
          { r with midiChannel := MidiChannel, originalMidiChannel := MidiChannel }).bind
            fun r' => r.midiInputs.foldl (fun x p => Call.andThen x (connect p fuel))
              (some (.returned r'))

end

/-- The deprecated `Connect()`, which makes `p` the only port. -/
def connectTo (p : P) (MidiChannel : ℕ) (fuel : ℕ) (r : Route P) : Option (Call (Route P)) :=
  if r.midiInputs = [p] ∧ r.midiChannel = MidiChannel then some (.returned r)
  else if ¬ isValidMidiChan MidiChannel then some (.thrown r)
  else
    (disconnectAllMidiInputPorts fuel { r with midiChannel := MidiChannel }).bind fun r =>
      portConnect p MidiChannel fuel { r with midiInputs := r.midiInputs ++ [p] }

/-- The part of a channel in `ResetMidiMode()`. -/
def resetMidiMode (fuel : ℕ) (r : Route P) : Option (Call (Route P)) :=
  if r.originalMidiChannel ≠ midi_chan_all then
    setMidiChannel r.originalMidiChannel fuel { r with midiChannel := midi_chan_none }
  else some (.returned r)

end Route

/-- The engine channels with their entries in the channel maps. -/
abbrev Routing (C P : Type*) := C → Route P

/-- `cs` are the channels of an engine. `rcvChannel` is the parameter "Rx channel" of
a part: index 0x02 of a GS part, index 0x04 of a XG part. -/
inductive RouteAction (C P : Type*) where
  | connect (c : C) (p : P)
  | connectTo (c : C) (p : P) (MidiChannel : ℕ)
  | disconnect (c : C) (p : P)
  | disconnectAllMidiInputPorts (c : C)
  | setMidiChannel (c : C) (MidiChannel : ℕ)
  | portConnect (p : P) (c : C) (MidiChannel : ℕ)
  | portDisconnect (p : P) (c : C)
  | rcvChannel (cs : List C) (sourcePort : P) (part : ℕ) (value : ℕ)
  | resetMidiMode (cs : List C)

namespace Routing

variable {C P : Type*} [DecidableEq C] [DecidableEq P]

/-- A call on one channel. -/
def onChannel (c : C) (f : Route P → Option (Call (Route P))) (s : Routing C P) :
    Option (Call (Routing C P)) :=
  (f (s c)).map (Call.map (Function.update s c))

/-- Nesting of the calls that is deep enough. -/
def callDepth : ℕ := 12

def act (s : Routing C P) : RouteAction C P → Option (Call (Routing C P))
  | .connect c p => s.onChannel c (Route.connect p callDepth)
  | .connectTo c p MidiChannel => s.onChannel c (Route.connectTo p MidiChannel callDepth)
  | .disconnect c p => s.onChannel c fun r => (Route.disconnect p callDepth r).map .returned
  | .disconnectAllMidiInputPorts c =>
      s.onChannel c fun r => (Route.disconnectAllMidiInputPorts callDepth r).map .returned
  | .setMidiChannel c MidiChannel => s.onChannel c (Route.setMidiChannel MidiChannel callDepth)
  | .portConnect p c MidiChannel => s.onChannel c (Route.portConnect p MidiChannel callDepth)
  | .portDisconnect p c =>
      s.onChannel c fun r => (Route.portDisconnect p callDepth r).map .returned
  | .rcvChannel cs sourcePort part value => some <| .returned fun c =>
      -- the filter of `filterChannels()`
      if c ∈ cs ∧ (s c).originalMidiChannel = part ∧ sourcePort ∈ (s c).midiInputs then
        { s c with midiChannel := value }
      else s c
  | .resetMidiMode cs => cs.foldl
      (fun x c => Call.andThen x fun s => s.onChannel c (Route.resetMidiMode callDepth))
      (some (.returned s))

/-- The state after an action; an exception ends the call of the front end. -/
def step (s : Routing C P) (a : RouteAction C P) : Routing C P :=
  (s.act a).elim s Call.state

/-- New channels, `index` is their index in the engine, which is what
`originalMidiChannel` is at first. -/
def start (index : C → ℕ) : Routing C P := fun c =>
  { midiInputs := []
    midiChannel := midi_chan_all
    originalMidiChannel := index c
    listens := fun _ _ => false }

/-- Part 16 is left out, `filterChannels()` reads an uninitialised size for it. The
channels of an engine are different ones. -/
def Enabled (_ : Routing C P) : RouteAction C P → Prop
  | .rcvChannel _ _ part _ => part ≠ midi_chan_all
  | .resetMidiMode cs => cs.Nodup
  | _ => True

instance (s : Routing C P) : ∀ a, Decidable (s.Enabled a)
  | .rcvChannel _ _ part _ => inferInstanceAs (Decidable (part ≠ midi_chan_all))
  | .resetMidiMode cs => inferInstanceAs (Decidable cs.Nodup)
  | .connect _ _ | .connectTo _ _ _ | .disconnect _ _ | .disconnectAllMidiInputPorts _
  | .setMidiChannel _ _ | .portConnect _ _ _ | .portDisconnect _ _ => .isTrue trivial

/-- The routing of some engine channels. -/
def system (index : C → ℕ) : StepSystem (Routing C P) (RouteAction C P) where
  init := start index
  enabled := Enabled
  step := step

instance (index : C → ℕ) (s : Routing C P) (a : RouteAction C P) :
    Decidable ((system index).enabled s a) :=
  inferInstanceAs (Decidable (s.Enabled a))

end Routing

end LinuxSampler
