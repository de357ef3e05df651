import LinuxSampler.MidiRouting

/-!
# Sampler channels

A sampler channel remembers its MIDI connections until it has an engine.
From then on the engine channel has them. When the type of the engine
changes, the old engine channel is destroyed before the new one is
connected.
-/

namespace LinuxSampler

/-- `Engine::Format` -/
inductive EngineFormat where
  | GIG
  | SF2
  | SFZ
deriving DecidableEq

/-- `EngineName()` -/
def EngineFormat.name : EngineFormat → String
  | GIG => "GIG"
  | SF2 => "SF2"
  | SFZ => "SFZ"

/-- `!strcasecmp()` -/
def equalsIgnoringCase (s t : String) : Bool :=
  s.toList.map Char.toLower = t.toList.map Char.toLower

/-- `EngineChannelFactory::Create()`, which throws for other types. -/
def EngineFormat.create (HAVE_SF2 : Bool) (EngineType : String) : Option EngineFormat :=
  if equalsIgnoringCase EngineType "GigEngine" || equalsIgnoringCase EngineType "gig" then some GIG
  else if equalsIgnoringCase EngineType "sf2" then if HAVE_SF2 then some SF2 else none
  else if equalsIgnoringCase EngineType "sfz" then some SFZ
  else none

/-- The MIDI input devices and their ports. All of them stay alive. -/
structure MidiDevices (P D : Type) where
  device : P → D
  portNumber : P → ℕ
  ports : D → List P
  midiInputDeviceID : D → ℕ
  devices : ℕ → Option D
  isAutonomousDevice : D → Bool
  ports_portNumber : ∀ p, (ports (device p))[portNumber p]? = some p
  devices_id : ∀ d, devices (midiInputDeviceID d) = some d

namespace MidiDevices

variable {P D : Type} (M : MidiDevices P D)

/-- `midi_conn_t` -/
def connection (p : P) : ℕ × ℕ := (M.midiInputDeviceID (M.device p), M.portNumber p)

/-- `_getPortForID()` -/
def getPortForID (c : ℕ × ℕ) : Option P := do
  let d ← M.devices c.1
  (M.ports d)[c.2]?

/-- `pPort->GetDevice()->isAutonomousDevice()` -/
def autonomous (p : P) : Bool := M.isAutonomousDevice (M.device p)

end MidiDevices

/-- `pEngine`: the engine channel has an engine, that of an audio output
device. -/
structure AssignedEngineChannel (P : Type) where
  format : EngineFormat
  pEngine : Bool
  route : Route P

structure SamplerChannel (P : Type) where
  pEngineChannel : Option (AssignedEngineChannel P)
  pAudioOutputDevice : Bool
  iMidiPort : ℤ
  midiChannel : ℕ
  vMidiInputs : List (ℕ × ℕ)

namespace SamplerChannel

variable {P D : Type} [DecidableEq P] (M : MidiDevices P D) (S : SamplerChannel P)

/-- A new sampler channel. -/
def init : SamplerChannel P where
  pEngineChannel := none
  pAudioOutputDevice := false
  iMidiPort := 0
  midiChannel := midi_chan_all
  vMidiInputs := []

/-- A call on the engine channel. -/
def onRoute (e : AssignedEngineChannel P) (f : Route P → Option (Call (Route P))) :
    Option (Call (SamplerChannel P)) :=
  (f e.route).map (Call.map fun r => { S with pEngineChannel := some { e with route := r } })

/-- `none`: a null pointer is followed, as `GetEngine()->GetMidiMode()` is
called without looking whether there is an engine. -/
def setMidiChannelOf (e : AssignedEngineChannel P) (MidiChannel : ℕ) : Option (Call (Route P)) :=
  if e.route.midiChannel ≠ MidiChannel ∧ ¬ e.pEngine then none
  else e.route.setMidiChannel MidiChannel Routing.callDepth

/-! ## Getters -/

def getMidiInputPorts : List P :=
  match S.pEngineChannel with
  | some e => e.route.midiInputs
  | none => S.vMidiInputs.filterMap M.getPortForID

/-- The channel, which is remembered. -/
def getMidiInputChannel : ℕ × SamplerChannel P :=
  match S.pEngineChannel with
  | some e => (e.route.midiChannel, { S with midiChannel := e.route.midiChannel })
  | none => (S.midiChannel, S)

/-! ## Connections -/

def connect (pPort : Option P) : Option (Call (SamplerChannel P)) :=
  match pPort with
  | none => some (.thrown S)
  | some p =>
      if ¬ M.autonomous p then some (.thrown S)
      else if p ∈ S.getMidiInputPorts M then some (.returned S)
      else
        match S.pEngineChannel with
        | some e => S.onRoute e (Route.connect p Routing.callDepth)
        | none => some (.returned { S with vMidiInputs := S.vMidiInputs ++ [M.connection p] })

def disconnect (pPort : Option P) : Option (Call (SamplerChannel P)) :=
  match pPort with
  | none => some (.returned S)
  | some p =>
      if ¬ M.autonomous p then some (.thrown S)
      else
        match S.pEngineChannel with
        | some e => S.onRoute e fun r => (r.disconnect p Routing.callDepth).map .returned
        | none =>
            some (.returned { S with vMidiInputs := S.vMidiInputs.filter (· ≠ M.connection p) })

def disconnectAllMidiInputPorts : Option (Call (SamplerChannel P)) :=
  (S.getMidiInputPorts M).foldl (fun x p => Call.andThen x fun S => S.disconnect M (some p))
    (some (.returned S))

def setMidiInputChannel (MidiChannel : ℕ) : Option (Call (SamplerChannel P)) :=
  if ¬ isValidMidiChan MidiChannel then some (.thrown S)
  else
    match S.pEngineChannel with
    | some e =>
        Call.andThen (S.onRoute e fun _ => setMidiChannelOf e MidiChannel) fun S =>
          some (.returned { S with midiChannel := MidiChannel })
    | none => some (.returned { S with midiChannel := MidiChannel })

def setMidiInput (pDevice : Option D) (iMidiPort : ℤ) (MidiChannel : ℕ) :
    Option (Call (SamplerChannel P)) :=
  match pDevice with
  | none => some (.thrown S)
  | some d =>
      Call.andThen (S.setMidiInputChannel MidiChannel) fun S =>
        match (M.ports d)[(iMidiPort % 2 ^ 32).toNat]? with
        | none => some (.thrown S)
        | some pNewPort =>
            if ∃ p ∈ S.getMidiInputPorts M, p ≠ pNewPort ∧ ¬ M.autonomous p then some (.thrown S)
            else
              match S.pEngineChannel with
              | some e => S.onRoute e fun r =>
                  (r.disconnectAllMidiInputPorts Routing.callDepth).bind
                    (Route.connect pNewPort Routing.callDepth)
              | none => some (.returned { S with
                  vMidiInputs := [M.connection pNewPort]
                  iMidiPort := iMidiPort })

/-! ## Engines -/

/-- The new engine channel is connected as the old one was. -/
def connectNew (e : AssignedEngineChannel P) (MidiChannel : ℕ) (ports : List P) :
    Option (Call (Route P)) :=
  ports.foldl (fun x p => Call.andThen x (Route.connect p Routing.callDepth))
    (setMidiChannelOf e MidiChannel)

/-- The engine channel that the factory creates. -/
def newEngineChannel (format : EngineFormat) : AssignedEngineChannel P where
  format := format
  pEngine := false
  route := ⟨[], midi_chan_all, midi_chan_none, fun _ _ => false⟩

/-- The old engine channel is disconnected and destroyed. -/
def destroyEngineChannel : Option (SamplerChannel P) :=
  match S.pEngineChannel with
  | none => some S
  | some e => (e.route.disconnectAllMidiInputPorts Routing.callDepth).map fun _ =>
      { S with pEngineChannel := none }

/-- `throws`: the new engine channel cannot be connected to the audio output
device. -/
def setEngineType (HAVE_SF2 : Bool) (EngineType : String) (throws : Bool) :
    Option (Call (SamplerChannel P)) :=
  if S.pEngineChannel.any fun e => equalsIgnoringCase e.format.name EngineType then
    some (.returned S)
  else
    match EngineFormat.create HAVE_SF2 EngineType with
    | none => some (.thrown S)
    | some format =>
        let curMidiInputs := S.getMidiInputPorts M
        let (midiChannel, S) := S.getMidiInputChannel
        S.destroyEngineChannel.bind fun S =>
          if S.pAudioOutputDevice ∧ throws then some (.thrown S)
          else
            let pNewEngineChannel := { newEngineChannel format with pEngine := S.pAudioOutputDevice }
            (connectNew pNewEngineChannel midiChannel curMidiInputs).map fun
              | .thrown _ => .thrown S
              | .returned r => .returned { S with
                  pEngineChannel := some { pNewEngineChannel with route := r }
                  vMidiInputs := []
                  iMidiPort := 0 }

/-- `SetAudioOutputDevice()` for another device, where the old one can be
dropped. -/
def setAudioOutputDevice (throws : Bool) : Call (SamplerChannel P) :=
  match S.pEngineChannel with
  | none => .returned { S with pAudioOutputDevice := true }
  | some e =>
      let S := { S with
        pAudioOutputDevice := true
        pEngineChannel := some { e with pEngine := !throws } }
      if throws then .thrown S else .returned S

end SamplerChannel

/-! ## Runs -/

/-- The connection and channel calls. -/
inductive MidiInputCall (P D : Type) where
  | connect (pPort : Option P)
  | disconnect (pPort : Option P)
  | disconnectAllMidiInputPorts
  | setMidiInput (pDevice : Option D) (iMidiPort : ℤ) (MidiChannel : ℕ)
  | setMidiInputChannel (MidiChannel : ℕ)

inductive SamplerChannelAction (P D : Type) where
  | midi (call : MidiInputCall P D)
  | setEngineType (EngineType : String) (throws : Bool)
  | setAudioOutputDevice (throws : Bool)

namespace SamplerChannel

variable {P D : Type} [DecidableEq P] (M : MidiDevices P D) (HAVE_SF2 : Bool)

def call (S : SamplerChannel P) : MidiInputCall P D → Option (Call (SamplerChannel P))
  | .connect pPort => S.connect M pPort
  | .disconnect pPort => S.disconnect M pPort
  | .disconnectAllMidiInputPorts => S.disconnectAllMidiInputPorts M
  | .setMidiInput pDevice iMidiPort MidiChannel => S.setMidiInput M pDevice iMidiPort MidiChannel
  | .setMidiInputChannel MidiChannel => S.setMidiInputChannel MidiChannel

/-- The state after a call that returned or threw. -/
def step (S : SamplerChannel P) : SamplerChannelAction P D → Option (SamplerChannel P)
  | .midi call => (S.call M call).map Call.state
  | .setEngineType EngineType throws => (S.setEngineType M HAVE_SF2 EngineType throws).map Call.state
  | .setAudioOutputDevice throws => some (S.setAudioOutputDevice throws).state

def run (actions : List (SamplerChannelAction P D)) (S : SamplerChannel P) :
    Option (SamplerChannel P) :=
  actions.foldlM (step M HAVE_SF2) S

end SamplerChannel

/-! ## What is asked for -/

/-- The connections that the front end has asked for. -/
structure MidiInputs (P : Type) where
  ports : List P
  channel : ℕ
deriving DecidableEq

namespace MidiInputs

variable {P D : Type} [DecidableEq P] (M : MidiDevices P D)

def withChannel (w : MidiInputs P) (MidiChannel : ℕ) : MidiInputs P :=
  if isValidMidiChan MidiChannel then { w with channel := MidiChannel } else w

/-- A port of a device that is not autonomous stays as it is. -/
def call (w : MidiInputs P) : MidiInputCall P D → MidiInputs P
  | .connect none | .disconnect none => w
  | .connect (some p) =>
      if M.autonomous p ∧ p ∉ w.ports then { w with ports := w.ports ++ [p] } else w
  | .disconnect (some p) =>
      if M.autonomous p then { w with ports := w.ports.erase p } else w
  | .disconnectAllMidiInputPorts => { w with ports := w.ports.dropWhile M.autonomous }
  | .setMidiInput none _ _ => w
  | .setMidiInput (some d) iMidiPort MidiChannel =>
      match (M.ports d)[(iMidiPort % 2 ^ 32).toNat]? with
      | none => w.withChannel MidiChannel
      | some pNewPort =>
          if isValidMidiChan MidiChannel ∧ ∀ p ∈ w.ports, p = pNewPort ∨ M.autonomous p then
            ⟨[pNewPort], MidiChannel⟩
          else w.withChannel MidiChannel
  | .setMidiInputChannel MidiChannel => w.withChannel MidiChannel

/-- What a new sampler channel has been asked for. -/
def after (calls : List (MidiInputCall P D)) : MidiInputs P :=
  calls.foldl (call M) ⟨[], midi_chan_all⟩

end MidiInputs

/-- The connection and channel calls among the actions. -/
def SamplerChannelAction.midiCall {P D : Type} :
    SamplerChannelAction P D → Option (MidiInputCall P D)
  | .midi call => some call
  | .setEngineType .. | .setAudioOutputDevice _ => none

end LinuxSampler
