import LinuxSampler.ImportEvents
import LinuxSampler.MidiData

/-!
# MidiKeyboardManager

The keys of an engine channel, their event lists and the pedals.
-/

namespace LinuxSampler

/-- `Event`: the parameters of the note events, of the control changes and of
the (N)RPN events, `value` belongs to both of the latter. -/
structure KeyEvent where
  type : EventType
  key : Key
  velocity : ℕ
  noteID : ℕ
  parentNoteID : ℕ
  controller : ℕ
  value : ℕ
  parameter : ℕ
deriving DecidableEq

/-- `release_trigger_t` -/
structure ReleaseTrigger where
  noteoff : Bool
  sustainMaxvelocity : Bool
  sustainKeyvelocity : Bool
deriving DecidableEq

namespace ReleaseTrigger

def none : ReleaseTrigger := ⟨false, false, false⟩

def or (a b : ReleaseTrigger) : ReleaseTrigger :=
  ⟨a.noteoff || b.noteoff, a.sustainMaxvelocity || b.sustainMaxvelocity,
    a.sustainKeyvelocity || b.sustainKeyvelocity⟩

def sustain (a : ReleaseTrigger) : Bool := a.sustainMaxvelocity || a.sustainKeyvelocity

end ReleaseTrigger

/-- `past` is no data of the class: the events of earlier fragments, since the
list was last emptied because the key became inactive. -/
structure MidiKey where
  keyPressed : Bool
  active : Bool
  releaseTrigger : ReleaseTrigger
  events : List KeyEvent
  past : List KeyEvent
  voiceTheftsQueued : ℤ
  velocity : ℕ
deriving DecidableEq

namespace MidiKey

def init : MidiKey where
  keyPressed := false
  active := false
  releaseTrigger := .none
  events := []
  past := []
  voiceTheftsQueued := 0
  velocity := 0

def append (key : MidiKey) (e : KeyEvent) : MidiKey := { key with events := key.events ++ [e] }

/-- The event at position `n` of the list is changed in place. -/
def modifyEvent (key : MidiKey) (n : ℕ) (f : KeyEvent → KeyEvent) : MidiKey :=
  { key with events := key.events.modify n f }

/-- The event at position `n` of the list is freed. -/
def freeEvent (key : MidiKey) (n : ℕ) : MidiKey := { key with events := key.events.eraseIdx n }

/-- One stolen voice less is queued; the list of a key that was never active is
cleared here. -/
def finishTheft (key : MidiKey) : MidiKey :=
  let key := { key with voiceTheftsQueued := key.voiceTheftsQueued - 1 }
  if !key.active ∧ key.voiceTheftsQueued = 0 then { key with events := [] } else key

/-- The events of the key since it became active. -/
def history (key : MidiKey) : List KeyEvent := key.past ++ key.events

end MidiKey

/-- The (N)RPN number that was sent, and its data. -/
structure ParamNumber where
  msb : ℕ
  lsb : ℕ
  dataMsb : ℕ
  dataLsb : ℕ
  received : Bool
deriving DecidableEq

namespace ParamNumber

def init : ParamNumber := ⟨0, 0, 0, 0, false⟩

/-- `none` is -1. -/
def parameter (p : ParamNumber) : Option ℕ :=
  if p.received then some (p.msb * 128 + p.lsb) else none

def data (p : ParamNumber) : ℤ := if p.received then p.dataMsb * 128 + p.dataLsb else 0

def setParameterMsb (v : ℕ) (p : ParamNumber) : ParamNumber :=
  { p with msb := v % 128, received := true }

def setParameterLsb (v : ℕ) (p : ParamNumber) : ParamNumber :=
  { p with lsb := v % 128, received := true }

def setDataMsb (v : ℕ) (p : ParamNumber) : ParamNumber := { p with dataMsb := v % 128 }

def setDataLsb (v : ℕ) (p : ParamNumber) : ParamNumber := { p with dataLsb := v % 128 }

def setData (v : ℤ) (p : ParamNumber) : ParamNumber :=
  let v := (min (max v 0) 16383).toNat
  { p with dataMsb := v / 128 % 128, dataLsb := v % 128 }

end ParamNumber

/-- An engine channel. `events` are those of `pEvents` that are not processed
yet, `sostenutoKeys` the first `SostenutoKeyCount` ones of `SostenutoKeys`. -/
structure KeyboardChannel where
  keys : Key → MidiKey
  activeKeys : List Key
  soloMode : Bool
  soloKey : Option Key
  sustainPedal : Bool
  sostenutoPedal : Bool
  sostenutoKeys : List Key
  keyDown : Key → Bool
  globalTranspose : ℤ
  rpn : ParamNumber
  nrpn : ParamNumber
  hasInstrument : Bool
  mute : Bool
  events : List KeyEvent

namespace KeyboardChannel

def init : KeyboardChannel where
  keys := fun _ => .init
  activeKeys := []
  soloMode := false
  soloKey := none
  sustainPedal := false
  sostenutoPedal := false
  sostenutoKeys := []
  keyDown := fun _ => false
  globalTranspose := 0
  rpn := .init
  nrpn := .init
  hasInstrument := false
  mute := false
  events := []

def modifyKey (ch : KeyboardChannel) (k : Key) (f : MidiKey → MidiKey) : KeyboardChannel :=
  { ch with keys := Function.update ch.keys k (f (ch.keys k)) }

def setKeyDown (ch : KeyboardChannel) (k : Key) (down : Bool) : KeyboardChannel :=
  { ch with keyDown := Function.update ch.keyDown k down }

def append (ch : KeyboardChannel) (k : Key) (e : KeyEvent) : KeyboardChannel :=
  ch.modifyKey k (·.append e)

def markKeyAsActive (ch : KeyboardChannel) (k : Key) : KeyboardChannel :=
  if (ch.keys k).active then ch
  else { ch.modifyKey k ({ · with active := true }) with activeKeys := ch.activeKeys ++ [k] }

def sostenutoActiveOnKey (ch : KeyboardChannel) (k : Key) : Bool :=
  ch.sostenutoPedal && ch.sostenutoKeys.contains k

def shouldReleaseVoice (ch : KeyboardChannel) (k : Key) : Bool :=
  if ch.sustainPedal then false else if ch.sostenutoActiveOnKey k then false else true

/-- A copy of an event is appended to the list of each of the keys that passes
the test, if the event pool has an element for it. -/
def appendCopies (ch : KeyboardChannel) (keys : List Key) (alloc : Key → Bool)
    (test : MidiKey → Bool) (e : KeyEvent) : KeyboardChannel :=
  keys.foldl (fun ch k => if test (ch.keys k) && alloc k then ch.append k e else ch) ch

def processSustainPedalDown (ch : KeyboardChannel) (alloc : Key → Bool) (e : KeyEvent) :
    KeyboardChannel :=
  ch.appendCopies ch.activeKeys alloc (fun key => !key.keyPressed)
    { e with type := .cancel_release_key }

def processSostenutoPedalDown (ch : KeyboardChannel) : KeyboardChannel :=
  { ch with sostenutoKeys := (ch.activeKeys.filter fun k => (ch.keys k).keyPressed).take 128 }

def processSostenutoPedalUp (ch : KeyboardChannel) (alloc : Key → Bool) (e : KeyEvent) :
    KeyboardChannel :=
  ch.appendCopies ch.sostenutoKeys alloc (fun key => !key.keyPressed && !ch.sustainPedal)
    { e with type := .release_key }

def releaseAllVoices (ch : KeyboardChannel) (alloc : Key → Bool) (e : KeyEvent) :
    KeyboardChannel :=
  ch.appendCopies ch.activeKeys alloc (fun _ => true) { e with type := .release_key }

/-- Of what `ResetControllers()` resets the keys depend on these. -/
def resetControllers (ch : KeyboardChannel) : KeyboardChannel :=
  { ch with globalTranspose := 0, sustainPedal := false, sostenutoPedal := false }

def resetMidiRpnParameter (ch : KeyboardChannel) : KeyboardChannel := { ch with rpn := .init }

def resetMidiNrpnParameter (ch : KeyboardChannel) : KeyboardChannel := { ch with nrpn := .init }

/-- Cached parameter numbers do not survive an unrelated event. -/
def resetParameters (ch : KeyboardChannel) (isRpn isNrpn : Bool) : KeyboardChannel :=
  let ch := if !isRpn && ch.rpn.received then ch.resetMidiRpnParameter else ch
  if !isNrpn && ch.nrpn.received then ch.resetMidiNrpnParameter else ch

/-- The highest pressed key; the loop ends above key 0. -/
def highestPressed (ch : KeyboardChannel) : Option Key :=
  (List.finRange 128).reverse.find? fun k => decide (0 < k) && (ch.keys k).keyPressed

/-- `FreeKey()` of a key without notes. -/
def freeKey (ch : KeyboardChannel) (k : Key) : KeyboardChannel :=
  { ch.modifyKey k ({ · with
      active := false, releaseTrigger := .none, events := [], past := [] }) with
    activeKeys := ch.activeKeys.erase k }

/-- Keys without notes are freed. -/
def freeAllInactiveKeys (hasNotes : Key → Bool) (ch : KeyboardChannel) : KeyboardChannel :=
  ch.activeKeys.foldl (fun ch k => if hasNotes k then ch else ch.freeKey k) ch

/-- The lists of the active keys, and that of the channel. -/
def clearEventListsOfCurrentFragment (ch : KeyboardChannel) : KeyboardChannel :=
  { ch with
    events := []
    keys := fun k => if k ∈ ch.activeKeys then
      { ch.keys k with events := [], past := (ch.keys k).history } else ch.keys k }

/-- `MidiKeyboardManager::Reset()` -/
def reset (ch : KeyboardChannel) : KeyboardChannel :=
  { ch with
    soloKey := none
    keys := fun k => { MidiKey.init with velocity := (ch.keys k).velocity }
    keyDown := fun _ => false
    activeKeys := [] }

/-- The transposition of a note event with note number `note`. -/
def applyTranspose (ch : KeyboardChannel) (note : ℕ) (e : KeyEvent) : Option KeyEvent :=
  if e.type ≠ .note_on ∧ e.type ≠ .note_off then some e
  else
    let k := (note : ℤ) + ch.globalTranspose
    if h : k < 0 ∨ k > 127 then none else some { e with key := ⟨k.toNat, by omega⟩ }

end KeyboardChannel

end LinuxSampler
