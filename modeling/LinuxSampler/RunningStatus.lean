import Mathlib.Data.Int.Notation
import Mathlib.Data.List.Basic

/-!
# Raw MIDI data

A packet of raw MIDI data is split with `expectedEventSize()`, each piece is
given to `DispatchRaw()`, and a piece without a status byte is completed from
`runningStatusBuf`.
-/

namespace LinuxSampler

abbrev Byte := BitVec 8

/-- The status bytes of the channel messages. -/
abbrev Byte.IsChannel (b : Byte) : Prop := 0x80#8 ≤ b ∧ b < 0xF0#8

inductive Dispatch where
  | noteOff (key velocity channel : Byte)
  | noteOn (key velocity channel : Byte)
  | polyphonicKeyPressure (key value channel : Byte)
  | bankSelectMsb (value channel : Byte)
  | bankSelectLsb (value channel : Byte)
  | controlChange (controller value channel : Byte)
  | programChange (program channel : Byte)
  | channelPressure (value channel : Byte)
  | pitchbend (pitch : ℤ) (channel : Byte)
deriving DecidableEq

/-- `status`, `data1` and `data2` are `runningStatusBuf`. The lists are no data
of the class: the calls made so far, and the bytes of the input they are made
from. -/
structure RawMidiPort where
  status : Byte
  data1 : Byte
  data2 : Byte
  valid : status = 0 ∨ status.IsChannel
  dispatched : List Dispatch
  consumed : List Byte

namespace RawMidiPort

def init : RawMidiPort where
  status := 0
  data1 := 0
  data2 := 0
  valid := .inl rfl
  dispatched := []
  consumed := []

/-- `expectedEventSize()` once the status byte in effect is found; `none` is the
result -1. -/
def eventSize (byte : Byte) : Option ℕ :=
  if byte < 0x80#8 then none
  else if byte < 0xC0#8 then some 3
  else if byte < 0xE0#8 then some 2
  else if byte < 0xF0#8 then some 3
  else if byte = 0xF0 then none
  else if byte = 0xF1 then some 2
  else if byte = 0xF2 then some 3
  else if byte = 0xF3 then some 2
  else if byte = 0xF4 then none
  else if byte = 0xF5 then none
  else some 1

def expectedEventSize (p : RawMidiPort) (byte : Byte) : Option ℕ :=
  eventSize (if byte &&& 0x80 = 0 ∧ p.status ≠ 0 then p.status else byte)

/-- The state after the status byte `b` was seen. -/
def storeStatus (p : RawMidiPort) (b : Byte) : RawMidiPort :=
  if h : b.IsChannel then { p with status := b, valid := .inr h }
  else if 0xF0#8 ≤ b ∧ b < 0xF8#8 then { p with status := 0, valid := .inl rfl }
  else p

/-- The number of data bytes that `memcpy()` takes in running status mode. -/
def runningSize (p : RawMidiPort) : ℕ :=
  if p.status &&& 0xF0 = 0xC0 ∨ p.status &&& 0xF0 = 0xD0 then 1 else 2

/-- The buffer to parse, and whether it is `runningStatusBuf`. A read behind the
end of the data gives `none`. -/
def handleRunningStatus (p : RawMidiPort) (pData : List Byte) :
    Option (RawMidiPort × List Byte × Bool) := do
  let b ← pData[0]?
  if b &&& 0x80 ≠ 0 ∨ p.status = 0 then
    return (if b &&& 0x80 ≠ 0 then p.storeStatus b else p, pData, false)
  else if p.runningSize = 1 then
    return ({ p with data1 := b }, [p.status, b, p.data2], true)
  else
    let d ← pData[1]?
    return ({ p with data1 := b, data2 := d }, [p.status, b, d], true)

/-- The switch of `DispatchRaw()`: the calls, and how many bytes of the buffer
they are made from. -/
def dispatch (pData : List Byte) : Option (List Dispatch × ℕ) := do
  let b ← pData[0]?
  let channel := b &&& 0x0F
  let type := b &&& 0xF0
  if type = 0x80 then return ([.noteOff (← pData[1]?) (← pData[2]?) channel], 3)
  else if type = 0x90 then
    let d₁ ← pData[1]?
    let d₂ ← pData[2]?
    return ([if d₂ ≠ 0 then .noteOn d₁ d₂ channel else .noteOff d₁ d₂ channel], 3)
  else if type = 0xA0 then return ([.polyphonicKeyPressure (← pData[1]?) (← pData[2]?) channel], 3)
  else if type = 0xB0 then
    let d₁ ← pData[1]?
    let d₂ ← pData[2]?
    let bank := if d₁ = 0 then [.bankSelectMsb d₂ channel]
      else if d₁ = 32 then [.bankSelectLsb d₂ channel] else []
    return (bank ++ [.controlChange d₁ d₂ channel], 3)
  else if type = 0xC0 then return ([.programChange (← pData[1]?) channel], 2)
  else if type = 0xD0 then return ([.channelPressure (← pData[1]?) channel], 2)
  else if type = 0xE0 then
    let d₁ ← pData[1]?
    let d₂ ← pData[2]?
    return ([.pitchbend ((d₁.toNat ||| d₂.toNat <<< 7 : ℕ) - 8192) channel], 3)
  else return ([], 1)

def dispatchRaw (p : RawMidiPort) (pData : List Byte) : Option RawMidiPort := do
  let (p, buffer, running) ← p.handleRunningStatus pData
  let (calls, read) ← dispatch buffer
  -- the status byte of `runningStatusBuf` is none of the input
  let read := if running then read - 1 else read
  return { p with
    dispatched := p.dispatched ++ calls
    consumed := p.consumed ++ pData.take read }

/-- The loop of `ProcessMidiEvents()` over a packet, of which `data` is left. No
packet is empty, so its condition may be tested first. -/
def processFrom : ℕ → RawMidiPort → List Byte → Option RawMidiPort
  | _, p, [] => some p
  | 0, _, _ :: _ => none
  | fuel + 1, p, b :: data =>
      let eventSize := (p.expectedEventSize b).getD (b :: data).length
      if (b :: data).length < eventSize then some p
      else do
        let p ← p.dispatchRaw (b :: data)
        processFrom fuel p ((b :: data).drop eventSize)

/-- Each turn of the loop takes a byte, so it has no more turns than bytes. -/
def processMidiEvents (p : RawMidiPort) (packet : List Byte) : Option RawMidiPort :=
  processFrom packet.length p packet

end RawMidiPort

/-! ## Messages -/

/-- A channel message; the second data byte is meant only if it has two. -/
structure ChannelMessage where
  status : Byte
  data1 : Byte
  data2 : Byte
  status_isChannel : status.IsChannel
  data1_lt : data1 < 0x80#8
  data2_lt : data2 < 0x80#8

namespace ChannelMessage

/-- Program changes and channel pressures have one data byte. -/
def isShort (m : ChannelMessage) : Bool := 0xC0#8 ≤ m.status ∧ m.status < 0xE0#8

def data (m : ChannelMessage) : List Byte :=
  if m.isShort then [m.data1] else [m.data1, m.data2]

end ChannelMessage

/-- A message of a packet with its status byte or without, or a real-time
message between them. -/
inductive MidiItem where
  | message (m : ChannelMessage) (omitted : Bool)
  | realTime (b : Byte) (h : 0xF8#8 ≤ b)

namespace MidiItem

def bytes : MidiItem → List Byte
  | message m true => m.data
  | message m false => m.status :: m.data
  | realTime b _ => [b]

def packet (items : List MidiItem) : List Byte := items.flatMap bytes

def writeOut : MidiItem → MidiItem
  | message m _ => message m false
  | realTime b h => realTime b h

def Omits : MidiItem → Prop
  | message _ omitted => omitted = true
  | realTime _ _ => False

/-- Status bytes are omitted as running status allows: the previous channel
message, with status byte `running`, has the same one. -/
def Allowed (running : Byte) : List MidiItem → Prop
  | [] => True
  | message m omitted :: items => (omitted = true → m.status = running) ∧ Allowed m.status items
  | realTime _ _ :: items => Allowed running items

end MidiItem

end LinuxSampler
