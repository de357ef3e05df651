import LinuxSampler.SysexReader

/-!
# dispatchSysex

A message of parameters has an address and data bytes. A table sorted by
address has the blocks of parameters that are known, each with its handler.
The dispatcher goes through the table once and skips what lies between the
blocks.

There are tables for Roland GS and Yamaha XG, and a dispatcher that tells
the families of messages apart by their first bytes.
-/

namespace LinuxSampler

/-- `cache` are the first `_cacheSize` elements of `channelsCache`, as
indices of the channels, for the MIDI channel `channel`. Before it is
filled, `_cacheSize` has no value. -/
structure SysexMap (π : Type) where
  engine : Engine π
  sourcePort : π
  channel : ℕ
  cache : Option (List ℕ)

/-- A handler returns false when the message is not to be dispatched any
further. -/
abbrev SysexHandler (π : Type) : Type :=
  SysexMap π → SysexReader → Except Abort (Bool × SysexMap π × SysexReader)

structure AddressBlock (π : Type) where
  min : ℕ
  max : ℕ
  handler : SysexHandler π

def SYSEX_ADDR (aa bb cc : ℕ) : ℕ := aa * 2 ^ 14 + bb * 2 ^ 7 + cc

namespace SysexMap

variable {π : Type}

def create (engine : Engine π) (sourcePort : π) : SysexMap π :=
  { engine := engine, sourcePort := sourcePort, channel := midi_chan_all, cache := none }

/-- The dispatcher. The table ends with a block that is not valid. -/
def dispatch : List (AddressBlock π) → SysexMap π → SysexReader → Except Abort (SysexMap π)
  | [], me, _ => .ok me
  | block :: map, me, reader =>
      if ¬ reader.toBool then .ok me
      else if block.max < reader.address then dispatch map me reader
      else
        let reader := if block.min > reader.address then reader.add (block.min - reader.address)
          else reader
        if ¬ reader.toBool then .ok me
        else do
          let (go, me, reader) ← block.handler me reader
          if ¬ go then return me
          dispatch map me reader

/-- The loop of a handler: `for (; sysex && guard(index = sysex.index()); )`.
The body returns false where the handler does. -/
def whileIndex (guard : ℕ → Bool) (body : ℕ → SysexHandler π) : ℕ → SysexHandler π
  | 0, _, _ => .error .endless
  | fuel + 1, me, sysex =>
      if sysex.toBool ∧ guard sysex.index then do
        let (go, me, sysex) ← body sysex.index me sysex
        if ¬ go then return (false, me, sysex)
        whileIndex guard body fuel me sysex
      else .ok (true, me, sysex)

/-- Each turn of the loop consumes a byte at least. -/
def loop (guard : ℕ → Bool) (body : ℕ → SysexHandler π) : SysexHandler π :=
  fun me sysex => whileIndex guard body (sysex.left.toNat + 1) me sysex

/-! ## Channels -/

section Channels

variable [DecidableEq π]

/-- The loop of `filterChannels()` over the engine channels from `i` on. -/
def fillCache (channelsCacheSize : ℕ) (sourcePort : π) (midiChannel : ℕ) :
    List (EngineChannel π) → ℕ → List ℕ → Except Abort (List ℕ)
  | [], _, cache => .ok cache
  | channel :: engineChannels, i, cache =>
      if channel.originalMidiChannel = midiChannel ∧ sourcePort ∈ channel.midiInputs then
        if cache.length < channelsCacheSize then
          fillCache channelsCacheSize sourcePort midiChannel engineChannels (i + 1) (cache ++ [i])
        else .error .outOfBounds
      else fillCache channelsCacheSize sourcePort midiChannel engineChannels (i + 1) cache

/-- The channels in the cache; their number is what the function returns. -/
def filterChannels (me : SysexMap π) (midiChannel : ℕ) : Except Abort (List ℕ × SysexMap π) :=
  if me.channel ≠ midiChannel then do
    let cache ← fillCache me.engine.channelsCacheSize me.sourcePort midiChannel
      me.engine.engineChannels 0 []
    .ok (cache, { me with channel := midiChannel, cache := some cache })
  else
    match me.cache with
    | some cache => .ok (cache, me)
    | none => .error .staleCache

end Channels

def forEach (f : EngineChannel π → EngineChannel π) (cache : List ℕ) (me : SysexMap π) :
    SysexMap π :=
  { me with engine := cache.foldl (Engine.modifyChannel f) me.engine }

def forEachCC (cc_number cc_value : UInt8) (cache : List ℕ) (me : SysexMap π) : SysexMap π :=
  me.forEach (EngineChannel.sendControlChange me.engine.now cc_number cc_value
    (UInt8.ofNat me.channel)) cache

def forEachPort [DecidableEq π] (f : EngineChannel π → EngineChannel π) (me : SysexMap π) :
    SysexMap π :=
  { me with engine := { me.engine with engineChannels := me.engine.engineChannels.map fun c =>
      if me.sourcePort ∈ c.midiInputs then f c else c } }

/-- `_engine->ResetMidiMode(mode, ...)` -/
def resetMidiMode [DecidableEq π] (mode : MidiMode) (me : SysexMap π) :
    Except Abort (SysexMap π) := do
  return { me with engine := ← me.engine.resetMidiMode mode }

end SysexMap


open SysexMap

variable {π : Type} [DecidableEq π]

/-! ## Roland GS -/

namespace GSSysexMap

def handle_GsReset : SysexHandler π := fun me sysex => do
  let (systemMode, sysex) ← sysex.pop
  if systemMode < 2 then return (true, ← me.resetMidiMode .GS, sysex)
  return (true, me, sysex)

/-- The tuning has four bytes; nothing is done with the parameters. -/
def commonBody (index : ℕ) : SysexHandler π := fun me sysex =>
  match index with
  | 0x00 => do
      match ← sysex.read 4 with
      | (none, sysex) => return (false, me, sysex)
      | (some _, sysex) => return (true, me, sysex)
  | _ => .ok (true, me, sysex.inc)

def handle_GsCommon : SysexHandler π := loop (· < 0x07) commonBody

/-- The parameters of a part that have one byte. -/
def patchParam (cache : List ℕ) (index : ℕ) (lead : UInt8) (me : SysexMap π) : SysexMap π :=
  match index with
  | 0x00 => me.forEach (EngineChannel.setMidiBankMsb lead) cache
  | 0x01 => me.forEach (EngineChannel.setMidiProgram lead) cache
  | 0x02 => me.forEach (fun c => { c with midiChannel := lead.toNat }) cache
  | 0x13 => me.forEachCC (if lead ≠ 0 then 126 else 127) 1 cache
  | 0x14 =>
      let partMode : AssignMode := if lead = 0 then .single else .multi
      me.forEach (fun c => { c with keyAssignMode := partMode }) cache
  | 0x15 =>
      let partMod : AssignMode := if lead ≠ 0 then .instrument else .multi
      me.forEach (fun c => { c with partMode := lead.toNat, keyAssignMode := partMod }) cache
  | 0x19 => me.forEachCC 7 lead cache
  | 0x1c => me.forEachCC 10 (if lead = 0 then UInt8.ofNat (me.engine.frameTime % 128) else lead) cache
  | 0x21 => me.forEachCC 93 lead cache
  | 0x22 => me.forEachCC 91 lead cache
  | 0x2c => me.forEachCC 94 lead cache
  | _ => me

/-- The scale tuning is read after the byte that was popped already. -/
def patchCommonBody (cache : List ℕ) (index : ℕ) : SysexHandler π := fun me sysex => do
  let (lead, sysex) ← sysex.pop
  if index = 0x40 then
    match ← sysex.read 12 with
    | (none, sysex) => return (false, me, sysex)
    | (some scale_tunes, sysex) =>
        let scale_tunes := scale_tunes.map fun b => b.toInt8 - 64
        return (true, { me with engine := me.engine.adjustScaleTuning scale_tunes }, sysex)
  else return (true, GSSysexMap.patchParam cache index lead me, sysex)

def handle_GsPatchCommon : SysexHandler π := fun me sysex => do
  let (cache, me) ← me.filterChannels (sysex.address / 128 % 16)
  if cache ≠ [] then loop (· < 0x4c) (patchCommonBody cache) me sysex
  else return (true, me, sysex)

def efx88Param (cache : List ℕ) (index : ℕ) (lead : UInt8) (me : SysexMap π) : SysexMap π :=
  match index with
  | 0x00 =>
      me.forEach (fun c =>
        { c with defaultGsLsb := if lead ≠ 0 then lead.toNat else c.poweronGsLsb }) cache
  | 0x01 => me.forEach (fun c => { c with poweronGsLsb := lead.toNat }) cache
  | _ => me

def efx88Body (cache : List ℕ) (index : ℕ) : SysexHandler π := fun me sysex => do
  let (lead, sysex) ← sysex.pop
  return (true, GSSysexMap.efx88Param cache index lead me, sysex)

def handle_GsEfx88 : SysexHandler π := fun me sysex => do
  let (cache, me) ← me.filterChannels (sysex.address / 128 % 16)
  if cache ≠ [] then loop (· < 0x02) (efx88Body cache) me sysex
  else return (true, me, sysex)

def addressMap : List (AddressBlock π) :=
  [⟨SYSEX_ADDR 0x00 0x00 0x7f, SYSEX_ADDR 0x00 0x00 0x7f, handle_GsReset⟩,
   ⟨SYSEX_ADDR 0x40 0x00 0x00, SYSEX_ADDR 0x40 0x00 0x06, handle_GsCommon⟩,
   ⟨SYSEX_ADDR 0x40 0x00 0x7f, SYSEX_ADDR 0x40 0x00 0x7f, handle_GsReset⟩,
   ⟨SYSEX_ADDR 0x40 0x10 0x00, SYSEX_ADDR 0x40 0x1f 0x7f, handle_GsPatchCommon⟩,
   ⟨SYSEX_ADDR 0x40 0x40 0x00, SYSEX_ADDR 0x40 0x4f 0x7f, handle_GsEfx88⟩]

end GSSysexMap

/-! ## Yamaha XG -/

namespace XGSysexMap

def systemBody (index : ℕ) : SysexHandler π := GSSysexMap.commonBody index

def handle_XgSystem : SysexHandler π := loop (· < 0x07) systemBody

def resetBody (index : ℕ) : SysexHandler π := fun me sysex => do
  let (next, sysex) ← sysex.pop
  match index with
  | 0x7e | 0x7f =>
      if next = 0 then return (true, ← me.resetMidiMode .XG, sysex)
      return (true, me, sysex)
  | _ => return (true, me, sysex)

def handle_XgReset : SysexHandler π := loop (· ≠ 0) resetBody

/-- `handle_GlobalFx()`, `handle_MultiEq()`, `handle_Insertion()`,
`handle_PartFx()` and `handle_DrumSetup()` -/
def handle_Nothing : SysexHandler π := fun me sysex => .ok (true, me, sysex)

/-- The parameters of a part that have one byte, as functions of the byte. -/
def partParam (index : ℕ) : Option (UInt8 → List ℕ → SysexMap π → SysexMap π) :=
  match index with
  | 0x01 => some fun b => forEach (EngineChannel.setMidiBankMsb b)
  | 0x02 => some fun b => forEach (EngineChannel.setMidiBankLsb b)
  | 0x03 => some fun b => forEach (EngineChannel.setMidiProgram b)
  | 0x04 => some fun b => forEach fun c => { c with midiChannel := b.toNat }
  | 0x05 => some fun b => forEachCC (if b = 0 then 126 else 127) 1
  | 0x06 => some fun b cache me =>
      match b.toNat with
      | 0 => me.forEach (fun c => { c with keyAssignMode := .single }) cache
      | 1 => me.forEach (fun c => { c with keyAssignMode := .multi }) cache
      | 2 => me.forEach (fun c => { c with keyAssignMode := .instrument }) cache
      | _ => me
  | 0x07 => some fun b => forEach fun c => { c with partMode := b.toNat }
  | 0x0b => some fun b => forEachCC 7 b
  | 0x0e => some fun b cache me =>
      me.forEachCC 10 (if b = 0 then UInt8.ofNat (me.engine.frameTime % 128) else b) cache
  | _ => none

/-- `uint8_t buffer[128]`, with `count` bytes read into it. The others have
no value. -/
def received (bytes : List UInt8) : Except Abort (List (Option UInt8)) :=
  if bytes.length > 128 then .error .outOfBounds
  else .ok (bytes.map some ++ List.replicate (128 - bytes.length) none)

/-- `buffer[index]` -/
def bufferAt (buffer : List (Option UInt8)) (index : ℕ) : Except Abort UInt8 :=
  match buffer[index]? with
  | some (some b) => .ok b
  | some none => .error .uninitialised
  | none => .error .outOfBounds

/-- `buffer[index] -= 64` -/
def lower (buffer : List (Option UInt8)) (index : ℕ) : Except Abort (List (Option UInt8)) :=
  if index < buffer.length then .ok (buffer.modify index (Option.map (· - 64)))
  else .error .outOfBounds

/-- The loop over the bytes that were read, `last - index` of them. The
scale tuning takes its address from the buffer. -/
def partLoop (cache : List ℕ) (count : ℕ) (buffer : List (Option UInt8)) :
    ℕ → ℕ → SysexMap π → Except Abort (Bool × ℕ × SysexMap π)
  | 0, index, me => .ok (true, index, me)
  | n + 1, index, me =>
      if index = 0x41 then
        if count < 12 then .ok (false, index, me)
        else do
          let buffer ← (List.range 12).foldlM (fun buffer i => lower buffer (index + i)) buffer
          let _ ← bufferAt buffer index
          .error .dataAsAddress
      else
        match partParam index with
        | none => partLoop cache count buffer n (index + 1) me
        | some f => do
            let b ← bufferAt buffer index
            partLoop cache count buffer n (index + 1) (f b cache me)

def multipartBody (index : ℕ) : SysexHandler π := fun me sysex => do
  let (cache, me) ← me.filterChannels sysex.middle
  if cache ≠ [] then
    let count := min (0x44 - (index : ℤ)) sysex.available
    match ← sysex.read count with
    | (none, sysex) => return (false, me, sysex)
    | (some bytes, sysex) =>
        let buffer ← received bytes
        let (go, index, me) ← partLoop cache count.toNat buffer count.toNat index me
        if ¬ go then return (false, me, sysex)
        return (true, me, sysex.add (128 - index))
  else return (true, me, sysex.add (128 - index))

def handle_Multipart : SysexHandler π := loop (fun _ => true) multipartBody

def addressMap : List (AddressBlock π) :=
  [⟨SYSEX_ADDR 0x00 0x00 0x00, SYSEX_ADDR 0x00 0x00 0x06, handle_XgSystem⟩,
   ⟨SYSEX_ADDR 0x00 0x00 0x7d, SYSEX_ADDR 0x00 0x00 0x7f, handle_XgReset⟩,
   ⟨SYSEX_ADDR 0x02 0x01 0x00, SYSEX_ADDR 0x02 0x01 0x75, handle_Nothing⟩,
   ⟨SYSEX_ADDR 0x02 0x40 0x00, SYSEX_ADDR 0x02 0x40 0x14, handle_Nothing⟩,
   ⟨SYSEX_ADDR 0x03 0x00 0x00, SYSEX_ADDR 0x03 0x7f 0x7f, handle_Nothing⟩,
   ⟨SYSEX_ADDR 0x08 0x00 0x00, SYSEX_ADDR 0x08 0x7f 0x7f, handle_Multipart⟩,
   ⟨SYSEX_ADDR 0x0a 0x00 0x10, SYSEX_ADDR 0x0a 0x7f 0x45, handle_Nothing⟩,
   ⟨SYSEX_ADDR 0x30 0x00 0x00, SYSEX_ADDR 0x3f 0x7f 0x74, handle_Nothing⟩]

end XGSysexMap

/-! ## GM -/

namespace GMSysex

def dispatchRealtime (me : SysexMap π) (sub1 sub2 : UInt8) (reader : ByteReader) (length : ℕ) :
    Except Abort (SysexMap π) :=
  if sub1 = 0x04 then
    if length ≠ 2 then .ok me
    else do
      let (hi, reader) ← reader.popByte
      let (lo, _) ← reader.popByte
      let value : ℚ := (hi.toNat * 2 ^ 7 + lo.toNat : ℕ)
      if sub2 = 0x01 then return me.forEachPort (EngineChannel.volume (value / 16383))
      return me
  else .ok me

def dispatchNonRealtime (me : SysexMap π) (sub1 sub2 : UInt8) : Except Abort (SysexMap π) :=
  if sub1 = 0x09 then
    match sub2.toNat with
    | 1 | 2 => me.resetMidiMode .GM
    | 3 => me.resetMidiMode .GM2
    | _ => .ok me
  else .ok me

end GMSysex

/-! ## The dispatcher -/

def dispatchRealtime (e : Engine π) (sourcePort : π) (reader : ByteReader) (length : ℕ) :
    Except Abort (Engine π) := do
  let (deviceId, reader) ← reader.popByte
  let (sub1, reader) ← reader.popByte
  let (sub2, reader) ← reader.popByte
  if deviceId = 0x7f then
    let gm ← GMSysex.dispatchRealtime (create e sourcePort) sub1 sub2 reader (length - 6)
    return gm.engine
  return e

def dispatchNonRealtime (e : Engine π) (sourcePort : π) (reader : ByteReader) :
    Except Abort (Engine π) := do
  let (deviceId, reader) ← reader.popByte
  let (sub1, reader) ← reader.popByte
  let (sub2, _) ← reader.popByte
  if deviceId = 0x7f then
    let gm ← GMSysex.dispatchNonRealtime (create e sourcePort) sub1 sub2
    return gm.engine
  return e

def dispatchRoland (e : Engine π) (sourcePort : π) (reader : ByteReader) (length : ℕ) :
    Except Abort (Engine π) := do
  let e := { e with renderMode := .GS }
  if length > 9 then
    let (lead, reader) ← reader.read 3
    -- Display data has the model 0x45, only 0x42 is a GS message.
    if lead[1]? = some 0x42 ∧ lead[2]? = some 0x12 then
      let sysex ← SysexReader.create reader (length - 7)
      let mapper ← dispatch GSSysexMap.addressMap (create e sourcePort) sysex
      return mapper.engine
    return e
  return e

def dispatchYamaha (e : Engine π) (sourcePort : π) (reader : ByteReader) (length : ℕ) :
    Except Abort (Engine π) := do
  let e := { e with renderMode := .XG }
  if length > 7 then
    let (deviceNo, reader) ← reader.popByte
    let (modelId, reader) ← reader.popByte
    if modelId = 0x4c then
      let command := deviceNo.toNat / 16
      if command = 1 then
        let sysex ← SysexReader.create reader (length - 5)
        let mapper ← dispatch XGSysexMap.addressMap (create e sourcePort) sysex
        return mapper.engine
      else if command = 0 then
        let (hi, reader) ← reader.popByte
        let (lo, reader) ← reader.popByte
        let len : ℤ := hi.toNat * 2 ^ 7 + lo.toNat
        if len = length - 11 then
          let sysex ← SysexReader.create reader (length - 8)
          let mapper ← dispatch XGSysexMap.addressMap (create e sourcePort) sysex
          return mapper.engine
        return e
      return e
    return e
  return e

/-- `bytes` are those that are stored, the message first. -/
def dispatchSysex (e : Engine π) (sourcePort : π) (bytes : List UInt8) (length : ℕ) :
    Except Abort (Engine π) :=
  let length := if length > bytes.length then bytes.length else length
  let reader : ByteReader := ⟨bytes.take length, bytes.drop length⟩
  if length < 6 then .ok e
  else do
    let (lead, reader) ← reader.popByte
    if lead ≠ 0xf0 then return e
    let (id, reader) ← reader.popByte
    match id.toNat with
    | 0x7f => dispatchRealtime e sourcePort reader length
    | 0x7e => dispatchNonRealtime e sourcePort reader
    | 0x41 => dispatchRoland e sourcePort reader length
    | 0x43 => dispatchYamaha e sourcePort reader length
    | _ => return e

end LinuxSampler
