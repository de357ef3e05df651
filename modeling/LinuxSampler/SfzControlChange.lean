import LinuxSampler.SfzLookup
import LinuxSampler.MidiKeyboard

/-!
# Control changes of the sfz engine

`sfz::Engine::ProcessControlChange()` gets an event on the event list of
its channel, where the voices read it later in the fragment. `Event::Param`
is a union, so the event is a type and the bytes of the union, laid out as
on a 64 bit machine.

What a control change does to the keys is left to `Keyboards`. Left out are
volume, panning and portamento, which neither the event nor the regions
depend on.
-/

namespace LinuxSampler

namespace Sfz

/-! ## Events -/

/-- The bytes of `Event::Param`; each member of the union starts at byte 0. -/
abbrev Param := ℕ → UInt8

namespace Param

/-- Stores a number of `n` bytes at offset `i`, its low byte first. -/
def store (i n v : ℕ) (p : Param) : Param :=
  fun j => if i ≤ j ∧ j < i + n then UInt8.ofNat (v / 256 ^ (j - i)) else p j

/-! `CC` -/

def channel (p : Param) : UInt8 := p 0

def controller (p : Param) : UInt8 := p 1

def value (p : Param) : UInt8 := p 2

/-! `RPN` and `NRPN` -/

def setRpn (channel : UInt8) (parameter value : ℕ) (p : Param) : Param :=
  ((p.store 0 1 channel.toNat).store 2 2 parameter).store 4 2 value

/-! `Note` -/

def setKey (key : ℕ) (p : Param) : Param := p.store 1 1 key

def setVelocity (velocity : ℕ) (p : Param) : Param := p.store 2 1 velocity

def setNoteID (id : ℕ) (p : Param) : Param := p.store 8 8 id

def setRegion (address : ℕ) (p : Param) : Param := p.store 24 8 address

theorem store_before {i j : ℕ} (n v : ℕ) (p : Param) (h : j < i) : p.store i n v j = p j := by
  rw [store, if_neg (by omega)]

@[simp] theorem store_byte (i v : ℕ) (p : Param) : p.store i 1 v i = UInt8.ofNat v := by
  simp [store]

end Param

structure ControlEvent where
  type : EventType
  param : Param

namespace ControlEvent

/-- The types that `AbstractVoice::processCCEvents()` takes for a control change. -/
def IsControlChange (e : ControlEvent) : Prop :=
  e.type = .control_change ∨ e.type = .channel_pressure

instance : DecidablePred IsControlChange := fun e =>
  inferInstanceAs (Decidable (e.type = .control_change ∨ e.type = .channel_pressure))

def controller (e : ControlEvent) : UInt8 := e.param.controller

def value (e : ControlEvent) : UInt8 := e.param.value

end ControlEvent

/-! ## Regions -/

/-- The opcodes that `Region::OnKey()` reads. -/
structure OnKeyOpcodes where
  lobend : ℤ := -8192
  hibend : ℤ := 8192
  lobpm : ℚ := 0
  hibpm : ℚ := 500
  lorand : ℚ := 0
  hirand : ℚ := 1
  lotimer : ℚ := 0
  hitimer : ℚ := 0
  swLast : ℤ := -1
  swDown : ℤ := -1
  swUp : ℤ := -1
  swLokey : ℤ := -1
  swHikey : ℤ := -1
  trigger : UInt8 := 1
  seqPosition : ℤ := 1
  seqLength : ℤ := 1

def TRIGGER_ATTACK : UInt8 := 1

def TRIGGER_FIRST : UInt8 := 4

/-- A query with what the lookup tables do not read. -/
structure FullQuery extends Query where
  bend : ℤ
  bpm : UInt8
  rand : ℚ
  timer : ℚ
  trig : UInt8
  sw : ℤ → Bool
  lastSwKey : UInt8

/-- The conditions of `Region::OnKey()` but for the sequence. -/
def OnKeyOpcodes.isTriggered (r : OnKeyOpcodes) (q : FullQuery) : Bool :=
  (r.lobend ≤ q.bend && q.bend ≤ r.hibend) &&
  (r.lobpm ≤ q.bpm.toNat && q.bpm.toNat < r.hibpm) &&
  (r.lorand ≤ q.rand && q.rand < r.hirand) &&
  (r.lotimer ≤ q.timer && q.timer ≤ r.hitimer) &&
  (r.swLast = -1 ||
    if r.swLokey ≤ r.swLast ∧ r.swLast ≤ r.swHikey then
      (q.lastSwKey.toNat : ℤ) = r.swLast
    else false) &&
  (r.swDown = -1 ||
    if r.swLokey ≤ r.swDown ∧ (r.swHikey = -1 ∨ r.swDown ≤ r.swHikey) then q.sw r.swDown
    else false) &&
  (r.swUp = -1 ||
    if r.swLokey ≤ r.swUp ∧ (r.swHikey = -1 ∨ r.swUp ≤ r.swHikey) then !q.sw r.swUp
    else true) &&
  r.trigger &&& q.trig ≠ 0

/-- `Region::OnKey()` with the counter of the region, which comes back. -/
def OnKeyOpcodes.onKey (r : OnKeyOpcodes) (q : FullQuery) (seqCounter : ℤ) : Bool × ℤ :=
  if r.isTriggered q then (seqCounter = r.seqPosition, seqCounter.tmod r.seqLength + 1)
  else (false, seqCounter)

/-- Opcodes belong to the region with the `id`. -/
structure Instrument where
  pLookupTableCC : Fin 128 → LookupTable
  opcodes : Int → OnKeyOpcodes

namespace Instrument

/-- The regions that `Query::next()` returns one after the other. -/
def nextAll (i : Instrument) (q : FullQuery) : List Region → (Int → ℤ) → List Region
  | [], _ => []
  | r :: rs, seqCounter =>
      let (triggered, n) := (i.opcodes r.id).onKey q (seqCounter r.id)
      let rest := i.nextAll q rs (Function.update seqCounter r.id n)
      if triggered then r :: rest else rest

end Instrument

/-! ## Channel -/

/-- The level is in steps of 1/127. -/
structure FxSend where
  midiController : UInt8
  level : ℕ
  infoChanged : Bool

namespace FxSend

def setLevel (value : UInt8) (send : FxSend) : FxSend :=
  { send with level := value.toNat % 128, infoChanged := true }

def reset (send : FxSend) : FxSend :=
  if send.level = 0 then send else { send with level := 0, infoChanged := true }

end FxSend

/-- The engine channel, `seqCounter` belongs to the regions of its instrument and
`suspended` to the engine. -/
structure ControlChannel where
  controllerTable : UInt8 → UInt8
  pitch : ℤ
  rpn : ParamNumber
  nrpn : ParamNumber
  sustainPedal : Bool
  sostenutoPedal : Bool
  mute : Bool
  fxSends : List FxSend
  pInstrument : Option Instrument
  pressedKeys : ℤ → Bool
  lastKeySwitch : ℤ
  lastKey : ℤ
  seqCounter : Int → ℤ
  suspended : List Int

namespace ControlChannel

/-- `ResetControllers()` -/
def resetControllers (ch : ControlChannel) : ControlChannel :=
  { ch with
    pitch := 0
    sustainPedal := false
    sostenutoPedal := false
    controllerTable := fun c => if c < 129 then 0 else ch.controllerTable c
    fxSends := ch.fxSends.map FxSend.reset }

/-- The end of `ProcessHardcodedControllers()`. -/
def resetParameters (isRpn isNrpn : Bool) (ch : ControlChannel) : ControlChannel :=
  { ch with
    rpn := if !isRpn && ch.rpn.received then .init else ch.rpn
    nrpn := if !isNrpn && ch.nrpn.received then .init else ch.nrpn }

def processFxSendControllers (e : ControlEvent) (ch : ControlChannel) : ControlChannel :=
  { ch with
    fxSends := ch.fxSends.map fun send =>
      if send.midiController = e.controller then send.setLevel e.value else send }

end ControlChannel

/-- What the engine answers: whether the next event is controller 38, whether
the script drops an RPN event, the identity of the new note (0 if there is
none), the random number and the addresses of the regions. -/
structure Answers where
  nextIsDataLsb : Bool
  dropped : Bool
  noteID : ℕ
  random : ℚ
  address : Region → ℕ

/-! ## ProcessHardcodedControllers() -/

/-- The event becomes an RPN event, which the script may drop. -/
def enterRpn (o : Answers) (set : ParamNumber → ParamNumber) (skip : Bool) (e : ControlEvent)
    (ch : ControlChannel) : ControlChannel × ControlEvent :=
  let ch := { ch with rpn := set ch.rpn }
  if skip then (ch, e)
  else
    let parameter := ch.rpn.parameter.getD 0
    let e : ControlEvent :=
      ⟨.rpn, e.param.setRpn e.param.channel parameter ch.rpn.data.toNat⟩
    if ¬ o.dropped ∧ parameter = 16383 then ({ ch with rpn := .init }, e) else (ch, e)

def enterNrpn (o : Answers) (set : ParamNumber → ParamNumber) (skip : Bool) (e : ControlEvent)
    (ch : ControlChannel) : ControlChannel × ControlEvent :=
  let ch := { ch with nrpn := set ch.nrpn }
  if skip then (ch, e)
  else
    let parameter := ch.nrpn.parameter.getD 0
    let e : ControlEvent :=
      ⟨.nrpn, e.param.setRpn e.param.channel parameter ch.nrpn.data.toNat⟩
    if ¬ o.dropped ∧ parameter = 16383 then ({ ch with nrpn := .init }, e) else (ch, e)

/-- Data entry for the parameter number that was sent. -/
def enterData (o : Answers) (set : ParamNumber → ParamNumber) (skip : Bool) (e : ControlEvent)
    (ch : ControlChannel) : ControlChannel × ControlEvent :=
  if ch.rpn.parameter.isSome then
    let (ch, e) := enterRpn o set skip e ch
    (ch.resetParameters true false, e)
  else if ch.nrpn.parameter.isSome then
    let (ch, e) := enterNrpn o set skip e ch
    (ch.resetParameters false true, e)
  else (ch.resetParameters false false, e)

/-- Controller 64; it returns at once from a muted channel. -/
def processSustain (e : ControlEvent) (ch : ControlChannel) : ControlChannel :=
  if e.value ≥ 64 ∧ ch.sustainPedal = false ∨ e.value < 64 ∧ ch.sustainPedal = true then
    let ch := { ch with sustainPedal := !ch.sustainPedal }
    if ch.mute then ch else ch.resetParameters false false
  else ch.resetParameters false false

/-- Controller 66. -/
def processSostenuto (e : ControlEvent) (ch : ControlChannel) : ControlChannel :=
  if e.value ≥ 64 ∧ ch.sostenutoPedal = false ∨ e.value < 64 ∧ ch.sostenutoPedal = true then
    let ch := { ch with sostenutoPedal := !ch.sostenutoPedal }
    if ch.mute then ch else ch.resetParameters false false
  else ch.resetParameters false false

def processHardcodedControllers (o : Answers) (e : ControlEvent) (ch : ControlChannel) :
    ControlChannel × ControlEvent :=
  let v := e.value.toNat
  match e.controller.toNat with
  | 6 => enterData o (·.setDataMsb v) o.nextIsDataLsb e ch
  | 38 => enterData o (·.setDataLsb v) false e ch
  | 64 => (processSustain e ch, e)
  | 66 => (processSostenuto e ch, e)
  | 96 => enterData o (fun p => p.setData (p.data + 1)) false e ch
  | 97 => enterData o (fun p => p.setData (p.data - 1)) false e ch
  | 98 => ({ ch with nrpn := ch.nrpn.setParameterLsb v }.resetParameters false true, e)
  | 99 => ({ ch with nrpn := ch.nrpn.setParameterMsb v }.resetParameters false true, e)
  | 100 => ({ ch with rpn := ch.rpn.setParameterLsb v }.resetParameters true false, e)
  | 101 => ({ ch with rpn := ch.rpn.setParameterMsb v }.resetParameters true false, e)
  | 121 => (ch.resetControllers.resetParameters false false, e)
  | _ => (ch.resetParameters false false, e)

/-! ## ProcessControlChange() -/

/-- The conversion to `uint8_t`. -/
def uint8 (n : ℤ) : UInt8 := UInt8.ofNat (n % 256).toNat

/-- The query for the regions that a control change triggers. -/
def controlQuery (o : Answers) (e : ControlEvent) (ch : ControlChannel) : FullQuery where
  chan := e.param.channel + 1
  key := 60
  vel := 127
  bend := ch.pitch
  bpm := 0
  chanaft := ch.controllerTable 128
  polyaft := 0
  prog := 0
  rand := o.random
  cc := fun c => ch.controllerTable (UInt8.ofNat c)
  timer := 0
  sw := ch.pressedKeys
  lastSwKey := uint8 ch.lastKeySwitch
  prevSwKey := uint8 ch.lastKey
  trig := TRIGGER_ATTACK ||| TRIGGER_FIRST

/-- The event of the control change is made the cause of a note. -/
def ControlEvent.setNote (e : ControlEvent) (address : ℕ) : ControlEvent :=
  { e with param := ((e.param.setKey 60).setVelocity 127).setRegion address }

def ControlEvent.setNoteID (e : ControlEvent) (id : ℕ) : ControlEvent :=
  { e with param := e.param.setNoteID id }

/-- The loop over the regions that the query finds. `launched` is true if
there is a new note; the voices do not change the event. -/
def triggerRegions (o : Answers) (i : Instrument) (q : FullQuery) (launched : Bool) :
    List Region → ControlChannel → ControlEvent → ControlChannel × ControlEvent
  | [], ch, e => (ch, e)
  | r :: rs, ch, e =>
      let (triggered, n) := (i.opcodes r.id).onKey q (ch.seqCounter r.id)
      let ch := { ch with seqCounter := Function.update ch.seqCounter r.id n }
      if triggered ∧ r.id ∉ ch.suspended then
        let e := e.setNote (o.address r)
        if launched then triggerRegions o i q true rs ch e
        else if o.noteID = 0 then (ch, e)
        else triggerRegions o i q true rs ch (e.setNoteID o.noteID)
      else triggerRegions o i q launched rs ch e

/-- `sfz::Engine::ProcessControlChange()`; the event comes back as it is on the list. -/
def processControlChange (o : Answers) (ch : ControlChannel) (e : ControlEvent) :
    ControlChannel × ControlEvent :=
  let cc := e.controller
  let ch := { ch with controllerTable := Function.update ch.controllerTable cc e.value }
  let (ch, e) := processHardcodedControllers o e ch
  let ch := ch.processFxSendControllers e
  match ch.pInstrument with
  | none => (ch, e)
  | some i =>
      if h : cc.toNat < 128 then
        let q := controlQuery o e ch
        triggerRegions o i q false ((i.pLookupTableCC ⟨cc.toNat, h⟩).query q.toQuery) ch e
      else (ch, e)

/-! ## What the voices read -/

/-- The event becomes an RPN or NRPN event: data entry for a parameter number, unless
the low byte of the data follows. -/
def TurnsIntoRpn (o : Answers) (ch : ControlChannel) (e : ControlEvent) : Prop :=
  (ch.rpn.received ∨ ch.nrpn.received) ∧
    (e.controller = 6 ∧ ¬ o.nextIsDataLsb ∨ e.controller = 38 ∨ e.controller = 96 ∨
      e.controller = 97)

/-- The control change triggers a region that is not suspended. -/
def Triggers (o : Answers) (ch : ControlChannel) (e : ControlEvent) : Prop :=
  let ch :=
    { ch with controllerTable := Function.update ch.controllerTable e.controller e.value }
  let (ch, e') := processHardcodedControllers o e ch
  let ch := ch.processFxSendControllers e'
  ∃ i, ch.pInstrument = some i ∧ ∃ h : e.controller.toNat < 128,
    let q := controlQuery o e' ch
    ∃ r ∈ i.nextAll q ((i.pLookupTableCC ⟨e.controller.toNat, h⟩).query q.toQuery) ch.seqCounter,
      r.id ∉ ch.suspended

/-- The voices take the event for a control change, and get the controller and the value that
were received. -/
def StillCarries (o : Answers) (ch : ControlChannel) (e : ControlEvent) : Prop :=
  let e' := (processControlChange o ch e).2
  e'.IsControlChange ∧ e'.controller = e.controller ∧ e'.value = e.value

/-! ## The loop over the regions -/

namespace ControlEvent

variable (e : ControlEvent)

@[simp] theorem setNote_controller (address : ℕ) : (e.setNote address).controller = 60 :=
  calc (e.setNote address).controller
      = ((e.param.setKey 60).setVelocity 127) 1 :=
        Param.store_before (i := 24) (j := 1) 8 address _ (by omega)
    _ = e.param.setKey 60 1 := Param.store_before (i := 2) (j := 1) 1 127 _ (by omega)
    _ = 60 := Param.store_byte ..

@[simp] theorem setNote_value (address : ℕ) : (e.setNote address).value = 127 :=
  calc (e.setNote address).value
      = ((e.param.setKey 60).setVelocity 127) 2 :=
        Param.store_before (i := 24) (j := 2) 8 address _ (by omega)
    _ = 127 := Param.store_byte ..

@[simp] theorem setNoteID_controller (id : ℕ) : (e.setNoteID id).controller = e.controller :=
  Param.store_before (i := 8) (j := 1) 8 id _ (by omega)

@[simp] theorem setNoteID_value (id : ℕ) : (e.setNoteID id).value = e.value :=
  Param.store_before (i := 8) (j := 2) 8 id _ (by omega)

end ControlEvent

section loop

variable {o : Answers} {i : Instrument} {q : FullQuery}

theorem triggerRegions_type (rs : List Region) (launched : Bool) (ch : ControlChannel)
    (e : ControlEvent) : (triggerRegions o i q launched rs ch e).2.type = e.type := by
  induction rs generalizing launched ch e with
  | nil => rfl
  | cons r rs ih =>
    unfold triggerRegions
    dsimp only
    split_ifs
    · exact ih ..
    · rfl
    · exact ih ..
    · exact ih ..

/-- Key and velocity of a note stay in the event. -/
theorem triggerRegions_note (rs : List Region) (launched : Bool) (ch : ControlChannel)
    (e : ControlEvent) (hc : e.controller = 60) (hv : e.value = 127) :
    (triggerRegions o i q launched rs ch e).2.controller = 60 ∧
      (triggerRegions o i q launched rs ch e).2.value = 127 := by
  induction rs generalizing launched ch e with
  | nil => exact ⟨hc, hv⟩
  | cons r rs ih =>
    unfold triggerRegions
    dsimp only
    split_ifs
    · exact ih _ _ _ (by simp) (by simp)
    · exact ⟨by simp, by simp⟩
    · exact ih _ _ _ (by simp) (by simp)
    · exact ih _ _ _ hc hv

/-- The first region that is triggered and not suspended overwrites the event. -/
theorem triggerRegions_of_mem {rs : List Region} {launched : Bool} {ch : ControlChannel}
    {e : ControlEvent} {r : Region} (hr : r ∈ i.nextAll q rs ch.seqCounter)
    (hs : r.id ∉ ch.suspended) :
    (triggerRegions o i q launched rs ch e).2.controller = 60 ∧
      (triggerRegions o i q launched rs ch e).2.value = 127 := by
  induction rs generalizing ch e with
  | nil => simp [Instrument.nextAll] at hr
  | cons r' rs ih =>
    unfold triggerRegions
    dsimp only
    split_ifs with h
    · exact triggerRegions_note _ _ _ _ (by simp) (by simp)
    · exact ⟨by simp, by simp⟩
    · exact triggerRegions_note _ _ _ _ (by simp) (by simp)
    · refine ih ?_ hs
      unfold Instrument.nextAll at hr
      dsimp only at hr
      split at hr
      · next ht =>
        rcases List.mem_cons.1 hr with rfl | hr
        · exact absurd ⟨ht, hs⟩ h
        · exact hr
      · exact hr

theorem triggerRegions_of_suspended {rs : List Region} {launched : Bool} {ch : ControlChannel}
    {e : ControlEvent} (h : ∀ r ∈ i.nextAll q rs ch.seqCounter, r.id ∈ ch.suspended) :
    (triggerRegions o i q launched rs ch e).2 = e := by
  induction rs generalizing ch with
  | nil => rfl
  | cons r rs ih =>
    unfold triggerRegions
    unfold Instrument.nextAll at h
    dsimp only at h ⊢
    rw [if_neg]
    · refine ih fun r' hr' => h r' ?_
      split
      · exact List.mem_cons_of_mem _ hr'
      · exact hr'
    · rintro ⟨ht, hs⟩
      rw [if_pos ht] at h
      exact hs (h r List.mem_cons_self)

end loop

/-! ## Data entry -/

@[simp] theorem parameter_isSome (p : ParamNumber) : p.parameter.isSome = p.received := by
  unfold ParamNumber.parameter
  split_ifs with h <;> simp [h]

section enterData

variable (o : Answers) (set : ParamNumber → ParamNumber) (e : ControlEvent) (ch : ControlChannel)

theorem enterRpn_type : (enterRpn o set false e ch).2.type = .rpn := by
  unfold enterRpn
  split
  · contradiction
  · dsimp only
    split <;> rfl

theorem enterNrpn_type : (enterNrpn o set false e ch).2.type = .nrpn := by
  unfold enterNrpn
  split
  · contradiction
  · dsimp only
    split <;> rfl

theorem enterData_type (h : ch.rpn.received ∨ ch.nrpn.received) :
    ¬ (enterData o set false e ch).2.IsControlChange := by
  have hrpn := enterRpn_type o set e ch
  have hnrpn := enterNrpn_type o set e ch
  unfold enterData ControlEvent.IsControlChange
  simp only [parameter_isSome]
  split
  · simp [hrpn]
  · next hr =>
    rw [if_pos (h.resolve_left hr)]
    simp [hnrpn]

theorem enterData_skip : (enterData o set true e ch).2 = e := by
  unfold enterData
  split
  · rfl
  · split <;> rfl

theorem enterData_none (skip : Bool) (h : ¬ (ch.rpn.received ∨ ch.nrpn.received)) :
    (enterData o set skip e ch).2 = e := by
  obtain ⟨h₁, h₂⟩ := not_or.1 h
  unfold enterData
  rw [parameter_isSome, if_neg h₁, parameter_isSome, if_neg h₂]

end enterData

/-! ## What remains of the event -/

variable {o : Answers} {ch : ControlChannel} {e : ControlEvent}

theorem processHardcodedControllers_rpn (h : TurnsIntoRpn o ch e) :
    ¬ (processHardcodedControllers o e ch).2.IsControlChange := by
  obtain ⟨hr, ⟨hc, hn⟩ | hc | hc | hc⟩ := h
  all_goals
    unfold processHardcodedControllers
    rw [hc]
  · rw [Bool.not_eq_true] at hn
    rw [hn]
    exact enterData_type _ _ _ _ hr
  · exact enterData_type _ _ _ _ hr
  · exact enterData_type _ _ _ _ hr
  · exact enterData_type _ _ _ _ hr

theorem processHardcodedControllers_event (h : ¬ TurnsIntoRpn o ch e) :
    (processHardcodedControllers o e ch).2 = e := by
  have hentry {set : ParamNumber → ParamNumber} {skip : Bool}
      (hs : ch.rpn.received ∨ ch.nrpn.received → skip = true) : (enterData o set skip e ch).2 = e := by
    by_cases hr : ch.rpn.received ∨ ch.nrpn.received
    · rw [hs hr]
      exact enterData_skip ..
    · exact enterData_none _ _ _ _ _ hr
  unfold processHardcodedControllers
  dsimp only
  split
  case h_1 hc =>
    refine hentry fun hr => by_contra fun hn => h ⟨hr, Or.inl ⟨UInt8.toNat_inj.1 hc, hn⟩⟩
  case h_2 hc => exact hentry fun hr => absurd ⟨hr, Or.inr (Or.inl (UInt8.toNat_inj.1 hc))⟩ h
  case h_5 hc =>
    exact hentry fun hr => absurd ⟨hr, Or.inr (Or.inr (Or.inl (UInt8.toNat_inj.1 hc)))⟩ h
  case h_6 hc =>
    exact hentry fun hr => absurd ⟨hr, Or.inr (Or.inr (Or.inr (UInt8.toNat_inj.1 hc)))⟩ h
  all_goals rfl

theorem turnsIntoRpn_update {f : UInt8 → UInt8} :
    TurnsIntoRpn o { ch with controllerTable := f } e ↔ TurnsIntoRpn o ch e := Iff.rfl

theorem processControlChange_rpn (h : TurnsIntoRpn o ch e) :
    ¬ (processControlChange o ch e).2.IsControlChange := by
  have he := processHardcodedControllers_rpn
    (turnsIntoRpn_update (f := Function.update ch.controllerTable e.controller e.value) |>.2 h)
  unfold processControlChange
  dsimp only
  split
  · exact he
  · split
    · unfold ControlEvent.IsControlChange at he ⊢
      rwa [triggerRegions_type]
    · exact he

/-- Without data entry the event is the one that was received until a region is triggered. -/
theorem processControlChange_event (h : ¬ TurnsIntoRpn o ch e) :
    (Triggers o ch e → (processControlChange o ch e).2.controller = 60 ∧
        (processControlChange o ch e).2.value = 127) ∧
      (¬ Triggers o ch e → (processControlChange o ch e).2 = e) := by
  have he := processHardcodedControllers_event
    (turnsIntoRpn_update (f := Function.update ch.controllerTable e.controller e.value) |>.not.2 h)
  unfold Triggers processControlChange
  dsimp only
  rw [he]
  split
  · next hi =>
    refine ⟨?_, fun _ => rfl⟩
    rintro ⟨i, hi', _⟩
    rw [hi] at hi'
    contradiction
  · next i hi =>
    rw [hi]
    split
    · next hc =>
      constructor
      · rintro ⟨_, ⟨rfl⟩, _, r, hr, hs⟩
        exact triggerRegions_of_mem hr hs
      · intro hn
        refine triggerRegions_of_suspended fun r hr => by_contra fun hs => hn ⟨i, rfl, hc, r, hr, hs⟩
    · next hc =>
      refine ⟨?_, fun _ => rfl⟩
      rintro ⟨_, _, hc', _⟩
      exact absurd hc' hc

theorem processControlChange_type (h : ¬ TurnsIntoRpn o ch e) :
    (processControlChange o ch e).2.type = e.type := by
  have he := processHardcodedControllers_event
    (turnsIntoRpn_update (f := Function.update ch.controllerTable e.controller e.value) |>.not.2 h)
  unfold processControlChange
  dsimp only
  rw [he]
  split
  · rfl
  · split
    · exact triggerRegions_type ..
    · rfl

/-- The event is kept unless it becomes data for a parameter number, or triggers a region, which
overwrites controller and value with key 60 and velocity 127. -/
theorem stillCarries_iff (he : e.IsControlChange) :
    StillCarries o ch e ↔
      ¬ TurnsIntoRpn o ch e ∧ (¬ Triggers o ch e ∨ e.controller = 60 ∧ e.value = 127) := by
  unfold StillCarries
  by_cases hr : TurnsIntoRpn o ch e
  · exact iff_of_false (fun h => processControlChange_rpn hr h.1) fun h => h.1 hr
  · obtain ⟨ht, hn⟩ := processControlChange_event hr
    have htype : (processControlChange o ch e).2.IsControlChange := by
      unfold ControlEvent.IsControlChange at he ⊢
      rwa [processControlChange_type hr]
    by_cases htr : Triggers o ch e
    · obtain ⟨hc, hv⟩ := ht htr
      simp [htype, hc, hv, hr, htr, eq_comm]
    · rw [hn htr]
      exact iff_of_true ⟨he, rfl, rfl⟩ ⟨hr, Or.inl htr⟩

/-- A region without a key that each value of controller 64 triggers. -/
def pedalRegion : Region where
  id := 0
  lokey := -1
  hikey := -1
  onLocc := fun cc => if cc = 64 then 0 else -1
  onHicc := fun cc => if cc = 64 then 127 else -1

def pedalChannel : ControlChannel where
  controllerTable := fun _ => 0
  pitch := 0
  rpn := .init
  nrpn := .init
  sustainPedal := false
  sostenutoPedal := false
  mute := false
  fxSends := []
  pInstrument := some {
    pLookupTableCC := fun cc =>
      (LookupTable.construct [pedalRegion] (some cc)).getD ⟨[], fun _ => []⟩
    opcodes := fun _ => {} }
  pressedKeys := fun _ => false
  lastKeySwitch := -1
  lastKey := -1
  seqCounter := fun _ => 1
  suspended := []

/-- There is a free note, a random number below one and no script. -/
def pedalAnswers : Answers := ⟨false, false, 1, 0, fun _ => 4096⟩

/-- Controller 64 with the value 100 on the first channel. -/
def pedalEvent : ControlEvent :=
  ⟨.control_change, fun i => if i = 1 then 64 else if i = 2 then 100 else 0⟩

theorem not_stillCarries : ¬ StillCarries pedalAnswers pedalChannel pedalEvent := by
  rintro ⟨-, h⟩
  revert h
  decide +kernel

/-- Not so with the modulation wheel, for which the instrument has no region. -/
theorem stillCarries_modulation :
    StillCarries pedalAnswers pedalChannel
      ⟨.control_change, fun i => if i = 1 then 1 else if i = 2 then 100 else 0⟩ := by
  refine (stillCarries_iff (Or.inl rfl)).mpr ⟨?_, Or.inl ?_⟩
  · rintro ⟨hr | hr, -⟩ <;> cases hr
  · rintro ⟨i, hi, hc, r, hr, -⟩
    cases hi
    exact List.not_mem_nil hr

end Sfz

end LinuxSampler
