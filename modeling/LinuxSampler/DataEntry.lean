import LinuxSampler.SfzControlChange

/-!
# Data entry for parameter numbers

Controllers 98 to 101 select a registered or non registered parameter number,
controllers 6, 38, 96 and 97 enter data for it. `SelectedParameter` says what
is meant: the parameter selected last, with what was entered for it since. The
engine channel has two sets of registers for this and a flag in each.

Between two control changes everything but these registers may change, so each
control change of a run comes with the rest of the channel.
-/

namespace LinuxSampler

/-! ## What is meant -/

inductive ParameterKind where
  | rpn
  | nrpn
deriving DecidableEq

def ParameterKind.eventType : ParameterKind → EventType
  | .rpn => .rpn
  | .nrpn => .nrpn

inductive DataChange where
  | msb (v : ℕ)
  | lsb (v : ℕ)
  | increment
  | decrement

/-- The 14 bit value after the change; `v` counts modulo 128. -/
def DataChange.apply : DataChange → Fin 16384 → Fin 16384
  | .msb v, data => ⟨v % 128 * 128 + data.val % 128, by omega⟩
  | .lsb v, data => ⟨data.val / 128 * 128 + v % 128, by omega⟩
  | .increment, data => ⟨min (data.val + 1) 16383, by omega⟩
  | .decrement, data => ⟨data.val - 1, by omega⟩

/-- `entered` is what was entered since the number was selected, in order. -/
structure SelectedParameter where
  kind : ParameterKind
  msb : Fin 128
  lsb : Fin 128
  entered : List DataChange

namespace SelectedParameter

def number (s : SelectedParameter) : ℕ := s.msb.val * 128 + s.lsb.val

/-- A byte that is missing counts as zero. -/
def data (s : SelectedParameter) : Fin 16384 :=
  s.entered.foldl (fun data c => c.apply data) 0

def enter (c : DataChange) (s : SelectedParameter) : SelectedParameter :=
  { s with entered := s.entered ++ [c] }

/-- The registers of its kind. -/
def toRegister (s : SelectedParameter) : ParamNumber :=
  ⟨s.msb, s.lsb, s.data.val / 128, s.data.val % 128, true⟩

theorem data_enter (c : DataChange) (s : SelectedParameter) :
    (s.enter c).data = c.apply s.data := by
  unfold data enter
  rw [List.foldl_append]
  rfl

end SelectedParameter

/-- What a control change means. Entered data is delivered unless it `isPart` of data whose
low byte follows, and a delivery that is not `dropped` ends the selection of the null function. -/
inductive ParameterAction where
  | selectMsb (kind : ParameterKind) (v : ℕ)
  | selectLsb (kind : ParameterKind) (v : ℕ)
  | enter (c : DataChange) (isPart dropped : Bool)
  | keep
  | deselect

namespace ParameterAction

def nullFunction : ℕ := 16383

/-- The null function is entered, and not dropped. -/
def IsNull (isPart dropped : Bool) (s : SelectedParameter) : Prop :=
  ¬ isPart ∧ ¬ dropped ∧ s.number = nullFunction

instance (isPart dropped : Bool) (s : SelectedParameter) : Decidable (IsNull isPart dropped s) :=
  inferInstanceAs (Decidable (_ ∧ _))

/-- A new selection keeps the other byte of a number of its kind, and no data. -/
def apply : ParameterAction → Option SelectedParameter → Option SelectedParameter
  | .selectMsb kind v, some s =>
      some ⟨kind, Fin.ofNat 128 v, if s.kind = kind then s.lsb else 0, []⟩
  | .selectMsb kind v, none => some ⟨kind, Fin.ofNat 128 v, 0, []⟩
  | .selectLsb kind v, some s =>
      some ⟨kind, if s.kind = kind then s.msb else 0, Fin.ofNat 128 v, []⟩
  | .selectLsb kind v, none => some ⟨kind, 0, Fin.ofNat 128 v, []⟩
  | .enter c isPart dropped, some s =>
      if IsNull isPart dropped s then none else some (s.enter c)
  | .enter _ _ _, none => none
  | .keep, s => s
  | .deselect, _ => none

theorem apply_enter (c : DataChange) (isPart dropped : Bool) (s : SelectedParameter) :
    (enter c isPart dropped).apply (some s) =
      if IsNull isPart dropped s then none else some (s.enter c) := rfl

def delivers : ParameterAction → Option SelectedParameter → Option SelectedParameter
  | .enter c false _, some s => some (s.enter c)
  | _, _ => none

def selects : ParameterAction → Option ParameterKind
  | .selectMsb kind _ => some kind
  | .selectLsb kind _ => some kind
  | _ => none

end ParameterAction

namespace Sfz

/-! ## The registers -/

def ControlChannel.registers (ch : ControlChannel) : ParameterKind → ParamNumber
  | .rpn => ch.rpn
  | .nrpn => ch.nrpn

def ControlChannel.setRegisters (r : ParameterKind → ParamNumber) (ch : ControlChannel) :
    ControlChannel :=
  { ch with rpn := r .rpn, nrpn := r .nrpn }

/-- Controller 64 or 66 moves its pedal. -/
def MovesPedal (e : ControlEvent) (pedal : Bool) : Prop :=
  e.value ≥ 64 ∧ pedal = false ∨ e.value < 64 ∧ pedal = true

instance (e : ControlEvent) (pedal : Bool) : Decidable (MovesPedal e pedal) :=
  inferInstanceAs (Decidable (_ ∨ _))

/-- A pedal that moves on a muted channel leaves the selection. -/
def parameterAction (o : Answers) (e : ControlEvent) (ch : ControlChannel) : ParameterAction :=
  let v := e.value.toNat
  match e.controller.toNat with
  | 6 => .enter (.msb v) o.nextIsDataLsb o.dropped
  | 38 => .enter (.lsb v) false o.dropped
  | 64 => if MovesPedal e ch.sustainPedal ∧ ch.mute then .keep else .deselect
  | 66 => if MovesPedal e ch.sostenutoPedal ∧ ch.mute then .keep else .deselect
  | 96 => .enter .increment false o.dropped
  | 97 => .enter .decrement false o.dropped
  | 98 => .selectLsb .nrpn v
  | 99 => .selectMsb .nrpn v
  | 100 => .selectLsb .rpn v
  | 101 => .selectMsb .rpn v
  | _ => .deselect

/-! ## Runs of control changes -/

/-- A control change, with the channel it finds but for the registers. -/
structure ControlInput where
  answers : Answers
  event : ControlEvent
  channel : ControlChannel

namespace ControlInput

def action (i : ControlInput) : ParameterAction :=
  parameterAction i.answers i.event i.channel

/-- What `ProcessHardcodedControllers()` makes of the registers and of the event. -/
def process (i : ControlInput) (r : ParameterKind → ParamNumber) :
    (ParameterKind → ParamNumber) × ControlEvent :=
  let (ch, e) := processHardcodedControllers i.answers i.event (i.channel.setRegisters r)
  (ch.registers, e)

end ControlInput

/-- A member of `RPN` or `NRPN` that is two bytes wide. -/
def Param.word (i : ℕ) (p : Param) : ℕ := (p i).toNat + 256 * (p (i + 1)).toNat

/-- The event became one for the parameter with its number and value. -/
structure Delivered (e e' : ControlEvent) (s : SelectedParameter) : Prop where
  type : e'.type = s.kind.eventType
  channel : e'.param.channel = e.param.channel
  parameter : e'.param.word 2 = s.number
  value : e'.param.word 4 = s.data

/-- The registers when the parameter is selected; those of the other kind are reset. -/
def registersOf : Option SelectedParameter → ParameterKind → ParamNumber
  | some s => fun kind => if kind = s.kind then s.toRegister else .init
  | none => fun _ => .init

/-- A control change does what it means: at most one number is selected, namely the one that
was selected last, with the data entered since, and what is delivered is that data. -/
structure Enters (i : ControlInput) (r : ParameterKind → ParamNumber)
    (s : Option SelectedParameter) : Prop where
  one : ¬ (((i.process r).1 .rpn).received ∧ ((i.process r).1 .nrpn).received)
  selected : (i.process r).1 = registersOf (i.action.apply s)
  delivered : match i.action.delivers s with
    | some s' => Delivered i.event (i.process r).2 s'
    | none => (i.process r).2 = i.event

/-- Each control change of a run does what it means. -/
def EntersAll : List ControlInput → (ParameterKind → ParamNumber) → Option SelectedParameter → Prop
  | [], _, _ => True
  | i :: inputs, r, s => Enters i r s ∧ EntersAll inputs (i.process r).1 (i.action.apply s)

/-- A parameter number is selected while the registers of its kind hold no data. -/
def FindsNoData (i : ControlInput) (r : ParameterKind → ParamNumber) : Prop :=
  ∀ kind, i.action.selects = some kind → (r kind).data = 0

def FindNoData : List ControlInput → (ParameterKind → ParamNumber) → Prop
  | [], _ => True
  | i :: inputs, r => FindsNoData i r ∧ FindNoData inputs (i.process r).1

/-! ## Data entry -/

/-- What data entry does to the registers. -/
def setChange : DataChange → ParamNumber → ParamNumber
  | .msb v => (·.setDataMsb v)
  | .lsb v => (·.setDataLsb v)
  | .increment => fun p => p.setData (p.data + 1)
  | .decrement => fun p => p.setData (p.data - 1)

section registers

variable (s : SelectedParameter)

@[simp] theorem toRegister_received : s.toRegister.received = true := rfl

@[simp] theorem toRegister_parameter : s.toRegister.parameter = some s.number := rfl

@[simp] theorem toRegister_data : s.toRegister.data = s.data.val := by
  have h := Nat.div_add_mod s.data.val 128
  simp only [ParamNumber.data, SelectedParameter.toRegister, if_true]
  omega

@[simp] theorem number_enter (c : DataChange) : (s.enter c).number = s.number := rfl

@[simp] theorem kind_enter (c : DataChange) : (s.enter c).kind = s.kind := rfl

theorem setChange_toRegister (c : DataChange) :
    setChange c s.toRegister = (s.enter c).toRegister := by
  have hdata := s.data.isLt
  unfold SelectedParameter.toRegister
  rw [SelectedParameter.data_enter]
  cases c with
  | msb v =>
    simp only [setChange, ParamNumber.setDataMsb, DataChange.apply, SelectedParameter.enter,
      ParamNumber.mk.injEq, true_and, and_true]
    omega
  | lsb v =>
    simp only [setChange, ParamNumber.setDataLsb, DataChange.apply, SelectedParameter.enter,
      ParamNumber.mk.injEq, true_and, and_true]
    omega
  | increment =>
    have h := toRegister_data s
    unfold SelectedParameter.toRegister at h
    simp only [setChange, h, ParamNumber.setData, DataChange.apply, SelectedParameter.enter,
      ParamNumber.mk.injEq, true_and, and_true]
    omega
  | decrement =>
    have h := toRegister_data s
    unfold SelectedParameter.toRegister at h
    simp only [setChange, h, ParamNumber.setData, DataChange.apply, SelectedParameter.enter,
      ParamNumber.mk.injEq, true_and, and_true]
    omega

theorem registersOf_received (s : Option SelectedParameter) :
    ¬ ((registersOf s .rpn).received ∧ (registersOf s .nrpn).received) := by
  cases s with
  | none => exact fun h => Bool.noConfusion h.1
  | some s =>
    cases h : s.kind <;> simp [registersOf, h, ParamNumber.init]

end registers

/-- The event that is delivered for a parameter. -/
def deliver (s : SelectedParameter) (e : ControlEvent) : ControlEvent :=
  ⟨s.kind.eventType, e.param.setRpn e.param.channel s.number s.data.val⟩

theorem Param.word_store (i v : ℕ) (p : Param) : (p.store i 2 v).word i = v % 65536 := by
  unfold Param.word Param.store
  rw [if_pos (by omega), if_pos (by omega), Nat.sub_self, Nat.add_sub_cancel_left,
    UInt8.toNat_ofNat', UInt8.toNat_ofNat']
  omega

theorem Param.word_store_after {i j : ℕ} (n v : ℕ) (p : Param) (h : i + 2 ≤ j) :
    (p.store j n v).word i = p.word i := by
  unfold Param.word
  rw [Param.store_before n v p (by omega), Param.store_before n v p (by omega)]

theorem delivered_deliver (s : SelectedParameter) (e : ControlEvent) :
    Delivered e (deliver s e) s where
  type := rfl
  channel := by
    let channel := e.param.channel.toNat
    calc (((e.param.store 0 1 channel).store 2 2 s.number).store 4 2 s.data.val) 0
        = ((e.param.store 0 1 channel).store 2 2 s.number) 0 :=
          Param.store_before 2 s.data.val _ (by omega)
      _ = (e.param.store 0 1 channel) 0 := Param.store_before 2 s.number _ (by omega)
      _ = UInt8.ofNat channel := Param.store_byte 0 channel e.param
      _ = e.param.channel := UInt8.ofNat_toNat
  parameter := by
    have hnumber : s.number < 65536 := by
      have hmsb := s.msb.isLt
      have hlsb := s.lsb.isLt
      unfold SelectedParameter.number
      omega
    calc (((e.param.store 0 1 _).store 2 2 s.number).store 4 2 s.data.val : Param).word 2
        = ((e.param.store 0 1 _).store 2 2 s.number : Param).word 2 :=
          Param.word_store_after 2 s.data.val _ (by omega)
      _ = s.number := by rw [Param.word_store, Nat.mod_eq_of_lt hnumber]
  value := by
    have hdata := s.data.isLt
    change (Param.store 4 2 s.data.val _).word 4 = s.data.val
    rw [Param.word_store, Nat.mod_eq_of_lt (by omega)]

section enter

variable {o : Answers} {c : DataChange} {skip : Bool} {e : ControlEvent} {ch : ControlChannel}
  {s : SelectedParameter}

/-- One of the two sets of registers takes the data and the event. -/
theorem enterRpn_selected (hr : ch.rpn = s.toRegister) (hk : s.kind = .rpn) :
    enterRpn o (setChange c) skip e ch =
      ({ ch with
          rpn := if ParameterAction.IsNull skip o.dropped s then .init
            else (s.enter c).toRegister },
        if skip then e else deliver (s.enter c) e) := by
  unfold enterRpn deliver
  rw [hr, setChange_toRegister]
  cases skip with
  | true => rfl
  | false =>
    have htype : (s.enter c).kind.eventType = .rpn := by rw [kind_enter, hk]; rfl
    simp only [toRegister_parameter, Option.getD_some, number_enter, toRegister_data,
      Int.toNat_natCast, htype, ParameterAction.IsNull, ParameterAction.nullFunction]
    split_ifs with h h' h' <;> first | rfl | simp_all

theorem enterNrpn_selected (hr : ch.nrpn = s.toRegister) (hk : s.kind = .nrpn) :
    enterNrpn o (setChange c) skip e ch =
      ({ ch with
          nrpn := if ParameterAction.IsNull skip o.dropped s then .init
            else (s.enter c).toRegister },
        if skip then e else deliver (s.enter c) e) := by
  unfold enterNrpn deliver
  rw [hr, setChange_toRegister]
  cases skip with
  | true => rfl
  | false =>
    have htype : (s.enter c).kind.eventType = .nrpn := by rw [kind_enter, hk]; rfl
    simp only [toRegister_parameter, Option.getD_some, number_enter, toRegister_data,
      Int.toNat_natCast, htype, ParameterAction.IsNull, ParameterAction.nullFunction]
    split_ifs with h h' h' <;> first | rfl | simp_all

/-- The registers after a control change that keeps those of the kinds it is about. -/
theorem registers_resetParameters (isRpn isNrpn : Bool) :
    (ch.resetParameters isRpn isNrpn).registers = fun
      | .rpn => if !isRpn && ch.rpn.received then .init else ch.rpn
      | .nrpn => if !isNrpn && ch.nrpn.received then .init else ch.nrpn := by
  funext kind
  cases kind <;> rfl

variable (o c skip e) in
theorem enterData_selected (hr : ch.registers = registersOf (some s)) :
    (enterData o (setChange c) skip e ch).1.registers =
        registersOf ((ParameterAction.enter c skip o.dropped).apply (some s)) ∧
      (enterData o (setChange c) skip e ch).2 = if skip then e else deliver (s.enter c) e := by
  have hrpn : ch.rpn = registersOf (some s) .rpn := congrFun hr .rpn
  have hnrpn : ch.nrpn = registersOf (some s) .nrpn := congrFun hr .nrpn
  unfold enterData
  cases hk : s.kind with
  | rpn =>
    simp only [registersOf, hk, if_true, reduceCtorEq, if_false] at hrpn hnrpn
    rw [parameter_isSome, hrpn, if_pos (toRegister_received s), enterRpn_selected hrpn hk]
    refine ⟨?_, rfl⟩
    rw [registers_resetParameters, ParameterAction.apply_enter]
    funext kind
    by_cases h : ParameterAction.IsNull skip o.dropped s
    · cases kind <;> simp [h, registersOf, hnrpn, ParamNumber.init]
    · cases kind <;> simp [h, registersOf, hk, hnrpn, ParamNumber.init]
  | nrpn =>
    simp only [registersOf, hk, if_true, reduceCtorEq, if_false] at hrpn hnrpn
    rw [parameter_isSome, hrpn, if_neg (by simp [ParamNumber.init]), parameter_isSome, hnrpn,
      if_pos (toRegister_received s), enterNrpn_selected hnrpn hk]
    refine ⟨?_, rfl⟩
    rw [registers_resetParameters, ParameterAction.apply_enter]
    funext kind
    by_cases h : ParameterAction.IsNull skip o.dropped s
    · cases kind <;> simp [h, registersOf, hrpn, ParamNumber.init]
    · cases kind <;> simp [h, registersOf, hk, hrpn, ParamNumber.init]

variable (o c skip e) in
/-- Data entry without a parameter number leaves everything as it is. -/
theorem enterData_unselected (hr : ch.registers = registersOf none) :
    (enterData o (setChange c) skip e ch).1.registers = registersOf none ∧
      (enterData o (setChange c) skip e ch).2 = e := by
  have hrpn : ch.rpn = .init := congrFun hr .rpn
  have hnrpn : ch.nrpn = .init := congrFun hr .nrpn
  unfold enterData
  rw [parameter_isSome, hrpn, if_neg (by simp [ParamNumber.init]), parameter_isSome, hnrpn,
    if_neg (by simp [ParamNumber.init])]
  refine ⟨?_, rfl⟩
  rw [registers_resetParameters, hrpn, hnrpn]
  funext kind
  cases kind <;> rfl

end enter

/-! ## Steps -/

/-- A pedal that moves while the channel is muted ends the processing before the
registers are reset. -/
theorem registers_pedal {moves mute : Prop} [Decidable moves] [Decidable mute]
    {ch muted moved still : ControlChannel} (hmuted : muted.registers = ch.registers)
    (hmoved : moved.registers = (ch.resetParameters false false).registers)
    (hstill : still.registers = (ch.resetParameters false false).registers) :
    (if moves then if mute then muted else moved else still).registers =
      if moves ∧ mute then ch.registers else (ch.resetParameters false false).registers := by
  by_cases hmove : moves
  · rw [if_pos hmove]
    by_cases hmute : mute
    · rw [if_pos hmute, if_pos ⟨hmove, hmute⟩, hmuted]
    · rw [if_neg hmute, if_neg fun h => hmute h.2, hmoved]
  · rw [if_neg hmove, if_neg fun h => hmove h.1, hstill]

theorem processSustain_registers (e : ControlEvent) (ch : ControlChannel) :
    (processSustain e ch).registers =
      if MovesPedal e ch.sustainPedal ∧ ch.mute then ch.registers
      else (ch.resetParameters false false).registers :=
  registers_pedal rfl rfl rfl

theorem processSostenuto_registers (e : ControlEvent) (ch : ControlChannel) :
    (processSostenuto e ch).registers =
      if MovesPedal e ch.sostenutoPedal ∧ ch.mute then ch.registers
      else (ch.resetParameters false false).registers :=
  registers_pedal rfl rfl rfl

theorem setRegisters_registers (r : ParameterKind → ParamNumber) (ch : ControlChannel) :
    (ch.setRegisters r).registers = r := by
  funext kind
  cases kind <;> rfl

/-- The end of `ProcessHardcodedControllers()` for a kind that the event is not about. -/
def resetParameter (p : ParamNumber) : ParamNumber := if p.received then .init else p

def selectParameter (kind : ParameterKind) (set : ParamNumber → ParamNumber)
    (r : ParameterKind → ParamNumber) : ParameterKind → ParamNumber :=
  fun kind' => if kind' = kind then set (r kind) else resetParameter (r kind')

/-- What the registers and the event become, by what the control change means. -/
theorem process_action (i : ControlInput) (r : ParameterKind → ParamNumber) :
    i.process r =
      match i.action with
      | .selectMsb kind v => (selectParameter kind (·.setParameterMsb v) r, i.event)
      | .selectLsb kind v => (selectParameter kind (·.setParameterLsb v) r, i.event)
      | .enter c skip dropped =>
          let (ch, e) := enterData { i.answers with dropped := dropped } (setChange c) skip i.event
            (i.channel.setRegisters r)
          (ch.registers, e)
      | .keep => (r, i.event)
      | .deselect => (fun kind => resetParameter (r kind), i.event) := by
  have hreset {ch : ControlChannel} (h : ch.registers = r) :
      (ch.resetParameters false false).registers = fun kind => resetParameter (r kind) := by
    rw [← h, registers_resetParameters]
    funext kind
    cases kind <;> rfl
  unfold ControlInput.process ControlInput.action parameterAction processHardcodedControllers
  dsimp only
  split
  case h_3 h =>
    rw [h]
    have hregisters := processSustain_registers i.event (i.channel.setRegisters r)
    rw [setRegisters_registers, hreset (setRegisters_registers ..)] at hregisters
    by_cases hmove : MovesPedal i.event i.channel.sustainPedal ∧ i.channel.mute
    · rw [hregisters.trans (if_pos hmove), if_pos hmove]
      rfl
    · rw [hregisters.trans (if_neg hmove), if_neg hmove]
      rfl
  case h_4 h =>
    rw [h]
    have hregisters := processSostenuto_registers i.event (i.channel.setRegisters r)
    rw [setRegisters_registers, hreset (setRegisters_registers ..)] at hregisters
    by_cases hmove : MovesPedal i.event i.channel.sostenutoPedal ∧ i.channel.mute
    · rw [hregisters.trans (if_pos hmove), if_pos hmove]
      rfl
    · rw [hregisters.trans (if_neg hmove), if_neg hmove]
      rfl
  case h_12 =>
    rw [hreset (setRegisters_registers ..)]
    split <;> first | rfl | simp_all
  case h_11 h =>
    rw [h]
    exact congrArg (·, i.event) (hreset (setRegisters_registers r i.channel))
  all_goals
    next h =>
      rw [h]
      first
        | rfl
        | exact Prod.ext (funext fun kind => by cases kind <;> rfl) rfl

theorem registersOf_same {s : SelectedParameter} {kind : ParameterKind} (h : s.kind = kind) :
    registersOf (some s) kind = s.toRegister := if_pos h.symm

theorem registersOf_other {s : SelectedParameter} {kind : ParameterKind} (h : s.kind ≠ kind) :
    registersOf (some s) kind = .init := if_neg h.symm

/-- The registers of a kind whose parameter is not selected are reset already. -/
theorem reset_registersOf (s : Option SelectedParameter) (kind : ParameterKind) :
    resetParameter (registersOf s kind) = .init := by
  cases s with
  | none => rfl
  | some s =>
    by_cases h : s.kind = kind
    · rw [registersOf_same h]
      rfl
    · rw [registersOf_other h]
      rfl

theorem toRegister_nil (kind : ParameterKind) (msb lsb : Fin 128) :
    (⟨kind, msb, lsb, []⟩ : SelectedParameter).toRegister = ⟨msb, lsb, 0, 0, true⟩ := by
  simp [SelectedParameter.toRegister, SelectedParameter.data]

/-- A register whose number is new is that of the new selection if it holds no data. -/
theorem toRegister_eq_iff (s : SelectedParameter) (msb lsb : Fin 128) (kind : ParameterKind) :
    (⟨msb, lsb, s.data.val / 128, s.data.val % 128, true⟩ : ParamNumber) =
      (⟨kind, msb, lsb, []⟩ : SelectedParameter).toRegister ↔ s.toRegister.data = 0 := by
  have h := Nat.div_add_mod s.data.val 128
  rw [toRegister_data, toRegister_nil, ParamNumber.mk.injEq]
  constructor
  · rintro ⟨-, -, hmsb, hlsb, -⟩
    omega
  · intro hdata
    exact ⟨rfl, rfl, by omega, by omega, rfl⟩

theorem setParameterMsb_iff (s : Option SelectedParameter) (kind : ParameterKind) (v : ℕ) :
    ∃ s', (ParameterAction.selectMsb kind v).apply s = some s' ∧ s'.kind = kind ∧
      ((registersOf s kind).setParameterMsb v = s'.toRegister ↔
        (registersOf s kind).data = 0) := by
  cases s with
  | none =>
    refine ⟨_, rfl, rfl, ?_⟩
    rw [toRegister_nil]
    exact iff_of_true rfl rfl
  | some s =>
    refine ⟨_, rfl, rfl, ?_⟩
    by_cases h : s.kind = kind
    · rw [registersOf_same h, if_pos h]
      exact toRegister_eq_iff s (Fin.ofNat 128 v) s.lsb kind
    · rw [registersOf_other h, if_neg h, toRegister_nil]
      exact iff_of_true rfl rfl

theorem setParameterLsb_iff (s : Option SelectedParameter) (kind : ParameterKind) (v : ℕ) :
    ∃ s', (ParameterAction.selectLsb kind v).apply s = some s' ∧ s'.kind = kind ∧
      ((registersOf s kind).setParameterLsb v = s'.toRegister ↔
        (registersOf s kind).data = 0) := by
  cases s with
  | none =>
    refine ⟨_, rfl, rfl, ?_⟩
    rw [toRegister_nil]
    exact iff_of_true rfl rfl
  | some s =>
    refine ⟨_, rfl, rfl, ?_⟩
    by_cases h : s.kind = kind
    · rw [registersOf_same h, if_pos h]
      exact toRegister_eq_iff s s.msb (Fin.ofNat 128 v) kind
    · rw [registersOf_other h, if_neg h, toRegister_nil]
      exact iff_of_true rfl rfl

/-- Selection gives the registers of the new selection if the one that it sets holds no data. -/
theorem selectParameter_iff {s : Option SelectedParameter} {s' : SelectedParameter}
    {set : ParamNumber → ParamNumber} :
    selectParameter s'.kind set (registersOf s) = registersOf (some s') ↔
      set (registersOf s s'.kind) = s'.toRegister := by
  constructor
  · intro h
    have h := congrFun h s'.kind
    rwa [registersOf_same rfl, selectParameter, if_pos rfl] at h
  · intro h
    funext kind
    unfold selectParameter
    by_cases hkind : s'.kind = kind
    · rw [registersOf_same hkind, if_pos hkind.symm, h]
    · rw [registersOf_other hkind, if_neg (Ne.symm hkind), reset_registersOf]

/-- The registers are those of the selected parameter again, unless it was selected while they
hold data. -/
theorem process_registers_iff (i : ControlInput) (s : Option SelectedParameter) :
    (i.process (registersOf s)).1 = registersOf (i.action.apply s) ↔
      FindsNoData i (registersOf s) := by
  have hselected := setRegisters_registers (registersOf s) i.channel
  rw [process_action]
  unfold FindsNoData
  cases h : i.action with
  | selectMsb kind v =>
    obtain ⟨s', hs, rfl, hiff⟩ := setParameterMsb_iff s kind v
    rw [hs, selectParameter_iff, hiff]
    exact ⟨fun hdata _ hk => Option.some.inj hk ▸ hdata, fun hdata => hdata _ rfl⟩
  | selectLsb kind v =>
    obtain ⟨s', hs, rfl, hiff⟩ := setParameterLsb_iff s kind v
    rw [hs, selectParameter_iff, hiff]
    exact ⟨fun hdata _ hk => Option.some.inj hk ▸ hdata, fun hdata => hdata _ rfl⟩
  | enter c skip dropped =>
    refine iff_of_true ?_ fun _ h => nomatch h
    cases s with
    | none => exact (enterData_unselected _ c _ i.event hselected).1
    | some s => exact (enterData_selected _ c _ i.event hselected).1
  | keep => exact iff_of_true rfl fun _ h => nomatch h
  | deselect =>
    refine iff_of_true ?_ fun _ h => nomatch h
    funext kind
    exact reset_registersOf s kind

/-- The event is delivered for the selected parameter, or it is left as it is. -/
theorem process_event (i : ControlInput) (s : Option SelectedParameter) :
    match i.action.delivers s with
    | some s' => Delivered i.event (i.process (registersOf s)).2 s'
    | none => (i.process (registersOf s)).2 = i.event := by
  have hselected := setRegisters_registers (registersOf s) i.channel
  rw [process_action]
  cases h : i.action with
  | selectMsb kind v => rfl
  | selectLsb kind v => rfl
  | enter c skip dropped =>
    let o : Answers := { i.answers with dropped := dropped }
    cases s with
    | none =>
      have hevent := (enterData_unselected o c skip i.event hselected).2
      cases skip <;> exact hevent
    | some s =>
      have hevent := (enterData_selected o c skip i.event hselected).2
      cases skip with
      | true => exact hevent
      | false =>
        refine Eq.mpr (congrArg (Delivered i.event · (s.enter c)) hevent) ?_
        exact delivered_deliver (s.enter c) i.event
  | keep => rfl
  | deselect => rfl

theorem enters_iff (i : ControlInput) (s : Option SelectedParameter) :
    Enters i (registersOf s) s ↔ FindsNoData i (registersOf s) := by
  rw [← process_registers_iff]
  constructor
  · exact fun h => h.selected
  · intro h
    exact ⟨h ▸ registersOf_received _, h, process_event i s⟩

/-- Every control change of a run enters data for the parameter selected last and delivers what
was entered since, exactly if each parameter number is selected while the registers of its kind
hold no data. -/
theorem entersAll_iff (inputs : List ControlInput) :
    EntersAll inputs (fun _ => .init) none ↔ FindNoData inputs (fun _ => .init) := by
  suffices hrun : ∀ s, EntersAll inputs (registersOf s) s ↔ FindNoData inputs (registersOf s) from
    hrun none
  induction inputs with
  | nil => exact fun _ => Iff.rfl
  | cons i inputs ih =>
    intro s
    refine (and_congr_left' (enters_iff i s)).trans (and_congr_right fun hfinds => ?_)
    rw [(process_registers_iff i s).2 hfinds]
    exact ih _

/-- A control change of a channel that does nothing else. -/
def controlInput (controller value : UInt8) : ControlInput where
  answers := pedalAnswers
  event := ⟨.control_change, fun i => if i = 1 then controller else if i = 2 then value else 0⟩
  channel := pedalChannel

/-- The bend range is set to 2 semitones and 5 cents, then the fine tuning is entered. -/
def tuningAfterBendRange : List ControlInput :=
  [controlInput 101 0, controlInput 100 0, controlInput 6 2, controlInput 38 5,
    controlInput 100 1, controlInput 6 3]

theorem not_entersAll : ¬ EntersAll tuningAfterBendRange (fun _ => .init) none := by
  intro h
  have hvalue := h.2.2.2.2.2.1.delivered.value
  revert hvalue
  decide +kernel

end Sfz

end LinuxSampler
