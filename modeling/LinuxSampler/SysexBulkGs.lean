import LinuxSampler.SysexBulk

/-!
# Bulk messages of Roland GS

The handler of the parts handles one part only, and reads the scale tuning
from its second byte on. If neither is noticed, a message applies each byte
at its own address.
-/

namespace LinuxSampler

open SysexMap AddressRun

variable {π : Type}

/-! ## The parameters -/

theorem SysexMap.forEach_renderMode (f : EngineChannel π → EngineChannel π) (cache : List ℕ)
    (me : SysexMap π) : (me.forEach f cache).engine.renderMode = me.engine.renderMode := by
  show (cache.foldl (Engine.modifyChannel f) me.engine).renderMode = _
  generalize me.engine = e
  induction cache generalizing e with
  | nil => rfl
  | cons i cache ih => exact ih (e.modifyChannel f i)

namespace GSSysexMap

/-- The parameters of a part that have one byte. -/
def patchIndexes : List ℕ :=
  [0x00, 0x01, 0x02, 0x13, 0x14, 0x15, 0x19, 0x1c, 0x21, 0x22, 0x2c]

theorem patchParam_other {index : ℕ} (h : index ∉ patchIndexes) (cache : List ℕ) (lead : UInt8)
    (me : SysexMap π) : patchParam cache index lead me = me := by
  unfold patchParam
  split <;> first
    | rfl
    | exact absurd (by decide) h

theorem efx88Param_other {index : ℕ} (h : 2 ≤ index) (cache : List ℕ) (lead : UInt8)
    (me : SysexMap π) : efx88Param cache index lead me = me := by
  unfold efx88Param
  split <;> first
    | rfl
    | omega

theorem patchParam_nil (index : ℕ) (lead : UInt8) (me : SysexMap π) :
    patchParam [] index lead me = me := by
  unfold patchParam
  split <;> rfl

theorem efx88Param_nil (index : ℕ) (lead : UInt8) (me : SysexMap π) :
    efx88Param [] index lead me = me := by
  unfold efx88Param
  split <;> rfl

theorem patchParam_renderMode (cache : List ℕ) (index : ℕ) (lead : UInt8) (me : SysexMap π) :
    (patchParam cache index lead me).engine.renderMode = me.engine.renderMode := by
  unfold patchParam
  split <;> first
    | rfl
    | exact forEach_renderMode _ cache me

theorem efx88Param_renderMode (cache : List ℕ) (index : ℕ) (lead : UInt8) (me : SysexMap π) :
    (efx88Param cache index lead me).engine.renderMode = me.engine.renderMode := by
  unfold efx88Param
  split <;> first
    | rfl
    | exact forEach_renderMode _ cache me

end GSSysexMap

variable [DecidableEq π]

/-! ## Maps that only change the engine -/

/-- The map of a part. -/
def partMap (e : Engine π) (port : π) (p : ℕ) : SysexMap π :=
  { engine := e, sourcePort := port, channel := p, cache := some (e.assigned port p) }

theorem eq_partMap {me : SysexMap π} {port : π} {p : ℕ} (hport : me.sourcePort = port)
    (hme : me.Filled p) : me = partMap me.engine port p := by
  obtain ⟨engine, sourcePort, channel, cache⟩ := me
  have hchan : channel = p := hme.channel_eq
  have hcache : cache = some (engine.assigned sourcePort p) := hme.cache_eq
  have hport : sourcePort = port := hport
  subst hchan hport
  rw [hcache]
  rfl

theorem Engine.resetMidiMode_renderMode {mode : MidiMode} {e e' : Engine π}
    (h : e.resetMidiMode mode = .ok e') : e'.renderMode = mode := by
  simp only [Engine.resetMidiMode, bind, Except.bind] at h
  split at h
  · cases h
  · cases h
    rfl

/-- The invariant of a message: the parts, and the mode it sets. -/
def SameParts (e₀ : Engine π) (port : π) (e : Engine π) : Prop :=
  e.parts port = e₀.parts port ∧ e.renderMode = e₀.renderMode

theorem SameParts.assigned_eq {e₀ e : Engine π} {port : π} (h : SameParts e₀ port e) (p : ℕ) :
    e.assigned port p = e₀.assigned port p :=
  Engine.assigned_congr h.1 p

theorem SameParts.of_keeps {e₀ : Engine π} (me : SysexMap π) {me' : SysexMap π}
    (h : SameParts e₀ me.sourcePort me.engine) (hkeeps : me.Keeps me')
    (hmode : me'.engine.renderMode = me.engine.renderMode) :
    SameParts e₀ me.sourcePort me'.engine :=
  ⟨hkeeps.parts_eq.trans h.1, hmode.trans h.2⟩

namespace GSSysexMap

/-! ## The effect of a byte -/

/-- The first and the last address of the parts. -/
def partsFrom : ℕ := SYSEX_ADDR 0x40 0x10 0x00

def partsTo : ℕ := SYSEX_ADDR 0x40 0x1f 0x7f

def efxFrom : ℕ := SYSEX_ADDR 0x40 0x40 0x00

def efxTo : ℕ := SYSEX_ADDR 0x40 0x4f 0x7f

/-- A byte at its own address. -/
def applyByte (port : π) (a : ℕ) (b : UInt8) (e : Engine π) : Except Abort (Engine π) :=
  if a = SYSEX_ADDR 0x00 0x00 0x7f ∨ a = SYSEX_ADDR 0x40 0x00 0x7f then
    if b < 2 then e.resetMidiMode .GS else .ok e
  else if partsFrom ≤ a ∧ a ≤ partsTo then
    .ok (patchParam (e.assigned port (a / 128 % 16)) (a % 128) b
      (partMap e port (a / 128 % 16))).engine
  else if efxFrom ≤ a ∧ a ≤ efxTo then
    .ok (efx88Param (e.assigned port (a / 128 % 16)) (a % 128) b
      (partMap e port (a / 128 % 16))).engine
  else .ok e

variable {e₀ : Engine π} {port : π} {a : ℕ} {data : List UInt8}

theorem applyByte_keeps (port : π) (he₀ : e₀.renderMode = .GS) :
    Keeps (applyByte port) (SameParts e₀ port) := by
  intro x b e e' he hrun
  unfold applyByte at hrun
  split at hrun
  · split at hrun
    · rcases e.resetMidiMode_cases .GS port with ⟨-, herr⟩ | ⟨-, e₁, hok, hparts⟩
      · rw [herr] at hrun
        cases hrun
      · rw [hok] at hrun
        cases hrun
        exact ⟨hparts.trans he.1, (Engine.resetMidiMode_renderMode hok).trans he₀.symm⟩
    · cases hrun
      exact he
  · split at hrun
    · cases hrun
      exact SameParts.of_keeps (partMap e port _) he (patchParam_keeps _ _ b _)
        (patchParam_renderMode _ _ b _)
    · split at hrun
      · cases hrun
        exact SameParts.of_keeps (partMap e port _) he (efx88Param_keeps _ _ b _)
          (efx88Param_renderMode _ _ b _)
      · cases hrun
        exact he

/-! ### Quiet addresses -/

theorem quiet_parts {x : ℕ} (hx : partsFrom ≤ x ∧ x ≤ partsTo)
    (h : x % 128 ∉ patchIndexes ∨ e₀.assigned port (x / 128 % 16) = []) :
    AddressRun.Quiet (applyByte port) (SameParts e₀ port) x := by
  intro b e he
  have hreset : ¬ (x = SYSEX_ADDR 0x00 0x00 0x7f ∨ x = SYSEX_ADDR 0x40 0x00 0x7f) := by
    have hfrom : partsFrom = 1050624 := rfl
    have hgs : SYSEX_ADDR 0x40 0x00 0x7f = 1048703 := rfl
    have hfirst : SYSEX_ADDR 0x00 0x00 0x7f = 127 := rfl
    omega
  rw [applyByte, if_neg hreset, if_pos hx]
  rcases h with hindex | hassigned
  · rw [patchParam_other hindex]
    rfl
  · rw [he.assigned_eq, hassigned, patchParam_nil]
    rfl

theorem quiet_efx {x : ℕ} (hx : efxFrom ≤ x ∧ x ≤ efxTo)
    (h : 2 ≤ x % 128 ∨ e₀.assigned port (x / 128 % 16) = []) :
    AddressRun.Quiet (applyByte port) (SameParts e₀ port) x := by
  intro b e he
  have hfrom : efxFrom = 1056768 := rfl
  have hto : partsTo = 1052671 := rfl
  have hgs : SYSEX_ADDR 0x40 0x00 0x7f = 1048703 := rfl
  have hfirst : SYSEX_ADDR 0x00 0x00 0x7f = 127 := rfl
  rw [applyByte, if_neg (by omega), if_neg (by omega), if_pos hx]
  rcases h with hindex | hassigned
  · rw [efx88Param_other hindex]
    rfl
  · rw [he.assigned_eq, hassigned, efx88Param_nil]
    rfl

theorem quiet_between {x : ℕ} (h₁ : x ≠ SYSEX_ADDR 0x00 0x00 0x7f)
    (h₂ : x ≠ SYSEX_ADDR 0x40 0x00 0x7f) (h₃ : ¬ (partsFrom ≤ x ∧ x ≤ partsTo))
    (h₄ : ¬ (efxFrom ≤ x ∧ x ≤ efxTo)) : AddressRun.Quiet (applyByte port) (SameParts e₀ port) x := by
  intro b e _
  rw [applyByte, if_neg (by tauto), if_neg h₃, if_neg h₄]

/-! ## What a message must be like -/

/-- Each part that is reached after the first one has no channels, or no
parameter of it is covered; and the scale tuning of the first one is not
followed by another byte. -/
structure Lawful (e : Engine π) (port : π) (a n : ℕ) : Prop where
  parts : ∀ x, a ≤ x → x < a + n → partsFrom ≤ x → x ≤ partsTo →
    x / 128 ≠ max a partsFrom / 128 → x % 128 ∈ patchIndexes → e.assigned port (x / 128 % 16) = []
  scale : max a partsFrom ≤ partsTo → max a partsFrom % 128 ≤ 0x40 →
    max a partsFrom / 128 * 128 + 0x40 + 12 < a + n →
    e.assigned port (max a partsFrom / 128 % 16) = []
  efx : ∀ x, a ≤ x → x < a + n → efxFrom ≤ x → x ≤ efxTo →
    x / 128 ≠ max a efxFrom / 128 → x % 128 < 2 → e.assigned port (x / 128 % 16) = []

theorem Lawful.congr {e e' : Engine π} {n : ℕ} (h : Lawful e port a n)
    (heq : ∀ p, e'.assigned port p = e.assigned port p) : Lawful e' port a n := by
  constructor
  · simp only [heq]
    exact h.parts
  · simp only [heq]
    exact h.scale
  · simp only [heq]
    exact h.efx

/-! ## The handlers -/

variable {n : ℕ}

theorem reset_handles (block : AddressBlock π) (hblock : block.handler = handle_GsReset)
    (hone : block.min = block.max)
    (haddr : block.min = SYSEX_ADDR 0x00 0x00 0x7f ∨ block.min = SYSEX_ADDR 0x40 0x00 0x7f) :
    Handles (applyByte port) (SameParts e₀ port) port a data block := by
  intro j me s hj hmax hlt hme h
  obtain ⟨b, hdrop⟩ : ∃ b, data.drop j = b :: data.drop (j + 1) :=
    ⟨_, List.drop_eq_getElem_cons hlt⟩
  have haj : a + j = block.min := by omega
  have hbyte : applyByte port (a + j) b me.engine =
      if b < 2 then me.engine.resetMidiMode .GS else .ok me.engine := by
    rw [applyByte, if_pos (by rw [haj]; exact haddr)]
  rw [hdrop] at h
  obtain ⟨s', hpop, h'⟩ := h.pop
  rw [Nat.add_assoc] at h'
  rw [hblock, hdrop]
  simp only [handle_GsReset, hpop, bind, Except.bind]
  by_cases hb : b < 2
  · rw [if_pos hb] at hbyte
    rcases me.engine.resetMidiMode_cases .GS me.sourcePort with ⟨-, herr⟩ | ⟨-, e', hok, hparts⟩
    · left
      refine ⟨.midiInputException, ?_, ?_⟩
      · rw [if_pos hb, SysexMap.resetMidiMode, herr]
        rfl
      · rw [run, hbyte, herr]
        rfl
    · right
      refine ⟨true, { me with engine := e' }, s', j + 1, ?_, by omega, by omega, by omega, h',
        hme.sourcePort_eq, ?_, ?_, fun x hx _ hx' => ?_⟩
      · rw [if_pos hb, SysexMap.resetMidiMode, hok]
        rfl
      · have hkeeps : me.Keeps { me with engine := e' } := ⟨rfl, rfl, rfl, hparts⟩
        exact hkeeps.cacheOk hme.cacheOk
      · rw [show j + 1 - j = 0 + 1 by omega, List.take_succ_cons, List.take_zero, run, hbyte, hok]
        rfl
      · rcases hx' with hx' | hx'
        · cases hx'
        · omega
  · rw [if_neg hb] at hbyte
    right
    refine ⟨true, me, s', j + 1, ?_, by omega, by omega, by omega, h', hme.sourcePort_eq,
      hme.cacheOk, ?_, fun x hx _ hx' => ?_⟩
    · rw [if_neg hb]
      rfl
    · rw [show j + 1 - j = 0 + 1 by omega, List.take_succ_cons, List.take_zero, run, hbyte]
      rfl
    · rcases hx' with hx' | hx'
      · cases hx'
      · omega

theorem common_handles (block : AddressBlock π) (hblock : block.handler = handle_GsCommon)
    (hmin : block.min = SYSEX_ADDR 0x40 0x00 0x00) (hmax : block.max = SYSEX_ADDR 0x40 0x00 0x06) :
    Handles (applyByte port) (SameParts e₀ port) port a data block := by
  have hfrom : SYSEX_ADDR 0x40 0x00 0x00 = 1048576 := rfl
  have hto : SYSEX_ADDR 0x40 0x00 0x06 = 1048582 := rfl
  refine Handles.of_quiet (fun j me s hj hle h => ?_) fun x hx hx' => ?_
  · rw [hblock]
    rcases commonLoop_cases me h (by omega) with ⟨hok, hzero, hshort⟩ | ⟨k, s', hk, hak, h', hok⟩
    · rw [List.length_drop] at hshort
      exact .inl ⟨hok, by omega⟩
    · exact .inr ⟨k, s', hk, by omega, h', hok⟩
  · have hgs : SYSEX_ADDR 0x40 0x00 0x7f = 1048703 := rfl
    have hfirst : SYSEX_ADDR 0x00 0x00 0x7f = 127 := rfl
    have hparts : partsFrom = 1050624 := rfl
    have hefx : efxFrom = 1056768 := rfl
    exact quiet_between (by omega) (by omega) (by omega) (by omega)

/-! ### The parts -/

theorem applyByte_part (port : π) (hpart : partsFrom ≤ a ∧ a ≤ partsTo) (b : UInt8) (e : Engine π) :
    applyByte port a b e = .ok (patchParam (e.assigned port (a / 128 % 16)) (a % 128) b
      (partMap e port (a / 128 % 16))).engine := by
  have hfrom : partsFrom = 1050624 := rfl
  have hgs : SYSEX_ADDR 0x40 0x00 0x7f = 1048703 := rfl
  have hfirst : SYSEX_ADDR 0x00 0x00 0x7f = 127 := rfl
  rw [applyByte, if_neg (by omega), if_pos hpart]

theorem applyByte_efx (port : π) (hefx : efxFrom ≤ a ∧ a ≤ efxTo) (b : UInt8) (e : Engine π) :
    applyByte port a b e = .ok (efx88Param (e.assigned port (a / 128 % 16)) (a % 128) b
      (partMap e port (a / 128 % 16))).engine := by
  have hfrom : efxFrom = 1056768 := rfl
  have hto : partsTo = 1052671 := rfl
  have hgs : SYSEX_ADDR 0x40 0x00 0x7f = 1048703 := rfl
  have hfirst : SYSEX_ADDR 0x00 0x00 0x7f = 127 := rfl
  rw [applyByte, if_neg (by omega), if_neg (by omega), if_pos hefx]

variable {me : SysexMap π} {s : SysexReader} {p : ℕ}

/-- What a handler of one part has done: it has applied the bytes it has
read, and none of those that it leaves of the part is a parameter. -/
def PartRun (covers : ℕ → Prop) (port : π) (a : ℕ) (data : List UInt8) (p : ℕ) (me : SysexMap π)
    (r : Bool × SysexMap π × SysexReader) : Prop :=
  ∃ k, k ≤ data.length ∧ (a + k) / 128 = a / 128 ∧ r.2.2.Has (a + k) (data.drop k) ∧
    r.2.1.sourcePort = port ∧ r.2.1.Filled p ∧
    run (applyByte port) a (data.take k) me.engine = .ok r.2.1.engine ∧
    ∀ x, a + k ≤ x → x < a + data.length → (r.1 = false ∨ x / 128 = a / 128) →
      x / 128 = a / 128 ∧ ¬ covers x

theorem PartRun.stop {covers : ℕ → Prop} (hport : me.sourcePort = port) (hme : me.Filled p)
    (h : s.Has a data)
    (hrest : ∀ x, a ≤ x → x < a + data.length → x / 128 = a / 128 → ¬ covers x) :
    PartRun covers port a data p me (true, me, s) := by
  refine ⟨0, Nat.zero_le _, rfl, h, hport, hme, rfl, fun x hx hlt hx' => ?_⟩
  rcases hx' with hx' | hx'
  · cases hx'
  · exact ⟨hx', hrest x hx hlt hx'⟩

theorem PartRun.cons {covers : ℕ → Prop} {b : UInt8} {me' : SysexMap π}
    {r : Bool × SysexMap π × SysexReader}
    (hbyte : applyByte port a b me.engine = .ok me'.engine) (hdiv : (a + 1) / 128 = a / 128)
    (h : PartRun covers port (a + 1) data p me' r) : PartRun covers port a (b :: data) p me r := by
  obtain ⟨k, hk, hdiv', h', hport, hme, hdone, hrest⟩ := h
  refine ⟨k + 1, by rw [List.length_cons]; omega, by omega, ?_, hport, hme, ?_,
    fun x hx hlt hx' => ?_⟩
  · rwa [List.drop_succ_cons, show a + (k + 1) = a + 1 + k by omega]
  · rw [List.take_succ_cons, run, hbyte]
    exact hdone
  · rw [List.length_cons] at hlt
    rw [← hdiv] at hx' ⊢
    exact hrest x (by omega) (by omega) hx'

/-- The loop of a part, if the scale tuning is not applied. It ends behind
the last parameter, or with the message. -/
theorem patchLoop_run (hport : me.sourcePort = port) (hme : me.Filled p) (h : s.Has a data)
    (hp : a / 128 % 16 = p) (hpart : partsFrom ≤ a ∧ a ≤ partsTo)
    (hscale : a % 128 ≤ 0x40 → a + data.length ≤ a / 128 * 128 + 0x40 + 12) :
    ∃ r, loop (· < 0x4c) (patchCommonBody (me.engine.assigned port p)) me s = .ok r ∧
      PartRun (· % 128 ∈ patchIndexes) port a data p me r := by
  have hpast : ∀ x, 0x40 ≤ x % 128 → ¬ x % 128 ∈ patchIndexes := by
    intro x hx hmem
    simp only [patchIndexes, List.mem_cons, List.not_mem_nil, or_false] at hmem
    omega
  induction data generalizing me s a with
  | nil =>
      refine ⟨_, loop_nil h, .stop hport hme h fun x hx hlt _ => ?_⟩
      rw [List.length_nil] at hlt
      omega
  | cons b data ih =>
      rw [List.length_cons] at hscale
      by_cases hend : 0x4c ≤ a % 128
      · exact ⟨_, loop_stop h (decide_eq_false (by omega)),
          .stop hport hme h fun x hx _ hx' => hpast x (by omega)⟩
      · rw [loop_cons patchCommonBody_consumes h (decide_eq_true (show a % 128 < 0x4c by omega))]
        have hbyte := applyByte_part port hpart b me.engine
        rw [hp, ← eq_partMap hport hme] at hbyte
        by_cases hindex : a % 128 = 0x40
        · obtain ⟨s', h', hok⟩ := patchCommonBody_short (me.engine.assigned port p) me h hindex
            (by omega)
          rw [patchParam_other (by rw [hindex]; decide)] at hbyte
          rw [hok]
          refine ⟨_, rfl, .cons hbyte (by omega)
            ⟨0, Nat.zero_le _, rfl, h', hport, hme, rfl, fun x hx hlt _ => ?_⟩⟩
          have hx' : x / 128 = (a + 1) / 128 := by omega
          exact ⟨hx', hpast x (by omega)⟩
        · obtain ⟨s', h', hok⟩ := patchCommonBody_byte (me.engine.assigned port p) me h hindex
          have hkeeps := patchParam_keeps (me.engine.assigned port p) (a % 128) b me
          have hassigned := hkeeps.assigned_eq p
          rw [hkeeps.sourcePort_eq, hport] at hassigned
          have hto : partsTo = 1052671 := rfl
          obtain ⟨r, hrun, hr⟩ := ih (hkeeps.sourcePort_eq.trans hport) (hkeeps.filled hme) h'
            (by omega) (by omega) (by omega)
          rw [hassigned] at hrun
          rw [hok]
          exact ⟨r, hrun, hr.cons hbyte (by omega)⟩

theorem efxLoop_run (hport : me.sourcePort = port) (hme : me.Filled p) (h : s.Has a data)
    (hp : a / 128 % 16 = p) (hefx : efxFrom ≤ a ∧ a ≤ efxTo) :
    ∃ r, loop (· < 0x02) (efx88Body (me.engine.assigned port p)) me s = .ok r ∧
      PartRun (· % 128 < 2) port a data p me r := by
  induction data generalizing me s a with
  | nil =>
      refine ⟨_, loop_nil h, .stop hport hme h fun x hx hlt _ => ?_⟩
      rw [List.length_nil] at hlt
      omega
  | cons b data ih =>
      by_cases hend : 2 ≤ a % 128
      · exact ⟨_, loop_stop h (decide_eq_false (by omega)),
          .stop hport hme h fun x hx _ hx' => by omega⟩
      · have hbyte := applyByte_efx port hefx b me.engine
        rw [hp, ← eq_partMap hport hme] at hbyte
        obtain ⟨s', h', hok⟩ := efx88Body_eq (me.engine.assigned port p) me h
        have hkeeps := efx88Param_keeps (me.engine.assigned port p) (a % 128) b me
        have hassigned := hkeeps.assigned_eq p
        rw [hkeeps.sourcePort_eq, hport] at hassigned
        have hto : efxTo = 1058815 := rfl
        obtain ⟨r, hrun, hr⟩ := ih (hkeeps.sourcePort_eq.trans hport) (hkeeps.filled hme) h'
          (by omega) (by omega)
        rw [hassigned] at hrun
        rw [loop_cons efx88Body_consumes h (decide_eq_true (show a % 128 < 2 by omega)), hok]
        exact ⟨r, hrun, hr.cons hbyte (by omega)⟩

/-- A handler that applies a message to the channels of the part where it
starts, if no other part is reached. -/
theorem handles_part {block : AddressBlock π} (covers : ℕ → Prop)
    (handle : List ℕ → SysexHandler π)
    (hblock : ∀ me (s : SysexReader), block.handler me s = (do
      let (cache, me) ← me.filterChannels (s.address / 128 % 16)
      if cache ≠ [] then handle cache me s else return (true, me, s)))
    (hend : block.max % 128 = 127)
    (hquiet : ∀ x, block.min ≤ x ∧ x ≤ block.max →
      ¬ covers x ∨ e₀.assigned port (x / 128 % 16) = [] →
      AddressRun.Quiet (applyByte port) (SameParts e₀ port) x)
    (hothers : ∀ x, a ≤ x → x < a + data.length → block.min ≤ x → x ≤ block.max →
      x / 128 ≠ max a block.min / 128 → covers x → e₀.assigned port (x / 128 % 16) = [])
    (hrun : ∀ j me s, a + j = max a block.min → a + j ≤ block.max → me.sourcePort = port →
      me.Filled ((a + j) / 128 % 16) → s.Has (a + j) (data.drop j) →
      e₀.assigned port ((a + j) / 128 % 16) ≠ [] →
      ∃ r, handle (me.engine.assigned port ((a + j) / 128 % 16)) me s = .ok r ∧
        PartRun covers port (a + j) (data.drop j) ((a + j) / 128 % 16) me r) :
    Handles (applyByte port) (SameParts e₀ port) port a data block := by
  intro j me s hj hle hlt hme h
  have hp : (a + j) / 128 % 16 ≠ midi_chan_all := by
    simp only [midi_chan_all]
    omega
  obtain ⟨me₁, hfilter, hfilled, hengine, hport₁⟩ := filterChannels_eq hme.cacheOk (.inl hp)
  have hassigned : me.engine.assigned me.sourcePort ((a + j) / 128 % 16) =
      e₀.assigned port ((a + j) / 128 % 16) := by
    rw [hme.sourcePort_eq]
    exact hme.inv.assigned_eq _
  have hlater : ∀ x, a + j ≤ x → x < a + data.length → x ≤ block.max → x / 128 ≠ (a + j) / 128 →
      AddressRun.Quiet (applyByte port) (SameParts e₀ port) x := by
    intro x hx hlt' hx' hne
    by_cases hcovers : covers x
    · exact hquiet x (by omega)
        (.inr (hothers x (by omega) hlt' (by omega) hx' (by rwa [← hj]) hcovers))
    · exact hquiet x (by omega) (.inl hcovers)
  right
  rw [hblock, h.address_eq, hfilter]
  simp only [bind, Except.bind]
  by_cases hcache : me.engine.assigned me.sourcePort ((a + j) / 128 % 16) = []
  · rw [if_neg (not_not.mpr hcache)]
    refine ⟨true, me₁, s, j, rfl, le_rfl, by omega, by omega, h, hport₁.trans hme.sourcePort_eq,
      .inr ⟨_, hfilled⟩, ?_, fun x hx hlt' hx' => ?_⟩
    · rw [Nat.sub_self, List.take_zero, hengine]
      rfl
    · rcases hx' with hx' | hx'
      · cases hx'
      · by_cases hsame : x / 128 = (a + j) / 128
        · refine hquiet x (by omega) (.inr ?_)
          rw [hsame, ← hassigned, hcache]
        · exact hlater x hx hlt' hx' hsame
  · rw [if_pos hcache]
    have hsame : me.engine.assigned me.sourcePort ((a + j) / 128 % 16) =
        me₁.engine.assigned port ((a + j) / 128 % 16) := by
      rw [hengine, hme.sourcePort_eq]
    rw [hsame]
    obtain ⟨⟨go, me', s'⟩, hok, k, hk, hdiv, h', hport', hme', hdone, hleft⟩ :=
      hrun j me₁ s hj hle (hport₁.trans hme.sourcePort_eq) hfilled h (hassigned ▸ hcache)
    rw [List.length_drop] at hk hleft
    rw [List.drop_drop, Nat.add_assoc] at h'
    refine ⟨go, me', s', j + k, hok, by omega, by omega, by omega, h', hport',
      .inr ⟨_, hme'⟩, ?_, fun x hx hlt' hx' => ?_⟩
    · rw [show j + k - j = k by omega, ← hengine]
      exact hdone
    · by_cases hpart : x / 128 = (a + j) / 128
      · exact hquiet x (by omega) (.inl (hleft x (by omega) (by omega) (.inr hpart)).2)
      · rcases hx' with hx' | hx'
        · exact absurd (hleft x (by omega) (by omega) (.inl hx')).1 hpart
        · exact hlater x (by omega) hlt' hx' hpart

theorem parts_handles (block : AddressBlock π) (hblock : block.handler = handle_GsPatchCommon)
    (hmin : block.min = partsFrom) (hmax : block.max = partsTo)
    (hlaw : Lawful e₀ port a data.length) :
    Handles (applyByte port) (SameParts e₀ port) port a data block := by
  have hfrom : partsFrom = 1050624 := rfl
  have hto : partsTo = 1052671 := rfl
  refine handles_part (· % 128 ∈ patchIndexes) (fun cache => loop (· < 0x4c) (patchCommonBody cache))
    (fun me s => by rw [hblock]; rfl) (by omega) (fun x hx => quiet_parts (by omega))
    (fun x hx hlt hx' hx'' => ?_) ?_
  · rw [hmin] at hx' ⊢
    exact hlaw.parts x hx hlt hx' (hmax ▸ hx'')
  · intro j me s hj hle hport hme h hcache
    refine patchLoop_run hport hme h rfl (by omega) fun hstart => ?_
    rw [List.length_drop]
    by_contra hover
    refine hcache ?_
    rw [hj, hmin]
    rw [hj, hmin] at hstart hover
    exact hlaw.scale (by omega) hstart (by omega)

theorem efx_handles (block : AddressBlock π) (hblock : block.handler = handle_GsEfx88)
    (hmin : block.min = efxFrom) (hmax : block.max = efxTo)
    (hlaw : Lawful e₀ port a data.length) :
    Handles (applyByte port) (SameParts e₀ port) port a data block := by
  have hfrom : efxFrom = 1056768 := rfl
  have hto : efxTo = 1058815 := rfl
  refine handles_part (· % 128 < 2) (fun cache => loop (· < 0x02) (efx88Body cache))
    (fun me s => by rw [hblock]; rfl) (by omega)
    (fun x hx h => quiet_efx (by omega) (h.imp_left not_lt.mp)) (fun x hx hlt hx' hx'' => ?_) ?_
  · rw [hmin] at hx' ⊢
    exact hlaw.efx x hx hlt hx' (hmax ▸ hx'')
  · intro j me s _ _ hport hme h _
    exact efxLoop_run hport hme h rfl (by omega)

/-! ## The whole table -/

theorem addressMap_runs (he₀ : e₀.renderMode = .GS) (hlaw : Lawful e₀ port a data.length) :
    RunsFrom (applyByte port) (SameParts e₀ port) port a data addressMap 0 := by
  have hf := applyByte_keeps port he₀
  have hreset : SYSEX_ADDR 0x00 0x00 0x7f = 127 := rfl
  have hcommon : SYSEX_ADDR 0x40 0x00 0x00 = 1048576 := rfl
  have hcommonTo : SYSEX_ADDR 0x40 0x00 0x06 = 1048582 := rfl
  have hgs : SYSEX_ADDR 0x40 0x00 0x7f = 1048703 := rfl
  have hparts : SYSEX_ADDR 0x40 0x10 0x00 = 1050624 := rfl
  have hpartsTo : SYSEX_ADDR 0x40 0x1f 0x7f = 1052671 := rfl
  have hefx : SYSEX_ADDR 0x40 0x40 0x00 = 1056768 := rfl
  have hefxTo : SYSEX_ADDR 0x40 0x4f 0x7f = 1058815 := rfl
  have hquiet : ∀ lo hi x, (hi ≤ 127 ∨ 127 < lo ∧ hi ≤ 1048703 ∨ 1048703 < lo ∧ hi ≤ 1050624 ∨
      1052671 < lo ∧ hi ≤ 1056768 ∨ 1058815 < lo) → lo ≤ x → x < hi →
      AddressRun.Quiet (applyByte port) (SameParts e₀ port) x := fun lo hi x hbounds hlo hhi =>
    quiet_between (by omega) (by omega) (by rw [partsFrom, partsTo]; omega)
      (by rw [efxFrom, efxTo]; omega)
  refine .cons hf (reset_handles _ rfl rfl (.inl rfl)) ?_ (Nat.zero_le _) le_rfl
    fun x hx hx' => hquiet _ _ x (by dsimp only; omega) hx hx'
  refine .cons hf (common_handles _ rfl rfl rfl) ?_ (by dsimp only; omega) (by dsimp only; omega)
    fun x hx hx' => hquiet _ _ x (by dsimp only; omega) hx hx'
  refine .cons hf (reset_handles _ rfl rfl (.inr rfl)) ?_ (by dsimp only; omega) le_rfl
    fun x hx hx' => hquiet _ _ x (by dsimp only; omega) hx hx'
  refine .cons hf (parts_handles _ rfl rfl rfl hlaw) ?_ (by dsimp only; omega)
    (by dsimp only; omega) fun x hx hx' => hquiet _ _ x (by dsimp only; omega) hx hx'
  refine .cons hf (efx_handles _ rfl rfl rfl hlaw) ?_ (by dsimp only; omega)
    (by dsimp only; omega) fun x hx hx' => hquiet _ _ x (by dsimp only; omega) hx hx'
  exact .nil fun x hx => hquiet _ (x + 1) x (by dsimp only; omega) hx (Nat.lt_succ_self x)

end GSSysexMap

end LinuxSampler
