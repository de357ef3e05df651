import LinuxSampler.SysexBulkXg

/-!
# One message for each parameter

A message with data for several parameters is compared with the messages
that have one parameter each.
-/

namespace LinuxSampler

open SysexMap AddressRun

/-! ## The data of a message -/

/-- A GS message with data for an address, and with its checksum. -/
def gsMessage (a : ℕ) (data : List UInt8) : List UInt8 :=
  let address := [a / 2 ^ 14, a / 2 ^ 7 % 128, a % 128]
  let sum := address.sum + (data.map UInt8.toNat).sum
  0xf0 :: 0x41 :: 0x10 :: 0x42 :: 0x12 ::
    (address.map UInt8.ofNat ++ data ++ [UInt8.ofNat ((128 - sum % 128) % 128), 0xf7])

/-- The families of messages with data for an address. -/
inductive Family
  | gs
  | xg

namespace Family

def mode : Family → MidiMode
  | gs => .GS
  | xg => .XG

def data : Family → List UInt8 → Option (ℕ × List UInt8)
  | gs => gsData
  | xg => xgData

theorem data_gsMessage {a : ℕ} (ha : a < 2 ^ 21) (data : List UInt8) :
    gs.data (gsMessage a data) = some (a, data) := by
  have haddress : xgAddress (UInt8.ofNat (a / 2 ^ 14)) (UInt8.ofNat (a / 2 ^ 7 % 128))
      (UInt8.ofNat (a % 128)) = a := by
    simp only [xgAddress, UInt8.toNat_ofNat']
    omega
  have hend : ∀ b₁ b₂ : UInt8, (data ++ [b₁, b₂]).dropLast.dropLast = data := by
    intro b₁ b₂
    rw [show data ++ [b₁, b₂] = data ++ [b₁] ++ [b₂] by simp, List.dropLast_concat,
      List.dropLast_concat]
  have htwo : ∀ b₁ b₂ : UInt8, 2 ≤ (data ++ [b₁, b₂]).length := by simp
  show (if _ then some (_, _) else none) = _
  rw [if_pos ⟨rfl, rfl, rfl, rfl, htwo _ _⟩, haddress]
  exact congrArg (fun data => some (a, data)) (hend _ _)

section Effects

variable {π : Type} [DecidableEq π]

def addressMap : Family → List (AddressBlock π)
  | gs => GSSysexMap.addressMap
  | xg => XGSysexMap.addressMap

def applyByte (port : π) : Family → ℕ → UInt8 → Engine π → Except Abort (Engine π)
  | gs => GSSysexMap.applyByte port
  | xg => XGSysexMap.applyByte

/-- A message of which each byte is applied at its own address. -/
def Lawful (e : Engine π) (port : π) (a n : ℕ) : Family → Prop
  | gs => GSSysexMap.Lawful e port a n
  | xg => XGSysexMap.Lawful e port a n

end Effects

/-- The number of bytes of the parameter at an address. -/
def width : Family → ℕ → ℕ
  | gs, a =>
      if a = SYSEX_ADDR 0x40 0x00 0x00 then 4
      else if (GSSysexMap.partsFrom ≤ a ∧ a ≤ GSSysexMap.partsTo) ∧ a % 128 = 0x40 then 12
      else 1
  | xg, a =>
      if a = SYSEX_ADDR 0x00 0x00 0x00 then 4
      else if (XGSysexMap.partsFrom ≤ a ∧ a ≤ XGSysexMap.partsTo) ∧ a % 128 = 0x41 then 12
      else 1

end Family

/-! ## What the dispatcher does with the data -/

section Dispatch

variable {π : Type} [DecidableEq π] {a : ℕ} {data message : List UInt8}

theorem Family.dispatchSysex_eq (family : Family) (h : family.data message = some (a, data))
    (hdata : data ≠ []) (rest : List UInt8) :
    GivenTo family.addressMap family.mode a data fun (e : Engine π) port =>
      dispatchSysex e port (message ++ rest) message.length := by
  rcases dispatchSysex_cases (π := π) message rest with
    ⟨hempty, -⟩ | ⟨a', data', hgs, hnone, hgiven⟩ | ⟨a', data', hxg, hgiven⟩
  · refine absurd (hempty a data ?_) hdata
    cases family with
    | gs => exact .inl h
    | xg => exact .inr h
  · cases family with
    | gs =>
        cases hgs.symm.trans h
        exact hgiven
    | xg => cases hnone.symm.trans h
  · cases family with
    | gs =>
        have hsecond := (gsData_lead h).2
        rw [(xgData_lead hxg).2] at hsecond
        exact absurd (Option.some.inj hsecond) (by decide)
    | xg =>
        cases hxg.symm.trans h
        exact hgiven

end Dispatch

theorem Family.data_lt (family : Family) {message data : List UInt8} {a : ℕ}
    (h : family.data message = some (a, data)) : a < 2 ^ 21 := by
  cases family with
  | gs =>
      simp only [Family.data] at h
      unfold gsData at h
      split at h
      · split at h
        · cases h
          exact xgAddress_lt _ _ _
        · cases h
      · cases h
  | xg =>
      simp only [Family.data] at h
      unfold xgData changeData bulkData at h
      repeat' split at h
      all_goals first
        | cases h
          exact xgAddress_lt _ _ _
        | cases h

/-! ## The effects of a family -/

namespace Family

variable {π : Type} [DecidableEq π] {e₀ : Engine π} {port : π} {a n : ℕ} {data : List UInt8}

theorem applyByte_keeps (family : Family) (port : π) (he₀ : e₀.renderMode = family.mode) :
    Keeps (family.applyByte port) (SameParts e₀ port) := by
  cases family with
  | gs => exact GSSysexMap.applyByte_keeps port he₀
  | xg => exact XGSysexMap.applyByte_keeps port he₀

theorem quiet_of_le (family : Family) {x : ℕ} (hx : 2 ^ 21 ≤ x) :
    AddressRun.Quiet (family.applyByte port) (SameParts e₀ port) x := by
  cases family with
  | gs =>
      have hreset : SYSEX_ADDR 0x00 0x00 0x7f = 127 := rfl
      have hgs : SYSEX_ADDR 0x40 0x00 0x7f = 1048703 := rfl
      have hto : GSSysexMap.partsTo = 1052671 := rfl
      have hefxTo : GSSysexMap.efxTo = 1058815 := rfl
      exact GSSysexMap.quiet_between (by omega) (by omega) (by omega) (by omega)
  | xg => exact XGSysexMap.quiet_of_ne (by omega) (by omega)

theorem dispatch_eq (family : Family) {e : Engine π} (he : e.renderMode = family.mode)
    (hlaw : family.Lawful e port a data.length) {s : SysexReader} (hs : s.Has a data) :
    (dispatch family.addressMap (create e port) s).map (·.engine) =
      run (family.applyByte port) a data e := by
  have hI : SameParts e port e := ⟨rfl, rfl⟩
  cases family with
  | gs => exact (GSSysexMap.addressMap_runs he hlaw).dispatch_eq hI hs
  | xg => exact (XGSysexMap.addressMap_runs he hlaw).dispatch_eq hI hs

theorem lawful_congr (family : Family) {e e' : Engine π} (h : family.Lawful e port a n)
    (heq : ∀ p, e'.assigned port p = e.assigned port p) : family.Lawful e' port a n := by
  cases family with
  | gs => exact GSSysexMap.Lawful.congr h heq
  | xg => exact XGSysexMap.Lawful.congr h heq

/-! ### One parameter -/

theorem width_pos (family : Family) (x : ℕ) : 0 < family.width x := by
  cases family <;> simp only [width] <;> split <;> first
    | omega
    | split <;> omega

theorem lawful_single_gs (e : Engine π) (port : π) {x len : ℕ} (hlen : len ≤ gs.width x) :
    GSSysexMap.Lawful e port x len := by
  have hcommon : SYSEX_ADDR 0x40 0x00 0x00 = 1048576 := rfl
  have hfrom : GSSysexMap.partsFrom = 1050624 := rfl
  have hto : GSSysexMap.partsTo = 1052671 := rfl
  have hefx : GSSysexMap.efxFrom = 1056768 := rfl
  simp only [width] at hlen
  constructor
  · intro y hy hlt hmin hmax hpart
    split at hlen
    · omega
    · split at hlen <;> omega
  · intro hmax hindex hover
    split at hlen
    · omega
    · split at hlen <;> omega
  · intro y hy hlt hmin hmax hpart
    split at hlen
    · omega
    · split at hlen <;> omega

/-- A parameter of a message. -/
theorem lawful_single_xg {e : Engine π} (h : XGSysexMap.Lawful e port a n) {x len : ℕ}
    (hx : a ≤ x) (hlen : len ≤ xg.width x) (hpos : 0 < len) (hend : x + len ≤ a + n) :
    XGSysexMap.Lawful e port x len := by
  have hcommon : SYSEX_ADDR 0x00 0x00 0x00 = 0 := rfl
  have hfrom : XGSysexMap.partsFrom = 131072 := rfl
  have hto : XGSysexMap.partsTo = 147455 := rfl
  simp only [width] at hlen
  constructor
  · exact fun y hy hlt => h.part16 y (by omega) (by omega)
  · exact fun y hy hlt => h.used y (by omega) (by omega)
  · rintro hmax hlt hcache ⟨y, hy, hlt', hbad⟩
    have hin : XGSysexMap.partsFrom ≤ x := by
      split at hlen
      · omega
      · split at hlen <;> omega
    rw [max_eq_left hin] at hcache hy hlt' hbad
    rw [Nat.add_sub_cancel_left] at hlt' hbad
    simp only [XGSysexMap.blockCount] at hlt' hbad
    rcases hbad with ⟨hread, -⟩ | ⟨-, htwelve⟩
    · have hindex : y = x % 128 := by
        simp only [XGSysexMap.read, List.mem_cons, List.not_mem_nil, or_false] at hread
        split at hlen
        · omega
        · split at hlen <;> omega
      rw [hindex] at hread
      exact hcache (h.used x hx (by omega) hin hmax hread)
    · split at hlen
      · omega
      · split at hlen <;> omega
  · intro hmax _ y hlt hy
    split at hlen
    · omega
    · split at hlen <;> omega

theorem lawful_single (family : Family) {e : Engine π} (h : family.Lawful e port a n) {x len : ℕ}
    (hx : a ≤ x) (hlen : len ≤ family.width x) (hpos : 0 < len) (hend : x + len ≤ a + n) :
    family.Lawful e port x len := by
  cases family with
  | gs => exact lawful_single_gs e port hlen
  | xg => exact lawful_single_xg h hx hlen hpos hend

/-! ## The whole message -/

/-- What the message sets the mode to is kept. -/
theorem mode_eq (family : Family) {e : Engine π} (e₀ : Engine π)
    (h : SameParts { e₀ with renderMode := family.mode } port e) :
    { e with renderMode := family.mode } = e := by
  have hmode : e.renderMode = family.mode := h.2
  rw [← hmode]

/-- A message, in a state that its parts were not changed in. -/
theorem dispatchSysex_run (family : Family) {message : List UInt8}
    (hmessage : family.data message = some (a, data)) (hdata : data ≠ []) (rest : List UInt8)
    (e : Engine π) (hlaw : family.Lawful e port a data.length) :
    dispatchSysex e port (message ++ rest) message.length =
      run (family.applyByte port) a data { e with renderMode := family.mode } := by
  obtain ⟨s, hs, heq⟩ := family.dispatchSysex_eq (π := π) hmessage hdata rest
  beta_reduce at heq
  rw [heq]
  exact family.dispatch_eq (e := { e with renderMode := family.mode }) rfl
    (family.lawful_congr hlaw fun _ => rfl) hs

theorem safe_run (family : Family) (a : ℕ) (data : List UInt8) (e : Engine π) :
    Safe (run (family.applyByte port) a data e) := by
  have hbyte : ∀ x b (e : Engine π), Safe (family.applyByte port x b e) := by
    intro x b e
    cases family with
    | gs =>
        simp only [applyByte, GSSysexMap.applyByte]
        split
        · split
          · exact ((create e port).resetMidiMode_safe .GS).1.of_bind
          · exact Safe.of_ok rfl
        · split
          · exact Safe.of_ok rfl
          · split <;> exact Safe.of_ok rfl
    | xg =>
        simp only [applyByte, XGSysexMap.applyByte]
        split
        · exact ((create e port).resetMidiMode_safe .XG).1.of_bind
        · exact Safe.of_ok rfl
  induction data generalizing a e with
  | nil => exact Safe.of_ok rfl
  | cons b data ih =>
      rw [run]
      cases hrun : family.applyByte port a b e with
      | error err => exact fun f hf => hbyte a b e f (hrun.trans hf)
      | ok e' => exact ih (a + 1) e'

/-- The single messages have one parameter of the message each. Whatever is
stored behind a message is not read. -/
theorem dispatchSysex_eq_singles (family : Family) (e : Engine π) (port : π)
    {message : List UInt8} (hmessage : family.data message = some (a, data)) (hdata : data ≠ [])
    (rest : List UInt8) {singles : List (List UInt8 × List UInt8)}
    (hsingles : List.Forall₂ (fun m c => family.data m.1 = some c) singles
      (pieces family.width (2 ^ 21) a data))
    (hlaw : family.Lawful e port a data.length) :
    dispatchSysex e port (message ++ rest) message.length =
        singles.foldlM (fun e m => dispatchSysex e port (m.1 ++ m.2) m.1.length) e ∧
      Safe (dispatchSysex e port (message ++ rest) message.length) := by
  rw [family.dispatchSysex_run hmessage hdata rest e hlaw]
  refine ⟨?_, family.safe_run a data _⟩
  obtain ⟨e₀, he₀⟩ : ∃ e₀ : Engine π, { e with renderMode := family.mode } = e₀ := ⟨_, rfl⟩
  have hI : SameParts e₀ port e₀ := ⟨rfl, rfl⟩
  have hmode : e₀.renderMode = family.mode := by rw [← he₀]
  have hf := family.applyByte_keeps port hmode
  have hassigned : ∀ p, e₀.assigned port p = e.assigned port p := fun p => by rw [← he₀]; rfl
  -- A single message, from the mode that the message sets.
  have hone : ∀ m : List UInt8 × List UInt8, ∀ c ∈ pieces family.width (2 ^ 21) a data,
      family.data m.1 = some c → ∀ e₁, (∀ p, e₁.assigned port p = e.assigned port p) →
      dispatchSysex e₁ port (m.1 ++ m.2) m.1.length =
        run (family.applyByte port) c.1 c.2 { e₁ with renderMode := family.mode } := by
    rintro m ⟨x, d⟩ hc hm e₁ he₁
    obtain ⟨hx, -, hd, hpiece⟩ := mem_pieces hc family.width_pos
    dsimp only at hx hd hpiece
    have hlen : d.length ≤ family.width x ∧ d.length ≤ data.length - (x - a) := by
      rw [hpiece, List.length_take, List.length_drop]
      omega
    have hpos := List.length_pos_iff.mpr hd
    exact family.dispatchSysex_run hm hd m.2 e₁
      (family.lawful_congr (family.lawful_single hlaw hx hlen.1 hpos (by omega)) he₁)
  have hall : singles.foldlM (fun e m => dispatchSysex e port (m.1 ++ m.2) m.1.length) e₀ =
      run (family.applyByte port) a data e₀ := by
    rw [← run_pieces hf family.width_pos (fun x hx => family.quiet_of_le hx) hI]
    refine foldlM_pieces hf hsingles (fun m c hc hm e₁ he₁ => ?_) hI
    rw [hone m c hc hm e₁ fun p => (he₁.assigned_eq p).trans (hassigned p)]
    rw [← he₀] at he₁
    rw [family.mode_eq e he₁]
  rw [he₀, ← hall]
  -- The first one sets the mode.
  have hlt := family.data_lt hmessage
  obtain ⟨b, tail, rfl⟩ := List.exists_cons_of_ne_nil hdata
  have hpieces : pieces family.width (2 ^ 21) a (b :: tail) =
      (a, (b :: tail).take (family.width a)) :: piecesUpTo family.width (2 ^ 21) tail.length
        (a + family.width a) ((b :: tail).drop (family.width a)) := by
    rw [pieces, List.length_cons, piecesUpTo, if_neg]
    rintro (hnil | hle)
    · cases hnil
    · omega
  rw [hpieces] at hsingles hone
  cases hsingles with
  | cons hm hms =>
      rw [List.foldlM_cons, List.foldlM_cons, hone _ _ List.mem_cons_self hm e fun _ => rfl,
        hone _ _ List.mem_cons_self hm e₀ hassigned, ← he₀]

/-- Two parameters of the first part. -/
theorem dispatchSysex_eq_singles_assign :
    dispatchSysex onePart () (gsMessage (SYSEX_ADDR 0x40 0x10 0x14) [0, 2] ++ [])
        (gsMessage (SYSEX_ADDR 0x40 0x10 0x14) [0, 2]).length =
      [(gsMessage (SYSEX_ADDR 0x40 0x10 0x14) [0], []),
        (gsMessage (SYSEX_ADDR 0x40 0x10 0x15) [2], [])].foldlM
          (fun e m => dispatchSysex e () (m.1 ++ m.2) m.1.length) onePart ∧
    Safe (dispatchSysex onePart () (gsMessage (SYSEX_ADDR 0x40 0x10 0x14) [0, 2] ++ [])
        (gsMessage (SYSEX_ADDR 0x40 0x10 0x14) [0, 2]).length) := by
  have hfrom : GSSysexMap.partsFrom = 1050624 := rfl
  have hto : GSSysexMap.partsTo = 1052671 := rfl
  have hefx : GSSysexMap.efxFrom = 1056768 := rfl
  have haddr : SYSEX_ADDR 0x40 0x10 0x14 = 1050644 := rfl
  have hboth : gs.data (gsMessage (SYSEX_ADDR 0x40 0x10 0x14) [0, 2]) =
      some (SYSEX_ADDR 0x40 0x10 0x14, [0, 2]) := data_gsMessage (by decide) _
  refine dispatchSysex_eq_singles gs onePart () hboth (List.cons_ne_nil _ _) []
    (.cons (data_gsMessage (show SYSEX_ADDR 0x40 0x10 0x14 < 2 ^ 21 by decide) [0])
      (.cons (data_gsMessage (show SYSEX_ADDR 0x40 0x10 0x15 < 2 ^ 21 by decide) [2]) .nil)) ?_
  rw [haddr]
  constructor
  · intro x hx hlt hmin hmax hpart
    simp only [List.length_cons, List.length_nil] at hlt
    omega
  · intro hmax hindex hover
    simp only [List.length_cons, List.length_nil] at hover
    omega
  · intro x hx hlt hmin hmax hpart
    simp only [List.length_cons, List.length_nil] at hlt
    omega

/-- The scale tuning and one more byte. A message with the scale tuning
alone has no effect. -/
theorem not_dispatchSysex_eq_singles : ¬ ∀ (family : Family) (e : Engine Unit) (port : Unit)
    (message : List UInt8) (a : ℕ) (data rest : List UInt8)
    (singles : List (List UInt8 × List UInt8)), family.data message = some (a, data) →
    data ≠ [] → List.Forall₂ (fun m c => family.data m.1 = some c) singles
      (pieces family.width (2 ^ 21) a data) →
    dispatchSysex e port (message ++ rest) message.length =
      singles.foldlM (fun e m => dispatchSysex e port (m.1 ++ m.2) m.1.length) e := by
  intro hall
  have heq := hall gs onePart () (gsMessage 1050688 (List.replicate 13 0x41)) 1050688
    (List.replicate 13 0x41) [] [(gsMessage 1050688 (List.replicate 12 0x41), []),
      (gsMessage 1050700 [0x41], [])]
    (data_gsMessage (by decide) _) (by decide)
    (.cons (data_gsMessage (show 1050688 < 2 ^ 21 by decide) _)
      (.cons (data_gsMessage (show 1050700 < 2 ^ 21 by decide) _) .nil))
  have hbulk : ((dispatchSysex onePart () (gsMessage 1050688 (List.replicate 13 0x41) ++ [])
      (gsMessage 1050688 (List.replicate 13 0x41)).length).map (·.scaleTuning)).toOption =
      some (List.replicate 12 1) := by
    decide +kernel
  rw [heq] at hbulk
  exact absurd hbulk (by decide +kernel)

end Family

end LinuxSampler
