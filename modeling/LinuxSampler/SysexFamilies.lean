import LinuxSampler.SysexRules

/-!
# The families of SysEx messages

What a message does is told by its first bytes. A message of Roland GS or
Yamaha XG has data for an address; the others set the mode or the volume,
or reset the engine.
-/

namespace LinuxSampler

open SysexMap

/-! ## The data of a message -/

def xgAddress (b₁ b₂ b₃ : UInt8) : ℕ :=
  (b₁.toNat % 128) * 2 ^ 14 + (b₂.toNat % 128) * 2 ^ 7 + b₃.toNat % 128

theorem xgAddress_lt (b₁ b₂ b₃ : UInt8) : xgAddress b₁ b₂ b₃ < 2 ^ 21 := by
  rw [xgAddress]
  omega

/-- What follows the model ID in a parameter change. -/
def changeData : List UInt8 → Option (ℕ × List UInt8)
  | b₁ :: b₂ :: b₃ :: data => some (xgAddress b₁ b₂ b₃, data.dropLast)
  | _ => none

/-- What follows the model ID in a bulk dump, if it is as long as it says. -/
def bulkData : List UInt8 → Option (ℕ × List UInt8)
  | hi :: lo :: b₁ :: b₂ :: b₃ :: data =>
      if hi.toNat * 2 ^ 7 + lo.toNat + 2 = data.length then
        some (xgAddress b₁ b₂ b₃, data.dropLast.dropLast)
      else none
  | _ => none

/-- The address and the data of an XG message. -/
def xgData : List UInt8 → Option (ℕ × List UInt8)
  | lead :: id :: deviceNo :: modelId :: body =>
      if lead = 0xf0 ∧ id = 0x43 ∧ modelId = 0x4c then
        if deviceNo.toNat / 16 = 1 then changeData body
        else if deviceNo.toNat / 16 = 0 then bulkData body
        else none
      else none
  | _ => none

/-- The address and the data of a GS message. The last two bytes are the
checksum and the end of the message. -/
def gsData : List UInt8 → Option (ℕ × List UInt8)
  | lead :: id :: _ :: model :: command :: b₁ :: b₂ :: b₃ :: body =>
      if lead = 0xf0 ∧ id = 0x41 ∧ model = 0x42 ∧ command = 0x12 ∧ 2 ≤ body.length then
        some (xgAddress b₁ b₂ b₃, body.dropLast.dropLast)
      else none
  | _ => none

/-- The mode that a GM message resets the engine to. -/
def gmMode : List UInt8 → Option MidiMode
  | lead :: id :: deviceId :: sub1 :: sub2 :: _ :: _ =>
      if lead = 0xf0 ∧ id = 0x7e ∧ deviceId = 0x7f ∧ sub1 = 0x09 then
        match sub2.toNat with
        | 1 | 2 => some .GM
        | 3 => some .GM2
        | _ => none
      else none
  | _ => none

theorem xgData_lead {message : List UInt8} {a : ℕ} {data : List UInt8}
    (h : xgData message = some (a, data)) :
    message[0]? = some 0xf0 ∧ message[1]? = some 0x43 := by
  unfold xgData at h
  split at h
  · split at h
    · rename_i hfirst
      rw [hfirst.1, hfirst.2.1]
      exact ⟨rfl, rfl⟩
    · cases h
  · cases h

theorem gsData_lead {message : List UInt8} {a : ℕ} {data : List UInt8}
    (h : gsData message = some (a, data)) :
    message[0]? = some 0xf0 ∧ message[1]? = some 0x41 := by
  unfold gsData at h
  split at h
  · split at h
    · rename_i hfirst
      rw [hfirst.1, hfirst.2.1]
      exact ⟨rfl, rfl⟩
    · cases h
  · cases h

/-! ## Readers of a message -/

@[simp] theorem ByteReader.popByte_cons (b : UInt8) (message rest : List UInt8) :
    (⟨b :: message, rest⟩ : ByteReader).popByte = .ok (b, ⟨message, rest⟩) := rfl

theorem ByteReader.read_own {r : ByteReader} {n : ℕ} (hn : n ≤ r.message.length) :
    r.read n = .ok (r.message.take n, ⟨r.message.drop n, r.rest⟩) := by
  have hspace : ¬ n > r.readSpace := by
    rw [ByteReader.readSpace]
    omega
  simp only [ByteReader.read, if_neg hspace, if_neg (not_lt.mpr hn)]

/-- The parameters are the bytes after the address, but for the last ones. -/
theorem create_of_length (b₁ b₂ b₃ : UInt8) (body rest : List UInt8) {length : ℤ} {n : ℕ}
    (hn : n ≤ body.length) (hlength : length = n + 3) :
    ∃ sysex, SysexReader.create ⟨b₁ :: b₂ :: b₃ :: body, rest⟩ length = .ok sysex ∧
      sysex.Has (xgAddress b₁ b₂ b₃) (body.take n) := by
  have htake : (body.take n).length = n := by
    rw [List.length_take, Nat.min_eq_left hn]
  have hmessage : (⟨b₁ :: b₂ :: b₃ :: body, rest⟩ : ByteReader).message =
      b₁ :: b₂ :: b₃ :: (body.take n ++ body.drop n) := by
    rw [List.take_append_drop]
  obtain ⟨sysex, hcreate, hhas⟩ := SysexReader.Has.create hmessage
  rw [htake, ← hlength] at hcreate
  exact ⟨sysex, hcreate, hhas⟩

theorem dropLast_dropLast_eq (body : List UInt8) :
    body.dropLast.dropLast = body.take (body.length - 2) := by
  rw [List.dropLast_eq_take, List.dropLast_eq_take, List.take_take, List.length_take]
  congr 1
  omega

/-! ## What the dispatcher does -/

section Dispatch

variable {π : Type} [DecidableEq π]

/-- The effect of a message without data for an address. -/
def Plain (message : List UInt8) (e : Engine π) (port : π) (x : Except Abort (Engine π)) : Prop :=
  (∃ mode, x = .ok { e with renderMode := mode }) ∨
    (∃ value, x = .ok ((create e port).forEachPort (EngineChannel.volume value)).engine) ∨
    ∃ mode, gmMode message = some mode ∧ x = e.resetMidiMode mode

theorem Plain.ignored (message : List UInt8) (e : Engine π) (port : π) :
    Plain message e port (.ok e) := .inl ⟨e.renderMode, rfl⟩

/-- The data of a message are given to a table. -/
def GivenTo (map : List (AddressBlock π)) (mode : MidiMode) (a : ℕ) (data : List UInt8)
    (run : Engine π → π → Except Abort (Engine π)) : Prop :=
  ∃ s : SysexReader, s.Has a data ∧ ∀ (e : Engine π) port,
    run e port = (dispatch map (create { e with renderMode := mode } port) s).map (·.engine)

/-- The two bytes of the volume are read only if they are there. -/
theorem GMSysex.dispatchRealtime_cases (me : SysexMap π) (sub1 sub2 : UInt8)
    (body rest : List UInt8) :
    GMSysex.dispatchRealtime me sub1 sub2 ⟨body, rest⟩ (body.length - 1) = .ok me ∨
      ∃ value, GMSysex.dispatchRealtime me sub1 sub2 ⟨body, rest⟩ (body.length - 1) =
        .ok (me.forEachPort (EngineChannel.volume value)) := by
  rw [GMSysex.dispatchRealtime]
  split
  · split
    · exact .inl rfl
    · rename_i hlen
      match body, hlen with
      | [], hlen => simp at hlen
      | [_], hlen => simp at hlen
      | hi :: lo :: tail, _ =>
          simp only [ByteReader.popByte_cons, bind, Except.bind]
          split
          · exact .inr ⟨_, rfl⟩
          · exact .inl rfl
  · exact .inl rfl

theorem dispatchRealtime_plain (message : List UInt8) (e : Engine π) (port : π)
    (b₁ b₂ b₃ : UInt8) (body rest : List UInt8) :
    Plain message e port (dispatchRealtime e port ⟨b₁ :: b₂ :: b₃ :: body, rest⟩
      (body.length + 5)) := by
  show Plain message e port (if b₁ = 0x7f then do
      let gm ← GMSysex.dispatchRealtime (create e port) b₂ b₃ ⟨body, rest⟩ (body.length + 5 - 6)
      return gm.engine
    else return e)
  rw [show body.length + 5 - 6 = body.length - 1 by omega]
  split
  · rcases GMSysex.dispatchRealtime_cases (create e port) b₂ b₃ body rest with hok | ⟨value, hok⟩
    · rw [hok]
      exact .ignored message e port
    · rw [hok]
      exact .inr (.inl ⟨value, rfl⟩)
  · exact .ignored message e port

theorem dispatchNonRealtime_plain (e : Engine π) (port : π) (b₁ b₂ b₃ b₄ : UInt8)
    (body rest : List UInt8) :
    Plain (0xf0 :: 0x7e :: b₁ :: b₂ :: b₃ :: b₄ :: body) e port
      (dispatchNonRealtime e port ⟨b₁ :: b₂ :: b₃ :: b₄ :: body, rest⟩) := by
  show Plain _ e port (if b₁ = 0x7f then do
      let gm ← GMSysex.dispatchNonRealtime (create e port) b₂ b₃
      return gm.engine
    else return e)
  have hreset : ∀ mode, (do
      let gm ← (create e port).resetMidiMode mode
      return gm.engine : Except Abort (Engine π)) = e.resetMidiMode mode := by
    intro mode
    rw [SysexMap.resetMidiMode]
    show _ = e.resetMidiMode mode
    have hengine : (create e port).engine = e := rfl
    rw [hengine]
    cases e.resetMidiMode mode <;> rfl
  rw [GMSysex.dispatchNonRealtime]
  split
  · rename_i hdev
    split
    · rename_i hsub
      split
      · rename_i hmode
        exact .inr (.inr ⟨.GM, by simp [gmMode, hdev, hsub, hmode], hreset .GM⟩)
      · rename_i hmode
        exact .inr (.inr ⟨.GM, by simp [gmMode, hdev, hsub, hmode], hreset .GM⟩)
      · rename_i hmode
        exact .inr (.inr ⟨.GM2, by simp [gmMode, hdev, hsub, hmode], hreset .GM2⟩)
      · exact .ignored _ e port
    · exact .ignored _ e port
  · exact .ignored _ e port

theorem dispatchRoland_cases (b₁ b₂ b₃ b₄ : UInt8) (body rest : List UInt8) :
    (gsData (0xf0 :: 0x41 :: b₁ :: b₂ :: b₃ :: b₄ :: body) = none ∧ ∀ (e : Engine π) port,
      dispatchRoland e port ⟨b₁ :: b₂ :: b₃ :: b₄ :: body, rest⟩ (body.length + 6) =
        .ok { e with renderMode := .GS }) ∨
    ∃ a data, gsData (0xf0 :: 0x41 :: b₁ :: b₂ :: b₃ :: b₄ :: body) = some (a, data) ∧
      GivenTo GSSysexMap.addressMap .GS a data fun (e : Engine π) port =>
        dispatchRoland e port ⟨b₁ :: b₂ :: b₃ :: b₄ :: body, rest⟩ (body.length + 6) := by
  match body with
  | [] => exact .inl ⟨rfl, fun e port => rfl⟩
  | [_] => exact .inl ⟨rfl, fun e port => rfl⟩
  | b₅ :: b₆ :: body =>
      by_cases hfirst : b₂ = 0x42 ∧ b₃ = 0x12
      · obtain ⟨rfl, rfl⟩ := hfirst
        by_cases hbody : 2 ≤ body.length
        · right
          have hlength : ((((b₅ :: b₆ :: body).length + 6 : ℕ) : ℤ) - 7) =
              (body.length - 2 : ℕ) + 3 := by
            simp only [List.length_cons]
            omega
          obtain ⟨s, hcreate, hs⟩ :=
            create_of_length b₄ b₅ b₆ body rest (Nat.sub_le _ _) hlength
          refine ⟨_, _, by rw [gsData, if_pos ⟨rfl, rfl, rfl, rfl, hbody⟩], s, ?_,
            fun e port => ?_⟩
          · rwa [dropLast_dropLast_eq]
          · have hread : (⟨b₁ :: 0x42 :: 0x12 :: b₄ :: b₅ :: b₆ :: body, rest⟩ : ByteReader).read 3 =
                .ok ([b₁, 0x42, 0x12], ⟨b₄ :: b₅ :: b₆ :: body, rest⟩) :=
              ByteReader.read_own (by simp)
            beta_reduce
            rw [dispatchRoland, if_pos (by simp only [List.length_cons]; omega), hread]
            simp only [bind, Except.bind]
            rw [if_pos ⟨rfl, rfl⟩, hcreate]
            dsimp only
            cases dispatch GSSysexMap.addressMap (create { e with renderMode := .GS } port) s <;> rfl
        · left
          refine ⟨by rw [gsData, if_neg fun h => hbody h.2.2.2.2], fun e port => ?_⟩
          rw [dispatchRoland, if_neg (by simp only [List.length_cons]; omega)]
          rfl
      · left
        refine ⟨by rw [gsData, if_neg fun h => hfirst ⟨h.2.2.1, h.2.2.2.1⟩], fun e port => ?_⟩
        have hread : (⟨b₁ :: b₂ :: b₃ :: b₄ :: b₅ :: b₆ :: body, rest⟩ : ByteReader).read 3 =
            .ok ([b₁, b₂, b₃], ⟨b₄ :: b₅ :: b₆ :: body, rest⟩) :=
          ByteReader.read_own (by simp)
        rw [dispatchRoland, hread]
        simp only [bind, Except.bind]
        split
        · rw [if_neg (by simpa using hfirst)]
          rfl
        · rfl

theorem dispatchYamaha_cases (dev model c₁ c₂ : UInt8) (body rest : List UInt8) :
    ((∀ a data, xgData (0xf0 :: 0x43 :: dev :: model :: c₁ :: c₂ :: body) = some (a, data) →
        data = []) ∧ ∀ (e : Engine π) port,
      dispatchYamaha e port ⟨dev :: model :: c₁ :: c₂ :: body, rest⟩ (body.length + 6) =
        .ok { e with renderMode := .XG }) ∨
    ∃ a data, xgData (0xf0 :: 0x43 :: dev :: model :: c₁ :: c₂ :: body) = some (a, data) ∧
      GivenTo XGSysexMap.addressMap .XG a data fun (e : Engine π) port =>
        dispatchYamaha e port ⟨dev :: model :: c₁ :: c₂ :: body, rest⟩ (body.length + 6) := by
  have hnone : ∀ {message : List UInt8}, xgData message = none → ∀ a data,
      xgData message = some (a, data) → data = [] := by
    intro message hmessage a data hdata
    rw [hmessage] at hdata
    cases hdata
  by_cases hmodel : model = 0x4c
  swap
  · refine .inl ⟨hnone (by rw [xgData, if_neg fun h => hmodel h.2.2]), fun e port => ?_⟩
    rw [dispatchYamaha]
    split
    · simp only [ByteReader.popByte_cons, bind, Except.bind, if_neg hmodel]
      rfl
    · rfl
  subst hmodel
  by_cases hone : dev.toNat / 16 = 1
  · have hdata : xgData (0xf0 :: 0x43 :: dev :: 0x4c :: c₁ :: c₂ :: body) =
        changeData (c₁ :: c₂ :: body) := by
      rw [xgData, if_pos ⟨rfl, rfl, rfl⟩, if_pos hone]
    rw [hdata]
    match body with
    | [] => exact .inl ⟨fun a data h => (by cases h), fun e port => rfl⟩
    | [b₃] => exact .inl ⟨fun a data h => (by cases h; rfl), fun e port => rfl⟩
    | b₃ :: b₄ :: tail =>
        right
        have hlength : (((b₃ :: b₄ :: tail).length + 6 : ℕ) : ℤ) - 5 =
            ((b₄ :: tail).length - 1 : ℕ) + 3 := by
          simp only [List.length_cons]
          omega
        obtain ⟨s, hcreate, hs⟩ :=
          create_of_length c₁ c₂ b₃ (b₄ :: tail) rest (Nat.sub_le _ _) hlength
        rw [← List.dropLast_eq_take] at hs
        refine ⟨_, _, rfl, s, hs, fun e port => ?_⟩
        beta_reduce
        rw [dispatchYamaha, if_pos (by simp only [List.length_cons]; omega)]
        simp only [ByteReader.popByte_cons, bind, Except.bind, if_true, if_pos hone, hcreate]
        cases dispatch XGSysexMap.addressMap (create { e with renderMode := .XG } port) s <;> rfl
  · by_cases hzero : dev.toNat / 16 = 0
    · have hdata : xgData (0xf0 :: 0x43 :: dev :: 0x4c :: c₁ :: c₂ :: body) =
          bulkData (c₁ :: c₂ :: body) := by
        rw [xgData, if_pos ⟨rfl, rfl, rfl⟩, if_neg hone, if_pos hzero]
      have hrun : ∀ (e : Engine π) port, 7 < body.length + 6 →
          dispatchYamaha e port ⟨dev :: 0x4c :: c₁ :: c₂ :: body, rest⟩ (body.length + 6) =
            if (c₁.toNat * 2 ^ 7 + c₂.toNat : ℤ) = (body.length + 6 : ℕ) - 11 then do
              let sysex ← SysexReader.create ⟨body, rest⟩ ((body.length + 6 : ℕ) - 8)
              let mapper ← dispatch XGSysexMap.addressMap
                (create { e with renderMode := .XG } port) sysex
              return mapper.engine
            else .ok { e with renderMode := .XG } := by
        intro e port hlen
        rw [dispatchYamaha, if_pos hlen]
        simp only [ByteReader.popByte_cons, bind, Except.bind, if_true, if_neg hone, if_pos hzero]
        rfl
      rw [hdata]
      match body, hrun with
      | [], _ => exact .inl ⟨fun a data h => (by cases h), fun e port => rfl⟩
      | [_], _ => exact .inl ⟨fun a data h => (by cases h), fun e port => rfl⟩
      | [b₁, b₂], hrun =>
          refine .inl ⟨fun a data h => (by cases h), fun e port => ?_⟩
          rw [hrun e port (by simp), if_neg (by simp only [List.length_cons, List.length_nil]; omega)]
      | b₁ :: b₂ :: b₃ :: data, hrun =>
          have hlen : 7 < (b₁ :: b₂ :: b₃ :: data).length + 6 := by
            simp only [List.length_cons]
            omega
          by_cases hsays : c₁.toNat * 2 ^ 7 + c₂.toNat + 2 = data.length
          · right
            have hlength : (((b₁ :: b₂ :: b₃ :: data).length + 6 : ℕ) : ℤ) - 8 =
                (data.length - 2 : ℕ) + 3 := by
              simp only [List.length_cons]
              omega
            obtain ⟨s, hcreate, hs⟩ :=
              create_of_length b₁ b₂ b₃ data rest (Nat.sub_le _ _) hlength
            rw [← dropLast_dropLast_eq] at hs
            refine ⟨_, _, by rw [bulkData, if_pos hsays], s, hs, fun e port => ?_⟩
            beta_reduce
            rw [hrun e port hlen, if_pos (by simp only [List.length_cons]; omega), hcreate]
            simp only [bind, Except.bind]
            cases dispatch XGSysexMap.addressMap (create { e with renderMode := .XG } port) s <;> rfl
          · refine .inl ⟨fun a d h => ?_, fun e port => ?_⟩
            · rw [bulkData, if_neg hsays] at h
              cases h
            · rw [hrun e port hlen, if_neg (by simp only [List.length_cons]; omega)]
    · refine .inl ⟨hnone (by rw [xgData, if_pos ⟨rfl, rfl, rfl⟩, if_neg hone, if_neg hzero]),
        fun e port => ?_⟩
      rw [dispatchYamaha]
      split
      · simp only [ByteReader.popByte_cons, bind, Except.bind, if_true, if_neg hone, if_neg hzero]
        rfl
      · rfl

/-- The message is what is stored up to the length that is given. -/
theorem dispatchSysex_take (e : Engine π) (port : π) (bytes : List UInt8) (length : ℕ) :
    dispatchSysex e port bytes length =
      dispatchSysex e port (bytes.take length ++ bytes.drop length) (bytes.take length).length := by
  rw [List.take_append_drop]
  have hlength : (if length > bytes.length then bytes.length else length) =
      if (bytes.take length).length > bytes.length then bytes.length
      else (bytes.take length).length := by
    rw [List.length_take]
    split <;> split <;> omega
  simp only [dispatchSysex, hlength]

/-- What a message does, and whether it has data for an address. -/
theorem dispatchSysex_cases (message rest : List UInt8) :
    ((∀ a data, gsData message = some (a, data) ∨ xgData message = some (a, data) → data = []) ∧
      ∀ (e : Engine π) port,
        Plain message e port (dispatchSysex e port (message ++ rest) message.length)) ∨
    (∃ a data, gsData message = some (a, data) ∧ xgData message = none ∧
      GivenTo GSSysexMap.addressMap .GS a data fun (e : Engine π) port =>
        dispatchSysex e port (message ++ rest) message.length) ∨
    ∃ a data, xgData message = some (a, data) ∧
      GivenTo XGSysexMap.addressMap .XG a data fun (e : Engine π) port =>
        dispatchSysex e port (message ++ rest) message.length := by
  -- A message of neither family.
  have hother : ∀ message : List UInt8,
      ¬ (message[0]? = some 0xf0 ∧ (message[1]? = some 0x41 ∨ message[1]? = some 0x43)) →
      ∀ a data, gsData message = some (a, data) ∨ xgData message = some (a, data) → data = [] := by
    rintro message hnot a data (h | h)
    · exact absurd ⟨(gsData_lead h).1, .inl (gsData_lead h).2⟩ hnot
    · exact absurd ⟨(xgData_lead h).1, .inr (xgData_lead h).2⟩ hnot
  have hshort : ∀ message : List UInt8, message.length < 6 → ∀ a data,
      gsData message = some (a, data) ∨ xgData message = some (a, data) → data = [] := by
    intro message hlen a data h
    match message, hlen with
    | [], _ | [_], _ | [_, _], _ | [_, _, _], _ => exact h.elim (by simp [gsData]) (by simp [xgData])
    | [_, _, _, _], _ | [_, _, _, _, _], _ =>
        exact h.elim (by simp [gsData]) (by simp [xgData, changeData, bulkData])
    | _ :: _ :: _ :: _ :: _ :: _ :: _, hlen =>
        simp only [List.length_cons] at hlen
        omega
  have hstored : ¬ message.length > (message ++ rest).length := by
    rw [List.length_append]
    omega
  simp only [dispatchSysex, if_neg hstored, List.take_left, List.drop_left]
  by_cases hlen : message.length < 6
  · refine .inl ⟨hshort message hlen, fun e port => ?_⟩
    rw [if_pos hlen]
    exact .ignored message e port
  · simp only [if_neg hlen]
    match message, hlen with
    | [], hlen | [_], hlen | [_, _], hlen | [_, _, _], hlen | [_, _, _, _], hlen
    | [_, _, _, _, _], hlen => simp at hlen
    | lead :: id :: b₁ :: b₂ :: b₃ :: b₄ :: body, _ =>
        simp only [ByteReader.popByte_cons, bind, Except.bind]
        by_cases hlead : lead = 0xf0
        swap
        · refine .inl ⟨hother _ fun h => hlead (Option.some.inj h.1), fun e port => ?_⟩
          rw [if_pos hlead]
          exact .ignored _ e port
        subst hlead
        simp only [ne_eq, not_true, if_false]
        have hid : ∀ {n : UInt8}, id.toNat = n.toNat → id = n := UInt8.toNat_inj.mp
        split
        · rename_i heq
          have hid : id = 0x7f := hid heq
          subst hid
          exact .inl ⟨hother _ (by simp), fun e port =>
            dispatchRealtime_plain _ e port b₁ b₂ b₃ (b₄ :: body) rest⟩
        · rename_i heq
          have hid : id = 0x7e := hid heq
          subst hid
          exact .inl ⟨hother _ (by simp), fun e port =>
            dispatchNonRealtime_plain e port b₁ b₂ b₃ b₄ body rest⟩
        · rename_i heq
          have hid : id = 0x41 := hid heq
          subst hid
          have hxg : xgData (0xf0 :: 0x41 :: b₁ :: b₂ :: b₃ :: b₄ :: body) = none := by
            rw [xgData, if_neg (by simp)]
          rcases dispatchRoland_cases (π := π) b₁ b₂ b₃ b₄ body rest with
            ⟨hnone, hrun⟩ | ⟨a, data, hdata, hgiven⟩
          · refine .inl ⟨fun a data h => ?_, fun e port => .inl ⟨.GS, hrun e port⟩⟩
            rw [hnone, hxg] at h
            rcases h with h | h <;> cases h
          · exact .inr (.inl ⟨a, data, hdata, hxg, hgiven⟩)
        · rename_i heq
          have hid : id = 0x43 := hid heq
          subst hid
          have hgs : ∀ a data,
              ¬ gsData (0xf0 :: 0x43 :: b₁ :: b₂ :: b₃ :: b₄ :: body) = some (a, data) := by
            intro a data h
            have hsecond := (gsData_lead h).2
            simp at hsecond
          rcases dispatchYamaha_cases (π := π) b₁ b₂ b₃ b₄ body rest with
            ⟨hempty, hrun⟩ | ⟨a, data, hdata, hgiven⟩
          · exact .inl ⟨fun a data h => h.elim (fun h => absurd h (hgs a data)) (hempty a data),
              fun e port => .inl ⟨.XG, hrun e port⟩⟩
          · exact .inr (.inr ⟨a, data, hdata, hgiven⟩)
        · rename_i hne₁ hne₂ hne₃ hne₄
          refine .inl ⟨hother _ ?_, fun e port => .ignored _ e port⟩
          rintro ⟨-, h | h⟩
          · exact hne₃ (by rw [Option.some.inj h]; rfl)
          · exact hne₄ (by rw [Option.some.inj h]; rfl)

end Dispatch

end LinuxSampler
