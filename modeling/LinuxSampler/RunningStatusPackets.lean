import LinuxSampler.RunningStatus

/-!
# Running status in packets

`expectedEventSize()` counts a status byte for every message. For a message that
has none `DispatchRaw()` reads one byte less than the splitter skips.
-/

namespace LinuxSampler

/-! ## Bytes -/

/-- How many bytes `DispatchRaw()` reads of a message with this first byte. -/
def Byte.size (b : Byte) : ℕ :=
  if b.IsChannel then if 0xC0#8 ≤ b ∧ b < 0xE0#8 then 2 else 3 else 1

namespace Byte

variable {b : Byte}

theorem IsChannel.bit (h : b.IsChannel) : b &&& 0x80 ≠ 0 := by
  revert b
  decide

theorem IsChannel.ne_zero (h : b.IsChannel) : b ≠ 0 := by
  revert b
  decide

theorem bit_of_lt (h : b < 0x80#8) : b &&& 0x80 = 0 := by
  revert b
  decide

theorem bit_of_realTime (h : 0xF8#8 ≤ b) : b &&& 0x80 ≠ 0 := by
  revert b
  decide

theorem not_system_of_realTime (h : 0xF8#8 ≤ b) :
    ¬b.IsChannel ∧ ¬(0xF0#8 ≤ b ∧ b < 0xF8#8) := by
  revert b
  decide

theorem size_of_realTime (h : 0xF8#8 ≤ b) : b.size = 1 := by
  revert b
  decide

theorem one_le_size : 1 ≤ b.size := by
  unfold size
  split
  · split <;> omega
  · exact Nat.le_refl 1

theorem size_of_type (b : Byte) :
    (b &&& 0xF0 = 0x80 → b.size = 3) ∧ (b &&& 0xF0 = 0x90 → b.size = 3) ∧
      (b &&& 0xF0 = 0xA0 → b.size = 3) ∧ (b &&& 0xF0 = 0xB0 → b.size = 3) ∧
      (b &&& 0xF0 = 0xC0 → b.size = 2) ∧ (b &&& 0xF0 = 0xD0 → b.size = 2) ∧
      (b &&& 0xF0 = 0xE0 → b.size = 3) ∧ (b.size ≠ 1 → b.IsChannel) := by
  revert b
  decide

theorem type_of_isChannel (h : b.IsChannel) :
    b &&& 0xF0 = 0x80 ∨ b &&& 0xF0 = 0x90 ∨ b &&& 0xF0 = 0xA0 ∨ b &&& 0xF0 = 0xB0 ∨
      b &&& 0xF0 = 0xC0 ∨ b &&& 0xF0 = 0xD0 ∨ b &&& 0xF0 = 0xE0 := by
  revert b
  decide

end Byte

namespace RawMidiPort

variable {p q : RawMidiPort} {b : Byte} {data pData : List Byte} {calls : List Dispatch} {n : ℕ}

/-! ## One piece -/

/-- What the switch reads is told by the first byte. -/
theorem dispatch_cases (hb : pData[0]? = some b) :
    (b.size = 3 ∧ ∃ calls : Byte → Byte → List Dispatch, dispatch pData =
      pData[1]?.bind fun d₁ => pData[2]?.bind fun d₂ => some (calls d₁ d₂, 3)) ∨
    (b.size = 2 ∧ ∃ calls : Byte → List Dispatch, dispatch pData =
      pData[1]?.bind fun d => some (calls d, 2)) ∨
    (b.size = 1 ∧ dispatch pData = some ([], 1)) := by
  obtain ⟨h₁, h₂, h₃, h₄, h₅, h₆, h₇, h₈⟩ := b.size_of_type
  unfold dispatch
  rw [hb, Option.bind_eq_bind, Option.bind_some]
  dsimp only
  by_cases h80 : b &&& 0xF0 = 0x80
  · rw [if_pos h80]
    exact .inl ⟨h₁ h80, _, rfl⟩
  by_cases h90 : b &&& 0xF0 = 0x90
  · rw [if_neg h80, if_pos h90]
    exact .inl ⟨h₂ h90, _, rfl⟩
  by_cases hA0 : b &&& 0xF0 = 0xA0
  · rw [if_neg h80, if_neg h90, if_pos hA0]
    exact .inl ⟨h₃ hA0, _, rfl⟩
  by_cases hB0 : b &&& 0xF0 = 0xB0
  · rw [if_neg h80, if_neg h90, if_neg hA0, if_pos hB0]
    exact .inl ⟨h₄ hB0, _, rfl⟩
  by_cases hC0 : b &&& 0xF0 = 0xC0
  · rw [if_neg h80, if_neg h90, if_neg hA0, if_neg hB0, if_pos hC0]
    exact .inr (.inl ⟨h₅ hC0, _, rfl⟩)
  by_cases hD0 : b &&& 0xF0 = 0xD0
  · rw [if_neg h80, if_neg h90, if_neg hA0, if_neg hB0, if_neg hC0, if_pos hD0]
    exact .inr (.inl ⟨h₆ hD0, _, rfl⟩)
  by_cases hE0 : b &&& 0xF0 = 0xE0
  · rw [if_neg h80, if_neg h90, if_neg hA0, if_neg hB0, if_neg hC0, if_neg hD0, if_pos hE0]
    exact .inl ⟨h₇ hE0, _, rfl⟩
  rw [if_neg h80, if_neg h90, if_neg hA0, if_neg hB0, if_neg hC0, if_neg hD0, if_neg hE0]
  refine .inr (.inr ⟨?_, rfl⟩)
  by_contra hsize
  rcases Byte.type_of_isChannel (h₈ hsize) with h | h | h | h | h | h | h
  · exact h80 h
  · exact h90 h
  · exact hA0 h
  · exact hB0 h
  · exact hC0 h
  · exact hD0 h
  · exact hE0 h

theorem dispatch_read (hb : pData[0]? = some b) (h : dispatch pData = some (calls, n)) :
    n = b.size := by
  rcases dispatch_cases hb with ⟨hsize, _, heq⟩ | ⟨hsize, _, heq⟩ | ⟨hsize, heq⟩
  · rw [heq] at h
    obtain ⟨_, -, h⟩ := Option.bind_eq_some_iff.mp h
    obtain ⟨_, -, h⟩ := Option.bind_eq_some_iff.mp h
    cases h
    exact hsize.symm
  · rw [heq] at h
    obtain ⟨_, -, h⟩ := Option.bind_eq_some_iff.mp h
    cases h
    exact hsize.symm
  · rw [heq] at h
    cases h
    exact hsize.symm

/-- A message that is there as a whole is dispatched. -/
theorem dispatch_isSome (hb : pData[0]? = some b) (h : b.size ≤ pData.length) :
    ∃ calls, dispatch pData = some (calls, b.size) := by
  rcases dispatch_cases hb with ⟨hsize, calls, heq⟩ | ⟨hsize, calls, heq⟩ | ⟨hsize, heq⟩
  · have h₁ : pData[1]? = some pData[1] := List.getElem?_eq_getElem (by omega)
    have h₂ : pData[2]? = some pData[2] := List.getElem?_eq_getElem (by omega)
    exact ⟨_, by rw [heq, h₁, Option.bind_some, h₂, Option.bind_some, hsize]⟩
  · have h₁ : pData[1]? = some pData[1] := List.getElem?_eq_getElem (by omega)
    exact ⟨_, by rw [heq, h₁, Option.bind_some, hsize]⟩
  · exact ⟨_, by rw [heq, hsize]⟩

theorem handleRunningStatus_status (hbit : b &&& 0x80 ≠ 0) :
    p.handleRunningStatus (b :: data) = some (p.storeStatus b, b :: data, false) := by
  unfold handleRunningStatus
  rw [List.getElem?_cons_zero, Option.bind_eq_bind, Option.bind_some, if_pos (.inl hbit),
    if_pos hbit]
  rfl

theorem handleRunningStatus_invalid (hbit : b &&& 0x80 = 0) (hstatus : p.status = 0) :
    p.handleRunningStatus (b :: data) = some (p, b :: data, false) := by
  unfold handleRunningStatus
  rw [List.getElem?_cons_zero, Option.bind_eq_bind, Option.bind_some, if_pos (.inr hstatus),
    if_neg (not_not.mpr hbit)]
  rfl

theorem handleRunningStatus_running {buffer : List Byte} {running : Bool} (hbit : b &&& 0x80 = 0)
    (hstatus : p.status ≠ 0) (h : p.handleRunningStatus (b :: data) = some (q, buffer, running)) :
    buffer[0]? = some p.status ∧ running = true ∧ q.consumed = p.consumed := by
  have hrunning : ¬(b &&& 0x80 ≠ 0 ∨ p.status = 0) := by
    rintro (hne | heq)
    · exact hne hbit
    · exact hstatus heq
  unfold handleRunningStatus at h
  rw [List.getElem?_cons_zero, Option.bind_eq_bind, Option.bind_some, if_neg hrunning] at h
  split at h
  · cases h
    exact ⟨rfl, rfl, rfl⟩
  · obtain ⟨d, -, h⟩ := Option.bind_eq_some_iff.mp h
    cases h
    exact ⟨rfl, rfl, rfl⟩

theorem storeStatus_frame : (p.storeStatus b).dispatched = p.dispatched ∧
    (p.storeStatus b).consumed = p.consumed := by
  unfold storeStatus
  split
  · exact ⟨rfl, rfl⟩
  · split <;> exact ⟨rfl, rfl⟩

theorem dispatchRaw_eq_some : p.dispatchRaw pData = some q ↔
    ∃ p' buffer running calls n, p.handleRunningStatus pData = some (p', buffer, running) ∧
      dispatch buffer = some (calls, n) ∧ q = { p' with
        dispatched := p'.dispatched ++ calls
        consumed := p'.consumed ++ pData.take (if running then n - 1 else n) } := by
  unfold dispatchRaw
  constructor
  · intro h
    obtain ⟨⟨p', buffer, running⟩, hbuffer, h⟩ := Option.bind_eq_some_iff.mp h
    obtain ⟨⟨calls, n⟩, hcalls, h⟩ := Option.bind_eq_some_iff.mp h
    cases h
    exact ⟨p', buffer, running, calls, n, hbuffer, hcalls, rfl⟩
  · rintro ⟨p', buffer, running, calls, n, hbuffer, hcalls, rfl⟩
    exact Option.bind_eq_some_iff.mpr ⟨_, hbuffer, Option.bind_eq_some_iff.mpr ⟨_, hcalls, rfl⟩⟩

/-- The state after a piece with a status byte. -/
theorem dispatchRaw_status (p : RawMidiPort) (hbit : b &&& 0x80 ≠ 0)
    (h : b.size ≤ (b :: data).length) :
    ∃ q, p.dispatchRaw (b :: data) = some q ∧ q.status = (p.storeStatus b).status ∧
      q.consumed = p.consumed ++ (b :: data).take b.size := by
  have hb : (b :: data)[0]? = some b := rfl
  obtain ⟨calls, hcalls⟩ := dispatch_isSome hb h
  refine ⟨_, dispatchRaw_eq_some.mpr
    ⟨_, _, _, _, _, handleRunningStatus_status hbit, hcalls, rfl⟩, rfl, ?_⟩
  exact congrArg (· ++ (b :: data).take b.size) storeStatus_frame.2

/-- What is read of a piece. -/
theorem dispatchRaw_read (h : p.dispatchRaw (b :: data) = some q) :
    q.consumed = p.consumed ++ (b :: data).take
      (if b &&& 0x80 = 0 ∧ p.status ≠ 0 then p.status.size - 1 else b.size) := by
  have hb : (b :: data)[0]? = some b := rfl
  obtain ⟨p', buffer, running, calls, n, hbuffer, hcalls, rfl⟩ := dispatchRaw_eq_some.mp h
  by_cases hrunning : b &&& 0x80 = 0 ∧ p.status ≠ 0
  · obtain ⟨hstart, rfl, hconsumed⟩ :=
      handleRunningStatus_running hrunning.1 hrunning.2 hbuffer
    simp only [if_pos hrunning, ← dispatch_read hstart hcalls, hconsumed, if_true]
  · have hread : p'.consumed = p.consumed ∧ buffer = b :: data ∧ running = false := by
      by_cases hbit : b &&& 0x80 = 0
      · have hstatus : p.status = 0 := by_contra fun hne => hrunning ⟨hbit, hne⟩
        rw [handleRunningStatus_invalid hbit hstatus] at hbuffer
        cases hbuffer
        exact ⟨rfl, rfl, rfl⟩
      · rw [handleRunningStatus_status hbit] at hbuffer
        cases hbuffer
        exact ⟨storeStatus_frame.2, rfl, rfl⟩
    obtain ⟨hconsumed, rfl, rfl⟩ := hread
    simp only [if_neg hrunning, ← dispatch_read hb hcalls, hconsumed, Bool.false_eq_true, if_false]

/-! ## The size of a piece -/

theorem eventSize_of_isChannel (h : b.IsChannel) : eventSize b = some b.size := by
  revert b
  decide

theorem eventSize_of_realTime (h : 0xF8#8 ≤ b) : eventSize b = some b.size := by
  revert b
  decide

theorem size_le_eventSize (b : Byte) : b.size ≤ (eventSize b).getD b.size := by
  revert b
  decide

theorem expectedEventSize_status (hbit : b &&& 0x80 ≠ 0) : p.expectedEventSize b = eventSize b :=
  congrArg eventSize (if_neg fun hand => hbit hand.1)

theorem expectedEventSize_running (hbit : b &&& 0x80 = 0) (hstatus : p.status ≠ 0) :
    p.expectedEventSize b = some p.status.size := by
  unfold expectedEventSize
  rw [if_pos ⟨hbit, hstatus⟩]
  exact eventSize_of_isChannel (p.valid.resolve_left hstatus)

/-- No piece is read beyond its end, and none without a status byte up to it. -/
theorem read_le_expectedEventSize (h : p.dispatchRaw (b :: data) = some q)
    (hn : n = (p.expectedEventSize b).getD (b :: data).length) :
    q.consumed.length + (if b &&& 0x80 = 0 ∧ p.status ≠ 0 then 1 else 0) ≤
      p.consumed.length + n := by
  rw [dispatchRaw_read h, List.length_append, List.length_take]
  split
  · rename_i hrunning
    rw [expectedEventSize_running hrunning.1 hrunning.2, Option.getD_some] at hn
    have := p.status.one_le_size
    omega
  · rename_i hrunning
    have hsize := size_le_eventSize b
    unfold expectedEventSize at hn
    rw [if_neg hrunning] at hn
    cases hevent : eventSize b with
    | none =>
        rw [hevent, Option.getD_none] at hn
        omega
    | some k =>
        rw [hevent, Option.getD_some] at hn hsize
        omega

/-! ## A packet -/

theorem processFrom_cons {fuel : ℕ} : processFrom (fuel + 1) p (b :: data) =
    if (b :: data).length < (p.expectedEventSize b).getD (b :: data).length then some p
    else (p.dispatchRaw (b :: data)).bind fun p' => processFrom fuel p'
      ((b :: data).drop ((p.expectedEventSize b).getD (b :: data).length)) := rfl

/-- No byte is read twice. -/
theorem processFrom_consumed_le {fuel : ℕ} (h : processFrom fuel p data = some q) :
    q.consumed.length ≤ p.consumed.length + data.length := by
  induction fuel generalizing p data with
  | zero =>
      cases data with
      | nil =>
          cases h
          exact Nat.le_refl _
      | cons b data => cases h
  | succ fuel ih =>
      cases data with
      | nil =>
          cases h
          exact Nat.le_refl _
      | cons b data =>
          unfold processFrom at h
          dsimp only at h
          split at h
          · cases h
            exact Nat.le_add_right _ _
          · rename_i hlen
            obtain ⟨p', hp', h⟩ := Option.bind_eq_some_iff.mp h
            have hread := read_le_expectedEventSize hp' rfl
            have hrest := ih h
            rw [List.length_drop] at hrest
            omega

/-- A piece without a status byte leaves a byte unread. -/
theorem processFrom_consumed_lt {fuel : ℕ} (hbit : b &&& 0x80 = 0) (hstatus : p.status ≠ 0)
    (h : processFrom fuel p (b :: data) = some q) :
    q.consumed.length < p.consumed.length + (b :: data).length := by
  cases fuel with
  | zero => cases h
  | succ fuel =>
      unfold processFrom at h
      dsimp only at h
      split at h
      · cases h
        rw [List.length_cons]
        omega
      · rename_i hlen
        obtain ⟨p', hp', h⟩ := Option.bind_eq_some_iff.mp h
        have hread := read_le_expectedEventSize hp' rfl
        rw [if_pos ⟨hbit, hstatus⟩] at hread
        have hrest := processFrom_consumed_le h
        rw [List.length_drop] at hrest
        omega

/-- A whole message with its status byte is one piece. -/
theorem processFrom_status (p : RawMidiPort) (rest : List Byte) (hbit : b &&& 0x80 ≠ 0)
    (hevent : eventSize b = some b.size) (hsize : (b :: data).length = b.size) :
    ∃ p', p'.status = (p.storeStatus b).status ∧ p'.consumed = p.consumed ++ (b :: data) ∧
      ∀ fuel, processFrom (fuel + 1) p (b :: data ++ rest) = processFrom fuel p' rest := by
  have hle : b.size ≤ (b :: (data ++ rest)).length := by
    rw [← hsize]
    simp
  have happend : b :: (data ++ rest) = (b :: data) ++ rest := rfl
  obtain ⟨p', hp', hstatus, hconsumed⟩ := dispatchRaw_status p hbit hle
  refine ⟨p', hstatus, ?_, fun fuel => ?_⟩
  · rw [hconsumed, happend, ← hsize, List.take_left]
  · show processFrom (fuel + 1) p (b :: (data ++ rest)) = _
    rw [processFrom_cons, expectedEventSize_status hbit, hevent, Option.getD_some,
      if_neg (Nat.not_lt.mpr hle), hp', Option.bind_some, happend, ← hsize, List.drop_left]

end RawMidiPort

namespace ChannelMessage

theorem length_data (m : ChannelMessage) : (m.status :: m.data).length = m.status.size := by
  unfold data isShort Byte.size
  rw [if_pos m.status_isChannel]
  by_cases hshort : 0xC0#8 ≤ m.status ∧ m.status < 0xE0#8
  · simp [hshort]
  · simp [hshort]

end ChannelMessage

namespace MidiItem

open RawMidiPort

variable {p q : RawMidiPort} {items : List MidiItem}

theorem bytes_ne_nil (item : MidiItem) : item.bytes ≠ [] := by
  rcases item with ⟨m, omitted⟩ | ⟨b, h⟩
  · cases omitted
    · exact List.cons_ne_nil _ _
    · show m.data ≠ []
      unfold ChannelMessage.data
      split <;> exact List.cons_ne_nil _ _
  · exact List.cons_ne_nil _ _

/-- An item that has its status byte is one piece, and leaves its running status. -/
theorem processFrom_item {item : MidiItem} (rest : List Byte) (hitem : ¬item.Omits)
    (hallowed : Allowed p.status (item :: items)) :
    ∃ p', Allowed p'.status items ∧ p'.consumed = p.consumed ++ item.bytes ∧
      ∀ fuel, processFrom (fuel + 1) p (item.bytes ++ rest) = processFrom fuel p' rest := by
  rcases item with ⟨m, omitted⟩ | ⟨b, h⟩
  · have homitted : omitted = false := Bool.eq_false_iff.mpr hitem
    subst homitted
    have hchannel := m.status_isChannel
    obtain ⟨p', hstatus, hconsumed, hrun⟩ := processFrom_status p rest
      hchannel.bit (eventSize_of_isChannel hchannel) m.length_data
    have hstore : (p.storeStatus m.status).status = m.status := by
      unfold storeStatus
      rw [dif_pos hchannel]
    refine ⟨p', ?_, hconsumed, hrun⟩
    rw [hstatus, hstore]
    exact hallowed.2
  · obtain ⟨p', hstatus, hconsumed, hrun⟩ := processFrom_status p rest
      (Byte.bit_of_realTime h) (eventSize_of_realTime h)
      (show [b].length = b.size from (Byte.size_of_realTime h).symm)
    have hstore : p.storeStatus b = p := by
      have hneg := Byte.not_system_of_realTime h
      unfold storeStatus
      rw [dif_neg hneg.1]
      exact if_neg hneg.2
    refine ⟨p', ?_, hconsumed, hrun⟩
    rw [hstatus, hstore]
    exact hallowed

/-- With all status bytes each byte of the packet is read once. -/
theorem processFrom_of_not_omits (hitems : ∀ item ∈ items, ¬item.Omits)
    (hallowed : Allowed p.status items) {fuel : ℕ} (hfuel : items.length ≤ fuel) :
    ∃ q, processFrom fuel p (packet items) = some q ∧
      q.consumed = p.consumed ++ packet items := by
  induction items generalizing p fuel with
  | nil => exact ⟨p, by unfold processFrom packet; rfl, (List.append_nil _).symm⟩
  | cons item items ih =>
      rw [List.length_cons] at hfuel
      obtain ⟨fuel, rfl⟩ := Nat.exists_eq_add_of_le' (Nat.le_trans (Nat.le_add_left 1 _) hfuel)
      obtain ⟨p', hallowed', hconsumed, hrun⟩ := processFrom_item (packet items)
        (hitems item List.mem_cons_self) hallowed
      obtain ⟨q, hq, hread⟩ := ih (fun i hi => hitems i (List.mem_cons_of_mem _ hi)) hallowed'
        (Nat.le_of_succ_le_succ hfuel)
      refine ⟨q, (hrun fuel).trans hq, ?_⟩
      rw [hread, hconsumed, List.append_assoc]
      rfl

/-- After an omitted status byte not every byte is read. -/
theorem consumed_lt_of_omits (hallowed : Allowed p.status items)
    (homits : ∃ item ∈ items, item.Omits) {fuel : ℕ}
    (h : processFrom fuel p (packet items) = some q) :
    q.consumed.length < p.consumed.length + (packet items).length := by
  induction items generalizing p fuel with
  | nil =>
      obtain ⟨item, hmem, -⟩ := homits
      cases hmem
  | cons item items ih =>
      have hpacket : packet (item :: items) = item.bytes ++ packet items := rfl
      by_cases hitem : item.Omits
      · rcases item with ⟨m, omitted⟩ | ⟨b, hb⟩
        · obtain rfl : omitted = true := hitem
          have hdata : ∃ data, packet (message m true :: items) = m.data1 :: data := by
            unfold packet
            rw [List.flatMap_cons]
            unfold bytes ChannelMessage.data
            dsimp only
            split <;> exact ⟨_, rfl⟩
          obtain ⟨data, hdata⟩ := hdata
          have hstatus : p.status ≠ 0 := hallowed.1 rfl ▸ m.status_isChannel.ne_zero
          rw [hdata] at h ⊢
          exact processFrom_consumed_lt (Byte.bit_of_lt m.data1_lt) hstatus h
        · cases hitem
      · cases fuel with
        | zero =>
            obtain ⟨b, data, hdata⟩ := List.exists_cons_of_ne_nil (bytes_ne_nil item)
            rw [hpacket, hdata] at h
            cases h
        | succ fuel =>
            obtain ⟨p', hallowed', hconsumed, hrun⟩ :=
              processFrom_item (packet items) hitem hallowed
            have homits' : ∃ item ∈ items, item.Omits := by
              obtain ⟨i, hi, hio⟩ := homits
              rcases List.mem_cons.mp hi with rfl | hi
              · exact absurd hio hitem
              · exact ⟨i, hi, hio⟩
            have hlt := ih hallowed' homits' ((hrun fuel).symm.trans (hpacket ▸ h))
            rw [hconsumed, List.length_append] at hlt
            rw [hpacket, List.length_append]
            omega

theorem length_le_packet : items.length ≤ (packet items).length := by
  induction items with
  | nil => exact Nat.le_refl 0
  | cons item items ih =>
      have hpos := List.length_pos_of_ne_nil (bytes_ne_nil item)
      have hpacket : packet (item :: items) = item.bytes ++ packet items := rfl
      rw [hpacket, List.length_append, List.length_cons]
      omega

theorem map_writeOut (hitems : ∀ item ∈ items, ¬item.Omits) : items.map writeOut = items := by
  refine List.map_congr_left (fun item hitem => ?_) |>.trans items.map_id
  rcases item with ⟨m, omitted⟩ | ⟨b, h⟩
  · have homitted : omitted = false := Bool.eq_false_iff.mpr (hitems _ hitem)
    rw [homitted]
    rfl
  · rfl

end MidiItem

namespace RawMidiPort

open MidiItem

/-- The packet gives the same calls as with all status bytes written out, and
each of its bytes is read once. -/
def Transparent (p : RawMidiPort) (items : List MidiItem) : Prop :=
  ∃ q q', p.processMidiEvents (packet items) = some q ∧
    p.processMidiEvents (packet (items.map writeOut)) = some q' ∧
    q.dispatched = q'.dispatched ∧ q.consumed = p.consumed ++ packet items

/-- Running status is transparent just where it is not used. -/
theorem transparent_iff (p : RawMidiPort) (items : List MidiItem)
    (hallowed : Allowed p.status items) :
    p.Transparent items ↔ ∀ item ∈ items, ¬item.Omits := by
  constructor
  · rintro ⟨q, q', hq, -, -, hconsumed⟩ item hitem homits
    have hlt := consumed_lt_of_omits hallowed ⟨item, hitem, homits⟩ hq
    rw [hconsumed, List.length_append] at hlt
    omega
  · intro hitems
    obtain ⟨q, hq, hconsumed⟩ := processFrom_of_not_omits hitems hallowed length_le_packet
    refine ⟨q, q, hq, ?_, rfl, hconsumed⟩
    rw [map_writeOut hitems]
    exact hq

def noteOn (key : Byte) (h : key < 0x80#8) : ChannelMessage where
  status := 0x90
  data1 := key
  data2 := 64
  status_isChannel := by decide
  data1_lt := h
  data2_lt := by decide

theorem transparent_two : init.Transparent [.message (noteOn 60 (by decide)) false,
    .realTime 0xF8 (by decide), .message (noteOn 62 (by decide)) false] :=
  have hallowed : Allowed init.status [.message (noteOn 60 (by decide)) false,
      .realTime 0xF8 (by decide), .message (noteOn 62 (by decide)) false] :=
    ⟨nofun, nofun, trivial⟩
  (transparent_iff init _ hallowed).mpr <| by
    intro item hitem homits
    simp only [List.mem_cons, List.not_mem_nil, or_false] at hitem
    rcases hitem with rfl | rfl | rfl <;> cases homits

/-- The second note-on of a packet is lost if its status byte is omitted. -/
theorem not_transparent : ¬ init.Transparent
    [.message (noteOn 60 (by decide)) false, .message (noteOn 62 (by decide)) true] := by
  rintro ⟨q, q', hq, hq', hcalls, -⟩
  have h : (init.processMidiEvents [0x90, 60, 64, 62, 64]).map (·.dispatched) =
      some [.noteOn 60 64 0] := by decide
  have h' : (init.processMidiEvents [0x90, 60, 64, 0x90, 62, 64]).map (·.dispatched) =
      some [.noteOn 60 64 0, .noteOn 62 64 0] := by decide
  have hlost : some q.dispatched = some [.noteOn 60 64 0] := (congrArg _ hq).symm.trans h
  have hwritten : some q'.dispatched = some [.noteOn 60 64 0, .noteOn 62 64 0] :=
    (congrArg _ hq').symm.trans h'
  rw [← hcalls, hlost] at hwritten
  cases hwritten

end RawMidiPort

end LinuxSampler
