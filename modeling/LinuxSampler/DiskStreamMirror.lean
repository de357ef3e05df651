import LinuxSampler.DiskStream
import LinuxSampler.RingBufferFifo

/-!
# The wrap area mirrors the beginning of the buffer

A refill ends before the end of the array or fills the wrap area, so that
the wrap area is a copy of the beginning while the data goes over the end.
Only silence is written without it.
-/

namespace LinuxSampler

open CircularArray

namespace RingBuffer

variable {α : Type*} {B : RingBuffer α} {log data : List α} {R : ℕ} {k n : ℤ}

/-! ## Positions -/

/-- The data lies in one piece, or goes over the end of the array. -/
theorem Holds.ptr_cases (h : B.Holds log R) :
    B.readPtr ≤ B.writePtr ∧ B.writePtr = B.readPtr + (log.length - R) ∨
      B.writePtr < B.readPtr ∧ B.writePtr = B.readPtr + (log.length - R) - B.size := by
  have hsize := h.sized.size_pos
  have hcap := h.capacity
  have hle := h.le
  have hnn := Int.emod_nonneg (R : ℤ) hsize.ne'
  have hlt := Int.emod_lt_of_pos (R : ℤ) hsize
  have hW : (log.length : ℤ) = R + ((log.length : ℤ) - R) := by ring
  rw [h.write_eq, h.read_eq]
  by_cases hwrap : (R : ℤ) % B.size + ((log.length : ℤ) - R) < B.size
  · left
    have hw : (log.length : ℤ) % B.size = R % B.size + ((log.length : ℤ) - R) := by
      conv_lhs => rw [hW]
      rw [emod_add_eq 0 (by omega) (by omega)]
      ring
    omega
  · right
    have hw : (log.length : ℤ) % B.size = R % B.size + ((log.length : ℤ) - R) - B.size := by
      conv_lhs => rw [hW]
      rw [emod_add_eq 1 (by omega) (by omega)]
      ring
    omega

/-- Where the wrap area can be read it is a copy of the beginning. -/
def Mirrored (B : RingBuffer α) : Prop :=
  B.writePtr < B.readPtr →
    ∀ i, 0 ≤ i → i < B.writePtr → i < B.wrapElements → B.buf (B.size + i) = B.buf i

/-- The data was stored from the write position on. -/
def Stored (B : RingBuffer α) (data : List α) : Prop :=
  ∀ t : ℕ, t < data.length → some (B.buf (B.writePtr + t)) = data[t]?

/-- The wrap area can not be longer than the array. -/
def WrapFits (B : RingBuffer α) : Prop := 0 ≤ B.wrapElements ∧ B.wrapElements < B.size

/-- Not more than there is space for, and not beyond the wrap area. -/
def Fits (B : RingBuffer α) (k : ℤ) : Prop :=
  B.readSpace + k < B.size ∧ B.writePtr + k ≤ B.size + B.wrapElements

/-! ## Reading in one piece -/

theorem Holds.copyOut_eq (h : B.Holds log R) (hmirrored : B.Mirrored) {n : ℕ}
    (hn : n ≤ B.readSpace) (hwrap : n ≤ B.wrapElements) :
    B.copyOut B.readPtr n = (log.drop R).take n := by
  rw [h.readSpace_eq] at hn
  have hsize := h.sized.size_pos
  have hcap := h.capacity
  obtain ⟨⟨hr₀, hr⟩, hw₀, hw⟩ := h.ptr_range
  rw [copyOut, Int.toNat_natCast]
  refine slice_eq fun t ht => ?_
  rw [← h.shows_log (R + t) (by omega) (by omega)]
  push_cast
  by_cases hend : B.readPtr + t < B.size
  · rw [emod_add_eq 0 (by rw [← h.read_eq]; omega) (by rw [← h.read_eq]; omega), ← h.read_eq]
    ring_nf
  · -- the rest is read from the wrap area
    obtain ⟨i, hi⟩ : ∃ i, i = B.readPtr + t - B.size := ⟨_, rfl⟩
    rw [emod_add_eq 1 (by rw [← h.read_eq]; omega) (by rw [← h.read_eq]; omega), ← h.read_eq]
    have hpos : B.readPtr + t = B.size + i := by omega
    have hpos' : B.readPtr + t - B.size * 1 = i := by omega
    rw [hpos', hpos]
    rcases h.ptr_cases with ⟨hle, hptr⟩ | ⟨hlt, hptr⟩
    · omega
    · rw [hmirrored hlt i (by omega) (by omega) (by omega)]

/-! ## Writing -/

theorem Holds.store (h : B.Holds log R) (hmirrored : B.Mirrored) (hfits : B.Fits data.length) :
    (B.copyIn B.writePtr data data.length).Holds log R ∧
      (B.copyIn B.writePtr data data.length).Mirrored ∧
      (B.copyIn B.writePtr data data.length).Stored data := by
  obtain ⟨hspace, -⟩ := hfits
  rw [h.readSpace_eq] at hspace
  obtain ⟨⟨hr₀, hr⟩, hw₀, hw⟩ := h.ptr_range
  have htake : data.take (data.length : ℤ).toNat = data := by simp
  have hbuf : (B.copyIn B.writePtr data data.length).buf = overwrite B.buf B.writePtr data := by
    rw [copyIn, htake]
  refine ⟨⟨⟨h.sized.pow, h.sized.mask⟩, h.write_eq, h.read_eq, h.le, h.capacity, ?_⟩, ?_, ?_⟩
  · rw [hbuf, h.write_eq]
    exact h.shows_log.store data (by omega) h.sized.size_pos
  · intro hlt i hi hiw hiwrap
    have hlt : B.writePtr < B.readPtr := hlt
    have hiw : i < B.writePtr := hiw
    rw [hbuf]
    change overwrite B.buf B.writePtr data (B.size + i) = _
    rcases h.ptr_cases with ⟨hle, -⟩ | ⟨-, hptr⟩
    · omega
    · rw [overwrite_of_le (by omega), overwrite_of_lt hiw]
      exact hmirrored hlt i hi hiw hiwrap
  · intro t ht
    rw [hbuf]
    exact overwrite_add ht

/-- What was stored before the end of the array is added to the data. -/
theorem Holds.increment_of_lt (h : B.Holds log R) (hmirrored : B.Mirrored)
    (hstored : B.Stored data) (hfits : B.Fits data.length)
    (hsafe : B.writePtr < B.readPtr → B.wrapElements ≤ B.writePtr)
    (hlt : B.writePtr + data.length < B.size) :
    (B.incrementWritePtrWithWrap data.length).Holds (log ++ data) R ∧
      (B.incrementWritePtrWithWrap data.length).Mirrored := by
  obtain ⟨hspace, -⟩ := hfits
  rw [h.readSpace_eq] at hspace
  have hle := h.le
  have hsize := h.sized.size_pos
  obtain ⟨-, hw₀, hw⟩ := h.ptr_range
  have hB : B.incrementWritePtrWithWrap data.length =
      { B with writePtr := B.writePtr + data.length } :=
    if_neg (not_le.mpr hlt)
  rw [hB]
  have hptr : ((log ++ data).length : ℤ) % B.size = B.writePtr + data.length := by
    rw [List.length_append]
    push_cast
    rw [emod_add_eq 0 (by rw [← h.write_eq]; omega) (by rw [← h.write_eq]; omega), ← h.write_eq]
    ring
  refine ⟨⟨⟨h.sized.pow, h.sized.mask⟩, hptr.symm, h.read_eq, ?_, ?_, ?_⟩, ?_⟩
  · rw [List.length_append]
    omega
  · change ((log ++ data).length : ℤ) < R + B.size
    rw [List.length_append]
    push_cast
    omega
  · refine h.shows_log.extend ?_ (by rw [← h.write_eq]; exact hlt.le) hsize
    rw [← h.write_eq]
    exact hstored
  · intro hr i hi hiw hiwrap
    have hr : B.writePtr + data.length < B.readPtr := hr
    have hr' : B.writePtr < B.readPtr := by omega
    exact hmirrored hr' i hi (hiwrap.trans_le (hsafe hr')) hiwrap

/-- What was stored over the end of the array is copied to the beginning. -/
theorem Holds.increment_of_ge (h : B.Holds log R) (hwrapFits : B.WrapFits)
    (hstored : B.Stored data) (hfits : B.Fits data.length)
    (hge : B.size ≤ B.writePtr + data.length) :
    (B.incrementWritePtrWithWrap data.length).Holds (log ++ data) R ∧
      (B.incrementWritePtrWithWrap data.length).Mirrored := by
  obtain ⟨hspace, hend⟩ := hfits
  rw [h.readSpace_eq] at hspace
  obtain ⟨hwrap₀, hwrap⟩ := hwrapFits
  have hle := h.le
  have hsize := h.sized.size_pos
  obtain ⟨⟨hr₀, hr⟩, hw₀, hw⟩ := h.ptr_range
  -- the data before and after the end
  obtain ⟨n₁, hn₁⟩ := Int.eq_ofNat_of_zero_le (show 0 ≤ B.size - B.writePtr by omega)
  obtain ⟨n₂, hn₂⟩ := Int.eq_ofNat_of_zero_le
    (show 0 ≤ B.writePtr + data.length - B.size by omega)
  have hlen : data.length = n₁ + n₂ := by omega
  have hrest : (data.drop n₁).length = n₂ := by
    rw [List.length_drop]
    omega
  have hslice : slice B.buf B.size n₂ = data.drop n₁ := by
    have hslice : slice B.buf B.size n₂ = (data.drop n₁).take n₂ := by
      refine slice_eq fun t ht => ?_
      rw [← hstored (n₁ + t) (by omega)]
      congr 2
      push_cast
      omega
    rw [hslice, ← hrest, List.take_length]
  have hB : B.incrementWritePtrWithWrap data.length =
      { B with buf := overwrite B.buf 0 (data.drop n₁), writePtr := n₂ } := by
    have hcopy : B.copyOut B.size n₂ = data.drop n₁ := by rw [copyOut, Int.toNat_natCast, hslice]
    rw [incrementWritePtrWithWrap]
    simp only [ge_iff_le, if_pos hge, hn₂, hcopy, copyIn, Int.toNat_natCast]
    rw [← hrest, List.take_length]
  rw [hB]
  have hptr : ((log ++ data).length : ℤ) % B.size = n₂ := by
    rw [List.length_append]
    push_cast
    rw [emod_add_eq 1 (by rw [← h.write_eq]; omega) (by rw [← h.write_eq]; omega), ← h.write_eq]
    omega
  have hshows : Shows (overwrite B.buf 0 (data.drop n₁)) B.size (log ++ data) R := by
    have hfirst : Shows B.buf B.size (log ++ data.take n₁) R := by
      refine h.shows_log.extend ?_ ?_ hsize
      · intro t ht
        rw [List.length_take] at ht
        rw [← h.write_eq, hstored t (by omega), List.getElem?_take_of_lt (by omega)]
      · rw [← h.write_eq, List.length_take]
        omega
    have hzero : ((log ++ data.take n₁).length : ℤ) % B.size = 0 := by
      rw [List.length_append, List.length_take]
      push_cast
      rw [emod_add_eq 1 (by rw [← h.write_eq]; omega) (by rw [← h.write_eq]; omega), ← h.write_eq]
      omega
    have hboth := hfirst.overwrite (data.drop n₁)
      (by rw [List.length_append, List.length_take, hrest]; omega) (by rw [hzero, hrest]; omega)
      hsize
    rwa [hzero, List.append_assoc, List.take_append_drop] at hboth
  refine ⟨⟨⟨h.sized.pow, h.sized.mask⟩, hptr.symm, h.read_eq, ?_, ?_, hshows⟩, ?_⟩
  · rw [List.length_append]
    omega
  · change ((log ++ data).length : ℤ) < R + B.size
    rw [List.length_append]
    push_cast
    omega
  · intro _ i hi hiw _
    change overwrite B.buf 0 (data.drop n₁) (B.size + i) = overwrite B.buf 0 (data.drop n₁) i
    have hiw : i < n₂ := hiw
    obtain ⟨t, rfl⟩ := Int.eq_ofNat_of_zero_le hi
    have ht : t < n₂ := by omega
    have hcopied : some (overwrite B.buf 0 (data.drop n₁) t) = (data.drop n₁)[t]? := by
      rw [← overwrite_add (by omega), zero_add]
    have hwritten : (data.drop n₁)[t]? = some (B.buf (B.size + t)) := by
      rw [← hslice]
      simp [slice, ht]
    rw [overwrite_of_le (by rw [hrest]; omega)]
    exact (Option.some.inj (hcopied.trans hwritten)).symm

theorem incrementWritePtrWithWrap_writePtr (k : ℤ) :
    (B.incrementWritePtrWithWrap k).writePtr =
      if B.writePtr + k ≥ B.size then B.writePtr + k - B.size else B.writePtr + k := by
  simp only [incrementWritePtrWithWrap]
  split_ifs <;> rfl

theorem incrementWritePtrWithWrap_frame (k : ℤ) :
    (B.incrementWritePtrWithWrap k).readPtr = B.readPtr ∧
      (B.incrementWritePtrWithWrap k).size = B.size ∧
      (B.incrementWritePtrWithWrap k).wrapElements = B.wrapElements := by
  simp only [incrementWritePtrWithWrap]
  split_ifs <;> exact ⟨rfl, rfl, rfl⟩

/-- The stored data is added: before the end of the array where the wrap area
need not mirror it, or over the end. -/
theorem Holds.increment (h : B.Holds log R) (hwrapFits : B.WrapFits) (hmirrored : B.Mirrored)
    (hstored : B.Stored data) (hfits : B.Fits data.length)
    (hsafe : B.writePtr < B.readPtr → B.wrapElements ≤ B.writePtr) :
    (B.incrementWritePtrWithWrap data.length).Holds (log ++ data) R ∧
      (B.incrementWritePtrWithWrap data.length).Mirrored := by
  rcases lt_or_ge (B.writePtr + data.length) B.size with hlt | hge
  · exact h.increment_of_lt hmirrored hstored hfits hsafe hlt
  · exact h.increment_of_ge hwrapFits hstored hfits hge

/-- The first `m` elements are read. -/
theorem Holds.incrementReadPtr (h : B.Holds log R) (hmirrored : B.Mirrored) {m : ℕ}
    (hm : m ≤ B.readSpace) :
    (B.incrementReadPtr m).Holds log (R + m) ∧ (B.incrementReadPtr m).Mirrored ∧
      ((B.incrementReadPtr m).writePtr < (B.incrementReadPtr m).readPtr →
        B.writePtr < B.readPtr) := by
  rw [h.readSpace_eq] at hm
  have hB : B.incrementReadPtr m = { B with readPtr := ((R + m : ℕ) : ℤ) % B.size } := by
    rw [RingBuffer.incrementReadPtr, h.sized.masked_eq, h.read_eq, Int.emod_add_emod]
    push_cast
    rfl
  have h' : (B.incrementReadPtr m).Holds log (R + m) := by
    rw [hB]
    exact h.advance (Nat.le_add_right _ _) (by omega)
  obtain ⟨⟨hr₀, hr⟩, hw₀, hw⟩ := h.ptr_range
  have hover : (B.incrementReadPtr m).writePtr < (B.incrementReadPtr m).readPtr →
      B.writePtr < B.readPtr := by
    have hptr := h.ptr_cases
    have hptr' := h'.ptr_cases
    have hr' := h'.ptr_range.1.2
    rw [hB] at hptr' hr' ⊢
    dsimp only at hptr' hr' ⊢
    omega
  refine ⟨h', fun hlt => ?_, hover⟩
  exact hmirrored (hover hlt)

/-- What `write_space_to_end_with_wrap()` returns, cut to at most `n`: there is
space for it, and it ends before the array does or fills the wrap area. -/
theorem Holds.askRefill (h : B.Holds log R) (hwrapFits : B.WrapFits) (hn : 0 ≤ n) :
    let writespace := B.writeSpaceToEndWithWrap
    let k := B.adjustWriteSpaceToAvoidBoundary writespace (if writespace > n then n else writespace)
    0 ≤ k ∧ B.Fits k ∧ (B.writePtr + k < B.size ∨ B.writePtr + k = B.size + B.wrapElements) := by
  obtain ⟨hwrap₀, hwrap⟩ := hwrapFits
  obtain ⟨⟨hr₀, hr⟩, hw₀, hw⟩ := h.ptr_range
  have hspace := h.readSpace_eq
  have hptr := h.ptr_cases
  simp only [Fits, adjustWriteSpaceToAvoidBoundary, writeSpaceToEndWithWrap]
  split_ifs <;> omega

end RingBuffer

namespace DiskStream

variable {α : Type*} {S S' : DiskStream α} {maxRefillSize : ℕ} {silence : α} {action : Action α}
  {actions : List (Action α)}

/-! ## The invariant -/

/-- What the disk thread is about to do. -/
def Pending (S : DiskStream α) : Prop :=
  match S.refill with
  | .idle => True
  | .asked readAmount => S.state = .active ∧ 0 ≤ readAmount ∧ S.ringBuffer.Fits readAmount ∧
      (S.ringBuffer.writePtr + readAmount < S.ringBuffer.size ∨
        S.ringBuffer.writePtr + readAmount = S.ringBuffer.size + S.ringBuffer.wrapElements)
  | .stored data endOfSampleReached => S.state = .active ∧ S.ringBuffer.Stored data ∧
      S.ringBuffer.Fits data.length ∧
      (S.ringBuffer.writePtr + data.length < S.ringBuffer.size ∨
        S.ringBuffer.writePtr + data.length = S.ringBuffer.size + S.ringBuffer.wrapElements ∨
        endOfSampleReached = true)

/-- Nothing can be written that the wrap area would have to mirror. -/
def Safe (B : RingBuffer α) : Prop := B.writePtr < B.readPtr → B.wrapElements ≤ B.writePtr

structure Inv (S : DiskStream α) : Prop where
  holds : S.ringBuffer.Holds S.produced S.consumed
  wrapFits : S.ringBuffer.WrapFits
  mirrored : S.ringBuffer.Mirrored
  safe : S.state = .active → Safe S.ringBuffer
  empty : S.state = .unused → S.ringBuffer.writePtr = S.ringBuffer.readPtr
  pending : S.Pending

/-- Silence is not written to the beginning of the buffer, which the wrap area
has to mirror, while the data goes over the end of the buffer. -/
def MirrorsSilence (S : DiskStream α) : Action α → Prop
  | .writeSilence maxSampleWordsPerCycle => S.ringBuffer.readSpace < maxSampleWordsPerCycle →
      ¬(S.ringBuffer.writePtr < S.ringBuffer.readPtr ∧
        S.ringBuffer.writePtr < S.ringBuffer.wrapElements)
  | _ => True

theorem create_inv {bufferSize bufferWrapElements : ℤ} (buf : ℤ → α) (hsize : 0 < bufferSize)
    (hwrap : 0 ≤ bufferWrapElements) : (create bufferSize bufferWrapElements buf).Inv := by
  have hsized := RingBuffer.create_sized bufferSize bufferWrapElements buf
  have hle := RingBuffer.le_create_size bufferSize bufferWrapElements buf
  have hpos := hsized.size_pos
  refine ⟨⟨hsized, rfl, rfl, le_rfl, ?_, nofun⟩, ⟨hwrap, ?_⟩, ?_, nofun, fun _ => rfl, trivial⟩
  · simpa [create] using hpos
  · have hwrap_eq : (create bufferSize bufferWrapElements buf).ringBuffer.wrapElements =
        bufferWrapElements := rfl
    have hsize_eq : (create bufferSize bufferWrapElements buf).ringBuffer.size =
        (RingBuffer.create bufferSize bufferWrapElements buf).size := rfl
    omega
  · intro h
    exact absurd h (lt_irrefl _)

theorem Inv.refill_idle (hS : S.Inv) (h : S.state ≠ .active) : S.refill = .idle := by
  have hpending := hS.pending
  unfold Pending at hpending
  cases hrefill : S.refill with
  | idle => rfl
  | asked n =>
      rw [hrefill] at hpending
      exact absurd hpending.1 h
  | stored data endOfSampleReached =>
      rw [hrefill] at hpending
      exact absurd hpending.1 h

theorem askRefill_inv (hS : S.Inv) (hactive : S.state = .active) :
    (S.askRefill maxRefillSize).Inv := by
  unfold askRefill
  by_cases hzero : S.ringBuffer.writeSpaceToEndWithWrap = 0
  · simp only [if_pos hzero]
    exact hS
  · simp only [if_neg hzero]
    obtain ⟨hk, hfits, hend⟩ := hS.holds.askRefill hS.wrapFits (Int.natCast_nonneg maxRefillSize)
    exact ⟨hS.holds, hS.wrapFits, hS.mirrored, hS.safe, hS.empty, hactive, hk, hfits, hend⟩

theorem readAhead_inv {n : ℤ} {data : List α} {endOfSampleReached : Bool} (hS : S.Inv)
    (hasked : S.refill = .asked n) (h : S.readAhead n data endOfSampleReached = some S') :
    S'.Inv := by
  have hpending := hS.pending
  unfold Pending at hpending
  rw [hasked] at hpending
  obtain ⟨hactive, hn, ⟨hspace, hend⟩, hboundary⟩ := hpending
  unfold readAhead at h
  split_ifs at h with hnone hdata
  · cases h
    exact ⟨hS.holds, hS.wrapFits, hS.mirrored, hS.safe, hS.empty, trivial⟩
  · cases h
    have hfits : S.ringBuffer.Fits data.length := by
      have hle : (data.length : ℤ) ≤ n := by
        rcases hdata with heq | ⟨hlt, -⟩
        · exact heq.le
        · exact hlt.le
      exact ⟨by omega, by omega⟩
    obtain ⟨hholds, hmirrored, hstored⟩ := hS.holds.store hS.mirrored hfits
    refine ⟨hholds, hS.wrapFits, hmirrored, hS.safe, hS.empty, hactive, hstored, hfits, ?_⟩
    change S.ringBuffer.writePtr + data.length < S.ringBuffer.size ∨
      S.ringBuffer.writePtr + data.length = S.ringBuffer.size + S.ringBuffer.wrapElements ∨ _
    rcases hdata with heq | ⟨-, hended⟩
    · rw [heq, ← or_assoc]
      exact .inl hboundary
    · exact .inr (.inr hended)

theorem incrementWritePtr_inv {data : List α} {endOfSampleReached : Bool} (hS : S.Inv)
    (hstored : S.refill = .stored data endOfSampleReached) :
    (S.incrementWritePtr data endOfSampleReached).Inv := by
  have hpending := hS.pending
  unfold Pending at hpending
  rw [hstored] at hpending
  obtain ⟨hactive, hstored, hfits, hboundary⟩ := hpending
  have hsafe := hS.safe hactive
  obtain ⟨hholds, hmirrored⟩ :=
    hS.holds.increment hS.wrapFits hS.mirrored hstored hfits hsafe
  obtain ⟨hread, hsize, hwrap⟩ :=
    S.ringBuffer.incrementWritePtrWithWrap_frame (data.length : ℤ)
  obtain ⟨hwrap₀, hwrapFits⟩ := hS.wrapFits
  refine ⟨hholds, ?_, hmirrored, ?_, ?_, trivial⟩
  · exact ⟨by rw [incrementWritePtr, hwrap]; exact hwrap₀,
      by rw [incrementWritePtr, hwrap, hsize]; exact hwrapFits⟩
  · -- not the end of the sample: the wrap area is full, or not reached
    intro hstate
    cases endOfSampleReached with
    | true => nomatch hstate
    | false =>
        simp only [Safe, incrementWritePtr, RingBuffer.incrementWritePtrWithWrap_writePtr, hread,
          hwrap]
        unfold Safe at hsafe
        simp only [or_false, Bool.false_eq_true] at hboundary
        split_ifs <;> omega
  · intro hstate
    cases endOfSampleReached <;> nomatch hstate

theorem addSilence_inv {maxSampleWordsPerCycle : ℤ} (hS : S.Inv) (hended : S.state = .ended)
    (hmax : maxSampleWordsPerCycle ≤ S.ringBuffer.wrapElements)
    (hmirrors : S.MirrorsSilence (.writeSilence maxSampleWordsPerCycle)) :
    (S.addSilence silence maxSampleWordsPerCycle).Inv := by
  unfold addSilence
  by_cases hleft : S.ringBuffer.readSpace < maxSampleWordsPerCycle
  · simp only [if_pos hleft]
    have hidle : S.refill = .idle := hS.refill_idle (by simp [hended])
    obtain ⟨hwrap₀, hwrap⟩ := hS.wrapFits
    have hspace := hS.holds.readSpace_eq
    have hle := hS.holds.le
    have hw := hS.holds.ptr_range.2.2
    obtain ⟨k, hk⟩ := Int.eq_ofNat_of_zero_le
      (show 0 ≤ maxSampleWordsPerCycle - S.ringBuffer.readSpace by omega)
    have hlen : (List.replicate k silence).length = k := List.length_replicate
    have hfits : S.ringBuffer.Fits (List.replicate k silence).length := by
      rw [hlen]
      exact ⟨by omega, by omega⟩
    have hsafe : Safe S.ringBuffer := fun hlt => not_lt.mp fun hw => hmirrors hleft ⟨hlt, hw⟩
    obtain ⟨hholds, hmirrored, hstored⟩ := hS.holds.store hS.mirrored hfits
    obtain ⟨hholds, hmirrored⟩ :=
      hholds.increment hS.wrapFits hmirrored hstored hfits hsafe
    rw [writeSilence, hk, Int.toNat_natCast, ← hlen, hlen]
    rw [hlen] at hholds hmirrored
    obtain ⟨-, hsize, hwrap_eq⟩ := (S.ringBuffer.copyIn S.ringBuffer.writePtr
      (List.replicate k silence) k).incrementWritePtrWithWrap_frame (k : ℤ)
    refine ⟨hholds, ⟨?_, ?_⟩, hmirrored, ?_, ?_, ?_⟩
    · exact hwrap₀.trans_eq hwrap_eq.symm
    · exact (hwrap_eq.trans_lt hwrap).trans_eq hsize.symm
    · intro hactive
      nomatch hended.symm.trans hactive
    · intro hunused
      nomatch hended.symm.trans hunused
    · unfold Pending
      rw [show S.refill = .idle from hidle]
      trivial
  · simp only [if_neg hleft]
    exact hS

theorem reset_inv (hS : S.Inv) (hidle : S.refill = .idle) : S.reset.Inv := by
  obtain ⟨hwrap₀, hwrap⟩ := hS.wrapFits
  have hsized := hS.holds.sized
  have hpos := hsized.size_pos
  refine ⟨⟨⟨hsized.pow, hsized.mask⟩, rfl, rfl, le_rfl, ?_, nofun⟩, ⟨hwrap₀, hwrap⟩, ?_, nofun,
    fun _ => rfl, ?_⟩
  · simpa [reset, RingBuffer.init] using hpos
  · intro h
    exact absurd h (lt_irrefl _)
  · unfold Pending
    rw [show S.reset.refill = .idle from hidle]
    trivial

theorem incrementReadPos_inv {count : ℕ} (hS : S.Inv) : (S.incrementReadPos count).Inv := by
  have hspace := hS.holds.readSpace_eq
  have hle := hS.holds.le
  obtain ⟨m, hm⟩ : ∃ m, m = min count S.ringBuffer.readSpace.toNat := ⟨_, rfl⟩
  have hm_le : (m : ℤ) ≤ S.ringBuffer.readSpace := by omega
  obtain ⟨hholds, hmirrored, hover⟩ := hS.holds.incrementReadPtr hS.mirrored hm_le
  have hspace' := hholds.readSpace_eq
  have hinv : Inv { S with
      ringBuffer := S.ringBuffer.incrementReadPtr m
      consumed := S.consumed + m } := by
    refine ⟨hholds, hS.wrapFits, hmirrored, fun hactive hlt => hS.safe hactive (hover hlt), ?_, ?_⟩
    · -- nothing is left to read
      intro hunused
      have hempty := hS.empty hunused
      have hcap := hS.holds.capacity
      have hptr := hS.holds.ptr_cases
      have hzero : m = 0 := by omega
      have hread : S.ringBuffer.readPtr = S.consumed % S.ringBuffer.size := hS.holds.read_eq
      change S.ringBuffer.writePtr = S.ringBuffer.masked (S.ringBuffer.readPtr + m)
      rw [hS.holds.sized.masked_eq, hzero, Nat.cast_zero, add_zero, hempty, hread, Int.emod_emod]
    · have hpending := hS.pending
      unfold Pending at hpending ⊢
      cases hrefill : S.refill with
      | idle => trivial
      | asked n =>
          rw [hrefill] at hpending
          obtain ⟨hactive, hn, ⟨hspace₀, hend⟩, hboundary⟩ := hpending
          refine ⟨hactive, hn, ⟨?_, hend⟩, hboundary⟩
          change (S.ringBuffer.incrementReadPtr m).readSpace + n < S.ringBuffer.size
          omega
      | stored data endOfSampleReached =>
          rw [hrefill] at hpending
          obtain ⟨hactive, hstored, ⟨hspace₀, hend⟩, hboundary⟩ := hpending
          refine ⟨hactive, hstored, ⟨?_, hend⟩, hboundary⟩
          change (S.ringBuffer.incrementReadPtr m).readSpace + data.length < S.ringBuffer.size
          omega
  unfold incrementReadPos
  simp only [← hm]
  split_ifs with hreset
  · refine reset_inv hinv (hS.refill_idle ?_)
    simp [hreset.1]
  · exact hinv

/-! ## Runs -/

theorem step_inv (hS : S.Inv) (hmirrors : S.MirrorsSilence action)
    (h : S.step maxRefillSize silence action = some S') : S'.Inv := by
  cases action with
  | launch =>
      obtain ⟨hunused, rfl⟩ := Option.ite_some_none_eq_some.mp h
      have hidle : S.refill = .idle := hS.refill_idle (by simp [hunused])
      have hempty := hS.empty hunused
      refine ⟨hS.holds, hS.wrapFits, hS.mirrored, fun _ hlt => ?_, nofun, ?_⟩
      · exact absurd hlt hempty.not_lt
      · unfold Pending
        simp only [hidle]
  | refill =>
      simp only [step] at h
      split at h
      · obtain ⟨hactive, rfl⟩ := Option.ite_some_none_eq_some.mp h
        exact askRefill_inv hS hactive
      · nomatch h
  | read data endOfSampleReached =>
      simp only [step] at h
      split at h
      · rename_i n hasked
        exact readAhead_inv hS hasked h
      · nomatch h
  | increment =>
      simp only [step] at h
      split at h
      · rename_i data endOfSampleReached hstored
        cases h
        exact incrementWritePtr_inv hS hstored
      · nomatch h
  | writeSilence maxSampleWordsPerCycle =>
      obtain ⟨⟨hended, hmax⟩, rfl⟩ := Option.ite_some_none_eq_some.mp h
      exact addSilence_inv hS hended hmax hmirrors
  | incrementReadPos count =>
      cases h
      exact incrementReadPos_inv hS

/-- Each step of the run mirrors its silence. -/
def RunMirrorsSilence (maxRefillSize : ℕ) (silence : α) : DiskStream α → List (Action α) → Prop
  | _, [] => True
  | S, action :: actions => S.MirrorsSilence action ∧
      ∀ S', S.step maxRefillSize silence action = some S' →
        RunMirrorsSilence maxRefillSize silence S' actions

theorem run_inv (hS : S.Inv) (hmirrors : RunMirrorsSilence maxRefillSize silence S actions)
    (h : S.run maxRefillSize silence actions = some S') : S'.Inv := by
  induction actions generalizing S with
  | nil =>
      cases h
      exact hS
  | cons action actions ih =>
      obtain ⟨S₁, hstep, hrun⟩ := Option.bind_eq_some_iff.mp h
      exact ih (step_inv hS hmirrors.1 hstep) (hmirrors.2 S₁ hstep) hrun

/-- How many elements an action stores from the write position on. -/
def storedBy (S : DiskStream α) : Action α → ℤ
  | .read data _ =>
      match S.refill with
      | .asked readAmount =>
          if readAmount = 0 ∨ S.ringBuffer.writeSpace = 0 then 0 else data.length
      | _ => 0
  | .writeSilence maxSampleWordsPerCycle =>
      max 0 (maxSampleWordsPerCycle - S.ringBuffer.readSpace)
  | _ => 0

theorem Inv.storedBy_fits (hS : S.Inv) (h : S.step maxRefillSize silence action = some S') :
    S.ringBuffer.Fits (S.storedBy action) := by
  have hspace := hS.holds.readSpace_eq
  have hcap := hS.holds.capacity
  have hle := hS.holds.le
  have hw := hS.holds.ptr_range.2
  obtain ⟨hwrap₀, hwrap⟩ := hS.wrapFits
  have hzero : S.ringBuffer.Fits 0 := ⟨by omega, by omega⟩
  cases action with
  | launch => exact hzero
  | refill => exact hzero
  | increment => exact hzero
  | incrementReadPos => exact hzero
  | writeSilence maxSampleWordsPerCycle =>
      obtain ⟨⟨-, hmax⟩, -⟩ := Option.ite_some_none_eq_some.mp h
      simp only [storedBy]
      exact ⟨by omega, by omega⟩
  | read data endOfSampleReached =>
      cases hasked : S.refill with
      | idle => simp only [step, hasked, reduceCtorEq] at h
      | stored data endOfSampleReached => simp only [step, hasked, reduceCtorEq] at h
      | asked n =>
          simp only [step, hasked] at h
          simp only [storedBy, hasked]
          have hpending := hS.pending
          unfold Pending at hpending
          rw [hasked] at hpending
          obtain ⟨-, hn, ⟨hfit, hend⟩, -⟩ := hpending
          unfold readAhead at h
          split_ifs at h ⊢ with hnone hdata
          · exact hzero
          · exact ⟨by omega, by omega⟩

/-- In a run that mirrors its silence the voice finds the produced sequence,
in one piece, from where it has read it so far; the wrap area that it reads
is a copy of the beginning of the buffer; and no step stores more than there
is space for, or beyond the wrap area. -/
theorem run_reads_in_order (maxRefillSize : ℕ) (silence : α) (bufferSize bufferWrapElements : ℤ)
    (buf : ℤ → α) (hsize : 0 < bufferSize) (hwrap : 0 ≤ bufferWrapElements)
    (actions : List (Action α))
    (hmirrors : RunMirrorsSilence maxRefillSize silence
      (create bufferSize bufferWrapElements buf) actions)
    (h : (create bufferSize bufferWrapElements buf).run maxRefillSize silence actions = some S) :
    S.consumed + S.ringBuffer.readSpace = S.produced.length ∧
    (∀ n : ℕ, n ≤ S.ringBuffer.readSpace → n ≤ S.ringBuffer.wrapElements →
      S.ringBuffer.copyOut S.ringBuffer.readPtr n = (S.produced.drop S.consumed).take n) ∧
    S.ringBuffer.Mirrored ∧
    ∀ action S', S.step maxRefillSize silence action = some S' →
      S.ringBuffer.Fits (S.storedBy action) := by
  have hS : S.Inv := run_inv (create_inv buf hsize hwrap) hmirrors h
  refine ⟨?_, fun n hn hwrap => hS.holds.copyOut_eq hS.mirrored hn hwrap, hS.mirrored, ?_⟩
  · rw [hS.holds.readSpace_eq]
    ring
  · exact fun action S' hstep => hS.storedBy_fits hstep

theorem create_eight (buf : ℤ → ℕ) : create 5 2 buf =
    ⟨⟨buf, 0, 0, 8, 2, 7⟩, .unused, .idle, [], 0⟩ := by
  simp [create, RingBuffer.create, RingBuffer.powerOfTwo]

/-- The second of two elements is left to read, and silence after it. -/
theorem run_reads_in_order_silence :
    ∃ S : DiskStream ℕ, (create 5 2 fun _ => 9).run 100 0
        [.launch, .refill, .read [1, 2] true, .increment, .incrementReadPos 1, .writeSilence 2] =
          some S ∧
      S.ringBuffer.copyOut S.ringBuffer.readPtr 2 = [2, 0] := by
  have hmirrors : RunMirrorsSilence 100 0 (create 5 2 fun _ => 9)
      [.launch, .refill, .read [1, 2] true, .increment, .incrementReadPos 1, .writeSilence 2] := by
    rw [create_eight]
    refine ⟨trivial, fun S₁ h₁ => ?_⟩
    cases h₁
    refine ⟨trivial, fun S₂ h₂ => ?_⟩
    cases h₂
    refine ⟨trivial, fun S₃ h₃ => ?_⟩
    cases h₃
    refine ⟨trivial, fun S₄ h₄ => ?_⟩
    cases h₄
    refine ⟨trivial, fun S₅ h₅ => ?_⟩
    cases h₅
    exact ⟨fun _ => by decide, fun _ _ => trivial⟩
  obtain ⟨S, hS⟩ : ∃ S, (create 5 2 fun _ => 9).run 100 0
      [.launch, .refill, .read [1, 2] true, .increment, .incrementReadPos 1, .writeSilence 2] =
        some S := by
    rw [create_eight]
    exact ⟨_, rfl⟩
  have hread := (run_reads_in_order 100 0 5 2 (fun _ => 9) (by decide) (by decide) _ hmirrors hS).2.1
    2
  rw [create_eight] at hS
  cases hS
  exact ⟨_, by rw [create_eight]; rfl, hread (by decide) (by decide)⟩

/-- The sample ends at the end of the array: the silence after it is missing
in the wrap area. -/
theorem silence_not_mirrored :
    ∃ S : DiskStream ℕ, (create 5 2 fun _ => 9).run 100 0
        [.launch, .refill, .read [1, 2, 3, 4, 5, 6, 7] false, .increment, .incrementReadPos 5,
          .refill, .read [8] true, .increment, .incrementReadPos 2, .writeSilence 2] = some S ∧
      S.ringBuffer.readSpace = 2 ∧ S.ringBuffer.wrapElements = 2 ∧
      (S.produced.drop S.consumed).take 2 = [8, 0] ∧
      S.ringBuffer.copyOut S.ringBuffer.readPtr 2 = [8, 9] := by
  rw [create_eight]
  exact ⟨_, rfl, rfl, rfl, rfl, rfl⟩

end DiskStream

end LinuxSampler
