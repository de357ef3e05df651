import LinuxSampler.Fifo
import LinuxSampler.RingBuffer

/-!
# A RingBuffer is a bounded queue

The positions of the buffer are those of the queue modulo the size, and
the array has the elements that were not taken out yet. One element less
than the size is stored at most: this tells a full buffer from an empty
one.
-/

namespace LinuxSampler

open CircularArray

namespace RingBuffer

variable {α ρ : Type*} {B : RingBuffer α} {log : List α} {R a : ℕ}

/-- The buffer has the elements of the sequence from position `R` on. -/
structure Holds (B : RingBuffer α) (log : List α) (R : ℕ) : Prop where
  sized : B.Sized
  write_eq : B.writePtr = log.length % B.size
  read_eq : B.readPtr = R % B.size
  le : R ≤ log.length
  capacity : log.length < R + B.size
  shows_log : Shows B.buf B.size log R

/-- How much of `src` there is space for. -/
def fitting (B : RingBuffer α) (log : List α) (R : ℕ) (src : List α) : List α :=
  src.take (B.size.toNat - 1 - (log.length - R))

namespace Holds

theorem readSpaceFrom_eq (h : B.Holds log R) (hR : R ≤ a) (ha : a ≤ log.length) :
    B.readSpaceFrom (a % B.size) = log.length - a := by
  have hsize := h.sized.size_pos
  have hcap := h.capacity
  have hnn := Int.emod_nonneg (a : ℤ) hsize.ne'
  have hlt := Int.emod_lt_of_pos (a : ℤ) hsize
  have hW : (log.length : ℤ) = a + ((log.length : ℤ) - a) := by ring
  rw [readSpaceFrom, h.write_eq]
  by_cases hwrap : (a : ℤ) % B.size + ((log.length : ℤ) - a) < B.size
  · have hw : (log.length : ℤ) % B.size = a % B.size + ((log.length : ℤ) - a) := by
      conv_lhs => rw [hW]
      rw [emod_add_eq 0 (by omega) (by omega)]
      ring
    rw [hw, if_pos (by omega)]
    ring
  · have hw : (log.length : ℤ) % B.size = a % B.size + ((log.length : ℤ) - a) - B.size := by
      conv_lhs => rw [hW]
      rw [emod_add_eq 1 (by omega) (by omega)]
      ring
    rw [hw, if_neg (by omega), h.sized.masked_eq]
    have hback : (a : ℤ) % B.size + ((log.length : ℤ) - a) - B.size - a % B.size + B.size =
        log.length - a := by ring
    rw [hback]
    exact Int.emod_eq_of_lt (by omega) (by omega)

theorem readSpace_eq (h : B.Holds log R) : B.readSpace = log.length - R := by
  rw [readSpace, h.read_eq]
  exact h.readSpaceFrom_eq le_rfl h.le

theorem writeSpace_eq (h : B.Holds log R) : B.writeSpace = B.size - 1 - (log.length - R) := by
  have hsize := h.sized.size_pos
  have hcap := h.capacity
  have hle := h.le
  have hnn := Int.emod_nonneg (R : ℤ) hsize.ne'
  have hlt := Int.emod_lt_of_pos (R : ℤ) hsize
  have hW : (log.length : ℤ) = R + ((log.length : ℤ) - R) := by ring
  rw [writeSpace, h.write_eq, h.read_eq]
  by_cases hwrap : (R : ℤ) % B.size + ((log.length : ℤ) - R) < B.size
  · have hw : (log.length : ℤ) % B.size = R % B.size + ((log.length : ℤ) - R) := by
      conv_lhs => rw [hW]
      rw [emod_add_eq 0 (by omega) (by omega)]
      ring
    rw [hw]
    by_cases hempty : log.length = R
    · rw [hempty, if_neg (by omega), if_neg (by omega)]
      ring
    · rw [if_pos (by omega), h.sized.masked_eq, Int.emod_eq_of_lt (by omega) (by omega)]
      ring
  · have hw : (log.length : ℤ) % B.size = R % B.size + ((log.length : ℤ) - R) - B.size := by
      conv_lhs => rw [hW]
      rw [emod_add_eq 1 (by omega) (by omega)]
      ring
    rw [hw, if_neg (by omega), if_pos (by omega)]
    ring

/-- One element less than the size is stored at most. -/
theorem space_add (h : B.Holds log R) : B.readSpace + B.writeSpace = B.size - 1 := by
  rw [h.readSpace_eq, h.writeSpace_eq]
  ring

theorem ptr_range (h : B.Holds log R) : (0 ≤ B.readPtr ∧ B.readPtr < B.size) ∧
    0 ≤ B.writePtr ∧ B.writePtr < B.size := by
  have hsize := h.sized.size_pos
  rw [h.read_eq, h.write_eq]
  exact ⟨⟨Int.emod_nonneg _ hsize.ne', Int.emod_lt_of_pos _ hsize⟩,
    Int.emod_nonneg _ hsize.ne', Int.emod_lt_of_pos _ hsize⟩

/-- `split` cuts a stretch that starts at index `r` at the end of the array. -/
theorem split_eq (h : B.Holds log R) {r : ℤ} {n : ℕ} (hr : 0 ≤ r ∧ r < B.size) (hn : n ≤ B.size) :
    (r + n ≤ B.size ∧ B.split r n = ((n : ℤ), (0 : ℤ))) ∨
      ∃ n₁ n₂ : ℕ, r + n₁ = B.size ∧ 0 < n₂ ∧ (n₂ : ℤ) < B.size ∧ n = n₁ + n₂ ∧
        B.split r n = ((n₁ : ℤ), (n₂ : ℤ)) := by
  by_cases hwrap : r + n > B.size
  · right
    have hrest : (r + n) % B.size = r + n - B.size := by
      have hr' : r = r % B.size := (Int.emod_eq_of_lt hr.1 hr.2).symm
      rw [emod_add_eq 1 (by omega) (by omega)]
      omega
    obtain ⟨n₁, hn₁⟩ := Int.eq_ofNat_of_zero_le (show 0 ≤ B.size - r by omega)
    obtain ⟨n₂, hn₂⟩ := Int.eq_ofNat_of_zero_le (show 0 ≤ r + n - B.size by omega)
    refine ⟨n₁, n₂, by omega, by omega, by omega, by omega, ?_⟩
    simp only [split]
    rw [if_pos hwrap, h.sized.masked_eq, hrest, hn₁, hn₂]
  · left
    refine ⟨not_lt.mp hwrap, ?_⟩
    simp only [split]
    rw [if_neg hwrap]

/-- A read from a position that was not taken out yet. -/
theorem readFrom_eq (h : B.Holds log R) (hR : R ≤ a) (ha : a ≤ log.length) (cnt : ℕ) :
    B.readFrom (a % B.size) cnt =
      (((a + ((log.drop a).take cnt).length : ℕ) : ℤ) % B.size, (log.drop a).take cnt,
        (((log.drop a).take cnt).length : ℤ)) := by
  have hsize := h.sized.size_pos
  have hcap := h.capacity
  have hr : 0 ≤ (a : ℤ) % B.size ∧ (a : ℤ) % B.size < B.size :=
    ⟨Int.emod_nonneg _ hsize.ne', Int.emod_lt_of_pos _ hsize⟩
  obtain ⟨n, hn⟩ : ∃ n, n = min cnt (log.length - a) := ⟨_, rfl⟩
  have hlen : ((log.drop a).take cnt).length = n := by simp [hn]
  have htake : (log.drop a).take cnt = (log.drop a).take n := by
    rw [List.take_eq_take_min, List.length_drop, hn]
  rw [hlen, htake, readFrom, h.readSpaceFrom_eq hR ha]
  by_cases hend : (log.length : ℤ) - a = 0
  · have hzero : n = 0 := by omega
    rw [if_pos hend, hzero]
    rfl
  · have hcnt : (if (cnt : ℤ) > log.length - a then (log.length - a : ℤ) else cnt) = n := by
      split <;> omega
    have hpos : ((a + n : ℕ) : ℤ) % B.size = (a % B.size + n) % B.size := by
      rw [Int.emod_add_emod]
      push_cast
      rfl
    rw [if_neg hend]
    simp only [hcnt]
    rcases h.split_eq hr (n := n) (by omega) with ⟨hfit, hsplit⟩ | ⟨n₁, n₂, h₁, h₂, h₃, rfl, hsplit⟩
    · have hslice := h.shows_log.slice hR (n := n) (by omega) hfit hsize
      simp only [hsplit, copyOut, Int.toNat_natCast, hslice, ne_eq, not_true, if_false,
        h.sized.masked_eq, hpos]
    · have hslice := h.shows_log.slice_wrap hR n₁ n₂ (by omega) h₁ hsize h₃.le
      have hne : (n₂ : ℤ) ≠ 0 := by omega
      have hptr : ((a : ℤ) % B.size + (n₁ + n₂ : ℕ)) % B.size = n₂ := by
        push_cast
        rw [← add_assoc, h₁, Int.add_emod_left]
        exact Int.emod_eq_of_lt (by omega) h₃
      simp only [hsplit, copyOut, Int.toNat_natCast, hslice, hne, ne_eq, not_false_eq_true,
        if_true, hpos, hptr]

/-- What there is space for enters the sequence. -/
theorem write_spec (h : B.Holds log R) (src : List α) :
    (B.write src).2 = (fitting B log R src).length ∧
      (B.write src).1.Holds (log ++ fitting B log R src) R ∧
      (B.write src).1.size = B.size ∧ (B.write src).1.wrapElements = B.wrapElements := by
  have hsize := h.sized.size_pos
  have hcap := h.capacity
  have hle := h.le
  have hw : 0 ≤ (log.length : ℤ) % B.size ∧ (log.length : ℤ) % B.size < B.size :=
    ⟨Int.emod_nonneg _ hsize.ne', Int.emod_lt_of_pos _ hsize⟩
  obtain ⟨n, hn⟩ : ∃ n, n = (fitting B log R src).length := ⟨_, rfl⟩
  have hmin : n = min (B.size.toNat - 1 - (log.length - R)) src.length := by
    simp [hn, fitting]
  have htake : src.take n = fitting B log R src := by
    rw [hmin, fitting]
    exact List.take_eq_take_min.symm
  rw [← hn, ← htake, write, h.writeSpace_eq]
  by_cases hfull : B.size - 1 - ((log.length : ℤ) - R) = 0
  · have hzero : n = 0 := by omega
    simp only [if_pos hfull, hzero, List.take_zero, List.append_nil, Nat.cast_zero]
    exact ⟨trivial, h, trivial, trivial⟩
  · have hcnt : (if (src.length : ℤ) > B.size - 1 - (log.length - R) then
        B.size - 1 - ((log.length : ℤ) - R) else src.length) = n := by
      split <;> omega
    have hlen : (src.take n).length = n := by
      rw [List.length_take]
      omega
    have hptr : ((log ++ src.take n).length : ℤ) % B.size = (log.length % B.size + n) % B.size := by
      rw [List.length_append, hlen, Int.emod_add_emod]
      push_cast
      rfl
    rw [if_neg hfull]
    simp only [hcnt]
    rw [← h.write_eq] at hw
    rcases h.split_eq hw (n := n) (by omega) with ⟨hfit, hsplit⟩ | ⟨n₁, n₂, h₁, h₂, h₃, rfl, hsplit⟩
    · rw [h.write_eq] at hfit
      have hshow := h.shows_log.overwrite (src.take n) (by omega) (by omega) hsize
      simp only [hsplit, ne_eq, not_true, if_false]
      refine ⟨trivial, ⟨⟨h.sized.pow, h.sized.mask⟩, ?_, h.read_eq, ?_, ?_, ?_⟩, rfl, rfl⟩
      · exact (h.sized.masked_eq _).trans (by rw [h.write_eq]; exact hptr.symm)
      · rw [List.length_append]
        omega
      · change ((log ++ src.take n).length : ℤ) < R + B.size
        rw [List.length_append]
        omega
      · change Shows (overwrite B.buf B.writePtr (src.take (n : ℤ).toNat)) B.size _ R
        rw [h.write_eq, Int.toNat_natCast]
        exact hshow
    · have hne : (n₂ : ℤ) ≠ 0 := by omega
      have hptr' : (n₂ : ℤ) = ((log ++ src.take (n₁ + n₂)).length : ℤ) % B.size := by
        rw [hptr, ← h.write_eq]
        push_cast
        rw [← add_assoc, h₁, Int.add_emod_left]
        exact (Int.emod_eq_of_lt (by omega) h₃).symm
      have hlen₁ : (src.take n₁).length = n₁ := by
        rw [List.length_take]
        omega
      have hlen₂ : ((src.drop n₁).take n₂).length = n₂ := by
        rw [List.length_take, List.length_drop]
        omega
      have hshow := h.shows_log.overwrite_wrap (src.take n₁) ((src.drop n₁).take n₂)
        (by omega) (by rw [hlen₁, ← h.write_eq]; exact h₁) hsize (by omega)
      simp only [hsplit, hne, ne_eq, not_false_eq_true, if_true]
      refine ⟨trivial, ⟨⟨h.sized.pow, h.sized.mask⟩, hptr', h.read_eq, ?_, ?_, ?_⟩, rfl, rfl⟩
      · rw [List.length_append]
        omega
      · change ((log ++ src.take (n₁ + n₂)).length : ℤ) < R + B.size
        rw [List.length_append]
        omega
      · change Shows (overwrite (overwrite B.buf B.writePtr (src.take (n₁ : ℤ).toNat)) 0
          ((src.drop (n₁ : ℤ).toNat).take (n₂ : ℤ).toNat)) B.size _ R
        rw [h.write_eq, Int.toNat_natCast, Int.toNat_natCast, List.take_add]
        exact hshow

/-- The elements up to position `R'` are given free. -/
theorem advance (h : B.Holds log R) {R' : ℕ} (hR : R ≤ R') (hR' : R' ≤ log.length) :
    Holds { B with readPtr := (R' : ℤ) % B.size } log R' :=
  ⟨⟨h.sized.pow, h.sized.mask⟩, h.write_eq, rfl, hR',
    h.capacity.trans_le (by simpa using hR), h.shows_log.mono hR⟩

/-- `T* pop()` of a reader that stands at an element. -/
theorem pop_of_lt (h : B.Holds log R) (hR : R ≤ a) {x : α} (hx : log[a]? = some x) :
    NonVolatileReader.pop B (a % B.size) = (((a + 1 : ℕ) : ℤ) % B.size, some x) := by
  have ha : a < log.length := (List.getElem?_eq_some_iff.mp hx).1
  have hspace := h.readSpaceFrom_eq hR ha.le
  have hshow := (h.shows_log a hR ha).trans hx
  rw [NonVolatileReader.pop, NonVolatileReader.readSpace, hspace, if_neg (by omega), hshow,
    h.sized.masked_eq, Int.emod_add_emod]
  rfl

theorem pop_end (h : B.Holds log R) (ha : log.length ≤ a) (hle : a ≤ log.length) :
    NonVolatileReader.pop B (a % B.size) = ((a : ℤ) % B.size, none) := by
  have hspace := h.readSpaceFrom_eq (h.le.trans ha) hle
  rw [NonVolatileReader.pop, NonVolatileReader.readSpace, hspace, if_pos (by omega)]

/-- `operator--` of a reader beyond the read position. -/
theorem dec_of_lt (h : B.Holds log R) (hR : R < a) (ha : a ≤ log.length) :
    NonVolatileReader.dec B (a % B.size) = ((a - 1 : ℕ) : ℤ) % B.size := by
  have hcap := h.capacity
  have hne := emod_ne B.size (Int.ofNat_lt.mpr hR) (by omega)
  rw [NonVolatileReader.dec, h.read_eq, if_neg hne.symm, h.sized.masked_eq, sub_eq_add_neg,
    Int.emod_add_emod]
  congr 1
  omega

/-- An element that was not taken out is overwritten in its place. -/
theorem set (h : B.Holds log R) (hR : R ≤ a) (ha : a < log.length) (x : α) :
    Holds { B with buf := Function.update B.buf (a % B.size) x } (log.set a x) R := by
  have hcap := h.capacity
  refine ⟨⟨h.sized.pow, h.sized.mask⟩, ?_, h.read_eq, ?_, ?_, fun j hj hlt => ?_⟩
  · rw [List.length_set]
    exact h.write_eq
  · rw [List.length_set]
    exact h.le
  · rw [List.length_set]
    exact h.capacity
  · rw [List.length_set] at hlt
    by_cases hja : j = a
    · subst hja
      rw [List.getElem?_set_self hlt]
      exact congrArg some (Function.update_self _ _ _)
    · have hne : (j : ℤ) % B.size ≠ a % B.size := by
        rcases Nat.lt_or_gt_of_ne hja with hlt' | hgt
        · exact emod_ne B.size (Int.ofNat_lt.mpr hlt') (by omega)
        · exact (emod_ne B.size (Int.ofNat_lt.mpr hgt) (by omega)).symm
      rw [List.getElem?_set_ne (Ne.symm hja), ← h.shows_log j hj hlt]
      exact congrArg some (Function.update_of_ne hne _ _)

theorem contents_eq (h : B.Holds log R) : B.contents = log.drop R := by
  obtain ⟨n, hn⟩ := Int.eq_ofNat_of_zero_le (show 0 ≤ (log.length : ℤ) - R by
    have := h.le
    omega)
  rw [contents, h.readSpace_eq, hn, h.read_eq, h.readFrom_eq le_rfl h.le]
  exact List.take_of_length_le (by rw [List.length_drop]; omega)

end Holds

/-! ## Runs -/

/-- A buffer and its readers. -/
structure System (α ρ : Type*) where
  buffer : RingBuffer α
  reader : ρ → ℤ

namespace System

variable [DecidableEq ρ] {S : System α ρ} {F : Fifo α ρ} {c : ℕ}

def moveReader (S : System α ρ) (reader : ρ) (read_ptr : ℤ) : System α ρ :=
  { S with reader := Function.update S.reader reader read_ptr }

def step (S : System α ρ) : Fifo.Op α ρ → System α ρ × Fifo.Out α
  | .write src =>
      let (B, cnt) := S.buffer.write src
      ({ S with buffer := B }, .written cnt)
  | .push src =>
      let (B, cnt) := S.buffer.push src
      ({ S with buffer := B }, .written cnt)
  | .read cnt =>
      let (B, dest, cnt) := S.buffer.read cnt
      ({ S with buffer := B }, .values dest cnt)
  | .pop =>
      let (B, dest, cnt) := S.buffer.pop
      ({ S with buffer := B }, .values dest cnt)
  | .getReader reader => (S.moveReader reader S.buffer.getNonVolatileReader, .unit)
  | .readerRead reader cnt =>
      let (read_ptr, dest, cnt) := NonVolatileReader.read S.buffer (S.reader reader) cnt
      (S.moveReader reader read_ptr, .values dest cnt)
  | .readerPop reader =>
      let (read_ptr, element) := NonVolatileReader.pop S.buffer (S.reader reader)
      (S.moveReader reader read_ptr, .element element)
  | .readerDec reader =>
      (S.moveReader reader (NonVolatileReader.dec S.buffer (S.reader reader)), .unit)
  | .readerAdd reader n =>
      (S.moveReader reader (NonVolatileReader.add S.buffer (S.reader reader) n), .unit)
  | .readerFree reader =>
      ({ S with buffer := NonVolatileReader.free S.buffer (S.reader reader) }, .unit)

def run : List (Fifo.Op α ρ) → System α ρ → System α ρ × List (Fifo.Out α)
  | [], S => (S, [])
  | op :: ops, S =>
      let (S, out) := S.step op
      let (S, outs) := run ops S
      (S, out :: outs)

/-- The system is in the state that the queue of capacity `c` describes. -/
structure Refines (c : ℕ) (S : System α ρ) (F : Fifo α ρ) : Prop where
  size : S.buffer.size = c + 1
  holds : S.buffer.Holds F.log F.consumed.length
  reader_eq : ∀ r, S.reader r = F.pos r % S.buffer.size
  pos_le : ∀ r, F.pos r ≤ F.log.length

namespace Refines

theorem moveReader (h : Refines c S F) (reader : ρ) {p : ℕ} {read_ptr : ℤ}
    (hptr : read_ptr = p % S.buffer.size) (hp : p ≤ F.log.length) :
    Refines c (S.moveReader reader read_ptr) (F.moveReader reader p) := by
  refine ⟨h.size, h.holds, fun r => ?_, fun r => ?_⟩
  · by_cases hr : r = reader
    · subst hr
      simpa [System.moveReader, Fifo.moveReader] using hptr
    · simpa [System.moveReader, Fifo.moveReader, hr] using h.reader_eq r
  · by_cases hr : r = reader
    · subst hr
      simpa [Fifo.moveReader] using hp
    · simpa [Fifo.moveReader, hr] using h.pos_le r

omit [DecidableEq ρ] in
theorem dequeue (h : Refines c S F) {n : ℕ} (hn : n ≤ F.stored.length) :
    Refines c { S with buffer :=
      { S.buffer with readPtr := ((F.consumed.length + n : ℕ) : ℤ) % S.buffer.size } }
      (F.dequeue n) := by
  refine ⟨h.size, ?_, h.reader_eq, fun r => ?_⟩
  · have hlen : (F.dequeue n).consumed.length = F.consumed.length + n := by
      simp [Fifo.dequeue, hn]
    rw [Fifo.dequeue_log, hlen]
    exact h.holds.advance (Nat.le_add_right _ _) (by rw [Fifo.length_log]; omega)
  · rw [Fifo.dequeue_log]
    exact h.pos_le r

omit [DecidableEq ρ] in
theorem write (h : Refines c S F) (src : List α) :
    (S.buffer.write src).2 = (src.take (c - F.stored.length)).length ∧
      Refines c { S with buffer := (S.buffer.write src).1 }
        (F.enqueue (src.take (c - F.stored.length))) := by
  obtain ⟨hcnt, hholds, hsize, -⟩ := h.holds.write_spec src
  have hfit : fitting S.buffer F.log F.consumed.length src = src.take (c - F.stored.length) := by
    have hs := h.size
    rw [fitting, Fifo.length_log]
    congr 1
    omega
  rw [hfit] at hcnt hholds
  refine ⟨hcnt, hsize.trans h.size, ?_, fun r => ?_, fun r => ?_⟩
  · rw [Fifo.enqueue_log]
    exact hholds
  · rw [h.reader_eq r, hsize]
    rfl
  · rw [Fifo.enqueue_log, List.length_append]
    exact (h.pos_le r).trans (Nat.le_add_right _ _)

omit [DecidableEq ρ] in
theorem read (h : Refines c S F) (cnt : ℕ) :
    (S.buffer.read cnt).2 = (F.stored.take cnt, ((F.stored.take cnt).length : ℤ)) ∧
      Refines c { S with buffer := (S.buffer.read cnt).1 } (F.dequeue cnt) := by
  have hread := h.holds.readFrom_eq le_rfl h.holds.le cnt
  rw [Fifo.drop_consumed] at hread
  have hmin : F.dequeue cnt = F.dequeue (F.stored.take cnt).length := by
    rw [Fifo.dequeue, Fifo.dequeue, List.length_take]
    rcases Nat.le_total cnt F.stored.length with hle | hle
    · rw [Nat.min_eq_left hle]
    · rw [Nat.min_eq_right hle, List.take_of_length_le hle, List.take_length,
        List.drop_of_length_le hle, List.drop_length]
  rw [RingBuffer.read, h.holds.read_eq, hread, hmin]
  exact ⟨rfl, h.dequeue (List.length_take_le' _ _)⟩

theorem step (h : Refines c S F) (op : Fifo.Op α ρ) (hop : op.Valid F) :
    (S.step op).2 = (F.step c op).2 ∧ Refines c (S.step op).1 (F.step c op).1 := by
  cases op with
  | write src =>
      obtain ⟨hcnt, hrefines⟩ := h.write src
      exact ⟨congrArg Fifo.Out.written hcnt, hrefines⟩
  | push src =>
      obtain ⟨hcnt, hrefines⟩ := h.write [src]
      exact ⟨congrArg Fifo.Out.written hcnt, hrefines⟩
  | read cnt =>
      obtain ⟨hout, hrefines⟩ := h.read cnt
      exact ⟨congrArg (fun out : List α × ℤ => Fifo.Out.values out.1 out.2) hout, hrefines⟩
  | pop =>
      obtain ⟨hout, hrefines⟩ := h.read 1
      exact ⟨congrArg (fun out : List α × ℤ => Fifo.Out.values out.1 out.2) hout, hrefines⟩
  | getReader reader => exact ⟨rfl, h.moveReader reader h.holds.read_eq h.holds.le⟩
  | readerRead reader cnt =>
      have hread := h.holds.readFrom_eq hop (h.pos_le reader) cnt
      rw [← h.reader_eq reader] at hread
      have hlen : F.pos reader + ((F.ahead reader).take cnt).length ≤ F.log.length := by
        have := h.pos_le reader
        rw [Fifo.ahead, List.length_take, List.length_drop]
        omega
      simp only [System.step, Fifo.step, NonVolatileReader.read, hread]
      exact ⟨rfl, h.moveReader reader rfl hlen⟩
  | readerPop reader =>
      have hle := h.pos_le reader
      simp only [System.step, Fifo.step]
      rw [h.reader_eq reader]
      by_cases hend : F.log.length ≤ F.pos reader
      · have hnone : (F.ahead reader).head? = none := by
          rw [Fifo.ahead, List.head?_drop]
          exact List.getElem?_eq_none hend
        rw [h.holds.pop_end hend hle, hnone]
        exact ⟨rfl, h.moveReader reader rfl hle⟩
      · obtain ⟨x, hx⟩ : ∃ x, F.log[F.pos reader]? = some x :=
          ⟨_, List.getElem?_eq_getElem (not_le.mp hend)⟩
        have hsome : (F.ahead reader).head? = some x := by
          rw [Fifo.ahead, List.head?_drop, hx]
        rw [h.holds.pop_of_lt hop hx, hsome]
        refine ⟨rfl, h.moveReader reader rfl ?_⟩
        simp only [Option.toList_some, List.length_singleton]
        omega
  | readerDec reader =>
      have hle := h.pos_le reader
      refine ⟨rfl, h.moveReader reader ?_ ?_⟩
      · rw [h.reader_eq reader]
        by_cases hstart : F.pos reader = F.consumed.length
        · rw [if_pos hstart, NonVolatileReader.dec, h.holds.read_eq, hstart, if_pos rfl]
        · rw [if_neg hstart]
          exact h.holds.dec_of_lt (lt_of_le_of_ne hop (Ne.symm hstart)) hle
      · split <;> omega
  | readerAdd reader n =>
      have hspace := h.holds.readSpaceFrom_eq hop (h.pos_le reader)
      have hle := h.pos_le reader
      rw [← h.reader_eq reader] at hspace
      refine ⟨rfl, h.moveReader reader ?_ ?_⟩
      · rw [NonVolatileReader.add, NonVolatileReader.readSpace, hspace, Fifo.ahead,
          List.length_drop]
        by_cases hfew : F.log.length - F.pos reader < n
        · rw [if_pos hfew, if_pos (by omega), h.reader_eq reader]
        · rw [if_neg hfew, if_neg (by omega), h.holds.sized.masked_eq, h.reader_eq reader,
            Int.emod_add_emod]
          rfl
      · rw [Fifo.ahead, List.length_drop]
        split <;> omega
  | readerFree reader =>
      have hpos : F.consumed.length ≤ F.pos reader := hop
      have hle := h.pos_le reader
      rw [Fifo.length_log] at hle
      have hdeq := h.dequeue (n := F.pos reader - F.consumed.length) (by omega)
      rw [Nat.add_sub_cancel' hpos, ← h.reader_eq reader] at hdeq
      exact ⟨rfl, hdeq⟩

end Refines

theorem Refines.run {ops : List (Fifo.Op α ρ)} (h : Refines c S F)
    (hops : Fifo.ValidRun c ops F) : (System.run ops S).2 = (Fifo.run c ops F).2 ∧
      Refines c (System.run ops S).1 (Fifo.run c ops F).1 := by
  induction ops generalizing S F with
  | nil => exact ⟨rfl, h⟩
  | cons op ops ih =>
      obtain ⟨hop, hops⟩ := hops
      obtain ⟨hout, hstep⟩ := h.step op hop
      obtain ⟨houts, hrun⟩ := ih hstep hops
      exact ⟨congrArg₂ List.cons hout houts, hrun⟩

/-- A new buffer, on which no reader has moved yet. -/
def start (sz wrap_elements : ℤ) (buf : ℤ → α) : System α ρ where
  buffer := create sz wrap_elements buf
  reader := fun _ => 0

omit [DecidableEq ρ] in
theorem start_refines (sz wrap_elements : ℤ) (buf : ℤ → α) :
    Refines ((create sz wrap_elements buf).size.toNat - 1)
      (start sz wrap_elements buf : System α ρ) Fifo.empty := by
  have hsized := create_sized sz wrap_elements buf
  have hpos := hsized.size_pos
  refine ⟨?_, ⟨hsized, (Int.zero_emod _).symm, (Int.zero_emod _).symm, le_rfl, ?_, ?_⟩,
    fun r => (Int.zero_emod _).symm, fun r => le_rfl⟩
  · change (create sz wrap_elements buf).size = _
    omega
  · simpa [start, Fifo.empty, Fifo.log] using hpos
  · intro j _ hj
    simp [Fifo.empty, Fifo.log] at hj

/-- The buffer behaves as a queue for one element less than its size, as long
as no reader is used after the buffer was read beyond the reader's position. -/
theorem run_refines_fifo (sz wrap_elements : ℤ) (buf : ℤ → α) (ops : List (Fifo.Op α ρ))
    (hops : Fifo.ValidRun ((create sz wrap_elements buf).size.toNat - 1) ops Fifo.empty) :
    let c := (create sz wrap_elements buf).size.toNat - 1
    let B := (run ops (start sz wrap_elements buf)).1.buffer
    let F := (Fifo.run c ops Fifo.empty).1
    (run ops (start sz wrap_elements buf)).2 = (Fifo.run c ops Fifo.empty).2 ∧
      F.consumed ++ F.stored = Fifo.accepted c ops Fifo.empty ∧
      B.readSpace = F.stored.length ∧ F.stored.length ≤ B.size - 1 ∧
      B.readSpace + B.writeSpace = B.size - 1 ∧
      (0 ≤ B.readPtr ∧ B.readPtr < B.size) ∧ (0 ≤ B.writePtr ∧ B.writePtr < B.size) ∧
      ∀ j : ℕ, F.consumed.length ≤ j → j < (F.consumed ++ F.stored).length →
        some (B.buf (j % B.size)) = (F.consumed ++ F.stored)[j]? := by
  intro c B F
  obtain ⟨hout, hF⟩ := (start_refines sz wrap_elements buf).run hops
  have hcap := hF.holds.capacity
  have hspace := hF.holds.readSpace_eq
  rw [Fifo.length_log] at hcap hspace
  refine ⟨hout, (Fifo.run_log c ops Fifo.empty).1, ?_, ?_, hF.holds.space_add,
    hF.holds.ptr_range.1, hF.holds.ptr_range.2, hF.holds.shows_log⟩
  · refine hspace.trans ?_
    push_cast
    ring
  · have hcap' : ((F.consumed.length + F.stored.length : ℕ) : ℤ) < F.consumed.length + B.size :=
      hcap
    omega

/-- Two elements are written, read through a reader, and freed. -/
def peek : List (Fifo.Op ℕ Unit) :=
  [.write [1, 2], .getReader (), .readerPop (), .readerDec (), .readerRead () 2, .readerFree (),
    .push 3, .pop]

theorem create_four : create 4 0 (fun _ => 0) = (⟨fun _ => 0, 0, 0, 4, 0, 3⟩ : RingBuffer ℕ) := by
  simp [create, powerOfTwo]

theorem run_refines_fifo_peek :
    (run peek (start 4 0 fun _ => 0)).2 = (Fifo.run 3 peek Fifo.empty).2 := by
  have hsize : (create 4 0 (fun _ => 0) : RingBuffer ℕ).size.toNat - 1 = 3 := by
    rw [create_four]
    rfl
  have hops : Fifo.ValidRun 3 peek Fifo.empty := by decide
  have hrun := run_refines_fifo 4 0 (fun _ => 0) peek
  simp only [hsize] at hrun
  exact (hrun hops).1

/-- A reader that frees what was already read brings it back. -/
theorem stale_reader_rereads : ¬ ∀ ops : List (Fifo.Op ℕ Unit),
    (run ops (start 4 0 fun _ => 0)).2 = (Fifo.run 3 ops Fifo.empty).2 := by
  intro h
  have hout := h [.write [1, 2], .getReader (), .read 2, .readerFree (), .read 2]
  rw [start, create_four] at hout
  revert hout
  decide

end System

end RingBuffer

end LinuxSampler
