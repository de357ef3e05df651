import LinuxSampler.RingBufferFifo
import Mathlib.Data.Nat.Log

/-!
# Resizing a RingBuffer

`resize()` allocates a new array but keeps the positions. The buffer is an empty
queue afterwards only if it was empty before and its position is one of the new
array.
-/

namespace LinuxSampler

open CircularArray

namespace RingBuffer

variable {α ρ : Type*} (B : RingBuffer α)

/-- The number of wrap elements that `resize()` uses; -1 stands for that of before. -/
def wrapAfter (wrap_elements : ℤ) : ℤ :=
  if wrap_elements = -1 then B.wrapElements else wrap_elements

/-- There is no result if the size of the array, as an `int`, cannot be computed or is
negative. -/
def resize (sz wrap_elements : ℤ) (buf : ℤ → α) : Option (RingBuffer α) :=
  let wrap_elements := B.wrapAfter wrap_elements
  let new := create sz wrap_elements buf
  if new.size > 2 ^ 30 ∨ new.size + wrap_elements ≥ 2 ^ 31 ∨ new.size + wrap_elements < 0 then none
  else some { new with writePtr := B.writePtr, readPtr := B.readPtr }

/-! ## Accesses -/

/-- `copy()` accesses the position of an array, from `start` on. A negative number of
elements has no end for `memcpy()`. -/
def Touches (start n p : ℤ) : Prop := start ≤ p ∧ (p < start + n ∨ n < 0)

/-- `read()` from a position accesses position `p` of the array. -/
def ReadsAt (priv_read_ptr cnt p : ℤ) : Prop :=
  let free_cnt := B.readSpaceFrom priv_read_ptr
  free_cnt ≠ 0 ∧
    let to_read := if cnt > free_cnt then free_cnt else cnt
    let (n1, n2) := B.split priv_read_ptr to_read
    Touches priv_read_ptr n1 p ∨ n2 ≠ 0 ∧ Touches 0 n2 p

/-- `write()` accesses position `p` of the array. -/
def WritesAt (cnt p : ℤ) : Prop :=
  let free_cnt := B.writeSpace
  free_cnt ≠ 0 ∧
    let to_write := if cnt > free_cnt then free_cnt else cnt
    let (n1, n2) := B.split B.writePtr to_write
    Touches B.writePtr n1 p ∨ n2 ≠ 0 ∧ Touches 0 n2 p

/-- A position of the array, with its wrap area. -/
def InStorage (p : ℤ) : Prop := 0 ≤ p ∧ p < B.size + B.wrapElements

namespace System

/-- An operation accesses position `p` of the array. -/
def Accesses (S : System α ρ) (op : Fifo.Op α ρ) (p : ℤ) : Prop :=
  match op with
  | .write src => S.buffer.WritesAt src.length p
  | .push _ => S.buffer.WritesAt 1 p
  | .read cnt => S.buffer.ReadsAt S.buffer.readPtr cnt p
  | .pop => S.buffer.ReadsAt S.buffer.readPtr 1 p
  | .readerRead reader cnt => S.buffer.ReadsAt (S.reader reader) cnt p
  | .readerPop reader => S.buffer.readSpaceFrom (S.reader reader) ≠ 0 ∧ p = S.reader reader
  | .getReader _ | .readerDec _ | .readerAdd _ _ | .readerFree _ => False

/-- All operations access the array at its own positions only. -/
def AccessesFit [DecidableEq ρ] : List (Fifo.Op α ρ) → System α ρ → Prop
  | [], _ => True
  | op :: ops, S =>
      (∀ p, S.Accesses op p → S.buffer.InStorage p) ∧ AccessesFit ops (S.step op).1

end System

/-! ## Empty queues -/

variable {B} in
/-- The buffer is an empty queue of its capacity, which stores nothing of what went through
it before, also for readers that are got from it. -/
structure EmptyFifo (ρ : Type*) [DecidableEq ρ] (B : RingBuffer α) : Prop where
  readPtr_range : 0 ≤ B.readPtr ∧ B.readPtr < B.size
  writePtr_range : 0 ≤ B.writePtr ∧ B.writePtr < B.size
  readSpace : B.readSpace = 0
  writeSpace : B.writeSpace = B.size - 1
  queue : ∃ F : Fifo α ρ, F.stored = [] ∧ (∀ r, F.pos r = F.consumed.length) ∧
    ∀ ops, Fifo.ValidRun (B.size.toNat - 1) ops F →
      (System.run ops ⟨B, fun _ => B.readPtr⟩).2 = (Fifo.run (B.size.toNat - 1) ops F).2
  accesses : ∀ ops : List (Fifo.Op α ρ), System.AccessesFit ops ⟨B, fun _ => B.readPtr⟩

/-! ## The size -/

/-- The least power of two, from 2 on, that is not less than the size asked for. -/
def sizeFor (sz : ℤ) : ℤ := 2 ^ max 1 (Nat.clog 2 sz.toNat)

theorem powerOfTwo_eq (sz : ℤ) (p : ℕ) : powerOfTwo sz p = max p (Nat.clog 2 sz.toNat) := by
  have hpow : ∀ p : ℕ, (2 : ℤ) ^ p < sz ↔ p < Nat.clog 2 sz.toNat := by
    intro p
    rw [Nat.lt_clog_iff_pow_lt Nat.one_lt_two, Int.lt_toNat]
    push_cast
    rfl
  induction p using powerOfTwo.induct sz with
  | case1 p h ih =>
      have := (hpow p).1 h
      rw [powerOfTwo, if_pos h, ih]
      omega
  | case2 p h =>
      have := (hpow p).not.1 h
      rw [powerOfTwo, if_neg h]
      omega

theorem create_size (sz wrap_elements : ℤ) (buf : ℤ → α) :
    (create sz wrap_elements buf).size = sizeFor (sz + wrap_elements) := by
  show (2 : ℤ) ^ powerOfTwo (sz + wrap_elements) 1 = _
  rw [powerOfTwo_eq, sizeFor]

theorem two_le_sizeFor (sz : ℤ) : 2 ≤ sizeFor sz := by
  have h := pow_le_pow_right₀ (one_le_two (α := ℤ)) (le_max_left 1 (Nat.clog 2 sz.toNat))
  rwa [pow_one] at h

/-- The size can be computed for all requests up to 2^30. -/
theorem sizeFor_le_iff (sz : ℤ) : sizeFor sz ≤ 2 ^ 30 ↔ sz ≤ 2 ^ 30 := by
  rw [sizeFor, pow_le_pow_iff_right₀ (one_lt_two (α := ℤ)), max_le_iff,
    and_iff_right (by norm_num), Nat.clog_le_iff_le_pow Nat.one_lt_two, Int.toNat_le]
  norm_num

/-! ## Accesses of a buffer with its positions in the array -/

section Ranges

variable {B} {r w n cnt p : ℤ}

theorem Sized.masked_range (h : B.Sized) (x : ℤ) : 0 ≤ B.masked x ∧ B.masked x < B.size := by
  rw [h.masked_eq]
  exact ⟨Int.emod_nonneg _ h.size_pos.ne', Int.emod_lt_of_pos _ h.size_pos⟩

theorem Sized.readSpaceFrom_range (h : B.Sized) (hw : 0 ≤ B.writePtr ∧ B.writePtr < B.size)
    (hr : 0 ≤ r ∧ r < B.size) : 0 ≤ B.readSpaceFrom r ∧ B.readSpaceFrom r < B.size := by
  rw [readSpaceFrom]
  split
  · omega
  · exact h.masked_range _

theorem Sized.writeSpace_range (h : B.Sized) (hw : 0 ≤ B.writePtr ∧ B.writePtr < B.size)
    (hr : 0 ≤ B.readPtr ∧ B.readPtr < B.size) : 0 ≤ B.writeSpace ∧ B.writeSpace < B.size := by
  rw [writeSpace]
  by_cases hlt : B.writePtr > B.readPtr
  · rw [if_pos hlt, h.masked_eq, Int.emod_eq_of_lt (by omega) (by omega)]
    omega
  · rw [if_neg hlt]
    split <;> omega

/-- A stretch of less than a round is cut into two within the array. -/
theorem Sized.touches_split (h : B.Sized) (hr : 0 ≤ r ∧ r < B.size) (hn : 0 ≤ n ∧ n < B.size)
    (htouches : Touches r (B.split r n).1 p ∨ (B.split r n).2 ≠ 0 ∧ Touches 0 (B.split r n).2 p) :
    0 ≤ p ∧ p < B.size := by
  have hmask := h.masked_range (r + n)
  simp only [split, Touches] at htouches
  by_cases hwrap : r + n > B.size
  · simp only [if_pos hwrap] at htouches
    omega
  · simp only [if_neg hwrap] at htouches
    omega

theorem Sized.readsAt_range (h : B.Sized) (hw : 0 ≤ B.writePtr ∧ B.writePtr < B.size)
    (hr : 0 ≤ r ∧ r < B.size) (hcnt : 0 ≤ cnt) (hreads : B.ReadsAt r cnt p) :
    0 ≤ p ∧ p < B.size := by
  have hspace := h.readSpaceFrom_range hw hr
  refine h.touches_split hr ?_ hreads.2
  split <;> omega

theorem Sized.writesAt_range (h : B.Sized) (hw : 0 ≤ B.writePtr ∧ B.writePtr < B.size)
    (hr : 0 ≤ B.readPtr ∧ B.readPtr < B.size) (hcnt : 0 ≤ cnt) (hwrites : B.WritesAt cnt p) :
    0 ≤ p ∧ p < B.size := by
  have hspace := h.writeSpace_range hw hr
  refine h.touches_split hw ?_ hwrites.2
  split <;> omega

/-- What is behind the end of the array is the new position. -/
theorem Sized.split_range (h : B.Sized) (hne : (B.split r n).2 ≠ 0) :
    0 ≤ (B.split r n).2 ∧ (B.split r n).2 < B.size := by
  rw [split] at hne ⊢
  by_cases hwrap : r + n > B.size
  · rw [if_pos hwrap]
    exact h.masked_range _
  · rw [if_neg hwrap] at hne
    exact absurd rfl hne

theorem Sized.readFrom_range (h : B.Sized) (hr : 0 ≤ r ∧ r < B.size) :
    0 ≤ (B.readFrom r cnt).1 ∧ (B.readFrom r cnt).1 < B.size := by
  rw [readFrom]
  dsimp only
  by_cases hfree : B.readSpaceFrom r = 0
  · rw [if_pos hfree]
    exact hr
  · rw [if_neg hfree]
    by_cases hne : (B.split r (if cnt > B.readSpaceFrom r then B.readSpaceFrom r else cnt)).2 ≠ 0
    · rw [if_pos hne]
      exact h.split_range hne
    · rw [if_neg hne]
      exact h.masked_range _

/-- A write changes nothing but the elements and the position to write to. -/
theorem write_frame (src : List α) :
    (B.write src).1.size = B.size ∧ (B.write src).1.sizeMask = B.sizeMask ∧
      (B.write src).1.wrapElements = B.wrapElements ∧ (B.write src).1.readPtr = B.readPtr := by
  rw [write]
  dsimp only
  by_cases hfree : B.writeSpace = 0
  · rw [if_pos hfree]
    exact ⟨rfl, rfl, rfl, rfl⟩
  · rw [if_neg hfree]
    by_cases hne : (B.split B.writePtr
        (if (src.length : ℤ) > B.writeSpace then B.writeSpace else src.length)).2 ≠ 0
    · rw [if_pos hne]
      exact ⟨rfl, rfl, rfl, rfl⟩
    · rw [if_neg hne]
      exact ⟨rfl, rfl, rfl, rfl⟩

theorem Sized.write_range (h : B.Sized) (hw : 0 ≤ B.writePtr ∧ B.writePtr < B.size)
    (src : List α) : 0 ≤ (B.write src).1.writePtr ∧ (B.write src).1.writePtr < B.size := by
  rw [write]
  dsimp only
  by_cases hfree : B.writeSpace = 0
  · rw [if_pos hfree]
    exact hw
  · rw [if_neg hfree]
    by_cases hne : (B.split B.writePtr
        (if (src.length : ℤ) > B.writeSpace then B.writeSpace else src.length)).2 ≠ 0
    · rw [if_pos hne]
      exact h.split_range hne
    · rw [if_neg hne]
      exact h.masked_range _

end Ranges

namespace System

variable [DecidableEq ρ] {S : System α ρ}

/-- All positions are such of the array, and the wrap area is behind it. -/
structure Placed (S : System α ρ) : Prop where
  sized : S.buffer.Sized
  wrap : 0 ≤ S.buffer.wrapElements
  write : 0 ≤ S.buffer.writePtr ∧ S.buffer.writePtr < S.buffer.size
  read : 0 ≤ S.buffer.readPtr ∧ S.buffer.readPtr < S.buffer.size
  reader : ∀ r, 0 ≤ S.reader r ∧ S.reader r < S.buffer.size

namespace Placed

omit [DecidableEq ρ] in
theorem inStorage (h : Placed S) {op : Fifo.Op α ρ} {p : ℤ} (haccess : S.Accesses op p) :
    S.buffer.InStorage p := by
  have hwrap := h.wrap
  have hplace : 0 ≤ p ∧ p < S.buffer.size := by
    cases op with
    | write src => exact h.sized.writesAt_range h.write h.read (Int.natCast_nonneg _) haccess
    | push src => exact h.sized.writesAt_range h.write h.read zero_le_one haccess
    | read cnt => exact h.sized.readsAt_range h.write h.read (Int.natCast_nonneg _) haccess
    | pop => exact h.sized.readsAt_range h.write h.read zero_le_one haccess
    | readerRead reader cnt =>
        exact h.sized.readsAt_range h.write (h.reader reader) (Int.natCast_nonneg _) haccess
    | readerPop reader => exact haccess.2 ▸ h.reader reader
    | getReader reader | readerDec reader | readerAdd reader n | readerFree reader =>
        exact haccess.elim
  exact ⟨hplace.1, by omega⟩

theorem moveReader (h : Placed S) (reader : ρ) {read_ptr : ℤ}
    (hptr : 0 ≤ read_ptr ∧ read_ptr < S.buffer.size) : Placed (S.moveReader reader read_ptr) := by
  refine ⟨h.sized, h.wrap, h.write, h.read, fun r => ?_⟩
  show 0 ≤ Function.update S.reader reader read_ptr r ∧
    Function.update S.reader reader read_ptr r < S.buffer.size
  by_cases hr : r = reader
  · rw [hr, Function.update_self]
    exact hptr
  · rw [Function.update_of_ne hr]
    exact h.reader r

omit [DecidableEq ρ] in
theorem afterWrite (h : Placed S) (src : List α) :
    Placed { S with buffer := (S.buffer.write src).1 } := by
  obtain ⟨hsize, hmask, hwrap, hread⟩ := write_frame (B := S.buffer) src
  refine ⟨⟨hsize ▸ h.sized.pow, ?_⟩, hwrap ▸ h.wrap, ?_, ?_, ?_⟩
  · exact hmask.trans (h.sized.mask.trans (congrArg (· - 1) hsize.symm))
  · exact hsize ▸ h.sized.write_range h.write src
  · show 0 ≤ (S.buffer.write src).1.readPtr ∧ (S.buffer.write src).1.readPtr < _
    rw [hread, hsize]
    exact h.read
  · exact hsize ▸ h.reader

omit [DecidableEq ρ] in
theorem setRead (h : Placed S) {read_ptr : ℤ} (hptr : 0 ≤ read_ptr ∧ read_ptr < S.buffer.size) :
    Placed { S with buffer := { S.buffer with readPtr := read_ptr } } :=
  ⟨⟨h.sized.pow, h.sized.mask⟩, h.wrap, h.write, hptr, h.reader⟩

theorem step (h : Placed S) (op : Fifo.Op α ρ) : Placed (S.step op).1 := by
  cases op with
  | write src => exact h.afterWrite src
  | push src => exact h.afterWrite [src]
  | read cnt => exact h.setRead (h.sized.readFrom_range h.read)
  | pop => exact h.setRead (h.sized.readFrom_range h.read)
  | getReader reader => exact h.moveReader reader h.read
  | readerRead reader cnt =>
      exact h.moveReader reader (h.sized.readFrom_range (h.reader reader))
  | readerPop reader =>
      have hptr : 0 ≤ (NonVolatileReader.pop S.buffer (S.reader reader)).1 ∧
          (NonVolatileReader.pop S.buffer (S.reader reader)).1 < S.buffer.size := by
        rw [NonVolatileReader.pop]
        split
        · exact h.reader reader
        · exact h.sized.masked_range _
      exact h.moveReader reader hptr
  | readerDec reader =>
      refine h.moveReader reader ?_
      rw [NonVolatileReader.dec]
      split
      · exact h.reader reader
      · exact h.sized.masked_range _
  | readerAdd reader n =>
      refine h.moveReader reader ?_
      rw [NonVolatileReader.add]
      split
      · exact h.reader reader
      · exact h.sized.masked_range _
  | readerFree reader => exact h.setRead (h.reader reader)

theorem accessesFit (h : Placed S) (ops : List (Fifo.Op α ρ)) : AccessesFit ops S := by
  induction ops generalizing S with
  | nil => trivial
  | cons op ops ih => exact ⟨fun _ => h.inStorage, ih (h.step op)⟩

end Placed

end System

/-! ## After a resize -/

section Resize

variable {B} {B' : RingBuffer α} {p : ℤ}

/-- What went through a buffer before, if it is empty at a position of its array. -/
theorem holds_of_empty (h : B.Sized) (hread : B.readPtr = p) (hwrite : B.writePtr = p)
    (hp : 0 ≤ p ∧ p < B.size) :
    B.Holds ((List.range p.toNat).map fun j : ℕ => B.buf j) p.toNat := by
  have hlen : ((List.range p.toNat).map fun j : ℕ => B.buf j).length = p.toNat := by
    rw [List.length_map, List.length_range]
  have hmod : (p.toNat : ℤ) % B.size = p := by
    rw [Int.toNat_of_nonneg hp.1]
    exact Int.emod_eq_of_lt hp.1 hp.2
  refine ⟨h, ?_, hread.trans hmod.symm, hlen.ge, ?_, fun j hj hlt => absurd hlt ?_⟩
  · rw [hlen, hwrite, hmod]
  · rw [hlen]
    omega
  · rw [hlen]
    omega

variable (ρ) in
/-- An empty buffer at a position of its array is an empty queue. -/
theorem refines_of_empty (h : B.Sized) (hread : B.readPtr = p) (hwrite : B.writePtr = p)
    (hp : 0 ≤ p ∧ p < B.size) :
    ∃ F : Fifo α ρ, F.stored = [] ∧ F.consumed.length = p.toNat ∧
      (∀ r, F.pos r = F.consumed.length) ∧
      System.Refines (B.size.toNat - 1) ⟨B, fun _ => B.readPtr⟩ F := by
  have hholds := holds_of_empty h hread hwrite hp
  have hlen : ((List.range p.toNat).map fun j : ℕ => B.buf j).length = p.toNat := by
    rw [List.length_map, List.length_range]
  refine ⟨⟨(List.range p.toNat).map fun j : ℕ => B.buf j, [], fun _ => p.toNat⟩, rfl, hlen,
    fun _ => hlen.symm, ?_, ?_, fun _ => hholds.read_eq, fun _ => ?_⟩
  · have := h.size_pos
    show B.size = _
    omega
  · rw [Fifo.log, List.append_nil, hlen]
    exact hholds
  · rw [Fifo.log, List.append_nil, hlen]

variable [DecidableEq ρ]

variable (ρ) in
theorem emptyFifo_of_empty (h : B.Sized) (hwrap : 0 ≤ B.wrapElements) (hread : B.readPtr = p)
    (hwrite : B.writePtr = p) (hp : 0 ≤ p ∧ p < B.size) : EmptyFifo ρ B := by
  have hholds := holds_of_empty h hread hwrite hp
  obtain ⟨F, hstored, -, hpos, hrefines⟩ := refines_of_empty ρ h hread hwrite hp
  have hrange : 0 ≤ B.readPtr ∧ B.readPtr < B.size := hread ▸ hp
  have hplaced : System.Placed (⟨B, fun _ => B.readPtr⟩ : System α ρ) :=
    ⟨h, hwrap, hwrite ▸ hp, hrange, fun _ => hrange⟩
  refine ⟨hrange, hwrite ▸ hp, ?_, ?_, ⟨F, hstored, hpos, fun ops hops => ?_⟩,
    hplaced.accessesFit⟩
  · rw [hholds.readSpace_eq, List.length_map, List.length_range]
    omega
  · rw [hholds.writeSpace_eq, List.length_map, List.length_range]
    omega
  · exact (hrefines.run hops).1

/-- The last position of the array is written at once if it is the next one. -/
theorem writesAt_last (hsize : 2 ≤ B.size) (hread : B.readPtr = B.writePtr)
    (hlast : B.writePtr = B.size - 1) : B.WritesAt 1 (B.size - 1) := by
  have hspace : B.writeSpace = B.size - 1 := by
    rw [writeSpace, hread, if_neg (lt_irrefl _), if_neg (lt_irrefl _)]
  refine ⟨by omega, .inl ?_⟩
  show Touches B.writePtr (B.split B.writePtr (if 1 > B.writeSpace then B.writeSpace else 1)).1 _
  rw [hspace, if_neg (by omega), split, hlast]
  rw [if_neg (by omega)]
  exact ⟨le_rfl, .inl (by omega)⟩

/-- From a later position than the first one, all that fits reaches the last one. -/
theorem writesAt_all (hsize : 2 ≤ B.size) (hread : B.readPtr = B.writePtr)
    (hwrite : 0 < B.writePtr ∧ B.writePtr < B.size) : B.WritesAt (B.size - 1) (B.size - 1) := by
  have hspace : B.writeSpace = B.size - 1 := by
    rw [writeSpace, hread, if_neg (lt_irrefl _), if_neg (lt_irrefl _)]
  refine ⟨by omega, .inl ?_⟩
  show Touches B.writePtr (B.split B.writePtr
    (if B.size - 1 > B.writeSpace then B.writeSpace else B.size - 1)).1 _
  rw [hspace, if_neg (lt_irrefl _), split]
  by_cases hwrap : B.writePtr + (B.size - 1) > B.size
  · rw [if_pos hwrap]
    exact ⟨by omega, .inl (by omega)⟩
  · rw [if_neg hwrap]
    exact ⟨by omega, .inl (by omega)⟩

theorem Sized.ptr_eq_of_readSpace (h : B.Sized) (hw : 0 ≤ B.writePtr ∧ B.writePtr < B.size)
    (hr : 0 ≤ B.readPtr ∧ B.readPtr < B.size) (hspace : B.readSpace = 0) :
    B.writePtr = B.readPtr := by
  rw [readSpace, readSpaceFrom] at hspace
  by_cases hle : B.writePtr ≥ B.readPtr
  · rw [if_pos hle] at hspace
    omega
  · rw [if_neg hle, h.masked_eq, Int.emod_eq_of_lt (by omega) (by omega)] at hspace
    omega

/-- With fewer elements than the size, an empty queue accesses one behind its array: after
one element went through, a write of all that fits reaches the last position. -/
theorem EmptyFifo.wrap_nonneg (hempty : EmptyFifo ρ B) (h : B.Sized) (hsize : 2 ≤ B.size) :
    0 ≤ B.wrapElements := by
  by_contra hneg
  have heq := h.ptr_eq_of_readSpace hempty.writePtr_range hempty.readPtr_range hempty.readSpace
  obtain ⟨x, hx⟩ : ∃ x, x = B.buf 0 := ⟨_, rfl⟩
  obtain ⟨hfirst, -, hlast, -⟩ := hempty.accesses
    [.write [x], .read 1, .write (List.replicate (B.size - 1).toNat x)]
  have hout : ¬ B.InStorage (B.size - 1) := fun hin => by
    have := hin.2
    omega
  by_cases hend : B.writePtr = B.size - 1
  · exact hout (hfirst _ (writesAt_last hsize heq.symm hend))
  · obtain ⟨F, hstored, hlen, -, hrefines⟩ :=
      refines_of_empty ρ h rfl heq hempty.readPtr_range
    have hrange := hempty.readPtr_range
    have hfits : [x].take (B.size.toNat - 1 - F.stored.length) = [x] := by
      rw [hstored, List.take_of_length_le (by rw [List.length_nil, List.length_singleton]; omega)]
    have hafter := ((hrefines.step (.write [x]) trivial).2.step (.read 1) trivial).2
    simp only [Fifo.step, hfits] at hafter
    have hwrap : (((⟨B, fun _ => B.readPtr⟩ : System α ρ).step (.write [x])).1.step
        (.read 1)).1.buffer.wrapElements = B.wrapElements := (write_frame (B := B) [x]).2.2.1
    generalize (((⟨B, fun _ => B.readPtr⟩ : System α ρ).step (.write [x])).1.step
      (.read 1)).1 = S at hlast hafter hwrap
    -- Both positions are one further than those before the element.
    have hlog : ((F.enqueue [x]).dequeue 1).log.length = B.readPtr.toNat + 1 := by
      rw [Fifo.dequeue_log, Fifo.enqueue_log, List.length_append, Fifo.length_log, hstored, hlen]
      rfl
    have hconsumed : ((F.enqueue [x]).dequeue 1).consumed.length = B.readPtr.toNat + 1 := by
      show (F.consumed ++ (F.stored ++ [x]).take 1).length = _
      rw [hstored, List.length_append, hlen]
      rfl
    have hsame : S.buffer.size = B.size := by
      have := hafter.size
      omega
    have hmod : ((B.readPtr.toNat + 1 : ℕ) : ℤ) % B.size = B.readPtr + 1 := by
      push_cast
      rw [Int.toNat_of_nonneg hrange.1]
      exact Int.emod_eq_of_lt (by omega) (by omega)
    have hwrite := hafter.holds.write_eq
    have hread := hafter.holds.read_eq
    rw [hlog, hsame, hmod] at hwrite
    rw [hconsumed, hsame, hmod] at hread
    have hall := writesAt_all (B := S.buffer) (by omega) (hread.trans hwrite.symm) (by omega)
    refine absurd (hlast (S.buffer.size - 1) ?_).2 (by omega)
    show S.buffer.WritesAt ((List.replicate (B.size - 1).toNat x).length : ℤ) _
    rwa [List.length_replicate, Int.toNat_of_nonneg (by omega), ← hsame]

variable (B ρ) in
/-- The buffer is an empty queue of its new size exactly if the request is a size and its
positions before are the same one, which the new array has. -/
theorem resize_emptyFifo_iff (sz wrap_elements : ℤ) (buf : ℤ → α) :
    (∃ B', B.resize sz wrap_elements buf = some B' ∧ EmptyFifo ρ B') ↔
      (0 ≤ B.wrapAfter wrap_elements ∧ sz + B.wrapAfter wrap_elements ≤ 2 ^ 30 ∧
        sizeFor (sz + B.wrapAfter wrap_elements) + B.wrapAfter wrap_elements < 2 ^ 31) ∧
      B.writePtr = B.readPtr ∧ 0 ≤ B.readPtr ∧
        B.readPtr < sizeFor (sz + B.wrapAfter wrap_elements) := by
  obtain ⟨wrap, hwrap⟩ : ∃ wrap, wrap = B.wrapAfter wrap_elements := ⟨_, rfl⟩
  have hsized := create_sized sz wrap buf
  have hcreate := create_size sz wrap buf
  have htwo := two_le_sizeFor (sz + wrap)
  rw [← hwrap, ← sizeFor_le_iff, ← hcreate]
  constructor
  · rintro ⟨B', hresize, hempty⟩
    rw [resize, ← hwrap] at hresize
    by_cases hfails : (create sz wrap buf).size > 2 ^ 30 ∨
        (create sz wrap buf).size + wrap ≥ 2 ^ 31 ∨ (create sz wrap buf).size + wrap < 0
    · rw [if_pos hfails] at hresize
      cases hresize
    · rw [if_neg hfails] at hresize
      cases hresize
      have hsized' : Sized { create sz wrap buf with
          writePtr := B.writePtr, readPtr := B.readPtr } := ⟨hsized.pow, hsized.mask⟩
      have hnonneg : 0 ≤ wrap := hempty.wrap_nonneg hsized' (htwo.trans hcreate.ge)
      exact ⟨⟨hnonneg, by omega, by omega⟩,
        hsized'.ptr_eq_of_readSpace hempty.writePtr_range hempty.readPtr_range hempty.readSpace,
        hempty.readPtr_range⟩
  · rintro ⟨⟨hnonneg, hsize, hstorage⟩, heq, hrange⟩
    refine ⟨{ create sz wrap buf with writePtr := B.writePtr, readPtr := B.readPtr }, ?_,
      emptyFifo_of_empty ρ ⟨hsized.pow, hsized.mask⟩ hnonneg rfl heq hrange⟩
    rw [resize, ← hwrap]
    exact if_neg (by omega)

end Resize

/-- With an element pushed before, there is one to read from the new array. -/
theorem not_resize_emptyFifo :
    ¬ ∃ B', ((create 4 0 fun _ => 0).push 7).1.resize 4 (-1) (fun _ => 0) = some B' ∧
      EmptyFifo Unit (B' : RingBuffer ℕ) := by
  rw [System.create_four]
  generalize hpushed : ((⟨fun _ => 0, 0, 0, 4, 0, 3⟩ : RingBuffer ℕ).push 7).1 = pushed
  have hwrite : pushed.writePtr = 1 := hpushed ▸ rfl
  have hread : pushed.readPtr = 0 := hpushed ▸ rfl
  have hwrap : pushed.wrapElements = 0 := hpushed ▸ rfl
  rintro ⟨B', hresize, hempty⟩
  rw [resize, wrapAfter, if_pos rfl, hwrap, System.create_four, if_neg (by norm_num)] at hresize
  cases hresize
  have hspace := hempty.readSpace
  rw [readSpace, readSpaceFrom, hwrite, hread, if_pos (by norm_num)] at hspace
  exact absurd hspace (by norm_num)

end RingBuffer

end LinuxSampler
