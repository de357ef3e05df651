import LinuxSampler.CircularArray

/-!
# RingBuffer

The queue between one writing and one reading thread: an array whose
size is a power of two, and the positions of the next write and of the
next read. A non-volatile reader has a read position of its own and gives
the elements free only when it is told to.
-/

namespace LinuxSampler

open CircularArray

/-- `buf` has `size + wrap_elements` elements; the positions are `int`s. -/
structure RingBuffer (α : Type*) where
  buf : ℤ → α
  writePtr : ℤ
  readPtr : ℤ
  size : ℤ
  wrapElements : ℤ
  sizeMask : ℤ

namespace RingBuffer

variable {α : Type*}

/-- The loop of `_allocBuffer()`. -/
def powerOfTwo (sz : ℤ) (power_of_two : ℕ) : ℕ :=
  if 2 ^ power_of_two < sz then powerOfTwo sz (power_of_two + 1) else power_of_two
termination_by (sz - 2 ^ power_of_two).toNat
decreasing_by
  have : (2 : ℤ) ^ (power_of_two + 1) = 2 ^ power_of_two + 2 ^ power_of_two := by ring
  have : (0 : ℤ) < 2 ^ power_of_two := by positivity
  omega

/-- The constructor and `_allocBuffer()`. The elements have no value yet. -/
def create (sz wrap_elements : ℤ) (buf : ℤ → α) : RingBuffer α :=
  let size : ℤ := 2 ^ powerOfTwo (sz + wrap_elements) 1
  { buf := buf
    writePtr := 0
    readPtr := 0
    size := size
    wrapElements := wrap_elements
    sizeMask := size - 1 }

variable (B : RingBuffer α)

/-- `x & size_mask` -/
def masked (x : ℤ) : ℤ := Int.land x B.sizeMask

/-- `copy(dest, &buf[start], n)` -/
def copyOut (start n : ℤ) : List α := slice B.buf start n.toNat

/-- `copy(&buf[start], src, n)` -/
def copyIn (start : ℤ) (src : List α) (n : ℤ) : RingBuffer α :=
  { B with buf := overwrite B.buf start (src.take n.toNat) }

def writeSpace : ℤ :=
  let w := B.writePtr
  let r := B.readPtr
  if w > r then B.masked (r - w + B.size) - 1
  else if w < r then r - w - 1
  else B.size - 1

/-- The elements that can be read from position `r` on. -/
def readSpaceFrom (r : ℤ) : ℤ :=
  let w := B.writePtr
  if w ≥ r then w - r else B.masked (w - r + B.size)

def readSpace : ℤ := B.readSpaceFrom B.readPtr

/-- How `cnt` elements from a position on are split at the end of the array. -/
def split (priv_ptr cnt : ℤ) : ℤ × ℤ :=
  let cnt2 := priv_ptr + cnt
  if cnt2 > B.size then (B.size - priv_ptr, B.masked cnt2) else (cnt, 0)

/-- The new position, the elements and their number. -/
def readFrom (priv_read_ptr cnt : ℤ) : ℤ × List α × ℤ :=
  let free_cnt := B.readSpaceFrom priv_read_ptr
  if free_cnt = 0 then (priv_read_ptr, [], 0)
  else
    let to_read := if cnt > free_cnt then free_cnt else cnt
    let (n1, n2) := B.split priv_read_ptr to_read
    let dest := B.copyOut priv_read_ptr n1
    if n2 ≠ 0 then (n2, dest ++ B.copyOut 0 n2, to_read)
    else (B.masked (priv_read_ptr + n1), dest, to_read)

def read (cnt : ℤ) : RingBuffer α × List α × ℤ :=
  let (read_ptr, dest, to_read) := B.readFrom B.readPtr cnt
  ({ B with readPtr := read_ptr }, dest, to_read)

def write (src : List α) : RingBuffer α × ℤ :=
  let cnt : ℤ := src.length
  let free_cnt := B.writeSpace
  if free_cnt = 0 then (B, 0)
  else
    let to_write := if cnt > free_cnt then free_cnt else cnt
    let (n1, n2) := B.split B.writePtr to_write
    let B' := B.copyIn B.writePtr src n1
    if n2 ≠ 0 then ({ B'.copyIn 0 (src.drop n1.toNat) n2 with writePtr := n2 }, to_write)
    else ({ B' with writePtr := B.masked (B.writePtr + n1) }, to_write)

def push (src : α) : RingBuffer α × ℤ := B.write [src]

def pop : RingBuffer α × List α × ℤ := B.read 1

/-! ## The wrap area

The elements beyond the size are a copy of the first ones, so that a reader
may go on in one piece at the end of the array. -/

def init : RingBuffer α := { B with writePtr := 0, readPtr := 0 }

def incrementReadPtr (cnt : ℤ) : RingBuffer α := { B with readPtr := B.masked (B.readPtr + cnt) }

/-- What was written into the wrap area is copied to the beginning. -/
def incrementWritePtrWithWrap (cnt : ℤ) : RingBuffer α :=
  let w := B.writePtr + cnt
  if w ≥ B.size then
    let w := w - B.size
    { B.copyIn 0 (B.copyOut B.size w) w with writePtr := w }
  else { B with writePtr := w }

def writeSpaceToEndWithWrap : ℤ :=
  let w := B.writePtr
  let r := B.readPtr
  if r > w then r - w - 1
  else if r ≤ B.wrapElements then B.size - w - 1
  else if r ≠ 0 then B.size - w + B.wrapElements
  else B.size - w - 1 + B.wrapElements

def adjustWriteSpaceToAvoidBoundary (cnt capped_cnt : ℤ) : ℤ :=
  let w := B.writePtr
  if w + capped_cnt ≥ B.size ∧ w + capped_cnt < B.size + B.wrapElements then cnt else capped_cnt

/-! ## NonVolatileReader

A reader is its position `read_ptr`. -/

namespace NonVolatileReader

def readSpace (read_ptr : ℤ) : ℤ := B.readSpaceFrom read_ptr

/-- `operator--` -/
def dec (read_ptr : ℤ) : ℤ :=
  if read_ptr = B.readPtr then read_ptr else B.masked (read_ptr - 1)

/-- `operator+=` -/
def add (read_ptr n : ℤ) : ℤ :=
  if readSpace B read_ptr < n then read_ptr else B.masked (read_ptr + n)

/-- `T* pop()`: the new position and the element pointed to. -/
def pop (read_ptr : ℤ) : ℤ × Option α :=
  if readSpace B read_ptr = 0 then (read_ptr, none)
  else (B.masked (read_ptr + 1), some (B.buf read_ptr))

def read (read_ptr cnt : ℤ) : ℤ × List α × ℤ := B.readFrom read_ptr cnt

def free (read_ptr : ℤ) : RingBuffer α := { B with readPtr := read_ptr }

end NonVolatileReader

def getNonVolatileReader : ℤ := B.readPtr

/-- The elements that are to be read. -/
def contents : List α := (B.readFrom B.readPtr B.readSpace).2.1

/-! ## Sizes -/

/-- The size is a power of two and the mask has its lower bits. -/
structure Sized (B : RingBuffer α) : Prop where
  pow : ∃ k : ℕ, B.size = 2 ^ k
  mask : B.sizeMask = B.size - 1

theorem Sized.size_pos {B : RingBuffer α} (h : B.Sized) : 0 < B.size := by
  obtain ⟨k, hk⟩ := h.pow
  rw [hk]
  positivity

theorem Sized.masked_eq {B : RingBuffer α} (h : B.Sized) (x : ℤ) : B.masked x = x % B.size := by
  obtain ⟨k, hk⟩ := h.pow
  rw [masked, h.mask, hk, land_two_pow_sub_one]

theorem create_sized (sz wrap_elements : ℤ) (buf : ℤ → α) :
    (create sz wrap_elements buf).Sized :=
  ⟨⟨_, rfl⟩, rfl⟩

theorem le_two_pow_powerOfTwo (sz : ℤ) (p : ℕ) : sz ≤ 2 ^ powerOfTwo sz p := by
  induction p using powerOfTwo.induct sz with
  | case1 p h ih =>
      rw [powerOfTwo, if_pos h]
      exact ih
  | case2 p h =>
      rw [powerOfTwo, if_neg h]
      exact not_lt.mp h

theorem le_create_size (sz wrap_elements : ℤ) (buf : ℤ → α) :
    sz + wrap_elements ≤ (create sz wrap_elements buf).size :=
  le_two_pow_powerOfTwo _ _

end RingBuffer

end LinuxSampler
