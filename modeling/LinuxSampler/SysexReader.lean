import LinuxSampler.RingBufferFifo
import LinuxSampler.SysexEngine

/-!
# SysexReader

The bytes of a message are read through a non-volatile reader of the byte
buffer. The reader of the parameters counts what is left of the message
and keeps the address of the next byte. A read beyond the message would
return a byte of another one; here it is an error.
-/

namespace LinuxSampler

/-- The bytes that can be read: those of the message, and what was stored
after them. -/
structure ByteReader where
  message : List UInt8
  rest : List UInt8
deriving DecidableEq

namespace ByteReader

def readSpace (r : ByteReader) : ℕ := r.message.length + r.rest.length

/-- `T* pop()` -/
def pop (r : ByteReader) : Except Abort (Option UInt8 × ByteReader) :=
  match r.message, r.rest with
  | b :: message, rest => .ok (some b, ⟨message, rest⟩)
  | [], [] => .ok (none, r)
  | [], _ :: _ => .error .foreignByte

/-- `*reader.pop()` -/
def popByte (r : ByteReader) : Except Abort (UInt8 × ByteReader) := do
  match ← r.pop with
  | (some b, r) => .ok (b, r)
  | (none, _) => .error .nullDereference

/-- The elements that are read, `cnt` at most. -/
def read (r : ByteReader) (cnt : ℕ) : Except Abort (List UInt8 × ByteReader) :=
  let to_read := if cnt > r.readSpace then r.readSpace else cnt
  if to_read > r.message.length then .error .foreignByte
  else .ok (r.message.take to_read, ⟨r.message.drop to_read, r.rest⟩)

/-- `operator+=` -/
def add (r : ByteReader) (n : ℕ) : ByteReader :=
  if r.readSpace < n then r else ⟨r.message.drop n, r.rest.drop (n - r.message.length)⟩

end ByteReader

/-! ## The reader of the parameters -/

structure SysexReader where
  address : ℕ
  left : ℤ
  reader : ByteReader

namespace SysexReader

/-- The constructor. Without an address nothing is left. -/
def create (reader : ByteReader) (length : ℤ) : Except Abort SysexReader := do
  match ← reader.read 3 with
  | ([a, b, c], reader) =>
      .ok ⟨(a.toNat % 128) * 2 ^ 14 + (b.toNat % 128) * 2 ^ 7 + c.toNat % 128, length - 3, reader⟩
  | (_, reader) => .ok ⟨0, -1, reader⟩

/-- `operator bool` -/
def toBool (s : SysexReader) : Bool := 0 < s.left

def index (s : SysexReader) : ℕ := s.address % 128

def middle (s : SysexReader) : ℕ := s.address / 128 % 128

/-- `operator++` -/
def inc (s : SysexReader) : SysexReader :=
  if 0 < s.left then ⟨s.address + 1, s.left - 1, s.reader.add 1⟩ else s

/-- `operator+=` -/
def add (s : SysexReader) (delta : ℕ) : SysexReader :=
  if s.left ≥ delta then ⟨s.address + delta, s.left - delta, s.reader.add delta⟩
  else { s with left := 0 }

def available (s : SysexReader) : ℤ := s.left

/-- `*sysex.pop()` -/
def pop (s : SysexReader) : Except Abort (UInt8 × SysexReader) :=
  if 0 < s.left then do
    let (b, reader) ← s.reader.popByte
    .ok (b, ⟨s.address + 1, s.left - 1, reader⟩)
  else .error .nullDereference

/-- `read()`. As an unsigned number, a negative count is greater than what
is left. The bytes are there when the read succeeds. -/
def read (s : SysexReader) (count : ℤ) : Except Abort (Option (List UInt8) × SysexReader) :=
  if 0 ≤ count ∧ s.left ≥ count then do
    let (bytes, reader) ← s.reader.read count.toNat
    if count = bytes.length then
      .ok (some bytes, ⟨s.address + count.toNat, s.left - count, reader⟩)
    else .ok (none, { s with left := 0, reader := reader })
  else .ok (none, s)

/-! ## What is left of the message -/

/-- The reader is at `address`, and `data` are the bytes it counts as left. -/
structure Has (s : SysexReader) (address : ℕ) (data : List UInt8) : Prop where
  address_eq : s.address = address
  left_eq : s.left = data.length
  message_eq : ∃ tail, s.reader.message = data ++ tail

namespace Has

variable {s : SysexReader} {a : ℕ} {b : UInt8} {data : List UInt8}

theorem toBool_eq (h : s.Has a data) : s.toBool = decide (data ≠ []) := by
  rw [toBool, h.left_eq, decide_eq_decide, Nat.cast_pos, List.length_pos_iff]

theorem toBool_cons (h : s.Has a (b :: data)) : s.toBool = true := by
  rw [h.toBool_eq]
  rfl

theorem toBool_nil (h : s.Has a []) : s.toBool = false := by
  rw [h.toBool_eq]
  rfl

theorem index_eq (h : s.Has a data) : s.index = a % 128 := by
  rw [index, h.address_eq]

theorem middle_eq (h : s.Has a data) : s.middle = a / 128 % 128 := by
  rw [middle, h.address_eq]

theorem left_pos (h : s.Has a (b :: data)) : 0 < s.left := by
  rw [h.left_eq, List.length_cons]
  omega

theorem pop (h : s.Has a (b :: data)) : ∃ s', s.pop = .ok (b, s') ∧ s'.Has (a + 1) data := by
  obtain ⟨tail, hmessage⟩ := h.message_eq
  refine ⟨⟨s.address + 1, s.left - 1, ⟨data ++ tail, s.reader.rest⟩⟩, ?_, ?_⟩
  · simp only [SysexReader.pop, if_pos h.left_pos, ByteReader.popByte, ByteReader.pop, hmessage,
      List.cons_append, bind, Except.bind]
  · refine ⟨by rw [h.address_eq], ?_, tail, rfl⟩
    simp only [h.left_eq, List.length_cons, Nat.cast_add, Nat.cast_one, add_sub_cancel_right]

theorem drop_add (h : s.Has a data) {n : ℕ} (hn : n ≤ data.length) :
    ∃ tail, (s.reader.add n).message = data.drop n ++ tail := by
  obtain ⟨tail, hmessage⟩ := h.message_eq
  refine ⟨tail, ?_⟩
  rw [ByteReader.add, if_neg, hmessage]
  · exact List.drop_append_of_le_length hn
  · rw [ByteReader.readSpace, hmessage, List.length_append]
    omega

theorem add (h : s.Has a data) {n : ℕ} (hn : n ≤ data.length) :
    (s.add n).Has (a + n) (data.drop n) := by
  have hleft := h.left_eq
  rw [SysexReader.add, if_pos (by omega)]
  refine ⟨by rw [h.address_eq], ?_, h.drop_add hn⟩
  simp only [hleft, List.length_drop]
  omega

theorem add_over (h : s.Has a data) {n : ℕ} (hn : data.length < n) : (s.add n).Has a [] := by
  obtain ⟨tail, hmessage⟩ := h.message_eq
  have hleft := h.left_eq
  rw [SysexReader.add, if_neg (by omega)]
  exact ⟨h.address_eq, rfl, data ++ tail, hmessage⟩

theorem inc (h : s.Has a (b :: data)) : s.inc.Has (a + 1) data := by
  rw [SysexReader.inc, if_pos h.left_pos]
  refine ⟨by rw [h.address_eq], ?_, h.drop_add (n := 1) (by simp)⟩
  simp only [h.left_eq, List.length_cons, Nat.cast_add, Nat.cast_one, add_sub_cancel_right]

theorem read (h : s.Has a data) {n : ℕ} (hn : n ≤ data.length) :
    ∃ s', s.read n = .ok (some (data.take n), s') ∧ s'.Has (a + n) (data.drop n) := by
  obtain ⟨tail, hmessage⟩ := h.message_eq
  have hleft := h.left_eq
  have htake : (data ++ tail).take n = data.take n := List.take_append_of_le_length hn
  have hlen : (n : ℤ) = (data.take n).length := by
    rw [List.length_take, Nat.min_eq_left hn]
  refine ⟨⟨s.address + n, s.left - n, ⟨data.drop n ++ tail, s.reader.rest⟩⟩, ?_, ?_⟩
  · have hfit : ¬ n > s.reader.readSpace := by
      rw [ByteReader.readSpace, hmessage, List.length_append]
      omega
    have hown : ¬ n > (data ++ tail).length := by
      rw [List.length_append]
      omega
    rw [SysexReader.read, if_pos ⟨by omega, by omega⟩]
    simp only [ByteReader.read, Int.toNat_natCast, if_neg hfit, hmessage, if_neg hown, htake,
      bind, Except.bind, if_pos hlen, List.drop_append_of_le_length hn]
  · refine ⟨by rw [h.address_eq], ?_, tail, rfl⟩
    simp only [hleft, List.length_drop]
    omega

theorem read_short (h : s.Has a data) (count : ℤ) (hn : count < 0 ∨ data.length < count) :
    s.read count = .ok (none, s) := by
  have hleft := h.left_eq
  rw [SysexReader.read, if_neg (by omega)]

/-- Before the address, the message has bytes enough. -/
theorem create {r : ByteReader} {b₁ b₂ b₃ : UInt8} {tail : List UInt8}
    (hr : r.message = b₁ :: b₂ :: b₃ :: (data ++ tail)) :
    ∃ s, SysexReader.create r (data.length + 3) = .ok s ∧ s.Has
      ((b₁.toNat % 128) * 2 ^ 14 + (b₂.toNat % 128) * 2 ^ 7 + b₃.toNat % 128) data := by
  have hfit : ¬ 3 > r.readSpace := by
    simp [ByteReader.readSpace, hr]
    omega
  have hown : ¬ 3 > (b₁ :: b₂ :: b₃ :: (data ++ tail)).length := by
    simp
  refine ⟨⟨_, data.length + 3 - 3, ⟨data ++ tail, r.rest⟩⟩, ?_, ⟨rfl, by simp, tail, rfl⟩⟩
  simp only [SysexReader.create, ByteReader.read, if_neg hfit, hr, if_neg hown, bind, Except.bind,
    List.take_succ_cons, List.take_zero, List.drop_succ_cons, List.drop_zero]

end Has

end SysexReader

end LinuxSampler
