import LinuxSampler.RingBuffer

/-!
# Stream

A disk stream: the disk thread fills its ring buffer with sample data, and
the voice reads it in one piece from the read position on. When the end of
the sample is reached, the voice adds silence for what it reads beyond it.
Each action is a step of one of the two threads; all amounts are in elements
of the ring buffer.
-/

namespace LinuxSampler

inductive StreamState where
  | unused
  | active
  | ended
deriving DecidableEq

/-- Where the disk thread is: it has asked for the amount to read, or `Read()`
has stored the data and the write position is still to be incremented. -/
inductive Refill (α : Type*) where
  | idle
  | asked (readAmount : ℤ)
  | stored (data : List α) (endOfSampleReached : Bool)
deriving DecidableEq

/-- `produced` are the data and the silence since the launch, of which the
first `consumed` were read. -/
structure DiskStream (α : Type*) where
  ringBuffer : RingBuffer α
  state : StreamState
  refill : Refill α
  produced : List α
  consumed : ℕ

namespace DiskStream

inductive Action (α : Type*) where
  | launch
  | refill
  | read (data : List α) (endOfSampleReached : Bool)
  | increment
  | writeSilence (maxSampleWordsPerCycle : ℤ)
  | incrementReadPos (count : ℕ)

variable {α : Type*}

/-- The constructor. The elements have no value yet. -/
def create (bufferSize bufferWrapElements : ℤ) (buf : ℤ → α) : DiskStream α where
  ringBuffer := .create bufferSize bufferWrapElements buf
  state := .unused
  refill := .idle
  produced := []
  consumed := 0

/-! ## The disk thread -/

/-- `RefillStreams()` up to the call of `ReadAhead()`. -/
def askRefill (maxRefillSize : ℕ) (S : DiskStream α) : DiskStream α :=
  let writespace := S.ringBuffer.writeSpaceToEndWithWrap
  if writespace = 0 then S
  else
    let capped_writespace := if writespace > maxRefillSize then (maxRefillSize : ℤ) else writespace
    { S with
      refill := .asked
        (S.ringBuffer.adjustWriteSpaceToAvoidBoundary writespace capped_writespace) }

/-- `ReadAhead()` up to the return of `Read()`, which stores all it was asked
for unless it reaches the end of the sample. -/
def readAhead (S : DiskStream α) (sampleCount : ℤ) (data : List α) (endOfSampleReached : Bool) :
    Option (DiskStream α) :=
  if sampleCount = 0 ∨ S.ringBuffer.writeSpace = 0 then some { S with refill := .idle }
  else if data.length = sampleCount ∨ data.length < sampleCount ∧ endOfSampleReached then
    some { S with
      ringBuffer := S.ringBuffer.copyIn S.ringBuffer.writePtr data data.length
      refill := .stored data endOfSampleReached }
  else none

/-- The rest of `ReadAhead()`. The new state counts from here on. -/
def incrementWritePtr (S : DiskStream α) (data : List α) (endOfSampleReached : Bool) :
    DiskStream α :=
  { S with
    ringBuffer := S.ringBuffer.incrementWritePtrWithWrap data.length
    state := if endOfSampleReached then .ended else .active
    refill := .idle
    produced := S.produced ++ data }

/-! ## The voice -/

/-- `WriteSilence()` -/
def writeSilence (silence : α) (S : DiskStream α) (silenceSampleWords : ℤ) : DiskStream α :=
  let data := List.replicate silenceSampleWords.toNat silence
  { S with
    ringBuffer := (S.ringBuffer.copyIn S.ringBuffer.writePtr data
      silenceSampleWords).incrementWritePtrWithWrap silenceSampleWords
    produced := S.produced ++ data }

/-- At the end of the stream the voice adds silence if less is left to read
than a cycle may need. -/
def addSilence (silence : α) (S : DiskStream α) (maxSampleWordsPerCycle : ℤ) : DiskStream α :=
  let sampleWordsLeftToRead := S.ringBuffer.readSpace
  if sampleWordsLeftToRead < maxSampleWordsPerCycle then
    S.writeSilence silence (maxSampleWordsPerCycle - sampleWordsLeftToRead)
  else S

def reset (S : DiskStream α) : DiskStream α :=
  { S with
    ringBuffer := S.ringBuffer.init
    state := .unused
    produced := []
    consumed := 0 }

def incrementReadPos (S : DiskStream α) (count : ℕ) : DiskStream α :=
  let leftspace := S.ringBuffer.readSpace.toNat
  let S' := { S with
    ringBuffer := S.ringBuffer.incrementReadPtr (min count leftspace : ℕ)
    consumed := S.consumed + min count leftspace }
  if S.state = .ended ∧ count ≥ leftspace then S'.reset else S'

/-! ## Runs -/

def step (maxRefillSize : ℕ) (silence : α) (S : DiskStream α) : Action α → Option (DiskStream α)
  | .launch => if S.state = .unused then some { S with state := .active } else none
  | .refill =>
      match S.refill with
      | .idle => if S.state = .active then some (S.askRefill maxRefillSize) else none
      | _ => none
  | .read data endOfSampleReached =>
      match S.refill with
      | .asked readAmount => S.readAhead readAmount data endOfSampleReached
      | _ => none
  | .increment =>
      match S.refill with
      | .stored data endOfSampleReached => some (S.incrementWritePtr data endOfSampleReached)
      | _ => none
  | .writeSilence maxSampleWordsPerCycle =>
      if S.state = .ended ∧ maxSampleWordsPerCycle ≤ S.ringBuffer.wrapElements then
        some (S.addSilence silence maxSampleWordsPerCycle)
      else none
  | .incrementReadPos count => some (S.incrementReadPos count)

def run (maxRefillSize : ℕ) (silence : α) : DiskStream α → List (Action α) → Option (DiskStream α)
  | S, [] => some S
  | S, action :: actions => do
      let S ← S.step maxRefillSize silence action
      run maxRefillSize silence S actions

end DiskStream

end LinuxSampler
