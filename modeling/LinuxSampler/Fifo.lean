import Mathlib.Data.List.Basic
import Mathlib.Data.Int.Notation

/-!
# Bounded queues with readers

A queue of bounded capacity, with the history of what was taken out.
A reader has a position in the whole sequence; it reads ahead without
taking anything out, until it frees what it has read.
-/

namespace LinuxSampler

structure Fifo (α ρ : Type*) where
  consumed : List α
  stored : List α
  pos : ρ → ℕ

namespace Fifo

variable {α ρ : Type*} [DecidableEq ρ]

inductive Op (α ρ : Type*) where
  | write (src : List α)
  | push (src : α)
  | read (cnt : ℕ)
  | pop
  | getReader (reader : ρ)
  | readerRead (reader : ρ) (cnt : ℕ)
  | readerPop (reader : ρ)
  | readerDec (reader : ρ)
  | readerAdd (reader : ρ) (n : ℕ)
  | readerFree (reader : ρ)

inductive Out (α : Type*) where
  | unit
  | written (cnt : ℤ)
  | values (xs : List α) (cnt : ℤ)
  | element (x : Option α)
deriving DecidableEq

def empty : Fifo α ρ where
  consumed := []
  stored := []
  pos := fun _ => 0

/-- Everything that ever entered the queue. -/
def log (F : Fifo α ρ) : List α := F.consumed ++ F.stored

/-- The elements of the sequence from the reader's position on. -/
def ahead (F : Fifo α ρ) (reader : ρ) : List α := F.log.drop (F.pos reader)

def enqueue (F : Fifo α ρ) (xs : List α) : Fifo α ρ := { F with stored := F.stored ++ xs }

def dequeue (F : Fifo α ρ) (n : ℕ) : Fifo α ρ :=
  { F with consumed := F.consumed ++ F.stored.take n, stored := F.stored.drop n }

def moveReader (F : Fifo α ρ) (reader : ρ) (p : ℕ) : Fifo α ρ :=
  { F with pos := Function.update F.pos reader p }

def step (capacity : ℕ) (F : Fifo α ρ) : Op α ρ → Fifo α ρ × Out α
  | .write src =>
      let xs := src.take (capacity - F.stored.length)
      (F.enqueue xs, .written xs.length)
  | .push src =>
      let xs := [src].take (capacity - F.stored.length)
      (F.enqueue xs, .written xs.length)
  | .read cnt => (F.dequeue cnt, .values (F.stored.take cnt) (F.stored.take cnt).length)
  | .pop => (F.dequeue 1, .values (F.stored.take 1) (F.stored.take 1).length)
  | .getReader reader => (F.moveReader reader F.consumed.length, .unit)
  | .readerRead reader cnt =>
      let xs := (F.ahead reader).take cnt
      (F.moveReader reader (F.pos reader + xs.length), .values xs xs.length)
  | .readerPop reader =>
      let x := (F.ahead reader).head?
      (F.moveReader reader (F.pos reader + x.toList.length), .element x)
  | .readerDec reader =>
      (F.moveReader reader (if F.pos reader = F.consumed.length then F.pos reader
        else F.pos reader - 1), .unit)
  | .readerAdd reader n =>
      (F.moveReader reader (if (F.ahead reader).length < n then F.pos reader
        else F.pos reader + n), .unit)
  | .readerFree reader => (F.dequeue (F.pos reader - F.consumed.length), .unit)

/-- A reader is used only as long as nothing after its position was taken
out. -/
def Op.Valid (F : Fifo α ρ) : Op α ρ → Prop
  | .readerRead reader _ | .readerPop reader | .readerDec reader | .readerAdd reader _
  | .readerFree reader => F.consumed.length ≤ F.pos reader
  | _ => True

def run (capacity : ℕ) : List (Op α ρ) → Fifo α ρ → Fifo α ρ × List (Out α)
  | [], F => (F, [])
  | op :: ops, F =>
      let (F, out) := F.step capacity op
      let (F, outs) := run capacity ops F
      (F, out :: outs)

def ValidRun (capacity : ℕ) : List (Op α ρ) → Fifo α ρ → Prop
  | [], _ => True
  | op :: ops, F => op.Valid F ∧ ValidRun capacity ops (F.step capacity op).1

instance (F : Fifo α ρ) : DecidablePred (Op.Valid F)
  | .readerRead reader _ | .readerPop reader | .readerDec reader | .readerAdd reader _
  | .readerFree reader => inferInstanceAs (Decidable (F.consumed.length ≤ F.pos reader))
  | .write _ | .push _ | .read _ | .pop | .getReader _ => inferInstanceAs (Decidable True)

instance decidableValidRun (capacity : ℕ) : ∀ (ops : List (Op α ρ)) (F : Fifo α ρ),
    Decidable (ValidRun capacity ops F)
  | [], _ => inferInstanceAs (Decidable True)
  | op :: ops, F =>
      have := decidableValidRun capacity ops (F.step capacity op).1
      inferInstanceAs (Decidable (op.Valid F ∧ ValidRun capacity ops (F.step capacity op).1))

/-! ## Histories -/

section History

variable {F : Fifo α ρ} {xs : List α} {n : ℕ}

omit [DecidableEq ρ] in
@[simp] theorem enqueue_log : (F.enqueue xs).log = F.log ++ xs := by
  simp [enqueue, log]

omit [DecidableEq ρ] in
@[simp] theorem dequeue_log : (F.dequeue n).log = F.log := by
  simp [dequeue, log]

omit [DecidableEq ρ] in
@[simp] theorem length_log : F.log.length = F.consumed.length + F.stored.length :=
  List.length_append

omit [DecidableEq ρ] in
theorem drop_consumed : F.log.drop F.consumed.length = F.stored :=
  List.drop_left

/-- What an operation adds to the sequence. -/
def Op.accepted (capacity : ℕ) (F : Fifo α ρ) : Op α ρ → List α
  | .write src => src.take (capacity - F.stored.length)
  | .push src => [src].take (capacity - F.stored.length)
  | _ => []

/-- The sequence only grows at its end, by what was accepted, and what was
taken out is always its beginning: nothing is lost, doubled or reordered. -/
theorem step_log (capacity : ℕ) (F : Fifo α ρ) (op : Op α ρ) :
    (F.step capacity op).1.log = F.log ++ op.accepted capacity F ∧
      F.consumed <+: (F.step capacity op).1.consumed := by
  cases op with
  | write src => exact ⟨enqueue_log, List.prefix_rfl⟩
  | push src => exact ⟨enqueue_log, List.prefix_rfl⟩
  | read cnt => exact ⟨by simp [step, Op.accepted], List.prefix_append _ _⟩
  | pop => exact ⟨by simp [step, Op.accepted], List.prefix_append _ _⟩
  | readerFree reader => exact ⟨by simp [step, Op.accepted], List.prefix_append _ _⟩
  | _ => exact ⟨(List.append_nil _).symm, List.prefix_rfl⟩

/-- Everything that a run lets enter the queue, in order. -/
def accepted (capacity : ℕ) : List (Op α ρ) → Fifo α ρ → List α
  | [], _ => []
  | op :: ops, F => op.accepted capacity F ++ accepted capacity ops (F.step capacity op).1

theorem run_log (capacity : ℕ) (ops : List (Op α ρ)) (F : Fifo α ρ) :
    (run capacity ops F).1.log = F.log ++ accepted capacity ops F ∧
      F.consumed <+: (run capacity ops F).1.consumed := by
  induction ops generalizing F with
  | nil => exact ⟨(List.append_nil _).symm, List.prefix_rfl⟩
  | cons op ops ih =>
      obtain ⟨hlog, hprefix⟩ := step_log capacity F op
      obtain ⟨hlog', hprefix'⟩ := ih (F.step capacity op).1
      refine ⟨?_, hprefix.trans hprefix'⟩
      rw [accepted, ← List.append_assoc, ← hlog]
      exact hlog'

end History

end Fifo

end LinuxSampler
