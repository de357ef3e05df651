import Mathlib.Algebra.Group.Nat.Defs
import Mathlib.Data.List.Nodup

/-!
# SynchronizedConfig

Two instances of a configuration: one thread updates one of them while
the others read the other one. The writer switches the index, notes which
readers are locked, and waits until each of them has unlocked since. Each
action is one atomic step of one thread; a run is any sequence of them.
-/

namespace LinuxSampler

/-- Where a reader is: outside, between the store of its lock and the load of
the index in `Lock()`, or inside with the instance it got. -/
inductive ReaderPc where
  | unlocked
  | locking
  | holding (index : Bool)
deriving DecidableEq

/-- Where the writer is. `walking` has the local variables of the inner loop;
the address of `lockingReaders` is `none`, that of `q->next` is `some q`. -/
inductive WriterPc (ρ T : Type*) where
  | idle
  | scanning (iter : List ρ)
  | testing
  | walking (prev p : Option ρ)
  | assigning (clone : T)

/-- The indices 0 and 1 are `false` and `true`. The lock counters are `int`s
modulo `2 ^ 32`. `clone` is the local variable of `endSync()`. -/
structure SyncConfig (ρ T : Type*) where
  indexAtomic : Bool
  updateIndex : Bool
  config : Bool → T
  lockCount : ρ → ℕ
  lock : ρ → ℕ
  prevLock : ρ → ℕ
  next : ρ → Option ρ
  lockingReaders : Option ρ
  clone : Option T
  reader : ρ → ReaderPc
  writer : WriterPc ρ T

/-- The set `readers` in the order of its iteration. -/
structure ReaderSet (ρ : Type*) where
  list : List ρ
  nodup : list.Nodup
  complete : ∀ r, r ∈ list

namespace SyncConfig

variable {ρ T : Type*} [DecidableEq ρ]

inductive Action (ρ T : Type*) where
  | lock (r : ρ)
  | load (r : ρ)
  | unlock (r : ρ)
  | update (f : T → T)
  | switchConfig
  | endSync
  | writer

omit [DecidableEq ρ] in
/-- Both instances are constructed alike, or not. -/
def init (config : Bool → T) : SyncConfig ρ T where
  indexAtomic := false
  updateIndex := true
  config := config
  lockCount := fun _ => 1
  lock := fun _ => 0
  prevLock := fun _ => 0
  next := fun _ => none
  lockingReaders := none
  clone := none
  reader := fun _ => .unlocked
  writer := .idle

/-! ## Readers -/

/-- `lock.store(lockCount += 2)` -/
def storeLock (S : SyncConfig ρ T) (r : ρ) : SyncConfig ρ T :=
  let lockCount := (S.lockCount r + 2) % 2 ^ 32
  { S with
    lockCount := Function.update S.lockCount r lockCount
    lock := Function.update S.lock r lockCount
    reader := Function.update S.reader r .locking }

/-- `parent->config[parent->indexAtomic.load()]` -/
def loadIndex (S : SyncConfig ρ T) (r : ρ) : SyncConfig ρ T :=
  { S with reader := Function.update S.reader r (.holding S.indexAtomic) }

def unlock (S : SyncConfig ρ T) (r : ρ) : SyncConfig ρ T :=
  { S with
    lock := Function.update S.lock r 0
    reader := Function.update S.reader r .unlocked }

/-! ## Writer -/

/-- What the writer does with the instance that `GetConfigForUpdate()` or
`SwitchConfig()` gave it. -/
def update (S : SyncConfig ρ T) (f : T → T) : SyncConfig ρ T :=
  { S with config := Function.update S.config S.updateIndex (f (S.config S.updateIndex)) }

/-- `SwitchConfig()` up to the store of the index. -/
def storeIndex (readers : ReaderSet ρ) (S : SyncConfig ρ T) : SyncConfig ρ T :=
  { S with
    indexAtomic := S.updateIndex
    lockingReaders := none
    writer := .scanning readers.list }

/-- One reader is put in the linked list if it is locked. -/
def scan (S : SyncConfig ρ T) (r : ρ) (iter : List ρ) : SyncConfig ρ T :=
  let S := { S with prevLock := Function.update S.prevLock r (S.lock r), writer := .scanning iter }
  if S.prevLock r ≠ 0 then
    { S with next := Function.update S.next r S.lockingReaders, lockingReaders := some r }
  else S

/-- `*prev = q` -/
def storePrev (S : SyncConfig ρ T) (prev q : Option ρ) : SyncConfig ρ T :=
  match prev with
  | none => { S with lockingReaders := q }
  | some x => { S with next := Function.update S.next x q }

/-- The body of the inner loop for the reader `p`. -/
def walk (S : SyncConfig ρ T) (prev : Option ρ) (p : ρ) : SyncConfig ρ T :=
  if S.lock p = S.prevLock p then { S with writer := .walking (some p) (S.next p) }
  else
    let S := S.storePrev prev (S.next p)
    { S with writer := .walking prev (S.next p) }

/-- The index is switched and the other instance returned. -/
def finish (S : SyncConfig ρ T) : SyncConfig ρ T :=
  { S with
    updateIndex := !S.updateIndex
    writer :=
      match S.clone with
      | none => .idle
      | some clone => .assigning clone }

def writerStep (S : SyncConfig ρ T) : Option (SyncConfig ρ T) :=
  match S.writer with
  | .idle => none
  | .scanning [] => some { S with writer := .testing }
  | .scanning (r :: iter) => some (S.scan r iter)
  | .testing =>
      match S.lockingReaders with
      | none => some S.finish
      | some r => some { S with writer := .walking none (some r) }
  | .walking _ none => some { S with writer := .testing }
  | .walking prev (some p) => some (S.walk prev p)
  | .assigning clone => some { S.update fun _ => clone with clone := none, writer := .idle }

def isIdle (S : SyncConfig ρ T) : Bool :=
  match S.writer with
  | .idle => true
  | _ => false

def step (readers : ReaderSet ρ) (S : SyncConfig ρ T) : Action ρ T → Option (SyncConfig ρ T)
  | .lock r => if S.reader r = .unlocked then some (S.storeLock r) else none
  | .load r => if S.reader r = .locking then some (S.loadIndex r) else none
  | .unlock r =>
      match S.reader r with
      | .holding _ => some (S.unlock r)
      | _ => none
  | .update f => if S.isIdle then some (S.update f) else none
  | .switchConfig => if S.isIdle then some { S.storeIndex readers with clone := none } else none
  | .endSync =>
      if S.isIdle then some { S.storeIndex readers with clone := some (S.config S.updateIndex) }
      else none
  | .writer => S.writerStep

def run (readers : ReaderSet ρ) : List (Action ρ T) → SyncConfig ρ T → Option (SyncConfig ρ T)
  | [], S => some S
  | action :: actions, S => do
      let S ← S.step readers action
      run readers actions S

end SyncConfig

end LinuxSampler
