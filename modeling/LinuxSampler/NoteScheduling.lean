import LinuxSampler.DelayedRun

/-!
# Scheduling a note

`ScheduleNoteMicroSec()` takes an event and a scheduler node, then a note,
and a note ID if the new note is a child of another one. The first two are
taken by `ScheduleEventMicroSec()` and the last two by `LaunchNewNote()`, and
each of the four pools may be empty.
-/

namespace LinuxSampler

/-- The lists that allocate from the pool of note IDs. -/
inductive NoteIDList where
  | pool
  /-- `pChildNotes` of a note -/
  | pChildNotes (note : ℕ)
deriving DecidableEq

/-- An engine with the pool of the IDs that its notes have of their children. -/
structure SchedulingEngine (C δ : Type) extends EventEngine C δ where
  noteIDPool : Pool NoteIDList
  childNoteID : ℕ → ℕ

namespace SchedulingEngine

variable {C δ : Type} [DecidableEq C] (S : SchedulingEngine C δ) (parentNoteID : δ → ℕ)

def setNote (k : ℕ) (note : LaunchedNote) : SchedulingEngine C δ :=
  { S with note := Function.update S.note k note }

/-- The event ID is zero where the event cannot be scheduled. -/
def scheduleEventMicroSec (c : C) (pEvent : Event δ) (delay : ℤ) :
    Option (SchedulingEngine C δ × ℕ) := do
  let (engine, id) ← S.toEventEngine.scheduleEventMicroSec c pEvent delay
  return ({ S with toEventEngine := engine }, id)

/-- The new note becomes a child of the note that the event asks for, on the
key of its parent. It is false if there is no such note, or no note ID. -/
def linkParent (k newNoteID parentNoteID : ℕ) : SchedulingEngine C δ × Bool :=
  if parentNoteID = 0 then (S, true)
  else
    match (S.pNotePool.fromID parentNoteID).index with
    | none => (S, false)
    | some p =>
        let (noteIDPool, itChildNoteID) := S.noteIDPool.allocAppend (.pChildNotes p)
        let S := { S with noteIDPool := noteIDPool }
        match itChildNoteID.index with
        | none => (S, false)
        | some j =>
            let S := { S with childNoteID := Function.update S.childNoteID j newNoteID }
            let note := { S.note k with
              parentNoteID := parentNoteID
              hostKey := (S.note p).hostKey }
            (S.setNote k note, true)

/-- The new note moves to its host key, and the event gets its ID. -/
def moveLaunched (c : C) (n k newNoteID : ℕ) (itNewNote : Iterator (NoteList C)) :
    SchedulingEngine C δ :=
  let S := S.setNote k { S.note k with eventID := S.pEventPool.getID n }
  let list := .activeNotes c (S.note k).hostKey
  let S := { S with pNotePool := (S.pNotePool.moveToEndOf itNewNote list).1 }
  { S with event := Function.update S.event n { S.event n with noteID := newNoteID } }

/-- The note ID is zero where no note is launched. -/
def launchNewNote (c : C) (n : ℕ) : SchedulingEngine C δ × ℕ :=
  if S.pNotePool.poolIsEmpty then (S, 0)
  else
    let (pNotePool, itNewNote) := S.pNotePool.allocAppend .pool
    let S := { S with pNotePool := pNotePool }
    match itNewNote.index with
    | none => (S, 0)
    | some k =>
        let newNoteID := S.pNotePool.getID k
        let S := S.setNote k { S.note k with hostKey := (S.event n).key }
        let (S, linked) := S.linkParent k newNoteID (parentNoteID (S.event n).param)
        if linked then (S.moveLaunched c n k newNoteID itNewNote, newNoteID)
        else ({ S with pNotePool := (S.pNotePool.free itNewNote).1 }, 0)

/-- The note ID is zero where the event is not scheduled, and also where it is
scheduled without a note. -/
def scheduleNoteMicroSec (c : C) (pEvent : Event δ) (delay : ℤ) :
    Option (SchedulingEngine C δ × ℕ) := do
  let (S, noteOnEventID) ← S.scheduleEventMicroSec c pEvent delay
  if noteOnEventID = 0 then return (S, 0)
  else
    let n ← (S.pEventPool.fromID noteOnEventID).index
    return S.launchNewNote parentNoteID c n

end SchedulingEngine

/-! ## What a call takes -/

/-- The nodes in the queue, oldest first. -/
def DelayedEvents.Queued {C : Type} (D : DelayedEvents C) (pending : List ℕ) : Prop :=
  ∃ t, RTAVLTree.Holds D.scheduleTime true D.queue t pending

/-- An event cannot be scheduled. -/
def EventEngine.LacksEvent {C δ : Type} [DecidableEq C] (S : EventEngine C δ) (c : C) : Prop :=
  S.pEventPool.poolIsEmpty = true ∨ (S.delayedEvents c).schedulerNodes.poolIsEmpty = true

/-- What a call that fails should leave alone. -/
structure NoteResources (C : Type) where
  delayedList : C → List ℕ
  /-- the queues, with their nodes -/
  delayedEvents : C → DelayedEvents C
  freeEvents : ℕ
  freeNodes : C → ℕ
  freeNotes : ℕ
  freeNoteIDs : ℕ
  pChildNotes : ℕ → List ℕ
  pActiveNotes : C → ℕ → List ℕ

namespace SchedulingEngine

variable {C δ : Type}

/-- The IDs on the list of a note. -/
def pChildNotes (S : SchedulingEngine C δ) (k : ℕ) : List ℕ :=
  (S.noteIDPool.elements (.rtlist (.pChildNotes k))).map S.childNoteID

def resources (S : SchedulingEngine C δ) : NoteResources C where
  delayedList := S.delayedList
  delayedEvents := S.delayedEvents
  freeEvents := S.pEventPool.available
  freeNodes c := (S.delayedEvents c).schedulerNodes.available
  freeNotes := S.pNotePool.available
  freeNoteIDs := S.noteIDPool.available
  pChildNotes := S.pChildNotes
  pActiveNotes c key := S.pNotePool.elements (.rtlist (.activeNotes c key))

/-- The event `n` waits, the node `m` refers to it, and it has the ID of the
note `k`. -/
structure Adds (S : SchedulingEngine C δ) (c : C) (id n m k key : ℕ)
    (S' : SchedulingEngine C δ) : Prop where
  event : S.pEventPool.Takes (.delayed c) n S'.pEventPool
  node : (S.delayedEvents c).schedulerNodes.Takes () m (S'.delayedEvents c).schedulerNodes
  note : S.pNotePool.Takes (.activeNotes c key) k S'.pNotePool
  queue : ∃ pending, (S.delayedEvents c).Queued pending ∧
    (S'.delayedEvents c).Queued (pending ++ [m])
  channels : ∀ c', c' ≠ c → S'.delayedEvents c' = S.delayedEvents c'
  target : (S'.delayedEvents c).target m = some n
  noteID : (S'.event n).noteID = id
  fromID : (S'.pNotePool.fromID id).index = some k

variable [DecidableEq C] (parentNoteID : δ → ℕ)

/-- Either nothing is taken, or an event, a node and a note are. -/
def Atomic (S : SchedulingEngine C δ) (c : C) (pEvent : Event δ) (delay : ℤ) : Prop :=
  ∃ S' id, S.scheduleNoteMicroSec parentNoteID c pEvent delay = some (S', id) ∧
    (id = 0 → S'.resources = S.resources) ∧
    (id ≠ 0 → ∃ n m k key, S.Adds c id n m k key S')

/-- The note with that ID can have another child. Zero stands for no parent. -/
def CanLink (S : SchedulingEngine C δ) (parentNoteID : ℕ) : Prop :=
  parentNoteID ≠ 0 →
    (S.pNotePool.fromID parentNoteID).hasData = true ∧ S.noteIDPool.poolIsEmpty = false

def CanLaunch (S : SchedulingEngine C δ) (parentNoteID : ℕ) : Prop :=
  S.pNotePool.poolIsEmpty = false ∧ S.CanLink parentNoteID

end SchedulingEngine

end LinuxSampler
