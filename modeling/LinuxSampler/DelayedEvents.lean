import LinuxSampler.ImportEvents
import LinuxSampler.RtAvlTree

/-!
# Delayed events

A script may send an event some time ahead. The event then waits on the
list of delayed events of its channel, and a node in a time-sorted queue
refers to it. Once it is due, the engine takes the node out of the queue
and moves the event to the events of the current fragment. The events of
all channels of an engine come from one pool, and so do their notes; each
channel has a pool of nodes of its own.
-/

namespace LinuxSampler

/-- The lists that allocate from the event pool of an engine; the pool is one
of them. -/
inductive EngineEventList (C : Type) where
  | pool
  | globalEvents
  | voiceStealingQueue
  /-- `pEvents` -/
  | events (channel : C)
  /-- `delayedEvents.pList` -/
  | delayed (channel : C)
  /-- `pMIDIKeyInfo[key].pEvents` -/
  | key (channel : C) (key : ℕ)
  /-- `ActiveKeyGroups[KeyGroup]` -/
  | keyGroup (channel : C) (KeyGroup : ℕ)
deriving DecidableEq

/-- The lists that allocate from the note pool of an engine. -/
inductive NoteList (C : Type) where
  | pool
  /-- `pMIDIKeyInfo[key].pActiveNotes` -/
  | activeNotes (channel : C) (key : ℕ)
deriving DecidableEq

structure ScheduledEvent (C : Type) where
  itEvent : Iterator (EngineEventList C)
  scheduleTime : ℕ

/-- The nodes of a channel and the queue they are sorted in. -/
structure DelayedEvents (C : Type) where
  schedulerNodes : Pool Unit
  node : ℕ → ScheduledEvent C
  queue : RTAVLTree ℕ

/-- A note, with the number of its active voices. -/
structure LaunchedNote where
  eventID : ℕ
  parentNoteID : ℕ
  hostKey : ℕ
  activeVoices : ℕ

/-- The times of the current fragment. `offset` is the length of a delay in
sample points. -/
structure EventGenerator where
  toFragmentPos : ℤ → ℤ
  offset : ℕ → ℕ
  uiSamplesProcessed : ℕ
  uiTotalSamplesProcessed : ℕ

structure EventEngine (C δ : Type) where
  pEventPool : Pool (EngineEventList C)
  event : ℕ → Event δ
  pNotePool : Pool (NoteList C)
  note : ℕ → LaunchedNote
  delayedEvents : C → DelayedEvents C
  pEventGenerator : EventGenerator

/-- Conversion to `int32_t`. -/
def toInt32 (z : ℤ) : ℤ := Int.bmod z (2 ^ 32)

def DelayedEvents.scheduleTime {C : Type} (D : DelayedEvents C) (m : ℕ) : ℕ :=
  (D.node m).scheduleTime

namespace EventGenerator

variable (G : EventGenerator)

def schedTimeAtCurrentFragmentEnd : ℕ :=
  (G.uiTotalSamplesProcessed + G.uiSamplesProcessed) % 2 ^ 64

/-- The time that `scheduleAheadMicroSec()` gives to a node. -/
def scheduleTime (fragmentPosBase : ℤ) (microseconds : ℕ) : ℕ :=
  ((G.uiTotalSamplesProcessed + fragmentPosBase + G.offset microseconds) % 2 ^ 64).toNat

/-- The position that `popNextScheduledEvent()` gives to an event. -/
def duePos (fragmentEnd scheduleTime : ℕ) : ℤ :=
  let pos := toInt32 (G.uiSamplesProcessed - (fragmentEnd - scheduleTime))
  let pos := if pos < 0 then 0 else pos
  if pos ≥ G.uiSamplesProcessed then toInt32 (G.uiSamplesProcessed - 1) else pos

end EventGenerator

namespace EventEngine

variable {C δ : Type} [DecidableEq C] (S : EventEngine C δ) (parentNoteID : δ → ℕ)

def setEvent (n : ℕ) (e : Event δ) : EventEngine C δ :=
  { S with event := Function.update S.event n e }

def setNote (k : ℕ) (note : LaunchedNote) : EventEngine C δ :=
  { S with note := Function.update S.note k note }

def setDelayed (c : C) (D : DelayedEvents C) : EventEngine C δ :=
  { S with delayedEvents := Function.update S.delayedEvents c D }

/-- `itEvent->FragmentPos()` -/
def fragmentPos (n : ℕ) : ℤ × EventEngine C δ :=
  let (pos, e) := (S.event n).fragmentPos S.pEventGenerator.toFragmentPos
  (pos, S.setEvent n e)

/-! ## Scheduling -/

def scheduleAheadMicroSec (c : C) (m : ℕ) (fragmentPosBase : ℤ) (microseconds : ℕ) :
    Option (EventEngine C δ) := do
  let D := S.delayedEvents c
  let time := S.pEventGenerator.scheduleTime fragmentPosBase microseconds
  let D := { D with node := Function.update D.node m { D.node m with scheduleTime := time } }
  let queue ← D.queue.insert D.scheduleTime true m
  return S.setDelayed c { D with queue := queue }

/-- The event is moved to the list of delayed events, and the node refers to
it. -/
def connect (c : C) (m : ℕ) (itEvent : Iterator (EngineEventList C)) : EventEngine C δ :=
  let (pEvents, _, itEvent) := S.pEventPool.moveToEndOf itEvent (.delayed c)
  let D := S.delayedEvents c
  let D := { D with node := Function.update D.node m { D.node m with itEvent := itEvent } }
  { S with pEventPool := pEvents, delayedEvents := Function.update S.delayedEvents c D }

/-- The event ID is zero where the event cannot be scheduled. -/
def scheduleEventMicroSec (c : C) (pEvent : Event δ) (delay : ℤ) :
    Option (EventEngine C δ × ℕ) :=
  let (pEvents, itEvent) := S.pEventPool.allocAppend (.events c)
  let S := { S with pEventPool := pEvents }
  match itEvent.index with
  | none => some (S, 0)
  | some n =>
      let D := S.delayedEvents c
      let (schedulerNodes, itNode) := D.schedulerNodes.allocAppend ()
      match itNode.index with
      | none => some ({ S with pEventPool := (S.pEventPool.free itEvent).1 }, 0)
      | some m => do
          let S := S.setDelayed c { D with schedulerNodes := schedulerNodes }
          let S := (S.setEvent n pEvent).connect c m itEvent
          let (fragmentPosBase, S) := S.fragmentPos n
          let S ← S.scheduleAheadMicroSec c m fragmentPosBase (delay % 2 ^ 64).toNat
          return (S, S.pEventPool.getID n)

/-- `childNoteID`: an element is left in the pool of note IDs, for the list of
the parent. The note ID is zero where no note is launched. -/
def launchNewNote (c : C) (n : ℕ) (childNoteID : Bool) : EventEngine C δ × ℕ :=
  if S.pNotePool.poolIsEmpty then (S, 0)
  else
    let (pNotePool, itNewNote) := S.pNotePool.allocAppend .pool
    let S := { S with pNotePool := pNotePool }
    match itNewNote.index with
    | none => (S, 0)
    | some k =>
        let newNoteID := pNotePool.getID k
        let S := S.setNote k { S.note k with hostKey := (S.event n).key }
        let parent := parentNoteID (S.event n).param
        let linked : Option LaunchedNote :=
          if parent = 0 then some (S.note k)
          else do
            let p ← (pNotePool.fromID parent).index
            if childNoteID then
              some { S.note k with parentNoteID := parent, hostKey := (S.note p).hostKey }
            else none
        match linked with
        | none => ({ S with pNotePool := (pNotePool.free itNewNote).1 }, 0)
        | some note =>
            let S := S.setNote k { note with eventID := S.pEventPool.getID n }
            let (pNotePool, _) := pNotePool.moveToEndOf itNewNote (.activeNotes c note.hostKey)
            let S := { S with pNotePool := pNotePool }
            (S.setEvent n { S.event n with noteID := newNoteID }, newNoteID)

/-- The note ID is zero where the event is scheduled without a note. -/
def scheduleNoteMicroSec (c : C) (pEvent : Event δ) (delay : ℤ) (childNoteID : Bool) :
    Option (EventEngine C δ × ℕ) := do
  let (S, noteOnEventID) ← S.scheduleEventMicroSec c pEvent delay
  if noteOnEventID = 0 then return (S, 0)
  else
    let n ← (S.pEventPool.fromID noteOnEventID).index
    return S.launchNewNote parentNoteID c n childNoteID

/-! ## Dropping events -/

/-- The pool is that of all channels. -/
def ignoreEvent (id : ℕ) : EventEngine C δ :=
  let it := S.pEventPool.fromID id
  if it.hasData then { S with pEventPool := (S.pEventPool.free it).1 } else S

def ignoreNote (id : ℕ) : EventEngine C δ :=
  let itNote := S.pNotePool.fromID id
  match itNote.index with
  | none => S
  | some k =>
      if (S.note k).activeVoices ≠ 0 then S
      else
        let itEvent := S.pEventPool.fromID (S.note k).eventID
        if itEvent.hasData then
          { S with
            pNotePool := (S.pNotePool.free itNote).1
            pEventPool := (S.pEventPool.free itEvent).1 }
        else S

/-- A script has event IDs and note IDs; the latter have the sign bit set. -/
def ignoreEventByScriptID (id : ℕ) : EventEngine C δ :=
  if id.testBit 63 then S.ignoreNote (id % 2 ^ 63) else S.ignoreEvent id

/-! ## Due events -/

/-- The node is taken out of the queue, not yet given back to its pool. -/
def popNextScheduledEvent (c : C) (fragmentEnd : ℕ) :
    Option (EventEngine C δ × Option ℕ) :=
  let D := S.delayedEvents c
  if D.queue.root = none then some (S, none)
  else do
    let m ← D.queue.lowest
    if D.scheduleTime m ≥ fragmentEnd then return (S, none)
    else
      let queue ← D.queue.erase true m
      let S := S.setDelayed c { D with queue := queue }
      match (D.node m).itEvent.index with
      | none => return (S, some m)
      | some n =>
          let pos := S.pEventGenerator.duePos fragmentEnd (D.scheduleTime m)
          return (S.setEvent n { S.event n with iFragmentPos := pos }, some m)

/-- The loop that skips the events before the delayed one. -/
def skipEarlier (n : ℕ) : ℕ → EventEngine C δ → Iterator (EngineEventList C) →
    Option (EventEngine C δ × Iterator (EngineEventList C))
  | 0, _, _ => none
  | fuel + 1, S, itEvent =>
      match itEvent.index with
      | none => some (S, itEvent)
      | some i =>
          let (pos, S) := S.fragmentPos i
          let (duePos, S) := S.fragmentPos n
          if pos ≤ duePos then skipEarlier n fuel S (S.pEventPool.increment itEvent)
          else some (S, itEvent)

/-- The loop over the due events. -/
def insertDueFrom (c : C) (fragmentEnd : ℕ) : ℕ → EventEngine C δ →
    Iterator (EngineEventList C) → Option (EventEngine C δ)
  | 0, _, _ => none
  | fuel + 1, S, itEvent => do
      let (S, popped) ← S.popNextScheduledEvent c fragmentEnd
      match popped with
      | none => return S
      | some m =>
          let D := S.delayedEvents c
          let itDelayedEvent := (D.node m).itEvent
          let itNode := D.schedulerNodes.iterator (.node m) .forward
          let S := S.setDelayed c { D with schedulerNodes := (D.schedulerNodes.free itNode).1 }
          match itDelayedEvent.index with
          | none => insertDueFrom c fragmentEnd fuel S itEvent
          | some n =>
              let (S, itEvent) ← skipEarlier n (S.pEventPool.poolsize + 1) S itEvent
              let (pEvents, _, itEvent) := S.pEventPool.moveBefore itDelayedEvent itEvent
              insertDueFrom c fragmentEnd fuel { S with pEventPool := pEvents } itEvent

/-- The delayed events in `ProcessEvents()`. -/
def insertDueEvents (c : C) : Option (EventEngine C δ) :=
  let queue := (S.delayedEvents c).queue
  if queue.root = none then some S
  else insertDueFrom c S.pEventGenerator.schedTimeAtCurrentFragmentEnd queue.fuel S
    (S.pEventPool.first (.rtlist (.events c)))

/-- `delayedEvents.clear()` -/
def clearDelayed (c : C) : Option (EventEngine C δ) := do
  let D := S.delayedEvents c
  let pEvents ← S.pEventPool.clear (.delayed c)
  let schedulerNodes ← D.schedulerNodes.clear ()
  let queue ← D.queue.clear true
  let S := { S with pEventPool := pEvents }
  return S.setDelayed c { D with schedulerNodes := schedulerNodes, queue := queue }

end EventEngine

/-! ## Runs -/

/-- What happens in an engine. -/
inductive EngineAction (C δ : Type) where
  | scheduleEvent (channel : C) (pEvent : Event δ) (delay : ℤ)
  | scheduleNote (channel : C) (pEvent : Event δ) (delay : ℤ) (childNoteID : Bool)
  | ignoreEvent (id : ℕ)
  | ignoreNote (id : ℕ)
  | ignoreEventByScriptID (id : ℕ)
  | insertDueEvents (channel : C)
  | clearDelayed (channel : C)
  /-- an event is put on another list -/
  | alloc (list : EngineEventList C) (e : Event δ)
  /-- an event on another list is released -/
  | free (n : ℕ)
  | moveToEndOf (n : ℕ) (dst : EngineEventList C)
  | clearList (list : EngineEventList C)
  | writeEvent (n : ℕ) (e : Event δ)
  | launchNewNote (channel : C) (n : ℕ) (childNoteID : Bool)
  /-- voices of the note are launched or end -/
  | writeVoices (k activeVoices : ℕ)
  | freeNote (k : ℕ)
  /-- the next fragment -/
  | nextFragment (pEventGenerator : EventGenerator)

/-- The list is `delayedEvents.pList` of some channel. -/
def EngineEventList.isDelayed {C : Type} : EngineEventList C → Bool
  | .delayed _ => true
  | _ => false

namespace EventEngine

variable {C δ : Type} [DecidableEq C] (parentNoteID : δ → ℕ)

/-- The events of a channel that wait for their time. -/
def delayedList (S : EventEngine C δ) (c : C) : List ℕ :=
  S.pEventPool.elements (.rtlist (.delayed c))

/-- The event is on a list other than those of delayed events. -/
def Elsewhere (S : EventEngine C δ) (n : ℕ) : Prop :=
  n < S.pEventPool.poolsize ∧ n ∉ S.pEventPool.elements .freelist ∧ ∀ c, n ∉ S.delayedList c

/-- The event that `ignoreNote()` drops. -/
def noteEvent (S : EventEngine C δ) (id : ℕ) : Option ℕ := do
  let k ← (S.pNotePool.fromID id).index
  if (S.note k).activeVoices ≠ 0 then none
  else (S.pEventPool.fromID (S.note k).eventID).index

end EventEngine

namespace EngineAction

variable {C δ : Type} [DecidableEq C]

/-- What the rest of the engine does, it does with events and notes in use
that it has in hand, and not with the lists of delayed events. -/
def Valid (S : EventEngine C δ) : EngineAction C δ → Prop
  | .alloc list _ | .clearList list => list.isDelayed = false
  | .free n => S.Elsewhere n
  | .moveToEndOf n dst => S.Elsewhere n ∧ dst.isDelayed = false
  | .freeNote k => k < S.pNotePool.poolsize ∧ k ∉ S.pNotePool.elements .freelist
  | _ => True

/-- The event that the action drops by an ID. -/
def dropped (S : EventEngine C δ) : EngineAction C δ → Option ℕ
  | .ignoreEvent id => (S.pEventPool.fromID id).index
  | .ignoreNote id => S.noteEvent id
  | .ignoreEventByScriptID id =>
      if id.testBit 63 then S.noteEvent (id % 2 ^ 63) else (S.pEventPool.fromID id).index
  | _ => none

/-- No event that waits is dropped. -/
def Spares (S : EventEngine C δ) (a : EngineAction C δ) : Prop :=
  ∀ i ∈ a.dropped S, ∀ c, i ∉ S.delayedList c

instance [Fintype C] (S : EventEngine C δ) (n : ℕ) : Decidable (S.Elsewhere n) :=
  inferInstanceAs (Decidable (_ ∧ _ ∧ _))

instance [Fintype C] (S : EventEngine C δ) : DecidablePred (Valid S)
  | .alloc list _ | .clearList list => inferInstanceAs (Decidable (list.isDelayed = false))
  | .free n => inferInstanceAs (Decidable (S.Elsewhere n))
  | .moveToEndOf n dst => inferInstanceAs (Decidable (S.Elsewhere n ∧ dst.isDelayed = false))
  | .freeNote _ => inferInstanceAs (Decidable (_ ∧ _))
  | .scheduleEvent .. | .scheduleNote .. | .ignoreEvent _ | .ignoreNote _
  | .ignoreEventByScriptID _ | .insertDueEvents _ | .clearDelayed _ | .writeEvent ..
  | .launchNewNote .. | .writeVoices .. | .nextFragment _ => inferInstanceAs (Decidable True)

instance [Fintype C] (S : EventEngine C δ) : DecidablePred (Spares S) := fun _ =>
  inferInstanceAs (Decidable (∀ _ ∈ _, _))

/-- `none`: a null pointer was followed. -/
def step (parentNoteID : δ → ℕ) (S : EventEngine C δ) :
    EngineAction C δ → Option (EventEngine C δ)
  | .scheduleEvent c pEvent delay => (S.scheduleEventMicroSec c pEvent delay).map Prod.fst
  | .scheduleNote c pEvent delay childNoteID =>
      (S.scheduleNoteMicroSec parentNoteID c pEvent delay childNoteID).map Prod.fst
  | .ignoreEvent id => some (S.ignoreEvent id)
  | .ignoreNote id => some (S.ignoreNote id)
  | .ignoreEventByScriptID id => some (S.ignoreEventByScriptID id)
  | .insertDueEvents c => S.insertDueEvents c
  | .clearDelayed c => S.clearDelayed c
  | .alloc list e =>
      let (pEvents, it) := S.pEventPool.allocAppend list
      let S := { S with pEventPool := pEvents }
      some (it.index.elim S fun n => S.setEvent n e)
  | .free n =>
      some { S with pEventPool := (S.pEventPool.free (S.pEventPool.iterator (.node n) .forward)).1 }
  | .moveToEndOf n dst =>
      let it := S.pEventPool.iterator (.node n) .forward
      some { S with pEventPool := (S.pEventPool.moveToEndOf it dst).1 }
  | .clearList list => (S.pEventPool.clear list).map fun pEvents => { S with pEventPool := pEvents }
  | .writeEvent n e => some (S.setEvent n e)
  | .launchNewNote c n childNoteID => some (S.launchNewNote parentNoteID c n childNoteID).1
  | .writeVoices k activeVoices =>
      some (S.setNote k { S.note k with activeVoices := activeVoices })
  | .freeNote k =>
      some { S with pNotePool := (S.pNotePool.free (S.pNotePool.iterator (.node k) .forward)).1 }
  | .nextFragment pEventGenerator => some { S with pEventGenerator := pEventGenerator }

end EngineAction

namespace EventEngine

variable {C δ : Type} [DecidableEq C] (parentNoteID : δ → ℕ)

def run (actions : List (EngineAction C δ)) (S : EventEngine C δ) : Option (EventEngine C δ) :=
  actions.foldlM (EngineAction.step parentNoteID) S

/-- The actions are possible one after another, and each passes `ok`. -/
def RunOk (ok : EventEngine C δ → EngineAction C δ → Prop) :
    List (EngineAction C δ) → EventEngine C δ → Prop
  | [], _ => True
  | a :: actions, S => a.Valid S ∧ ok S a ∧ ∀ S' ∈ a.step parentNoteID S, RunOk ok actions S'

instance decidableRunOk [Fintype C] {ok : EventEngine C δ → EngineAction C δ → Prop}
    [∀ S a, Decidable (ok S a)] : ∀ (actions : List (EngineAction C δ)) (S : EventEngine C δ),
      Decidable (RunOk parentNoteID ok actions S)
  | [], _ => inferInstanceAs (Decidable True)
  | a :: actions, S =>
      have : ∀ S', Decidable (RunOk parentNoteID ok actions S') := decidableRunOk actions
      inferInstanceAs (Decidable (a.Valid S ∧ ok S a ∧ ∀ S' ∈ a.step parentNoteID S,
        RunOk parentNoteID ok actions S'))

end EventEngine

end LinuxSampler
