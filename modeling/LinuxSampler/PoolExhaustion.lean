import LinuxSampler.DelayedRun
import LinuxSampler.ScriptQueue

/-!
# Exhausted pools

The pools of an engine are bounded, and whoever takes an element of one
has to look whether there was one left. Here the events, notes and
scheduler nodes of an engine, the script events of its channels and the
free note IDs come together, with the operations that take elements in the
middle of their work.

Two of them do not look: `ProcessEventByScript()` for a handler with
polyphonic variables, and `HandleKeyGroupConflicts()`.
-/

namespace LinuxSampler

structure PooledEngine (C δ : Type) (L : ScriptLang) where
  engine : EventEngine C δ
  /-- free elements of the pool of note IDs -/
  noteIDPool : ℕ
  channel : C → ScriptChannel L
  activeKeyGroups : C → List ℕ

/-- The operations that take elements of pools. `n` is an event. -/
inductive PoolRequest (C δ : Type) where
  | processEventByScript (c : C) (itEvent : MidiCause) (type : VMEventHandlerType)
  | handleKeyGroupConflicts (c : C) (KeyGroup n : ℕ)
  | scheduleEventMicroSec (c : C) (pEvent : Event δ) (delay : ℤ)
  | launchNewNote (c : C) (n : ℕ)
  | fork (c : C) (count : ℤ) (autoAbort : Bool) (polyphonic : PolyphonicMemory) (now : ℕ)

inductive PooledAction (C δ : Type) where
  /-- not an action that launches a note -/
  | engine (a : EngineAction C δ)
  | scheduleNote (c : C) (pEvent : Event δ) (delay : ℤ)
  | launchNewNote (c : C) (n : ℕ)
  /-- a note with that many child notes is reset -/
  | freeNoteIDs (count : ℕ)
  | script (c : C) (a : ChannelAction)
  | handleKeyGroupConflicts (c : C) (KeyGroup n : ℕ)
  | addGroup (c : C) (group : ℕ)
  | deleteGroupEventLists (c : C)

def EngineAction.launchesNote {C δ : Type} : EngineAction C δ → Bool
  | .scheduleNote .. | .launchNewNote .. => true
  | _ => false

namespace PooledEngine

variable {C δ : Type} [DecidableEq C] {L : ScriptLang} (script : C → InstrumentScript L)
  (parentNoteID : δ → ℕ) (S : PooledEngine C δ L)

def setChannel (c : C) (channel : ScriptChannel L) : PooledEngine C δ L :=
  { S with channel := Function.update S.channel c channel }

/-! ## Operations -/

/-- The list is that of the group; a null pointer is written to where no event
is left. -/
def handleKeyGroupConflicts (c : C) (KeyGroup n : ℕ) : Option (PooledEngine C δ L) :=
  if KeyGroup ≠ 0 ∧ KeyGroup ∈ S.activeKeyGroups c then
    let (pEventPool, itEvent) := S.engine.pEventPool.allocAppend (.keyGroup c KeyGroup)
    match itEvent.index with
    | none => none
    | some m =>
        let engine := { S.engine with pEventPool := pEventPool }
        some { S with engine := engine.setEvent m (S.engine.event n) }
  else some S

/-- A child note takes a note ID, for the list of its parent. -/
def noteIDsLeft (id : ℕ) (param : δ) : ℕ :=
  if id ≠ 0 ∧ parentNoteID param ≠ 0 then S.noteIDPool - 1 else S.noteIDPool

def launchNewNote (c : C) (n : ℕ) : PooledEngine C δ L :=
  let (engine, id) := S.engine.launchNewNote parentNoteID c n (S.noteIDPool ≠ 0)
  { S with
    engine := engine
    noteIDPool := S.noteIDsLeft parentNoteID id (S.engine.event n).param }

def scheduleNoteMicroSec (c : C) (pEvent : Event δ) (delay : ℤ) : Option (PooledEngine C δ L) := do
  let (engine, id) ← S.engine.scheduleNoteMicroSec parentNoteID c pEvent delay (S.noteIDPool ≠ 0)
  return { S with
    engine := engine
    noteIDPool := S.noteIDsLeft parentNoteID id pEvent.param }

/-- `none`: a null pointer was followed. -/
def serve : PoolRequest C δ → Option (PooledEngine C δ L)
  | .processEventByScript c itEvent type =>
      match (script c).handler type with
      | none => some S
      | some pEventHandler =>
          ((S.channel c).processEventByScript (script c) itEvent type pEventHandler).map
            (S.setChannel c)
  | .handleKeyGroupConflicts c KeyGroup n => S.handleKeyGroupConflicts c KeyGroup n
  | .scheduleEventMicroSec c pEvent delay =>
      (S.engine.scheduleEventMicroSec c pEvent delay).map fun (engine, _) =>
        { S with engine := engine }
  | .launchNewNote c n => some (S.launchNewNote parentNoteID c n)
  | .fork c count autoAbort polyphonic now =>
      match (S.channel c).control with
      | .executing x st =>
          ((S.channel c).call x.event st (.fork count autoAbort polyphonic now)).map
            (S.setChannel c)
      | .idle | .recycling .. => some S

def deleteGroupEventLists (c : C) : Option (PooledEngine C δ L) := do
  let engine ← (S.activeKeyGroups c).foldlM
    (fun engine group => EngineAction.step parentNoteID engine (.clearList (.keyGroup c group)))
    S.engine
  return { S with
    engine := engine
    activeKeyGroups := Function.update S.activeKeyGroups c [] }

/-- `none`: the action is not possible here, or it follows a null
pointer. -/
def step : PooledAction C δ → Option (PooledEngine C δ L)
  | .engine a =>
      if a.launchesNote then none
      else (a.step parentNoteID S.engine).map fun engine => { S with engine := engine }
  | .scheduleNote c pEvent delay => S.scheduleNoteMicroSec parentNoteID c pEvent delay
  | .launchNewNote c n => some (S.launchNewNote parentNoteID c n)
  | .freeNoteIDs count => some { S with noteIDPool := S.noteIDPool + count }
  | .script c a => ((S.channel c).step (script c) a).map (S.setChannel c)
  | .handleKeyGroupConflicts c KeyGroup n => S.handleKeyGroupConflicts c KeyGroup n
  | .addGroup c group =>
      if group = 0 then some S
      else some { S with
        activeKeyGroups := Function.update S.activeKeyGroups c
          (S.activeKeyGroups c ∪ [group]) }
  | .deleteGroupEventLists c => S.deleteGroupEventLists parentNoteID c

def run (actions : List (PooledAction C δ)) (S : PooledEngine C δ L) :
    Option (PooledEngine C δ L) :=
  actions.foldlM (step script parentNoteID) S

/-! ## Harmless operations -/

/-- An element that the operation needs is missing. -/
def Lacks : PoolRequest C δ → Prop
  | .processEventByScript c _ _ => (S.channel c).pEvents.poolIsEmpty = true
  | .handleKeyGroupConflicts .. => S.engine.pEventPool.poolIsEmpty = true
  | .scheduleEventMicroSec c _ _ => S.engine.pEventPool.poolIsEmpty = true ∨
      (S.engine.delayedEvents c).schedulerNodes.poolIsEmpty = true
  | .launchNewNote _ n => S.engine.pNotePool.poolIsEmpty = true ∨
      S.noteIDPool = 0 ∧ parentNoteID (S.engine.event n).param ≠ 0
  | .fork c count _ _ _ => ∀ e ∈ (S.channel c).control.execution,
      ((S.channel c).event e.1.event).forkIndex = 0 ∧
        (S.channel c).hasFreeScriptCallbacks count = false

/-- The elements in use of all pools are on the same lists, with the same
contents. -/
structure AsBefore (S S' : PooledEngine C δ L) : Prop where
  eventLists : ∀ l, S'.engine.pEventPool.elements l = S.engine.pEventPool.elements l
  event : ∀ n, n ∉ S.engine.pEventPool.elements .freelist → S'.engine.event n = S.engine.event n
  noteLists : ∀ l, S'.engine.pNotePool.elements l = S.engine.pNotePool.elements l
  note : ∀ k, k ∉ S.engine.pNotePool.elements .freelist → S'.engine.note k = S.engine.note k
  delayedEvents : S'.engine.delayedEvents = S.engine.delayedEvents
  noteIDPool : S'.noteIDPool = S.noteIDPool
  scriptEventLists : ∀ c, (S'.channel c).pEvents = (S.channel c).pEvents
  scriptEvent : ∀ c, (S'.channel c).event = (S.channel c).event
  suspendedEvents : ∀ c, (S'.channel c).suspendedEvents = (S.channel c).suspendedEvents
  activeKeyGroups : S'.activeKeyGroups = S.activeKeyGroups

/-- No null pointer is followed, and where an element is missing nothing else
changes. -/
def Harmless (r : PoolRequest C δ) : Prop :=
  ∃ S', S.serve script parentNoteID r = some S' ∧ (S.Lacks parentNoteID r → S.AsBefore S')

/-- The script events of the key are run once more. -/
def Recycles (c : C) (itEvent : MidiCause) (type : VMEventHandlerType) : Prop :=
  type = .release ∧ (script c).passesPolyphonicData = true ∧
    ¬ (S.channel c).pEvents.isEmpty (.rtlist (.key itEvent.key)) = true

/-- The operations that do not look find an element. -/
def Affords : PoolRequest C δ → Prop
  | .processEventByScript c itEvent type => ∀ pEventHandler ∈ (script c).handler type,
      pEventHandler.isPolyphonic = true → ¬ S.Recycles script c itEvent type →
        ¬ (S.channel c).pEvents.poolIsEmpty = true
  | .handleKeyGroupConflicts c KeyGroup _ =>
      KeyGroup ≠ 0 → KeyGroup ∈ S.activeKeyGroups c → ¬ S.engine.pEventPool.poolIsEmpty = true
  | .scheduleEventMicroSec .. | .launchNewNote .. | .fork .. => True

end PooledEngine

end LinuxSampler
