import LinuxSampler.MidiData
import LinuxSampler.PoolRun
import LinuxSampler.RtAvlTree
import LinuxSampler.VmScriptEvent

/-!
# The script events of an engine channel

The script events of a channel come from one pool. An event is spawned
for a MIDI event, runs until its handler ends or is suspended, waits in
the scheduler queue until it is resumed, and may be kept on the list of
its key for the release of that key. A channel is a state machine whose
actions are what the engine does with script events, the turns of the
script that is executed, and what such a script does to other events.

A log records the writes to schedule times, the releases and the spawns.
Nothing reads it; it is what properties of a run are about.
-/

namespace LinuxSampler

/-! ## Scripts -/

/-- `VMEventHandlerType_t` -/
inductive VMEventHandlerType where
  | init
  | note
  | release
  | controller
  | rpn
  | nrpn
deriving DecidableEq

def VMEventHandlerType.toNat : VMEventHandlerType → ℕ
  | init => 0
  | note => 1
  | release => 2
  | controller => 3
  | rpn => 4
  | nrpn => 5

structure VMEventHandler (L : ScriptLang) where
  statements : Statements L
  isPolyphonic : Bool

/-- `MAX_FORK_PER_SCRIPT_HANDLER` -/
def maxForkPerScriptHandler : ℕ := 8

/-- The handlers of the script of a channel. A script has at most one of
each type, so that the type stands for the pointer. `autoSuspend` is a
setting of the virtual machine. -/
structure InstrumentScript (L : ScriptLang) where
  handler : VMEventHandlerType → Option (VMEventHandler L)
  autoSuspend : Bool

def InstrumentScript.handlers {L : ScriptLang} (script : InstrumentScript L) :
    List (Statements L) :=
  [.init, .note, .release, .controller, .rpn, .nrpn].filterMap fun type =>
    (script.handler type).map VMEventHandler.statements

theorem InstrumentScript.mem_handlers {L : ScriptLang} {script : InstrumentScript L}
    {type : VMEventHandlerType} {h : VMEventHandler L}
    (hh : script.handler type = some h) : h.statements ∈ script.handlers := by
  unfold InstrumentScript.handlers
  refine List.mem_filterMap.mpr ⟨type, ?_, by rw [hh]; rfl⟩
  cases type <;> simp

/-- Both the note and the release handler use polyphonic variables. -/
def InstrumentScript.passesPolyphonicData {L : ScriptLang} (script : InstrumentScript L) : Bool :=
  match script.handler .note, script.handler .release with
  | some handlerNote, some handlerRelease =>
      handlerNote.isPolyphonic && handlerRelease.isPolyphonic
  | _, _ => false

/-! ## Channels -/

/-- The lists that allocate from the pool: the pool itself and
`pKeyEvents`. -/
inductive EventList where
  | events
  | key (key : Fin 128)
deriving DecidableEq

/-- The MIDI event a handler is run for. -/
structure MidiCause where
  key : Fin 128
  schedTime : ℕ
  id : ℕ

/-- Who has called `InstrumentScriptVM::exec()`. -/
inductive Caller where
  /-- `ProcessScriptEvent()` for an event from the pool -/
  | spawned
  /-- `ProcessScriptEvent()` from the loop over the events of a key -/
  | recycled (itEvent : MidiCause)
  /-- `ResumeScriptEvent()` -/
  | resumed
  /-- the loop that runs the script's `init` handler -/
  | initialized

/-- The variables around a call of `ScriptVM::exec()`. -/
structure Execution where
  event : ℕ
  itScriptEvent : Iterator EventList
  /-- `pEventHandler == handlerNote` -/
  isNote : Bool
  caller : Caller

inductive ChannelControl (L : ScriptLang) where
  | idle
  /-- before the loop condition, in the loop over the events of a key -/
  | recycling (itEvent : MidiCause) (it : Iterator EventList)
  /-- in `ScriptVM::exec()` -/
  | executing (x : Execution) (st : ExecState L)

/-- The iterator of the loop over the events of a key. -/
def ChannelControl.cursor {L : ScriptLang} : ChannelControl L → Option (Iterator EventList)
  | .recycling _ it => some it
  | .idle | .executing _ _ => none

def ChannelControl.execution {L : ScriptLang} :
    ChannelControl L → Option (Execution × ExecState L)
  | .executing x st => some (x, st)
  | .idle | .recycling _ _ => none

/-- `queued`: the event is in the scheduler queue at that time. -/
inductive ChannelLog (L : ScriptLang) where
  | timed (event : ℕ) (queued : Bool)
  | freed (event : ℕ) (queued : Bool)
  | spawned (event : ℕ) (queued : Bool) (handler : Statements L) (st : ExecState L)

/-- Of the triggering event a script event keeps the key. While an event is
executed its context is that of the execution. -/
structure ScriptChannel (L : ScriptLang) where
  pEvents : Pool EventList
  event : ℕ → ScriptEvent L (Fin 128)
  suspendedEvents : RTAVLTree ℕ
  global : L.Global
  control : ChannelControl L
  log : List (ChannelLog L)

variable {L : ScriptLang}

namespace ScriptEvent

variable {Cause : Type} (e : ScriptEvent L Cause)

def countChildHandlers : ℕ := e.childHandlerID.length

def addChildHandlerID (childID : ℕ) : ScriptEvent L Cause :=
  if e.countChildHandlers ≥ maxForkPerScriptHandler then e
  else { e with childHandlerID := (e.childHandlerID ++ [childID]).takeWhile (· ≠ 0) }

/-- `handlers[currentHandler]` -/
def handler : Option (Statements L) := e.handlers[e.currentHandler]?

/-- What `ProcessScriptEvent()` writes before it runs the script. -/
def spawn (itEvent : MidiCause) (type : VMEventHandlerType) (handler : Statements L)
    (e : ScriptEvent L (Fin 128)) : ScriptEvent L (Fin 128) :=
  { e with
    handlers := [handler]
    cause := itEvent.key
    scheduleTime := itEvent.schedTime
    currentHandler := 0
    executionSlices := 0
    ignoreAllWaitCalls := false
    handlerType := type.toNat
    parentHandlerID := 0
    childHandlerID := []
    autoAbortByParent := false
    forkIndex := 0
    id := itEvent.id }

/-- The same for the `init` handler, which has no time. -/
def spawnInit (handler : Statements L) (e : ScriptEvent L (Fin 128)) :
    ScriptEvent L (Fin 128) :=
  { e with
    handlers := [handler]
    cause := 0
    id := 0
    currentHandler := 0
    executionSlices := 0
    ignoreAllWaitCalls := false
    handlerType := VMEventHandlerType.init.toNat
    parentHandlerID := 0
    childHandlerID := []
    autoAbortByParent := false
    forkIndex := 0 }

end ScriptEvent

namespace ScriptChannel

/-- `currentSchedulerQueue() == &suspendedEvents` -/
def queued (S : ScriptChannel L) (n : ℕ) : Bool := S.suspendedEvents.tree n

def scheduleTime (S : ScriptChannel L) (n : ℕ) : ℕ := (S.event n).scheduleTime

/-- The events of a key. -/
def keyEvents (S : ScriptChannel L) (key : Fin 128) : List ℕ :=
  S.pEvents.elements (.rtlist (.key key))

def record (S : ScriptChannel L) (entries : List (ChannelLog L)) : ScriptChannel L :=
  { S with log := S.log ++ entries }

def modify (S : ScriptChannel L) (n : ℕ)
    (f : ScriptEvent L (Fin 128) → ScriptEvent L (Fin 128)) : ScriptChannel L :=
  { S with event := Function.update S.event n (f (S.event n)) }

def continueWith (S : ScriptChannel L) (control : ChannelControl L) : ScriptChannel L :=
  { S with control := control }

/-! ## The queue -/

/-- `node.scheduleTime = time; queue.insert(node);` -/
def schedule (S : ScriptChannel L) (n time : ℕ) : Option (ScriptChannel L) := do
  let S := S.record [.timed n (S.queued n)]
  let S := S.modify n fun e => { e with scheduleTime := time }
  let suspendedEvents ← S.suspendedEvents.insert S.scheduleTime true n
  return { S with suspendedEvents := suspendedEvents }

def unschedule (S : ScriptChannel L) (n : ℕ) : Option (ScriptChannel L) := do
  let suspendedEvents ← S.suspendedEvents.erase true n
  return { S with suspendedEvents := suspendedEvents }

/-- `ScheduleResumeOfScriptCallback()` -/
def scheduleResumeOfScriptCallback (S : ScriptChannel L) (itCallback : Iterator EventList)
    (now : ℕ) (forever : Bool) : Option (ScriptChannel L) :=
  match itCallback.index with
  | none => some S
  | some n =>
      let S := if forever then S.modify n fun e => { e with ignoreAllWaitCalls := true } else S
      if ¬ S.queued n then some S
      else if S.scheduleTime n ≤ now then some S
      else do
        let S ← S.unschedule n
        S.schedule n (now + 1)

/-! ## The pool -/

def freed (S : ScriptChannel L) (events : List ℕ) : List (ChannelLog L) :=
  events.map fun n => .freed n (S.queued n)

/-- `pEvents->free(itScriptEvent)`, with the iterator afterwards. -/
def free (S : ScriptChannel L) (it : Iterator EventList) :
    ScriptChannel L × Iterator EventList :=
  let (pEvents, it') := S.pEvents.free it
  ({ S.record (S.freed it.index.toList) with pEvents := pEvents }, it')

/-- `itScriptEvent.moveToEndOf(pKeyEvents[key])`, with the iterator
afterwards. -/
def keep (S : ScriptChannel L) (it : Iterator EventList) (key : Fin 128) :
    ScriptChannel L × Iterator EventList :=
  let (pEvents, it', _) := S.pEvents.moveToEndOf it (.key key)
  ({ S with pEvents := pEvents }, it')

def clear (S : ScriptChannel L) (list : EventList) : Option (ScriptChannel L) := do
  let pEvents ← S.pEvents.clear list
  return { S.record (S.freed (S.pEvents.elements (.rtlist list))) with pEvents := pEvents }

/-- `for (int i = 0; i < 128; ++i) pKeyEvents[i]->clear();` -/
def clearKeys (S : ScriptChannel L) : Option (ScriptChannel L) :=
  (List.finRange 128).foldlM (fun S key => S.clear (.key key)) S

/-- `hasFreeScriptCallbacks()` -/
def hasFreeScriptCallbacks (S : ScriptChannel L) (n : ℤ) : Bool :=
  n ≤ (S.pEvents.elements .freelist).length

/-! ## What a script does to other script events -/

/-- `forkScriptCallback()`. The context of the parent is that of its
execution. -/
def forkScriptCallback (S : ScriptChannel L) (parent : ℕ) (execCtx : ExecContext L)
    (autoAbort : Bool) (now : ℕ) : Option (ScriptChannel L × Iterator EventList) :=
  if (S.event parent).countChildHandlers ≥ maxForkPerScriptHandler then some (S, .invalid)
  else
    let (pEvents, itChild) := S.pEvents.allocAppend .events
    let S := { S with pEvents := pEvents }
    match itChild.index with
    | none => some (S, itChild)
    | some child => do
        let S := S.record [.timed child (S.queued child)]
        let S := S.modify child fun e =>
          { ({ S.event parent with execCtx := execCtx }.forkTo e autoAbort) with
            parentHandlerID := S.pEvents.getID parent }
        let S := S.modify parent fun e => e.addChildHandlerID (S.pEvents.getID child)
        let S ← S.schedule child now
        return (S, itChild)

/-- The loop of `fork()`. -/
def forkLoop (parent : ℕ) (execCtx : ExecContext L) (autoAbort : Bool) (now : ℕ) :
    ScriptChannel L → List ℕ → Option (ScriptChannel L)
  | S, [] => some S
  | S, iChild :: rest => do
      let (S, itChild) ← S.forkScriptCallback parent execCtx autoAbort now
      match itChild.index with
      | none => some S
      | some child =>
          forkLoop parent execCtx autoAbort now
            (S.modify child fun e => { e with forkIndex := iChild + 1 }) rest

/-- `fork()`. In a child it is entered once more, to return. -/
def fork (S : ScriptChannel L) (n : ℕ) (execCtx : ExecContext L) (count : ℤ) (autoAbort : Bool)
    (now : ℕ) : Option (ScriptChannel L) :=
  if (S.event n).forkIndex ≠ 0 then some (S.modify n fun e => { e with forkIndex := 0 })
  else if (S.event n).countChildHandlers + count > maxForkPerScriptHandler then some S
  else if ¬ S.hasFreeScriptCallbacks count then some S
  else forkLoop n execCtx autoAbort now S (List.range count.toNat)

def signalAbort (S : ScriptChannel L) (n : ℕ) : ScriptChannel L :=
  S.modify n fun e => { e with execCtx := e.execCtx.signalAbort }

/-- The functions by which a script changes script events. The arguments of
`fork` end with the polyphonic memory at the call, and the time it is made
at. -/
inductive ScriptCall where
  | fork (n : ℤ) (autoAbort : Bool) (polyphonic : PolyphonicMemory) (now : ℕ)
  | abort (id : ℕ)
  | stopWait (id : ℕ) (disableWaitForever : Bool)

/-- A call made by the script event `n`. -/
def call (S : ScriptChannel L) (n : ℕ) (st : ExecState L) : ScriptCall → Option (ScriptChannel L)
  | .fork count autoAbort polyphonic now =>
      S.fork n { st.ctx with polyphonic := polyphonic } count autoAbort now
  | .abort id =>
      match (S.pEvents.fromID id).index with
      | none => some S
      | some callback =>
          -- the flags of its own context are overwritten when the statement ends
          if callback = n then some S else some (S.signalAbort callback)
  | .stopWait id disableWaitForever =>
      S.scheduleResumeOfScriptCallback (S.pEvents.fromID id) (S.scheduleTime n)
        disableWaitForever

/-! ## The end of an execution -/

/-- Where the caller goes on; `it` is its iterator. -/
def Execution.next (pEvents : Pool EventList) (it : Iterator EventList) :
    Caller → ChannelControl L
  | .recycled itEvent => .recycling itEvent (pEvents.increment it)
  | .spawned | .resumed | .initialized => .idle

/-- The callbacks that were forked with the argument `autoAbort`. -/
def abortChildren (S : ScriptChannel L) (ids : List ℕ) : ScriptChannel L :=
  ids.foldl (fun S id =>
    match (S.pEvents.fromID id).index with
    | none => S
    | some child => if (S.event child).autoAbortByParent then S.signalAbort child else S) S

variable (script : InstrumentScript L)

/-- The script event has run to its end. `key` is the key of the MIDI event,
which the script may have released and used again. -/
def finish (S : ScriptChannel L) (x : Execution) (key : Fin 128) : ScriptChannel L :=
  let key := match x.caller with
    | .resumed => (S.event x.event).cause
    | _ => key
  let (S, it) :=
    if x.isNote ∧ script.passesPolyphonicData then S.keep x.itScriptEvent key
    else S.free x.itScriptEvent
  S.continueWith (Execution.next S.pEvents it x.caller)

/-- `ScriptVM::exec()` for the current handler. -/
def enter (S : ScriptChannel L) (x : Execution) (handler : Statements L) : ScriptChannel L :=
  S.continueWith (.executing x
    (ExecState.enter script.autoSuspend (S.event x.event).execCtx handler S.global))

/-- What follows a call of `ScriptVM::exec()`; `wakeUp` is the time to resume
a suspended event at. -/
def leave (S : ScriptChannel L) (x : Execution) (st : ExecState L) (wakeUp : ℕ)
    (key : Fin 128) : Option (ScriptChannel L) :=
  let S := { S with global := st.global }
  let S := S.modify x.event fun e =>
    { e with execCtx := st.leave, executionSlices := e.executionSlices + 1 }
  if st.leave.status = .suspended then
    match x.caller with
    | .initialized => (S.event x.event).handler.map (S.enter script x)
    | _ => do
        let S ← S.schedule x.event wakeUp
        return S.continueWith (Execution.next S.pEvents x.itScriptEvent x.caller)
  else
    let S := S.abortChildren (S.event x.event).childHandlerID
    if st.leave.status = .error then some (S.finish script x key)
    else
      let S := S.modify x.event fun e => { e with currentHandler := e.currentHandler + 1 }
      match (S.event x.event).handler with
      | some handler => some (S.enter script x handler)
      | none => some (S.finish script x key)

/-! ## The engine -/

/-- `ProcessScriptEvent()` up to the execution of the script. -/
def processScriptEvent (S : ScriptChannel L) (itEvent : MidiCause) (type : VMEventHandlerType)
    (handler : Statements L) (it : Iterator EventList) (caller : Caller) : ScriptChannel L :=
  match it.index with
  | none => S.continueWith (Execution.next S.pEvents it caller)
  | some n =>
      let queued := S.queued n
      let S := S.record [.timed n queued]
      let S := S.modify n (.spawn itEvent type handler)
      let S := S.record [.spawned n queued handler
        (ExecState.enter script.autoSuspend (S.event n).execCtx handler S.global)]
      S.enter script ⟨n, it, type = .note, caller⟩ handler

/-- `ProcessEventByScript()` -/
def processEventByScript (S : ScriptChannel L) (itEvent : MidiCause) (type : VMEventHandlerType)
    (pEventHandler : VMEventHandler L) : Option (ScriptChannel L) :=
  if type = .release ∧ script.passesPolyphonicData ∧
      ¬ S.pEvents.isEmpty (.rtlist (.key itEvent.key)) then
    some (S.continueWith
      (.recycling itEvent (S.pEvents.first (.rtlist (.key itEvent.key)))))
  else
    let (pEvents, it) := S.pEvents.allocAppend .events
    let S := { S with pEvents := pEvents }
    if pEventHandler.isPolyphonic then
      match it.index with
      | none => none
      | some n =>
          let S := S.modify n fun e => { e with execCtx := e.execCtx.resetPolyphonicData }
          some (S.processScriptEvent script itEvent type pEventHandler.statements it .spawned)
    else some (S.processScriptEvent script itEvent type pEventHandler.statements it .spawned)

/-- One turn of the loop over the events of a key. -/
def recycle (S : ScriptChannel L) (itEvent : MidiCause) (it : Iterator EventList)
    (handler : Statements L) : ScriptChannel L :=
  if it.current = .endOf (.rtlist (.key itEvent.key)) then S.continueWith .idle
  else S.processScriptEvent script itEvent .release handler it (.recycled itEvent)

/-- `popNextScheduledScriptEvent()` and `ResumeScriptEvent()` -/
def resume (S : ScriptChannel L) (fragmentEnd : ℕ) : Option (ScriptChannel L) :=
  if S.suspendedEvents.root = none then some S
  else do
    let n ← S.suspendedEvents.lowest
    if S.scheduleTime n ≥ fragmentEnd then return S
    else
      let it := S.pEvents.iterator (.node n) .forward
      let S ← S.unschedule n
      let isNote := (S.event n).handler.isSome ∧
        (S.event n).handlerType = VMEventHandlerType.note.toNat
      let x : Execution := ⟨n, it, isNote, .resumed⟩
      match (S.event n).handler with
      | some handler => return S.enter script x handler
      | none => return S.finish script x (S.event n).cause

/-- The `init` handler of a script that was just loaded. -/
def execInit (S : ScriptChannel L) (pEventHandler : VMEventHandler L) :
    Option (ScriptChannel L) :=
  let (pEvents, it) := S.pEvents.allocAppend .events
  let S := { S with pEvents := pEvents }
  match it.index with
  | none => none
  | some n =>
      let S := S.modify n (.spawnInit pEventHandler.statements)
      some (S.enter script ⟨n, it, false, .initialized⟩ pEventHandler.statements)

/-- `FreeKey()`. The index into `pKeyEvents` is the iterator `itSelf`, which
converts to `bool`. -/
def freeKey (S : ScriptChannel L) (itSelf : Bool) : Option (ScriptChannel L) :=
  S.clear (.key (if itSelf then 1 else 0))

def resetEvents (S : ScriptChannel L) : Option (ScriptChannel L) := do
  let S ← S.clearKeys
  let suspendedEvents ← S.suspendedEvents.clear true
  let S := { S with suspendedEvents := suspendedEvents }
  S.clear .events

/-! ## Runs -/

end ScriptChannel

inductive ChannelAction where
  /-- a MIDI event for a handler of the script -/
  | event (itEvent : MidiCause) (type : VMEventHandlerType)
  /-- the loop over the events of a key goes on -/
  | recycle
  /-- the script changes other script events -/
  | call (call : ScriptChannel.ScriptCall)
  /-- a turn of the loop in `ScriptVM::exec()` -/
  | turn
  /-- the end of that loop -/
  | leave (wakeUp : ℕ) (key : Fin 128)
  /-- the next suspended event before the end of the fragment -/
  | resume (fragmentEnd : ℕ)
  | init
  | freeKey (itSelf : Bool)
  /-- `MidiKeyboardManager::Reset()` -/
  | resetKeys
  | resetEvents

namespace ScriptChannel

variable (script : InstrumentScript L)

/-- `none`: the action is not possible here, or it follows a null
pointer. -/
def step (S : ScriptChannel L) (action : ChannelAction) : Option (ScriptChannel L) :=
  match S.control, action with
  | .idle, .event itEvent type =>
      (script.handler type).bind (S.processEventByScript script itEvent type)
  | .idle, .resume fragmentEnd => S.resume script fragmentEnd
  | .idle, .init => (script.handler .init).bind (S.execInit script)
  | .idle, .freeKey itSelf => S.freeKey itSelf
  | .idle, .resetKeys => S.clearKeys
  | .idle, .resetEvents => S.resetEvents
  | .recycling itEvent it, .recycle =>
      (script.handler .release).map fun h => S.recycle script itEvent it h.statements
  | .executing x st, .call call => if st.Guard then S.call x.event st call else none
  | .executing x st, .turn =>
      if st.Guard then some (S.continueWith (.executing x st.iteration)) else none
  | .executing x st, .leave wakeUp key =>
      if st.Guard then none else S.leave script x st wakeUp key
  | _, _ => none

def run (actions : List ChannelAction) (S : ScriptChannel L) : Option (ScriptChannel L) :=
  actions.foldlM (step script) S

/-- The pool of a script that was just loaded: no event is in use. -/
structure Loaded (sizes : PolyphonicSizes) (size : ℕ) (S : ScriptChannel L) : Prop where
  pool : ∃ lists, Pool.Holds size S.pEvents lists ∧ ∀ list, lists (.rtlist list) = []
  execCtx : ∀ n, (S.event n).execCtx = createExecContext sizes script.handlers
  handlers : ∀ n, (S.event n).handlers = []
  root : S.suspendedEvents.root = none
  nodesCount : S.suspendedEvents.nodesCount = 0
  tree : ∀ n, S.suspendedEvents.tree n = false
  control : S.control = .idle
  log : S.log = []

end ScriptChannel

end LinuxSampler
