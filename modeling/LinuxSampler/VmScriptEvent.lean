import LinuxSampler.VmStack

/-!
# Script events

A `ScriptEvent` is one script callback: the handlers it has to run and
the execution context they run in. `InstrumentScriptVM::exec()` calls
`ScriptVM::exec()` for one handler after the other and returns early when
a handler was suspended; it is called again for the same event later.

`EventRun` is a run of all these calls: three nested loops (turns of
`ScriptVM::exec()`, handlers, calls by the engine) as one step function,
so that any point of it can be spoken about.
-/

namespace LinuxSampler

/-- `ScriptEvent`. The handler list ends where the source has its `NULL`;
`Cause` is the type of the triggering event. -/
structure ScriptEvent (L : ScriptLang) (Cause : Type) where
  scheduleTime : Nat
  cause : Cause
  id : Nat
  handlers : List (Statements L)
  execCtx : ExecContext L
  currentHandler : Nat
  executionSlices : Nat
  ignoreAllWaitCalls : Bool
  handlerType : Nat
  parentHandlerID : Nat
  /-- zero terminated in the source -/
  childHandlerID : List Nat
  autoAbortByParent : Bool
  forkIndex : Nat

/-- `ScriptEvent::forkTo()`, the new state of `e`. -/
def ScriptEvent.forkTo {L : ScriptLang} {Cause : Type} (this e : ScriptEvent L Cause)
    (autoAbort : Bool) : ScriptEvent L Cause :=
  { scheduleTime := this.scheduleTime
    cause := this.cause
    id := this.id
    handlers := this.handlers[this.currentHandler]?.toList
    currentHandler := 0
    executionSlices := 0
    ignoreAllWaitCalls := this.ignoreAllWaitCalls
    handlerType := this.handlerType
    parentHandlerID := 0
    childHandlerID := []
    autoAbortByParent := autoAbort
    forkIndex := 1
    execCtx := this.execCtx.forkTo e.execCtx }

section

variable {L : ScriptLang}

/-- The topmost frame is one of an exhausted list. -/
def ExecState.atListEnd (st : ExecState L) : Bool :=
  match st.ctx.stack[st.ctx.stackFrame.toNat]? with
  | some ⟨some (.list args), i⟩ => (statementAt args i).isNone
  | _ => false

/-- The turn drops the last frame and is past the hard limit. -/
def ExecState.LimitAtEnd (st : ExecState L) : Prop :=
  st.Guard ∧ st.ctx.stackFrame = 0 ∧ st.atListEnd = true ∧ st.synced = 0 ∧
    st.instructionsCounter > instrPerCycleHard

instance (st : ExecState L) : Decidable st.LimitAtEnd :=
  inferInstanceAs (Decidable (_ ∧ _))

/-- Where a run is: before the next handler is looked up, within
`ScriptVM::exec()`, or between two calls for the event. -/
inductive EventMode (L : ScriptLang) where
  | next (res : VMExecStatus)
  | running (st : ExecState L)
  | returned (res : VMExecStatus)

/-- The part of a script event that its run depends on. `trace` is what
all completed calls of `ScriptVM::exec()` have logged. While a call is
running, its state holds the current context and memory. -/
structure EventRun (L : ScriptLang) where
  handlers : List (Statements L)
  currentHandler : Nat
  execCtx : ExecContext L
  global : L.Global
  trace : List (VmEvent L)
  mode : EventMode L

namespace EventRun

/-- The engine's first call for the event. -/
def start (handlers : List (Statements L)) (execCtx : ExecContext L) (global : L.Global) :
    EventRun L :=
  ⟨handlers, 0, execCtx, global, [], .next .notRunning⟩

/-- What `InstrumentScriptVM::exec()` does with the outcome of a call for one
handler. -/
def completed (r : EventRun L) (st : ExecState L) : EventRun L :=
  let ctx := st.leave
  let r := { r with execCtx := ctx, global := st.global, trace := r.trace ++ st.log }
  if ctx.status = .suspended ∨ ctx.status = .error then
    { r with mode := .returned ctx.status }
  else { r with currentHandler := r.currentHandler + 1, mode := .next ctx.status }

def step (autoSuspend : Bool) (r : EventRun L) : EventRun L :=
  match r.mode with
  | .next res =>
      match r.handlers[r.currentHandler]? with
      | none => { r with mode := .returned res }
      | some h => { r with mode := .running (.enter autoSuspend r.execCtx h r.global) }
  | .running st =>
      if st.Guard then { r with mode := .running st.iteration } else r.completed st
  | .returned .suspended => { r with mode := .next .notRunning }
  | .returned _ => r

/-- What has been observed so far. -/
def observed (r : EventRun L) : List (VmEvent L) :=
  r.trace.filter VmEvent.isObserved ++
    match r.mode with
    | .running st => st.log.filter VmEvent.isObserved
    | .next _ | .returned _ => []

/-- The memory the script sees. -/
def store (r : EventRun L) : Store L.Global :=
  match r.mode with
  | .running st => st.store
  | .next _ | .returned _ => ⟨r.global, r.execCtx.polyphonic⟩

/-- The run is at a turn that drops the last frame, because the handler's
list is exhausted, while the hard limit suspends the context in the same
turn. -/
def LimitAtEnd (r : EventRun L) : Prop :=
  match r.mode with
  | .running st => st.LimitAtEnd
  | .next _ | .returned _ => False

instance (r : EventRun L) : Decidable r.LimitAtEnd := by
  unfold LimitAtEnd
  split <;> infer_instance

end EventRun

end

end LinuxSampler
