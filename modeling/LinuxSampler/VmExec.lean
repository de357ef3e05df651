import LinuxSampler.VmContext

/-!
# `ScriptVM::exec()`

One call of the executor, in three parts: what happens before the loop
(`enter`), one turn of the loop (`iteration`, under its condition
`guard`), and what happens after it (`leave`).

The state of a call is the persistent context, the two local counters of
`exec()` and the memory that leaf statements and conditions work on. In
addition a log records what the call does. Nothing reads it; it is what
properties of a run are about.
-/

namespace LinuxSampler

/-- `SCRIPTVM_MAX_INSTR_PER_CYCLE_SOFT` -/
def instrPerCycleSoft : Nat := 70

/-- `SCRIPTVM_MAX_INSTR_PER_CYCLE_HARD` -/
def instrPerCycleHard : Nat := 210

/-- `SCRIPT_VM_FORCE_SUSPENSION_MICROSECONDS` -/
def forceSuspensionMicroseconds : Int := 1000

/-- What is recorded of a run. `push` and `pop` carry the frame index that
is written. -/
inductive VmEvent (L : ScriptLang) where
  | start (handler : Statements L)
  | leaf (stmt : L.Leaf)
  | branch (stmt : Statement L) (value : Int)
  | loop (condition : L.IntExpr) (value : Bool)
  | push (frame : Int)
  | pop (frame : Int)
  | overflow
  | forced

structure ExecState (L : ScriptLang) where
  ctx : ExecContext L
  global : L.Global
  instructionsCounter : Nat
  synced : Int
  log : List (VmEvent L)

namespace ExecState

variable {L : ScriptLang}

def store (st : ExecState L) : Store L.Global := ⟨st.global, st.ctx.polyphonic⟩

def setStore (st : ExecState L) (s : Store L.Global) : ExecState L :=
  { st with global := s.global, ctx := { st.ctx with polyphonic := s.poly } }

def record (st : ExecState L) (e : VmEvent L) : ExecState L :=
  { st with log := st.log ++ [e] }

def push (st : ExecState L) (stmt : Option (Statement L)) : ExecState L :=
  { st with ctx := st.ctx.pushStack stmt }.record (.push (st.ctx.stackFrame + 1))

def pop (st : ExecState L) : ExecState L :=
  { st with ctx := st.ctx.popStack }.record (.pop st.ctx.stackFrame)

/-- Write `frame.subindex` of the topmost frame. -/
def setSubindex (st : ExecState L) (stmt : Statement L) (subindex : Int) : ExecState L :=
  { st with ctx := { st.ctx with
      stack := st.ctx.stack.set st.ctx.stackFrame.toNat ⟨some stmt, subindex⟩ } }

/-- `++synced` and `--synced` -/
def addSynced (st : ExecState L) (d : Int) : ExecState L :=
  { st with synced := st.synced + d }

/-- The test both instruction limits make. -/
def Exceeds (st : ExecState L) (limit : Nat) : Prop :=
  st.ctx.flags = .success ∧ st.synced = 0 ∧ st.instructionsCounter > limit

instance (st : ExecState L) (limit : Nat) : Decidable (st.Exceeds limit) :=
  inferInstanceAs (Decidable (_ ∧ _))

/-- What both instruction limits do when they are exceeded. -/
def forceSuspension (st : ExecState L) : ExecState L :=
  { st with ctx := { st.ctx with
      flags := .suspendSignalled
      suspendMicroseconds := forceSuspensionMicroseconds } }.record .forced

def limit (st : ExecState L) (n : Nat) : ExecState L :=
  if st.Exceeds n then st.forceSuspension else st

/-! ## What the operations leave alone -/

@[simp] theorem store_setStore (st : ExecState L) (s : Store L.Global) :
    (st.setStore s).store = s := rfl

@[simp] theorem store_record (st : ExecState L) (e : VmEvent L) :
    (st.record e).store = st.store := rfl

@[simp] theorem ctx_record (st : ExecState L) (e : VmEvent L) :
    (st.record e).ctx = st.ctx := rfl

@[simp] theorem synced_record (st : ExecState L) (e : VmEvent L) :
    (st.record e).synced = st.synced := rfl

@[simp] theorem synced_setStore (st : ExecState L) (s : Store L.Global) :
    (st.setStore s).synced = st.synced := rfl

@[simp] theorem flags_setStore (st : ExecState L) (s : Store L.Global) :
    (st.setStore s).ctx.flags = st.ctx.flags := rfl

@[simp] theorem store_setSubindex (st : ExecState L) (stmt : Statement L) (i : Int) :
    (st.setSubindex stmt i).store = st.store := rfl

@[simp] theorem flags_setSubindex (st : ExecState L) (stmt : Statement L) (i : Int) :
    (st.setSubindex stmt i).ctx.flags = st.ctx.flags := rfl

@[simp] theorem synced_setSubindex (st : ExecState L) (stmt : Statement L) (i : Int) :
    (st.setSubindex stmt i).synced = st.synced := rfl

@[simp] theorem ctx_addSynced (st : ExecState L) (d : Int) :
    (st.addSynced d).ctx = st.ctx := rfl

@[simp] theorem store_addSynced (st : ExecState L) (d : Int) :
    (st.addSynced d).store = st.store := rfl

@[simp] theorem synced_addSynced (st : ExecState L) (d : Int) :
    (st.addSynced d).synced = st.synced + d := rfl

@[simp] theorem store_pop (st : ExecState L) : st.pop.store = st.store := rfl

@[simp] theorem flags_pop (st : ExecState L) : st.pop.ctx.flags = st.ctx.flags := rfl

@[simp] theorem synced_pop (st : ExecState L) : st.pop.synced = st.synced := rfl

@[simp] theorem store_push (st : ExecState L) (stmt : Option (Statement L)) :
    (st.push stmt).store = st.store := by
  simp only [push, record, store, ExecContext.pushStack]
  split <;> rfl

@[simp] theorem flags_push (st : ExecState L) (stmt : Option (Statement L)) :
    (st.push stmt).ctx.flags = st.ctx.flags := by
  simp only [push, record, ExecContext.pushStack]
  split <;> rfl

@[simp] theorem synced_push (st : ExecState L) (stmt : Option (Statement L)) :
    (st.push stmt).synced = st.synced := rfl

/-! ## The cases of the switch -/

/-- `case STMT_LEAF` -/
def runLeaf (st : ExecState L) (leaf : L.Leaf) : ExecState L :=
  let r := L.execLeaf leaf st.store
  let st := (st.setStore r.store).record (.leaf leaf)
  let st := { st with ctx := { st.ctx with
    flags := r.flags
    suspendMicroseconds := r.suspendMicroseconds.getD st.ctx.suspendMicroseconds } }
  st.pop

/-- `Statements::statement()`; a negative index is a very large unsigned one. -/
def statementAt (args : List (Statement L)) (i : Int) : Option (Statement L) :=
  if i < 0 then none else args[i.toNat]?

/-- `case STMT_LIST` -/
def runList (st : ExecState L) (args : List (Statement L)) (subindex : Int) :
    ExecState L :=
  match statementAt args subindex with
  | some stmt => (st.setSubindex (.list args) (subindex + 1)).push (some stmt)
  | none => st.pop

/-- `case STMT_BRANCH` -/
def runBranch (st : ExecState L) (stmt : Statement L) (subindex : Int) : ExecState L :=
  if subindex < 0 then st.pop
  else
    let (i, s) := stmt.evalBranch st.store
    let st := (st.setStore s).record (.branch stmt i)
    if i ≥ 0 then
      (st.setSubindex stmt (-1)).push ((stmt.branch i.toNat).map .list)
    else st.pop

/-- `case STMT_LOOP` -/
def runLoop (st : ExecState L) (condition : L.IntExpr) (statements : List (Statement L)) :
    ExecState L :=
  let (v, s) := L.evalInt condition st.store
  let st := (st.setStore s).record (.loop condition (v ≠ 0))
  if v ≠ 0 then (st.push (some (.list statements))).limit instrPerCycleSoft
  else st.pop

/-- `case STMT_SYNC` -/
def runSync (st : ExecState L) (statements : List (Statement L)) (subindex : Int) :
    ExecState L :=
  let st := st.setSubindex (.sync statements) (subindex + 1)
  if subindex = 0 then (st.addSynced 1).push (some (.list statements))
  else st.pop.addSynced (-1)

/-- The switch over the type of the topmost frame's statement. -/
def runStatement (st : ExecState L) (subindex : Int) : Statement L → ExecState L
  | .leaf leaf => st.runLeaf leaf
  | .list args => st.runList args subindex
  | .ifElse c a b => st.runBranch (.ifElse c a b) subindex
  | .selectCase e bs => st.runBranch (.selectCase e bs) subindex
  | .loop c b => st.runLoop c b
  | .sync b => st.runSync b subindex
  | .noop => st

/-- The topmost frame is a reference into the array; the two cases without
a statement would be undefined behaviour. -/
def runFrame (st : ExecState L) : ExecState L :=
  match st.ctx.stack[st.ctx.stackFrame.toNat]? with
  | some ⟨some stmt, subindex⟩ => st.runStatement subindex stmt
  | some ⟨none, _⟩ => st
  | none => st

/-! ## One call -/

/-- The loop condition. -/
def Guard (st : ExecState L) : Prop :=
  st.ctx.flags = .success ∧ st.ctx.stackFrame ≥ 0

instance (st : ExecState L) : Decidable st.Guard :=
  inferInstanceAs (Decidable (_ ∧ _))

/-- The loop body. -/
def iteration (st : ExecState L) : ExecState L :=
  if st.ctx.stackFrame ≥ st.ctx.stack.length then
    { st with ctx := { st.ctx with flags := .abortError } }.record .overflow
  else
    let st := st.runFrame.limit instrPerCycleHard
    { st with instructionsCounter := st.instructionsCounter + 1 }

/-- `exec()` up to the loop, for the handler `h`. -/
def enter (autoSuspend : Bool) (ctx : ExecContext L) (h : Statements L)
    (global : L.Global) : ExecState L :=
  let st : ExecState L :=
    { ctx := { ctx with status := .running, instructionsCount := 0 }
      global := global
      instructionsCounter := 0
      synced := if autoSuspend then 0 else 1
      log := [] }
  if ctx.stackFrame < 0 then
    ({ st with ctx := { st.ctx with stackFrame := -1 } }.record (.start h)).push
      (some (.list h))
  else st

/-- `exec()` after the loop; its result is the context's `status`. -/
def leave (st : ExecState L) : ExecContext L :=
  if st.ctx.flags.suspend ∧ ¬ st.ctx.flags.abort then
    { st.ctx with
      status := .suspended
      flags := .success
      instructionsCount := st.instructionsCounter }
  else
    { st.ctx.reset with
      status := if st.ctx.flags.error then .error else .notRunning
      instructionsCount := st.instructionsCounter }

/-- The given number of turns. -/
def turns : Nat → ExecState L → ExecState L
  | 0, st => st
  | n + 1, st => turns n st.iteration

/-- Whether the loop goes round that often. -/
def goesRound : Nat → ExecState L → Bool
  | 0, _ => true
  | n + 1, st => decide st.Guard && goesRound n st.iteration

end ExecState

end LinuxSampler
