import LinuxSampler.VmStmt
import Mathlib.Algebra.Order.Group.Nat

/-!
# Execution contexts

`ExecContext` of `scriptvm/tree.h`: the persistent part of one script
callback's execution. The stack is an array of fixed size with a separate
frame index, so that a suspended callback can be resumed (and forked) at
the point it was left.

`Holds` reads such an array and index as what it stands for, the list of
the active frames with the topmost one first. `push` and `pop` on the
array are `cons` and `tail` on that list as long as the array is large
enough.
-/

namespace LinuxSampler

/-- `ExecContext::StackFrame`; `none` is the `NULL` statement. -/
structure StackFrame (L : ScriptLang) where
  statement : Option (Statement L)
  subindex : Int

/-- The default constructor, and what `popStack()` leaves behind. -/
def StackFrame.empty {L : ScriptLang} : StackFrame L := ⟨none, -1⟩

structure ExecContext (L : ScriptLang) where
  polyphonic : PolyphonicMemory
  status : VMExecStatus
  flags : StmtFlags
  stack : List (StackFrame L)
  stackFrame : Int
  suspendMicroseconds : Int
  instructionsCount : Nat

/-- `ArrayList::copyFlatFrom()`: copies as many elements as both lists have. -/
def copyFlatFrom {α : Type} (dst src : List α) : List α :=
  src.take dst.length ++ dst.drop src.length

@[simp] theorem length_copyFlatFrom {α : Type} (dst src : List α) :
    (copyFlatFrom dst src).length = dst.length := by
  simp only [copyFlatFrom, List.length_append, List.length_take, List.length_drop]
  omega

theorem copyFlatFrom_of_length_eq {α : Type} {dst src : List α}
    (h : dst.length = src.length) : copyFlatFrom dst src = src := by
  simp [copyFlatFrom, h, List.drop_of_length_le (Nat.le_of_eq h)]

namespace ExecContext

variable {L : ScriptLang}

def pushStack (ctx : ExecContext L) (stmt : Option (Statement L)) : ExecContext L :=
  let stackFrame := ctx.stackFrame + 1
  if stackFrame ≥ ctx.stack.length then { ctx with stackFrame := stackFrame }
  else { ctx with
    stackFrame := stackFrame
    stack := ctx.stack.set stackFrame.toNat ⟨stmt, 0⟩ }

def popStack (ctx : ExecContext L) : ExecContext L :=
  { ctx with
    stack := ctx.stack.set ctx.stackFrame.toNat .empty
    stackFrame := ctx.stackFrame - 1 }

def reset (ctx : ExecContext L) : ExecContext L :=
  { ctx with stack := ctx.stack.set 0 .empty, stackFrame := -1, flags := .success }

def signalAbort (ctx : ExecContext L) : ExecContext L :=
  { ctx with flags := { ctx.flags with abort := true } }

def resetPolyphonicData (ctx : ExecContext L) : ExecContext L :=
  { ctx with polyphonic :=
    { ints := ctx.polyphonic.ints.map fun _ => 0
      reals := ctx.polyphonic.reals.map fun _ => 0
      unitFactors := ctx.polyphonic.unitFactors.map fun _ => 1 } }

/-- `ExecContext::forkTo(ectx)`, the new state of `child`. -/
def forkTo (ctx child : ExecContext L) : ExecContext L :=
  { polyphonic :=
      { ints := copyFlatFrom child.polyphonic.ints ctx.polyphonic.ints
        reals := copyFlatFrom child.polyphonic.reals ctx.polyphonic.reals
        unitFactors := child.polyphonic.unitFactors }
    status := .suspended
    flags := .success
    stack := copyFlatFrom child.stack ctx.stack
    stackFrame := ctx.stackFrame
    suspendMicroseconds := 0
    instructionsCount := 0 }

end ExecContext

/-- The sizes the parser has counted up in `ParserContext`. -/
structure PolyphonicSizes where
  polyphonicIntVarCount : Nat
  polyphonicRealVarCount : Nat
  polyphonicUnitFactorCount : Nat
deriving Repr, DecidableEq

def PolyphonicMemory.sizes (m : PolyphonicMemory) : PolyphonicSizes :=
  ⟨m.ints.length, m.reals.length, m.unitFactors.length⟩

/-- `ScriptVM::createExecContext()` for a script with these handlers. -/
def createExecContext {L : ScriptLang} (sizes : PolyphonicSizes)
    (handlers : List (Statements L)) : ExecContext L :=
  { polyphonic :=
      { ints := List.replicate sizes.polyphonicIntVarCount 0
        reals := List.replicate sizes.polyphonicRealVarCount 0
        unitFactors := List.replicate sizes.polyphonicUnitFactorCount 1 }
    status := .notRunning
    flags := .success
    stack := List.replicate (requiredMaxStackSizeForHandlers handlers) .empty
    stackFrame := -1
    suspendMicroseconds := 0
    instructionsCount := 0 }

/-! ## The active frames -/

/-- A frame in use. -/
structure Frame (L : ScriptLang) where
  statement : Statement L
  subindex : Int

section

variable {L : ScriptLang}

def Frame.toStackFrame (f : Frame L) : StackFrame L := ⟨some f.statement, f.subindex⟩

/-- A statement just pushed. -/
abbrev Frame.ofStatement (stmt : Statement L) : Frame L := ⟨stmt, 0⟩

/-- The stack array together with its frame index represents `frames`, topmost first. -/
def ExecContext.Holds (ctx : ExecContext L) (frames : List (Frame L)) : Prop :=
  ctx.stackFrame = frames.length - 1 ∧
    ∃ unused, ctx.stack = frames.reverse.map Frame.toStackFrame ++ unused

theorem ExecContext.Holds.length_le {ctx : ExecContext L} {frames : List (Frame L)}
    (h : ctx.Holds frames) : frames.length ≤ ctx.stack.length := by
  obtain ⟨-, unused, hstack⟩ := h
  simp [hstack]

/-- Only the stack and its index matter. -/
theorem ExecContext.Holds.congr {ctx ctx' : ExecContext L} {frames : List (Frame L)}
    (h : ctx.Holds frames) (hstack : ctx'.stack = ctx.stack)
    (hframe : ctx'.stackFrame = ctx.stackFrame) : ctx'.Holds frames := by
  unfold Holds
  rw [hstack, hframe]
  exact h

theorem ExecContext.Holds.nil_of_neg {ctx : ExecContext L} (h : ctx.stackFrame = -1) :
    ctx.Holds [] := ⟨by simp [h], ctx.stack, rfl⟩

/-- Frame index -1 is the empty stack. -/
theorem ExecContext.Holds.neg_iff {ctx : ExecContext L} {frames : List (Frame L)}
    (h : ctx.Holds frames) : ctx.stackFrame < 0 ↔ frames = [] := by
  rw [h.1, ← List.length_eq_zero_iff]
  omega

/-- `ctx->stack[frameIdx]` is the topmost frame. -/
theorem ExecContext.Holds.top {ctx : ExecContext L} {f : Frame L} {frames : List (Frame L)}
    (h : ctx.Holds (f :: frames)) :
    ctx.stack[ctx.stackFrame.toNat]? = some f.toStackFrame := by
  obtain ⟨hframe, unused, hstack⟩ := h
  have hidx : ctx.stackFrame.toNat = (frames.reverse.map Frame.toStackFrame).length := by
    simp only [hframe, List.length_cons, List.length_map, List.length_reverse]
    omega
  rw [hstack, hidx, List.reverse_cons, List.map_append, List.append_assoc,
    List.getElem?_append_right (Nat.le_refl _)]
  simp

/-- The topmost frame can be overwritten in place. -/
theorem ExecContext.Holds.set_top {ctx : ExecContext L} {f : Frame L}
    {frames : List (Frame L)} (h : ctx.Holds (f :: frames)) (g : Frame L) :
    { ctx with stack := ctx.stack.set ctx.stackFrame.toNat g.toStackFrame }.Holds
      (g :: frames) := by
  obtain ⟨hframe, unused, hstack⟩ := h
  have hidx : ctx.stackFrame.toNat = (frames.reverse.map Frame.toStackFrame).length := by
    simp only [hframe, List.length_cons, List.length_map, List.length_reverse]
    omega
  refine ⟨hframe, unused, ?_⟩
  simp only [hidx]
  rw [hstack, List.reverse_cons, List.map_append, List.append_assoc,
    List.set_append_right _ _ (Nat.le_refl _)]
  simp

theorem ExecContext.Holds.pushStack {ctx : ExecContext L} {frames : List (Frame L)}
    (h : ctx.Holds frames) (hroom : frames.length < ctx.stack.length)
    (stmt : Statement L) :
    (ctx.pushStack (some stmt)).Holds (.ofStatement stmt :: frames) := by
  obtain ⟨hframe, unused, hstack⟩ := h
  have hlt : ¬ ctx.stackFrame + 1 ≥ ctx.stack.length := by omega
  have hidx : (ctx.stackFrame + 1).toNat = (frames.reverse.map Frame.toStackFrame).length := by
    simp only [hframe, List.length_map, List.length_reverse]
    omega
  simp only [ExecContext.pushStack, if_neg hlt]
  refine ⟨by simp only [hframe, List.length_cons]; omega, unused.drop 1, ?_⟩
  cases unused with
  | nil =>
      rw [hstack] at hroom
      simp at hroom
  | cons u unused =>
      simp only [hidx]
      rw [hstack, List.set_append_right _ _ (Nat.le_refl _)]
      simp [Frame.toStackFrame]

theorem ExecContext.Holds.popStack {ctx : ExecContext L} {f : Frame L}
    {frames : List (Frame L)} (h : ctx.Holds (f :: frames)) :
    ctx.popStack.Holds frames := by
  obtain ⟨hframe, unused, hstack⟩ := h
  have hidx : ctx.stackFrame.toNat = (frames.reverse.map Frame.toStackFrame).length := by
    simp only [hframe, List.length_cons, List.length_map, List.length_reverse]
    omega
  refine ⟨by simp only [ExecContext.popStack, hframe, List.length_cons]; omega,
    .empty :: unused, ?_⟩
  simp only [ExecContext.popStack, hidx]
  rw [hstack, List.reverse_cons, List.map_append, List.append_assoc,
    List.set_append_right _ _ (Nat.le_refl _)]
  simp

end

end LinuxSampler
