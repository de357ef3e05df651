import Mathlib.Data.Rat.Defs

/-!
# Script statements

The syntax tree of a script's event handlers as the script VM sees it:
the statement classes of `scriptvm/tree.h` with the one method of each
that the executor calls, and the static stack bound
`_requiredMaxStackSizeFor` that `createExecContext` allocates by.

The tree is generic in what a leaf statement does and in what an
integer expression evaluates to (`ScriptLang`): the executor knows
neither, it only calls `LeafStatement::exec()` and `IntExpr::evalInt()`.
-/

namespace LinuxSampler

/-- `StmtFlags_t`, one field for each bit of the flag set. -/
structure StmtFlags where
  /-- `STMT_ABORT_SIGNALLED` -/
  abort : Bool
  /-- `STMT_SUSPEND_SIGNALLED` -/
  suspend : Bool
  /-- `STMT_ERROR_OCCURRED` -/
  error : Bool
deriving Repr, DecidableEq

namespace StmtFlags

/-- `STMT_SUCCESS`: no bit is set. -/
def success : StmtFlags := ⟨false, false, false⟩

/-- `STMT_SUSPEND_SIGNALLED` alone. -/
def suspendSignalled : StmtFlags := ⟨false, true, false⟩

/-- `STMT_ABORT_SIGNALLED | STMT_ERROR_OCCURRED`. -/
def abortError : StmtFlags := ⟨true, false, true⟩

end StmtFlags

/-- `VMExecStatus_t`. -/
inductive VMExecStatus where
  | notRunning
  | running
  | suspended
  | error
deriving Repr, DecidableEq

/-- The variable memory that belongs to one execution context. The
elements are `vmint` and `vmfloat`; real arithmetic is idealised as
exact rational arithmetic throughout. -/
structure PolyphonicMemory where
  ints : List Int
  reals : List ℚ
  unitFactors : List ℚ
deriving Repr, DecidableEq

/-- Everything a statement can read or write: the memory all contexts
share and the polyphonic memory of the executed one. -/
structure Store (Global : Type) where
  global : Global
  poly : PolyphonicMemory

/-- What `LeafStatement::exec()` leaves behind. `suspendMicroseconds` is
set where the statement writes that member of the context (`wait()`). -/
structure LeafResult (Global : Type) where
  flags : StmtFlags
  suspendMicroseconds : Option Int
  store : Store Global

/-- The part of the script language the executor is generic in. -/
structure ScriptLang where
  Leaf : Type
  IntExpr : Type
  Global : Type
  /-- `LeafStatement::exec()` -/
  execLeaf : Leaf → Store Global → LeafResult Global
  /-- `IntExpr::evalInt()`; evaluation may run built-in functions, hence
  the new store -/
  evalInt : IntExpr → Store Global → Int × Store Global

/-- The statements of `counterLang`. -/
inductive CounterLeaf where
  | inc
  | wait
deriving Repr, DecidableEq

/-- A language small enough to follow a run by hand: one global variable,
`inc()` and `wait()` on it, and a comparison with a constant as the only
condition. -/
def counterLang : ScriptLang where
  Leaf := CounterLeaf
  IntExpr := Int
  Global := Int
  execLeaf
    | .inc, s => ⟨.success, none, { s with global := s.global + 1 }⟩
    | .wait, s => ⟨.suspendSignalled, some 1, s⟩
  evalInt n s := (if s.global < n then 1 else 0, s)

/-- One `case` of a `select` statement; without an upper value it is a single
value. -/
structure CaseBranch (Expr Stmts : Type) where
  «from» : Expr
  «to» : Option Expr
  statements : Stmts

/-- The statement classes. The parser always builds a `Statements`
object for a body, so bodies are lists and never `NULL`; `noop` is built
for a declaration and filtered out again before it reaches a list. -/
inductive Statement (L : ScriptLang) where
  | leaf (stmt : L.Leaf)
  | list (args : List (Statement L))
  | ifElse (condition : L.IntExpr) (ifStatements : List (Statement L))
      (elseStatements : Option (List (Statement L)))
  | selectCase (select : L.IntExpr)
      (branches : List (CaseBranch L.IntExpr (List (Statement L))))
  | loop (condition : L.IntExpr) (statements : List (Statement L))
  | sync (statements : List (Statement L))
  | noop

/-- A `Statements` object; the handlers and all bodies are such lists. -/
abbrev Statements (L : ScriptLang) := List (Statement L)

section

variable {L : ScriptLang}

/-! ## Branching -/

/-- The loop of `SelectCase::evalBranch()` from case `i` on, for the
selected `value`. -/
def selectBranch (value : Int) :
    Int → List (CaseBranch L.IntExpr (Statements L)) → Store L.Global →
      Int × Store L.Global
  | _, [], s => (-1, s)
  | i, b :: bs, s =>
      match b.«to» with
      | some hiExpr =>
          let (lo, s) := L.evalInt b.«from» s
          if lo ≤ value then
            let (hi, s) := L.evalInt hiExpr s
            if hi ≥ value then (i, s) else selectBranch value (i + 1) bs s
          else selectBranch value (i + 1) bs s
      | none =>
          let (v, s) := L.evalInt b.«from» s
          if v = value then (i, s) else selectBranch value (i + 1) bs s

/-- `BranchStatement::evalBranch()`: the index of the branch to take, or
-1. The other statements are no branch statements. -/
def Statement.evalBranch : Statement L → Store L.Global → Int × Store L.Global
  | .ifElse condition _ elseStatements, s =>
      let (v, s) := L.evalInt condition s
      if v ≠ 0 then (0, s) else if elseStatements.isSome then (1, s) else (-1, s)
  | .selectCase select branches, s =>
      let (value, s) := L.evalInt select s
      selectBranch value 0 branches s
  | _, s => (-1, s)

/-- `BranchStatement::branch()`. -/
def Statement.branch : Statement L → Nat → Option (Statements L)
  | .ifElse _ ifStatements elseStatements, i =>
      if i = 0 then some ifStatements else if i = 1 then elseStatements else none
  | .selectCase _ branches, i => branches[i]?.map (·.statements)
  | _, _ => none

/-- `STMT_BRANCH` -/
def Statement.isBranch : Statement L → Bool
  | .ifElse .. | .selectCase .. => true
  | _ => false

theorem selectBranch_range (value : Int) :
    ∀ (bs : List (CaseBranch L.IntExpr (Statements L))) (i : Int) (s : Store L.Global),
      0 ≤ i → (selectBranch value i bs s).1 = -1 ∨
        i ≤ (selectBranch value i bs s).1 ∧
          (selectBranch value i bs s).1 < i + bs.length
  | [], _, _, _ => Or.inl rfl
  | b :: bs, i, s, hi => by
      have next : ∀ s', (selectBranch value (i + 1) bs s').1 = -1 ∨
          i ≤ (selectBranch value (i + 1) bs s').1 ∧
            (selectBranch value (i + 1) bs s').1 < i + (b :: bs).length := by
        intro s'
        rcases selectBranch_range value bs (i + 1) s' (by omega) with h | h
        · exact Or.inl h
        · simp only [List.length_cons]
          omega
      have here : i ≤ i ∧ i < i + (b :: bs).length := by
        simp only [List.length_cons]
        omega
      simp only [selectBranch]
      cases b.«to» with
      | some hiExpr =>
          simp only
          split
          · split
            · exact Or.inr here
            · exact next _
          · exact next _
      | none =>
          simp only
          split
          · exact Or.inr here
          · exact next _

theorem Statement.evalBranch_selectCase (select : L.IntExpr)
    (branches : List (CaseBranch L.IntExpr (Statements L))) (s : Store L.Global) :
    (Statement.selectCase select branches).evalBranch s =
      selectBranch (L.evalInt select s).1 0 branches (L.evalInt select s).2 := rfl

/-- A branch statement only ever selects a branch it has, so `exec()`
never pushes a `NULL` statement. -/
theorem Statement.branch_evalBranch (stmt : Statement L) (s : Store L.Global)
    (h : 0 ≤ (stmt.evalBranch s).1) :
    ∃ body, stmt.branch (stmt.evalBranch s).1.toNat = some body := by
  cases stmt with
  | ifElse condition ifStatements elseStatements =>
      cases elseStatements with
      | none =>
          simp only [evalBranch, branch, Option.isSome_none, Bool.false_eq_true,
            if_false] at h ⊢
          split at h
          · exact ⟨ifStatements, by simp [*]⟩
          · simp at h
      | some body =>
          simp only [evalBranch, branch, Option.isSome_some, if_true]
          split
          · exact ⟨ifStatements, rfl⟩
          · exact ⟨body, rfl⟩
  | selectCase select branches =>
      rw [evalBranch_selectCase] at h ⊢
      rcases selectBranch_range (L.evalInt select s).1 branches 0 (L.evalInt select s).2
        (Int.le_refl 0) with hneg | ⟨-, hlt⟩
      · omega
      · generalize (selectBranch _ 0 branches _).1 = i at h hlt ⊢
        have hi : i.toNat < branches.length := by omega
        exact ⟨branches[i.toNat].statements, by simp [branch, hi]⟩
  | leaf _ | list _ | loop _ _ | sync _ | noop => simp [evalBranch] at h

/-! ## The static stack bound -/

mutual

/-- `_requiredMaxStackSizeFor(Statement*)`: the frames needed to execute
a statement, its own one included. -/
def requiredMaxStackSizeFor : Statement L → Nat
  | .leaf _ => 1
  | .list args => maxStackSizeOfList args + 1
  | .ifElse _ ifStatements none => (maxStackSizeOfList ifStatements + 1) + 1
  | .ifElse _ ifStatements (some elseStatements) =>
      max (maxStackSizeOfList ifStatements + 1) (maxStackSizeOfList elseStatements + 1) + 1
  | .selectCase _ branches => maxStackSizeOfBranches branches + 1
  | .loop _ statements => (maxStackSizeOfList statements + 1) + 1
  | .sync statements => (maxStackSizeOfList statements + 1) + 1
  | .noop => 1

/-- The maximum over `stmts->statement(i)`. -/
def maxStackSizeOfList : List (Statement L) → Nat
  | [] => 0
  | stmt :: stmts => max (requiredMaxStackSizeFor stmt) (maxStackSizeOfList stmts)

/-- The maximum over `branchStmt->branch(i)`. -/
def maxStackSizeOfBranches :
    List (CaseBranch L.IntExpr (List (Statement L))) → Nat
  | [] => 0
  | ⟨_, _, statements⟩ :: bs =>
      max (maxStackSizeOfList statements + 1) (maxStackSizeOfBranches bs)

end

/-- `_requiredMaxStackSizeFor(EventHandlers*)`. -/
def requiredMaxStackSizeForHandlers : List (Statements L) → Nat
  | [] => 1
  | h :: hs => max (requiredMaxStackSizeFor (.list h)) (requiredMaxStackSizeForHandlers hs)

theorem requiredMaxStackSizeFor_pos (stmt : Statement L) :
    0 < requiredMaxStackSizeFor stmt := by
  cases stmt with
  | ifElse _ _ e => cases e <;> simp [requiredMaxStackSizeFor]
  | leaf _ | list _ | selectCase _ _ | loop _ _ | sync _ | noop =>
      simp [requiredMaxStackSizeFor]

theorem requiredMaxStackSizeFor_le_of_mem {stmt : Statement L} :
    ∀ {stmts : List (Statement L)}, stmt ∈ stmts →
      requiredMaxStackSizeFor stmt ≤ maxStackSizeOfList stmts
  | s :: stmts, h => by
      rw [maxStackSizeOfList]
      rcases List.mem_cons.mp h with rfl | h
      · exact Nat.le_max_left ..
      · exact Nat.le_trans (requiredMaxStackSizeFor_le_of_mem h) (Nat.le_max_right ..)

theorem maxStackSizeOfList_le_branches {b : CaseBranch L.IntExpr (Statements L)} :
    ∀ {bs : List (CaseBranch L.IntExpr (Statements L))}, b ∈ bs →
      maxStackSizeOfList b.statements + 1 ≤ maxStackSizeOfBranches bs
  | ⟨_, _, _⟩ :: bs, h => by
      rw [maxStackSizeOfBranches]
      rcases List.mem_cons.mp h with rfl | h
      · exact Nat.le_max_left ..
      · exact Nat.le_trans (maxStackSizeOfList_le_branches h) (Nat.le_max_right ..)

/-- Every branch fits under its branch statement. -/
theorem requiredMaxStackSizeFor_branch {stmt : Statement L} {i : Nat}
    {body : Statements L} (h : stmt.branch i = some body) :
    requiredMaxStackSizeFor (.list body) + 1 ≤ requiredMaxStackSizeFor stmt := by
  cases stmt with
  | ifElse c a e =>
      simp only [Statement.branch] at h
      cases e with
      | none =>
          split at h
          · cases h
            simp [requiredMaxStackSizeFor]
          · simp at h
      | some b =>
          split at h
          · cases h
            simp only [requiredMaxStackSizeFor]
            omega
          · split at h
            · cases h
              simp only [requiredMaxStackSizeFor]
              omega
            · cases h
  | selectCase _ branches =>
      obtain ⟨b, hb, rfl⟩ := Option.map_eq_some_iff.mp h
      have := maxStackSizeOfList_le_branches (List.mem_of_getElem? hb)
      simp only [requiredMaxStackSizeFor]
      omega
  | leaf _ | list _ | loop _ _ | sync _ | noop => simp [Statement.branch] at h

theorem requiredMaxStackSizeFor_handler {h : Statements L} :
    ∀ {hs : List (Statements L)}, h ∈ hs →
      requiredMaxStackSizeFor (.list h) ≤ requiredMaxStackSizeForHandlers hs
  | h' :: hs, hmem => by
      rw [requiredMaxStackSizeForHandlers]
      rcases List.mem_cons.mp hmem with rfl | hmem
      · exact Nat.le_max_left ..
      · exact Nat.le_trans (requiredMaxStackSizeFor_handler hmem) (Nat.le_max_right ..)

theorem requiredMaxStackSizeForHandlers_pos :
    ∀ hs : List (Statements L), 0 < requiredMaxStackSizeForHandlers hs
  | [] => Nat.one_pos
  | h :: hs => by
      rw [requiredMaxStackSizeForHandlers]
      have := requiredMaxStackSizeForHandlers_pos hs
      omega

end

end LinuxSampler
