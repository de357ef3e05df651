import LinuxSampler.NkspPolicy
import LinuxSampler.VmStore

/-!
# Scripts of the instrument script language

The script language the VM of `ScriptVM::exec()` is run with: leaf
statements are assignments and calls of built-in functions, conditions
are integer expressions. The memory all contexts share carries, besides
its content, the trace of everything done to the script's memory.

A run of a script whose statements a policy permits keeps to the policy
(`Policy.keptBy`).
-/

namespace LinuxSampler

open OpProg

/-- `Assignment` and `FunctionCall` as statements. -/
inductive NkspLeaf where
  | assignment (var value : Expression)
  | functionCall (node : Nat) (fn : Option VMFunction) (args : List Expression)

variable [Platform]

def NkspLeaf.exec : NkspLeaf → MemProg StmtFlags
  | .assignment var value => do
      var.node.assign value.node.toVMExpr
      return .success
  | .functionCall node fn args => ExprNode.execCall node fn (Expression.nodes args)

structure NkspGlobal where
  mem : Mem
  trace : List MemOp

/-- The memory a program works on. -/
def memOf (s : Store NkspGlobal) : Store Mem := ⟨s.global.mem, s.poly⟩

def runProg {α : Type} (p : MemProg α) (s : Store NkspGlobal) : α × Store NkspGlobal :=
  let o := run memMachine p (memOf s)
  (o.val, ⟨⟨o.state.global, s.global.trace ++ o.trace⟩, o.state.poly⟩)

/-- Whether `wait()` is called is seen from the context's member it sets. -/
def clearSuspendMicroseconds (s : Store NkspGlobal) : Store NkspGlobal :=
  { s with global := { s.global with
      mem := Function.update s.global.mem .suspendMicroseconds none } }

def nksp : ScriptLang where
  Leaf := NkspLeaf
  IntExpr := Expression
  Global := NkspGlobal
  execLeaf leaf s :=
    let (flags, s) := runProg leaf.exec (clearSuspendMicroseconds s)
    ⟨flags, s.global.mem .suspendMicroseconds, s⟩
  evalInt e s := runProg e.node.evalInt s

/-! ## Polyphonic statements -/

def NkspLeaf.isPolyphonic : NkspLeaf → Bool
  | .assignment var value => var.node.isPolyphonic || value.node.isPolyphonic
  | .functionCall _ _ args => (Expression.nodes args).any (·.isPolyphonic)

mutual

/-- `Node::isPolyphonic()` of the statement classes. -/
def isPolyphonic : Statement nksp → Bool
  | .leaf leaf => NkspLeaf.isPolyphonic leaf
  | .list args => anyPolyphonic args
  | .ifElse c a none => (Expression.node c).isPolyphonic || anyPolyphonic a
  | .ifElse c a (some b) =>
      (Expression.node c).isPolyphonic || anyPolyphonic a || anyPolyphonic b
  | .selectCase e branches => (Expression.node e).isPolyphonic || anyBranchPolyphonic branches
  | .loop c statements => (Expression.node c).isPolyphonic || anyPolyphonic statements
  | .sync statements => anyPolyphonic statements
  | .noop => false

/-- `Statements::isPolyphonic()` and `EventHandler::isPolyphonic()` -/
def anyPolyphonic : List (Statement nksp) → Bool
  | [] => false
  | stmt :: stmts => isPolyphonic stmt || anyPolyphonic stmts

/-- Only the statements of a case are asked, not its values. -/
def anyBranchPolyphonic : List (CaseBranch Expression (List (Statement nksp))) → Bool
  | [] => false
  | ⟨_, _, statements⟩ :: bs => anyPolyphonic statements || anyBranchPolyphonic bs

end

/-! ## Policies for statements -/

def NkspLeaf.Permitted (A : Policy) : NkspLeaf → Prop
  | .assignment var value => var.Permitted A ∧ value.Permitted A
  | .functionCall _ fn args =>
      (∀ f ∈ fn, f.FactorSafe A.factor) ∧ Expression.allPermitted args A

variable {A : Policy}

theorem NkspLeaf.safe_exec (hA : A.Lawful) : ∀ {leaf : NkspLeaf}, leaf.Permitted A →
    OpProg.Safe A.spec leaf.exec fun _ => True
  | .assignment var value, h =>
      Policy.safe_bind ((var.keeps hA h.1).assign _ (value.keeps hA h.2).expr) fun _ _ =>
        safe_return trivial
  | .functionCall _ _ args, h => ExprNode.safe_execCall hA h.1 (Expression.allKeep args hA h.2)

/-- As long as no note has ended all obligations, the memory is good and
all accesses so far were allowed. -/
def Policy.StoreOk (A : Policy) (s : Store NkspGlobal) : Prop :=
  (∀ o ∈ s.global.trace, ¬ A.spec.stop o) →
    A.Good (memOf s) ∧ ∀ o ∈ s.global.trace, A.spec.pre o

omit [Platform] in
theorem Policy.StoreOk.runProg {α : Type} {p : MemProg α} {Q : α → Prop}
    {s : Store NkspGlobal} (h : A.StoreOk s) (hp : OpProg.Safe A.spec p Q) :
    A.StoreOk (runProg p s).2 := by
  intro hstop
  have hstop' : ∀ o ∈ s.global.trace ++ (run memMachine p (memOf s)).trace, ¬ A.spec.stop o :=
    hstop
  obtain ⟨hgood, hpre⟩ := h fun o ho => hstop' o (List.mem_append_left _ ho)
  obtain ⟨-, hgood', hpre'⟩ :=
    Policy.safe_run hp hgood fun o ho => hstop' o (List.mem_append_right _ ho)
  refine ⟨hgood', fun o ho => ?_⟩
  rcases List.mem_append.mp ho with ho | ho
  · exact hpre o ho
  · exact hpre' o ho

omit [Platform] in
theorem Policy.StoreOk.clearSuspendMicroseconds {s : Store NkspGlobal} (h : A.StoreOk s) :
    A.StoreOk (clearSuspendMicroseconds s) := by
  intro hstop
  obtain ⟨hgood, hpre⟩ := h hstop
  exact ⟨Policy.Good.setCell hgood (c := .suspendMicroseconds) (v := none) trivial, hpre⟩

/-- Permitted statements and conditions keep to the policy. -/
theorem Policy.keptBy (hA : A.Lawful) :
    KeptBy (L := nksp) (NkspLeaf.Permitted A) (fun e => Expression.Permitted e A) A.StoreOk where
  leaf _ hleaf _ hs := hs.clearSuspendMicroseconds.runProg (NkspLeaf.safe_exec hA hleaf)
  expr e he _ hs := hs.runProg (Expression.keeps e hA he).expr.evalInt

end LinuxSampler
