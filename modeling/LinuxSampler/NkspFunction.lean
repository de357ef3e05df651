import LinuxSampler.NkspMem

/-!
# Built-in functions

A built-in function (`VMFunction`) works on its arguments through the
interface `VMFnArgs` alone: it evaluates them, asks for their unit
factors, reads and assigns array elements, assigns an argument that is a
variable. Its `exec()` is therefore a program over these operations, and
what it can do to the script's memory is what its arguments let it do.
-/

namespace LinuxSampler

open OpProg

/-- What is known of an argument without evaluating it. -/
structure ArgInfo where
  exprType : ExprType
  unitType : StdUnit
  isFinal : Bool
  isIntExpr : Bool
  isRealExpr : Bool
  isStringExpr : Bool
deriving Repr, DecidableEq

/-- What `VMFunction::exec()` may call; `arg` is the position of an argument. -/
inductive FnOp where
  | evalInt (arg : Nat)
  | evalReal (arg : Nat)
  | evalStr (arg : Nat)
  | unitFactor (arg : Nat)
  | arraySize (arg : Nat)
  | evalIntElement (arg i : Nat)
  | evalRealElement (arg i : Nat)
  | unitFactorOfElement (arg i : Nat)
  | assignIntElement (arg i : Nat) (value : Int)
  | assignRealElement (arg i : Nat) (value : ℚ)
  | assignElementUnitFactor (arg i : Nat) (factor : ℚ)
  /-- `assignExpr()` of an `IntLiteral` -/
  | assignInt (arg : Nat) (value : Int) (unitFactor : ℚ)
  /-- a conversion to the unit factor `dstFactor` -/
  | convert (dstFactor : ℚ)
  | setSuspendMicroseconds (us : Int)
  | engineRead (addr : Nat)
  | engineWrite (addr : Nat) (value : Int)

abbrev FnOp.Res : FnOp → Type
  | evalInt _ | arraySize _ | evalIntElement _ _ | engineRead _ => Int
  | evalReal _ | unitFactor _ | evalRealElement _ _ | unitFactorOfElement _ _ => ℚ
  | evalStr _ => String
  | _ => Unit

abbrev fnSig : Sig := ⟨FnOp, FnOp.Res⟩

abbrev FnProg (α : Type) := Prog fnSig α

def FnOp.call (o : FnOp) : FnProg o.Res := Prog.perform (S := fnSig) o

/-- What a function leaves in its bound result object. -/
inductive FnValue where
  | empty
  | int (value : Int) (unitFactor : ℚ)
  | real (value : ℚ) (unitFactor : ℚ)
  | str (value : String)

structure FnResult where
  flags : StmtFlags
  value : FnValue

structure VMFunction where
  /-- the function object, which holds the bound result -/
  id : Nat
  returnType : List ArgInfo → ExprType
  returnUnitType : List ArgInfo → StdUnit
  returnsFinal : List ArgInfo → Bool
  exec : List ArgInfo → FnProg FnResult

/-! ## Unit factors -/

/-- The function passes on only unit factors that satisfy `F`, as long as it
gets only such. -/
def fnSpec (F : ℚ → Prop) : Spec fnSig where
  pre
    | .assignElementUnitFactor _ _ f | .assignInt _ _ f | .convert f => F f
    | _ => True
  post
    | .unitFactor _, f => F f
    | .unitFactorOfElement _ _, f => F f
    | _, _ => True
  stop _ := False

def FnValue.FactorOk (F : ℚ → Prop) : FnValue → Prop
  | .int _ f | .real _ f => F f
  | .empty | .str _ => True

def VMFunction.FactorSafe (F : ℚ → Prop) (fn : VMFunction) : Prop :=
  ∀ infos, OpProg.Safe (fnSpec F) (fn.exec infos) fun r => r.value.FactorOk F

/-- Nothing has to be known of a function when all unit factors are fine. -/
theorem VMFunction.factorSafe_of_forall {F : ℚ → Prop} (hF : ∀ f, F f) (fn : VMFunction) :
    fn.FactorSafe F := by
  intro infos
  have hpre : ∀ o, (fnSpec F).pre o := by
    intro o
    unfold fnSpec
    dsimp only
    split <;> first | exact hF _ | trivial
  have hval : ∀ v : FnValue, v.FactorOk F := by
    intro v
    cases v <;> first | exact hF _ | trivial
  generalize fn.exec infos = p
  induction p with
  | pure r => exact hval r.value
  | op o k ih => exact .inr ⟨hpre o, fun r _ => ih r⟩

end LinuxSampler
