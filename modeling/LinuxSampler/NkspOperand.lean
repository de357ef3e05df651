import LinuxSampler.NkspCall
import LinuxSampler.NkspCoreFn

/-!
# Numbers as operands

What an expression answers that writes nothing but the state of its own node
(`NumberOperand`): literals and elements of arrays are such, and a relation of
two of them compares the numbers with their unit factors. What a function
answers follows from what its arguments do, operation by operation
(`FnYields`).
-/

namespace LinuxSampler

open OpProg ExprNode

/-! ## Runs and the memory they leave -/

/-- The program returns `a` and leaves the memory `t`. -/
def RunsTo {α : Type} (p : MemProg α) (s : Store Mem) (a : α) (t : Store Mem) : Prop :=
  (run memMachine p s).val = a ∧ (run memMachine p s).state = t

namespace RunsTo

variable {α β : Type} {s t u : Store Mem}

theorem bind {p : MemProg α} {f : α → MemProg β} {a : α} {b : β} (hp : RunsTo p s a t)
    (hf : RunsTo (f a) t b u) : RunsTo (p >>= f) s b u := by
  obtain ⟨hval, hstate⟩ := hp
  unfold RunsTo
  rw [val_bind, state_bind, hval, hstate]
  exact hf

theorem map {p : MemProg α} {a : α} (hp : RunsTo p s a t) (g : α → β) :
    RunsTo (g <$> p) s (g a) t :=
  hp.bind (f := fun a => Pure.pure (g a)) ⟨rfl, rfl⟩

end RunsTo

/-- The memories hold the same in all variables and arrays. -/
def SameMemory (s t : Store Mem) : Prop :=
  ∀ c : Cell, c.isNodeState = false → getCell t c = getCell s c

namespace SameMemory

variable {s t : Store Mem}

theorem refl (s : Store Mem) : SameMemory s s := fun _ _ => rfl

theorem setCell (h : SameMemory s t) {c : Cell} (hc : c.isNodeState) (v : c.Val) :
    SameMemory s (setCell t c v) := by
  intro d hd
  have hne : d ≠ c := by
    rintro rfl
    exact Bool.noConfusion (hd.symm.trans hc)
  exact (Policy.getCell_setCell_of_ne t hne v).trans (h d hd)

end SameMemory

/-- The value that the program returns. -/
def valueIn {α : Type} (s : Store Mem) (p : MemProg α) : α := (run memMachine p s).val

/-- The program returns what it finds in variables and arrays. -/
def ReadsMemory {α : Type} (p : MemProg α) : Prop :=
  ∀ s t, SameMemory s t → Yields p t (valueIn s p)

namespace ReadsMemory

variable {α : Type}

theorem pure (a : α) : ReadsMemory (Pure.pure a : MemProg α) := fun _ _ _ => .pure a

theorem read {c : Cell} (hc : c.isNodeState = false) : ReadsMemory (LinuxSampler.read c) :=
  fun _ _ h => ⟨h c hc, rfl⟩

theorem ite {c : Prop} [Decidable c] {p q : MemProg α} (hp : ReadsMemory p) (hq : ReadsMemory q) :
    ReadsMemory (if c then p else q) := by
  split
  · exact hp
  · exact hq

end ReadsMemory

namespace ArrayExpr

variable (a : ArrayExpr) (i : Nat)

theorem reads_arraySize : ReadsMemory a.arraySize := by
  cases a with
  | intArray a | realArray a | builtInIntArray id size => exact .pure _
  | dynIntArray v => exact .read (c := .dynArraySize v) rfl

theorem reads_evalIntElement : ReadsMemory (a.evalIntElement i) := by
  cases a with
  | intArray a => exact .ite (.pure _) (.read (c := .intElement a i) rfl)
  | realArray a => exact .pure _
  | builtInIntArray id size => exact .ite (.pure _) (.read (c := .builtInElement id i) rfl)
  | dynIntArray v => exact .read (c := .dynElement v i) rfl

theorem reads_evalRealElement : ReadsMemory (a.evalRealElement i) := by
  cases a with
  | realArray a => exact .ite (.pure _) (.read (c := .realElement a i) rfl)
  | _ => exact .pure _

theorem reads_unitFactorOfElement : ReadsMemory (a.unitFactorOfElement i) := by
  cases a with
  | intArray a => exact .ite (.pure _) (.read (c := .intElementFactor a i) rfl)
  | realArray a => exact .ite (.pure _) (.read (c := .realElementFactor a i) rfl)
  | _ => exact .pure _

end ArrayExpr

/-! ## Numbers with their unit factors -/

/-- The value and the unit factor of a number expression. -/
structure Quantity where
  value : Number
  unitFactor : ℚ
deriving DecidableEq

namespace Number

def exprType : Number → ExprType
  | .int _ => .int
  | .real _ => .real

variable [Platform]

/-- `Unit::convIntToUnitFactor()` or `Unit::convRealToUnitFactor()` -/
def convert (n : Number) (srcFactor dstFactor : ℚ) : Number :=
  match n with
  | .int v => .int (convIntToUnitFactor v srcFactor dstFactor)
  | .real v => .real (convRealToUnitFactor v srcFactor dstFactor)

theorem isEqual_int (v w : Int) : (Number.int v).isEqual (.int w) = decide (v = w) := rfl

end Number

namespace Quantity

variable [Platform]

/-- Two numbers of one type as a relation compares them. -/
def converted (l r : Quantity) : Number × Number :=
  if Platform.eq l.unitFactor r.unitFactor then (l.value, r.value)
  else if Platform.lt l.unitFactor r.unitFactor then
    (l.value, r.value.convert r.unitFactor l.unitFactor)
  else (l.value.convert l.unitFactor r.unitFactor, r.value)

/-- What `l = r` is. -/
def isEqual (l r : Quantity) : Bool := (l.converted r).1.isEqual (l.converted r).2

end Quantity

namespace Yields

variable [Platform] {s : Store Mem}

/-- Numbers of one type are compared with both at the smaller unit factor. -/
theorem relation_equal {α : Type} (number : α → Number) {conv : α → ℚ → ℚ → MemProg α}
    {converted : α → ℚ → ℚ → α}
    (hnumber : ∀ v src dst, (number v).convert src dst = number (converted v src dst))
    (hconv : ∀ v src dst, Yields (conv v src dst) s (converted v src dst))
    (lvalue rvalue : α) (lfactor rfactor : ℚ) :
    Yields
      (if Platform.eq lfactor rfactor then
        return evalRelation .equal (number lvalue) (number rvalue)
      else if Platform.lt lfactor rfactor then
        return evalRelation .equal (number lvalue) (number (← conv rvalue rfactor lfactor))
      else return evalRelation .equal (number (← conv lvalue lfactor rfactor)) (number rvalue)) s
      (Quantity.isEqual ⟨number lvalue, lfactor⟩ ⟨number rvalue, rfactor⟩) := by
  unfold Quantity.isEqual Quantity.converted
  by_cases heq : Platform.eq lfactor rfactor = true
  · rw [if_pos heq, if_pos heq]
    exact .pure _
  · rw [if_neg heq, if_neg heq]
    by_cases hlt : Platform.lt lfactor rfactor = true
    · rw [if_pos hlt, if_pos hlt, hnumber]
      exact (hconv rvalue rfactor lfactor).bind (.pure _)
    · rw [if_neg hlt, if_neg hlt, hnumber]
      exact (hconv lvalue lfactor rfactor).bind (.pure _)

theorem evalIntRelation_equal (lvalue rvalue : Int) (lfactor rfactor : ℚ) :
    Yields (LinuxSampler.evalIntRelation .equal lvalue rvalue lfactor rfactor) s
      (Quantity.isEqual ⟨.int lvalue, lfactor⟩ ⟨.int rvalue, rfactor⟩) :=
  relation_equal .int (fun _ _ _ => rfl) Yields.convInt _ _ _ _

theorem evalRealRelation_equal (lvalue rvalue lfactor rfactor : ℚ) :
    Yields (LinuxSampler.evalRealRelation .equal (.real lvalue) (.real rvalue) lfactor rfactor) s
      (Quantity.isEqual ⟨.real lvalue, lfactor⟩ ⟨.real rvalue, rfactor⟩) :=
  relation_equal .real (fun _ _ _ => rfl) Yields.convReal _ _ _ _

end Yields

/-! ## Elements of arrays -/

namespace ArrayExpr

/-- The number of elements. -/
def sizeIn (s : Store Mem) (a : ArrayExpr) : Int := valueIn s a.arraySize

/-- Element `i` with its unit factor. -/
def elementIn (s : Store Mem) (a : ArrayExpr) (i : Nat) : Quantity where
  value :=
    if a.exprType = .realArr then .real (valueIn s (a.evalRealElement i))
    else .int (valueIn s (a.evalIntElement i))
  unitFactor := valueIn s (a.unitFactorOfElement i)

end ArrayExpr

variable [Platform]

namespace ExprNode

/-- The node of `a[i]`. -/
def arrayElement (node : Nat) (a : ArrayExpr) (i : Nat) : ExprNode :=
  let index := (intLiteral i noFactor .noUnit false).toVMExpr
  if a.exprType = .realArr then realArrayElement node a index else intArrayElement node a index

/-- The node of a number in a script. -/
def numberLiteral (x : Quantity) : ExprNode :=
  match x.value with
  | .int v => intLiteral v x.unitFactor .noUnit false
  | .real v => realLiteral v x.unitFactor .noUnit false

end ExprNode

/-! ## Operands -/

/-- The expression is the number `q` in every memory that is like `s`. Evaluating
it writes only cells that are its own, and they tell its unit factor. -/
structure NumberOperand (expr : ExprNode) (own : Cell → Prop) (s : Store Mem) (q : Quantity) :
    Prop where
  exprType : expr.exprType = q.value.exprType
  eval : ∀ t, SameMemory s t → ∃ u,
    RunsTo (evalNumber expr.toVMExpr) t q.value u ∧ SameMemory s u ∧
      (∀ c, ¬ own c → getCell u c = getCell t c) ∧
      ∀ v, SameMemory s v → (∀ c, own c → getCell v c = getCell u c) →
        Yields expr.unitFactor v q.unitFactor

omit [Platform] in
theorem RunsTo.of_evalInt {expr : VMExpr} {s t : Store Mem} {v : Int} (ht : expr.exprType = .int)
    (h : RunsTo (evalNumber expr) s (.int v) t) : RunsTo expr.evalInt s v t := by
  have hmap : evalNumber expr = .int <$> expr.evalInt := by
    rw [evalNumber, ht]
    rfl
  rw [hmap] at h
  obtain ⟨hval, hstate⟩ := h
  have hv := val_bind expr.evalInt (fun i => Pure.pure (Number.int i)) s
  have hs := state_bind expr.evalInt (fun i => Pure.pure (Number.int i)) s
  exact ⟨Number.int.inj (hv.symm.trans hval), hs.symm.trans hstate⟩

namespace NumberOperand

variable {l r : ExprNode} {own own' : Cell → Prop} {s : Store Mem} {p q : Quantity}

/-- The relation node compares the numbers. -/
theorem relationHolds (hl : NumberOperand l own s p) (hr : NumberOperand r own' s q)
    (hown : ∀ c, own c → ¬ own' c) (htype : p.value.exprType = q.value.exprType) :
    valueIn s (relationHolds l .equal r) = p.isEqual q := by
  obtain ⟨t, hlval, hst, -, hlf⟩ := hl.eval s (.refl s)
  obtain ⟨u, hrval, hsu, hkeep, hrf⟩ := hr.eval t hst
  have hlfactor := hlf u hsu fun c hc => hkeep c (hown c hc)
  have hrfactor := hrf u hsu fun _ _ => rfl
  obtain ⟨pv, pf⟩ := p
  obtain ⟨qv, qf⟩ := q
  have hlt := hl.exprType
  have hrt := hr.exprType
  suffices h : RunsTo (ExprNode.relationHolds l .equal r) s (Quantity.isEqual ⟨pv, pf⟩ ⟨qv, qf⟩) u
    from h.1
  unfold ExprNode.relationHolds
  cases pv with
  | int v =>
      cases qv with
      | int w =>
          rw [hlt, hrt]
          exact (hlval.of_evalInt hlt).bind ((hrval.of_evalInt hrt).bind
            (RunsTo.bind hlfactor (RunsTo.bind hrfactor (Yields.evalIntRelation_equal v w pf qf))))
      | real w => cases htype
  | real v =>
      cases qv with
      | int w => cases htype
      | real w =>
          rw [hlt, hrt]
          exact hlval.bind (hrval.bind
            (RunsTo.bind hlfactor (RunsTo.bind hrfactor (Yields.evalRealRelation_equal v w pf qf))))

theorem withIndex {α : Type} {node i : Nat} {a : ArrayExpr} {t : Store Mem} {outside : α}
    (inside : Nat → MemProg α) (hst : SameMemory s t) (hi : (i : Int) < a.sizeIn s)
    (hread : ReadsMemory (inside i)) :
    RunsTo (ExprNode.withIndex node a (intLiteral i noFactor .noUnit false).toVMExpr outside inside)
      t (valueIn s (inside i)) (setCell t (.currentIndex node) (i : Int)) := by
  have hsu := hst.setCell (c := .currentIndex node) rfl (i : Int)
  have hin : ¬ ((i : Int) < 0 ∨ (i : Int) ≥ a.sizeIn s) := by omega
  have hwrite : RunsTo (write (.currentIndex node) (i : Int)) t ()
      (setCell t (.currentIndex node) (i : Int)) := ⟨rfl, rfl⟩
  refine hwrite.bind (RunsTo.bind (a.reads_arraySize s _ hsu) ?_)
  show RunsTo (if (i : Int) < 0 ∨ (i : Int) ≥ a.sizeIn s then _ else _) _ _ _
  rw [if_neg hin]
  exact hread s _ hsu

omit [Platform] in
theorem elementUnitFactor {node i : Nat} {a : ArrayExpr} {t : Store Mem} (hst : SameMemory s t)
    (hi : (i : Int) < a.sizeIn s) (hindex : getCell t (.currentIndex node) = (i : Int)) :
    Yields (ExprNode.elementUnitFactor node a) t (valueIn s (a.unitFactorOfElement i)) := by
  have hin : ¬ ((i : Int) < 0 ∨ (i : Int) ≥ a.sizeIn s) := by omega
  have hread : Yields (read (.currentIndex node)) t (i : Int) := ⟨hindex, rfl⟩
  refine hread.bind ((a.reads_arraySize s t hst).bind ?_)
  show Yields (if (i : Int) < 0 ∨ (i : Int) ≥ a.sizeIn s then _ else _) _ _
  rw [if_neg hin]
  exact a.reads_unitFactorOfElement i s t hst

/-- An array element keeps its index in its own node. -/
theorem of_element {node i : Nat} {a : ArrayExpr} (hi : (i : Int) < a.sizeIn s) :
    NumberOperand (arrayElement node a i) (· = .currentIndex node) s (a.elementIn s i) := by
  have heval : ∀ t, SameMemory s t →
      RunsTo (evalNumber (arrayElement node a i).toVMExpr) t (a.elementIn s i).value
        (setCell t (.currentIndex node) (i : Int)) := by
    intro t hst
    unfold arrayElement ArrayExpr.elementIn
    by_cases ha : a.exprType = .realArr
    · rw [if_pos ha, if_pos ha]
      exact (withIndex (a.evalRealElement ·) hst hi (a.reads_evalRealElement i)).map Number.real
    · rw [if_neg ha, if_neg ha]
      exact (withIndex (a.evalIntElement ·) hst hi (a.reads_evalIntElement i)).map Number.int
  refine ⟨?_, fun t hst => ⟨_, heval t hst, hst.setCell rfl _, fun c hc => ?_,
    fun v hsv hown => ?_⟩⟩
  · unfold arrayElement ArrayExpr.elementIn
    by_cases ha : a.exprType = .realArr
    · rw [if_pos ha, if_pos ha]
      rfl
    · rw [if_neg ha, if_neg ha]
      rfl
  · exact Policy.getCell_setCell_of_ne t hc _
  · have hindex : getCell v (.currentIndex node) = (i : Int) :=
      (hown _ rfl).trans (Policy.getCell_setCell_self t rfl _)
    unfold arrayElement
    by_cases ha : a.exprType = .realArr
    · rw [if_pos ha]
      exact elementUnitFactor hsv hi hindex
    · rw [if_neg ha]
      exact elementUnitFactor hsv hi hindex

theorem of_literal (x : Quantity) : NumberOperand (numberLiteral x) (fun _ => False) s x := by
  obtain ⟨v, f⟩ := x
  cases v with
  | int v => exact ⟨rfl, fun t ht => ⟨t, ⟨rfl, rfl⟩, ht, fun _ _ => rfl, fun _ _ _ => .pure f⟩⟩
  | real v => exact ⟨rfl, fun t ht => ⟨t, ⟨rfl, rfl⟩, ht, fun _ _ => rfl, fun _ _ _ => .pure f⟩⟩

end NumberOperand

/-! ## Function programs -/

/-- Called with the arguments, the function program answers `a` and leaves the memory
as it is. -/
def FnYields {α : Type} (args : List ExprNode) (p : FnProg α) (s : Store Mem) (a : α) : Prop :=
  Yields (p.interp (performFnOp args)) s a

namespace FnYields

variable {α β : Type} {args : List ExprNode} {s : Store Mem}

theorem pure (a : α) : FnYields args (Pure.pure a) s a := Yields.pure a

theorem bind {p : FnProg α} {f : α → FnProg β} {a : α} {b : β} (hp : FnYields args p s a)
    (hf : FnYields args (f a) s b) : FnYields args (p >>= f) s b := by
  unfold FnYields
  rw [Prog.bind_eq, Prog.interp_bind]
  exact Yields.bind hp hf

/-- One operation is done by the arguments. -/
theorem call {o : FnOp} {a : o.Res} (h : Yields (performFnOp args o) s a) :
    FnYields args (FnOp.call o) s a :=
  Yields.bind (f := Prog.pure) h (.pure a)

theorem convInt (v : Int) (src dst : ℚ) :
    FnYields args (CoreVMFunction.convInt v src dst) s (convIntToUnitFactor v src dst) :=
  bind (call (o := .convert dst) (a := ()) ⟨rfl, rfl⟩) (pure _)

theorem convReal (v src dst : ℚ) :
    FnYields args (CoreVMFunction.convReal v src dst) s (convRealToUnitFactor v src dst) :=
  bind (call (o := .convert dst) (a := ()) ⟨rfl, rfl⟩) (pure _)

/-- Evaluating a call answers what the function leaves in its result object. -/
theorem evalInt {fn : VMFunction} {node : Nat} {flags : StmtFlags} {v : Int} {f : ℚ}
    (htype : fn.returnType (args.map argInfo) = .int)
    (h : FnYields args (fn.exec (args.map argInfo)) (setCell s (.boundResult fn.id) (some node))
      ⟨flags, .int v f⟩) :
    valueIn s (functionCall node (some fn) args).evalInt = v := by
  have hbound : getCell (run memMachine (applyFn fn args)
      (setCell s (.boundResult fn.id) (some node))).state (.boundResult fn.id) = some node := by
    rw [show (run memMachine (applyFn fn args) _).state = _ from h.2]
    exact Policy.getCell_setCell_self s (c := .boundResult fn.id) rfl (some node)
  obtain ⟨hval, hstate⟩ := run_execVMFn hbound
  have hstored := (run_storeResult node
    (run memMachine (applyFn fn args) (setCell s (.boundResult fn.id) (some node))).val
    (run memMachine (applyFn fn args) (setCell s (.boundResult fn.id) (some node))).state).1
  have hheld := hstored.setCell (c := .boundResult fn.id) rfl (getCell s (.boundResult fn.id))
  rw [← hstate, show (run memMachine (applyFn fn args) _).val = _ from h.1] at hheld
  show valueIn s (evalCall node fn args .int (0 : Int) fun res => read (.resultInt res)) = v
  rw [valueIn, evalCall, val_bind, hval]
  dsimp only
  rw [if_pos htype]
  exact hheld.1

end FnYields

end LinuxSampler
