import LinuxSampler.NkspFunction
import Mathlib.Data.Int.Bitwise

/-!
# Script expressions

The expression classes of `scriptvm/tree.h`. Every class is a function
from the objects its constructor is given to the object it makes
(`ExprNode`), with the methods the class implements or inherits;
`Expression` is the syntax tree the parser builds and `Expression.node`
the object of a tree.

The casts the source makes are kept as flags of an object. The parser
never leaves a `NULL` expression in a tree that it reports no error for,
so the checks for it are left out. Where C++ leaves the order of the
operands of an operator open, the platform decides which one is evaluated
first (`evalBoth`).
-/

namespace LinuxSampler

open OpProg

variable [Platform]

/-! ## Arrays -/

/-- `IntArrayVariable`, `RealArrayVariable`, `BuiltInIntArrayVariable` and a
`DynamicVariableCall` of an array. -/
inductive ArrayExpr where
  | intArray (a : ArrayVar)
  | realArray (a : ArrayVar)
  | builtInIntArray (id size : Nat)
  | dynIntArray (var : Nat)
deriving Repr, DecidableEq

namespace ArrayExpr

def exprType : ArrayExpr → ExprType
  | realArray _ => .realArr
  | _ => .intArr

def isConstExpr : ArrayExpr → Bool
  | intArray a | realArray a => a.isConst
  | builtInIntArray _ _ | dynIntArray _ => false

def isPolyphonic (_ : ArrayExpr) : Bool := false

def arraySize : ArrayExpr → MemProg Int
  | intArray a | realArray a => pure (a.size : Int)
  | builtInIntArray _ size => pure (size : Int)
  | dynIntArray v => read (.dynArraySize v)

def evalIntElement (i : Nat) : ArrayExpr → MemProg Int
  | intArray a => if i ≥ a.size then pure 0 else read (.intElement a i)
  | realArray _ => pure 0
  | builtInIntArray id size => if i ≥ size then pure 0 else read (.builtInElement id i)
  | dynIntArray v => read (.dynElement v i)

/-- The elements of a built-in array are of type `int8_t`. -/
def assignIntElement (i : Nat) (value : Int) : ArrayExpr → MemProg Unit
  | intArray a => if i ≥ a.size then pure () else write (.intElement a i) value
  | realArray _ => pure ()
  | builtInIntArray id size =>
      if i ≥ size then pure () else write (.builtInElement id i) (value.bmod 256)
  | dynIntArray _ => pure ()

def evalRealElement (i : Nat) : ArrayExpr → MemProg ℚ
  | realArray a => if i ≥ a.size then pure 0 else read (.realElement a i)
  | _ => pure 0

def assignRealElement (i : Nat) (value : ℚ) : ArrayExpr → MemProg Unit
  | realArray a => if i ≥ a.size then pure () else write (.realElement a i) value
  | _ => pure ()

def unitFactorOfElement (i : Nat) : ArrayExpr → MemProg ℚ
  | intArray a => if i ≥ a.size then pure noFactor else read (.intElementFactor a i)
  | realArray a => if i ≥ a.size then pure noFactor else read (.realElementFactor a i)
  | builtInIntArray _ _ | dynIntArray _ => pure noFactor

def assignElementUnitFactor (i : Nat) (factor : ℚ) : ArrayExpr → MemProg Unit
  | intArray a => if i ≥ a.size then pure () else write (.intElementFactor a i) factor
  | realArray a => if i ≥ a.size then pure () else write (.realElementFactor a i) factor
  | builtInIntArray _ _ | dynIntArray _ => pure ()

def elementToStr (i : Nat) (array : ArrayExpr) : MemProg String :=
  if array.exprType = .realArr then realToString <$> array.evalRealElement i
  else (fun v => toString v) <$> array.evalIntElement i

/-- The loop of `evalCastToStr()`, with `n` elements to go from element `i` on. -/
def elementsToStr (array : ArrayExpr) : Nat → Nat → MemProg String
  | 0, _ => pure ""
  | n + 1, i => do
      let value ← array.elementToStr i
      let factor ← array.unitFactorOfElement i
      let rest ← array.elementsToStr n (i + 1)
      return (if i = 0 then "" else ",") ++ value ++ unitFactorToShortStr factor ++ rest

def evalCastToStr (array : ArrayExpr) : MemProg String := do
  let size ← array.arraySize
  let elements ← array.elementsToStr size.toNat 0
  return "\x7b" ++ elements ++ "\x7d"

end ArrayExpr

/-! ## Expression objects -/

/-- An expression object as others see it. -/
structure VMExpr where
  exprType : ExprType
  unitType : StdUnit := .noUnit
  isConstExpr : Bool
  isPolyphonic : Bool
  isFinal : Bool := false
  /-- whether a cast to `IntExpr*`, `RealExpr*` or `StringExpr*` succeeds -/
  isIntExpr : Bool := false
  isRealExpr : Bool := false
  isStringExpr : Bool := false
  evalInt : MemProg Int := pure 0
  evalReal : MemProg ℚ := pure 0
  evalStr : MemProg String := pure ""
  evalCastToStr : MemProg String := pure ""
  unitFactor : MemProg ℚ := pure noFactor
  array : Option ArrayExpr := none

/-- An expression object that may be a variable; `assign` does nothing if it is none. -/
structure ExprNode extends VMExpr where
  assign : VMExpr → MemProg Unit := fun _ => pure ()

/-- Both operands of an operator. -/
def evalBoth {α β : Type} (op : OpenOperator) (lhs : MemProg α) (rhs : MemProg β) :
    MemProg (α × β) :=
  if Platform.leftFirst op then do
    let l ← lhs
    let r ← rhs
    return (l, r)
  else do
    let r ← rhs
    let l ← lhs
    return (l, r)

/-- `IntExpr::evalCastToStr()` -/
def castIntToStr (evalInt : MemProg Int) (unitType : StdUnit) (unitFactor : MemProg ℚ) :
    MemProg String := do
  let (value, factor) ← evalBoth .castToStr evalInt unitFactor
  return toString value ++ unitToStr unitType factor

/-- `RealExpr::evalCastToStr()` -/
def castRealToStr (evalReal : MemProg ℚ) (unitType : StdUnit) (unitFactor : MemProg ℚ) :
    MemProg String := do
  let (value, factor) ← evalBoth .castToStr evalReal unitFactor
  return realToString value ++ unitToStr unitType factor

/-- `Unit::convIntToUnitFactor()` at run time. -/
def convInt (iValue : Int) (srcFactor dstFactor : ℚ) : MemProg Int := do
  note (.convert dstFactor)
  return convIntToUnitFactor iValue srcFactor dstFactor

/-- `Unit::convRealToUnitFactor()` at run time. -/
def convReal (fValue srcFactor dstFactor : ℚ) : MemProg ℚ := do
  note (.convert dstFactor)
  return convRealToUnitFactor fValue srcFactor dstFactor

namespace Yields

variable {s : Store Mem}

/-- The order of two operands without effects does not matter. -/
theorem evalBoth {α β : Type} {op : OpenOperator} {p : MemProg α} {q : MemProg β} {a : α}
    {b : β} (hp : Yields p s a) (hq : Yields q s b) :
    Yields (LinuxSampler.evalBoth op p q) s (a, b) := by
  unfold LinuxSampler.evalBoth
  split
  · exact hp.bind (hq.bind (.pure _))
  · exact hq.bind (hp.bind (.pure _))

theorem convInt (v : Int) (src dst : ℚ) :
    Yields (LinuxSampler.convInt v src dst) s (convIntToUnitFactor v src dst) := ⟨rfl, rfl⟩

theorem convReal (v src dst : ℚ) :
    Yields (LinuxSampler.convReal v src dst) s (convRealToUnitFactor v src dst) := ⟨rfl, rfl⟩

end Yields

/-- The members of `NumberVariable`. -/
structure NumberVariable where
  memPos : Nat
  unitFactorMemPos : Nat
  unitType : StdUnit := .noUnit
  isFinal : Bool := false
  polyphonic : Bool := false
deriving Repr, DecidableEq

namespace NumberVariable

/-- Where the value of an integer variable is. -/
def intCell (v : NumberVariable) : Cell :=
  if v.polyphonic then .polyphonicInt v.memPos else .globalInt v.memPos

/-- Where the value of a real variable is. -/
def realCell (v : NumberVariable) : Cell :=
  if v.polyphonic then .polyphonicReal v.memPos else .globalReal v.memPos

def unitFactorCell (v : NumberVariable) : Cell :=
  if v.polyphonic then .polyphonicUnitFactor v.unitFactorMemPos
  else .globalUnitFactor v.unitFactorMemPos

def unitFactor (v : NumberVariable) : MemProg ℚ :=
  if v.polyphonic then read (.polyphonicUnitFactor v.unitFactorMemPos)
  else read (.globalUnitFactor v.unitFactorMemPos)

def writeUnitFactor (v : NumberVariable) (f : ℚ) : MemProg Unit :=
  if v.polyphonic then write (.polyphonicUnitFactor v.unitFactorMemPos) f
  else write (.globalUnitFactor v.unitFactorMemPos) f

/-- `IntVariable::evalInt()` -/
def readInt (v : NumberVariable) : MemProg Int :=
  if v.polyphonic then read (.polyphonicInt v.memPos) else read (.globalInt v.memPos)

def writeInt (v : NumberVariable) (i : Int) : MemProg Unit :=
  if v.polyphonic then write (.polyphonicInt v.memPos) i else write (.globalInt v.memPos) i

/-- `RealVariable::evalReal()` -/
def readReal (v : NumberVariable) : MemProg ℚ :=
  if v.polyphonic then read (.polyphonicReal v.memPos) else read (.globalReal v.memPos)

def writeReal (v : NumberVariable) (r : ℚ) : MemProg Unit :=
  if v.polyphonic then write (.polyphonicReal v.memPos) r else write (.globalReal v.memPos) r

end NumberVariable

/-- The `VMIntPtr` classes, by the type of what they point to. -/
inductive IntPtrType where
  | int64
  | int32
  | int16
  | uint8
deriving Repr, DecidableEq

def IntPtrType.convert (type : IntPtrType) (i : Int) : Int :=
  match type with
  | .int64 => i.bmod (2 ^ 64)
  | .int32 => i.bmod (2 ^ 32)
  | .int16 => i.bmod (2 ^ 16)
  | .uint8 => i % 2 ^ 8

structure VMIntPtr where
  id : Nat
  type : IntPtrType
deriving Repr, DecidableEq

/-- `VMDynVar` of an integer or string type. -/
structure DynVar where
  id : Nat
  exprType : ExprType
deriving Repr, DecidableEq

namespace ExprNode

/-! ## Literals and variables -/

def intLiteral (value : Int) (unitFactor : ℚ) (unitType : StdUnit) (isFinal : Bool) :
    ExprNode where
  exprType := .int
  unitType := unitType
  isConstExpr := true
  isPolyphonic := false
  isFinal := isFinal
  isIntExpr := true
  evalInt := pure value
  evalCastToStr := castIntToStr (pure value) unitType (pure unitFactor)
  unitFactor := pure unitFactor

def realLiteral (value unitFactor : ℚ) (unitType : StdUnit) (isFinal : Bool) : ExprNode where
  exprType := .real
  unitType := unitType
  isConstExpr := true
  isPolyphonic := false
  isFinal := isFinal
  isRealExpr := true
  evalReal := pure value
  evalCastToStr := castRealToStr (pure value) unitType (pure unitFactor)
  unitFactor := pure unitFactor

def stringLiteral (value : String) : ExprNode where
  exprType := .string
  isConstExpr := true
  isPolyphonic := false
  isStringExpr := true
  evalStr := pure value
  evalCastToStr := pure value

/-- `IntVariable` and, with `polyphonic` set, `PolyphonicIntVariable`. -/
def intVariable (v : NumberVariable) : ExprNode where
  exprType := .int
  unitType := v.unitType
  isConstExpr := false
  isPolyphonic := v.polyphonic
  isFinal := v.isFinal
  isIntExpr := true
  evalInt := v.readInt
  evalCastToStr := castIntToStr v.readInt v.unitType v.unitFactor
  unitFactor := v.unitFactor
  assign expr :=
    if expr.isIntExpr then do
      -- evaluation comes before unitFactor(), which does not evaluate
      v.writeInt (← expr.evalInt)
      v.writeUnitFactor (← expr.unitFactor)
    else pure ()

/-- `RealVariable` and, with `polyphonic` set, `PolyphonicRealVariable`. -/
def realVariable (v : NumberVariable) : ExprNode where
  exprType := .real
  unitType := v.unitType
  isConstExpr := false
  isPolyphonic := v.polyphonic
  isFinal := v.isFinal
  isRealExpr := true
  evalReal := v.readReal
  evalCastToStr := castRealToStr v.readReal v.unitType v.unitFactor
  unitFactor := v.unitFactor
  assign expr :=
    if expr.isRealExpr then do
      v.writeReal (← expr.evalReal)
      v.writeUnitFactor (← expr.unitFactor)
    else pure ()

/-- `ConstIntVariable`: its value is part of the object and assignments are ignored. -/
def constIntVariable (value : Int) (unitFactor : ℚ) (unitType : StdUnit) (isFinal : Bool) :
    ExprNode :=
  intLiteral value unitFactor unitType isFinal

/-- `ConstRealVariable` -/
def constRealVariable (value unitFactor : ℚ) (unitType : StdUnit) (isFinal : Bool) :
    ExprNode :=
  realLiteral value unitFactor unitType isFinal

/-- `BuiltInIntVariable`; the unit factor of an assigned value is dropped. -/
def builtInIntVariable (ptr : VMIntPtr) : ExprNode where
  exprType := .int
  isConstExpr := false
  isPolyphonic := false
  isIntExpr := true
  evalInt := read (.builtInInt ptr.id)
  evalCastToStr := castIntToStr (read (.builtInInt ptr.id)) .noUnit (pure noFactor)
  assign expr :=
    if expr.isIntExpr then do
      let value ← expr.evalInt
      write (.builtInInt ptr.id) (ptr.type.convert value)
    else pure ()

def stringVariable (memPos : Nat) : ExprNode where
  exprType := .string
  isConstExpr := false
  isPolyphonic := false
  isStringExpr := true
  evalStr := read (.globalStr memPos)
  evalCastToStr := read (.globalStr memPos)
  assign expr :=
    if expr.isStringExpr then do
      write (.globalStr memPos) (← expr.evalStr)
    else pure ()

/-- `ConstStringVariable` -/
def constStringVariable (value : String) : ExprNode := stringLiteral value

/-- `DynamicVariableCall` of a scalar. -/
def dynamicVariableCall (v : DynVar) : ExprNode :=
  let evalInt : MemProg Int := if v.exprType = .int then read (.dynInt v.id) else pure 0
  let evalStr : MemProg String := if v.exprType = .string then read (.dynStr v.id) else pure ""
  { exprType := v.exprType
    isConstExpr := false
    isPolyphonic := false
    isIntExpr := true
    isStringExpr := true
    evalInt := evalInt
    evalStr := evalStr
    evalCastToStr :=
      if v.exprType = .string then evalStr
      else if v.exprType = .int then (fun i => toString i) <$> evalInt
      else pure "" }

/-- A variable that is an array; assigning it as a whole is ignored. -/
def arrayVariable (array : ArrayExpr) : ExprNode where
  exprType := array.exprType
  isConstExpr := array.isConstExpr
  isPolyphonic := array.isPolyphonic
  evalCastToStr := array.evalCastToStr
  array := some array

/-! ## Array elements -/

/-- `unitFactor()` of an array element: it does not evaluate the index again. -/
def elementUnitFactor (node : Nat) (array : ArrayExpr) : MemProg ℚ := do
  let idx ← read (.currentIndex node)
  let size ← array.arraySize
  if idx < 0 ∨ idx ≥ size then
    note (.outOfRange node)
    return 0
  else array.unitFactorOfElement idx.toNat

/-- The common part of reading and assigning an element: evaluate and keep the
index, and go on with it if it is in range. -/
def withIndex {α : Type} (node : Nat) (array : ArrayExpr) (index : VMExpr) (outside : α)
    (inside : Nat → MemProg α) : MemProg α := do
  let idx ← inIndex index.evalInt
  write (.currentIndex node) idx
  let size ← array.arraySize
  if idx < 0 ∨ idx ≥ size then return outside else inside idx.toNat

/-- `IntArrayElement` -/
def intArrayElement (node : Nat) (array : ArrayExpr) (index : VMExpr) : ExprNode :=
  let evalInt : MemProg Int :=
    withIndex node array index (0 : Int) fun i => array.evalIntElement i
  { exprType := .int
    isConstExpr := array.isConstExpr
    isPolyphonic := array.isPolyphonic
    isIntExpr := true
    evalInt := evalInt
    evalCastToStr := castIntToStr evalInt .noUnit (elementUnitFactor node array)
    unitFactor := elementUnitFactor node array
    assign := fun expr =>
      if expr.isIntExpr then do
        let value ← expr.evalInt
        let unitFactor ← expr.unitFactor
        withIndex node array index () fun i => do
          array.assignIntElement i value
          array.assignElementUnitFactor i unitFactor
      else pure () }

/-- `RealArrayElement` -/
def realArrayElement (node : Nat) (array : ArrayExpr) (index : VMExpr) : ExprNode :=
  let evalReal : MemProg ℚ :=
    withIndex node array index (0 : ℚ) fun i => array.evalRealElement i
  { exprType := .real
    isConstExpr := array.isConstExpr
    isPolyphonic := array.isPolyphonic
    isRealExpr := true
    evalReal := evalReal
    evalCastToStr := castRealToStr evalReal .noUnit (elementUnitFactor node array)
    unitFactor := elementUnitFactor node array
    assign := fun expr =>
      if expr.isRealExpr then do
        let value ← expr.evalReal
        let unitFactor ← expr.unitFactor
        withIndex node array index () fun i => do
          array.assignRealElement i value
          array.assignElementUnitFactor i unitFactor
      else pure () }

/-! ## Operators -/

/-- `NumberBinaryOp` of type `IntBinaryOp`, with the unit factor `VM_NO_FACTOR` that all of
them have. -/
def intBinaryOp (lhs rhs : ExprNode) (evalInt : MemProg Int) : ExprNode where
  exprType := .int
  isConstExpr := lhs.isConstExpr && rhs.isConstExpr
  isPolyphonic := lhs.isPolyphonic || rhs.isPolyphonic
  isFinal := lhs.isFinal || rhs.isFinal
  isIntExpr := true
  evalInt := evalInt
  evalCastToStr := castIntToStr evalInt .noUnit (pure noFactor)

/-- `VaritypeScalarBinaryOp` -/
def varitypeScalarBinaryOp (lhs rhs : ExprNode) (unitType : StdUnit) (evalInt : MemProg Int)
    (evalReal unitFactor : MemProg ℚ) : ExprNode :=
  let exprType : ExprType :=
    if lhs.exprType = .real ∨ rhs.exprType = .real then .real else .int
  { exprType := exprType
    unitType := unitType
    isConstExpr := lhs.isConstExpr && rhs.isConstExpr
    isPolyphonic := lhs.isPolyphonic || rhs.isPolyphonic
    isFinal := lhs.isFinal || rhs.isFinal
    isIntExpr := true
    isRealExpr := true
    evalInt := evalInt
    evalReal := evalReal
    evalCastToStr :=
      if exprType = .real then castRealToStr evalReal unitType unitFactor
      else castIntToStr evalInt unitType unitFactor
    unitFactor := unitFactor }

/-- `Add` and `Sub` differ in the operator on the converted values only. -/
def sumOp (opInt : Int → Int → Int) (opReal : ℚ → ℚ → ℚ) (lhs rhs : ExprNode) : ExprNode :=
  varitypeScalarBinaryOp lhs rhs lhs.unitType
    (if lhs.isIntExpr && rhs.isIntExpr then do
      -- evaluation comes before unitFactor(), which does not evaluate
      let lvalue ← lhs.evalInt
      let rvalue ← rhs.evalInt
      let lfactor ← lhs.unitFactor
      let rfactor ← rhs.unitFactor
      if Platform.eq lfactor rfactor then return opInt lvalue rvalue
      else if Platform.lt lfactor rfactor then return opInt lvalue (← convInt rvalue rfactor lfactor)
      else return opInt (← convInt lvalue lfactor rfactor) rvalue
    else pure 0)
    (if lhs.isRealExpr && rhs.isRealExpr then do
      let lvalue ← lhs.evalReal
      let rvalue ← rhs.evalReal
      let lfactor ← lhs.unitFactor
      let rfactor ← rhs.unitFactor
      if Platform.eq lfactor rfactor then return opReal lvalue rvalue
      else if Platform.lt lfactor rfactor then return opReal lvalue (← convReal rvalue rfactor lfactor)
      else return opReal (← convReal lvalue lfactor rfactor) rvalue
    else pure 0)
    (do
      let lfactor ← lhs.unitFactor
      let rfactor ← rhs.unitFactor
      return if Platform.lt lfactor rfactor then lfactor else rfactor)

def add : ExprNode → ExprNode → ExprNode := sumOp (· + ·) Platform.add

def sub : ExprNode → ExprNode → ExprNode := sumOp (· - ·) Platform.sub

def mul (lhs rhs : ExprNode) : ExprNode :=
  varitypeScalarBinaryOp lhs rhs
    (if lhs.unitType ≠ .noUnit then lhs.unitType else rhs.unitType)
    (if lhs.isIntExpr && rhs.isIntExpr then do
      let (l, r) ← evalBoth .mul lhs.evalInt rhs.evalInt
      return l * r
    else pure 0)
    (if lhs.isRealExpr && rhs.isRealExpr then do
      let (l, r) ← evalBoth .mul lhs.evalReal rhs.evalReal
      return Platform.mul l r
    else pure 0)
    (do
      let lfactor ← lhs.unitFactor
      let rfactor ← rhs.unitFactor
      note (.unitFactor (lfactor * rfactor))
      return Platform.mul lfactor rfactor)

def div (lhs rhs : ExprNode) : ExprNode :=
  varitypeScalarBinaryOp lhs rhs
    (if lhs.unitType ≠ .noUnit ∧ rhs.unitType ≠ .noUnit then .noUnit else lhs.unitType)
    (if lhs.isIntExpr && rhs.isIntExpr then do
      let l ← lhs.evalInt
      let r ← rhs.evalInt
      if r = 0 then return 0
      else
        note (.divide l r)
        return l.tdiv r
    else pure 0)
    (if lhs.isRealExpr && rhs.isRealExpr then do
      let l ← lhs.evalReal
      let r ← rhs.evalReal
      return if Platform.eq r 0 then 0 else Platform.div l r
    else pure 0)
    (do
      let lfactor ← lhs.unitFactor
      let rfactor ← rhs.unitFactor
      note (.unitFactor (lfactor / rfactor))
      return Platform.div lfactor rfactor)

/-- `Mod` -/
def mod (lhs rhs : ExprNode) : ExprNode :=
  intBinaryOp lhs rhs
    (if lhs.isIntExpr && rhs.isIntExpr then do
      let (l, r) ← evalBoth .mod lhs.evalInt rhs.evalInt
      note (.divide l r)
      return l.tmod r
    else pure 0)

def neg (expr : ExprNode) : ExprNode where
  exprType := expr.exprType
  unitType := expr.unitType
  isConstExpr := expr.isConstExpr
  isPolyphonic := expr.isPolyphonic
  isFinal := expr.isFinal
  isIntExpr := true
  isRealExpr := true
  evalInt := do return -(← expr.evalInt)
  evalReal := do return -(← expr.evalReal)
  evalCastToStr := expr.evalCastToStr
  unitFactor := expr.unitFactor

def final (expr : ExprNode) : ExprNode where
  exprType := expr.exprType
  unitType := expr.unitType
  isConstExpr := expr.isConstExpr
  isPolyphonic := expr.isPolyphonic
  isFinal := true
  isIntExpr := true
  isRealExpr := true
  evalInt := expr.evalInt
  evalReal := expr.evalReal
  evalCastToStr :=
    if expr.exprType = .real then realToString <$> expr.evalReal
    else (fun i => toString i) <$> expr.evalInt
  unitFactor := expr.unitFactor

def concatString (lhs rhs : ExprNode) : ExprNode :=
  let evalStr : MemProg String := do
    let (l, r) ← evalBoth .concatString lhs.evalCastToStr rhs.evalCastToStr
    return l ++ r
  { exprType := .string
    isConstExpr := lhs.isConstExpr && rhs.isConstExpr
    isPolyphonic := lhs.isPolyphonic || rhs.isPolyphonic
    isStringExpr := true
    evalStr := evalStr
    evalCastToStr := evalStr }

def or (lhs rhs : ExprNode) : ExprNode :=
  intBinaryOp lhs rhs do
    let l ← lhs.evalInt
    if l ≠ 0 then return 1
    else return if (← rhs.evalInt) ≠ 0 then 1 else 0

def and (lhs rhs : ExprNode) : ExprNode :=
  intBinaryOp lhs rhs do
    let l ← lhs.evalInt
    if l = 0 then return 0
    else return if (← rhs.evalInt) ≠ 0 then 1 else 0

def bitwiseOr (lhs rhs : ExprNode) : ExprNode :=
  intBinaryOp lhs rhs do
    let (l, r) ← evalBoth .bitwiseOr lhs.evalInt rhs.evalInt
    return l.lor r

def bitwiseAnd (lhs rhs : ExprNode) : ExprNode :=
  intBinaryOp lhs rhs do
    let (l, r) ← evalBoth .bitwiseAnd lhs.evalInt rhs.evalInt
    return l.land r

/-- `Not` and `BitwiseNot` -/
def intUnaryOp (expr : ExprNode) (op : Int → Int) : ExprNode :=
  let evalInt : MemProg Int := do return op (← expr.evalInt)
  { exprType := .int
    isConstExpr := expr.isConstExpr
    isPolyphonic := expr.isPolyphonic
    isFinal := expr.isFinal
    isIntExpr := true
    evalInt := evalInt
    evalCastToStr := castIntToStr evalInt .noUnit (pure noFactor) }

def not (expr : ExprNode) : ExprNode := intUnaryOp expr fun i => if i = 0 then 1 else 0

def bitwiseNot (expr : ExprNode) : ExprNode := intUnaryOp expr Int.not

end ExprNode

/-! ## Relations -/

/-- `Relation::Type` -/
inductive RelationType where
  | lessThan
  | greaterThan
  | lessOrEqual
  | greaterOrEqual
  | equal
  | notEqual
deriving Repr, DecidableEq

/-- A value of type `vmint` or `vmfloat`. -/
inductive Number where
  | int (value : Int)
  | real (value : ℚ)
deriving Repr, DecidableEq

/-- The operand of a comparison with a real number. -/
def Number.toReal : Number → ℚ
  | .int i => Platform.ofInt i
  | .real r => r

def Number.lt : Number → Number → Bool
  | .int a, .int b => decide (a < b)
  | a, b => Platform.lt a.toReal b.toReal

def Number.le : Number → Number → Bool
  | .int a, .int b => decide (a ≤ b)
  | a, b => Platform.le a.toReal b.toReal

/-- `RelComparer::isEqual()`: only two real numbers are compared with a tolerance. -/
def Number.isEqual : Number → Number → Bool
  | .int a, .int b => decide (a = b)
  | .real a, .real b => fEqual32 a b
  | a, b => Platform.eq a.toReal b.toReal

/-- `_evalRelation()` -/
def evalRelation (type : RelationType) (lhs rhs : Number) : Bool :=
  match type with
  | .lessThan => lhs.lt rhs
  | .greaterThan => rhs.lt lhs
  | .lessOrEqual => lhs.le rhs
  | .greaterOrEqual => rhs.le lhs
  | .equal => lhs.isEqual rhs
  | .notEqual => !lhs.isEqual rhs

/-- `_evalRealRelation()` -/
def evalRealRelation (type : RelationType) (lvalue rvalue : Number) (lfactor rfactor : ℚ) :
    MemProg Bool := do
  if Platform.eq lfactor rfactor then return evalRelation type lvalue rvalue
  else if Platform.lt lfactor rfactor then
    return evalRelation type lvalue (.real (← convReal rvalue.toReal rfactor lfactor))
  else return evalRelation type (.real (← convReal lvalue.toReal lfactor rfactor)) rvalue

/-- `_evalIntRelation()` -/
def evalIntRelation (type : RelationType) (lvalue rvalue : Int) (lfactor rfactor : ℚ) :
    MemProg Bool := do
  if Platform.eq lfactor rfactor then return evalRelation type (.int lvalue) (.int rvalue)
  else if Platform.lt lfactor rfactor then
    return evalRelation type (.int lvalue) (.int (← convInt rvalue rfactor lfactor))
  else return evalRelation type (.int (← convInt lvalue lfactor rfactor)) (.int rvalue)

namespace ExprNode

/-- The value of a number expression in its own type. -/
def evalNumber (expr : VMExpr) : MemProg Number :=
  if expr.exprType = .real then .real <$> expr.evalReal else .int <$> expr.evalInt

/-- What `Relation::evalInt()` answers, as a truth value. -/
def relationHolds (lhs : ExprNode) (type : RelationType) (rhs : ExprNode) : MemProg Bool :=
  if lhs.exprType = .string ∨ rhs.exprType = .string then
    match type with
    | .equal => do
      let (l, r) ← evalBoth .relation lhs.evalCastToStr rhs.evalCastToStr
      return decide (l = r)
    | .notEqual => do
      let (l, r) ← evalBoth .relation lhs.evalCastToStr rhs.evalCastToStr
      return decide (l ≠ r)
    | _ => return false
  else if lhs.exprType = .real ∨ rhs.exprType = .real then do
    -- the three cases with a real number on either side or on both
    let lvalue ← evalNumber lhs.toVMExpr
    let rvalue ← evalNumber rhs.toVMExpr
    let lfactor ← lhs.unitFactor
    let rfactor ← rhs.unitFactor
    evalRealRelation type lvalue rvalue lfactor rfactor
  else do
    let lvalue ← lhs.evalInt
    let rvalue ← rhs.evalInt
    let lfactor ← lhs.unitFactor
    let rfactor ← rhs.unitFactor
    evalIntRelation type lvalue rvalue lfactor rfactor

def relation (lhs : ExprNode) (type : RelationType) (rhs : ExprNode) : ExprNode :=
  let evalInt : MemProg Int := do return if ← relationHolds lhs type rhs then 1 else 0
  { exprType := .int
    isConstExpr := lhs.isConstExpr && rhs.isConstExpr
    isPolyphonic := lhs.isPolyphonic || rhs.isPolyphonic
    isIntExpr := true
    evalInt := evalInt
    evalCastToStr := castIntToStr evalInt .noUnit (pure noFactor) }

/-! ## Function calls -/

def argInfo (arg : ExprNode) : ArgInfo :=
  ⟨arg.exprType, arg.unitType, arg.isFinal, arg.isIntExpr, arg.isRealExpr, arg.isStringExpr⟩

/-- What a call of a method of `VMFnArgs::arg(i)` does; there is always an argument where a
function asks for one. -/
def performFnOp (args : List ExprNode) (o : FnOp) : MemProg o.Res :=
  let onArg {α : Type} (i : Nat) (default : α) (f : ExprNode → MemProg α) : MemProg α :=
    match args[i]? with
    | some arg => f arg
    | none => pure default
  let onArray {α : Type} (i : Nat) (default : α) (f : ArrayExpr → MemProg α) : MemProg α :=
    onArg i default fun arg =>
      match arg.array with
      | some array => f array
      | none => pure default
  match o with
  | .evalInt i => onArg i (0 : Int) (·.evalInt)
  | .evalReal i => onArg i (0 : ℚ) (·.evalReal)
  | .evalStr i => onArg i "" (·.evalStr)
  | .unitFactor i => onArg i noFactor (·.unitFactor)
  | .arraySize i => onArray i (0 : Int) (·.arraySize)
  | .evalIntElement i e => onArray i (0 : Int) (·.evalIntElement e)
  | .evalRealElement i e => onArray i (0 : ℚ) (·.evalRealElement e)
  | .unitFactorOfElement i e => onArray i noFactor (·.unitFactorOfElement e)
  | .assignIntElement i e v => onArray i () (·.assignIntElement e v)
  | .assignRealElement i e v => onArray i () (·.assignRealElement e v)
  | .assignElementUnitFactor i e f => onArray i () (·.assignElementUnitFactor e f)
  | .assignInt i v f => onArg i () (·.assign (intLiteral v f .noUnit false).toVMExpr)
  | .convert f => note (.convert f)
  | .setSuspendMicroseconds us => write .suspendMicroseconds (some us)
  | .engineRead a => read (.engine a)
  | .engineWrite a v => write (.engine a) v

/-- What `successResult()` and `errorResult()` write to the bound result object. -/
def storeResult (bound : Option Nat) (res : FnResult) : MemProg Unit :=
  match bound with
  | none => pure ()
  | some node => do
      write (.resultFlags node) res.flags
      match res.value with
      | .empty => pure ()
      | .int v f =>
          write (.resultInt node) v
          write (.resultUnitFactor node) f
      | .real v f =>
          write (.resultReal node) v
          write (.resultUnitFactor node) f
      | .str v => write (.resultStr node) v

/-- `FunctionCall::execVMFn()`; the answer is the result object. -/
def execVMFn (node : Nat) (fn : VMFunction) (args : List ExprNode) : MemProg (Option Nat) := do
  -- tell the function where to leave its result, and restore the binding of a
  -- surrounding call of the same function afterwards
  let oldRes ← read (.boundResult fn.id)
  write (.boundResult fn.id) (some node)
  let res ← (fn.exec (args.map argInfo)).interp (performFnOp args)
  let bound ← read (.boundResult fn.id)
  storeResult bound res
  write (.boundResult fn.id) oldRes
  return bound

/-- `FunctionCall::exec()` -/
def execCall (node : Nat) (fn : Option VMFunction) (args : List ExprNode) :
    MemProg StmtFlags :=
  match fn with
  | none => pure .abortError
  | some fn => do
      match ← execVMFn node fn args with
      | none => return .abortError
      | some res => read (.resultFlags res)

/-- Evaluation of a call: execute it and ask its result object, if that is of the right
class. -/
def evalCall {α : Type} (node : Nat) (fn : VMFunction) (args : List ExprNode)
    (type : ExprType) (default : α) (value : Nat → MemProg α) : MemProg α := do
  match ← execVMFn node fn args with
  | none => return default
  | some res =>
      if fn.returnType (args.map argInfo) = type then value res else return default

/-- `FunctionCall::evalCastToStr()` -/
def callToStr (node : Nat) (fn : VMFunction) (args : List ExprNode) : MemProg String := do
  match ← execVMFn node fn args with
  | none => return ""
  | some res =>
      let infos := args.map argInfo
      match fn.returnType infos with
      | .string => read (.resultStr res)
      | .real =>
          castRealToStr (read (.resultReal res)) (fn.returnUnitType infos)
            (read (.resultUnitFactor res))
      | .int =>
          castIntToStr (read (.resultInt res)) (fn.returnUnitType infos)
            (read (.resultUnitFactor res))
      | _ => return ""

/-- `FunctionCall::unitFactor()` asks the call's own result object, without executing the
call. -/
def callUnitFactor (node : Nat) (exprType : ExprType) : MemProg ℚ :=
  if exprType = .int ∨ exprType = .real then read (.resultUnitFactor node) else pure noFactor

def functionCall (node : Nat) (fn : Option VMFunction) (args : List ExprNode) : ExprNode :=
  match fn with
  | none =>
      { exprType := .empty
        isConstExpr := false
        isPolyphonic := args.any (·.isPolyphonic)
        isIntExpr := true
        isRealExpr := true
        isStringExpr := true }
  | some fn =>
      { exprType := fn.returnType (args.map argInfo)
        unitType := fn.returnUnitType (args.map argInfo)
        isConstExpr := false
        isPolyphonic := args.any (·.isPolyphonic)
        isFinal := fn.returnsFinal (args.map argInfo)
        isIntExpr := true
        isRealExpr := true
        isStringExpr := true
        evalInt := evalCall node fn args .int (0 : Int) fun res => read (.resultInt res)
        evalReal := evalCall node fn args .real (0 : ℚ) fun res => read (.resultReal res)
        evalStr := evalCall node fn args .string "" fun res => read (.resultStr res)
        evalCastToStr := callToStr node fn args
        unitFactor := callUnitFactor node (fn.returnType (args.map argInfo)) }

end ExprNode

/-! ## Syntax trees -/

/-- The expressions the parser builds. The nodes that have a state of their
own are numbered. -/
inductive Expression where
  | intLiteral (value : Int) (unitFactor : ℚ) (unitType : StdUnit) (isFinal : Bool)
  | realLiteral (value unitFactor : ℚ) (unitType : StdUnit) (isFinal : Bool)
  | stringLiteral (value : String)
  | intVariable (v : NumberVariable)
  | realVariable (v : NumberVariable)
  | constIntVariable (value : Int) (unitFactor : ℚ) (unitType : StdUnit) (isFinal : Bool)
  | constRealVariable (value unitFactor : ℚ) (unitType : StdUnit) (isFinal : Bool)
  | builtInIntVariable (ptr : VMIntPtr)
  | stringVariable (memPos : Nat)
  | constStringVariable (value : String)
  | dynamicVariableCall (v : DynVar)
  | arrayVariable (array : ArrayExpr)
  | intArrayElement (node : Nat) (array : ArrayExpr) (index : Expression)
  | realArrayElement (node : Nat) (array : ArrayExpr) (index : Expression)
  | add (lhs rhs : Expression)
  | sub (lhs rhs : Expression)
  | mul (lhs rhs : Expression)
  | div (lhs rhs : Expression)
  | mod (lhs rhs : Expression)
  | neg (expr : Expression)
  | final (expr : Expression)
  | concatString (lhs rhs : Expression)
  | or (lhs rhs : Expression)
  | and (lhs rhs : Expression)
  | bitwiseOr (lhs rhs : Expression)
  | bitwiseAnd (lhs rhs : Expression)
  | not (expr : Expression)
  | bitwiseNot (expr : Expression)
  | relation (lhs : Expression) (type : RelationType) (rhs : Expression)
  | functionCall (node : Nat) (fn : Option VMFunction) (args : List Expression)

namespace Expression

mutual

/-- The object of a syntax tree. -/
def node : Expression → ExprNode
  | intLiteral v f u fin => .intLiteral v f u fin
  | realLiteral v f u fin => .realLiteral v f u fin
  | stringLiteral v => .stringLiteral v
  | intVariable v => .intVariable v
  | realVariable v => .realVariable v
  | constIntVariable v f u fin => .constIntVariable v f u fin
  | constRealVariable v f u fin => .constRealVariable v f u fin
  | builtInIntVariable ptr => .builtInIntVariable ptr
  | stringVariable memPos => .stringVariable memPos
  | constStringVariable v => .constStringVariable v
  | dynamicVariableCall v => .dynamicVariableCall v
  | arrayVariable array => .arrayVariable array
  | intArrayElement n array index => .intArrayElement n array index.node.toVMExpr
  | realArrayElement n array index => .realArrayElement n array index.node.toVMExpr
  | add lhs rhs => lhs.node.add rhs.node
  | sub lhs rhs => lhs.node.sub rhs.node
  | mul lhs rhs => lhs.node.mul rhs.node
  | div lhs rhs => lhs.node.div rhs.node
  | mod lhs rhs => lhs.node.mod rhs.node
  | neg expr => expr.node.neg
  | final expr => expr.node.final
  | concatString lhs rhs => lhs.node.concatString rhs.node
  | or lhs rhs => lhs.node.or rhs.node
  | and lhs rhs => lhs.node.and rhs.node
  | bitwiseOr lhs rhs => lhs.node.bitwiseOr rhs.node
  | bitwiseAnd lhs rhs => lhs.node.bitwiseAnd rhs.node
  | not expr => expr.node.not
  | bitwiseNot expr => expr.node.bitwiseNot
  | relation lhs type rhs => lhs.node.relation type rhs.node
  | functionCall n fn args => .functionCall n fn (nodes args)

def nodes : List Expression → List ExprNode
  | [] => []
  | e :: es => e.node :: nodes es

end

end Expression

/-- The value of an expression, by its type. -/
inductive ScalarValue where
  | none
  | int (value : Int)
  | real (value : ℚ)
  | str (value : String)
deriving Repr, DecidableEq

def Expression.evalValue (e : Expression) : MemProg ScalarValue :=
  match e.node.exprType with
  | .int => ScalarValue.int <$> e.node.evalInt
  | .real => ScalarValue.real <$> e.node.evalReal
  | .string => ScalarValue.str <$> e.node.evalStr
  | _ => pure .none

/-- Evaluation as the source always does it: first the value, then the unit
factor, which does not evaluate. -/
def Expression.evaluate (e : Expression) : MemProg (ScalarValue × ℚ) := do
  let value ← e.evalValue
  let factor ← e.node.unitFactor
  return (value, factor)

end LinuxSampler
