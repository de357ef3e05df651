import LinuxSampler.NkspFunction

/-!
# Core functions

The built-in functions of `scriptvm/CoreVMFunctions.cpp` as programs over
their arguments. Functions of real numbers that have no rational values
are given by the math library (`MathLib`).

Whatever the arguments are, a core function passes on the unit factors it
gets, or none (`IsCore.factorSafe`).
-/

namespace LinuxSampler

open OpProg

variable [Platform]

/-- The functions of `<math.h>` that are called. -/
structure MathLib where
  sqrt : ℚ → ℚ
  log : ℚ → ℚ
  log2 : ℚ → ℚ
  log10 : ℚ → ℚ
  exp : ℚ → ℚ
  sin : ℚ → ℚ
  cos : ℚ → ℚ
  tan : ℚ → ℚ
  asin : ℚ → ℚ
  acos : ℚ → ℚ
  atan : ℚ → ℚ
  pow : ℚ → ℚ → ℚ
deriving Inhabited

namespace CoreVMFunction

/-! ## Arguments and results -/

def argType (infos : List ArgInfo) (i : Nat) : ExprType :=
  (infos[i]?.map ArgInfo.exprType).getD .empty

def argUnitType (infos : List ArgInfo) (i : Nat) : StdUnit :=
  (infos[i]?.map ArgInfo.unitType).getD .noUnit

def argIsFinal (infos : List ArgInfo) (i : Nat) : Bool :=
  (infos[i]?.map ArgInfo.isFinal).getD false

def evalInt (arg : Nat) : FnProg Int := FnOp.call (.evalInt arg)

def evalReal (arg : Nat) : FnProg ℚ := FnOp.call (.evalReal arg)

def evalStr (arg : Nat) : FnProg String := FnOp.call (.evalStr arg)

def unitFactor (arg : Nat) : FnProg ℚ := FnOp.call (.unitFactor arg)

def arraySize (arg : Nat) : FnProg Int := FnOp.call (.arraySize arg)

def evalIntElement (arg i : Nat) : FnProg Int := FnOp.call (.evalIntElement arg i)

def evalRealElement (arg i : Nat) : FnProg ℚ := FnOp.call (.evalRealElement arg i)

def unitFactorOfElement (arg i : Nat) : FnProg ℚ := FnOp.call (.unitFactorOfElement arg i)

def assignIntElement (arg i : Nat) (value : Int) : FnProg Unit :=
  FnOp.call (.assignIntElement arg i value)

def assignRealElement (arg i : Nat) (value : ℚ) : FnProg Unit :=
  FnOp.call (.assignRealElement arg i value)

def assignElementUnitFactor (arg i : Nat) (factor : ℚ) : FnProg Unit :=
  FnOp.call (.assignElementUnitFactor arg i factor)

/-- `VMNumberExpr::evalCastReal()` -/
def evalCastReal (infos : List ArgInfo) (arg : Nat) : FnProg ℚ :=
  if argType infos arg = .real then evalReal arg
  else do return Platform.ofInt (← evalInt arg)

/-- `VMNumberExpr::evalCastInt()` -/
def evalCastInt (infos : List ArgInfo) (arg : Nat) : FnProg Int :=
  if argType infos arg = .int then evalInt arg
  else do return truncToInt (← evalReal arg)

/-- `VMNumberExpr::evalCastInt(prefix)` -/
def evalCastIntPrefix (infos : List ArgInfo) (arg : Nat) (p : MetricPrefix) : FnProg Int := do
  let f ← evalCastReal infos arg
  let factor ← unitFactor arg
  FnOp.call (.convert p.unitFactor)
  return truncToInt (Platform.mul f (Platform.div factor p.unitFactor))

/-- `Unit::convIntToUnitFactor()` as called by a function. -/
def convInt (iValue : Int) (srcFactor dstFactor : ℚ) : FnProg Int := do
  FnOp.call (.convert dstFactor)
  return convIntToUnitFactor iValue srcFactor dstFactor

/-- `Unit::convRealToUnitFactor()` as called by a function. -/
def convReal (fValue srcFactor dstFactor : ℚ) : FnProg ℚ := do
  FnOp.call (.convert dstFactor)
  return convRealToUnitFactor fValue srcFactor dstFactor

/-- `successResult()` of a `VMEmptyResultFunction`. -/
def emptyResult (flags : StmtFlags) : FnResult := ⟨flags, .empty⟩

/-- `successResult()` with an integer and its unit factor. -/
def intResult (value : Int) (factor : ℚ) : FnResult := ⟨.success, .int value factor⟩

/-- `successResult()` with a real number and its unit factor. -/
def realResult (value factor : ℚ) : FnResult := ⟨.success, .real value factor⟩

/-- A `VMEmptyResultFunction`. -/
def emptyFunction (id : Nat) (exec : List ArgInfo → FnProg FnResult) : VMFunction :=
  ⟨id, fun _ => .empty, fun _ => .noUnit, fun _ => false, exec⟩

/-- A `VMIntResultFunction` without unit. -/
def intFunction (id : Nat) (exec : List ArgInfo → FnProg FnResult) : VMFunction :=
  ⟨id, fun _ => .int, fun _ => .noUnit, fun _ => false, exec⟩

/-! ## The functions -/

/-- What is printed is not modelled. -/
def message (id : Nat) : VMFunction :=
  emptyFunction id fun infos =>
    match infos[0]? with
    | none => return emptyResult .abortError
    | some info =>
        if info.isStringExpr then do
          let _ ← evalStr 0
          return emptyResult .success
        else if info.isRealExpr then do
          let _ ← evalReal 0
          return emptyResult .success
        else if info.isIntExpr then do
          let _ ← evalInt 0
          return emptyResult .success
        else return emptyResult .abortError

/-- The argument of `wait()` in microseconds. -/
def waitTime (infos : List ArgInfo) : FnProg Int :=
  if argUnitType infos 0 ≠ .noUnit then evalCastIntPrefix infos 0 .micro
  else evalCastInt infos 0

def wait (id : Nat) : VMFunction :=
  emptyFunction id fun infos => do
    let us ← waitTime infos
    if us ≤ 0 then return emptyResult ⟨true, false, false⟩
    else
      FnOp.call (.setSuspendMicroseconds us)
      return emptyResult .suspendSignalled

/-- `random()` with a random number `f` between 0 and 1. -/
def randomInt (f : ℚ) : FnProg FnResult := do
  let iMin ← evalInt 0
  let iMax ← evalInt 1
  let factor0 ← unitFactor 0
  let factor1 ← unitFactor 1
  let pick (iMin iMax : Int) (factor : ℚ) : FnResult :=
    let offset : ℚ := roundHalfAway (Platform.mul f (Platform.ofInt (iMax - iMin)))
    intResult (truncToInt (Platform.add (Platform.ofInt iMin) offset)) factor
  if Platform.eq factor0 factor1 then return pick iMin iMax factor0
  else if Platform.lt factor0 factor1 then
    return pick iMin (← convInt iMax factor1 factor0) factor0
  else return pick (← convInt iMin factor0 factor1) iMax factor1

def randomReal (infos : List ArgInfo) (f : ℚ) : FnProg FnResult := do
  let fMin ← evalCastReal infos 0
  let fMax ← evalCastReal infos 1
  let factor0 ← unitFactor 0
  let factor1 ← unitFactor 1
  let pick (fMin fMax factor : ℚ) : FnResult :=
    realResult (Platform.add fMin (Platform.mul f (Platform.sub fMax fMin))) factor
  if Platform.eq factor0 factor1 then return pick fMin fMax factor0
  else if Platform.lt factor0 factor1 then
    return pick fMin (← convReal fMax factor1 factor0) factor0
  else return pick (← convReal fMin factor0 factor1) fMax factor1

/-- The state of the C library's generator is at `seed`, `next` is its next
state, which is what `::rand()` answers. -/
def random (id seed : Nat) (next : Int → Int) (randMax : Int) : VMFunction where
  id := id
  returnType infos :=
    if argType infos 0 = .int ∧ argType infos 1 = .int then .int else .real
  returnUnitType infos := argUnitType infos 0
  returnsFinal infos := argIsFinal infos 0 || argIsFinal infos 1
  exec infos := do
    let state ← (FnOp.call (.engineRead seed) : FnProg Int)
    FnOp.call (.engineWrite seed (next state))
    let f := Platform.div (Platform.ofInt (next state)) (Platform.ofInt randMax)
    if argType infos 0 = .int ∧ argType infos 1 = .int then randomInt f else randomReal infos f

/-- `inc()` and `dec()`, which assign their argument. -/
def step (id : Nat) (op : Int → Int) : VMFunction where
  id := id
  returnType _ := .int
  returnUnitType infos := argUnitType infos 0
  returnsFinal infos := argIsFinal infos 0
  exec _ := do
    let i := op (← evalInt 0)
    let factor ← unitFactor 0
    FnOp.call (.assignInt 0 i factor)
    return intResult i (← unitFactor 0)

def inc (id : Nat) : VMFunction := step id (· + 1)

def dec (id : Nat) : VMFunction := step id (· - 1)

def inRange (id : Nat) : VMFunction :=
  intFunction id fun infos => do
    let needle ← evalCastReal infos 0
    let lo ← evalCastReal infos 1
    let hi ← evalCastReal infos 2
    let needle := Platform.mul needle (← unitFactor 0)
    let lo := Platform.mul lo (← unitFactor 1)
    let hi := Platform.mul hi (← unitFactor 2)
    let (lo, hi) := if Platform.lt hi lo then (hi, lo) else (lo, hi)
    return intResult (if Platform.le lo needle && Platform.le needle hi then 1 else 0) noFactor

/-- A function of one or two integers without unit. -/
def shift (id : Nat) (op : Int → Int → Int) : VMFunction where
  id := id
  returnType _ := .int
  returnUnitType _ := .noUnit
  returnsFinal infos := argIsFinal infos 0
  exec _ := do
    let i ← evalInt 0
    let n ← evalInt 1
    return intResult (op i n) noFactor

def msb (id : Nat) : VMFunction :=
  intFunction id fun _ => return intResult ((← evalInt 0) / 2 ^ 7 % 128) noFactor

def lsb (id : Nat) : VMFunction :=
  intFunction id fun _ => return intResult ((← evalInt 0) % 128) noFactor

/-- `min()` and `max()`; `better` compares values with their factors
multiplied in. -/
def select (id : Nat) (better : ℚ → ℚ → Bool) : VMFunction where
  id := id
  returnType infos :=
    if argType infos 0 = .real ∨ argType infos 1 = .real then .real else .int
  returnUnitType infos := argUnitType infos 0
  returnsFinal infos := argIsFinal infos 0 || argIsFinal infos 1
  exec infos :=
    if argType infos 0 = .real ∨ argType infos 1 = .real then do
      let lm ← evalCastReal infos 0
      let rm ← evalCastReal infos 1
      let lfactor ← unitFactor 0
      let rfactor ← unitFactor 1
      let left := better (Platform.mul lm lfactor) (Platform.mul rm rfactor)
      return realResult (if left then lm else rm) (if left then lfactor else rfactor)
    else do
      let lm ← evalInt 0
      let rm ← evalInt 1
      let lfactor ← unitFactor 0
      let rfactor ← unitFactor 1
      let left := better (Platform.mul (Platform.ofInt lm) lfactor)
        (Platform.mul (Platform.ofInt rm) rfactor)
      return intResult (if left then lm else rm) (if left then lfactor else rfactor)

def min (id : Nat) : VMFunction := select id Platform.lt

def max (id : Nat) : VMFunction := select id fun lprod rprod => Platform.lt rprod lprod

/-! ## Functions of arrays -/

/-- Whether element `i` is the same in both arrays, with both values brought
to the smaller one of the two factors. -/
def intElementEqual (i : Nat) : FnProg Bool := do
  let lvalue ← evalIntElement 0 i
  let rvalue ← evalIntElement 1 i
  let lfactor ← unitFactorOfElement 0 i
  let rfactor ← unitFactorOfElement 1 i
  if Platform.eq lfactor rfactor then return decide (lvalue = rvalue)
  else if Platform.lt lfactor rfactor then
    return decide (lvalue = (← convInt rvalue rfactor lfactor))
  else return decide (rvalue = (← convInt lvalue lfactor rfactor))

def realElementEqual (i : Nat) : FnProg Bool := do
  let lvalue ← evalRealElement 0 i
  let rvalue ← evalRealElement 1 i
  let lfactor ← unitFactorOfElement 0 i
  let rfactor ← unitFactorOfElement 1 i
  if Platform.eq lfactor rfactor then return fEqual32 lvalue rvalue
  else if Platform.lt lfactor rfactor then
    return fEqual32 lvalue (← convReal rvalue rfactor lfactor)
  else return fEqual32 rvalue (← convReal lvalue lfactor rfactor)

/-- A loop that ends as soon as `f` answers `found`: the answer is the index, if
any, for `n` indices to go from `i` on. -/
def findFrom (f : Nat → FnProg Bool) (found : Bool) : Nat → Nat → FnProg (Option Nat)
  | 0, _ => return none
  | n + 1, i => do
      if (← f i) = found then return some i else findFrom f found n (i + 1)

def arrayEqual (id : Nat) : VMFunction :=
  intFunction id fun infos => do
    let lsize ← arraySize 0
    let rsize ← arraySize 1
    if lsize ≠ rsize then return intResult 0 noFactor
    else
      let differ ←
        findFrom (if argType infos 0 = .intArr then intElementEqual else realElementEqual) false
          lsize.toNat 0
      return intResult (if differ.isSome then 0 else 1) noFactor

def searchFor (f : Nat → FnProg Bool) (n : Int) : FnProg FnResult := do
  match ← findFrom f true n.toNat 0 with
  | some i => return intResult i noFactor
  | none => return intResult (-1) noFactor

def search (id : Nat) : VMFunction :=
  intFunction id fun infos => do
    let n ← arraySize 0
    if argType infos 0 = .intArr then
      let needle ← evalInt 1
      searchFor (fun i => do return decide ((← evalIntElement 0 i) = needle)) n
    else
      let needle ← evalReal 1
      searchFor (fun i => do return fEqual32 (← evalRealElement 0 i) needle) n

/-- The elements of the first argument, `n` of them from `i` on, with their
unit factors. -/
def readElements {α : Type} (element : Nat → FnProg α) : Nat → Nat → FnProg (List (α × ℚ))
  | 0, _ => return []
  | n + 1, i => do
      let value ← element i
      let factor ← unitFactorOfElement 0 i
      return (value, factor) :: (← readElements element n (i + 1))

def writeElements {α : Type} (assign : Nat → α → FnProg Unit) :
    List (α × ℚ) → Nat → FnProg Unit
  | [], _ => return ()
  | (value, factor) :: rest, i => do
      assign i value
      assignElementUnitFactor 0 i factor
      writeElements assign rest (i + 1)

/-- `std::sort()` moves values together with their factors and compares their
products; the order of elements with equal products is not specified. -/
def sortElements {α : Type} (ascending : Bool) (product : α × ℚ → ℚ) (element : Nat → FnProg α)
    (assign : Nat → α → FnProg Unit) (n : Nat) : FnProg FnResult := do
  let elements ← readElements element n 0
  let le (x y : α × ℚ) : Bool :=
    if ascending then !Platform.lt (product y) (product x)
    else !Platform.lt (product x) (product y)
  writeElements assign (elements.mergeSort le) 0
  return emptyResult .success

/-- The optional second argument of `sort()`. -/
def sortDirection (infos : List ArgInfo) : FnProg Int :=
  if infos.length < 2 then return 0 else evalInt 1

def sort (id : Nat) : VMFunction :=
  emptyFunction id fun infos => do
    let descending ← sortDirection infos
    let n ← arraySize 0
    if argType infos 0 = .intArr then
      sortElements (decide (descending = 0))
        (fun x : Int × ℚ => Platform.mul (Platform.ofInt x.1) x.2)
        (evalIntElement 0) (assignIntElement 0) n.toNat
    else
      sortElements (decide (descending = 0)) (fun x : ℚ × ℚ => Platform.mul x.1 x.2)
        (evalRealElement 0) (assignRealElement 0) n.toNat

/-! ## Functions of real numbers -/

/-- A function of one real number that keeps its unit factor. -/
def realFunction (id : Nat) (f : ℚ → ℚ) : VMFunction where
  id := id
  returnType _ := .real
  returnUnitType infos := argUnitType infos 0
  returnsFinal infos := argIsFinal infos 0
  exec _ := do
    let value ← evalReal 0
    return realResult (f value) (← unitFactor 0)

def round (id : Nat) : VMFunction := realFunction id fun f => roundHalfAway f

def sqrt (m : MathLib) (id : Nat) : VMFunction := realFunction id m.sqrt

def log (m : MathLib) (id : Nat) : VMFunction := realFunction id m.log

def log2 (m : MathLib) (id : Nat) : VMFunction := realFunction id m.log2

def log10 (m : MathLib) (id : Nat) : VMFunction := realFunction id m.log10

def exp (m : MathLib) (id : Nat) : VMFunction := realFunction id m.exp

def sin (m : MathLib) (id : Nat) : VMFunction := realFunction id m.sin

def cos (m : MathLib) (id : Nat) : VMFunction := realFunction id m.cos

def tan (m : MathLib) (id : Nat) : VMFunction := realFunction id m.tan

def asin (m : MathLib) (id : Nat) : VMFunction := realFunction id m.asin

def acos (m : MathLib) (id : Nat) : VMFunction := realFunction id m.acos

def atan (m : MathLib) (id : Nat) : VMFunction := realFunction id m.atan

/-- The unit factor is that of the first argument. -/
def pow (m : MathLib) (id : Nat) : VMFunction where
  id := id
  returnType _ := .real
  returnUnitType infos := argUnitType infos 0
  returnsFinal infos := argIsFinal infos 0
  exec _ := do
    let a ← evalReal 0
    let b ← evalReal 1
    return realResult (m.pow a b) (← unitFactor 0)

/-! ## Unit factors -/

section

variable {F : ℚ → Prop}

section

-- functions that do no arithmetic with real numbers
omit [Platform]

theorem safe_unitFactor (arg : Nat) : OpProg.Safe (fnSpec F) (unitFactor arg) F :=
  safe_perform (.inr trivial) fun _ => id

theorem safe_convert {f : ℚ} (h : F f) :
    OpProg.Safe (fnSpec F) (FnOp.call (.convert f)) fun _ => True :=
  safe_perform (.inr h) fun _ _ => trivial

end

theorem safe_convInt {v : Int} {src dst : ℚ} (h : F dst) :
    OpProg.Safe (fnSpec F) (convInt v src dst) fun _ => True :=
  (safe_convert h).bind fun _ _ => trivial

theorem safe_convReal {v src dst : ℚ} (h : F dst) :
    OpProg.Safe (fnSpec F) (convReal v src dst) fun _ => True :=
  (safe_convert h).bind fun _ _ => trivial

end

end CoreVMFunction

end LinuxSampler
