import LinuxSampler.NkspExpr
import Mathlib.Data.Fin.Basic

/-!
# Division in script expressions

Integer expressions with `vmint` as a 64 bit number. The processor stops at a
division by zero and where the quotient is no such number, so evaluation may
have no value; everything else wraps around. `meaning` is the value that an
expression is to have, where every quotient and every remainder is defined.
Unit factors are converted, and operands evaluated, as the platform does it.

Variables, arrays and functions read and change a memory of any type. A
function evaluates its arguments as it likes.
-/

namespace LinuxSampler

/-! ## Values that may be missing -/

/-- `x` is `a` if `p` holds, and missing if not. -/
def IsWhen {α : Type} (x : Option α) (p : Prop) (a : α) : Prop :=
  (p → x = some a) ∧ (¬ p → x = none)

namespace IsWhen

variable {α β : Type} {x : Option α} {p q : Prop} {a : α} {f : α → Option β} {b : β}

theorem some (a : α) : IsWhen (some a) True a := ⟨fun _ => rfl, fun h => absurd trivial h⟩

theorem bind (hx : IsWhen x p a) (hf : IsWhen (f a) q b) : IsWhen (x.bind f) (p ∧ q) b := by
  constructor
  · rintro ⟨hp, hq⟩
    rw [hx.1 hp]
    exact hf.1 hq
  · intro h
    by_cases hp : p
    · rw [hx.1 hp]
      exact hf.2 fun hq => h ⟨hp, hq⟩
    · rw [hx.2 hp]
      rfl

theorem map (hx : IsWhen x p a) (g : α → β) : IsWhen (x.map g) p (g a) := by
  constructor
  · intro hp
    rw [hx.1 hp]
    rfl
  · intro hp
    rw [hx.2 hp]
    rfl

theorem of_iff (hx : IsWhen x p a) (h : p ↔ q) : IsWhen x q a :=
  ⟨fun hq => hx.1 (h.2 hq), fun hq => hx.2 fun hp => hq (h.1 hp)⟩

theorem ite {c : Prop} [Decidable c] {y z : Option α} {d : α} (hy : c → IsWhen y p a)
    (hz : ¬ c → IsWhen z p d) : IsWhen (if c then y else z) p (if c then a else d) := by
  by_cases hc : c
  · rw [if_pos hc, if_pos hc]
    exact hy hc
  · rw [if_neg hc, if_neg hc]
    exact hz hc

theorem isSome_iff (hx : IsWhen x p a) : x.isSome ↔ p := by
  by_cases hp : p
  · rw [hx.1 hp]
    exact iff_of_true rfl hp
  · rw [hx.2 hp]
    exact iff_of_false Bool.false_ne_true hp

end IsWhen

namespace Vmint

/-! ## The operators -/

/-- The division instruction of the processor. -/
def divide (l r : Int64) : Option Int64 :=
  if r = 0 ∨ l = Int64.minValue ∧ r = -1 then none else some (l / r)

/-- The remainder is computed by the same instruction. -/
def remainder (l r : Int64) : Option Int64 :=
  if r = 0 ∨ l = Int64.minValue ∧ r = -1 then none else some (l % r)

section

variable [Platform]

/-- `Unit::convIntToUnitFactor()` -/
def convert (v : Int64) (srcFactor dstFactor : ℚ) : Int64 :=
  Int64.ofInt (convIntToUnitFactor v.toInt srcFactor dstFactor)

/-- The operands of a sum or a relation as they are added or compared. -/
def converted (l r : Int64) (lfactor rfactor : ℚ) : Int64 × Int64 :=
  if Platform.eq lfactor rfactor then (l, r)
  else if Platform.lt lfactor rfactor then (l, convert r rfactor lfactor)
  else (convert l lfactor rfactor, r)

inductive BinaryOp where
  | add
  | sub
  | mul
  | div
  | mod
  | bitwiseOr
  | bitwiseAnd
  | relation (type : RelationType)

namespace BinaryOp

/-- What the class makes of the values and the unit factors of its operands. -/
def evalInt (op : BinaryOp) (l r : Int64) (lfactor rfactor : ℚ) : Option Int64 :=
  match op with
  | add =>
      let (l, r) := converted l r lfactor rfactor
      some (l + r)
  | sub =>
      let (l, r) := converted l r lfactor rfactor
      some (l - r)
  | mul => some (l * r)
  | div => if r = 0 then some 0 else divide l r
  | mod => remainder l r
  | bitwiseOr => some (l ||| r)
  | bitwiseAnd => some (l &&& r)
  | relation type =>
      let (l, r) := converted l r lfactor rfactor
      some (if evalRelation type (.int l.toInt) (.int r.toInt) then 1 else 0)

def unitFactor (op : BinaryOp) (lfactor rfactor : ℚ) : ℚ :=
  match op with
  | add | sub => if Platform.lt lfactor rfactor then lfactor else rfactor
  | mul => Platform.mul lfactor rfactor
  | div => Platform.div lfactor rfactor
  | mod | bitwiseOr | bitwiseAnd | relation _ => noFactor

/-- Whether the left operand is evaluated first: where each is a statement of its own it is. -/
def leftFirst : BinaryOp → Bool
  | mul => Platform.leftFirst .mul
  | mod => Platform.leftFirst .mod
  | bitwiseOr => Platform.leftFirst .bitwiseOr
  | bitwiseAnd => Platform.leftFirst .bitwiseAnd
  | add | sub | div | relation _ => true

/-- A quotient or a remainder by zero is what `Int64` has for it. -/
def meaning (op : BinaryOp) (l r : Int64) (lfactor rfactor : ℚ) : Int64 :=
  match op with
  | add =>
      let (l, r) := converted l r lfactor rfactor
      l + r
  | sub =>
      let (l, r) := converted l r lfactor rfactor
      l - r
  | mul => l * r
  | div => l / r
  | mod => l % r
  | bitwiseOr => l ||| r
  | bitwiseAnd => l &&& r
  | relation type =>
      let (l, r) := converted l r lfactor rfactor
      if evalRelation type (.int l.toInt) (.int r.toInt) then 1 else 0

/-- The least number is not divided by -1, and nothing is taken modulo zero. -/
def Defined (op : BinaryOp) (l r : Int64) : Prop :=
  match op with
  | div => ¬ (l = Int64.minValue ∧ r = -1)
  | mod => r ≠ 0 ∧ ¬ (l = Int64.minValue ∧ r = -1)
  | _ => True

variable {op : BinaryOp} {l r : Int64} {lfactor rfactor : ℚ}

theorem evalInt_isWhen :
    IsWhen (op.evalInt l r lfactor rfactor) (op.Defined l r) (op.meaning l r lfactor rfactor) := by
  cases op with
  | div =>
    unfold evalInt meaning Defined divide
    constructor
    · intro hover
      by_cases hr : r = 0
      · rw [if_pos hr, hr, Int64.div_zero]
      · rw [if_neg hr, if_neg fun h => h.elim hr hover]
    · intro h
      have hover : l = Int64.minValue ∧ r = -1 := not_not.1 h
      have hr : r ≠ 0 := by
        rw [hover.2]
        decide
      rw [if_neg hr, if_pos (Or.inr hover)]
  | mod =>
    unfold evalInt meaning Defined remainder
    constructor
    · rintro ⟨hr, hover⟩
      exact if_neg fun h => h.elim hr hover
    · intro h
      refine if_pos ?_
      by_contra h'
      exact h ⟨fun hr => h' (Or.inl hr), fun hover => h' (Or.inr hover)⟩
  | _ => exact IsWhen.some _

end BinaryOp

end

inductive UnaryOp where
  | neg
  | final
  | not
  | bitwiseNot

namespace UnaryOp

def evalInt : UnaryOp → Int64 → Int64
  | neg, v => -v
  | final, v => v
  | not, v => if v = 0 then 1 else 0
  | bitwiseNot, v => ~~~v

def unitFactor : UnaryOp → ℚ → ℚ
  | neg, factor | final, factor => factor
  | not, _ | bitwiseNot, _ => noFactor

end UnaryOp

/-! ## Expressions -/

/-- A function with `n` arguments: it has its result, or it changes the memory and goes on by
what it finds there, or it evaluates an argument and goes on by its value. -/
inductive FunctionBody (σ : Type) (n : ℕ) where
  | result (value : Int64)
  | act (change : σ → σ) (next : σ → FunctionBody σ n)
  | evalArg (i : Fin n) (next : Int64 → FunctionBody σ n)

/-- An array variable; `keepIndex` is what an element remembers of its index. -/
structure IntArray (σ : Type) where
  arraySize : σ → Int64
  evalIntElement : Int64 → σ → Int64
  unitFactorOfElement : σ → ℚ
  keepIndex : Int64 → σ → σ

/-- The classes of integer expressions over a memory. -/
inductive IntExpression (σ : Type) where
  | intLiteral (value : Int64) (unitFactor : ℚ)
  | intVariable (evalInt : σ → Int64) (unitFactor : σ → ℚ)
  | intArrayElement (array : IntArray σ) (index : IntExpression σ)
  | functionCall {n : ℕ} (body : FunctionBody σ n) (unitFactor : σ → ℚ)
      (args : Fin n → IntExpression σ)
  | binary (op : BinaryOp) (lhs rhs : IntExpression σ)
  | unary (op : UnaryOp) (expr : IntExpression σ)
  | or (lhs rhs : IntExpression σ)
  | and (lhs rhs : IntExpression σ)

variable {σ : Type}

/-! ### Two operands -/

/-- Both operands, in either order. -/
def evalBoth (leftFirst : Bool) (lhs rhs : σ → Option (Int64 × σ)) (s : σ) :
    Option ((Int64 × Int64) × σ) :=
  if leftFirst then (lhs s).bind fun l => (rhs l.2).map fun r => ((l.1, r.1), r.2)
  else (rhs s).bind fun r => (lhs r.2).map fun l => ((l.1, r.1), l.2)

def meaningOfBoth (leftFirst : Bool) (lhs rhs : σ → Int64 × σ) (s : σ) :
    (Int64 × Int64) × σ :=
  if leftFirst then
    let l := lhs s
    let r := rhs l.2
    ((l.1, r.1), r.2)
  else
    let r := rhs s
    let l := lhs r.2
    ((l.1, r.1), l.2)

/-- The one that comes second is evaluated in the memory that the first one leaves. -/
def BothDefined (leftFirst : Bool) (ldefined rdefined : σ → Prop) (lhs rhs : σ → Int64 × σ)
    (s : σ) : Prop :=
  if leftFirst then ldefined s ∧ rdefined (lhs s).2 else rdefined s ∧ ldefined (rhs s).2

theorem evalBoth_isWhen {leftFirst : Bool} {lhs rhs : σ → Option (Int64 × σ)}
    {ldefined rdefined : σ → Prop} {l r : σ → Int64 × σ}
    (hl : ∀ s, IsWhen (lhs s) (ldefined s) (l s)) (hr : ∀ s, IsWhen (rhs s) (rdefined s) (r s))
    (s : σ) : IsWhen (evalBoth leftFirst lhs rhs s) (BothDefined leftFirst ldefined rdefined l r s)
      (meaningOfBoth leftFirst l r s) := by
  cases leftFirst with
  | true => exact (hl s).bind ((hr _).map _)
  | false => exact (hr s).bind ((hl _).map _)

/-- `IntArrayElement::evalInt()` for an index. -/
def IntArray.element (array : IntArray σ) (idx : Int64) (s : σ) : Int64 × σ :=
  let s := array.keepIndex idx s
  (if idx < 0 ∨ idx ≥ array.arraySize s then 0 else array.evalIntElement idx s, s)

namespace FunctionBody

variable {n : ℕ}

/-- The function, with what the evaluation of its arguments does. -/
def exec (evalArgs : Fin n → σ → Option (Int64 × σ)) : FunctionBody σ n → σ → Option (Int64 × σ)
  | result value, s => some (value, s)
  | act change next, s => exec evalArgs (next s) (change s)
  | evalArg i next, s => (evalArgs i s).bind fun (v, s) => exec evalArgs (next v) s

def meaning (args : Fin n → σ → Int64 × σ) : FunctionBody σ n → σ → Int64 × σ
  | result value, s => (value, s)
  | act change next, s => meaning args (next s) (change s)
  | evalArg i next, s => meaning args (next (args i s).1) (args i s).2

/-- Each argument that is evaluated is defined. -/
def Defined (defined : Fin n → σ → Prop) (args : Fin n → σ → Int64 × σ) :
    FunctionBody σ n → σ → Prop
  | result _, _ => True
  | act change next, s => Defined defined args (next s) (change s)
  | evalArg i next, s => defined i s ∧ Defined defined args (next (args i s).1) (args i s).2

end FunctionBody

namespace IntExpression

/-- A function whose arguments are evaluated as they are meant is evaluated so itself. -/
theorem exec_isWhen {n : ℕ} {evalArgs : Fin n → σ → Option (Int64 × σ)}
    {defined : Fin n → σ → Prop} {args : Fin n → σ → Int64 × σ}
    (hargs : ∀ i s, IsWhen (evalArgs i s) (defined i s) (args i s)) (body : FunctionBody σ n)
    (s : σ) :
    IsWhen (body.exec evalArgs s) (body.Defined defined args s) (body.meaning args s) := by
  induction body generalizing s with
  | result value => exact IsWhen.some _
  | act change next ih => exact ih _ _
  | evalArg i next ih => exact (hargs i s).bind (ih _ _)

section

variable [Platform]

/-- It does not evaluate. -/
def unitFactor : IntExpression σ → σ → ℚ
  | intLiteral _ factor, _ => factor
  | intVariable _ factor, s => factor s
  | intArrayElement array _, s => array.unitFactorOfElement s
  | functionCall _ factor _, s => factor s
  | binary op lhs rhs, s => op.unitFactor (lhs.unitFactor s) (rhs.unitFactor s)
  | unary op expr, s => op.unitFactor (expr.unitFactor s)
  | or _ _, _ | and _ _, _ => noFactor

/-- `evalInt()`, which has no value when the processor stops. -/
def evalInt : IntExpression σ → σ → Option (Int64 × σ)
  | intLiteral value _, s => some (value, s)
  | intVariable value _, s => some (value s, s)
  | intArrayElement array index, s => (index.evalInt s).map fun (idx, s) => array.element idx s
  | functionCall body _ args, s => body.exec (fun i => (args i).evalInt) s
  | binary op lhs rhs, s =>
      (evalBoth op.leftFirst lhs.evalInt rhs.evalInt s).bind fun ((l, r), s) =>
        (op.evalInt l r (lhs.unitFactor s) (rhs.unitFactor s)).map fun v => (v, s)
  | unary op expr, s => (expr.evalInt s).map fun (v, s) => (op.evalInt v, s)
  | or lhs rhs, s =>
      (lhs.evalInt s).bind fun (l, s) =>
        if l ≠ 0 then some (1, s)
        else (rhs.evalInt s).map fun (r, s) => (if r ≠ 0 then 1 else 0, s)
  | and lhs rhs, s =>
      (lhs.evalInt s).bind fun (l, s) =>
        if l = 0 then some (0, s)
        else (rhs.evalInt s).map fun (r, s) => (if r ≠ 0 then 1 else 0, s)

/-- What the expression is to evaluate to, and the memory after it. -/
def meaning : IntExpression σ → σ → Int64 × σ
  | intLiteral value _, s => (value, s)
  | intVariable value _, s => (value s, s)
  | intArrayElement array index, s => array.element (index.meaning s).1 (index.meaning s).2
  | functionCall body _ args, s => body.meaning (fun i => (args i).meaning) s
  | binary op lhs rhs, s =>
      let v := meaningOfBoth op.leftFirst lhs.meaning rhs.meaning s
      (op.meaning v.1.1 v.1.2 (lhs.unitFactor v.2) (rhs.unitFactor v.2), v.2)
  | unary op expr, s => (op.evalInt (expr.meaning s).1, (expr.meaning s).2)
  | or lhs rhs, s =>
      let l := lhs.meaning s
      let r := rhs.meaning l.2
      if l.1 ≠ 0 then (1, l.2) else (if r.1 ≠ 0 then 1 else 0, r.2)
  | and lhs rhs, s =>
      let l := lhs.meaning s
      let r := rhs.meaning l.2
      if l.1 = 0 then (0, l.2) else (if r.1 ≠ 0 then 1 else 0, r.2)

/-- Of the operators that are reached, no `Div` and no `Mod` is to divide the least number by -1,
and no `Mod` is to divide by zero. -/
def Defined : IntExpression σ → σ → Prop
  | intLiteral _ _, _ | intVariable _ _, _ => True
  | intArrayElement _ index, s => index.Defined s
  | functionCall body _ args, s =>
      body.Defined (fun i => (args i).Defined) (fun i => (args i).meaning) s
  | binary op lhs rhs, s =>
      let v := meaningOfBoth op.leftFirst lhs.meaning rhs.meaning s
      BothDefined op.leftFirst lhs.Defined rhs.Defined lhs.meaning rhs.meaning s ∧
        op.Defined v.1.1 v.1.2
  | unary _ expr, s => expr.Defined s
  | or lhs rhs, s =>
      lhs.Defined s ∧ ((lhs.meaning s).1 = 0 → rhs.Defined (lhs.meaning s).2)
  | and lhs rhs, s =>
      lhs.Defined s ∧ ((lhs.meaning s).1 ≠ 0 → rhs.Defined (lhs.meaning s).2)

/-- Evaluation stops exactly where an operator is not defined, and gives what is meant if it does
not stop. -/
theorem evalInt_isWhen (e : IntExpression σ) (s : σ) :
    IsWhen (e.evalInt s) (e.Defined s) (e.meaning s) := by
  induction e generalizing s with
  | intLiteral value factor => exact IsWhen.some _
  | intVariable value factor => exact IsWhen.some _
  | intArrayElement array index ih => exact (ih s).map fun (idx, s) => array.element idx s
  | functionCall body factor args ih => exact exec_isWhen (fun i s => ih i s) body s
  | binary op lhs rhs ihl ihr =>
    exact (evalBoth_isWhen ihl ihr s).bind (BinaryOp.evalInt_isWhen.map _)
  | unary op expr ih => exact (ih s).map _
  | or lhs rhs ihl ihr =>
    refine (ihl s).bind (IsWhen.ite (fun hl => ?_) fun hl => ?_)
    · exact (IsWhen.some _).of_iff ⟨fun _ h => absurd h hl, fun _ => trivial⟩
    · exact ((ihr _).map _).of_iff ⟨fun h _ => h, fun h => h (not_not.1 hl)⟩
  | and lhs rhs ihl ihr =>
    refine (ihl s).bind (IsWhen.ite (fun hl => ?_) fun hl => ?_)
    · exact (IsWhen.some _).of_iff ⟨fun _ h => absurd hl h, fun _ => trivial⟩
    · exact ((ihr _).map _).of_iff ⟨fun h _ => h, fun h => h hl⟩

/-- Evaluation executes no division that stops the processor, exactly if the operators that it
reaches are defined. -/
theorem evalInt_isSome_iff (e : IntExpression σ) (s : σ) : (e.evalInt s).isSome ↔ e.Defined s :=
  (evalInt_isWhen e s).isSome_iff

end

attribute [local instance] Platform.exact

/-- `$a mod $b`, in a memory of variables. -/
def remainderOfVariables : IntExpression (ℕ → Int64) :=
  binary .mod (intVariable (fun s => s 0) fun _ => noFactor)
    (intVariable (fun s => s 1) fun _ => noFactor)

theorem not_evalInt_isSome :
    ¬ (remainderOfVariables.evalInt fun i => if i = 0 then 7 else 0).isSome := by
  decide

end IntExpression

end Vmint

end LinuxSampler
