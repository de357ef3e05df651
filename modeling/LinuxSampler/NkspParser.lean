import LinuxSampler.NkspCoreFn
import LinuxSampler.NkspScript

/-!
# Evaluation while parsing

The parser evaluates expressions while it builds the syntax tree: it
folds the constant initialiser of a variable into a literal with the
value and unit factor the expression has, and the constructor of an array
variable evaluates the values it is given. The memory of such an array
is allocated with `new T[]` and not initialised; elements that no value
is given for keep what was there.

`Parsed` is every state of these parts of the parser that some script
leads to, `BuiltFrom` is what the parser builds expressions from.
-/

namespace LinuxSampler

open OpProg

/-! ## What expressions are built from -/

/-- The unit factors that literals may have, the functions there are and the
arrays declared so far. -/
structure ParserScope where
  factor : ℚ → Prop
  function : VMFunction → Prop
  array : ArrayExpr → Prop

/-- The built-in and dynamic arrays of the engine need no declaration. -/
def ArrayExpr.BuiltFrom (S : ParserScope) : ArrayExpr → Prop
  | intArray a => S.array (.intArray a)
  | realArray a => S.array (.realArray a)
  | builtInIntArray _ _ | dynIntArray _ => True

namespace Expression

mutual

def BuiltFrom (S : ParserScope) : Expression → Prop
  | intLiteral _ f _ _ | realLiteral _ f _ _ | constIntVariable _ f _ _
  | constRealVariable _ f _ _ => S.factor f
  | stringLiteral _ | constStringVariable _ | intVariable _ | realVariable _
  | builtInIntVariable _ | stringVariable _ | dynamicVariableCall _ => True
  | arrayVariable array => array.BuiltFrom S
  | intArrayElement _ array index | realArrayElement _ array index =>
      array.BuiltFrom S ∧ index.BuiltFrom S
  | add lhs rhs | sub lhs rhs | mul lhs rhs | div lhs rhs | mod lhs rhs | concatString lhs rhs
  | or lhs rhs | and lhs rhs | bitwiseOr lhs rhs | bitwiseAnd lhs rhs | relation lhs _ rhs =>
      lhs.BuiltFrom S ∧ rhs.BuiltFrom S
  | neg expr | final expr | not expr | bitwiseNot expr => expr.BuiltFrom S
  | functionCall _ fn args => (∀ f ∈ fn, S.function f) ∧ allBuiltFrom S args

def allBuiltFrom (S : ParserScope) : List Expression → Prop
  | [] => True
  | e :: es => e.BuiltFrom S ∧ allBuiltFrom S es

end

end Expression

def NkspLeaf.BuiltFrom (S : ParserScope) : NkspLeaf → Prop
  | .assignment var value => var.BuiltFrom S ∧ value.BuiltFrom S
  | .functionCall _ fn args => (∀ f ∈ fn, S.function f) ∧ Expression.allBuiltFrom S args

/-- The value or the unit factor of element `i` of the array is kept in the cell. -/
def ArrayExpr.HasElement : ArrayExpr → Nat → Cell → Prop
  | .intArray a, i, .intElement b j | .intArray a, i, .intElementFactor b j => b = a ∧ j = i
  | .realArray a, i, .realElement b j | .realArray a, i, .realElementFactor b j => b = a ∧ j = i
  | _, _, _ => False

/-- The policy keeps the promises of a scope: it allows everything but the
elements of arrays that are not declared. -/
structure Policy.Covers (A : Policy) (S : ParserScope) : Prop where
  factor : ∀ f, S.factor f → A.factor f
  function : ∀ fn, S.function fn → fn.FactorSafe A.factor
  mayAccess : ∀ t c, (∀ array i, array.HasElement i c → S.array array) → A.mayAccess t c

theorem Policy.Covers.inIndex {A : Policy} {S : ParserScope} (h : A.Covers S) :
    A.inIndex.Covers S :=
  { h with mayAccess := fun _ => h.mayAccess true }

/-- Cells that are no array elements are allowed. -/
theorem Policy.Covers.mayAccess_of {A : Policy} {S : ParserScope} (hA : A.Covers S) {t : Bool}
    {c : Cell} (hc : ∀ array i, ¬ ArrayExpr.HasElement array i c) : A.mayAccess t c :=
  hA.mayAccess t c fun array i hi => absurd hi (hc array i)

theorem ArrayExpr.BuiltFrom.permitted {A : Policy} {S : ParserScope} (hA : A.Covers S)
    {array : ArrayExpr} (h : array.BuiltFrom S) : array.Permitted A := by
  have hint {a : ArrayVar} (h : S.array (.intArray a)) (i : Nat) :
      A.mayAccess false (.intElement a i) ∧ A.mayAccess false (.intElementFactor a i) := by
    constructor <;>
      · refine hA.mayAccess _ _ fun array j hj => ?_
        cases array <;> first | exact hj.1 ▸ h | cases hj
  have hreal {a : ArrayVar} (h : S.array (.realArray a)) (i : Nat) :
      A.mayAccess false (.realElement a i) ∧ A.mayAccess false (.realElementFactor a i) := by
    constructor <;>
      · refine hA.mayAccess _ _ fun array j hj => ?_
        cases array <;> first | exact hj.1 ▸ h | cases hj
  cases array with
  | intArray a => exact ⟨fun i => (hint h i).1, fun i => (hint h i).2⟩
  | realArray a => exact ⟨fun i => (hreal h i).1, fun i => (hreal h i).2⟩
  | builtInIntArray _ _ =>
      exact fun i => hA.mayAccess_of fun array _ => by cases array <;> exact id
  | dynIntArray v =>
      exact ⟨hA.mayAccess_of fun array _ => by cases array <;> exact id,
        fun i => hA.mayAccess_of fun array _ => by cases array <;> exact id⟩

theorem NumberVariable.not_hasElement (v : NumberVariable) (array : ArrayExpr) (i : Nat) :
    ¬ array.HasElement i v.intCell ∧ ¬ array.HasElement i v.realCell ∧
      ¬ array.HasElement i v.unitFactorCell := by
  unfold intCell realCell unitFactorCell
  cases v.polyphonic <;> cases array <;> exact ⟨id, id, id⟩

namespace Expression

mutual

/-- What is built within a scope keeps to the policies that cover it. -/
theorem BuiltFrom.permitted : ∀ (e : Expression) {A : Policy} {S : ParserScope},
    A.Covers S → e.BuiltFrom S → e.Permitted A
  | intLiteral _ f _ _, _, _, hA, h | realLiteral _ f _ _, _, _, hA, h
  | constIntVariable _ f _ _, _, _, hA, h | constRealVariable _ f _ _, _, _, hA, h =>
      hA.factor f h
  | stringLiteral _, _, _, _, _ | constStringVariable _, _, _, _, _ => trivial
  | intVariable v, _, _, hA, _ =>
      ⟨hA.mayAccess_of fun array i => (v.not_hasElement array i).1,
        hA.mayAccess_of fun array i => (v.not_hasElement array i).2.2⟩
  | realVariable v, _, _, hA, _ =>
      ⟨hA.mayAccess_of fun array i => (v.not_hasElement array i).2.1,
        hA.mayAccess_of fun array i => (v.not_hasElement array i).2.2⟩
  | builtInIntVariable _, _, _, hA, _ | stringVariable _, _, _, hA, _ =>
      hA.mayAccess_of fun array _ => by cases array <;> exact id
  | dynamicVariableCall _, _, _, hA, _ =>
      ⟨hA.mayAccess_of fun array _ => by cases array <;> exact id,
        hA.mayAccess_of fun array _ => by cases array <;> exact id⟩
  | arrayVariable _, _, _, hA, h => ArrayExpr.BuiltFrom.permitted hA h
  | intArrayElement _ _ index, _, _, hA, h | realArrayElement _ _ index, _, _, hA, h =>
      ⟨ArrayExpr.BuiltFrom.permitted hA h.1, BuiltFrom.permitted index hA.inIndex h.2⟩
  | add lhs rhs, _, _, hA, h | sub lhs rhs, _, _, hA, h | mul lhs rhs, _, _, hA, h
  | div lhs rhs, _, _, hA, h | mod lhs rhs, _, _, hA, h | concatString lhs rhs, _, _, hA, h
  | or lhs rhs, _, _, hA, h | and lhs rhs, _, _, hA, h | bitwiseOr lhs rhs, _, _, hA, h
  | bitwiseAnd lhs rhs, _, _, hA, h | relation lhs _ rhs, _, _, hA, h =>
      ⟨BuiltFrom.permitted lhs hA h.1, BuiltFrom.permitted rhs hA h.2⟩
  | neg expr, _, _, hA, h | final expr, _, _, hA, h | not expr, _, _, hA, h
  | bitwiseNot expr, _, _, hA, h => BuiltFrom.permitted expr hA h
  | functionCall _ _ args, _, _, hA, h =>
      ⟨fun f hf => hA.function f (h.1 f hf), allBuiltFrom_permitted args hA h.2⟩

theorem allBuiltFrom_permitted : ∀ (es : List Expression) {A : Policy} {S : ParserScope},
    A.Covers S → allBuiltFrom S es → allPermitted es A
  | [], _, _, _, _ => trivial
  | e :: es, _, _, hA, h => ⟨BuiltFrom.permitted e hA h.1, allBuiltFrom_permitted es hA h.2⟩

end

end Expression

theorem NkspLeaf.BuiltFrom.permitted {A : Policy} {S : ParserScope} (hA : A.Covers S) :
    ∀ {leaf : NkspLeaf}, leaf.BuiltFrom S → leaf.Permitted A
  | .assignment var value, h =>
      ⟨Expression.BuiltFrom.permitted var hA h.1, Expression.BuiltFrom.permitted value hA h.2⟩
  | .functionCall _ _ args, h =>
      ⟨fun f hf => hA.function f (h.1 f hf), Expression.allBuiltFrom_permitted args hA h.2⟩

/-! ## States of the parser -/

variable [Platform]

/-- What evaluation while parsing leaves behind. -/
structure ParserState where
  global : NkspGlobal
  /-- the unit factors of the literals that expressions were folded to -/
  folded : List ℚ
  /-- the arrays declared so far -/
  arrays : List ArrayExpr
  /-- those whose initialiser has fewer values than the array has elements -/
  unfilled : List ArrayExpr

/-- Literals of the source text have at most two metric prefixes. -/
def ParserState.scope (ps : ParserState) (function : VMFunction → Prop) : ParserScope where
  factor f :=
    (∃ prefixes, prefixes.length ≤ 2 ∧ f = unitFactorOfPrefixes prefixes) ∨ f ∈ ps.folded
  function := function
  array := (· ∈ ps.arrays)

/-- There is no polyphonic memory before an execution context is created. -/
def noPolyphonicMemory : PolyphonicMemory := ⟨[], [], []⟩

/-- Evaluation while parsing. -/
def parseRun {α : Type} (p : MemProg α) (g : NkspGlobal) : α × NkspGlobal :=
  let r := runProg p ⟨g, noPolyphonicMemory⟩
  (r.1, r.2.global)

/-- The array is one that a script declares, of the given size. -/
def ArrayExpr.IsDeclared (size : Nat) : ArrayExpr → Prop
  | intArray a | realArray a => a.size = size
  | builtInIntArray _ _ | dynIntArray _ => False

/-- One turn of the loop in the constructors of `IntArrayVariable` and
`RealArrayVariable`. -/
def ArrayExpr.initElement (array : ArrayExpr) (i : Nat) (e : VMExpr) : MemProg Unit :=
  match array with
  | realArray _ =>
      if e.isRealExpr then do
        array.assignRealElement i (← e.evalReal)
        array.assignElementUnitFactor i (← e.unitFactor)
      else pure ()
  | _ =>
      if e.isIntExpr then do
        array.assignIntElement i (← e.evalInt)
        array.assignElementUnitFactor i (← e.unitFactor)
      else pure ()

/-- The constructors' loop over the values, from element `i` on. -/
def ArrayExpr.initElements (array : ArrayExpr) : List Expression → Nat → MemProg Unit
  | [], _ => pure ()
  | e :: es, i => do
      array.initElement i e.node.toVMExpr
      array.initElements es (i + 1)

/-- The parser's check of a value: it has the type of the elements, and there is
no expression of a number type that is not of the class for it. -/
def ArrayExpr.Accepts : ArrayExpr → VMExpr → Prop
  | realArray _, e => e.exprType = .real ∧ e.isRealExpr = true
  | _, e => e.exprType = .int ∧ e.isIntExpr = true

end LinuxSampler
