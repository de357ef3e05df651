import LinuxSampler.NkspScript

/-!
# Constant expressions

`isConstExpr()` is the parser's licence to evaluate an expression while
parsing. An expression is constant in a memory if evaluating it reads
only constant arrays and what the same evaluation has left in its nodes, and
therefore gives the same value and unit factor whatever the variables, the
engine and the nodes hold.

Every class of expressions asks all its operands, with one exception: an
array element asks its array and not its index. So the analysis is right
about all memory accesses except those made while an array index is
evaluated (`constPolicy`), and an expression it accepts is constant
exactly if its array indices read nothing else either, and no element is
asked for its unit factor before its index is evaluated.
-/

namespace LinuxSampler

open OpProg

/-! ## Memories that differ in variables only -/

theorem Cell.not_polyphonic_of_not_variable {c : Cell} (h : c.isVariable = false) :
    c.isPolyphonic = false := by
  cases c <;> first | rfl | cases h

theorem Cell.not_variable_of_nodeState {c : Cell} (h : c.isNodeState) :
    c.isVariable = false := by
  cases c <;> first | rfl | cases h

/-- Elements of constant arrays, and the bindings of functions, which every call restores. -/
def Cell.isConstant : Cell → Bool
  | .boundResult _ => true
  | c => !c.isVariable && !c.isNodeState

theorem Cell.not_polyphonic_of_isConstant {c : Cell} (h : c.isConstant) :
    c.isPolyphonic = false := by
  cases c <;> first | rfl | cases h

theorem Cell.isConstant_of_not_variable {c : Cell} (hvar : c.isVariable = false)
    (hnode : c.isNodeState = false) : c.isConstant = true := by
  cases c <;> first | cases hnode; done | simp_all [isConstant]

/-- The two memories have the same constants. All else may differ: the content of variables, the
state of the engine and what syntax nodes have kept. -/
def AgreeOnConstants (s s' : Store Mem) : Prop :=
  ∀ c : Cell, c.isConstant = true → getCell s c = getCell s' c

/-- Assigning a variable changes no constant. -/
theorem agreeOnConstants_setCell (s : Store Mem) {c : Cell} (hc : c.isVariable = true)
    (v : c.Val) : AgreeOnConstants s (setCell s c v) := by
  intro d hd
  have hne : d ≠ c := by
    rintro rfl
    cases d <;> first | (cases hc; done) | simp_all [Cell.isConstant]
  exact (Policy.getCell_setCell_ne s (Cell.not_polyphonic_of_isConstant hd) hne v).symm

/-! ## What an evaluation reads -/

namespace MemOp

/-- What the evaluation has written. -/
def learn (known : Cell → Prop) : MemOp → Cell → Prop
  | .write _ c _ => fun d => d = c ∨ known d
  | .read _ _ | .note _ => known

/-- A constant is read, or what the evaluation has left in a node. -/
def IsFresh (known : Cell → Prop) : MemOp → Prop
  | .read _ c => c.isConstant = true ∨ c.isNodeState = true ∧ known c
  | .write _ _ _ | .note _ => True

/-- The operation is part of the evaluation of an array index. -/
def isInIndex : MemOp → Bool
  | .read t _ | .write t _ _ => t
  | .note _ => false

def readsNodeState : MemOp → Bool
  | .read _ c => c.isNodeState
  | .write _ _ _ | .note _ => false

end MemOp

/-- No read depends on anything but constants. -/
def ReadsConstants (trace : List MemOp) : Prop :=
  GoodTrace (S := memSig) MemOp.IsFresh MemOp.learn (fun _ => False) trace

/-- Neither within array indices nor of the state of nodes. -/
def IndicesReadConstants (trace : List MemOp) : Prop :=
  GoodTrace (S := memSig)
    (fun known o => o.isInIndex = true ∨ o.readsNodeState = true → o.IsFresh known)
    MemOp.learn (fun _ => False) trace

/-- The memories agree on constants and on what is known of nodes. -/
def AgreeOnKnown (known : Cell → Prop) (s s' : Store Mem) : Prop :=
  ∀ c : Cell, c.isConstant = true ∨ c.isNodeState = true ∧ known c → getCell s c = getCell s' c

/-- A run that reads constants only is the same run from any other memory with these. -/
theorem run_eq_of_readsConstants {α : Type} {p : MemProg α} {s s' : Store Mem}
    (h : AgreeOnConstants s s') (hreads : ReadsConstants (run memMachine p s).trace) :
    (run memMachine p s').val = (run memMachine p s).val := by
  refine (run_eq_of_agree (R := AgreeOnKnown) ?_ ?_ hreads).1
  · rintro known o s s' ho hs
    cases o with
    | read t c => exact ⟨hs c ho, hs⟩
    | note n => exact ⟨rfl, hs⟩
    | write t c v =>
        refine ⟨rfl, fun d hd => ?_⟩
        have hpoly : d.isPolyphonic = false := by
          rcases hd with hd | ⟨hd, -⟩
          · exact Cell.not_polyphonic_of_isConstant hd
          · exact Cell.not_polyphonic_of_not_variable (Cell.not_variable_of_nodeState hd)
        by_cases heq : d = c
        · subst heq
          exact (Policy.getCell_setCell_self s hpoly v).trans
            (Policy.getCell_setCell_self s' hpoly v).symm
        · have hknown : d.isConstant = true ∨ d.isNodeState = true ∧ known d :=
            hd.imp id fun hd => ⟨hd.1, hd.2.resolve_left heq⟩
          exact (Policy.getCell_setCell_ne s hpoly heq v).trans
            ((hs d hknown).trans (Policy.getCell_setCell_ne s' hpoly heq v).symm)
  · rintro c (hc | ⟨-, hc⟩)
    · exact h c hc
    · exact hc.elim

/-! ## What `isConstExpr()` ensures -/

/-- No variables outside of array indices. -/
def constPolicy : Policy where
  mayAccess t c := t = true ∨ c.isVariable = false
  factor _ := True
  stops _ := False

theorem constPolicy_lawful [Platform] : constPolicy.Lawful :=
  ⟨trivial, fun _ _ _ _ => .inr trivial, fun _ _ _ _ => .inr trivial, fun _ => .inr trivial,
    fun _ _ hc => .inr (Cell.not_variable_of_nodeState hc)⟩

theorem constPolicy_inIndex_permissive : constPolicy.inIndex.Permissive :=
  ⟨fun _ _ => .inl rfl, fun _ => trivial⟩

theorem ArrayExpr.permitted_of_permissive {A : Policy} (hA : A.Permissive) (array : ArrayExpr) :
    array.Permitted A := by
  cases array with
  | intArray a | realArray a => exact ⟨fun _ => hA.1 _ _, fun _ => hA.1 _ _⟩
  | dynIntArray v => exact ⟨hA.1 _ _, fun _ => hA.1 _ _⟩
  | builtInIntArray id size => exact fun _ => hA.1 _ _

theorem ArrayExpr.permitted_of_isConstExpr {array : ArrayExpr} (h : array.isConstExpr = true) :
    array.Permitted constPolicy := by
  cases array with
  | intArray a | realArray a =>
      have hcell : (!a.isConst) = false := by rw [show a.isConst = true from h]; rfl
      exact ⟨fun _ => .inr hcell, fun _ => .inr hcell⟩
  | builtInIntArray id size | dynIntArray v => cases h

namespace Expression

mutual

theorem permitted_of_permissive : ∀ (e : Expression) {A : Policy}, A.Permissive →
    e.Permitted A
  | intLiteral _ f _ _, _, hA | realLiteral _ f _ _, _, hA | constIntVariable _ f _ _, _, hA
  | constRealVariable _ f _ _, _, hA => hA.2 f
  | stringLiteral _, _, _ | constStringVariable _, _, _ => trivial
  | intVariable _, _, hA | realVariable _, _, hA | dynamicVariableCall _, _, hA =>
      ⟨hA.1 _ _, hA.1 _ _⟩
  | builtInIntVariable _, _, hA | stringVariable _, _, hA => hA.1 _ _
  | arrayVariable array, _, hA => array.permitted_of_permissive hA
  | intArrayElement _ array index, _, hA | realArrayElement _ array index, _, hA =>
      ⟨array.permitted_of_permissive hA, index.permitted_of_permissive hA.inIndex⟩
  | add lhs rhs, _, hA | sub lhs rhs, _, hA | mul lhs rhs, _, hA | div lhs rhs, _, hA
  | mod lhs rhs, _, hA | concatString lhs rhs, _, hA | or lhs rhs, _, hA | and lhs rhs, _, hA
  | bitwiseOr lhs rhs, _, hA | bitwiseAnd lhs rhs, _, hA | relation lhs _ rhs, _, hA =>
      ⟨lhs.permitted_of_permissive hA, rhs.permitted_of_permissive hA⟩
  | neg expr, _, hA | final expr, _, hA | not expr, _, hA | bitwiseNot expr, _, hA =>
      expr.permitted_of_permissive hA
  | functionCall _ _ args, _, hA =>
      ⟨fun f _ => f.factorSafe_of_forall hA.2, allPermitted_of_permissive args hA⟩

theorem allPermitted_of_permissive : ∀ (es : List Expression) {A : Policy}, A.Permissive →
    allPermitted es A
  | [], _, _ => trivial
  | e :: es, _, hA => ⟨e.permitted_of_permissive hA, allPermitted_of_permissive es hA⟩

end

/-- A constant expression has no variables but in its array indices. -/
theorem permitted_of_isConstExpr [Platform] : ∀ e : Expression, e.node.isConstExpr = true →
    e.Permitted constPolicy
  | intLiteral _ _ _ _, _ | realLiteral _ _ _ _, _ | constIntVariable _ _ _ _, _
  | constRealVariable _ _ _ _, _ | stringLiteral _, _ | constStringVariable _, _ => trivial
  | arrayVariable _, h => ArrayExpr.permitted_of_isConstExpr h
  | intArrayElement _ _ index, h | realArrayElement _ _ index, h =>
      ⟨ArrayExpr.permitted_of_isConstExpr h,
        index.permitted_of_permissive constPolicy_inIndex_permissive⟩
  | add lhs rhs, h | sub lhs rhs, h | mul lhs rhs, h | div lhs rhs, h | mod lhs rhs, h
  | concatString lhs rhs, h | or lhs rhs, h | and lhs rhs, h | bitwiseOr lhs rhs, h
  | bitwiseAnd lhs rhs, h | relation lhs _ rhs, h =>
      have h : (lhs.node.isConstExpr && rhs.node.isConstExpr) = true := h
      ⟨permitted_of_isConstExpr lhs (Bool.and_eq_true_iff.mp h).1,
        permitted_of_isConstExpr rhs (Bool.and_eq_true_iff.mp h).2⟩
  | neg expr, h | final expr, h | not expr, h | bitwiseNot expr, h =>
      permitted_of_isConstExpr expr h
  | functionCall _ none _, h | functionCall _ (some _) _, h => by cases h

/-- Evaluation in the memory `s` reads nothing but constants, and gives the same value and unit
factor in every memory that has the constants of `s`. -/
def ConstantAt [Platform] (e : Expression) (s : Store Mem) : Prop :=
  ReadsConstants (run memMachine e.evaluate s).trace ∧
    ∀ s', AgreeOnConstants s s' →
      (run memMachine e.evaluate s').val = (run memMachine e.evaluate s).val

/-- An expression with `isConstExpr()` is constant exactly where the array
indices that are evaluated in it are, and no element is asked for the unit
factor at an index that an earlier evaluation has left. -/
theorem constantAt_iff_of_isConstExpr [Platform] {e : Expression}
    (h : e.node.isConstExpr = true) (s : Store Mem) :
    e.ConstantAt s ↔ IndicesReadConstants (run memMachine e.evaluate s).trace := by
  have hsafe := e.safe_evaluate constPolicy_lawful (e.permitted_of_isConstExpr h)
  have hgood : constPolicy.Good s := by
    intro t c _
    unfold Policy.inv
    split <;> trivial
  have hnostop : ∀ o ∈ (run memMachine e.evaluate s).trace, ¬ constPolicy.spec.stop o := by
    rintro (_ | _ | _) - hstop <;> exact hstop
  obtain ⟨-, -, hpre⟩ := Policy.safe_run hsafe hgood hnostop
  constructor
  · rintro ⟨hreads, -⟩
    exact hreads.imp fun o _ known hfresh _ => hfresh
  · intro hindex
    have hreads : ReadsConstants (run memMachine e.evaluate s).trace := by
      refine GoodTrace.imp hindex fun o ho known hfresh => ?_
      cases o with
      | read t c =>
          -- within an index or in a node, by hypothesis; or a constant, by the policy
          by_cases hread : t = true ∨ c.isNodeState = true
          · exact hfresh hread
          · rw [not_or, Bool.not_eq_true, Bool.not_eq_true] at hread
            have hvar : t = true ∨ c.isVariable = false := hpre _ ho
            rw [hread.1] at hvar
            exact .inl (Cell.isConstant_of_not_variable (hvar.resolve_left Bool.false_ne_true)
              hread.2)
      | write t c v | note n => trivial
    exact ⟨hreads, fun s' hs' => run_eq_of_readsConstants hs' hreads⟩

/-! ## A constant array with a variable index -/

attribute [local instance] Platform.exact

/-- `declare const %a[2] := (10, 20)` -/
def constArray : ArrayVar := ⟨0, 2, true⟩

/-- `%a[$i]` -/
def elementAtVariable : Expression :=
  .intArrayElement 0 (.intArray constArray)
    (.intVariable { memPos := 0, unitFactorMemPos := 0 })

/-- The memory once the array is declared, with `$i` 0. -/
def declaredMem : Store Mem :=
  setCell (setCell ⟨initialMem, ⟨[], [], []⟩⟩ (.intElement constArray 0) (10 : Int))
    (.intElement constArray 1) (20 : Int)

/-- The expression `%a[$i]` has `isConstExpr()`, but it is 10 or 20 as `$i` is. -/
theorem element_at_variable_not_constant :
    elementAtVariable.node.isConstExpr = true ∧
      (run memMachine elementAtVariable.evaluate declaredMem).val = (.int 10, 1) ∧
      (run memMachine elementAtVariable.evaluate
        (setCell declaredMem (.globalInt 0) (1 : Int))).val = (.int 20, 1) ∧
      ¬ elementAtVariable.ConstantAt declaredMem := by
  have h0 : (run memMachine elementAtVariable.evaluate declaredMem).val = (.int 10, 1) := by rfl
  have h1 : (run memMachine elementAtVariable.evaluate
      (setCell declaredMem (.globalInt 0) (1 : Int))).val = (.int 20, 1) := by rfl
  refine ⟨rfl, h0, h1, ?_⟩
  rintro ⟨-, hsame⟩
  have heq := hsame _ (agreeOnConstants_setCell declaredMem (c := .globalInt 0) rfl (1 : Int))
  have : (ScalarValue.int 20, (1 : ℚ)) = (.int 10, 1) := h1.symm.trans (heq.trans h0)
  simp at this

/-- With a literal for the index the element is constant. -/
theorem element_at_literal_constant :
    (intArrayElement 0 (.intArray constArray) (.intLiteral 1 1 .noUnit false)).ConstantAt
      declaredMem := by
  refine (constantAt_iff_of_isConstExpr rfl declaredMem).mpr ?_
  -- the index is written before the factor is asked for
  exact ⟨fun _ => trivial, fun _ => .inl rfl, fun _ => .inr ⟨rfl, .inl rfl⟩, fun _ => .inl rfl,
    trivial⟩

end Expression

end LinuxSampler
