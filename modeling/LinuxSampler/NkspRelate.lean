import LinuxSampler.NkspExpr

/-!
# Relations between evaluations

What evaluating an expression does is compared with what evaluating
another object of the same expression does, one method at a time. A
`ProgRel` is a relation between programs that sequencing and the accesses
of the expression classes keep; if it holds between the calls in two
objects of an expression, it holds between the objects
(`Expression.related`). Each class has one lemma, the cases of that
induction.

`Expression.nodeWith` is the object of a syntax tree in which calls are
objects of another kind.
-/

namespace LinuxSampler

open OpProg

namespace Cell

def isBoundResult : Cell → Bool
  | boundResult _ => true
  | _ => false

/-- The call whose result object a cell belongs to. -/
def resultOf : Cell → Option Nat
  | resultFlags n | resultInt n | resultReal n | resultStr n | resultUnitFactor n => some n
  | _ => none

/-- State of nodes and functions that is no state of a call. -/
def isOtherState (c : Cell) : Bool :=
  c.isNodeState && !c.isBoundResult && c.resultOf.isNone

end Cell

/-! ## Relations between programs -/

/-- A relation between programs that can not tell the accesses of the
expression classes apart, if they write cells that may be written. -/
structure ProgRel where
  rel : ∀ {α : Type}, MemProg α → MemProg α → Prop
  mayWrite : Cell → Prop
  pure : ∀ {α : Type} (a : α), rel (pure a) (pure a)
  bind : ∀ {α β : Type} {p q : MemProg α} {f g : α → MemProg β},
    rel p q → (∀ a, rel (f a) (g a)) → rel (p >>= f) (q >>= g)
  inIndex : ∀ {α : Type} {p q : MemProg α}, rel p q → rel (inIndex p) (inIndex q)
  read : ∀ c : Cell, c.isBoundResult = false → rel (read c) (read c)
  write : ∀ (c : Cell) (v : c.Val), mayWrite c → rel (write c v) (write c v)
  note : ∀ n : Note, rel (note n) (note n)
  otherState : ∀ c : Cell, c.isOtherState = true → mayWrite c

/-- Operations of a function that assign its arguments. -/
def FnOp.isAssignment : FnOp → Bool
  | assignIntElement _ _ _ | assignRealElement _ _ _ | assignElementUnitFactor _ _ _
  | assignInt _ _ _ => true
  | _ => false

def noAssignment : Spec fnSig := ⟨fun o => o.isAssignment = false, fun _ _ => True, fun _ => False⟩

/-- The function never assigns an argument. -/
def VMFunction.AssignsNothing (fn : VMFunction) : Prop :=
  ∀ infos, OpProg.Safe noAssignment (fn.exec infos) fun _ => True

/-- The value or the unit factor of an element of the array is kept in the cell,
and may be assigned. -/
def ArrayExpr.Owns : ArrayExpr → Cell → Prop
  | intArray a, .intElement b _ | intArray a, .intElementFactor b _ => b = a
  | realArray a, .realElement b _ | realArray a, .realElementFactor b _ => b = a
  | builtInIntArray id _, .builtInElement b _ => b = id
  | _, _ => False

instance (array : ArrayExpr) (c : Cell) : Decidable (array.Owns c) := by
  cases array <;> cases c <;>
    first | exact .isFalse id | exact inferInstanceAs (Decidable (_ = _))

/-- What others see of an object without evaluating it. -/
def VMExpr.info (e : VMExpr) : ArgInfo :=
  ⟨e.exprType, e.unitType, e.isFinal, e.isIntExpr, e.isRealExpr, e.isStringExpr⟩

/-- The objects look the same and their methods are related. -/
structure VMExpr.Related (R : ProgRel) (n d : VMExpr) : Prop where
  info : n.info = d.info
  array : n.array = d.array
  evalInt : R.rel n.evalInt d.evalInt
  evalReal : R.rel n.evalReal d.evalReal
  evalStr : R.rel n.evalStr d.evalStr
  evalCastToStr : R.rel n.evalCastToStr d.evalCastToStr
  unitFactor : R.rel n.unitFactor d.unitFactor

/-- Assigning the objects, or elements of the arrays they are, is related too. -/
structure ExprNode.AssignRelated (R : ProgRel) (n d : ExprNode) : Prop where
  assign : ∀ e e' : VMExpr, e.Related R e' → R.rel (n.assign e) (d.assign e')
  array : ∀ array ∈ n.array, ∀ c, array.Owns c → R.mayWrite c

namespace VMExpr.Related

variable {R : ProgRel} {n d : VMExpr}

theorem exprType (h : n.Related R d) : n.exprType = d.exprType :=
  congrArg ArgInfo.exprType h.info

theorem unitType (h : n.Related R d) : n.unitType = d.unitType :=
  congrArg ArgInfo.unitType h.info

theorem isFinal (h : n.Related R d) : n.isFinal = d.isFinal :=
  congrArg ArgInfo.isFinal h.info

theorem isIntExpr (h : n.Related R d) : n.isIntExpr = d.isIntExpr :=
  congrArg ArgInfo.isIntExpr h.info

theorem isRealExpr (h : n.Related R d) : n.isRealExpr = d.isRealExpr :=
  congrArg ArgInfo.isRealExpr h.info

theorem isStringExpr (h : n.Related R d) : n.isStringExpr = d.isStringExpr :=
  congrArg ArgInfo.isStringExpr h.info

end VMExpr.Related

namespace ProgRel

variable (R : ProgRel) {α β : Type}

theorem map {p q : MemProg α} (h : R.rel p q) (f : α → β) : R.rel (f <$> p) (f <$> q) :=
  R.bind h fun a => R.pure (f a)

theorem evalBoth [Platform] {op : OpenOperator} {p p' : MemProg α} {q q' : MemProg β}
    (hp : R.rel p p') (hq : R.rel q q') : R.rel (evalBoth op p q) (evalBoth op p' q') := by
  unfold LinuxSampler.evalBoth
  split
  · exact R.bind hp fun _ => R.bind hq fun _ => R.pure _
  · exact R.bind hq fun _ => R.bind hp fun _ => R.pure _

theorem convInt [Platform] (iValue : Int) (src dst : ℚ) :
    R.rel (convInt iValue src dst) (convInt iValue src dst) :=
  R.bind (R.note _) fun _ => R.pure _

theorem convReal [Platform] (fValue src dst : ℚ) :
    R.rel (convReal fValue src dst) (convReal fValue src dst) :=
  R.bind (R.note _) fun _ => R.pure _

theorem castIntToStr [Platform] {i i' : MemProg Int} {u : StdUnit} {f f' : MemProg ℚ} (hi : R.rel i i')
    (hf : R.rel f f') : R.rel (castIntToStr i u f) (castIntToStr i' u f') :=
  R.bind (R.evalBoth hi hf) fun _ => R.pure _

theorem castRealToStr [Platform] {r r' : MemProg ℚ} {u : StdUnit} {f f' : MemProg ℚ} (hr : R.rel r r')
    (hf : R.rel f f') : R.rel (castRealToStr r u f) (castRealToStr r' u f') :=
  R.bind (R.evalBoth hr hf) fun _ => R.pure _

/-- Handlers that are related on all operations a program can reach. -/
theorem interp {P : Spec fnSig} {Q : α → Prop} {p : FnProg α}
    {h h' : (o : FnOp) → MemProg o.Res} (hp : OpProg.Safe P p Q) (hstop : ∀ o, ¬ P.stop o)
    (hpost : ∀ o r, P.post o r) (hh : ∀ o, P.pre o → R.rel (h o) (h' o)) :
    R.rel (p.interp h) (p.interp h') := by
  induction p with
  | pure a => exact R.pure a
  | op o k ih =>
      rcases hp with hs | ⟨hpre, hk⟩
      · exact absurd hs (hstop o)
      · exact R.bind (hh o hpre) fun r => ih r (hk r (hpost o r))

/-! ## Arrays -/

variable (array : ArrayExpr)

theorem arraySize : R.rel array.arraySize array.arraySize := by
  cases array with
  | dynIntArray v => exact R.read _ rfl
  | _ => exact R.pure _

theorem evalIntElement (i : Nat) :
    R.rel (array.evalIntElement i) (array.evalIntElement i) := by
  cases array with
  | intArray a =>
      simp only [ArrayExpr.evalIntElement]
      split
      · exact R.pure _
      · exact R.read _ rfl
  | builtInIntArray id size =>
      simp only [ArrayExpr.evalIntElement]
      split
      · exact R.pure _
      · exact R.read _ rfl
  | realArray a => exact R.pure _
  | dynIntArray v => exact R.read _ rfl

theorem evalRealElement (i : Nat) :
    R.rel (array.evalRealElement i) (array.evalRealElement i) := by
  cases array with
  | realArray a =>
      simp only [ArrayExpr.evalRealElement]
      split
      · exact R.pure _
      · exact R.read _ rfl
  | _ => exact R.pure _

theorem unitFactorOfElement (i : Nat) :
    R.rel (array.unitFactorOfElement i) (array.unitFactorOfElement i) := by
  cases array with
  | intArray a | realArray a =>
      simp only [ArrayExpr.unitFactorOfElement]
      split
      · exact R.pure _
      · exact R.read _ rfl
  | builtInIntArray id size | dynIntArray v => exact R.pure _

theorem elementToStr [Platform] (i : Nat) : R.rel (array.elementToStr i) (array.elementToStr i) := by
  unfold ArrayExpr.elementToStr
  split
  · exact R.map (R.evalRealElement array i) _
  · exact R.map (R.evalIntElement array i) _

theorem elementsToStr [Platform] (n i : Nat) :
    R.rel (array.elementsToStr n i) (array.elementsToStr n i) := by
  induction n generalizing i with
  | zero => exact R.pure _
  | succ n ih =>
      refine R.bind (R.elementToStr array i) fun value => ?_
      refine R.bind (R.unitFactorOfElement array i) fun factor => ?_
      exact R.bind (ih (i + 1)) fun rest => R.pure _

theorem arrayToStr [Platform] : R.rel array.evalCastToStr array.evalCastToStr :=
  R.bind (R.arraySize array) fun _ => R.bind (R.elementsToStr array _ _) fun _ => R.pure _

variable {array} (hown : ∀ c, array.Owns c → R.mayWrite c)
include hown

theorem assignIntElement (i : Nat) (value : Int) :
    R.rel (array.assignIntElement i value) (array.assignIntElement i value) := by
  cases array with
  | intArray a =>
      simp only [ArrayExpr.assignIntElement]
      split
      · exact R.pure _
      · exact R.write _ _ (hown (.intElement a i) rfl)
  | builtInIntArray id size =>
      simp only [ArrayExpr.assignIntElement]
      split
      · exact R.pure _
      · exact R.write _ _ (hown (.builtInElement id i) rfl)
  | realArray a | dynIntArray v => exact R.pure _

theorem assignRealElement (i : Nat) (value : ℚ) :
    R.rel (array.assignRealElement i value) (array.assignRealElement i value) := by
  cases array with
  | realArray a =>
      simp only [ArrayExpr.assignRealElement]
      split
      · exact R.pure _
      · exact R.write _ _ (hown (.realElement a i) rfl)
  | _ => exact R.pure _

theorem assignElementUnitFactor (i : Nat) (factor : ℚ) :
    R.rel (array.assignElementUnitFactor i factor)
      (array.assignElementUnitFactor i factor) := by
  cases array with
  | intArray a =>
      simp only [ArrayExpr.assignElementUnitFactor]
      split
      · exact R.pure _
      · exact R.write _ _ (hown (.intElementFactor a i) rfl)
  | realArray a =>
      simp only [ArrayExpr.assignElementUnitFactor]
      split
      · exact R.pure _
      · exact R.write _ _ (hown (.realElementFactor a i) rfl)
  | builtInIntArray id size | dynIntArray v => exact R.pure _

end ProgRel

/-! ## Literals and variables -/

namespace NumberVariable

variable (R : ProgRel) (v : NumberVariable)

theorem rel_readInt : R.rel v.readInt v.readInt := by
  unfold readInt
  split <;> exact R.read _ rfl

theorem rel_readReal : R.rel v.readReal v.readReal := by
  unfold readReal
  split <;> exact R.read _ rfl

theorem rel_unitFactor : R.rel v.unitFactor v.unitFactor := by
  unfold unitFactor
  split <;> exact R.read _ rfl

variable {R v}

theorem rel_writeInt (h : R.mayWrite v.intCell) (i : Int) :
    R.rel (v.writeInt i) (v.writeInt i) := by
  obtain ⟨memPos, unitFactorMemPos, u, fin, polyphonic⟩ := v
  cases polyphonic <;> exact R.write _ _ h

theorem rel_writeReal (h : R.mayWrite v.realCell) (r : ℚ) :
    R.rel (v.writeReal r) (v.writeReal r) := by
  obtain ⟨memPos, unitFactorMemPos, u, fin, polyphonic⟩ := v
  cases polyphonic <;> exact R.write _ _ h

theorem rel_writeUnitFactor (h : R.mayWrite v.unitFactorCell) (f : ℚ) :
    R.rel (v.writeUnitFactor f) (v.writeUnitFactor f) := by
  obtain ⟨memPos, unitFactorMemPos, u, fin, polyphonic⟩ := v
  cases polyphonic <;> exact R.write _ _ h

end NumberVariable

namespace ExprNode

variable [Platform]

section

variable (R : ProgRel)

theorem related_intLiteral (value : Int) (f : ℚ) (u : StdUnit) (fin : Bool) :
    (intLiteral value f u fin).Related R (intLiteral value f u fin).toVMExpr :=
  ⟨rfl, rfl, R.pure _, R.pure _, R.pure _, R.castIntToStr (R.pure _) (R.pure _), R.pure _⟩

theorem related_realLiteral (value f : ℚ) (u : StdUnit) (fin : Bool) :
    (realLiteral value f u fin).Related R (realLiteral value f u fin).toVMExpr :=
  ⟨rfl, rfl, R.pure _, R.pure _, R.pure _, R.castRealToStr (R.pure _) (R.pure _), R.pure _⟩

omit [Platform] in
theorem related_stringLiteral (value : String) :
    (stringLiteral value).Related R (stringLiteral value).toVMExpr :=
  ⟨rfl, rfl, R.pure _, R.pure _, R.pure _, R.pure _, R.pure _⟩

theorem related_intVariable (v : NumberVariable) :
    (intVariable v).Related R (intVariable v).toVMExpr :=
  ⟨rfl, rfl, v.rel_readInt R, R.pure _, R.pure _,
    R.castIntToStr (v.rel_readInt R) (v.rel_unitFactor R), v.rel_unitFactor R⟩

theorem related_realVariable (v : NumberVariable) :
    (realVariable v).Related R (realVariable v).toVMExpr :=
  ⟨rfl, rfl, R.pure _, v.rel_readReal R, R.pure _,
    R.castRealToStr (v.rel_readReal R) (v.rel_unitFactor R), v.rel_unitFactor R⟩

theorem related_builtInIntVariable (ptr : VMIntPtr) :
    (builtInIntVariable ptr).Related R (builtInIntVariable ptr).toVMExpr :=
  ⟨rfl, rfl, R.read _ rfl, R.pure _, R.pure _, R.castIntToStr (R.read _ rfl) (R.pure _),
    R.pure _⟩

omit [Platform] in
theorem related_stringVariable (memPos : Nat) :
    (stringVariable memPos).Related R (stringVariable memPos).toVMExpr :=
  ⟨rfl, rfl, R.pure _, R.pure _, R.read _ rfl, R.read _ rfl, R.pure _⟩

omit [Platform] in
theorem related_dynamicVariableCall (v : DynVar) :
    (dynamicVariableCall v).Related R (dynamicVariableCall v).toVMExpr := by
  have hint : R.rel (dynamicVariableCall v).evalInt (dynamicVariableCall v).evalInt := by
    simp only [dynamicVariableCall]
    split
    · exact R.read _ rfl
    · exact R.pure _
  have hstr : R.rel (dynamicVariableCall v).evalStr (dynamicVariableCall v).evalStr := by
    simp only [dynamicVariableCall]
    split
    · exact R.read _ rfl
    · exact R.pure _
  refine ⟨rfl, rfl, hint, R.pure _, hstr, ?_, R.pure _⟩
  simp only [dynamicVariableCall]
  split
  · exact R.read _ rfl
  · split
    · exact R.map (R.read _ rfl) _
    · exact R.pure _

theorem related_arrayVariable (array : ArrayExpr) :
    (arrayVariable array).Related R (arrayVariable array).toVMExpr :=
  ⟨rfl, rfl, R.pure _, R.pure _, R.pure _, R.arrayToStr array, R.pure _⟩

end

section

variable {R : ProgRel}

omit [Platform] in
/-- An object that is no variable. -/
theorem assignRelated_of_none {n d : ExprNode} (hn : n.assign = fun _ => pure ())
    (hd : d.assign = fun _ => pure ()) (harray : n.array = none) : n.AssignRelated R d where
  assign _ _ _ := by
    rw [hn, hd]
    exact R.pure ()
  array array h := by
    rw [harray] at h
    cases h

theorem assignRelated_intVariable {v : NumberVariable} (hval : R.mayWrite v.intCell)
    (hfactor : R.mayWrite v.unitFactorCell) :
    (intVariable v).AssignRelated R (intVariable v) where
  assign e e' he := by
    simp only [intVariable, he.isIntExpr]
    split
    · refine R.bind he.evalInt fun i => R.bind (NumberVariable.rel_writeInt hval i) fun _ => ?_
      exact R.bind he.unitFactor fun f => NumberVariable.rel_writeUnitFactor hfactor f
    · exact R.pure ()
  array array h := by cases h

theorem assignRelated_realVariable {v : NumberVariable} (hval : R.mayWrite v.realCell)
    (hfactor : R.mayWrite v.unitFactorCell) :
    (realVariable v).AssignRelated R (realVariable v) where
  assign e e' he := by
    simp only [realVariable, he.isRealExpr]
    split
    · refine R.bind he.evalReal fun r => R.bind (NumberVariable.rel_writeReal hval r) fun _ => ?_
      exact R.bind he.unitFactor fun f => NumberVariable.rel_writeUnitFactor hfactor f
    · exact R.pure ()
  array array h := by cases h

theorem assignRelated_builtInIntVariable {ptr : VMIntPtr}
    (h : R.mayWrite (.builtInInt ptr.id)) :
    (builtInIntVariable ptr).AssignRelated R (builtInIntVariable ptr) where
  assign e e' he := by
    simp only [builtInIntVariable, he.isIntExpr]
    split
    · exact R.bind he.evalInt fun i => R.write _ _ h
    · exact R.pure ()
  array array h := by cases h

omit [Platform] in
theorem assignRelated_stringVariable {memPos : Nat} (h : R.mayWrite (.globalStr memPos)) :
    (stringVariable memPos).AssignRelated R (stringVariable memPos) where
  assign e e' he := by
    simp only [stringVariable, he.isStringExpr]
    split
    · exact R.bind he.evalStr fun s => R.write _ _ h
    · exact R.pure ()
  array array h := by cases h

theorem assignRelated_arrayVariable {array : ArrayExpr}
    (h : ∀ c, array.Owns c → R.mayWrite c) :
    (arrayVariable array).AssignRelated R (arrayVariable array) where
  assign _ _ _ := R.pure ()
  array a ha := by
    cases ha
    exact h

/-! ## Array elements -/

omit [Platform] in
theorem rel_elementUnitFactor (node : Nat) (array : ArrayExpr) :
    R.rel (elementUnitFactor node array) (elementUnitFactor node array) := by
  refine R.bind (R.read _ rfl) fun idx => R.bind (R.arraySize array) fun size => ?_
  split
  · exact R.bind (R.note _) fun _ => R.pure _
  · exact R.unitFactorOfElement array _

omit [Platform] in
theorem rel_withIndex {α : Type} {node : Nat} {array : ArrayExpr} {index index' : VMExpr}
    {outside : α} {inside : Nat → MemProg α} (hindex : index.Related R index')
    (hinside : ∀ i, R.rel (inside i) (inside i)) :
    R.rel (withIndex node array index outside inside)
      (withIndex node array index' outside inside) := by
  refine R.bind (R.inIndex hindex.evalInt) fun idx => ?_
  refine R.bind (R.write _ _ (R.otherState _ rfl)) fun _ => ?_
  refine R.bind (R.arraySize array) fun size => ?_
  split
  · exact R.pure _
  · exact hinside _

theorem related_intArrayElement {node : Nat} {array : ArrayExpr} {index index' : VMExpr}
    (hindex : index.Related R index') :
    (intArrayElement node array index).Related R (intArrayElement node array index').toVMExpr :=
  have heval : R.rel (intArrayElement node array index).evalInt
      (intArrayElement node array index').evalInt :=
    rel_withIndex hindex fun i => R.evalIntElement array i
  ⟨rfl, rfl, heval, R.pure _, R.pure _,
    R.castIntToStr heval (rel_elementUnitFactor node array), rel_elementUnitFactor node array⟩

theorem related_realArrayElement {node : Nat} {array : ArrayExpr} {index index' : VMExpr}
    (hindex : index.Related R index') :
    (realArrayElement node array index).Related R
      (realArrayElement node array index').toVMExpr :=
  have heval : R.rel (realArrayElement node array index).evalReal
      (realArrayElement node array index').evalReal :=
    rel_withIndex hindex fun i => R.evalRealElement array i
  ⟨rfl, rfl, R.pure _, heval, R.pure _,
    R.castRealToStr heval (rel_elementUnitFactor node array), rel_elementUnitFactor node array⟩

theorem assignRelated_intArrayElement {node : Nat} {array : ArrayExpr} {index index' : VMExpr}
    (hindex : index.Related R index') (hown : ∀ c, array.Owns c → R.mayWrite c) :
    (intArrayElement node array index).AssignRelated R (intArrayElement node array index') where
  assign e e' he := by
    simp only [intArrayElement, he.isIntExpr]
    split
    · refine R.bind he.evalInt fun value => R.bind he.unitFactor fun f => ?_
      refine rel_withIndex hindex fun i => ?_
      exact R.bind (R.assignIntElement hown i value) fun _ =>
        R.assignElementUnitFactor hown i f
    · exact R.pure ()
  array array h := by cases h

theorem assignRelated_realArrayElement {node : Nat} {array : ArrayExpr}
    {index index' : VMExpr} (hindex : index.Related R index')
    (hown : ∀ c, array.Owns c → R.mayWrite c) :
    (realArrayElement node array index).AssignRelated R
      (realArrayElement node array index') where
  assign e e' he := by
    simp only [realArrayElement, he.isRealExpr]
    split
    · refine R.bind he.evalReal fun value => R.bind he.unitFactor fun f => ?_
      refine rel_withIndex hindex fun i => ?_
      exact R.bind (R.assignRealElement hown i value) fun _ =>
        R.assignElementUnitFactor hown i f
    · exact R.pure ()
  array array h := by cases h

/-! ## Operators -/

theorem related_intBinaryOp {l l' r r' : ExprNode} {evalInt evalInt' : MemProg Int}
    (hl : l.Related R l'.toVMExpr) (hr : r.Related R r'.toVMExpr) (h : R.rel evalInt evalInt') :
    (intBinaryOp l r evalInt).Related R (intBinaryOp l' r' evalInt').toVMExpr where
  info := by simp only [VMExpr.info, intBinaryOp, hl.isFinal, hr.isFinal]
  array := rfl
  evalInt := h
  evalReal := R.pure _
  evalStr := R.pure _
  evalCastToStr := R.castIntToStr h (R.pure _)
  unitFactor := R.pure _

theorem related_varitypeScalarBinaryOp {l l' r r' : ExprNode} {u u' : StdUnit}
    {evalInt evalInt' : MemProg Int} {evalReal evalReal' unitFactor unitFactor' : MemProg ℚ}
    (hl : l.Related R l'.toVMExpr) (hr : r.Related R r'.toVMExpr) (hu : u = u')
    (hint : R.rel evalInt evalInt') (hreal : R.rel evalReal evalReal')
    (hfactor : R.rel unitFactor unitFactor') :
    (varitypeScalarBinaryOp l r u evalInt evalReal unitFactor).Related R
      (varitypeScalarBinaryOp l' r' u' evalInt' evalReal' unitFactor').toVMExpr where
  info := by
    simp only [VMExpr.info, varitypeScalarBinaryOp, hl.exprType, hr.exprType, hl.isFinal,
      hr.isFinal, hu]
  array := rfl
  evalInt := hint
  evalReal := hreal
  evalStr := R.pure _
  evalCastToStr := by
    simp only [varitypeScalarBinaryOp, hl.exprType, hr.exprType, hu]
    split
    · exact R.castRealToStr hreal hfactor
    · exact R.castIntToStr hint hfactor
  unitFactor := hfactor

theorem related_sumOp {opInt : Int → Int → Int} {opReal : ℚ → ℚ → ℚ} {l l' r r' : ExprNode}
    (hl : l.Related R l'.toVMExpr) (hr : r.Related R r'.toVMExpr) :
    (sumOp opInt opReal l r).Related R (sumOp opInt opReal l' r').toVMExpr := by
  refine related_varitypeScalarBinaryOp hl hr hl.unitType ?_ ?_ ?_
  · simp only [hl.isIntExpr, hr.isIntExpr]
    split
    · refine R.bind hl.evalInt fun lvalue => R.bind hr.evalInt fun rvalue => ?_
      refine R.bind hl.unitFactor fun lfactor => R.bind hr.unitFactor fun rfactor => ?_
      split
      · exact R.pure _
      · split
        · exact R.bind (R.convInt _ _ _) fun _ => R.pure _
        · exact R.bind (R.convInt _ _ _) fun _ => R.pure _
    · exact R.pure _
  · simp only [hl.isRealExpr, hr.isRealExpr]
    split
    · refine R.bind hl.evalReal fun lvalue => R.bind hr.evalReal fun rvalue => ?_
      refine R.bind hl.unitFactor fun lfactor => R.bind hr.unitFactor fun rfactor => ?_
      split
      · exact R.pure _
      · split
        · exact R.bind (R.convReal _ _ _) fun _ => R.pure _
        · exact R.bind (R.convReal _ _ _) fun _ => R.pure _
    · exact R.pure _
  · exact R.bind hl.unitFactor fun _ => R.bind hr.unitFactor fun _ => R.pure _

theorem related_mul {l l' r r' : ExprNode} (hl : l.Related R l'.toVMExpr)
    (hr : r.Related R r'.toVMExpr) : (mul l r).Related R (mul l' r').toVMExpr := by
  refine related_varitypeScalarBinaryOp hl hr (by rw [hl.unitType, hr.unitType]) ?_ ?_ ?_
  · simp only [hl.isIntExpr, hr.isIntExpr]
    split
    · exact R.bind (R.evalBoth hl.evalInt hr.evalInt) fun _ => R.pure _
    · exact R.pure _
  · simp only [hl.isRealExpr, hr.isRealExpr]
    split
    · exact R.bind (R.evalBoth hl.evalReal hr.evalReal) fun _ => R.pure _
    · exact R.pure _
  · refine R.bind hl.unitFactor fun _ => R.bind hr.unitFactor fun _ => ?_
    exact R.bind (R.note _) fun _ => R.pure _

theorem related_div {l l' r r' : ExprNode} (hl : l.Related R l'.toVMExpr)
    (hr : r.Related R r'.toVMExpr) : (div l r).Related R (div l' r').toVMExpr := by
  refine related_varitypeScalarBinaryOp hl hr (by rw [hl.unitType, hr.unitType]) ?_ ?_ ?_
  · simp only [hl.isIntExpr, hr.isIntExpr]
    split
    · refine R.bind hl.evalInt fun _ => R.bind hr.evalInt fun _ => ?_
      split
      · exact R.pure _
      · exact R.bind (R.note _) fun _ => R.pure _
    · exact R.pure _
  · simp only [hl.isRealExpr, hr.isRealExpr]
    split
    · exact R.bind hl.evalReal fun _ => R.bind hr.evalReal fun _ => R.pure _
    · exact R.pure _
  · refine R.bind hl.unitFactor fun _ => R.bind hr.unitFactor fun _ => ?_
    exact R.bind (R.note _) fun _ => R.pure _

theorem related_mod {l l' r r' : ExprNode} (hl : l.Related R l'.toVMExpr)
    (hr : r.Related R r'.toVMExpr) : (mod l r).Related R (mod l' r').toVMExpr := by
  refine related_intBinaryOp hl hr ?_
  simp only [hl.isIntExpr, hr.isIntExpr]
  split
  · refine R.bind (R.evalBoth hl.evalInt hr.evalInt) fun _ => ?_
    exact R.bind (R.note _) fun _ => R.pure _
  · exact R.pure _

omit [Platform] in
theorem related_neg {e e' : ExprNode} (h : e.Related R e'.toVMExpr) :
    (neg e).Related R (neg e').toVMExpr where
  info := by simp only [VMExpr.info, neg, h.exprType, h.unitType, h.isFinal]
  array := rfl
  evalInt := R.bind h.evalInt fun _ => R.pure _
  evalReal := R.bind h.evalReal fun _ => R.pure _
  evalStr := R.pure _
  evalCastToStr := h.evalCastToStr
  unitFactor := h.unitFactor

theorem related_final {e e' : ExprNode} (h : e.Related R e'.toVMExpr) :
    (final e).Related R (final e').toVMExpr where
  info := by simp only [VMExpr.info, final, h.exprType, h.unitType]
  array := rfl
  evalInt := h.evalInt
  evalReal := h.evalReal
  evalStr := R.pure _
  evalCastToStr := by
    simp only [final, h.exprType]
    split
    · exact R.map h.evalReal _
    · exact R.map h.evalInt _
  unitFactor := h.unitFactor

theorem related_concatString {l l' r r' : ExprNode} (hl : l.Related R l'.toVMExpr)
    (hr : r.Related R r'.toVMExpr) :
    (concatString l r).Related R (concatString l' r').toVMExpr :=
  have heval : R.rel (concatString l r).evalStr (concatString l' r').evalStr :=
    R.bind (R.evalBoth hl.evalCastToStr hr.evalCastToStr) fun _ => R.pure _
  ⟨rfl, rfl, R.pure _, R.pure _, heval, heval, R.pure _⟩

theorem related_or {l l' r r' : ExprNode} (hl : l.Related R l'.toVMExpr)
    (hr : r.Related R r'.toVMExpr) : (or l r).Related R (or l' r').toVMExpr := by
  refine related_intBinaryOp hl hr (R.bind hl.evalInt fun _ => ?_)
  split
  · exact R.pure _
  · exact R.bind hr.evalInt fun _ => R.pure _

theorem related_and {l l' r r' : ExprNode} (hl : l.Related R l'.toVMExpr)
    (hr : r.Related R r'.toVMExpr) : (and l r).Related R (and l' r').toVMExpr := by
  refine related_intBinaryOp hl hr (R.bind hl.evalInt fun _ => ?_)
  split
  · exact R.pure _
  · exact R.bind hr.evalInt fun _ => R.pure _

theorem related_bitwiseOr {l l' r r' : ExprNode} (hl : l.Related R l'.toVMExpr)
    (hr : r.Related R r'.toVMExpr) : (bitwiseOr l r).Related R (bitwiseOr l' r').toVMExpr :=
  related_intBinaryOp hl hr
    (R.bind (R.evalBoth hl.evalInt hr.evalInt) fun _ => R.pure _)

theorem related_bitwiseAnd {l l' r r' : ExprNode} (hl : l.Related R l'.toVMExpr)
    (hr : r.Related R r'.toVMExpr) : (bitwiseAnd l r).Related R (bitwiseAnd l' r').toVMExpr :=
  related_intBinaryOp hl hr
    (R.bind (R.evalBoth hl.evalInt hr.evalInt) fun _ => R.pure _)

theorem related_intUnaryOp {e e' : ExprNode} {op : Int → Int} (h : e.Related R e'.toVMExpr) :
    (intUnaryOp e op).Related R (intUnaryOp e' op).toVMExpr :=
  have heval : R.rel (intUnaryOp e op).evalInt (intUnaryOp e' op).evalInt :=
    R.bind h.evalInt fun _ => R.pure _
  ⟨by simp only [VMExpr.info, intUnaryOp, h.isFinal], rfl, heval, R.pure _, R.pure _,
    R.castIntToStr heval (R.pure _), R.pure _⟩

/-! ## Relations -/

theorem rel_evalRealRelation (type : RelationType) (l r : Number) (lf rf : ℚ) :
    R.rel (evalRealRelation type l r lf rf) (evalRealRelation type l r lf rf) := by
  unfold evalRealRelation
  split
  · exact R.pure _
  · split
    · exact R.bind (R.convReal _ _ _) fun _ => R.pure _
    · exact R.bind (R.convReal _ _ _) fun _ => R.pure _

theorem rel_evalIntRelation (type : RelationType) (l r : Int) (lf rf : ℚ) :
    R.rel (evalIntRelation type l r lf rf) (evalIntRelation type l r lf rf) := by
  unfold evalIntRelation
  split
  · exact R.pure _
  · split
    · exact R.bind (R.convInt _ _ _) fun _ => R.pure _
    · exact R.bind (R.convInt _ _ _) fun _ => R.pure _

omit [Platform] in
theorem rel_evalNumber {e e' : VMExpr} (h : e.Related R e') :
    R.rel (evalNumber e) (evalNumber e') := by
  unfold evalNumber
  rw [h.exprType]
  split
  · exact R.map h.evalReal _
  · exact R.map h.evalInt _

theorem rel_relationHolds {type : RelationType} {l l' r r' : ExprNode}
    (hl : l.Related R l'.toVMExpr) (hr : r.Related R r'.toVMExpr) :
    R.rel (relationHolds l type r) (relationHolds l' type r') := by
  unfold relationHolds
  rw [hl.exprType, hr.exprType]
  split
  · split
    · exact R.bind (R.evalBoth hl.evalCastToStr hr.evalCastToStr) fun _ => R.pure _
    · exact R.bind (R.evalBoth hl.evalCastToStr hr.evalCastToStr) fun _ => R.pure _
    · exact R.pure _
  · split
    · refine R.bind (rel_evalNumber hl) fun _ => R.bind (rel_evalNumber hr) fun _ => ?_
      exact R.bind hl.unitFactor fun _ => R.bind hr.unitFactor fun _ =>
        rel_evalRealRelation _ _ _ _ _
    · refine R.bind hl.evalInt fun _ => R.bind hr.evalInt fun _ => ?_
      exact R.bind hl.unitFactor fun _ => R.bind hr.unitFactor fun _ =>
        rel_evalIntRelation _ _ _ _ _

theorem related_relation {type : RelationType} {l l' r r' : ExprNode}
    (hl : l.Related R l'.toVMExpr) (hr : r.Related R r'.toVMExpr) :
    (relation l type r).Related R (relation l' type r').toVMExpr :=
  have heval : R.rel (relation l type r).evalInt (relation l' type r').evalInt :=
    R.bind (rel_relationHolds hl hr) fun _ => R.pure _
  ⟨rfl, rfl, heval, R.pure _, R.pure _, R.castIntToStr heval (R.pure _), R.pure _⟩

end

end ExprNode

/-! ## Syntax trees -/

namespace Expression

mutual

/-- All calls within an expression are as given. -/
def AllCalls (P : Nat → Option VMFunction → List Expression → Prop) : Expression → Prop
  | intArrayElement _ _ index | realArrayElement _ _ index => index.AllCalls P
  | add lhs rhs | sub lhs rhs | mul lhs rhs | div lhs rhs | mod lhs rhs | concatString lhs rhs
  | or lhs rhs | and lhs rhs | bitwiseOr lhs rhs | bitwiseAnd lhs rhs | relation lhs _ rhs =>
      lhs.AllCalls P ∧ rhs.AllCalls P
  | neg expr | final expr | not expr | bitwiseNot expr => expr.AllCalls P
  | functionCall n fn args => P n fn args ∧ allCallsOf P args
  | intLiteral _ _ _ _ | realLiteral _ _ _ _ | stringLiteral _ | intVariable _ | realVariable _
  | constIntVariable _ _ _ _ | constRealVariable _ _ _ _ | builtInIntVariable _
  | stringVariable _ | constStringVariable _ | dynamicVariableCall _ | arrayVariable _ => True

def allCallsOf (P : Nat → Option VMFunction → List Expression → Prop) :
    List Expression → Prop
  | [] => True
  | e :: es => e.AllCalls P ∧ allCallsOf P es

end

mutual

theorem allCalls_of_forall {P : Nat → Option VMFunction → List Expression → Prop}
    (h : ∀ n fn es, P n fn es) : ∀ e : Expression, e.AllCalls P
  | intLiteral _ _ _ _ | realLiteral _ _ _ _ | stringLiteral _ | intVariable _ | realVariable _
  | constIntVariable _ _ _ _ | constRealVariable _ _ _ _ | builtInIntVariable _
  | stringVariable _ | constStringVariable _ | dynamicVariableCall _ | arrayVariable _ => trivial
  | intArrayElement _ _ index | realArrayElement _ _ index => allCalls_of_forall h index
  | add lhs rhs | sub lhs rhs | mul lhs rhs | div lhs rhs | mod lhs rhs | concatString lhs rhs
  | or lhs rhs | and lhs rhs | bitwiseOr lhs rhs | bitwiseAnd lhs rhs | relation lhs _ rhs =>
      ⟨allCalls_of_forall h lhs, allCalls_of_forall h rhs⟩
  | neg expr | final expr | not expr | bitwiseNot expr => allCalls_of_forall h expr
  | functionCall n fn args => ⟨h n fn args, allCallsOf_of_forall h args⟩

theorem allCallsOf_of_forall {P : Nat → Option VMFunction → List Expression → Prop}
    (h : ∀ n fn es, P n fn es) : ∀ es : List Expression, allCallsOf P es
  | [] => trivial
  | e :: es => ⟨allCalls_of_forall h e, allCallsOf_of_forall h es⟩

end

/-- The cells that assigning the expression, or elements of the array it is, may write,
besides state of its nodes. -/
def Owns : Expression → Cell → Prop
  | intVariable v, c => c = v.intCell ∨ c = v.unitFactorCell
  | realVariable v, c => c = v.realCell ∨ c = v.unitFactorCell
  | builtInIntVariable ptr, c => c = .builtInInt ptr.id
  | stringVariable memPos, c => c = .globalStr memPos
  | arrayVariable array, c | intArrayElement _ array _, c | realArrayElement _ array _, c =>
      array.Owns c
  | _, _ => False

variable [Platform]

mutual

/-- The object of a syntax tree whose calls are the objects `call` makes. -/
def nodeWith (call : Nat → Option VMFunction → List ExprNode → ExprNode) :
    Expression → ExprNode
  | intLiteral v f u fin => .intLiteral v f u fin
  | realLiteral v f u fin => .realLiteral v f u fin
  | stringLiteral v => .stringLiteral v
  | intVariable v => .intVariable v
  | realVariable v => .realVariable v
  | constIntVariable v f u fin => .constIntVariable v f u fin
  | constRealVariable v f u fin => .constRealVariable v f u fin
  | builtInIntVariable ptr => .builtInIntVariable ptr
  | stringVariable memPos => .stringVariable memPos
  | constStringVariable v => .constStringVariable v
  | dynamicVariableCall v => .dynamicVariableCall v
  | arrayVariable array => .arrayVariable array
  | intArrayElement n array index => .intArrayElement n array (index.nodeWith call).toVMExpr
  | realArrayElement n array index => .realArrayElement n array (index.nodeWith call).toVMExpr
  | add lhs rhs => (lhs.nodeWith call).add (rhs.nodeWith call)
  | sub lhs rhs => (lhs.nodeWith call).sub (rhs.nodeWith call)
  | mul lhs rhs => (lhs.nodeWith call).mul (rhs.nodeWith call)
  | div lhs rhs => (lhs.nodeWith call).div (rhs.nodeWith call)
  | mod lhs rhs => (lhs.nodeWith call).mod (rhs.nodeWith call)
  | neg expr => (expr.nodeWith call).neg
  | final expr => (expr.nodeWith call).final
  | concatString lhs rhs => (lhs.nodeWith call).concatString (rhs.nodeWith call)
  | or lhs rhs => (lhs.nodeWith call).or (rhs.nodeWith call)
  | and lhs rhs => (lhs.nodeWith call).and (rhs.nodeWith call)
  | bitwiseOr lhs rhs => (lhs.nodeWith call).bitwiseOr (rhs.nodeWith call)
  | bitwiseAnd lhs rhs => (lhs.nodeWith call).bitwiseAnd (rhs.nodeWith call)
  | not expr => (expr.nodeWith call).not
  | bitwiseNot expr => (expr.nodeWith call).bitwiseNot
  | relation lhs type rhs => (lhs.nodeWith call).relation type (rhs.nodeWith call)
  | functionCall n fn args => call n fn (nodesWith call args)

def nodesWith (call : Nat → Option VMFunction → List ExprNode → ExprNode) :
    List Expression → List ExprNode
  | [] => []
  | e :: es => e.nodeWith call :: nodesWith call es

end

theorem nodes_eq_map : ∀ es : List Expression, nodes es = es.map node
  | [] => rfl
  | e :: es => by rw [nodes, nodes_eq_map es, List.map_cons]

theorem nodesWith_eq_map (call : Nat → Option VMFunction → List ExprNode → ExprNode) :
    ∀ es : List Expression, nodesWith call es = es.map (nodeWith call)
  | [] => rfl
  | e :: es => by rw [nodesWith, nodesWith_eq_map call es, List.map_cons]

mutual

/-- `node` is the object in which calls are function calls. -/
theorem nodeWith_functionCall : ∀ e : Expression, e.nodeWith .functionCall = e.node
  | intLiteral _ _ _ _ | realLiteral _ _ _ _ | stringLiteral _ | intVariable _ | realVariable _
  | constIntVariable _ _ _ _ | constRealVariable _ _ _ _ | builtInIntVariable _
  | stringVariable _ | constStringVariable _ | dynamicVariableCall _ | arrayVariable _ => rfl
  | intArrayElement _ _ index | realArrayElement _ _ index => by
      simp only [nodeWith, node, nodeWith_functionCall index]
  | add lhs rhs | sub lhs rhs | mul lhs rhs | div lhs rhs | mod lhs rhs | concatString lhs rhs
  | or lhs rhs | and lhs rhs | bitwiseOr lhs rhs | bitwiseAnd lhs rhs | relation lhs _ rhs => by
      simp only [nodeWith, node, nodeWith_functionCall lhs, nodeWith_functionCall rhs]
  | neg expr | final expr | not expr | bitwiseNot expr => by
      simp only [nodeWith, node, nodeWith_functionCall expr]
  | functionCall _ _ args => by simp only [nodeWith, node, nodesWith_functionCall args]

theorem nodesWith_functionCall : ∀ es : List Expression,
    nodesWith .functionCall es = nodes es
  | [] => rfl
  | e :: es => by
      simp only [nodesWith, nodes, nodeWith_functionCall e, nodesWith_functionCall es]

end

/-- The two objects of an expression are related, and so is assigning them
if the cells it owns may be written. -/
structure RelatedWith (R : ProgRel)
    (call : Nat → Option VMFunction → List ExprNode → ExprNode) (e : Expression) : Prop where
  expr : e.node.Related R (e.nodeWith call).toVMExpr
  assign : (∀ c, e.Owns c → R.mayWrite c) → e.node.AssignRelated R (e.nodeWith call)

variable {R : ProgRel} {call : Nat → Option VMFunction → List ExprNode → ExprNode}
  {P : Nat → Option VMFunction → List Expression → Prop}

/-! ## What functions do with their arguments -/

theorem argInfos_eq {es : List Expression} (hes : ∀ e ∈ es, e.RelatedWith R call) :
    (nodes es).map ExprNode.argInfo = (nodesWith call es).map ExprNode.argInfo := by
  rw [nodes_eq_map, nodesWith_eq_map, List.map_map, List.map_map]
  exact List.map_congr_left fun e he => (hes e he).expr.info

section

variable {es : List Expression} {α : Type} {i : Nat} {default : α}

theorem rel_onArg {f g : ExprNode → MemProg α}
    (hf : ∀ e ∈ es, R.rel (f e.node) (g (e.nodeWith call))) :
    R.rel (match (nodes es)[i]? with | some arg => f arg | none => pure default)
      (match (nodesWith call es)[i]? with | some arg => g arg | none => pure default) := by
  rw [nodes_eq_map, nodesWith_eq_map, List.getElem?_map, List.getElem?_map]
  cases he : es[i]? with
  | none => exact R.pure _
  | some e => exact hf e (List.mem_of_getElem? he)

theorem rel_onArray {f : ArrayExpr → MemProg α} (hes : ∀ e ∈ es, e.RelatedWith R call)
    (hf : ∀ e ∈ es, ∀ array ∈ e.node.array, R.rel (f array) (f array)) :
    R.rel (match (nodes es)[i]? with
        | some arg => match arg.array with
          | some array => f array
          | none => pure default
        | none => pure default)
      (match (nodesWith call es)[i]? with
        | some arg => match arg.array with
          | some array => f array
          | none => pure default
        | none => pure default) := by
  refine rel_onArg fun e he => ?_
  rw [← (hes e he).expr.array]
  cases harray : e.node.array with
  | none => exact R.pure _
  | some array => exact hf e he array harray

end

theorem rel_performFnOp {es : List Expression} (hes : ∀ e ∈ es, e.RelatedWith R call)
    (o : FnOp) (hassign : o.isAssignment = true → ∀ e ∈ es, ∀ c, e.Owns c → R.mayWrite c) :
    R.rel (ExprNode.performFnOp (nodes es) o) (ExprNode.performFnOp (nodesWith call es) o) := by
  cases o with
  | evalInt i => exact rel_onArg fun e he => (hes e he).expr.evalInt
  | evalReal i => exact rel_onArg fun e he => (hes e he).expr.evalReal
  | evalStr i => exact rel_onArg fun e he => (hes e he).expr.evalStr
  | unitFactor i => exact rel_onArg fun e he => (hes e he).expr.unitFactor
  | arraySize i => exact rel_onArray hes fun e he array _ => R.arraySize array
  | evalIntElement i j => exact rel_onArray hes fun e he array _ => R.evalIntElement array j
  | evalRealElement i j => exact rel_onArray hes fun e he array _ => R.evalRealElement array j
  | unitFactorOfElement i j => exact rel_onArray hes fun e he array _ => R.unitFactorOfElement array j
  | assignIntElement i j v =>
      exact rel_onArray hes fun e he array harray =>
        R.assignIntElement (((hes e he).assign (hassign rfl e he)).array array harray) j v
  | assignRealElement i j v =>
      exact rel_onArray hes fun e he array harray =>
        R.assignRealElement (((hes e he).assign (hassign rfl e he)).array array harray) j v
  | assignElementUnitFactor i j f =>
      exact rel_onArray hes fun e he array harray =>
        R.assignElementUnitFactor (((hes e he).assign (hassign rfl e he)).array array harray) j f
  | assignInt i v f =>
      exact rel_onArg fun e he => ((hes e he).assign (hassign rfl e he)).assign _ _
        (ExprNode.related_intLiteral R v f .noUnit false)
  | convert f => exact R.note _
  | setSuspendMicroseconds us => exact R.write _ _ (R.otherState _ rfl)
  | engineRead a => exact R.read _ rfl
  | engineWrite a v => exact R.write _ _ (R.otherState _ rfl)

/-- What a function does is related if it assigns nothing, or its arguments
may be assigned. -/
theorem rel_exec {fn : VMFunction} {es : List Expression}
    (hes : ∀ e ∈ es, e.RelatedWith R call)
    (h : fn.AssignsNothing ∨ ∀ e ∈ es, ∀ c, e.Owns c → R.mayWrite c) :
    R.rel
      ((fn.exec ((nodes es).map ExprNode.argInfo)).interp (ExprNode.performFnOp (nodes es)))
      ((fn.exec ((nodesWith call es).map ExprNode.argInfo)).interp
        (ExprNode.performFnOp (nodesWith call es))) := by
  rw [← argInfos_eq hes]
  rcases h with hnone | hown
  · refine R.interp (hnone _) (fun _ => id) (fun _ _ => trivial) fun o ho => ?_
    exact rel_performFnOp hes o fun hassign => absurd (ho.symm.trans hassign) (by decide)
  · refine R.interp (safe_any _) (fun _ => id) (fun _ _ => trivial) fun o _ => ?_
    exact rel_performFnOp hes o fun _ => hown

omit [Platform] in
theorem rel_storeResult {node : Nat} (h : ∀ c : Cell, c.resultOf = some node → R.mayWrite c)
    (res : FnResult) :
    R.rel (ExprNode.storeResult (some node) res) (ExprNode.storeResult (some node) res) := by
  obtain ⟨flags, value⟩ := res
  refine R.bind (R.write _ _ (h (.resultFlags node) rfl)) fun _ => ?_
  cases value with
  | empty => exact R.pure ()
  | int v f =>
      exact R.bind (R.write _ _ (h (.resultInt node) rfl)) fun _ =>
        R.write _ _ (h (.resultUnitFactor node) rfl)
  | real v f =>
      exact R.bind (R.write _ _ (h (.resultReal node) rfl)) fun _ =>
        R.write _ _ (h (.resultUnitFactor node) rfl)
  | str v => exact R.write _ _ (h (.resultStr node) rfl)

/-! ## All classes -/

open ExprNode in
mutual

/-- If a relation holds between the calls in two objects of an expression,
it holds between the objects. -/
theorem related (hcall : ∀ n fn es, P n fn es → (∀ e ∈ es, e.RelatedWith R call) →
      (functionCall n fn es).RelatedWith R call) :
    ∀ e : Expression, e.AllCalls P → e.RelatedWith R call
  | intLiteral v f u fin, _ | constIntVariable v f u fin, _ =>
      ⟨related_intLiteral R v f u fin, fun _ => assignRelated_of_none rfl rfl rfl⟩
  | realLiteral v f u fin, _ | constRealVariable v f u fin, _ =>
      ⟨related_realLiteral R v f u fin, fun _ => assignRelated_of_none rfl rfl rfl⟩
  | stringLiteral v, _ | constStringVariable v, _ =>
      ⟨related_stringLiteral R v, fun _ => assignRelated_of_none rfl rfl rfl⟩
  | intVariable v, _ =>
      ⟨related_intVariable R v,
        fun h => assignRelated_intVariable (h _ (.inl rfl)) (h _ (.inr rfl))⟩
  | realVariable v, _ =>
      ⟨related_realVariable R v,
        fun h => assignRelated_realVariable (h _ (.inl rfl)) (h _ (.inr rfl))⟩
  | builtInIntVariable ptr, _ =>
      ⟨related_builtInIntVariable R ptr, fun h => assignRelated_builtInIntVariable (h _ rfl)⟩
  | stringVariable memPos, _ =>
      ⟨related_stringVariable R memPos, fun h => assignRelated_stringVariable (h _ rfl)⟩
  | dynamicVariableCall v, _ =>
      ⟨related_dynamicVariableCall R v, fun _ => assignRelated_of_none rfl rfl rfl⟩
  | arrayVariable array, _ =>
      ⟨related_arrayVariable R array, fun h => assignRelated_arrayVariable h⟩
  | intArrayElement _ _ index, h =>
      have hindex := (related hcall index h).expr
      ⟨related_intArrayElement hindex, fun h => assignRelated_intArrayElement hindex h⟩
  | realArrayElement _ _ index, h =>
      have hindex := (related hcall index h).expr
      ⟨related_realArrayElement hindex, fun h => assignRelated_realArrayElement hindex h⟩
  | add lhs rhs, h | sub lhs rhs, h =>
      ⟨related_sumOp (related hcall lhs h.1).expr (related hcall rhs h.2).expr,
        fun _ => assignRelated_of_none rfl rfl rfl⟩
  | mul lhs rhs, h =>
      ⟨related_mul (related hcall lhs h.1).expr (related hcall rhs h.2).expr,
        fun _ => assignRelated_of_none rfl rfl rfl⟩
  | div lhs rhs, h =>
      ⟨related_div (related hcall lhs h.1).expr (related hcall rhs h.2).expr,
        fun _ => assignRelated_of_none rfl rfl rfl⟩
  | mod lhs rhs, h =>
      ⟨related_mod (related hcall lhs h.1).expr (related hcall rhs h.2).expr,
        fun _ => assignRelated_of_none rfl rfl rfl⟩
  | neg expr, h =>
      ⟨related_neg (related hcall expr h).expr, fun _ => assignRelated_of_none rfl rfl rfl⟩
  | final expr, h =>
      ⟨related_final (related hcall expr h).expr, fun _ => assignRelated_of_none rfl rfl rfl⟩
  | concatString lhs rhs, h =>
      ⟨related_concatString (related hcall lhs h.1).expr (related hcall rhs h.2).expr,
        fun _ => assignRelated_of_none rfl rfl rfl⟩
  | or lhs rhs, h =>
      ⟨related_or (related hcall lhs h.1).expr (related hcall rhs h.2).expr,
        fun _ => assignRelated_of_none rfl rfl rfl⟩
  | and lhs rhs, h =>
      ⟨related_and (related hcall lhs h.1).expr (related hcall rhs h.2).expr,
        fun _ => assignRelated_of_none rfl rfl rfl⟩
  | bitwiseOr lhs rhs, h =>
      ⟨related_bitwiseOr (related hcall lhs h.1).expr (related hcall rhs h.2).expr,
        fun _ => assignRelated_of_none rfl rfl rfl⟩
  | bitwiseAnd lhs rhs, h =>
      ⟨related_bitwiseAnd (related hcall lhs h.1).expr (related hcall rhs h.2).expr,
        fun _ => assignRelated_of_none rfl rfl rfl⟩
  | not expr, h | bitwiseNot expr, h =>
      ⟨related_intUnaryOp (related hcall expr h).expr,
        fun _ => assignRelated_of_none rfl rfl rfl⟩
  | relation lhs _ rhs, h =>
      ⟨related_relation (related hcall lhs h.1).expr (related hcall rhs h.2).expr,
        fun _ => assignRelated_of_none rfl rfl rfl⟩
  | functionCall n fn args, h => hcall n fn args h.1 (allRelated hcall args h.2)

theorem allRelated (hcall : ∀ n fn es, P n fn es → (∀ e ∈ es, e.RelatedWith R call) →
      (functionCall n fn es).RelatedWith R call) :
    ∀ es : List Expression, allCallsOf P es → ∀ e ∈ es, e.RelatedWith R call
  | [], _ => fun _ he => by cases he
  | e :: es, h => fun e' he' => by
      rcases List.mem_cons.mp he' with heq | he'
      · rw [heq]
        exact related hcall e h.1
      · exact allRelated hcall es h.2 e' he'

end

end Expression

end LinuxSampler
