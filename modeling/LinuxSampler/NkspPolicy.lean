import LinuxSampler.NkspExpr

/-!
# Expressions that keep to a policy

Whatever a policy allows and promises, an expression keeps to it if it
allows the accesses of the variables in it: `Expression.Permitted` asks
for these and recurses into the index of an array element with the
policy for indices. The one induction over the expression classes is
`Expression.keeps`; the lemmas before it are its cases.
-/

namespace LinuxSampler

open OpProg Policy

/-- All methods of the object keep to the policy. -/
structure VMExpr.Keeps (A : Policy) (e : VMExpr) : Prop where
  evalInt : OpProg.Safe A.spec e.evalInt fun _ => True
  evalReal : OpProg.Safe A.spec e.evalReal fun _ => True
  evalStr : OpProg.Safe A.spec e.evalStr fun _ => True
  evalCastToStr : OpProg.Safe A.spec e.evalCastToStr fun _ => True
  unitFactor : OpProg.Safe A.spec e.unitFactor A.factor

/-- The cells of the array may be accessed. -/
def ArrayExpr.Permitted (A : Policy) : ArrayExpr → Prop
  | intArray a =>
      (∀ i, A.mayAccess false (.intElement a i)) ∧ ∀ i, A.mayAccess false (.intElementFactor a i)
  | realArray a =>
      (∀ i, A.mayAccess false (.realElement a i)) ∧
        ∀ i, A.mayAccess false (.realElementFactor a i)
  | builtInIntArray id _ => ∀ i, A.mayAccess false (.builtInElement id i)
  | dynIntArray v => A.mayAccess false (.dynArraySize v) ∧ ∀ i, A.mayAccess false (.dynElement v i)

structure ExprNode.Keeps (A : Policy) (n : ExprNode) : Prop where
  expr : n.toVMExpr.Keeps A
  assign : ∀ e : VMExpr, e.Keeps A → OpProg.Safe A.spec (n.assign e) fun _ => True
  array : ∀ array ∈ n.array, array.Permitted A

section

variable {A : Policy}

theorem safe_return {α : Type} {Q : α → Prop} {a : α} (h : Q a) :
    OpProg.Safe A.spec (pure a : MemProg α) Q := h

theorem safe_map {α β : Type} {Q : α → Prop} {p : MemProg α} {f : α → β}
    (h : OpProg.Safe A.spec p Q) : OpProg.Safe A.spec (f <$> p) fun _ => True :=
  h.map fun _ _ => trivial

theorem safe_read_any {c : Cell} (h : A.mayAccess false c) :
    OpProg.Safe A.spec (read c) fun _ => True :=
  (safe_read h).mono fun _ _ => trivial

/-- What is known of the operands is the same whichever is evaluated first. -/
theorem safe_evalBoth [Platform] {op : OpenOperator} {α β : Type} {lhs : MemProg α}
    {rhs : MemProg β} {P : α → Prop} {Q : β → Prop} (hl : OpProg.Safe A.spec lhs P)
    (hr : OpProg.Safe A.spec rhs Q) :
    OpProg.Safe A.spec (evalBoth op lhs rhs) fun r => P r.1 ∧ Q r.2 := by
  unfold evalBoth
  split
  · exact safe_bind hl fun _ hP => safe_bind hr fun _ hQ => safe_return ⟨hP, hQ⟩
  · exact safe_bind hr fun _ hQ => safe_bind hl fun _ hP => safe_return ⟨hP, hQ⟩

section

variable [Platform]

theorem safe_convInt {iValue : Int} {src dst : ℚ} (h : A.factor dst) :
    OpProg.Safe A.spec (convInt iValue src dst) fun _ => True :=
  safe_bind (Q := fun _ => True) (safe_note (.inr ⟨h, trivial⟩)) fun _ _ => safe_return trivial

theorem safe_convReal {fValue src dst : ℚ} (h : A.factor dst) :
    OpProg.Safe A.spec (convReal fValue src dst) fun _ => True :=
  safe_bind (Q := fun _ => True) (safe_note (.inr ⟨h, trivial⟩)) fun _ _ => safe_return trivial

theorem safe_castIntToStr {i : MemProg Int} {u : StdUnit} {f : MemProg ℚ}
    (hi : OpProg.Safe A.spec i fun _ => True) (hf : OpProg.Safe A.spec f A.factor) :
    OpProg.Safe A.spec (castIntToStr i u f) fun _ => True :=
  safe_bind (safe_evalBoth hi hf) fun _ _ => safe_return trivial

theorem safe_castRealToStr {r : MemProg ℚ} {u : StdUnit} {f : MemProg ℚ}
    (hr : OpProg.Safe A.spec r fun _ => True) (hf : OpProg.Safe A.spec f A.factor) :
    OpProg.Safe A.spec (castRealToStr r u f) fun _ => True :=
  safe_bind (safe_evalBoth hr hf) fun _ _ => safe_return trivial

end

/-! ## Arrays -/

namespace ArrayExpr

variable {array : ArrayExpr}

theorem Permitted.arraySize (h : array.Permitted A) :
    OpProg.Safe A.spec array.arraySize fun _ => True := by
  cases array with
  | dynIntArray v => exact safe_read_any h.1
  | _ => exact safe_return trivial

theorem Permitted.evalIntElement (h : array.Permitted A) (i : Nat) :
    OpProg.Safe A.spec (array.evalIntElement i) fun _ => True := by
  cases array with
  | intArray a =>
      show OpProg.Safe A.spec (if i ≥ a.size then pure 0 else read (.intElement a i)) _
      split
      · exact safe_return trivial
      · exact safe_read_any (h.1 i)
  | realArray a => exact safe_return trivial
  | builtInIntArray id size =>
      show OpProg.Safe A.spec (if i ≥ size then pure 0 else read (.builtInElement id i)) _
      split
      · exact safe_return trivial
      · exact safe_read_any (h i)
  | dynIntArray v => exact safe_read_any (h.2 i)

theorem Permitted.assignIntElement (h : array.Permitted A) (i : Nat) (value : Int) :
    OpProg.Safe A.spec (array.assignIntElement i value) fun _ => True := by
  cases array with
  | intArray a =>
      show OpProg.Safe A.spec (if i ≥ a.size then pure () else write (.intElement a i) value) _
      split
      · exact safe_return trivial
      · exact safe_write (h.1 i) trivial
  | builtInIntArray id size =>
      show OpProg.Safe A.spec (if i ≥ size then pure () else write (.builtInElement id i) _) _
      split
      · exact safe_return trivial
      · exact safe_write (h i) trivial
  | realArray a | dynIntArray v => exact safe_return trivial

theorem Permitted.evalRealElement (h : array.Permitted A) (i : Nat) :
    OpProg.Safe A.spec (array.evalRealElement i) fun _ => True := by
  cases array with
  | realArray a =>
      show OpProg.Safe A.spec (if i ≥ a.size then pure 0 else read (.realElement a i)) _
      split
      · exact safe_return trivial
      · exact safe_read_any (h.1 i)
  | _ => exact safe_return trivial

theorem Permitted.assignRealElement (h : array.Permitted A) (i : Nat) (value : ℚ) :
    OpProg.Safe A.spec (array.assignRealElement i value) fun _ => True := by
  cases array with
  | realArray a =>
      show OpProg.Safe A.spec (if i ≥ a.size then pure () else write (.realElement a i) value) _
      split
      · exact safe_return trivial
      · exact safe_write (h.1 i) trivial
  | _ => exact safe_return trivial

theorem Permitted.unitFactorOfElement [Platform] (hA : A.Lawful) (h : array.Permitted A) (i : Nat) :
    OpProg.Safe A.spec (array.unitFactorOfElement i) A.factor := by
  cases array with
  | intArray a =>
      show OpProg.Safe A.spec (if i ≥ a.size then pure noFactor else read (.intElementFactor a i)) _
      split
      · exact safe_return hA.one
      · exact safe_read (h.2 i)
  | realArray a =>
      show OpProg.Safe A.spec (if i ≥ a.size then pure noFactor else read (.realElementFactor a i)) _
      split
      · exact safe_return hA.one
      · exact safe_read (h.2 i)
  | builtInIntArray id size | dynIntArray v => exact safe_return hA.one

theorem Permitted.assignElementUnitFactor (h : array.Permitted A) (i : Nat) {factor : ℚ}
    (hf : A.factor factor) :
    OpProg.Safe A.spec (array.assignElementUnitFactor i factor) fun _ => True := by
  cases array with
  | intArray a =>
      show OpProg.Safe A.spec (if i ≥ a.size then pure () else write (.intElementFactor a i) factor) _
      split
      · exact safe_return trivial
      · exact safe_write (h.2 i) hf
  | realArray a =>
      show OpProg.Safe A.spec (if i ≥ a.size then pure () else write (.realElementFactor a i) factor) _
      split
      · exact safe_return trivial
      · exact safe_write (h.2 i) hf
  | builtInIntArray id size | dynIntArray v => exact safe_return trivial

theorem Permitted.elementToStr [Platform] (h : array.Permitted A) (i : Nat) :
    OpProg.Safe A.spec (array.elementToStr i) fun _ => True := by
  unfold ArrayExpr.elementToStr
  split
  · exact safe_map (h.evalRealElement i)
  · exact safe_map (h.evalIntElement i)

theorem Permitted.elementsToStr [Platform] (hA : A.Lawful) (h : array.Permitted A) (n i : Nat) :
    OpProg.Safe A.spec (array.elementsToStr n i) fun _ => True := by
  induction n generalizing i with
  | zero => exact safe_return trivial
  | succ n ih =>
      refine safe_bind (h.elementToStr i) fun _ _ => ?_
      refine safe_bind (h.unitFactorOfElement hA i) fun _ _ => ?_
      exact safe_bind (ih (i + 1)) fun _ _ => safe_return trivial

theorem Permitted.evalCastToStr [Platform] (hA : A.Lawful) (h : array.Permitted A) :
    OpProg.Safe A.spec array.evalCastToStr fun _ => True :=
  safe_bind h.arraySize fun _ _ =>
    safe_bind (h.elementsToStr hA _ _) fun _ _ => safe_return trivial

end ArrayExpr

/-! ## Literals and variables -/

namespace ExprNode

/-- An object that is no variable. -/
theorem Keeps.of_expr {n : ExprNode} (h : n.toVMExpr.Keeps A)
    (hassign : n.assign = fun _ => pure ()) (harray : n.array = none) : n.Keeps A :=
  ⟨h, fun _ _ => by rw [hassign]; exact safe_return trivial, fun _ ha => by
    rw [harray] at ha
    cases ha⟩

end ExprNode

namespace NumberVariable

variable {v : NumberVariable}

theorem safe_unitFactor (h : A.mayAccess false v.unitFactorCell) :
    OpProg.Safe A.spec v.unitFactor A.factor := by
  obtain ⟨memPos, unitFactorMemPos, u, fin, polyphonic⟩ := v
  cases polyphonic <;> exact safe_read h

theorem safe_writeUnitFactor (h : A.mayAccess false v.unitFactorCell) {f : ℚ}
    (hf : A.factor f) : OpProg.Safe A.spec (v.writeUnitFactor f) fun _ => True := by
  obtain ⟨memPos, unitFactorMemPos, u, fin, polyphonic⟩ := v
  cases polyphonic <;> exact safe_write h hf

theorem safe_readInt (h : A.mayAccess false v.intCell) :
    OpProg.Safe A.spec v.readInt fun _ => True := by
  obtain ⟨memPos, unitFactorMemPos, u, fin, polyphonic⟩ := v
  cases polyphonic <;> exact safe_read_any h

theorem safe_writeInt (h : A.mayAccess false v.intCell) (i : Int) :
    OpProg.Safe A.spec (v.writeInt i) fun _ => True := by
  obtain ⟨memPos, unitFactorMemPos, u, fin, polyphonic⟩ := v
  cases polyphonic <;> exact safe_write h trivial

theorem safe_readReal (h : A.mayAccess false v.realCell) :
    OpProg.Safe A.spec v.readReal fun _ => True := by
  obtain ⟨memPos, unitFactorMemPos, u, fin, polyphonic⟩ := v
  cases polyphonic <;> exact safe_read_any h

theorem safe_writeReal (h : A.mayAccess false v.realCell) (r : ℚ) :
    OpProg.Safe A.spec (v.writeReal r) fun _ => True := by
  obtain ⟨memPos, unitFactorMemPos, u, fin, polyphonic⟩ := v
  cases polyphonic <;> exact safe_write h trivial

end NumberVariable

namespace ExprNode

variable [Platform]

theorem Keeps.intLiteral {value : Int} {f : ℚ} {u : StdUnit} {fin : Bool}
    (hf : A.factor f) : (intLiteral value f u fin).Keeps A :=
  .of_expr ⟨safe_return trivial, safe_return trivial, safe_return trivial,
    safe_castIntToStr (safe_return trivial) (safe_return hf), safe_return hf⟩ rfl rfl

theorem Keeps.realLiteral {value f : ℚ} {u : StdUnit} {fin : Bool}
    (hf : A.factor f) : (realLiteral value f u fin).Keeps A :=
  .of_expr ⟨safe_return trivial, safe_return trivial, safe_return trivial,
    safe_castRealToStr (safe_return trivial) (safe_return hf), safe_return hf⟩ rfl rfl

theorem Keeps.stringLiteral (hA : A.Lawful) (value : String) :
    (stringLiteral value).Keeps A :=
  .of_expr ⟨safe_return trivial, safe_return trivial, safe_return trivial,
    safe_return trivial, safe_return hA.one⟩ rfl rfl

theorem Keeps.intVariable {v : NumberVariable} (hval : A.mayAccess false v.intCell)
    (hfac : A.mayAccess false v.unitFactorCell) : (intVariable v).Keeps A where
  expr := ⟨v.safe_readInt hval, safe_return trivial, safe_return trivial,
    safe_castIntToStr (v.safe_readInt hval) (v.safe_unitFactor hfac), v.safe_unitFactor hfac⟩
  array := fun _ ha => by cases ha
  assign e he := by
    show OpProg.Safe A.spec (if e.isIntExpr then _ else _) _
    split
    · refine safe_bind he.evalInt fun i _ => ?_
      refine safe_bind (v.safe_writeInt hval i) fun _ _ => ?_
      exact safe_bind he.unitFactor fun _ hf => v.safe_writeUnitFactor hfac hf
    · exact safe_return trivial

theorem Keeps.realVariable {v : NumberVariable} (hval : A.mayAccess false v.realCell)
    (hfac : A.mayAccess false v.unitFactorCell) : (realVariable v).Keeps A where
  expr := ⟨safe_return trivial, v.safe_readReal hval, safe_return trivial,
    safe_castRealToStr (v.safe_readReal hval) (v.safe_unitFactor hfac), v.safe_unitFactor hfac⟩
  array := fun _ ha => by cases ha
  assign e he := by
    show OpProg.Safe A.spec (if e.isRealExpr then _ else _) _
    split
    · refine safe_bind he.evalReal fun r _ => ?_
      refine safe_bind (v.safe_writeReal hval r) fun _ _ => ?_
      exact safe_bind he.unitFactor fun _ hf => v.safe_writeUnitFactor hfac hf
    · exact safe_return trivial

theorem Keeps.builtInIntVariable (hA : A.Lawful) {ptr : VMIntPtr}
    (h : A.mayAccess false (.builtInInt ptr.id)) : (builtInIntVariable ptr).Keeps A where
  expr := ⟨safe_read_any h, safe_return trivial, safe_return trivial,
    safe_castIntToStr (safe_read_any h) (safe_return hA.one), safe_return hA.one⟩
  array := fun _ ha => by cases ha
  assign e he := by
    show OpProg.Safe A.spec (if e.isIntExpr then _ else _) _
    split
    · exact safe_bind he.evalInt fun i _ => safe_write h trivial
    · exact safe_return trivial

theorem Keeps.stringVariable (hA : A.Lawful) {memPos : Nat}
    (h : A.mayAccess false (.globalStr memPos)) : (stringVariable memPos).Keeps A where
  expr := ⟨safe_return trivial, safe_return trivial, safe_read_any h, safe_read_any h,
    safe_return hA.one⟩
  array := fun _ ha => by cases ha
  assign e he := by
    show OpProg.Safe A.spec (if e.isStringExpr then _ else _) _
    split
    · exact safe_bind he.evalStr fun i _ => safe_write h trivial
    · exact safe_return trivial

theorem Keeps.dynamicVariableCall (hA : A.Lawful) {v : DynVar}
    (hint : A.mayAccess false (.dynInt v.id)) (hstr : A.mayAccess false (.dynStr v.id)) :
    (dynamicVariableCall v).Keeps A := by
  have hevalInt : OpProg.Safe A.spec (ExprNode.dynamicVariableCall v).evalInt fun _ => True := by
    show OpProg.Safe A.spec (if v.exprType = .int then _ else _) _
    split
    · exact safe_read_any hint
    · exact safe_return trivial
  have hevalStr : OpProg.Safe A.spec (ExprNode.dynamicVariableCall v).evalStr fun _ => True := by
    show OpProg.Safe A.spec (if v.exprType = .string then _ else _) _
    split
    · exact safe_read_any hstr
    · exact safe_return trivial
  refine .of_expr ⟨hevalInt, safe_return trivial, hevalStr, ?_, safe_return hA.one⟩ rfl rfl
  show OpProg.Safe A.spec (if v.exprType = .string then _ else _) _
  split
  · exact safe_read_any hstr
  · split
    · exact safe_map (safe_read_any hint)
    · exact safe_return trivial

theorem Keeps.arrayVariable (hA : A.Lawful) {array : ArrayExpr} (h : array.Permitted A) :
    (arrayVariable array).Keeps A where
  expr := ⟨safe_return trivial, safe_return trivial, safe_return trivial,
    h.evalCastToStr hA, safe_return hA.one⟩
  assign _ _ := safe_return trivial
  array a ha := by
    cases ha
    exact h

/-! ## Array elements -/

theorem safe_elementUnitFactor (hA : A.Lawful) {array : ArrayExpr} (h : array.Permitted A)
    (node : Nat) : OpProg.Safe A.spec (elementUnitFactor node array) A.factor := by
  refine safe_bind (safe_read (hA.nodeState _ _ rfl)) fun idx _ => ?_
  refine safe_bind h.arraySize fun size _ => ?_
  split
  · -- the branch that reports 0: either the policy ends here or it allows 0
    refine safe_bind (Q := fun _ => A.factor 0) (safe_note ?_) fun _ h0 => safe_return h0
    exact (hA.outOfRange node).imp id fun h0 => ⟨trivial, h0⟩
  · exact h.unitFactorOfElement hA _

theorem safe_withIndex (hA : A.Lawful) {α : Type} {node : Nat} {array : ArrayExpr}
    {index : VMExpr} {outside : α} {inside : Nat → MemProg α} (harray : array.Permitted A)
    (hindex : index.Keeps A.inIndex) (hinside : ∀ i, OpProg.Safe A.spec (inside i) fun _ => True) :
    OpProg.Safe A.spec (withIndex node array index outside inside) fun _ => True := by
  refine safe_bind (safe_inIndex hindex.evalInt) fun idx _ => ?_
  refine safe_bind (safe_write (hA.nodeState _ _ rfl) trivial) fun _ _ => ?_
  refine safe_bind harray.arraySize fun size _ => ?_
  split
  · exact safe_return trivial
  · exact hinside _

theorem Keeps.intArrayElement (hA : A.Lawful) {node : Nat} {array : ArrayExpr} {index : VMExpr}
    (harray : array.Permitted A) (hindex : index.Keeps A.inIndex) :
    (intArrayElement node array index).Keeps A where
  expr :=
    have heval :
        OpProg.Safe A.spec (ExprNode.intArrayElement node array index).evalInt fun _ => True :=
      safe_withIndex hA harray hindex fun i => harray.evalIntElement i
    have hfactor := safe_elementUnitFactor hA harray node
    ⟨heval, safe_return trivial, safe_return trivial, safe_castIntToStr heval hfactor, hfactor⟩
  array := fun _ ha => by cases ha
  assign e he := by
    show OpProg.Safe A.spec (if e.isIntExpr then _ else _) _
    split
    · refine safe_bind he.evalInt fun value _ => ?_
      refine safe_bind he.unitFactor fun f hf => ?_
      refine safe_withIndex hA harray hindex fun i => ?_
      exact safe_bind (harray.assignIntElement i value) fun _ _ =>
        harray.assignElementUnitFactor i hf
    · exact safe_return trivial

theorem Keeps.realArrayElement (hA : A.Lawful) {node : Nat} {array : ArrayExpr}
    {index : VMExpr} (harray : array.Permitted A) (hindex : index.Keeps A.inIndex) :
    (realArrayElement node array index).Keeps A where
  expr :=
    have heval :
        OpProg.Safe A.spec (ExprNode.realArrayElement node array index).evalReal fun _ => True :=
      safe_withIndex hA harray hindex fun i => harray.evalRealElement i
    have hfactor := safe_elementUnitFactor hA harray node
    ⟨safe_return trivial, heval, safe_return trivial, safe_castRealToStr heval hfactor, hfactor⟩
  array := fun _ ha => by cases ha
  assign e he := by
    show OpProg.Safe A.spec (if e.isRealExpr then _ else _) _
    split
    · refine safe_bind he.evalReal fun value _ => ?_
      refine safe_bind he.unitFactor fun f hf => ?_
      refine safe_withIndex hA harray hindex fun i => ?_
      exact safe_bind (harray.assignRealElement i value) fun _ _ =>
        harray.assignElementUnitFactor i hf
    · exact safe_return trivial

/-! ## Operators -/

theorem Keeps.intBinaryOp (hA : A.Lawful) {lhs rhs : ExprNode} {evalInt : MemProg Int}
    (h : OpProg.Safe A.spec evalInt fun _ => True) : (intBinaryOp lhs rhs evalInt).Keeps A :=
  .of_expr ⟨h, safe_return trivial, safe_return trivial,
    safe_castIntToStr h (safe_return hA.one), safe_return hA.one⟩ rfl rfl

theorem Keeps.varitypeScalarBinaryOp {lhs rhs : ExprNode} {u : StdUnit}
    {evalInt : MemProg Int} {evalReal unitFactor : MemProg ℚ}
    (hint : OpProg.Safe A.spec evalInt fun _ => True)
      (hreal : OpProg.Safe A.spec evalReal fun _ => True)
    (hfactor : OpProg.Safe A.spec unitFactor A.factor) :
    (varitypeScalarBinaryOp lhs rhs u evalInt evalReal unitFactor).Keeps A := by
  refine .of_expr ⟨hint, hreal, safe_return trivial, ?_, hfactor⟩ rfl rfl
  show OpProg.Safe A.spec (if (if lhs.exprType = .real ∨ rhs.exprType = .real then ExprType.real
    else .int) = .real then _ else _) _
  split
  · exact safe_castRealToStr hreal hfactor
  · exact safe_castIntToStr hint hfactor

theorem Keeps.sumOp {opInt : Int → Int → Int} {opReal : ℚ → ℚ → ℚ} {lhs rhs : ExprNode}
    (hl : lhs.Keeps A) (hr : rhs.Keeps A) : (sumOp opInt opReal lhs rhs).Keeps A := by
  have hl := hl.expr
  have hr := hr.expr
  refine .varitypeScalarBinaryOp ?_ ?_ ?_
  · split
    · refine safe_bind hl.evalInt fun _ _ => safe_bind hr.evalInt fun _ _ => ?_
      refine safe_bind hl.unitFactor fun lf hlf => safe_bind hr.unitFactor fun rf hrf => ?_
      split
      · exact safe_return trivial
      · split
        · exact safe_bind (safe_convInt hlf) fun _ _ => safe_return trivial
        · exact safe_bind (safe_convInt hrf) fun _ _ => safe_return trivial
    · exact safe_return trivial
  · split
    · refine safe_bind hl.evalReal fun _ _ => safe_bind hr.evalReal fun _ _ => ?_
      refine safe_bind hl.unitFactor fun lf hlf => safe_bind hr.unitFactor fun rf hrf => ?_
      split
      · exact safe_return trivial
      · split
        · exact safe_bind (safe_convReal hlf) fun _ _ => safe_return trivial
        · exact safe_bind (safe_convReal hrf) fun _ _ => safe_return trivial
    · exact safe_return trivial
  · refine safe_bind hl.unitFactor fun lf hlf => safe_bind hr.unitFactor fun rf hrf => ?_
    apply safe_return
    split
    · exact hlf
    · exact hrf

omit [Platform] in
/-- A factor computed from others is as promised, or the policy ends at its note. -/
theorem safe_unitFactorNote {exact factor : ℚ}
    (h : A.stops (.unitFactor exact) ∨ A.factor factor) :
    OpProg.Safe A.spec (note (.unitFactor exact)) fun _ => A.factor factor :=
  safe_note (h.imp id fun hf => ⟨trivial, hf⟩)

theorem Keeps.mul (hA : A.Lawful) {lhs rhs : ExprNode} (hl : lhs.Keeps A) (hr : rhs.Keeps A) :
    (mul lhs rhs).Keeps A := by
  have hl := hl.expr
  have hr := hr.expr
  refine .varitypeScalarBinaryOp ?_ ?_ ?_
  · split
    · exact safe_bind (safe_evalBoth hl.evalInt hr.evalInt) fun _ _ => safe_return trivial
    · exact safe_return trivial
  · split
    · exact safe_bind (safe_evalBoth hl.evalReal hr.evalReal) fun _ _ => safe_return trivial
    · exact safe_return trivial
  · refine safe_bind hl.unitFactor fun f hf => safe_bind hr.unitFactor fun g hg => ?_
    exact safe_bind (safe_unitFactorNote (hA.mul f g hf hg)) fun _ h => safe_return h

theorem Keeps.div (hA : A.Lawful) {lhs rhs : ExprNode} (hl : lhs.Keeps A) (hr : rhs.Keeps A) :
    (div lhs rhs).Keeps A := by
  have hl := hl.expr
  have hr := hr.expr
  refine .varitypeScalarBinaryOp ?_ ?_ ?_
  · split
    · refine safe_bind hl.evalInt fun _ _ => safe_bind hr.evalInt fun _ _ => ?_
      split
      · exact safe_return trivial
      · exact safe_bind (Q := fun _ => True) (safe_note (.inr ⟨trivial, trivial⟩)) fun _ _ =>
          safe_return trivial
    · exact safe_return trivial
  · split
    · exact safe_bind hl.evalReal fun _ _ => safe_bind hr.evalReal fun _ _ => safe_return trivial
    · exact safe_return trivial
  · refine safe_bind hl.unitFactor fun f hf => safe_bind hr.unitFactor fun g hg => ?_
    exact safe_bind (safe_unitFactorNote (hA.div f g hf hg)) fun _ h => safe_return h

theorem Keeps.mod (hA : A.Lawful) {lhs rhs : ExprNode} (hl : lhs.Keeps A) (hr : rhs.Keeps A) :
    (mod lhs rhs).Keeps A := by
  refine .intBinaryOp hA ?_
  split
  · refine safe_bind (safe_evalBoth hl.expr.evalInt hr.expr.evalInt) fun _ _ => ?_
    exact safe_bind (Q := fun _ => True) (safe_note (.inr ⟨trivial, trivial⟩)) fun _ _ =>
      safe_return trivial
  · exact safe_return trivial

omit [Platform] in
theorem Keeps.neg {expr : ExprNode} (h : expr.Keeps A) : (neg expr).Keeps A :=
  .of_expr ⟨safe_bind h.expr.evalInt fun _ _ => safe_return trivial,
    safe_bind h.expr.evalReal fun _ _ => safe_return trivial, safe_return trivial,
    h.expr.evalCastToStr, h.expr.unitFactor⟩ rfl rfl

theorem Keeps.final {expr : ExprNode} (h : expr.Keeps A) : (final expr).Keeps A := by
  refine .of_expr ⟨h.expr.evalInt, h.expr.evalReal, safe_return trivial, ?_,
    h.expr.unitFactor⟩ rfl rfl
  show OpProg.Safe A.spec (if expr.exprType = .real then _ else _) _
  split
  · exact safe_map h.expr.evalReal
  · exact safe_map h.expr.evalInt

theorem Keeps.concatString (hA : A.Lawful) {lhs rhs : ExprNode} (hl : lhs.Keeps A)
    (hr : rhs.Keeps A) : (concatString lhs rhs).Keeps A :=
  have heval : OpProg.Safe A.spec (ExprNode.concatString lhs rhs).evalStr fun _ => True :=
    safe_bind (safe_evalBoth hl.expr.evalCastToStr hr.expr.evalCastToStr) fun _ _ =>
      safe_return trivial
  .of_expr ⟨safe_return trivial, safe_return trivial, heval, heval, safe_return hA.one⟩ rfl rfl

theorem Keeps.or (hA : A.Lawful) {lhs rhs : ExprNode} (hl : lhs.Keeps A) (hr : rhs.Keeps A) :
    (or lhs rhs).Keeps A := by
  refine .intBinaryOp hA (safe_bind hl.expr.evalInt fun _ _ => ?_)
  split
  · exact safe_return trivial
  · exact safe_bind hr.expr.evalInt fun _ _ => safe_return trivial

theorem Keeps.and (hA : A.Lawful) {lhs rhs : ExprNode} (hl : lhs.Keeps A) (hr : rhs.Keeps A) :
    (and lhs rhs).Keeps A := by
  refine .intBinaryOp hA (safe_bind hl.expr.evalInt fun _ _ => ?_)
  split
  · exact safe_return trivial
  · exact safe_bind hr.expr.evalInt fun _ _ => safe_return trivial

theorem Keeps.bitwiseOr (hA : A.Lawful) {lhs rhs : ExprNode} (hl : lhs.Keeps A)
    (hr : rhs.Keeps A) : (bitwiseOr lhs rhs).Keeps A :=
  .intBinaryOp hA (safe_bind (safe_evalBoth hl.expr.evalInt hr.expr.evalInt) fun _ _ =>
    safe_return trivial)

theorem Keeps.bitwiseAnd (hA : A.Lawful) {lhs rhs : ExprNode} (hl : lhs.Keeps A)
    (hr : rhs.Keeps A) : (bitwiseAnd lhs rhs).Keeps A :=
  .intBinaryOp hA (safe_bind (safe_evalBoth hl.expr.evalInt hr.expr.evalInt) fun _ _ =>
    safe_return trivial)

theorem Keeps.intUnaryOp (hA : A.Lawful) {expr : ExprNode} {op : Int → Int}
    (h : expr.Keeps A) : (intUnaryOp expr op).Keeps A :=
  have heval : OpProg.Safe A.spec (ExprNode.intUnaryOp expr op).evalInt fun _ => True :=
    safe_bind h.expr.evalInt fun _ _ => safe_return trivial
  .of_expr ⟨heval, safe_return trivial, safe_return trivial,
    safe_castIntToStr heval (safe_return hA.one), safe_return hA.one⟩ rfl rfl

/-! ## Relations -/

theorem safe_evalRealRelation {type : RelationType} {l r : Number} {lf rf : ℚ}
    (hl : A.factor lf) (hr : A.factor rf) :
    OpProg.Safe A.spec (evalRealRelation type l r lf rf) fun _ => True := by
  unfold evalRealRelation
  split
  · exact safe_return trivial
  · split
    · exact safe_bind (safe_convReal hl) fun _ _ => safe_return trivial
    · exact safe_bind (safe_convReal hr) fun _ _ => safe_return trivial

theorem safe_evalIntRelation {type : RelationType} {l r : Int} {lf rf : ℚ}
    (hl : A.factor lf) (hr : A.factor rf) :
    OpProg.Safe A.spec (evalIntRelation type l r lf rf) fun _ => True := by
  unfold evalIntRelation
  split
  · exact safe_return trivial
  · split
    · exact safe_bind (safe_convInt hl) fun _ _ => safe_return trivial
    · exact safe_bind (safe_convInt hr) fun _ _ => safe_return trivial

omit [Platform] in
theorem safe_evalNumber {e : VMExpr} (h : e.Keeps A) :
    OpProg.Safe A.spec (evalNumber e) fun _ => True := by
  unfold evalNumber
  split
  · exact safe_map h.evalReal
  · exact safe_map h.evalInt

theorem safe_relationHolds {type : RelationType} {lhs rhs : ExprNode} (hl : lhs.Keeps A)
    (hr : rhs.Keeps A) : OpProg.Safe A.spec (relationHolds lhs type rhs) fun _ => True := by
  have hl := hl.expr
  have hr := hr.expr
  unfold relationHolds
  split
  · split
    · exact safe_bind (safe_evalBoth hl.evalCastToStr hr.evalCastToStr) fun _ _ =>
        safe_return trivial
    · exact safe_bind (safe_evalBoth hl.evalCastToStr hr.evalCastToStr) fun _ _ =>
        safe_return trivial
    · exact safe_return trivial
  · split
    · refine safe_bind (safe_evalNumber hl) fun _ _ => safe_bind (safe_evalNumber hr) fun _ _ => ?_
      exact safe_bind hl.unitFactor fun _ hlf => safe_bind hr.unitFactor fun _ hrf =>
        safe_evalRealRelation hlf hrf
    · refine safe_bind hl.evalInt fun _ _ => safe_bind hr.evalInt fun _ _ => ?_
      exact safe_bind hl.unitFactor fun _ hlf => safe_bind hr.unitFactor fun _ hrf =>
        safe_evalIntRelation hlf hrf

theorem Keeps.relation (hA : A.Lawful) {type : RelationType} {lhs rhs : ExprNode}
    (hl : lhs.Keeps A) (hr : rhs.Keeps A) : (relation lhs type rhs).Keeps A :=
  have heval : OpProg.Safe A.spec (ExprNode.relation lhs type rhs).evalInt fun _ => True :=
    safe_bind (safe_relationHolds hl hr) fun _ _ => safe_return trivial
  .of_expr ⟨heval, safe_return trivial, safe_return trivial,
    safe_castIntToStr heval (safe_return hA.one), safe_return hA.one⟩ rfl rfl

/-! ## Function calls -/

section

variable {args : List ExprNode} {α : Type} {Q : α → Prop} {i : Nat} {default : α}

omit [Platform] in
theorem safe_onArg {f : ExprNode → MemProg α} (hargs : ∀ arg ∈ args, arg.Keeps A)
    (hdefault : Q default) (hf : ∀ arg, arg.Keeps A → OpProg.Safe A.spec (f arg) Q) :
    OpProg.Safe A.spec (match args[i]? with | some arg => f arg | none => pure default) Q := by
  split
  · rename_i arg harg
    exact hf arg (hargs arg (List.mem_of_getElem? harg))
  · exact safe_return hdefault

omit [Platform] in
theorem safe_onArray {f : ArrayExpr → MemProg α} (hargs : ∀ arg ∈ args, arg.Keeps A)
    (hdefault : Q default) (hf : ∀ array, array.Permitted A → OpProg.Safe A.spec (f array) Q) :
    OpProg.Safe A.spec (match args[i]? with
      | some arg => match arg.array with
        | some array => f array
        | none => pure default
      | none => pure default) Q := by
  refine safe_onArg hargs hdefault fun arg harg => ?_
  split
  · rename_i array harray
    exact hf array (harg.array array harray)
  · exact safe_return hdefault

end

theorem safe_performFnOp (hA : A.Lawful) {args : List ExprNode}
    (hargs : ∀ arg ∈ args, arg.Keeps A) (o : FnOp) (hpre : (fnSpec A.factor).pre o) :
    OpProg.Safe A.spec (performFnOp args o) ((fnSpec A.factor).post o) := by
  cases o with
  | evalInt i => exact safe_onArg hargs trivial fun arg h => h.expr.evalInt
  | evalReal i => exact safe_onArg hargs trivial fun arg h => h.expr.evalReal
  | evalStr i => exact safe_onArg hargs trivial fun arg h => h.expr.evalStr
  | unitFactor i => exact safe_onArg hargs hA.one fun arg h => h.expr.unitFactor
  | arraySize i => exact safe_onArray hargs trivial fun array h => h.arraySize
  | evalIntElement i e => exact safe_onArray hargs trivial fun array h => h.evalIntElement e
  | evalRealElement i e => exact safe_onArray hargs trivial fun array h => h.evalRealElement e
  | unitFactorOfElement i e =>
      exact safe_onArray hargs hA.one fun array h => h.unitFactorOfElement hA e
  | assignIntElement i e v => exact safe_onArray hargs trivial fun array h => h.assignIntElement e v
  | assignRealElement i e v => exact safe_onArray hargs trivial fun array h => h.assignRealElement e v
  | assignElementUnitFactor i e f =>
      exact safe_onArray hargs trivial fun array h => h.assignElementUnitFactor e hpre
  | assignInt i v f =>
      exact safe_onArg hargs trivial fun arg h => h.assign _ (Keeps.intLiteral hpre).expr
  | convert f => exact safe_note (.inr ⟨hpre, trivial⟩)
  | setSuspendMicroseconds us => exact safe_write (hA.nodeState _ _ rfl) trivial
  | engineRead a => exact safe_read_any (hA.nodeState _ _ rfl)
  | engineWrite a v => exact safe_write (hA.nodeState _ _ rfl) trivial

theorem safe_storeResult (hA : A.Lawful) {bound : Option Nat} {res : FnResult}
    (hres : res.value.FactorOk A.factor) :
    OpProg.Safe A.spec (storeResult bound res) fun _ => True := by
  cases bound with
  | none => exact safe_return trivial
  | some node =>
      refine safe_bind (safe_write (hA.nodeState _ _ rfl) trivial) fun _ _ => ?_
      obtain ⟨flags, value⟩ := res
      cases value with
      | empty => exact safe_return trivial
      | int v f | real v f =>
          exact safe_bind (safe_write (hA.nodeState _ _ rfl) trivial) fun _ _ =>
            safe_write (hA.nodeState _ _ rfl) hres
      | str v => exact safe_write (hA.nodeState _ _ rfl) trivial

theorem safe_execVMFn (hA : A.Lawful) {node : Nat} {fn : VMFunction} {args : List ExprNode}
    (hfn : fn.FactorSafe A.factor) (hargs : ∀ arg ∈ args, arg.Keeps A) :
    OpProg.Safe A.spec (execVMFn node fn args) fun _ => True := by
  refine safe_bind (safe_read_any (hA.nodeState _ _ rfl)) fun _ _ => ?_
  refine safe_bind (safe_write (hA.nodeState _ _ rfl) trivial) fun _ _ => ?_
  refine safe_bind ((hfn _).interp (fun _ => id) fun o ho => safe_performFnOp hA hargs o ho)
    fun res hres => ?_
  refine safe_bind (safe_read_any (hA.nodeState _ _ rfl)) fun _ _ => ?_
  refine safe_bind (safe_storeResult hA hres) fun _ _ => ?_
  refine safe_bind (safe_write (hA.nodeState _ _ rfl) trivial) fun _ _ => ?_
  exact safe_return trivial

theorem safe_evalCall (hA : A.Lawful) {α : Type} {node : Nat} {fn : VMFunction}
    {args : List ExprNode} {type : ExprType} {default : α} {value : Nat → MemProg α}
    (hfn : fn.FactorSafe A.factor) (hargs : ∀ arg ∈ args, arg.Keeps A)
    (hvalue : ∀ res, OpProg.Safe A.spec (value res) fun _ => True) :
    OpProg.Safe A.spec (evalCall node fn args type default value) fun _ => True := by
  refine safe_bind (safe_execVMFn hA hfn hargs) fun res _ => ?_
  cases res with
  | none => exact safe_return trivial
  | some res =>
      dsimp only
      split
      · exact hvalue res
      · exact safe_return trivial

theorem safe_callToStr (hA : A.Lawful) {node : Nat} {fn : VMFunction} {args : List ExprNode}
    (hfn : fn.FactorSafe A.factor) (hargs : ∀ arg ∈ args, arg.Keeps A) :
    OpProg.Safe A.spec (callToStr node fn args) fun _ => True := by
  refine safe_bind (safe_execVMFn hA hfn hargs) fun res _ => ?_
  cases res with
  | none => exact safe_return trivial
  | some res =>
      have hfactor : OpProg.Safe A.spec (read (.resultUnitFactor res)) A.factor :=
        safe_read (hA.nodeState _ _ rfl)
      dsimp only
      split
      · exact safe_read_any (hA.nodeState _ _ rfl)
      · exact safe_castRealToStr (safe_read_any (hA.nodeState _ _ rfl)) hfactor
      · exact safe_castIntToStr (safe_read_any (hA.nodeState _ _ rfl)) hfactor
      · exact safe_return trivial

theorem safe_callUnitFactor (hA : A.Lawful) (node : Nat) (type : ExprType) :
    OpProg.Safe A.spec (callUnitFactor node type) A.factor := by
  unfold callUnitFactor
  split
  · exact safe_read (hA.nodeState _ _ rfl)
  · exact safe_return hA.one

theorem Keeps.functionCall (hA : A.Lawful) {node : Nat} {fn : Option VMFunction}
    {args : List ExprNode} (hfn : ∀ f ∈ fn, f.FactorSafe A.factor)
    (hargs : ∀ arg ∈ args, arg.Keeps A) : (functionCall node fn args).Keeps A := by
  cases fn with
  | none =>
      exact .of_expr ⟨safe_return trivial, safe_return trivial, safe_return trivial,
        safe_return trivial, safe_return hA.one⟩ rfl rfl
  | some fn =>
      have hfn := hfn fn rfl
      exact .of_expr
        ⟨safe_evalCall hA hfn hargs fun _ => safe_read_any (hA.nodeState _ _ rfl),
          safe_evalCall hA hfn hargs fun _ => safe_read_any (hA.nodeState _ _ rfl),
          safe_evalCall hA hfn hargs fun _ => safe_read_any (hA.nodeState _ _ rfl),
          safe_callToStr hA hfn hargs, safe_callUnitFactor hA node _⟩ rfl rfl

/-- A call as a statement. -/
theorem safe_execCall (hA : A.Lawful) {node : Nat} {fn : Option VMFunction}
    {args : List ExprNode} (hfn : ∀ f ∈ fn, f.FactorSafe A.factor)
    (hargs : ∀ arg ∈ args, arg.Keeps A) :
    OpProg.Safe A.spec (execCall node fn args) fun _ => True := by
  cases fn with
  | none => exact safe_return trivial
  | some fn =>
      refine safe_bind (safe_execVMFn hA (hfn fn rfl) hargs) fun res _ => ?_
      cases res with
      | none => exact safe_return trivial
      | some res => exact safe_read_any (hA.nodeState _ _ rfl)

end ExprNode

end

/-! ## Syntax trees -/

namespace Expression

mutual

/-- The policy allows the accesses of all variables in the expression, and
all literals and built-in functions keep its promise about unit factors. -/
def Permitted : Expression → Policy → Prop
  | intLiteral _ f _ _, A | realLiteral _ f _ _, A | constIntVariable _ f _ _, A
  | constRealVariable _ f _ _, A => A.factor f
  | stringLiteral _, _ | constStringVariable _, _ => True
  | intVariable v, A => A.mayAccess false v.intCell ∧ A.mayAccess false v.unitFactorCell
  | realVariable v, A => A.mayAccess false v.realCell ∧ A.mayAccess false v.unitFactorCell
  | builtInIntVariable ptr, A => A.mayAccess false (.builtInInt ptr.id)
  | stringVariable memPos, A => A.mayAccess false (.globalStr memPos)
  | dynamicVariableCall v, A =>
      A.mayAccess false (.dynInt v.id) ∧ A.mayAccess false (.dynStr v.id)
  | arrayVariable array, A => array.Permitted A
  | intArrayElement _ array index, A | realArrayElement _ array index, A =>
      array.Permitted A ∧ index.Permitted A.inIndex
  | add lhs rhs, A | sub lhs rhs, A | mul lhs rhs, A | div lhs rhs, A | mod lhs rhs, A
  | concatString lhs rhs, A | or lhs rhs, A | and lhs rhs, A | bitwiseOr lhs rhs, A
  | bitwiseAnd lhs rhs, A | relation lhs _ rhs, A => lhs.Permitted A ∧ rhs.Permitted A
  | neg expr, A | final expr, A | not expr, A | bitwiseNot expr, A => expr.Permitted A
  | functionCall _ fn args, A => (∀ f ∈ fn, f.FactorSafe A.factor) ∧ allPermitted args A

def allPermitted : List Expression → Policy → Prop
  | [], _ => True
  | e :: es, A => e.Permitted A ∧ allPermitted es A

end

mutual

/-- An expression keeps to every policy that allows the accesses of its
variables. -/
theorem keeps [Platform] : ∀ (e : Expression) {A : Policy}, A.Lawful → e.Permitted A → e.node.Keeps A
  | intLiteral _ _ _ _, _, _, h | constIntVariable _ _ _ _, _, _, h => .intLiteral h
  | realLiteral _ _ _ _, _, _, h | constRealVariable _ _ _ _, _, _, h => .realLiteral h
  | stringLiteral v, _, hA, _ | constStringVariable v, _, hA, _ => .stringLiteral hA v
  | intVariable _, _, _, h => .intVariable h.1 h.2
  | realVariable _, _, _, h => .realVariable h.1 h.2
  | builtInIntVariable _, _, hA, h => .builtInIntVariable hA h
  | stringVariable _, _, hA, h => .stringVariable hA h
  | dynamicVariableCall _, _, hA, h => .dynamicVariableCall hA h.1 h.2
  | arrayVariable _, _, hA, h => .arrayVariable hA h
  | intArrayElement _ _ index, _, hA, h =>
      .intArrayElement hA h.1 (index.keeps hA.inIndex h.2).expr
  | realArrayElement _ _ index, _, hA, h =>
      .realArrayElement hA h.1 (index.keeps hA.inIndex h.2).expr
  | add lhs rhs, _, hA, h | sub lhs rhs, _, hA, h => .sumOp (lhs.keeps hA h.1) (rhs.keeps hA h.2)
  | mul lhs rhs, _, hA, h => .mul hA (lhs.keeps hA h.1) (rhs.keeps hA h.2)
  | div lhs rhs, _, hA, h => .div hA (lhs.keeps hA h.1) (rhs.keeps hA h.2)
  | mod lhs rhs, _, hA, h => .mod hA (lhs.keeps hA h.1) (rhs.keeps hA h.2)
  | neg expr, _, hA, h => .neg (expr.keeps hA h)
  | final expr, _, hA, h => .final (expr.keeps hA h)
  | concatString lhs rhs, _, hA, h => .concatString hA (lhs.keeps hA h.1) (rhs.keeps hA h.2)
  | or lhs rhs, _, hA, h => .or hA (lhs.keeps hA h.1) (rhs.keeps hA h.2)
  | and lhs rhs, _, hA, h => .and hA (lhs.keeps hA h.1) (rhs.keeps hA h.2)
  | bitwiseOr lhs rhs, _, hA, h => .bitwiseOr hA (lhs.keeps hA h.1) (rhs.keeps hA h.2)
  | bitwiseAnd lhs rhs, _, hA, h => .bitwiseAnd hA (lhs.keeps hA h.1) (rhs.keeps hA h.2)
  | not expr, _, hA, h | bitwiseNot expr, _, hA, h => .intUnaryOp hA (expr.keeps hA h)
  | relation lhs _ rhs, _, hA, h => .relation hA (lhs.keeps hA h.1) (rhs.keeps hA h.2)
  | functionCall _ _ args, _, hA, h => .functionCall hA h.1 (allKeep args hA h.2)

theorem allKeep [Platform] : ∀ (es : List Expression) {A : Policy}, A.Lawful → allPermitted es A →
    ∀ n ∈ nodes es, n.Keeps A
  | [], _, _, _ => fun _ hn => by cases hn
  | e :: es, _, hA, h => fun n hn => by
      rcases List.mem_cons.mp hn with rfl | hn
      · exact e.keeps hA h.1
      · exact allKeep es hA h.2 n hn

end

variable [Platform] {A : Policy}

theorem safe_evalValue (hA : A.Lawful) {e : Expression} (he : e.Permitted A) :
    OpProg.Safe A.spec e.evalValue fun _ => True := by
  have h := (e.keeps hA he).expr
  unfold evalValue
  split
  · exact safe_map h.evalInt
  · exact safe_map h.evalReal
  · exact safe_map h.evalStr
  · exact safe_return trivial

theorem safe_evaluate (hA : A.Lawful) {e : Expression} (he : e.Permitted A) :
    OpProg.Safe A.spec e.evaluate fun r => A.factor r.2 :=
  safe_bind (safe_evalValue hA he) fun _ _ =>
    safe_bind (e.keeps hA he).expr.unitFactor fun _ hf => safe_return hf

end Expression

end LinuxSampler
