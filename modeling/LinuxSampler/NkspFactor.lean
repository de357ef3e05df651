import LinuxSampler.NkspParser
import LinuxSampler.NkspSystem

/-!
# Positive unit factors

A conversion between unit factors divides by the factor it converts to.
All factors come from metric prefixes, by multiplication and division,
and are positive therefore, with three exceptions: `unitFactor()` of an
array element whose index is out of range answers 0, a product or
quotient of factors may leave the range of `float`, and the elements that
the initialiser of an array leaves out have whatever was in the memory.
In a run without these all unit factors are positive, and more generally
satisfy whatever metric prefixes do (`FactorClosed`).
-/

namespace LinuxSampler

open OpProg

/-- A step that answers the unit factor of an element in range, or a product or quotient of
unit factors in the range of `float`. -/
def MemOp.FactorInRange : MemOp → Prop
  | .note (.outOfRange _) => False
  | .note (.unitFactor exact) => InFloatRange exact
  | _ => True

instance : DecidablePred MemOp.FactorInRange
  | .note (.outOfRange _) => isFalse id
  | .note (.unitFactor exact) => inferInstanceAs (Decidable (InFloatRange exact))
  | .note (.convert _) | .note (.divide _ _) | .read _ _ | .write _ _ _ => isTrue trivial

/-- `unitFactor()` was never called for an array index out of range, and no product or
quotient of unit factors was out of the range of `float`. -/
def FactorsInRange (trace : List MemOp) : Prop := ∀ o ∈ trace, o.FactorInRange

instance (trace : List MemOp) : Decidable (FactorsInRange trace) :=
  inferInstanceAs (Decidable (∀ o ∈ trace, o.FactorInRange))

/-- Every access to a known cell is allowed. Nothing is promised once a factor has left
its range. -/
def factorPolicy (F : ℚ → Prop) (known : Cell → Prop) : Policy where
  mayAccess _ c := known c
  factor := F
  stops n := ¬ (MemOp.note n).FactorInRange

variable {F : ℚ → Prop} {known : Cell → Prop}

theorem open_iff_factorsInRange {trace : List MemOp} :
    (factorPolicy F known).Open trace ↔ FactorsInRange trace := by
  have hstop : ∀ o, ¬ (factorPolicy F known).spec.stop o ↔ o.FactorInRange := by
    intro o
    cases o with
    | read t c | write t c v => exact iff_of_true id trivial
    | note n => exact not_not
  exact forall₂_congr fun o _ => hstop o

theorem FactorsInRange.append_left {xs ys : List MemOp} (h : FactorsInRange (xs ++ ys)) :
    FactorsInRange xs := fun o ho => h o (List.mem_append_left _ ho)

theorem FactorsInRange.append_right {xs ys : List MemOp} (h : FactorsInRange (xs ++ ys)) :
    FactorsInRange ys := fun o ho => h o (List.mem_append_right _ ho)

section

variable [Platform]

theorem factorPolicy_lawful (hF : FactorClosed F) (hknown : ∀ c, c.isNodeState → known c) :
    (factorPolicy F known).Lawful where
  one := hF.one
  mul f g hf hg := or_iff_not_imp_left.mpr fun h => hF.mul f g hf hg (not_not.mp h)
  div f g hf hg := or_iff_not_imp_left.mpr fun h => hF.div f g hf hg (not_not.mp h)
  outOfRange _ := .inl id
  nodeState _ := hknown

/-! ## Built-in functions -/

variable {m : MathLib}

end

/-- The policy that allows everything. -/
abbrev openPolicy (F : ℚ → Prop) : Policy := factorPolicy F fun _ => True

theorem pre_openPolicy {o : MemOp} (h : (factorPolicy F known).spec.pre o) :
    (openPolicy F).spec.pre o := by
  cases o with
  | read t c => trivial
  | write t c v => exact ⟨trivial, h.2⟩
  | note n => exact h

/-- Unless a factor has left its range, the program ends as `Q` says and does
only what the policy allows. -/
def Ensures {α : Type} (F : ℚ → Prop) (p : MemProg α) (s : Store Mem)
    (Q : α → Store Mem → Prop) : Prop :=
  FactorsInRange (run memMachine p s).trace →
    Q (run memMachine p s).val (run memMachine p s).state ∧
      ∀ o ∈ (run memMachine p s).trace, (openPolicy F).spec.pre o

namespace Ensures

variable {α β : Type} {p : MemProg α} {s : Store Mem} {Q : α → Store Mem → Prop}

theorem pure {a : α} (h : Q a s) : Ensures F (Pure.pure a : MemProg α) s Q :=
  fun _ => ⟨h, fun _ ho => (List.not_mem_nil ho).elim⟩

theorem bind {f : α → MemProg β} {R : β → Store Mem → Prop} (hp : Ensures F p s Q)
    (hf : ∀ a s', Q a s' → Ensures F (f a) s' R) : Ensures F (p >>= f) s R := by
  unfold Ensures
  rw [Prog.bind_eq, run_bind]
  intro hrange
  obtain ⟨hQ, hpre⟩ := hp hrange.append_left
  obtain ⟨hR, hpre'⟩ := hf _ _ hQ hrange.append_right
  refine ⟨hR, fun o ho => ?_⟩
  rcases List.mem_append.mp ho with ho | ho
  · exact hpre o ho
  · exact hpre' o ho

theorem of_safe {P : α → Prop} (hp : OpProg.Safe (factorPolicy F known).spec p P)
    (hs : (factorPolicy F known).Good s) :
    Ensures F p s fun a s' => P a ∧ (factorPolicy F known).Good s' := by
  intro hrange
  obtain ⟨hval, hgood, hpre⟩ := Policy.safe_run hp hs (open_iff_factorsInRange.mpr hrange)
  exact ⟨⟨hval, hgood⟩, fun o ho => pre_openPolicy (hpre o ho)⟩

theorem write (c : Cell) (v : c.Val) (h : (openPolicy F).inv c v) {R : Store Mem → Prop}
    (hR : R (setCell s c v)) : Ensures F (LinuxSampler.write c v) s fun _ => R := by
  refine fun _ => ⟨hR, fun o ho => ?_⟩
  obtain rfl := List.mem_singleton.mp ho
  exact ⟨trivial, h⟩

end Ensures

/-! ### Arrays with an initialiser -/

/-- All cells but the elements of the array that are not initialised yet. -/
def Initialised (array : ArrayExpr) (size i : Nat) (c : Cell) : Prop :=
  ∀ j, i ≤ j → j < size → ¬ array.HasElement j c

theorem ArrayExpr.not_hasElement_of_nodeState {c : Cell} (hc : c.isNodeState) (array : ArrayExpr)
    (j : Nat) : ¬ array.HasElement j c := by
  intro h
  cases c <;> first | (cases array <;> exact h) | cases hc

/-- The value of an element carries no unit factor. -/
theorem Ensures.assignIntElement {array : ArrayExpr} {i : Nat} {v : Int} {s : Store Mem}
    (hs : (factorPolicy F known).Good s) :
    Ensures F (array.assignIntElement i v) s fun _ => (factorPolicy F known).Good := by
  cases array with
  | intArray a =>
      simp only [ArrayExpr.assignIntElement]
      split
      · exact .pure hs
      · exact .write (.intElement a i) v trivial (hs.setCell trivial)
  | builtInIntArray id size =>
      simp only [ArrayExpr.assignIntElement]
      split
      · exact .pure hs
      · exact .write (.builtInElement id i) (v.bmod 256) trivial (hs.setCell trivial)
  | realArray a | dynIntArray d => exact .pure hs

theorem Ensures.assignRealElement {array : ArrayExpr} {i : Nat} {v : ℚ} {s : Store Mem}
    (hs : (factorPolicy F known).Good s) :
    Ensures F (array.assignRealElement i v) s fun _ => (factorPolicy F known).Good := by
  cases array with
  | realArray a =>
      simp only [ArrayExpr.assignRealElement]
      split
      · exact .pure hs
      · exact .write (.realElement a i) v trivial (hs.setCell trivial)
  | intArray a | builtInIntArray id size | dynIntArray d => exact .pure hs

/-- Assigning the factor of element `i` makes its cells known. -/
theorem Ensures.assignElementUnitFactor {array : ArrayExpr} {size i : Nat} {f : ℚ}
    {s : Store Mem} (hdecl : array.IsDeclared size) (hi : i < size) (hf : F f)
    (hs : (factorPolicy F (Initialised array size i)).Good s) :
    Ensures F (array.assignElementUnitFactor i f) s fun _ =>
      (factorPolicy F (Initialised array size (i + 1))).Good := by
  -- a cell that becomes known is one of element `i`
  have hnew {c : Cell} (hc : Initialised array size (i + 1) c)
      (hold : ¬ Initialised array size i c) : array.HasElement i c := by
    simp only [Initialised, not_forall, not_not] at hold
    obtain ⟨j, hij, hj, hmem⟩ := hold
    rcases Nat.eq_or_lt_of_le hij with rfl | hlt
    · exact hmem
    · exact absurd hmem (hc j hlt hj)
  cases array with
  | intArray a =>
      obtain rfl : a.size = size := hdecl
      simp only [ArrayExpr.assignElementUnitFactor, ge_iff_le, if_neg (not_le.mpr hi)]
      refine .write (.intElementFactor a i) f hf fun t c hc => ?_
      by_cases hold : Initialised (.intArray a) a.size i c
      · exact hs.setCell (c := .intElementFactor a i) (v := f) hf t c hold
      · have hmem := hnew hc hold
        cases c with
        | intElement b j => trivial
        | intElementFactor b j =>
            obtain ⟨rfl, rfl⟩ := hmem
            show F (getCell (setCell s (.intElementFactor b j) f) (.intElementFactor b j))
            rw [Policy.getCell_setCell_self s rfl]
            exact hf
        | _ => cases hmem
  | realArray a =>
      obtain rfl : a.size = size := hdecl
      simp only [ArrayExpr.assignElementUnitFactor, ge_iff_le, if_neg (not_le.mpr hi)]
      refine .write (.realElementFactor a i) f hf fun t c hc => ?_
      by_cases hold : Initialised (.realArray a) a.size i c
      · exact hs.setCell (c := .realElementFactor a i) (v := f) hf t c hold
      · have hmem := hnew hc hold
        cases c with
        | realElement b j => trivial
        | realElementFactor b j =>
            obtain ⟨rfl, rfl⟩ := hmem
            show F (getCell (setCell s (.realElementFactor b j) f) (.realElementFactor b j))
            rw [Policy.getCell_setCell_self s rfl]
            exact hf
        | _ => cases hmem
  | builtInIntArray id size | dynIntArray d => cases hdecl

theorem Ensures.initElement {array : ArrayExpr} {size i : Nat}
    {e : VMExpr} {s : Store Mem} (hdecl : array.IsDeclared size) (hi : i < size)
    (haccepts : array.Accepts e) (he : e.Keeps (factorPolicy F (Initialised array size i)))
    (hs : (factorPolicy F (Initialised array size i)).Good s) :
    Ensures F (array.initElement i e) s fun _ =>
      (factorPolicy F (Initialised array size (i + 1))).Good := by
  cases array with
  | intArray a =>
      simp only [ArrayExpr.initElement, haccepts.2, if_true]
      refine (Ensures.of_safe he.evalInt hs).bind fun v s₁ h₁ => ?_
      refine (Ensures.assignIntElement h₁.2).bind fun _ s₂ h₂ => ?_
      refine (Ensures.of_safe he.unitFactor h₂).bind fun f s₃ h₃ => ?_
      exact .assignElementUnitFactor hdecl hi h₃.1 h₃.2
  | realArray a =>
      simp only [ArrayExpr.initElement, haccepts.2, if_true]
      refine (Ensures.of_safe he.evalReal hs).bind fun v s₁ h₁ => ?_
      refine (Ensures.assignRealElement h₁.2).bind fun _ s₂ h₂ => ?_
      refine (Ensures.of_safe he.unitFactor h₂).bind fun f s₃ h₃ => ?_
      exact .assignElementUnitFactor hdecl hi h₃.1 h₃.2
  | builtInIntArray id size | dynIntArray d => cases hdecl

section

variable [Platform]

theorem initialised_lawful (hF : FactorClosed F) (array : ArrayExpr) (size i : Nat) :
    (factorPolicy F (Initialised array size i)).Lawful :=
  factorPolicy_lawful hF fun _ hc j _ _ => array.not_hasElement_of_nodeState hc j

/-- The loop over the values, by induction on what is left of them. -/
theorem Ensures.initElements (hF : FactorClosed F) {array : ArrayExpr} {size : Nat}
    (hdecl : array.IsDeclared size) {values : List Expression} {i : Nat} {s : Store Mem}
    (hsize : i + values.length ≤ size)
    (haccepts : ∀ e ∈ values, array.Accepts e.node.toVMExpr)
    (hpermitted : ∀ e ∈ values, ∀ j, e.Permitted (factorPolicy F (Initialised array size j)))
    (hs : (factorPolicy F (Initialised array size i)).Good s) :
    Ensures F (array.initElements values i) s fun _ =>
      (factorPolicy F (Initialised array size (i + values.length))).Good := by
  induction values generalizing i s with
  | nil => exact .pure hs
  | cons e es ih =>
      rw [List.length_cons] at hsize ⊢
      have hkeeps := e.keeps (initialised_lawful hF array size i)
        (hpermitted e List.mem_cons_self i)
      refine (Ensures.initElement hdecl (by omega) (haccepts e List.mem_cons_self) hkeeps.expr
        hs).bind fun _ s' hs' => ?_
      have hrest := ih (i := i + 1) (s := s') (by omega)
        (fun e he => haccepts e (List.mem_cons_of_mem _ he))
        (fun e he => hpermitted e (List.mem_cons_of_mem _ he)) hs'
      rwa [show i + 1 + es.length = i + (es.length + 1) by omega] at hrest

/-! ### All states of the parser -/

/-- The memory while parsing, as a whole. -/
abbrev NkspGlobal.store (g : NkspGlobal) : Store Mem := ⟨g.mem, noPolyphonicMemory⟩

/-- All unit factors in the parser's memory, all that it has folded and all
that it has converted to satisfy `F`. -/
structure ParserState.FactorsOk (F : ℚ → Prop) (ps : ParserState) : Prop where
  good : (openPolicy F).Good ps.global.store
  folded : ∀ f ∈ ps.folded, F f
  pre : ∀ o ∈ ps.global.trace, (openPolicy F).spec.pre o

/-- There is no polyphonic memory to be promised anything about. -/
theorem good_noPolyphonicMemory (hF : FactorClosed F) {s : Store Mem}
    (h : (factorPolicy F known).Good s) :
    (factorPolicy F known).Good ⟨s.global, noPolyphonicMemory⟩ := by
  have hpoly : (factorPolicy F known).PolyGood noPolyphonicMemory := fun _ => hF.one
  exact Policy.Good.of_polyGood h hpoly

/-- What evaluation while parsing adds to a state of the parser. -/
theorem Ensures.parseRun (hF : FactorClosed F) {α : Type} {p : MemProg α} {g : NkspGlobal}
    {Q : α → Prop} (hp : Ensures F p g.store fun a s => Q a ∧ (openPolicy F).Good s)
    (hpre : ∀ o ∈ g.trace, (openPolicy F).spec.pre o)
    (hrange : FactorsInRange (parseRun p g).2.trace) :
    Q (parseRun p g).1 ∧ (openPolicy F).Good (parseRun p g).2.store ∧
      ∀ o ∈ (parseRun p g).2.trace, (openPolicy F).spec.pre o := by
  have hrange : FactorsInRange (g.trace ++ (run memMachine p g.store).trace) := hrange
  obtain ⟨⟨hval, hgood⟩, hpre'⟩ := hp hrange.append_right
  refine ⟨hval, good_noPolyphonicMemory hF hgood, fun o ho => ?_⟩
  rcases List.mem_append.mp ho with ho | ho
  · exact hpre o ho
  · exact hpre' o ho

/-- What is true of the unit factors of an expression in a memory. -/
structure Expression.FactorsOk (F : ℚ → Prop) (e : Expression) (s : Store Mem) : Prop where
  /-- as it is, that is for the last evaluated array indices -/
  unitFactor : FactorsInRange (run memMachine e.node.unitFactor s).trace →
    F (run memMachine e.node.unitFactor s).val
  /-- after evaluation, including the conversions that are part of it -/
  evaluate : FactorsInRange (run memMachine e.evaluate s).trace →
    F (run memMachine e.evaluate s).val.2 ∧
      ∀ f, .note (.convert f) ∈ (run memMachine e.evaluate s).trace → F f

variable {autoSuspend : Bool} {sizes : PolyphonicSizes} {hs : List (Statements nksp)}

theorem Expression.FactorsOk.imp {G : ℚ → Prop} (hFG : ∀ f, F f → G f) {e : Expression}
    {s : Store Mem} (h : e.FactorsOk F s) : e.FactorsOk G s where
  unitFactor hrange := hFG _ (h.unitFactor hrange)
  evaluate hrange := ⟨hFG _ (h.evaluate hrange).1, fun f hf => hFG f ((h.evaluate hrange).2 f hf)⟩

end

/-! ## An index out of range -/

attribute [local instance] Platform.exact

end LinuxSampler
