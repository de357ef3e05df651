import LinuxSampler.VmStmt
import LinuxSampler.OpProg
import LinuxSampler.NkspUnit

/-!
# The memory of a script

Every place that evaluating an expression or executing a statement of a
script reads or writes is a `Cell`: the global and polyphonic variable
memory, the elements of arrays, the built-in variables, and the state
that syntax nodes keep themselves (the last evaluated index of an array
element, the result object of a function call). Evaluation is a program
over reads and writes of cells, so that a run leaves a trace of every
access.

Accesses made while an array index is evaluated are marked. `note`
operations touch no memory; they mark in the trace that a certain branch
of the source was taken.

A `Policy` says which accesses are allowed and what is known of every
unit factor in memory; it is what the properties of evaluation are
proved for in general.
-/

namespace LinuxSampler

open OpProg

/-- An array variable of a script: which one it is, its size and whether it is
declared `const`. -/
structure ArrayVar where
  id : Nat
  size : Nat
  isConst : Bool
deriving Repr, DecidableEq

inductive Cell where
  | globalInt (memPos : Nat)
  | globalReal (memPos : Nat)
  | globalStr (memPos : Nat)
  | globalUnitFactor (memPos : Nat)
  | polyphonicInt (memPos : Nat)
  | polyphonicReal (memPos : Nat)
  | polyphonicUnitFactor (memPos : Nat)
  | intElement (array : ArrayVar) (i : Nat)
  | intElementFactor (array : ArrayVar) (i : Nat)
  | realElement (array : ArrayVar) (i : Nat)
  | realElementFactor (array : ArrayVar) (i : Nat)
  /-- what a `VMIntPtr` or `VMInt8Array` of the engine refers to -/
  | builtInInt (ptr : Nat)
  | builtInElement (array : Nat) (i : Nat)
  /-- what a `VMDynVar` of the engine evaluates to -/
  | dynInt (var : Nat)
  | dynStr (var : Nat)
  | dynArraySize (var : Nat)
  | dynElement (var : Nat) (i : Nat)
  /-- the state of syntax nodes and built-in functions -/
  | currentIndex (node : Nat)
  | boundResult (fn : Nat)
  | resultFlags (node : Nat)
  | resultInt (node : Nat)
  | resultReal (node : Nat)
  | resultStr (node : Nat)
  | resultUnitFactor (node : Nat)
  /-- the context's member that `wait()` sets -/
  | suspendMicroseconds
  /-- anything else a built-in function reads or writes -/
  | engine (addr : Nat)
deriving Repr, DecidableEq

namespace Cell

abbrev Val : Cell → Type
  | globalInt _ | polyphonicInt _ | intElement _ _ | builtInInt _ | builtInElement _ _
  | dynInt _ | dynArraySize _ | dynElement _ _ | currentIndex _ | resultInt _ | engine _ => Int
  | globalReal _ | polyphonicReal _ | realElement _ _ | resultReal _ => ℚ
  | globalUnitFactor _ | polyphonicUnitFactor _ | intElementFactor _ _ | realElementFactor _ _
  | resultUnitFactor _ => ℚ
  | globalStr _ | dynStr _ | resultStr _ => String
  | boundResult _ => Option Nat
  | resultFlags _ => StmtFlags
  | suspendMicroseconds => Option Int

/-- The variable memory of the execution context. -/
def isPolyphonic : Cell → Bool
  | polyphonicInt _ | polyphonicReal _ | polyphonicUnitFactor _ => true
  | _ => false

/-- Memory whose content a script or the engine may change at run time. -/
def isVariable : Cell → Bool
  | globalInt _ | globalReal _ | globalStr _ | globalUnitFactor _ => true
  | polyphonicInt _ | polyphonicReal _ | polyphonicUnitFactor _ => true
  | intElement a _ | intElementFactor a _ | realElement a _ | realElementFactor a _ => !a.isConst
  | builtInInt _ | builtInElement _ _ | dynInt _ | dynStr _ | dynArraySize _
  | dynElement _ _ => true
  | _ => false

/-- Not variables of the script, but state of its syntax nodes, of built-in functions
and of the engine. -/
def isNodeState : Cell → Bool
  | currentIndex _ | boundResult _ | resultFlags _ | resultInt _ | resultReal _ | resultStr _
  | resultUnitFactor _ | suspendMicroseconds | engine _ => true
  | _ => false

end Cell

/-! ## Operations on memory -/

/-- Branches of the source that are marked in a trace. -/
inductive Note where
  /-- `unitFactor()` of an array element whose index is out of range -/
  | outOfRange (node : Nat)
  /-- a conversion that divides by the unit factor `dstFactor` -/
  | convert (dstFactor : ℚ)
  /-- a product or quotient of unit factors, before it is rounded -/
  | unitFactor (exact : ℚ)
  /-- an integer division or modulo operation -/
  | divide (l r : Int)
deriving Repr, DecidableEq

inductive MemOp where
  | read (inIndex : Bool) (c : Cell)
  | write (inIndex : Bool) (c : Cell) (v : c.Val)
  | note (n : Note)

abbrev MemOp.Res : MemOp → Type
  | read _ c => c.Val
  | write _ _ _ => Unit
  | note _ => Unit

abbrev memSig : Sig := ⟨MemOp, MemOp.Res⟩

/-- Programs over the script's memory. -/
abbrev MemProg (α : Type) := Prog memSig α

def read (c : Cell) : MemProg c.Val := Prog.perform (S := memSig) (.read false c)

def write (c : Cell) (v : c.Val) : MemProg Unit := Prog.perform (S := memSig) (.write false c v)

def note (n : Note) : MemProg Unit := Prog.perform (S := memSig) (.note n)

/-- The same operation as part of the evaluation of an array index. -/
def MemOp.performInIndex : (o : MemOp) → MemProg o.Res
  | .read _ c => Prog.perform (S := memSig) (.read true c)
  | .write _ c v => Prog.perform (S := memSig) (.write true c v)
  | .note n => Prog.perform (S := memSig) (.note n)

def inIndex {α : Type} (p : MemProg α) : MemProg α := p.interp MemOp.performInIndex

/-! ## The machine -/

/-- Memory that is not polyphonic. Polyphonic cells are looked up in the
memory of the context instead. -/
abbrev Mem := (c : Cell) → c.Val

/-- Memory as the constructors and `loadScript()` initialise it. -/
def initialMem : Mem
  | .globalUnitFactor _ | .polyphonicUnitFactor _ | .intElementFactor _ _
  | .realElementFactor _ _ | .resultUnitFactor _ => noFactor
  | .currentIndex _ => (-1 : Int)
  | .globalInt _ | .polyphonicInt _ | .intElement _ _ | .builtInInt _ | .builtInElement _ _
  | .dynInt _ | .dynArraySize _ | .dynElement _ _ | .resultInt _ | .engine _ => (0 : Int)
  | .globalReal _ | .polyphonicReal _ | .realElement _ _ | .resultReal _ => (0 : ℚ)
  | .globalStr _ | .dynStr _ | .resultStr _ => ""
  | .boundResult _ | .suspendMicroseconds => none
  | .resultFlags _ => .success

/-- The content of a cell. -/
def getCell (s : Store Mem) : (c : Cell) → c.Val
  | .polyphonicInt i => s.poly.ints.getD i 0
  | .polyphonicReal i => s.poly.reals.getD i 0
  | .polyphonicUnitFactor i => s.poly.unitFactors.getD i noFactor
  | c => s.global c

def setCell (s : Store Mem) : (c : Cell) → c.Val → Store Mem
  | .polyphonicInt i, v => { s with poly := { s.poly with ints := s.poly.ints.set i v } }
  | .polyphonicReal i, v => { s with poly := { s.poly with reals := s.poly.reals.set i v } }
  | .polyphonicUnitFactor i, v =>
      { s with poly := { s.poly with unitFactors := s.poly.unitFactors.set i v } }
  | c, v => { s with global := Function.update s.global c v }

def memMachine : Machine memSig (Store Mem)
  | .read _ c, s => (getCell s c, s)
  | .write _ c v, s => ((), setCell s c v)
  | .note _, s => ((), s)

/-- The program returns `a` and leaves the memory as it is. -/
def Yields {α : Type} (p : MemProg α) (s : Store Mem) (a : α) : Prop :=
  (run memMachine p s).val = a ∧ (run memMachine p s).state = s

namespace Yields

variable {α β : Type} {s : Store Mem}

theorem pure (a : α) : Yields (Pure.pure a : MemProg α) s a := ⟨rfl, rfl⟩

theorem bind {p : MemProg α} {f : α → MemProg β} {a : α} {b : β} (hp : Yields p s a)
    (hf : Yields (f a) s b) : Yields (p >>= f) s b := by
  obtain ⟨hval, hstate⟩ := hp
  unfold Yields
  rw [Prog.bind_eq, run_bind]
  dsimp only
  rw [hval, hstate]
  exact hf

theorem read (c : Cell) : Yields (LinuxSampler.read c) s (getCell s c) := ⟨rfl, rfl⟩

theorem note (n : Note) : Yields (LinuxSampler.note n) s () := ⟨rfl, rfl⟩

end Yields

/-! ## Policies -/

/-- Which cells may be accessed (separately for accesses within an array
index), what every unit factor in memory satisfies, and which notes end
all obligations. -/
structure Policy where
  mayAccess : Bool → Cell → Prop
  factor : ℚ → Prop
  stops : Note → Prop

namespace Policy

variable {A : Policy} {α β : Type}

/-- What is known of the content of a cell. -/
def inv (A : Policy) : (c : Cell) → c.Val → Prop
  | .globalUnitFactor _, f | .polyphonicUnitFactor _, f | .intElementFactor _ _, f
  | .realElementFactor _ _, f | .resultUnitFactor _, f => A.factor f
  | _, _ => True

/-- Conversions must be to a unit factor as promised. -/
def mayNote (A : Policy) : Note → Prop
  | .convert f => A.factor f
  | .outOfRange _ | .unitFactor _ | .divide _ _ => True

def spec (A : Policy) : Spec memSig where
  pre
    | .read t c => A.mayAccess t c
    | .write t c v => A.mayAccess t c ∧ A.inv c v
    | .note n => A.mayNote n
  post
    | .read _ c, v => A.inv c v
    | .write _ _ _, _ => True
    | .note _, _ => True
  stop
    | .note n => A.stops n
    | .read _ _ | .write _ _ _ => False

/-- The policy for the evaluation of an array index. -/
def inIndex (A : Policy) : Policy :=
  { A with mayAccess := fun _ => A.mayAccess true }

/-- What every policy needs: unit factors are closed under what
expressions compute from them, and syntax nodes may keep their state. -/
structure Lawful [Platform] (A : Policy) : Prop where
  one : A.factor noFactor
  mul : ∀ f g, A.factor f → A.factor g →
    A.stops (.unitFactor (f * g)) ∨ A.factor (Platform.mul f g)
  div : ∀ f g, A.factor f → A.factor g →
    A.stops (.unitFactor (f / g)) ∨ A.factor (Platform.div f g)
  outOfRange : ∀ n, A.stops (.outOfRange n) ∨ A.factor 0
  nodeState : ∀ t c, c.isNodeState → A.mayAccess t c

theorem Lawful.inIndex [Platform] (h : A.Lawful) : A.inIndex.Lawful :=
  { h with nodeState := fun _ => h.nodeState true }

/-- All accesses are allowed and nothing is promised. -/
def Permissive (A : Policy) : Prop :=
  (∀ t c, A.mayAccess t c) ∧ ∀ f, A.factor f

theorem Permissive.inIndex (h : A.Permissive) : A.inIndex.Permissive :=
  ⟨fun _ => h.1 true, h.2⟩

/-! ## Programs under a policy -/

theorem safe_bind {Q : α → Prop} {R : β → Prop} {p : MemProg α} {f : α → MemProg β}
    (h : OpProg.Safe A.spec p Q) (hf : ∀ a, Q a → OpProg.Safe A.spec (f a) R) :
    OpProg.Safe A.spec (p >>= f) R :=
  OpProg.Safe.bind h hf

theorem safe_read {c : Cell} (h : A.mayAccess false c) : OpProg.Safe A.spec (read c) (A.inv c) :=
  safe_perform (.inr h) fun _ => id

theorem safe_write {c : Cell} {v : c.Val} (h : A.mayAccess false c) (hv : A.inv c v) :
    OpProg.Safe A.spec (write c v) fun _ => True :=
  safe_perform (.inr ⟨h, hv⟩) fun _ => id

theorem safe_note {n : Note} {Q : Unit → Prop} (h : A.stops n ∨ A.mayNote n ∧ Q ()) :
    OpProg.Safe A.spec (note n) Q :=
  h.imp id fun ⟨hn, hQ⟩ => ⟨hn, fun _ _ => hQ⟩

/-- A program that keeps to the policy for indices keeps to the policy
when it is run as an index. -/
theorem safe_inIndex {p : MemProg α} {Q : α → Prop} (h : OpProg.Safe A.inIndex.spec p Q) :
    OpProg.Safe A.spec (LinuxSampler.inIndex p) Q := by
  induction p with
  | pure a => exact h
  | op o k ih =>
      cases o with
      | read t c =>
          rcases h with h | ⟨hpre, hk⟩
          · cases h
          · exact .inr ⟨hpre, fun r hr => ih r (hk r hr)⟩
      | write t c v =>
          rcases h with h | ⟨hpre, hk⟩
          · cases h
          · exact .inr ⟨hpre, fun r hr => ih r (hk r hr)⟩
      | note n =>
          rcases h with h | ⟨hpre, hk⟩
          · exact .inl h
          · exact .inr ⟨hpre, fun r hr => ih r (hk r hr)⟩

end Policy

/-- All unit factors that may be accessed are as promised. -/
def Policy.Good (A : Policy) (s : Store Mem) : Prop :=
  ∀ t c, A.mayAccess t c → A.inv c (getCell s c)

namespace Policy

variable {A : Policy} {α : Type}

theorem getCell_of_not_polyphonic (s : Store Mem) {c : Cell} (h : c.isPolyphonic = false) :
    getCell s c = s.global c := by
  cases c <;> first | rfl | cases h

theorem setCell_of_not_polyphonic (s : Store Mem) {c : Cell} (h : c.isPolyphonic = false)
    (v : c.Val) : setCell s c v = { s with global := Function.update s.global c v } := by
  cases c <;> first | rfl | cases h

theorem getCell_setCell_self (s : Store Mem) {c : Cell} (hc : c.isPolyphonic = false)
    (v : c.Val) : getCell (setCell s c v) c = v := by
  rw [getCell_of_not_polyphonic _ hc, setCell_of_not_polyphonic s hc]
  exact Function.update_self ..

theorem getCell_setCell_ne (s : Store Mem) {c c' : Cell} (hc' : c'.isPolyphonic = false)
    (hne : c' ≠ c) (v : c.Val) : getCell (setCell s c v) c' = getCell s c' := by
  rw [getCell_of_not_polyphonic _ hc', getCell_of_not_polyphonic _ hc']
  cases hc : c.isPolyphonic with
  | true => cases c <;> first | rfl | cases hc
  | false =>
      rw [setCell_of_not_polyphonic s hc]
      exact Function.update_of_ne hne ..

theorem getD_set_ne {α : Type} {l : List α} {i j : Nat} (h : j ≠ i) (v d : α) :
    (l.set i v).getD j d = l.getD j d := by
  simp [List.getD_eq_getElem?_getD, List.getElem?_set_ne h.symm]

theorem getCell_setCell_of_ne (s : Store Mem) {c c' : Cell} (hne : c' ≠ c) (v : c.Val) :
    getCell (setCell s c v) c' = getCell s c' := by
  cases hc' : c'.isPolyphonic with
  | false => exact getCell_setCell_ne s hc' hne v
  | true =>
      cases c' with
      | polyphonicInt j =>
          cases c with
          | polyphonicInt i => exact getD_set_ne (fun h => hne (congrArg _ h)) v 0
          | _ => rfl
      | polyphonicReal j =>
          cases c with
          | polyphonicReal i => exact getD_set_ne (fun h => hne (congrArg _ h)) v 0
          | _ => rfl
      | polyphonicUnitFactor j =>
          cases c with
          | polyphonicUnitFactor i => exact getD_set_ne (fun h => hne (congrArg _ h)) v noFactor
          | _ => rfl
      | _ => cases hc'

theorem getD_set_of {p : ℚ → Prop} {l : List ℚ} {i j : Nat} {v d : ℚ} (hv : p v)
    (hl : p (l.getD j d)) : p ((l.set i v).getD j d) := by
  simp only [List.getD_eq_getElem?_getD, List.getElem?_set] at hl ⊢
  by_cases hij : i = j
  · subst hij
    by_cases hi : i < l.length
    · simpa [hi] using hv
    · simpa [hi, List.getElem?_eq_none (Nat.le_of_not_lt hi)] using hl
  · simpa [hij] using hl

theorem Good.setCell {s : Store Mem} (h : A.Good s) {c : Cell} {v : c.Val} (hv : A.inv c v) :
    A.Good (setCell s c v) := by
  intro t c' hmay
  have hc' := h t c' hmay
  cases hc : c.isPolyphonic with
  | true =>
      cases c with
      | polyphonicInt i => cases c' <;> trivial
      | polyphonicReal i => cases c' <;> trivial
      | polyphonicUnitFactor i =>
          cases c' with
          | polyphonicUnitFactor j => exact getD_set_of hv hc'
          | _ => exact hc'
      | _ => cases hc
  | false =>
      rw [setCell_of_not_polyphonic s hc]
      cases hpoly : c'.isPolyphonic with
      | true => cases c' <;> first | exact hc' | cases hpoly
      | false =>
          rw [getCell_of_not_polyphonic _ hpoly] at hc' ⊢
          by_cases heq : c' = c
          · subst heq
            simpa using hv
          · simpa [heq] using hc'

/-- A run that keeps to the policy keeps the memory good and makes only
allowed accesses, unless it meets a note that ends all obligations. -/
theorem safe_run {p : MemProg α} {Q : α → Prop} {s : Store Mem} (hp : OpProg.Safe A.spec p Q)
    (hs : A.Good s) (hstop : ∀ o ∈ (run memMachine p s).trace, ¬ A.spec.stop o) :
    Q (run memMachine p s).val ∧ A.Good (run memMachine p s).state ∧
      ∀ o ∈ (run memMachine p s).trace, A.spec.pre o := by
  refine run_of_safe (fun o s hs hpre => ?_) hp hs hstop
  cases o with
  | read t c => exact ⟨hs t c hpre, hs⟩
  | write t c v => exact ⟨trivial, hs.setCell hpre.2⟩
  | note n => exact ⟨trivial, hs⟩

end Policy

end LinuxSampler
