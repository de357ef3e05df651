import LinuxSampler.NkspScript
import LinuxSampler.VmScriptEvent

/-!
# Forked script events

`ScriptEvent::forkTo()` is to copy "the current state of this script
event handler to the new event handler with entire execution state and
polyphonic data". All contexts of one script have the same sizes, so the
stack and the polyphonic values are copied as a whole. The polyphonic
unit factors are not copied: the child keeps the ones it had before,
which is the same exactly if they already were the parent's.
-/

namespace LinuxSampler

open OpProg

/-! ## Sizes of the polyphonic memory -/

theorem sizes_setCell (s : Store Mem) (c : Cell) (v : c.Val) :
    (setCell s c v).poly.sizes = s.poly.sizes := by
  cases hc : c.isPolyphonic with
  | true =>
      cases c with
      | polyphonicInt i | polyphonicReal i | polyphonicUnitFactor i =>
          simp [setCell, PolyphonicMemory.sizes]
      | _ => cases hc
  | false => rw [Policy.setCell_of_not_polyphonic s hc]

theorem sizes_run {α : Type} (p : MemProg α) (s : Store Mem) :
    (run memMachine p s).state.poly.sizes = s.poly.sizes := by
  induction p generalizing s with
  | pure a => rfl
  | op o k ih =>
      rw [run_op]
      dsimp only
      rw [ih]
      cases o with
      | read t c => rfl
      | write t c v => exact sizes_setCell s c v
      | note n => rfl

section

variable [Platform]

/-- Statements never resize the polyphonic memory. -/
theorem sizes_keptBy (sizes : PolyphonicSizes) :
    KeptBy (L := nksp) (fun _ => True) (fun _ => True) fun s => s.poly.sizes = sizes where
  leaf leaf _ s hs := (sizes_run leaf.exec (memOf (clearSuspendMicroseconds s))).trans hs
  expr e _ s hs := (sizes_run (Expression.node e).evalInt (memOf s)).trans hs

/-- The context of a configuration. -/
def Conf.ctx {L : ScriptLang} : Conf L → ExecContext L
  | .idle ctx => ctx
  | .running st => st.ctx

variable {autoSuspend : Bool} {sizes : PolyphonicSizes} {hs : List (Statements nksp)}
  {callOk : ExecContext nksp → Prop} {turnOk : ExecState nksp → Prop}

/-- The polyphonic memory of every context has the sizes the parser counted. -/
theorem Reach.polyphonic_sizes {c : Conf nksp} (h : Reach autoSuspend sizes hs callOk turnOk c) :
    c.ctx.polyphonic.sizes = sizes := by
  induction h with
  | create => simp [Conf.ctx, createExecContext, PolyphonicMemory.sizes]
  | @enter ctx handler global _ _ _ ih =>
      have hstore := ExecState.store_enter autoSuspend ctx handler global
      show (ExecState.enter autoSuspend ctx handler global).store.poly.sizes = sizes
      rw [hstore]
      exact ih
  | @iterate st h hguard _ ih =>
      obtain ⟨K, hK⟩ := h.sound
      have hkeeps : st.Keeps hs (fun _ => True) (fun _ => True) fun s => s.poly.sizes = sizes :=
        ⟨⟨K, hK, fun f _ => f.statement.forall_true⟩, ih⟩
      exact (hkeeps.iteration (sizes_keptBy sizes) hguard).store
  | @leave st _ _ ih =>
      show st.leave.polyphonic.sizes = sizes
      rw [ExecState.polyphonic_leave]
      exact ih
  | signalAbort _ ih => exact ih
  | @resetPolyphonicData ctx _ ih =>
      rw [← ih]
      simp [Conf.ctx, ExecContext.resetPolyphonicData, PolyphonicMemory.sizes]
  | @fork st child polyphonic _ _ _ _ ih ihchild =>
      rw [← ihchild]
      simp [Conf.ctx, ExecContext.forkTo, PolyphonicMemory.sizes]

/-! ## The copy -/

variable {Cause : Type}

/-- The child is where the parent is and every expression evaluates to the
same value and unit factor in both. -/
structure SameExecution (parent child : ScriptEvent nksp Cause) : Prop where
  handler : child.handlers[child.currentHandler]? = parent.handlers[parent.currentHandler]?
  stackFrame : child.execCtx.stackFrame = parent.execCtx.stackFrame
  stack : child.execCtx.stack = parent.execCtx.stack
  ints : child.execCtx.polyphonic.ints = parent.execCtx.polyphonic.ints
  reals : child.execCtx.polyphonic.reals = parent.execCtx.polyphonic.reals
  unitFactors : child.execCtx.polyphonic.unitFactors = parent.execCtx.polyphonic.unitFactors
  evaluate : ∀ (mem : Mem) (e : Expression),
    (run memMachine e.evaluate ⟨mem, child.execCtx.polyphonic⟩).val =
      (run memMachine e.evaluate ⟨mem, parent.execCtx.polyphonic⟩).val

/-- What `forkTo()` copies, for two contexts of the same script. -/
theorem forkTo_eq {c c' : Conf nksp} (h : Reach autoSuspend sizes hs callOk turnOk c)
    (h' : Reach autoSuspend sizes hs callOk turnOk c') :
    (c.ctx.forkTo c'.ctx).stack = c.ctx.stack ∧
      (c.ctx.forkTo c'.ctx).polyphonic =
        { c.ctx.polyphonic with unitFactors := c'.ctx.polyphonic.unitFactors } := by
  have hstack (c : Conf nksp) (h : c.Sound hs) :
      c.ctx.stack.length = requiredMaxStackSizeForHandlers hs := by
    cases c with
    | idle ctx =>
        obtain ⟨K, hK⟩ := h
        exact hK.size
    | running st =>
        obtain ⟨K, hK⟩ := h
        exact hK.ctx.size
  have hsizes := h'.polyphonic_sizes.trans h.polyphonic_sizes.symm
  simp only [PolyphonicMemory.sizes, PolyphonicSizes.mk.injEq] at hsizes
  refine ⟨copyFlatFrom_of_length_eq ((hstack c' h'.sound).trans (hstack c h.sound).symm), ?_⟩
  simp only [ExecContext.forkTo, copyFlatFrom_of_length_eq hsizes.1,
    copyFlatFrom_of_length_eq hsizes.2.1]

/-- A fork preserves the parent's execution state exactly if the child
already had the parent's polyphonic unit factors. -/
theorem fork_preserves_execution_iff {parent child : ScriptEvent nksp Cause}
    {c c' : Conf nksp} (h : Reach autoSuspend sizes hs callOk turnOk c)
    (h' : Reach autoSuspend sizes hs callOk turnOk c') (hparent : parent.execCtx = c.ctx)
    (hchild : child.execCtx = c'.ctx) (autoAbort : Bool) :
    SameExecution parent (parent.forkTo child autoAbort) ↔
      child.execCtx.polyphonic.unitFactors = parent.execCtx.polyphonic.unitFactors := by
  obtain ⟨hstack, hpoly⟩ := forkTo_eq h h'
  rw [← hparent, ← hchild] at hstack hpoly
  constructor
  · intro hsame
    have := hsame.unitFactors
    rwa [show (parent.forkTo child autoAbort).execCtx = parent.execCtx.forkTo child.execCtx
      from rfl, hpoly] at this
  · intro hfactors
    have hpoly' : (parent.forkTo child autoAbort).execCtx.polyphonic =
        parent.execCtx.polyphonic := by
      show (parent.execCtx.forkTo child.execCtx).polyphonic = _
      rw [hpoly, hfactors]
    refine ⟨?_, rfl, hstack, by rw [hpoly'], by rw [hpoly'], by rw [hpoly'], ?_⟩
    · show (parent.handlers[parent.currentHandler]?.toList)[0]? = _
      cases parent.handlers[parent.currentHandler]? <;> rfl
    · intro mem e
      rw [hpoly']

end

/-! ## A polyphonic variable with a metric prefix -/

attribute [local instance] Platform.exact

/-- `declare polyphonic $p`, the only polyphonic variable. -/
def polyphonicVar : NumberVariable :=
  { memPos := 0, unitFactorMemPos := 0, polyphonic := true }

/-- `$p := 3k` -/
def assignPrefixed : Statements nksp :=
  [.leaf (NkspLeaf.assignment (.intVariable polyphonicVar) (.intLiteral 3 1000 .noUnit false))]

def freshContext : ExecContext nksp := createExecContext ⟨1, 0, 1⟩ [assignPrefixed]

/-- The handler after its assignment. -/
def afterAssignment : ExecState nksp :=
  (ExecState.enter true freshContext assignPrefixed ⟨initialMem, []⟩).turns 2

theorem afterAssignment_reach : Reach true ⟨1, 0, 1⟩ [assignPrefixed] (fun _ => True)
    (fun _ => True) (.running afterAssignment) :=
  Reach.turns (.enter _ .create List.mem_cons_self trivial) (by rfl) fun _ _ => trivial

def eventOf (ctx : ExecContext nksp) : ScriptEvent nksp Unit :=
  { scheduleTime := 0, cause := (), id := 0, handlers := [assignPrefixed], execCtx := ctx,
    currentHandler := 0, executionSlices := 0, ignoreAllWaitCalls := false, handlerType := 0,
    parentHandlerID := 0, childHandlerID := [], autoAbortByParent := false, forkIndex := 0 }

/-- In the forked child `$p` is 3 without the prefix it has in the parent. -/
theorem fork_drops_unit_factors :
    ∃ parent child : ExecContext nksp,
      Reach true ⟨1, 0, 1⟩ [assignPrefixed] (fun _ => True) (fun _ => True)
        (.running afterAssignment) ∧ parent = afterAssignment.ctx ∧
      Reach true ⟨1, 0, 1⟩ [assignPrefixed] (fun _ => True) (fun _ => True) (.idle child) ∧
      (run memMachine (Expression.intVariable polyphonicVar).evaluate
        ⟨initialMem, parent.polyphonic⟩).val = (.int 3, 1000) ∧
      (run memMachine (Expression.intVariable polyphonicVar).evaluate
        ⟨initialMem, (parent.forkTo child).polyphonic⟩).val = (.int 3, 1) ∧
      ¬ SameExecution (eventOf parent) ((eventOf parent).forkTo (eventOf child) true) := by
  have hparent : (run memMachine (Expression.intVariable polyphonicVar).evaluate
      ⟨initialMem, afterAssignment.ctx.polyphonic⟩).val = (.int 3, 1000) := by rfl
  have hchild : (run memMachine (Expression.intVariable polyphonicVar).evaluate
      ⟨initialMem, (afterAssignment.ctx.forkTo freshContext).polyphonic⟩).val = (.int 3, 1) := by
    rfl
  refine ⟨_, freshContext, afterAssignment_reach, rfl, .create, hparent, hchild, ?_⟩
  intro hsame
  have heval := hsame.evaluate initialMem (.intVariable polyphonicVar)
  have : (ScalarValue.int 3, (1 : ℚ)) = (.int 3, 1000) := hchild.symm.trans (heval.trans hparent)
  simp at this

/-- A context in which the handler has run to its end. -/
def finishedContext : ExecContext nksp := (afterAssignment.turns 1).leave

/-- If the child has run the same assignment before, the fork preserves everything. -/
theorem fork_preserves_execution_iff_finished :
    SameExecution (eventOf afterAssignment.ctx)
      ((eventOf afterAssignment.ctx).forkTo (eventOf finishedContext) true) := by
  have hfinished : Reach true ⟨1, 0, 1⟩ [assignPrefixed] (fun _ => True) (fun _ => True)
      (.idle finishedContext) :=
    .leave (afterAssignment_reach.iterate (by decide) trivial) (by decide)
  exact (fork_preserves_execution_iff afterAssignment_reach hfinished rfl rfl true).mpr (by rfl)

end LinuxSampler
