import LinuxSampler.NkspScript

/-!
# The contexts of a script

All execution contexts of a script share its global memory; one of them
at a time is within a call of `exec()`. Between calls the engine may
change its own part of the memory: the built-in and dynamic variables
and its own state.

`SystemReach.keeps` is the run lemma of a policy: whatever the contexts
do, the unit factors in the memories of all of them stay as promised.
-/

namespace LinuxSampler

open OpProg

/-- Memory the engine changes by itself. -/
def Cell.isEngine : Cell → Bool
  | builtInInt _ | builtInElement _ _ | dynInt _ | dynStr _ | dynArraySize _ | dynElement _ _
  | engine _ => true
  | _ => false

variable [Platform]

/-- The contexts of a script and the memory they share. While one of them
executes its state has the memory. -/
inductive System where
  | idle (global : NkspGlobal) (contexts : List (ExecContext nksp))
  | running (st : ExecState nksp) (others : List (ExecContext nksp))

namespace System

def global : System → NkspGlobal
  | idle global _ => global
  | running st _ => st.global

def polyphonics : System → List PolyphonicMemory
  | idle _ contexts => contexts.map ExecContext.polyphonic
  | running st others => st.ctx.polyphonic :: others.map ExecContext.polyphonic

end System

/-- Everything the contexts of the script `hs` can do, from the memory `g₀`
that parsing leaves. -/
inductive SystemReach (autoSuspend : Bool) (sizes : PolyphonicSizes)
    (hs : List (Statements nksp)) (g₀ : NkspGlobal) : System → Prop where
  | start : SystemReach autoSuspend sizes hs g₀ (.idle g₀ [])
  | create {g : NkspGlobal} {contexts : List (ExecContext nksp)} :
      SystemReach autoSuspend sizes hs g₀ (.idle g contexts) →
        SystemReach autoSuspend sizes hs g₀ (.idle g (createExecContext sizes hs :: contexts))
  | enter {g : NkspGlobal} {xs ys : List (ExecContext nksp)} {ctx : ExecContext nksp}
      {h : Statements nksp} :
      SystemReach autoSuspend sizes hs g₀ (.idle g (xs ++ ctx :: ys)) → h ∈ hs →
        SystemReach autoSuspend sizes hs g₀
          (.running (ExecState.enter autoSuspend ctx h g) (xs ++ ys))
  | iterate {st : ExecState nksp} {others : List (ExecContext nksp)} :
      SystemReach autoSuspend sizes hs g₀ (.running st others) → st.Guard →
        SystemReach autoSuspend sizes hs g₀ (.running st.iteration others)
  | leave {st : ExecState nksp} {others : List (ExecContext nksp)} :
      SystemReach autoSuspend sizes hs g₀ (.running st others) → ¬ st.Guard →
        SystemReach autoSuspend sizes hs g₀ (.idle st.global (st.leave :: others))
  /-- `fork()` is called by a leaf statement, which may already have
  written its polyphonic variables. -/
  | fork {st : ExecState nksp} {xs ys : List (ExecContext nksp)} {child : ExecContext nksp}
      (polyphonic : PolyphonicMemory) :
      SystemReach autoSuspend sizes hs g₀ (.running st (xs ++ child :: ys)) → st.Guard →
        SystemReach autoSuspend sizes hs g₀
          (.running st (xs ++ { st.ctx with polyphonic := polyphonic }.forkTo child :: ys))
  | signalAbort {g : NkspGlobal} {xs ys : List (ExecContext nksp)} {ctx : ExecContext nksp} :
      SystemReach autoSuspend sizes hs g₀ (.idle g (xs ++ ctx :: ys)) →
        SystemReach autoSuspend sizes hs g₀ (.idle g (xs ++ ctx.signalAbort :: ys))
  /-- a running handler may abort others -/
  | signalAbortOther {st : ExecState nksp} {xs ys : List (ExecContext nksp)}
      {ctx : ExecContext nksp} :
      SystemReach autoSuspend sizes hs g₀ (.running st (xs ++ ctx :: ys)) →
        SystemReach autoSuspend sizes hs g₀ (.running st (xs ++ ctx.signalAbort :: ys))
  | resetPolyphonicData {g : NkspGlobal} {xs ys : List (ExecContext nksp)}
      {ctx : ExecContext nksp} :
      SystemReach autoSuspend sizes hs g₀ (.idle g (xs ++ ctx :: ys)) →
        SystemReach autoSuspend sizes hs g₀ (.idle g (xs ++ ctx.resetPolyphonicData :: ys))
  | engine {g : NkspGlobal} {contexts : List (ExecContext nksp)} {mem : Mem} :
      SystemReach autoSuspend sizes hs g₀ (.idle g contexts) →
        (∀ c, c.isEngine = false → mem c = g.mem c) →
        SystemReach autoSuspend sizes hs g₀ (.idle { g with mem := mem } contexts)

/-! ## Memories under a policy -/

variable {A : Policy}

/-- All polyphonic unit factors are as promised. -/
def Policy.PolyGood (A : Policy) (poly : PolyphonicMemory) : Prop :=
  ∀ i, A.factor (poly.unitFactors.getD i noFactor)

/-- No obligation has ended yet. -/
def Policy.Open (A : Policy) (trace : List MemOp) : Prop :=
  ∀ o ∈ trace, ¬ A.spec.stop o

namespace Policy

omit [Platform] in
/-- The polyphonic memory of another context is as good as its own. -/
theorem Good.of_polyGood {mem : Mem} {poly poly' : PolyphonicMemory} (h : A.Good ⟨mem, poly⟩)
    (h' : A.PolyGood poly') : A.Good ⟨mem, poly'⟩ := by
  intro t c hmay
  have hc := h t c hmay
  cases c with
  | polyphonicUnitFactor i => exact h' i
  | polyphonicInt i | polyphonicReal i => trivial
  | _ => exact hc

theorem polyGood_create (h1 : A.factor noFactor) (sizes : PolyphonicSizes)
    (hs : List (Statements nksp)) : A.PolyGood (createExecContext sizes hs).polyphonic := by
  intro i
  simp only [createExecContext, List.getD_eq_getElem?_getD, List.getElem?_replicate]
  split <;> exact h1

theorem polyGood_reset (h1 : A.factor noFactor) (ctx : ExecContext nksp) :
    A.PolyGood ctx.resetPolyphonicData.polyphonic := by
  intro i
  simp only [ExecContext.resetPolyphonicData, List.getD_eq_getElem?_getD, List.getElem?_map]
  cases ctx.polyphonic.unitFactors[i]? <;> exact h1

omit [Platform] in
theorem Good.polyGood {mem : Mem} {poly : PolyphonicMemory} (h : A.Good ⟨mem, poly⟩)
    (hmay : ∀ i, A.mayAccess false (.polyphonicUnitFactor i)) : A.PolyGood poly :=
  fun i => h false (.polyphonicUnitFactor i) (hmay i)

omit [Platform] in
/-- Memory that the engine may change carries no unit factors. -/
theorem Good.engine {mem mem' : Mem} {poly : PolyphonicMemory} (h : A.Good ⟨mem, poly⟩)
    (heq : ∀ c, c.isEngine = false → mem' c = mem c) : A.Good ⟨mem', poly⟩ := by
  intro t c hmay
  have hc := h t c hmay
  cases hpoly : c.isPolyphonic with
  | true => cases c <;> first | exact hc | cases hpoly
  | false =>
      cases hengine : c.isEngine with
      | true => cases c <;> trivial
      | false =>
          rw [getCell_of_not_polyphonic _ hpoly] at hc ⊢
          show A.inv c (mem' c)
          rw [heq c hengine]
          exact hc

end Policy

/-! ## Runs under a policy -/

variable {autoSuspend : Bool} {sizes : PolyphonicSizes} {hs : List (Statements nksp)}
  {g₀ : NkspGlobal}

/-- The statements of a handler keep to the policy. -/
abbrev HandlerPermitted (A : Policy) (h : Statements nksp) : Prop :=
  forallList (NkspLeaf.Permitted A) (fun e : nksp.IntExpr => Expression.Permitted e A) h

/-- The frames of an idle context are of statements that keep to the policy. -/
abbrev FramesPermitted (A : Policy) (hs : List (Statements nksp)) (ctx : ExecContext nksp) :
    Prop :=
  ctx.FramesOk hs (NkspLeaf.Permitted A) fun e : nksp.IntExpr => Expression.Permitted e A

/-- A statement only adds to the trace. -/
theorem trace_iteration {st : ExecState nksp} {K : List (Frame nksp)} (hK : st.Sound hs K)
    (hguard : st.Guard) : ∀ o ∈ st.global.trace, o ∈ st.iteration.global.trace := by
  have hkept : KeptBy (L := nksp) (fun _ => True) (fun _ => True)
      fun s => ∀ o ∈ st.global.trace, o ∈ NkspGlobal.trace s.global := by
    refine ⟨fun leaf _ s hs o ho => ?_, fun e _ s hs o ho => ?_⟩
    · exact List.mem_append_left _ (hs o ho)
    · exact List.mem_append_left _ (hs o ho)
  have hkeeps : st.Keeps hs (fun _ => True) (fun _ => True)
      fun s => ∀ o ∈ st.global.trace, o ∈ NkspGlobal.trace s.global :=
    ⟨⟨K, hK, fun f _ => f.statement.forall_true⟩, fun _ => id⟩
  exact (hkeeps.iteration hkept hguard).store

/-- All frames are of statements that keep to the policy, and as long as no
obligation has ended, all memories are good and all accesses so far were
allowed. -/
def System.Keeps (A : Policy) (hs : List (Statements nksp)) : System → Prop
  | .idle g contexts =>
      (∀ ctx ∈ contexts, FramesPermitted A hs ctx) ∧
        (A.Open g.trace → A.Good ⟨g.mem, ⟨[], [], []⟩⟩ ∧
          (∀ ctx ∈ contexts, A.PolyGood ctx.polyphonic) ∧ ∀ o ∈ g.trace, A.spec.pre o)
  | .running st others =>
      (∀ ctx ∈ others, FramesPermitted A hs ctx) ∧
        st.Keeps hs (NkspLeaf.Permitted A) (fun e : nksp.IntExpr => Expression.Permitted e A)
          A.StoreOk ∧
        (A.Open (NkspGlobal.trace st.global) → ∀ ctx ∈ others, A.PolyGood ctx.polyphonic)

omit [Platform] in
/-- One element of a list is replaced. -/
theorem forall_mem_replace {α : Type} {P : α → Prop} {xs ys : List α} {x y : α}
    (h : ∀ z ∈ xs ++ x :: ys, P z) (hy : P x → P y) : ∀ z ∈ xs ++ y :: ys, P z := by
  intro z hz
  rcases List.mem_append.mp hz with hz | hz
  · exact h z (List.mem_append_left _ hz)
  · rcases List.mem_cons.mp hz with rfl | hz
    · exact hy (h x (List.mem_append_right _ List.mem_cons_self))
    · exact h z (List.mem_append_right _ (List.mem_cons_of_mem _ hz))

omit [Platform] in
/-- One element of a list is taken out. -/
theorem forall_mem_remove {α : Type} {P : α → Prop} {xs ys : List α} {x : α}
    (h : ∀ z ∈ xs ++ x :: ys, P z) : ∀ z ∈ xs ++ ys, P z := by
  intro z hz
  rcases List.mem_append.mp hz with hz | hz
  · exact h z (List.mem_append_left _ hz)
  · exact h z (List.mem_append_right _ (List.mem_cons_of_mem _ hz))

theorem SystemReach.keeps (hA : A.Lawful)
    (hmay : ∀ i, A.mayAccess false (.polyphonicUnitFactor i))
    (hhs : ∀ h ∈ hs, HandlerPermitted A h)
    (hg₀ : A.Open g₀.trace → A.Good ⟨g₀.mem, ⟨[], [], []⟩⟩ ∧ ∀ o ∈ g₀.trace, A.spec.pre o)
    {sys : System} (h : SystemReach autoSuspend sizes hs g₀ sys) : sys.Keeps A hs := by
  have hempty : A.PolyGood ⟨[], [], []⟩ := fun i => hA.one
  induction h with
  | start =>
      refine ⟨fun ctx hctx => (List.not_mem_nil hctx).elim, fun hopen => ?_⟩
      obtain ⟨hgood, hpre⟩ := hg₀ hopen
      exact ⟨hgood, fun ctx hctx => (List.not_mem_nil hctx).elim, hpre⟩
  | create _ ih =>
      refine ⟨fun ctx hctx => ?_, fun hopen => ?_⟩
      · rcases List.mem_cons.mp hctx with rfl | hctx
        · exact .create sizes hs
        · exact ih.1 ctx hctx
      · obtain ⟨hgood, hpoly, hpre⟩ := ih.2 hopen
        refine ⟨hgood, fun ctx hctx => ?_, hpre⟩
        rcases List.mem_cons.mp hctx with rfl | hctx
        · exact Policy.polyGood_create hA.one sizes hs
        · exact hpoly ctx hctx
  | @enter g xs ys ctx handler _ hmem ih =>
      have hctx : ctx ∈ xs ++ ctx :: ys := List.mem_append_right _ List.mem_cons_self
      have hstore : A.StoreOk ⟨g, ctx.polyphonic⟩ := by
        intro hopen
        obtain ⟨hgood, hpoly, hpre⟩ := ih.2 hopen
        exact ⟨hgood.of_polyGood (hpoly ctx hctx), hpre⟩
      have htrace : (ExecState.enter autoSuspend ctx handler g).global = g :=
        congrArg Store.global (ExecState.store_enter (L := nksp) autoSuspend ctx handler g)
      refine ⟨forall_mem_remove ih.1, .enter (ih.1 ctx hctx) hmem (hhs handler hmem) hstore
        autoSuspend, fun hopen => ?_⟩
      rw [htrace] at hopen
      exact forall_mem_remove (ih.2 hopen).2.1
  | @iterate st others _ hguard ih =>
      obtain ⟨hothers, hst, hpoly⟩ := ih
      obtain ⟨K, hK, -⟩ := hst.frames
      refine ⟨hothers, hst.iteration (Policy.keptBy hA) hguard, fun hopen => hpoly ?_⟩
      exact fun o ho => hopen o (trace_iteration hK hguard o ho)
  | @leave st others _ _ ih =>
      obtain ⟨hothers, hst, hpoly⟩ := ih
      refine ⟨fun ctx hctx => ?_, fun hopen => ?_⟩
      · rcases List.mem_cons.mp hctx with rfl | hctx
        · exact hst.leave
        · exact hothers ctx hctx
      · obtain ⟨hgood, hpre⟩ := hst.store hopen
        refine ⟨Policy.Good.of_polyGood hgood hempty, fun ctx hctx => ?_, hpre⟩
        rcases List.mem_cons.mp hctx with rfl | hctx
        · rw [ExecState.polyphonic_leave]
          exact Policy.Good.polyGood hgood hmay
        · exact hpoly hopen ctx hctx
  | @fork st xs ys child polyphonic _ _ ih =>
      obtain ⟨hothers, hst, hpoly⟩ := ih
      have hparent : FramesPermitted A hs { st.ctx with polyphonic := polyphonic } :=
        hst.framesOk.congr rfl rfl
      -- the child keeps its own polyphonic unit factors
      exact ⟨forall_mem_replace hothers hparent.forkTo, hst, fun hopen =>
        forall_mem_replace (hpoly hopen) id⟩
  | signalAbort _ ih =>
      refine ⟨forall_mem_replace ih.1 fun h => h.congr rfl rfl, fun hopen => ?_⟩
      obtain ⟨hgood, hpoly, hpre⟩ := ih.2 hopen
      exact ⟨hgood, forall_mem_replace hpoly id, hpre⟩
  | signalAbortOther _ ih =>
      obtain ⟨hothers, hst, hpoly⟩ := ih
      exact ⟨forall_mem_replace hothers fun h => h.congr rfl rfl, hst, fun hopen =>
        forall_mem_replace (hpoly hopen) id⟩
  | @resetPolyphonicData g xs ys ctx _ ih =>
      refine ⟨forall_mem_replace ih.1 fun h => h.congr rfl rfl, fun hopen => ?_⟩
      obtain ⟨hgood, hpoly, hpre⟩ := ih.2 hopen
      exact ⟨hgood, forall_mem_replace hpoly fun _ => Policy.polyGood_reset hA.one ctx, hpre⟩
  | engine _ heq ih =>
      refine ⟨ih.1, fun hopen => ?_⟩
      obtain ⟨hgood, hpoly, hpre⟩ := ih.2 hopen
      exact ⟨hgood.engine heq, hpoly, hpre⟩

/-- The memories of all contexts are good. -/
theorem System.Keeps.good {sys : System} (h : sys.Keeps A hs)
    (hopen : A.Open sys.global.trace) :
    (∀ poly ∈ sys.polyphonics, A.Good ⟨sys.global.mem, poly⟩) ∧
      ∀ o ∈ sys.global.trace, A.spec.pre o := by
  cases sys with
  | idle g contexts =>
      obtain ⟨hgood, hpoly, hpre⟩ := h.2 hopen
      refine ⟨fun poly hmem => ?_, hpre⟩
      obtain ⟨ctx, hctx, rfl⟩ := List.mem_map.mp hmem
      exact hgood.of_polyGood (hpoly ctx hctx)
  | running st others =>
      obtain ⟨hothers, hst, hpoly⟩ := h
      obtain ⟨hgood, hpre⟩ := hst.store hopen
      refine ⟨fun poly hmem => ?_, hpre⟩
      rcases List.mem_cons.mp hmem with rfl | hmem
      · exact hgood
      · obtain ⟨ctx, hctx, rfl⟩ := List.mem_map.mp hmem
        exact Policy.Good.of_polyGood hgood (hpoly hopen ctx hctx)

end LinuxSampler
