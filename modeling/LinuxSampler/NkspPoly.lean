import LinuxSampler.NkspConst

/-!
# Polyphonic event handlers

`EventHandler::isPolyphonic()` asks every statement of the handler, every
statement its parts and expressions, and every expression its operands,
again with the one exception that an array element does not ask its
index. A handler that is not polyphonic therefore accesses the polyphonic
memory of its context at most while it evaluates an array index
(`polyPolicy`).
-/

namespace LinuxSampler

open OpProg

def MemOp.accessesPolyphonic : MemOp → Bool
  | .read _ c | .write _ c _ => c.isPolyphonic
  | .note _ => false

/-- No polyphonic memory, array indices perhaps exempt. -/
def polyPolicy (exempt : Bool) : Policy where
  mayAccess t c := (exempt = true ∧ t = true) ∨ c.isPolyphonic = false
  factor _ := True
  stops _ := False

variable {exempt : Bool}

theorem Cell.not_polyphonic_of_nodeState {c : Cell} (h : c.isNodeState) :
    c.isPolyphonic = false :=
  Cell.not_polyphonic_of_not_variable (Cell.not_variable_of_nodeState h)

theorem polyPolicy_lawful [Platform] : (polyPolicy exempt).Lawful :=
  ⟨trivial, fun _ _ _ _ => .inr trivial, fun _ _ _ _ => .inr trivial, fun _ => .inr trivial,
    fun _ _ hc => .inr (Cell.not_polyphonic_of_nodeState hc)⟩

theorem polyPolicy_inIndex_permissive : (polyPolicy true).inIndex.Permissive :=
  ⟨fun _ _ => .inl ⟨rfl, rfl⟩, fun _ => trivial⟩

theorem polyPolicy_inIndex : (polyPolicy false).inIndex = polyPolicy false := by
  simp [polyPolicy, Policy.inIndex]

theorem polyPolicy_good (s : Store Mem) : (polyPolicy exempt).Good s := by
  intro t c _
  unfold Policy.inv
  split <;> trivial

/-! ## What `isPolyphonic()` of an expression ensures -/

theorem ArrayExpr.permitted_polyPolicy (array : ArrayExpr) :
    array.Permitted (polyPolicy exempt) := by
  cases array with
  | intArray a | realArray a => exact ⟨fun _ => .inr rfl, fun _ => .inr rfl⟩
  | dynIntArray v => exact ⟨.inr rfl, fun _ => .inr rfl⟩
  | builtInIntArray id size => exact fun _ => .inr rfl

/-- The three memories a variable lives in are polyphonic together. -/
theorem NumberVariable.cells_not_polyphonic {v : NumberVariable} (h : v.polyphonic = false) :
    v.intCell.isPolyphonic = false ∧ v.realCell.isPolyphonic = false ∧
      v.unitFactorCell.isPolyphonic = false := by
  simp [intCell, realCell, unitFactorCell, h, Cell.isPolyphonic]

section

variable [Platform]

namespace Expression

mutual

/-- No array index in the expression is polyphonic. -/
def IndicesNotPolyphonic : Expression → Prop
  | intArrayElement _ _ index | realArrayElement _ _ index =>
      index.node.isPolyphonic = false ∧ index.IndicesNotPolyphonic
  | add lhs rhs | sub lhs rhs | mul lhs rhs | div lhs rhs | mod lhs rhs | concatString lhs rhs
  | or lhs rhs | and lhs rhs | bitwiseOr lhs rhs | bitwiseAnd lhs rhs | relation lhs _ rhs =>
      lhs.IndicesNotPolyphonic ∧ rhs.IndicesNotPolyphonic
  | neg expr | final expr | not expr | bitwiseNot expr => expr.IndicesNotPolyphonic
  | functionCall _ _ args => allIndicesNotPolyphonic args
  | _ => True

def allIndicesNotPolyphonic : List Expression → Prop
  | [] => True
  | e :: es => e.IndicesNotPolyphonic ∧ allIndicesNotPolyphonic es

end

mutual

theorem permitted_of_not_polyphonic : ∀ (e : Expression) {exempt : Bool},
    e.node.isPolyphonic = false → (exempt = false → e.IndicesNotPolyphonic) →
      e.Permitted (polyPolicy exempt)
  | intLiteral _ _ _ _, _, _, _ | realLiteral _ _ _ _, _, _, _
  | constIntVariable _ _ _ _, _, _, _ | constRealVariable _ _ _ _, _, _, _
  | stringLiteral _, _, _, _ | constStringVariable _, _, _, _ => trivial
  | intVariable _, _, h, _ =>
      have hcells := NumberVariable.cells_not_polyphonic h
      ⟨.inr hcells.1, .inr hcells.2.2⟩
  | realVariable _, _, h, _ =>
      have hcells := NumberVariable.cells_not_polyphonic h
      ⟨.inr hcells.2.1, .inr hcells.2.2⟩
  | builtInIntVariable _, _, _, _ | stringVariable _, _, _, _ => .inr rfl
  | dynamicVariableCall _, _, _, _ => ⟨.inr rfl, .inr rfl⟩
  | arrayVariable array, _, _, _ => array.permitted_polyPolicy
  | intArrayElement _ array index, true, _, _ | realArrayElement _ array index, true, _, _ =>
      ⟨array.permitted_polyPolicy, index.permitted_of_permissive polyPolicy_inIndex_permissive⟩
  | intArrayElement _ array index, false, _, hidx
  | realArrayElement _ array index, false, _, hidx =>
      ⟨array.permitted_polyPolicy, polyPolicy_inIndex ▸
        permitted_of_not_polyphonic index (hidx rfl).1 fun _ => (hidx rfl).2⟩
  | add lhs rhs, _, h, hidx | sub lhs rhs, _, h, hidx | mul lhs rhs, _, h, hidx
  | div lhs rhs, _, h, hidx | mod lhs rhs, _, h, hidx | concatString lhs rhs, _, h, hidx
  | or lhs rhs, _, h, hidx | and lhs rhs, _, h, hidx | bitwiseOr lhs rhs, _, h, hidx
  | bitwiseAnd lhs rhs, _, h, hidx | relation lhs _ rhs, _, h, hidx =>
      have h : (lhs.node.isPolyphonic || rhs.node.isPolyphonic) = false := h
      ⟨permitted_of_not_polyphonic lhs (Bool.or_eq_false_iff.mp h).1 fun he => (hidx he).1,
        permitted_of_not_polyphonic rhs (Bool.or_eq_false_iff.mp h).2 fun he => (hidx he).2⟩
  | neg expr, _, h, hidx | final expr, _, h, hidx | not expr, _, h, hidx
  | bitwiseNot expr, _, h, hidx => permitted_of_not_polyphonic expr h hidx
  | functionCall _ none args, _, h, hidx | functionCall _ (some _) args, _, h, hidx =>
      ⟨fun f _ => f.factorSafe_of_forall fun _ => trivial,
        allPermitted_of_not_polyphonic args h hidx⟩

theorem allPermitted_of_not_polyphonic : ∀ (es : List Expression) {exempt : Bool},
    (nodes es).any (·.isPolyphonic) = false → (exempt = false → allIndicesNotPolyphonic es) →
      allPermitted es (polyPolicy exempt)
  | [], _, _, _ => trivial
  | e :: es, _, h, hidx =>
      have h : (e.node.isPolyphonic || (nodes es).any (·.isPolyphonic)) = false := h
      ⟨permitted_of_not_polyphonic e (Bool.or_eq_false_iff.mp h).1 fun he => (hidx he).1,
        allPermitted_of_not_polyphonic es (Bool.or_eq_false_iff.mp h).2 fun he => (hidx he).2⟩

end

def IsInteger : Expression → Prop
  | intLiteral _ _ _ _ => True
  | _ => False

omit [Platform] in
theorem IsInteger.permitted : ∀ {e : Expression}, e.IsInteger → e.Permitted (polyPolicy exempt)
  | intLiteral _ _ _ _, _ => trivial

end Expression

/-! ## What `isPolyphonic()` of a statement ensures -/

mutual

/-- The values of all cases are integer literals; the grammar has no others. -/
def CasesAreIntegers : Statement nksp → Prop
  | .leaf _ | .noop => True
  | .list args => allCasesAreIntegers args
  | .ifElse _ a none => allCasesAreIntegers a
  | .ifElse _ a (some b) => allCasesAreIntegers a ∧ allCasesAreIntegers b
  | .selectCase _ branches => branchesAreIntegers branches
  | .loop _ statements => allCasesAreIntegers statements
  | .sync statements => allCasesAreIntegers statements

def allCasesAreIntegers : List (Statement nksp) → Prop
  | [] => True
  | stmt :: stmts => CasesAreIntegers stmt ∧ allCasesAreIntegers stmts

def branchesAreIntegers : List (CaseBranch Expression (List (Statement nksp))) → Prop
  | [] => True
  | ⟨lo, hi, statements⟩ :: bs =>
      (lo.IsInteger ∧ (∀ e ∈ hi, e.IsInteger) ∧ allCasesAreIntegers statements) ∧
        branchesAreIntegers bs

end

def NkspLeaf.IndicesNotPolyphonic : NkspLeaf → Prop
  | .assignment var value => var.IndicesNotPolyphonic ∧ value.IndicesNotPolyphonic
  | .functionCall _ _ args => Expression.allIndicesNotPolyphonic args

theorem NkspLeaf.permitted_of_not_polyphonic : ∀ {leaf : NkspLeaf},
    leaf.isPolyphonic = false → (exempt = false → leaf.IndicesNotPolyphonic) →
      leaf.Permitted (polyPolicy exempt)
  | .assignment var value, h, hidx =>
      have h : (var.node.isPolyphonic || value.node.isPolyphonic) = false := h
      ⟨var.permitted_of_not_polyphonic (Bool.or_eq_false_iff.mp h).1 fun he => (hidx he).1,
        value.permitted_of_not_polyphonic (Bool.or_eq_false_iff.mp h).2 fun he => (hidx he).2⟩
  | .functionCall _ _ args, h, hidx =>
      ⟨fun f _ => f.factorSafe_of_forall fun _ => trivial,
        Expression.allPermitted_of_not_polyphonic args h hidx⟩

/-- The policy for the expressions of a statement. -/
abbrev exprPermitted (A : Policy) (e : nksp.IntExpr) : Prop := Expression.Permitted e A

/-- The array indices of a handler that are not exempt are not polyphonic. -/
abbrev HandlerIndicesNotPolyphonic (exempt : Bool) (stmts : Statements nksp) : Prop :=
  forallList (L := nksp) (fun leaf => exempt = false → leaf.IndicesNotPolyphonic)
    (fun e => exempt = false → Expression.IndicesNotPolyphonic e) stmts

mutual

theorem Statement.forall_of_not_polyphonic : ∀ stmt : Statement nksp,
    isPolyphonic stmt = false → CasesAreIntegers stmt →
      stmt.Forall (L := nksp) (fun leaf => exempt = false → leaf.IndicesNotPolyphonic)
        (fun e => exempt = false → Expression.IndicesNotPolyphonic e) →
      stmt.Forall (NkspLeaf.Permitted (polyPolicy exempt)) (exprPermitted (polyPolicy exempt))
  | .leaf _, h, _, hidx => NkspLeaf.permitted_of_not_polyphonic h hidx
  | .noop, _, _, _ => trivial
  | .list args, h, hcases, hidx => forallList_of_not_polyphonic args h hcases hidx
  | .ifElse c a none, h, hcases, hidx =>
      have h := Bool.or_eq_false_iff.mp h
      ⟨Expression.permitted_of_not_polyphonic c h.1 hidx.1,
        forallList_of_not_polyphonic a h.2 hcases hidx.2⟩
  | .ifElse c a (some b), h, hcases, hidx =>
      have h := Bool.or_eq_false_iff.mp h
      have hca := Bool.or_eq_false_iff.mp h.1
      ⟨Expression.permitted_of_not_polyphonic c hca.1 hidx.1,
        forallList_of_not_polyphonic a hca.2 hcases.1 hidx.2.1,
        forallList_of_not_polyphonic b h.2 hcases.2 hidx.2.2⟩
  | .selectCase e branches, h, hcases, hidx =>
      have h := Bool.or_eq_false_iff.mp h
      ⟨Expression.permitted_of_not_polyphonic e h.1 hidx.1,
        forallBranches_of_not_polyphonic branches h.2 hcases hidx.2⟩
  | .loop c statements, h, hcases, hidx =>
      have h := Bool.or_eq_false_iff.mp h
      ⟨Expression.permitted_of_not_polyphonic c h.1 hidx.1,
        forallList_of_not_polyphonic statements h.2 hcases hidx.2⟩
  | .sync statements, h, hcases, hidx =>
      forallList_of_not_polyphonic statements h hcases hidx

theorem forallList_of_not_polyphonic : ∀ stmts : List (Statement nksp),
    anyPolyphonic stmts = false → allCasesAreIntegers stmts →
      HandlerIndicesNotPolyphonic exempt stmts →
      forallList (NkspLeaf.Permitted (polyPolicy exempt)) (exprPermitted (polyPolicy exempt)) stmts
  | [], _, _, _ => trivial
  | stmt :: stmts, h, hcases, hidx =>
      have h := Bool.or_eq_false_iff.mp h
      ⟨stmt.forall_of_not_polyphonic h.1 hcases.1 hidx.1,
        forallList_of_not_polyphonic stmts h.2 hcases.2 hidx.2⟩

theorem forallBranches_of_not_polyphonic :
    ∀ branches : List (CaseBranch Expression (List (Statement nksp))),
      anyBranchPolyphonic branches = false → branchesAreIntegers branches →
        forallBranches (L := nksp) (fun leaf => exempt = false → leaf.IndicesNotPolyphonic)
          (fun e => exempt = false → Expression.IndicesNotPolyphonic e) branches →
        forallBranches (L := nksp) (NkspLeaf.Permitted (polyPolicy exempt))
          (exprPermitted (polyPolicy exempt)) branches
  | [], _, _, _ => trivial
  | ⟨_, _, statements⟩ :: bs, h, hcases, hidx =>
      have h := Bool.or_eq_false_iff.mp h
      ⟨⟨hcases.1.1.permitted, fun e he => (hcases.1.2.1 e he).permitted,
        forallList_of_not_polyphonic statements h.1 hcases.1.2.2 hidx.1.2.2⟩,
        forallBranches_of_not_polyphonic bs h.2 hcases.2 hidx.2⟩

end

/-! ## Runs of a handler -/

/-- The runs of `handler` from a start of it on, in one of the contexts of
the script `hs`, with everything done to the script's memory: the calls
of `exec()` that execute it, the pauses between them, in which the
polyphonic memory and the rest of the context may change, and the events
forked from it. -/
inductive HandlerRun (autoSuspend : Bool) (hs : List (Statements nksp))
    (handler : Statements nksp) : Conf nksp → List MemOp → Prop where
  | start {ctx : ExecContext nksp} (mem : Mem) : ctx.Sound hs [] →
      HandlerRun autoSuspend hs handler
        (.running (ExecState.enter autoSuspend ctx handler ⟨mem, []⟩)) []
  | iterate {st : ExecState nksp} {trace : List MemOp} :
      HandlerRun autoSuspend hs handler (.running st) trace → st.Guard →
        HandlerRun autoSuspend hs handler (.running st.iteration)
          st.iteration.store.global.trace
  | leave {st : ExecState nksp} {trace : List MemOp} :
      HandlerRun autoSuspend hs handler (.running st) trace → ¬ st.Guard →
        HandlerRun autoSuspend hs handler (.idle st.leave) trace
  | pause {ctx ctx' : ExecContext nksp} {trace : List MemOp} :
      HandlerRun autoSuspend hs handler (.idle ctx) trace → ctx'.stack = ctx.stack →
        ctx'.stackFrame = ctx.stackFrame → HandlerRun autoSuspend hs handler (.idle ctx') trace
  | resume {ctx : ExecContext nksp} {trace : List MemOp} (mem : Mem) :
      HandlerRun autoSuspend hs handler (.idle ctx) trace → 0 ≤ ctx.stackFrame →
        HandlerRun autoSuspend hs handler
          (.running (ExecState.enter autoSuspend ctx handler ⟨mem, trace⟩)) trace
  | fork {st : ExecState nksp} {child : ExecContext nksp} {trace : List MemOp}
      {K : List (Frame nksp)} (polyphonic : PolyphonicMemory) :
      HandlerRun autoSuspend hs handler (.running st) trace → st.Guard → child.Sound hs K →
        HandlerRun autoSuspend hs handler
          (.idle ({ st.ctx with polyphonic := polyphonic }.forkTo child)) trace

variable {autoSuspend : Bool} {hs : List (Statements nksp)} {handler : Statements nksp}

/-- What a run of a handler that keeps to a policy satisfies. -/
def Conf.KeepsTo (A : Policy) (hs : List (Statements nksp)) (trace : List MemOp) :
    Conf nksp → Prop
  | .idle ctx => ctx.FramesOk hs (NkspLeaf.Permitted A) (exprPermitted A)
  | .running st =>
      st.Keeps hs (NkspLeaf.Permitted A) (exprPermitted A) A.StoreOk ∧
        st.store.global.trace = trace

omit [Platform] in
/-- Under a policy that promises nothing about the memory and never stops,
a store is fine if its trace is. -/
theorem polyPolicy_storeOk_iff {s : Store NkspGlobal} :
    (polyPolicy exempt).StoreOk s ↔ ∀ o ∈ s.global.trace, (polyPolicy exempt).spec.pre o := by
  constructor
  · intro h
    refine (h ?_).2
    rintro (_ | _ | _) - hstop <;> exact hstop
  · intro h _
    exact ⟨polyPolicy_good _, h⟩

theorem trace_enter (ctx : ExecContext nksp) (g : NkspGlobal) :
    (ExecState.enter autoSuspend ctx handler g).store.global.trace = g.trace :=
  congrArg (fun s : Store NkspGlobal => s.global.trace)
    (ExecState.store_enter autoSuspend ctx handler g)

theorem HandlerRun.keepsTo {c : Conf nksp} {trace : List MemOp}
    (hrun : HandlerRun autoSuspend hs handler c trace) (hmem : handler ∈ hs)
    (hhandler : forallList (NkspLeaf.Permitted (polyPolicy exempt))
      (exprPermitted (polyPolicy exempt)) handler) :
    c.KeepsTo (polyPolicy exempt) hs trace ∧ ∀ o ∈ trace, (polyPolicy exempt).spec.pre o := by
  induction hrun with
  | @start ctx mem hctx =>
      have hframes : ctx.FramesOk hs (NkspLeaf.Permitted (polyPolicy exempt))
          (exprPermitted (polyPolicy exempt)) :=
        ⟨[], hctx, fun f hf => by cases hf⟩
      have hstore : (polyPolicy exempt).StoreOk ⟨⟨mem, []⟩, ctx.polyphonic⟩ :=
        polyPolicy_storeOk_iff.mpr fun o ho => by cases ho
      exact ⟨⟨.enter hframes hmem hhandler hstore autoSuspend, trace_enter ctx ⟨mem, []⟩⟩,
        fun o ho => by cases ho⟩
  | @iterate st trace _ hguard ih =>
      have hkeeps := ih.1.1.iteration (Policy.keptBy polyPolicy_lawful) hguard
      exact ⟨⟨hkeeps, rfl⟩, polyPolicy_storeOk_iff.mp hkeeps.store⟩
  | leave _ _ ih => exact ⟨ih.1.1.leave, ih.2⟩
  | pause _ hstack hframe ih => exact ⟨ih.1.congr hstack hframe, ih.2⟩
  | @resume ctx trace mem _ _ ih =>
      have hstore : (polyPolicy exempt).StoreOk ⟨⟨mem, trace⟩, ctx.polyphonic⟩ :=
        polyPolicy_storeOk_iff.mpr ih.2
      exact ⟨⟨.enter ih.1 hmem hhandler hstore autoSuspend, trace_enter ctx ⟨mem, trace⟩⟩, ih.2⟩
  | @fork st child trace K polyphonic _ _ hchild ih =>
      have hparent : { st.ctx with polyphonic := polyphonic }.FramesOk hs
          (NkspLeaf.Permitted (polyPolicy exempt)) (exprPermitted (polyPolicy exempt)) :=
        ih.1.1.framesOk.congr rfl rfl
      obtain ⟨K', hK', hframes⟩ := hparent
      exact ⟨⟨K', hK'.forkTo hchild, hframes⟩, ih.2⟩

/-- A run of a handler that is not polyphonic leaves the polyphonic memory
alone exactly if all array indices it evaluates do. -/
theorem no_polyphonic_access_iff (hpoly : anyPolyphonic handler = false)
    (hcases : allCasesAreIntegers handler) (hmem : handler ∈ hs) {c : Conf nksp}
    {trace : List MemOp} (hrun : HandlerRun autoSuspend hs handler c trace) :
    (∀ o ∈ trace, o.accessesPolyphonic = false) ↔
      ∀ o ∈ trace, o.isInIndex = true → o.accessesPolyphonic = false := by
  obtain ⟨-, hpre⟩ := hrun.keepsTo hmem (forallList_of_not_polyphonic handler hpoly hcases
    (forallList_imp (fun _ _ h => by cases h) (fun _ _ h => by cases h) handler
      (forallList_true handler) : HandlerIndicesNotPolyphonic true handler))
  constructor
  · intro h o ho _
    exact h o ho
  · intro h o ho
    have hacc := hpre o ho
    cases o with
    | read t cell =>
        -- either outside of all indices, or by hypothesis
        rcases hacc with ⟨-, ht⟩ | hcell
        · exact h _ ho ht
        · exact hcell
    | write t cell v =>
        rcases hacc.1 with ⟨-, ht⟩ | hcell
        · exact h _ ho ht
        · exact hcell
    | note n => rfl

/-- In particular when no array index of the handler is polyphonic. -/
theorem HandlerRun.no_polyphonic_access (hpoly : anyPolyphonic handler = false)
    (hcases : allCasesAreIntegers handler) (hidx : HandlerIndicesNotPolyphonic false handler)
    (hmem : handler ∈ hs) {c : Conf nksp} {trace : List MemOp}
    (hrun : HandlerRun autoSuspend hs handler c trace) :
    ∀ o ∈ trace, o.accessesPolyphonic = false := by
  obtain ⟨-, hpre⟩ :=
    hrun.keepsTo hmem (forallList_of_not_polyphonic handler hpoly hcases hidx)
  intro o ho
  have hacc := hpre o ho
  cases o with
  | read t cell => exact hacc.resolve_left fun h => by cases h.1
  | write t cell v => exact hacc.1.resolve_left fun h => by cases h.1
  | note n => rfl

end

/-! ## A polyphonic index -/

attribute [local instance] Platform.exact

/-- `%a[$p] := 1` with a polyphonic `$p` -/
def assignAtPolyphonic : Statements nksp :=
  [.leaf (NkspLeaf.assignment
    (.intArrayElement 0 (.intArray ⟨0, 2, false⟩)
      (.intVariable { memPos := 0, unitFactorMemPos := 0, polyphonic := true }))
    (.intLiteral 1 1 .noUnit false))]

/-- `%a[1] := 1` -/
def assignAtLiteral : Statements nksp :=
  [.leaf (NkspLeaf.assignment
    (.intArrayElement 0 (.intArray ⟨0, 2, false⟩) (.intLiteral 1 1 .noUnit false))
    (.intLiteral 1 1 .noUnit false))]

/-- A new context of a script with one polyphonic variable and one handler. -/
def newContext (handler : Statements nksp) : ExecContext nksp :=
  createExecContext ⟨1, 0, 1⟩ [handler]

/-- The first call for a handler, after `n` turns. -/
def firstCall (handler : Statements nksp) (n : Nat) : ExecState nksp :=
  (ExecState.enter true (newContext handler) handler ⟨initialMem, []⟩).turns n

theorem HandlerRun.turns {n : Nat} : ∀ {st : ExecState nksp},
    HandlerRun autoSuspend hs handler (.running st) st.store.global.trace →
      st.goesRound n = true →
        HandlerRun autoSuspend hs handler (.running (st.turns n))
          (st.turns n).store.global.trace := by
  induction n with
  | zero => exact fun h _ => h
  | succ n ih =>
      intro st h hround
      rw [ExecState.goesRound, Bool.and_eq_true, decide_eq_true_eq] at hround
      exact ih (h.iterate hround.1) hround.2

theorem firstCall_run (handler : Statements nksp) {n : Nat}
    (hround : (firstCall handler 0).goesRound n = true) :
    HandlerRun true [handler] handler (.running (firstCall handler n))
      (firstCall handler n).store.global.trace := by
  refine HandlerRun.turns ?_ hround
  show HandlerRun _ _ _ _
    (ExecState.enter true (newContext handler) handler ⟨initialMem, []⟩).store.global.trace
  rw [trace_enter]
  exact .start initialMem (.create ⟨1, 0, 1⟩ [handler])

/-- The handler reads the polyphonic `$p` but is not polyphonic. -/
theorem polyphonic_index_not_polyphonic :
    anyPolyphonic assignAtPolyphonic = false ∧ allCasesAreIntegers assignAtPolyphonic ∧
      HandlerRun true [assignAtPolyphonic] assignAtPolyphonic
        (.running (firstCall assignAtPolyphonic 2))
        (firstCall assignAtPolyphonic 2).store.global.trace ∧
      ∃ o ∈ (firstCall assignAtPolyphonic 2).store.global.trace,
        o.accessesPolyphonic = true := by
  have haccess : (firstCall assignAtPolyphonic 2).store.global.trace.any
      (·.accessesPolyphonic) = true := by rfl
  exact ⟨by rfl, ⟨trivial, trivial⟩, firstCall_run assignAtPolyphonic (by rfl),
    List.any_eq_true.mp haccess⟩

/-- With a literal for the index no polyphonic memory is accessed. -/
theorem no_polyphonic_access_at_literal :
    ¬ ∃ o ∈ (firstCall assignAtLiteral 2).store.global.trace, o.accessesPolyphonic = true := by
  have hindex : (firstCall assignAtLiteral 2).store.global.trace.all
      (fun o => !o.isInIndex) = true := by rfl
  have hcases : allCasesAreIntegers assignAtLiteral := ⟨trivial, trivial⟩
  rintro ⟨o, ho, haccess⟩
  refine Bool.eq_false_iff.mp ((no_polyphonic_access_iff (by rfl) hcases List.mem_cons_self
    (firstCall_run assignAtLiteral (by rfl))).mpr ?_ o ho) haccess
  intro o ho hin
  have := List.all_eq_true.mp hindex o ho
  rw [hin] at this
  cases this

end LinuxSampler
