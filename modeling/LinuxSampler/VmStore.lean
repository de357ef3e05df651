import LinuxSampler.VmStack

/-!
# What a run keeps of the memory

An invariant of the memory that every leaf statement and every condition
of a statement tree keeps is kept by every turn that executes a frame of
that tree, and the frames such a turn leaves are of that tree again.
-/

namespace LinuxSampler

section

variable {L : ScriptLang}

mutual

/-- All leaf statements and all conditions within a statement are as given. -/
def Statement.Forall (leafOk : L.Leaf → Prop) (exprOk : L.IntExpr → Prop) :
    Statement L → Prop
  | .leaf leaf => leafOk leaf
  | .list args => forallList leafOk exprOk args
  | .ifElse c a none => exprOk c ∧ forallList leafOk exprOk a
  | .ifElse c a (some b) =>
      exprOk c ∧ forallList leafOk exprOk a ∧ forallList leafOk exprOk b
  | .selectCase e branches => exprOk e ∧ forallBranches leafOk exprOk branches
  | .loop c statements => exprOk c ∧ forallList leafOk exprOk statements
  | .sync statements => forallList leafOk exprOk statements
  | .noop => True

def forallList (leafOk : L.Leaf → Prop) (exprOk : L.IntExpr → Prop) :
    List (Statement L) → Prop
  | [] => True
  | stmt :: stmts => stmt.Forall leafOk exprOk ∧ forallList leafOk exprOk stmts

def forallBranches (leafOk : L.Leaf → Prop) (exprOk : L.IntExpr → Prop) :
    List (CaseBranch L.IntExpr (List (Statement L))) → Prop
  | [] => True
  | ⟨lo, hi, statements⟩ :: bs =>
      (exprOk lo ∧ (∀ e ∈ hi, exprOk e) ∧ forallList leafOk exprOk statements) ∧
        forallBranches leafOk exprOk bs

end

variable {leafOk : L.Leaf → Prop} {exprOk : L.IntExpr → Prop}

theorem forallList_mem {stmt : Statement L} : ∀ {stmts : List (Statement L)},
    forallList leafOk exprOk stmts → stmt ∈ stmts → stmt.Forall leafOk exprOk
  | _ :: _, h, hmem => by
      rcases List.mem_cons.mp hmem with rfl | hmem
      · exact h.1
      · exact forallList_mem h.2 hmem

theorem forallBranches_mem {b : CaseBranch L.IntExpr (Statements L)} :
    ∀ {bs : List (CaseBranch L.IntExpr (Statements L))}, forallBranches leafOk exprOk bs →
      b ∈ bs → forallList leafOk exprOk b.statements
  | ⟨_, _, _⟩ :: _, h, hmem => by
      rcases List.mem_cons.mp hmem with rfl | hmem
      · exact h.1.2.2
      · exact forallBranches_mem h.2 hmem

/-- A branch that is taken is part of the branch statement. -/
theorem Statement.Forall.branch {stmt : Statement L} (h : stmt.Forall leafOk exprOk) {i : Nat}
    {body : Statements L} (hbody : stmt.branch i = some body) :
    forallList leafOk exprOk body := by
  cases stmt with
  | ifElse c a e =>
      simp only [Statement.branch] at hbody
      cases e with
      | none =>
          split at hbody
          · cases hbody
            exact h.2
          · simp at hbody
      | some b =>
          split at hbody
          · cases hbody
            exact h.2.1
          · split at hbody
            · cases hbody
              exact h.2.2
            · cases hbody
  | selectCase e branches =>
      obtain ⟨b, hb, rfl⟩ := Option.map_eq_some_iff.mp hbody
      exact forallBranches_mem h.2 (List.mem_of_getElem? hb)
  | leaf _ | list _ | loop _ _ | sync _ | noop => simp [Statement.branch] at hbody

section

variable {leafOk' : L.Leaf → Prop} {exprOk' : L.IntExpr → Prop}

mutual

theorem Statement.Forall.imp (hleaf : ∀ leaf, leafOk leaf → leafOk' leaf)
    (hexpr : ∀ e, exprOk e → exprOk' e) : ∀ stmt : Statement L, stmt.Forall leafOk exprOk →
      stmt.Forall leafOk' exprOk'
  | .leaf leaf, h => hleaf leaf h
  | .list args, h => forallList_imp hleaf hexpr args h
  | .ifElse c a none, h => ⟨hexpr c h.1, forallList_imp hleaf hexpr a h.2⟩
  | .ifElse c a (some b), h =>
      ⟨hexpr c h.1, forallList_imp hleaf hexpr a h.2.1, forallList_imp hleaf hexpr b h.2.2⟩
  | .selectCase e branches, h => ⟨hexpr e h.1, forallBranches_imp hleaf hexpr branches h.2⟩
  | .loop c statements, h => ⟨hexpr c h.1, forallList_imp hleaf hexpr statements h.2⟩
  | .sync statements, h => forallList_imp hleaf hexpr statements h
  | .noop, _ => trivial

theorem forallList_imp (hleaf : ∀ leaf, leafOk leaf → leafOk' leaf)
    (hexpr : ∀ e, exprOk e → exprOk' e) : ∀ stmts : List (Statement L),
      forallList leafOk exprOk stmts → forallList leafOk' exprOk' stmts
  | [], _ => trivial
  | stmt :: stmts, h => ⟨.imp hleaf hexpr stmt h.1, forallList_imp hleaf hexpr stmts h.2⟩

theorem forallBranches_imp (hleaf : ∀ leaf, leafOk leaf → leafOk' leaf)
    (hexpr : ∀ e, exprOk e → exprOk' e) :
    ∀ branches : List (CaseBranch L.IntExpr (List (Statement L))),
      forallBranches leafOk exprOk branches → forallBranches leafOk' exprOk' branches
  | [], _ => trivial
  | ⟨lo, _, statements⟩ :: bs, h =>
      ⟨⟨hexpr lo h.1.1, fun e he => hexpr e (h.1.2.1 e he),
        forallList_imp hleaf hexpr statements h.1.2.2⟩, forallBranches_imp hleaf hexpr bs h.2⟩

end

end

mutual

theorem Statement.forall_true : ∀ stmt : Statement L,
    stmt.Forall (fun _ => True) fun _ => True
  | .leaf _ => trivial
  | .list args => forallList_true args
  | .ifElse _ a none => ⟨trivial, forallList_true a⟩
  | .ifElse _ a (some b) => ⟨trivial, forallList_true a, forallList_true b⟩
  | .selectCase _ branches => ⟨trivial, forallBranches_true branches⟩
  | .loop _ statements => ⟨trivial, forallList_true statements⟩
  | .sync statements => forallList_true statements
  | .noop => trivial

theorem forallList_true : ∀ stmts : List (Statement L),
    forallList (fun _ => True) (fun _ => True) stmts
  | [] => trivial
  | stmt :: stmts => ⟨stmt.forall_true, forallList_true stmts⟩

theorem forallBranches_true :
    ∀ branches : List (CaseBranch L.IntExpr (List (Statement L))),
      forallBranches (fun _ => True) (fun _ => True) branches
  | [] => trivial
  | ⟨_, _, statements⟩ :: bs =>
      ⟨⟨trivial, fun _ _ => trivial, forallList_true statements⟩, forallBranches_true bs⟩

end

/-! ## One turn -/

/-- The leaf statements and conditions keep `I`. -/
structure KeptBy (leafOk : L.Leaf → Prop) (exprOk : L.IntExpr → Prop)
    (I : Store L.Global → Prop) : Prop where
  leaf : ∀ leaf, leafOk leaf → ∀ s, I s → I (L.execLeaf leaf s).store
  expr : ∀ e, exprOk e → ∀ s, I s → I (L.evalInt e s).2

variable {I : Store L.Global → Prop}

theorem KeptBy.selectBranch (hI : KeptBy leafOk exprOk I) (value : Int) :
    ∀ {bs : List (CaseBranch L.IntExpr (Statements L))} {i : Int} {s : Store L.Global},
      forallBranches leafOk exprOk bs → I s → I (selectBranch value i bs s).2
  | [], _, _, _, hs => hs
  | ⟨lo, hi, statements⟩ :: bs, i, s, h, hs => by
      obtain ⟨⟨hlo, hhi, -⟩, hbs⟩ := h
      have hs' : I (L.evalInt lo s).2 := hI.expr lo hlo s hs
      unfold LinuxSampler.selectBranch
      cases hi with
      | some hiExpr =>
          have hs'' := hI.expr hiExpr (hhi hiExpr rfl) _ hs'
          dsimp only
          split
          · split
            · exact hs''
            · exact hI.selectBranch value hbs hs''
          · exact hI.selectBranch value hbs hs'
      | none =>
          dsimp only
          split
          · exact hs'
          · exact hI.selectBranch value hbs hs'

theorem KeptBy.evalBranch (hI : KeptBy leafOk exprOk I) {stmt : Statement L}
    (h : stmt.Forall leafOk exprOk) {s : Store L.Global} (hs : I s) :
    I (stmt.evalBranch s).2 := by
  cases stmt with
  | ifElse c a e =>
      have hc : exprOk c := by
        cases e with
        | none => exact h.1
        | some b => exact h.1
      have hs' := hI.expr c hc s hs
      simp only [Statement.evalBranch]
      split
      · exact hs'
      · split <;> exact hs'
  | selectCase e branches => exact hI.selectBranch _ h.2 (hI.expr e h.1 s hs)
  | leaf _ | list _ | loop _ _ | sync _ | noop => exact hs

/-- One turn of the topmost frame. -/
theorem Frame.step_keeps (hI : KeptBy leafOk exprOk I) {f : Frame L}
    (h : f.statement.Forall leafOk exprOk) {s : Store L.Global} (hs : I s) :
    I (f.step s).store ∧ ∀ g ∈ (f.step s).frames, g.statement.Forall leafOk exprOk := by
  have hbranch : I (f.branchStep s).store ∧
      ∀ g ∈ (f.branchStep s).frames, g.statement.Forall leafOk exprOk := by
    unfold Frame.branchStep
    split
    · exact ⟨hs, fun g hg => by cases hg⟩
    · have hs' := hI.evalBranch h hs
      dsimp only
      split
      · rename_i body hbody
        refine ⟨hs', ?_⟩
        rintro g hg
        have hbody : forallList leafOk exprOk body := by
          split at hbody
          · exact h.branch hbody
          · cases hbody
        rcases List.mem_cons.mp hg with rfl | hg
        · exact hbody
        · obtain rfl := List.mem_singleton.mp hg
          exact h
      · exact ⟨hs', fun g hg => by cases hg⟩
  have hpair {f g : Frame L}
      (hf : f.statement.Forall leafOk exprOk) (hg : g.statement.Forall leafOk exprOk) :
      ∀ x ∈ [f, g], x.statement.Forall leafOk exprOk := by
    rintro x hx
    rcases List.mem_cons.mp hx with rfl | hx
    · exact hf
    · obtain rfl := List.mem_singleton.mp hx
      exact hg
  obtain ⟨stmt, i⟩ := f
  cases stmt with
  | leaf leaf => exact ⟨hI.leaf leaf h s hs, fun g hg => by cases hg⟩
  | list args =>
      simp only [step]
      split
      · rename_i stmt hstmt
        have hmem : stmt ∈ args := by
          unfold ExecState.statementAt at hstmt
          split at hstmt
          · cases hstmt
          · exact List.mem_of_getElem? hstmt
        have hstmt : stmt.Forall leafOk exprOk := forallList_mem h hmem
        exact ⟨hs, hpair hstmt h⟩
      · exact ⟨hs, fun g hg => by cases hg⟩
  | ifElse c a b => exact hbranch
  | selectCase e bs => exact hbranch
  | loop c body =>
      have hs' := hI.expr c h.1 s hs
      simp only [step]
      split
      · exact ⟨hs', hpair h.2 h⟩
      · exact ⟨hs', fun g hg => by cases hg⟩
  | sync body =>
      simp only [step]
      split
      · exact ⟨hs, hpair h h⟩
      · exact ⟨hs, fun g hg => by cases hg⟩
  | noop =>
      refine ⟨hs, fun g hg => ?_⟩
      obtain rfl := List.mem_singleton.mp hg
      trivial

/-! ## Calls of `exec()` -/

/-- The context is one of the script `hs` and all its active frames are of
statements as given. -/
def ExecContext.FramesOk (hs : List (Statements L)) (leafOk : L.Leaf → Prop)
    (exprOk : L.IntExpr → Prop) (ctx : ExecContext L) : Prop :=
  ∃ K, ctx.Sound hs K ∧ ∀ f ∈ K, f.statement.Forall leafOk exprOk

/-- A point within a call at which the frames are as given and the memory satisfies `I`. -/
structure ExecState.Keeps (hs : List (Statements L)) (leafOk : L.Leaf → Prop)
    (exprOk : L.IntExpr → Prop) (I : Store L.Global → Prop) (st : ExecState L) : Prop where
  frames : ∃ K, st.Sound hs K ∧ ∀ f ∈ K, f.statement.Forall leafOk exprOk
  store : I st.store

namespace ExecState

variable {hs : List (Statements L)} {ctx : ExecContext L} {st : ExecState L}

theorem Keeps.framesOk (h : st.Keeps hs leafOk exprOk I) :
    st.ctx.FramesOk hs leafOk exprOk := by
  obtain ⟨K, hK, hframes⟩ := h.frames
  exact ⟨K, hK.ctx, hframes⟩

theorem store_enter (autoSuspend : Bool) (ctx : ExecContext L) (handler : Statements L)
    (global : L.Global) :
    (ExecState.enter autoSuspend ctx handler global).store = ⟨global, ctx.polyphonic⟩ := by
  by_cases hneg : ctx.stackFrame < 0
  · simp only [enter, if_pos hneg, store_push]
    rfl
  · simp only [enter, if_neg hneg]
    rfl

theorem Keeps.enter (hctx : ctx.FramesOk hs leafOk exprOk) {handler : Statements L}
    (hmem : handler ∈ hs) (hhandler : forallList leafOk exprOk handler) {global : L.Global}
    (hI : I ⟨global, ctx.polyphonic⟩) (autoSuspend : Bool) :
    (ExecState.enter autoSuspend ctx handler global).Keeps hs leafOk exprOk I := by
  obtain ⟨K, hK, hframes⟩ := hctx
  refine ⟨⟨_, .enter hK hmem autoSuspend global, ?_⟩, by rw [store_enter]; exact hI⟩
  split
  · rintro f hf
    obtain rfl := List.mem_singleton.mp hf
    exact hhandler
  · exact hframes

theorem store_limit (st : ExecState L) (n : Nat) : (st.limit n).store = st.store := by
  unfold limit
  split <;> rfl

theorem Keeps.iteration (hI : KeptBy leafOk exprOk I) (h : st.Keeps hs leafOk exprOk I)
    (hguard : st.Guard) : st.iteration.Keeps hs leafOk exprOk I := by
  obtain ⟨⟨K, hK, hframes⟩, hstore⟩ := h
  obtain ⟨f, K, rfl⟩ := hK.of_guard hguard
  obtain ⟨hstore', hframes'⟩ :=
    f.step_keeps hI (hframes f List.mem_cons_self) hstore
  refine ⟨⟨_, hK.iteration hguard.1, ?_⟩, ?_⟩
  · rintro g hg
    rcases List.mem_append.mp hg with hg | hg
    · exact hframes' g hg
    · exact hframes g (List.mem_cons_of_mem _ hg)
  · obtain ⟨st', hsim, -, heq⟩ := hK.iteration_spec hguard.1
    rw [heq]
    show I (st'.limit (f.step st.store).limit).store
    rw [store_limit, hsim.store]
    exact hstore'

theorem polyphonic_leave (st : ExecState L) : st.leave.polyphonic = st.ctx.polyphonic := by
  unfold leave
  split <;> rfl

theorem Keeps.leave (h : st.Keeps hs leafOk exprOk I) :
    st.leave.FramesOk hs leafOk exprOk := by
  obtain ⟨⟨K, hK, hframes⟩, -⟩ := h
  obtain ⟨K', hK', rfl | rfl⟩ := hK.leave
  · exact ⟨K', hK', hframes⟩
  · exact ⟨[], hK', fun f hf => by cases hf⟩

end ExecState

namespace ExecContext.FramesOk

variable {hs : List (Statements L)} {ctx child : ExecContext L}

theorem create (sizes : PolyphonicSizes) (hs : List (Statements L)) :
    (createExecContext sizes hs).FramesOk hs leafOk exprOk :=
  ⟨[], .create sizes hs, fun f hf => by cases hf⟩

theorem congr {ctx' : ExecContext L} (h : ctx.FramesOk hs leafOk exprOk)
    (hstack : ctx'.stack = ctx.stack) (hframe : ctx'.stackFrame = ctx.stackFrame) :
    ctx'.FramesOk hs leafOk exprOk := by
  obtain ⟨K, hK, hframes⟩ := h
  exact ⟨K, hK.congr hstack hframe, hframes⟩

theorem forkTo (h : ctx.FramesOk hs leafOk exprOk) (hchild : child.FramesOk hs leafOk exprOk) :
    (ctx.forkTo child).FramesOk hs leafOk exprOk := by
  obtain ⟨K, hK, hframes⟩ := h
  obtain ⟨K', hK', -⟩ := hchild
  exact ⟨K, hK.forkTo hK', hframes⟩

end ExecContext.FramesOk

end

end LinuxSampler
