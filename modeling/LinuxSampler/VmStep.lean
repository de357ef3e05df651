import LinuxSampler.VmExec

/-!
# One turn of the loop, on frames

What one turn of the executor's loop does to the list of active frames:
`Frame.step` replaces the topmost frame by the frames it returns and says
nothing about arrays, indices or instruction limits.

`iteration_spec` connects the two: as long as the array has room, one
`iteration` is one `Frame.step` followed by a single test of an
instruction limit. The soft limit is the one of a loop that goes round
again, the hard limit the one of everything else; a loop that is within
its soft limit is within the hard one too.
-/

namespace LinuxSampler

/-- The effect of one turn: `frames` replaces the topmost frame, `synced`
is added to the counter of `exec()`, and `limit` is the instruction limit
that is tested. -/
structure FrameStep (L : ScriptLang) where
  frames : List (Frame L)
  store : Store L.Global
  flags : StmtFlags := .success
  synced : Int := 0
  observed : List (VmEvent L) := []
  limit : Nat := instrPerCycleHard

section

variable {L : ScriptLang}

open ExecState (statementAt)

def Frame.branchStep (f : Frame L) (s : Store L.Global) : FrameStep L :=
  if f.subindex < 0 then { frames := [], store := s }
  else
    let (i, s) := f.statement.evalBranch s
    let observed := [VmEvent.branch f.statement i]
    match if i ≥ 0 then f.statement.branch i.toNat else none with
    | some body =>
        { frames := [.ofStatement (.list body), ⟨f.statement, -1⟩], store := s,
          observed := observed }
    | none => { frames := [], store := s, observed := observed }

def Frame.step (f : Frame L) (s : Store L.Global) : FrameStep L :=
  match f.statement with
  | .leaf leaf =>
      let r := L.execLeaf leaf s
      { frames := [], store := r.store, flags := r.flags, observed := [.leaf leaf] }
  | .list args =>
      match statementAt args f.subindex with
      | some stmt =>
          { frames := [.ofStatement stmt, ⟨.list args, f.subindex + 1⟩], store := s }
      | none => { frames := [], store := s }
  | .ifElse .. | .selectCase .. => f.branchStep s
  | .loop c body =>
      let (v, s) := L.evalInt c s
      if v ≠ 0 then
        { frames := [.ofStatement (.list body), f], store := s,
          observed := [.loop c true], limit := instrPerCycleSoft }
      else { frames := [], store := s, observed := [.loop c false] }
  | .sync body =>
      if f.subindex = 0 then
        { frames := [.ofStatement (.list body), ⟨.sync body, 1⟩], store := s, synced := 1 }
      else { frames := [], store := s, synced := -1 }
  | .noop => { frames := [f], store := s }

theorem Frame.step_limit (f : Frame L) (s : Store L.Global) :
    (f.step s).limit = instrPerCycleHard ∨
      (f.step s).limit = instrPerCycleSoft ∧ ∃ c body, f.statement = .loop c body := by
  have hbranch : (f.branchStep s).limit = instrPerCycleHard := by
    unfold Frame.branchStep
    split
    · rfl
    · rcases f.statement.evalBranch s with ⟨i, s'⟩
      dsimp only
      split <;> rfl
  obtain ⟨stmt, i⟩ := f
  cases stmt with
  | leaf leaf => exact .inl rfl
  | list args =>
      simp only [step]
      split <;> exact .inl rfl
  | ifElse c a b => exact .inl hbranch
  | selectCase e bs => exact .inl hbranch
  | loop c body =>
      simp only [step]
      split
      · exact .inr ⟨rfl, c, body, rfl⟩
      · exact .inl rfl
  | sync body =>
      simp only [step]
      split <;> exact .inl rfl
  | noop => exact .inl rfl

/-! ## What is recorded -/

/-- The events that belong to the script, not to how it is executed. -/
def VmEvent.isObserved : VmEvent L → Bool
  | .start _ | .leaf _ | .branch _ _ | .loop _ _ => true
  | .push _ | .pop _ | .overflow | .forced => false

def VmEvent.isForced : VmEvent L → Bool
  | .forced => true
  | _ => false

/-- Stack accesses within an array of `size` elements. -/
def VmEvent.InRange (size : Nat) : VmEvent L → Prop
  | .push i | .pop i => 0 ≤ i ∧ i < size
  | .overflow => False
  | .start _ | .leaf _ | .branch _ _ | .loop _ _ | .forced => True

/-- `st'` is a later state of the same call, and in between exactly the
events `observed` were observed, all stack accesses were in range and
nothing was forced. -/
structure ExecState.Extends (st st' : ExecState L) (observed : List (VmEvent L)) :
    Prop where
  size : st'.ctx.stack.length = st.ctx.stack.length
  counter : st'.instructionsCounter = st.instructionsCounter
  log : ∃ es, st'.log = st.log ++ es ∧ es.filter VmEvent.isObserved = observed ∧
    ∀ e ∈ es, e.InRange st.ctx.stack.length ∧ e ≠ .forced

namespace ExecState

/-- A change of the context that keeps the stack's size. -/
theorem Extends.of_log_eq {st st' : ExecState L}
    (hsize : st'.ctx.stack.length = st.ctx.stack.length)
    (hcounter : st'.instructionsCounter = st.instructionsCounter)
    (hlog : st'.log = st.log) : st.Extends st' [] :=
  ⟨hsize, hcounter, [], by simp [hlog], rfl, by simp⟩

theorem Extends.trans {st₁ st₂ st₃ : ExecState L} {o₁ o₂ : List (VmEvent L)}
    (h : st₁.Extends st₂ o₁) (h' : st₂.Extends st₃ o₂) :
    st₁.Extends st₃ (o₁ ++ o₂) := by
  obtain ⟨es, hlog, hobs, hrange⟩ := h.log
  obtain ⟨es', hlog', hobs', hrange'⟩ := h'.log
  refine ⟨h'.size.trans h.size, h'.counter.trans h.counter, es ++ es', ?_, ?_, ?_⟩
  · rw [hlog', hlog, List.append_assoc]
  · rw [List.filter_append, hobs, hobs']
  · intro e he
    rcases List.mem_append.mp he with he | he
    · exact hrange e he
    · rw [← h.size]
      exact hrange' e he

theorem extends_record (st : ExecState L) {e : VmEvent L}
    (hrange : e.InRange st.ctx.stack.length) (hforced : e ≠ .forced) :
    st.Extends (st.record e) ([e].filter VmEvent.isObserved) :=
  ⟨rfl, rfl, [e], rfl, rfl, by simpa using ⟨hrange, hforced⟩⟩

theorem extends_push (st : ExecState L) (stmt : Option (Statement L))
    (hnonneg : -1 ≤ st.ctx.stackFrame)
    (hroom : st.ctx.stackFrame + 1 < st.ctx.stack.length) :
    st.Extends (st.push stmt) [] := by
  have hsize : (st.ctx.pushStack stmt).stack.length = st.ctx.stack.length := by
    simp only [ExecContext.pushStack]
    split <;> simp
  have hctx : st.Extends { st with ctx := st.ctx.pushStack stmt } [] :=
    .of_log_eq hsize rfl rfl
  refine hctx.trans (extends_record _ ?_ (by simp))
  exact ⟨by omega, by rw [hsize]; exact hroom⟩

theorem extends_pop (st : ExecState L) (hnonneg : 0 ≤ st.ctx.stackFrame)
    (hroom : st.ctx.stackFrame < st.ctx.stack.length) : st.Extends st.pop [] := by
  have hsize : st.ctx.popStack.stack.length = st.ctx.stack.length := by
    simp [ExecContext.popStack]
  have hctx : st.Extends { st with ctx := st.ctx.popStack } [] :=
    .of_log_eq hsize rfl rfl
  refine hctx.trans (extends_record _ ?_ (by simp))
  exact ⟨hnonneg, by rw [hsize]; exact hroom⟩

theorem extends_setSubindex (st : ExecState L) (stmt : Statement L) (i : Int) :
    st.Extends (st.setSubindex stmt i) [] :=
  .of_log_eq (by simp [setSubindex]) rfl rfl

theorem extends_setStore (st : ExecState L) (s : Store L.Global) :
    st.Extends (st.setStore s) [] := .of_log_eq rfl rfl rfl

/-! ## Frame accesses -/

theorem pop_holds {st : ExecState L} {f : Frame L} {K : List (Frame L)}
    (h : st.ctx.Holds (f :: K)) : st.pop.ctx.Holds K ∧ st.Extends st.pop [] := by
  have hlen := h.length_le
  have hframe := h.1
  simp only [List.length_cons] at hlen hframe
  exact ⟨h.popStack, extends_pop st (by omega) (by omega)⟩

theorem push_holds {st : ExecState L} {K : List (Frame L)} (h : st.ctx.Holds K)
    (hroom : K.length < st.ctx.stack.length) (stmt : Statement L) :
    (st.push (some stmt)).ctx.Holds (.ofStatement stmt :: K) ∧
      st.Extends (st.push (some stmt)) [] := by
  have hframe := h.1
  exact ⟨h.pushStack hroom stmt, extends_push st _ (by omega) (by omega)⟩

/-- Continue the topmost frame at another position and push a frame on it. -/
theorem setSubindex_push_holds {st : ExecState L} {f : Frame L} {K : List (Frame L)}
    (h : st.ctx.Holds (f :: K)) (hroom : K.length + 1 < st.ctx.stack.length)
    (below : Frame L) (stmt : Statement L) :
    ((st.setSubindex below.statement below.subindex).push (some stmt)).ctx.Holds
        (.ofStatement stmt :: below :: K) ∧
      st.Extends ((st.setSubindex below.statement below.subindex).push (some stmt)) [] := by
  have hset : (st.setSubindex below.statement below.subindex).ctx.Holds (below :: K) :=
    h.set_top below
  obtain ⟨hpush, hext⟩ := push_holds hset (by simpa [setSubindex] using hroom) stmt
  exact ⟨hpush, (extends_setSubindex st _ _).trans hext⟩

end ExecState

/-! ## The simulation -/

/-- `st'` is what the step `r` of the topmost frame makes of `st`, before any
instruction limit is tested. -/
structure ExecState.Simulates (st : ExecState L) (K : List (Frame L)) (r : FrameStep L)
    (st' : ExecState L) : Prop where
  holds : st'.ctx.Holds (r.frames ++ K)
  store : st'.store = r.store
  flags : st'.ctx.flags = r.flags
  synced : st'.synced = st.synced + r.synced
  «extends» : st.Extends st' r.observed

namespace ExecState

theorem runLeaf_simulates {st : ExecState L} {f : Frame L} {K : List (Frame L)}
    (h : st.ctx.Holds (f :: K)) {leaf : L.Leaf} (hf : f.statement = .leaf leaf) :
    st.Simulates K (f.step st.store) (st.runLeaf leaf) := by
  have hrun : ∃ st', st'.ctx.Holds (f :: K) ∧ st.Extends st' [.leaf leaf] ∧
      st.runLeaf leaf = st'.pop ∧ st'.store = (L.execLeaf leaf st.store).store ∧
      st'.ctx.flags = (L.execLeaf leaf st.store).flags ∧ st'.synced = st.synced := by
    refine ⟨_, ?_, ?_, rfl, rfl, rfl, rfl⟩
    · exact h.congr rfl rfl
    · exact ⟨rfl, rfl, [.leaf leaf], rfl, rfl, by simp [VmEvent.InRange]⟩
  obtain ⟨st', hholds, hext, hrun, hstore, hflags, hsynced⟩ := hrun
  obtain ⟨hpop, hext'⟩ := pop_holds hholds
  have hstep : f.step st.store =
      { frames := [], store := (L.execLeaf leaf st.store).store,
        flags := (L.execLeaf leaf st.store).flags, observed := [.leaf leaf] } := by
    simp only [Frame.step, hf]
  rw [hstep, hrun]
  exact ⟨hpop, hstore, hflags, by simp [hsynced], hext.trans hext'⟩

theorem runList_simulates {st : ExecState L} {f : Frame L} {K : List (Frame L)}
    (h : st.ctx.Holds (f :: K)) (hsucc : st.ctx.flags = .success)
    (hroom : (f.step st.store).frames.length + K.length ≤ st.ctx.stack.length)
    {args : List (Statement L)} (hf : f.statement = .list args) :
    st.Simulates K (f.step st.store) (st.runList args f.subindex) := by
  simp only [Frame.step, hf] at hroom ⊢
  unfold runList
  cases hstmt : statementAt args f.subindex with
  | some stmt =>
      simp only [hstmt, List.length_cons, List.length_nil] at hroom ⊢
      obtain ⟨hholds, hext⟩ :=
        setSubindex_push_holds h (by omega) ⟨.list args, f.subindex + 1⟩ stmt
      exact ⟨hholds, by simp, by simp [hsucc], by simp, hext⟩
  | none =>
      obtain ⟨hholds, hext⟩ := pop_holds h
      exact ⟨hholds, by simp, by simp [hsucc], by simp, hext⟩

theorem runBranch_simulates {st : ExecState L} {f : Frame L} {K : List (Frame L)}
    (h : st.ctx.Holds (f :: K)) (hsucc : st.ctx.flags = .success)
    (hroom : (f.branchStep st.store).frames.length + K.length ≤ st.ctx.stack.length) :
    st.Simulates K (f.branchStep st.store) (st.runBranch f.statement f.subindex) := by
  unfold Frame.branchStep at hroom ⊢
  unfold runBranch
  by_cases hsub : f.subindex < 0
  · obtain ⟨hholds, hext⟩ := pop_holds h
    simp only [if_pos hsub]
    exact ⟨hholds, by simp, by simp [hsucc], by simp, hext⟩
  · simp only [if_neg hsub] at hroom ⊢
    have hbody := f.statement.branch_evalBranch st.store
    generalize f.statement.evalBranch st.store = r at hroom hbody ⊢
    obtain ⟨i, s⟩ := r
    -- the state with the condition evaluated
    have hext : st.Extends ((st.setStore s).record (.branch f.statement i))
        [.branch f.statement i] :=
      (extends_setStore st s).trans (extends_record _ trivial (by simp))
    have hholds : ((st.setStore s).record (.branch f.statement i)).ctx.Holds (f :: K) :=
      h.congr rfl rfl
    by_cases hi : 0 ≤ i
    · obtain ⟨body, hbody⟩ := hbody hi
      simp only [ge_iff_le, hi, if_true, hbody, Option.map_some, List.length_cons,
        List.length_nil] at hroom ⊢
      obtain ⟨hpush, hext'⟩ := setSubindex_push_holds hholds
        (by have := hext.size; omega) ⟨f.statement, -1⟩ (.list body)
      exact ⟨hpush, by simp, by simp [hsucc], by simp, hext.trans hext'⟩
    · obtain ⟨hpop, hext'⟩ := pop_holds hholds
      simp only [ge_iff_le, hi, if_false]
      exact ⟨hpop, by simp, by simp [hsucc], by simp, hext.trans hext'⟩

/-- A loop tests the soft limit itself. -/
theorem runLoop_simulates {st : ExecState L} {f : Frame L} {K : List (Frame L)}
    (h : st.ctx.Holds (f :: K)) (hsucc : st.ctx.flags = .success)
    (hroom : (f.step st.store).frames.length + K.length ≤ st.ctx.stack.length)
    {c : L.IntExpr} {body : List (Statement L)} (hf : f.statement = .loop c body) :
    ∃ st', st.Simulates K (f.step st.store) st' ∧
      ((f.step st.store).limit = instrPerCycleSoft ∧
          st.runLoop c body = st'.limit instrPerCycleSoft ∨
        (f.step st.store).limit = instrPerCycleHard ∧ st.runLoop c body = st') := by
  unfold runLoop
  rcases heval : L.evalInt c st.store with ⟨v, s⟩
  simp only [Frame.step, hf, heval] at hroom ⊢
  have hext : st.Extends ((st.setStore s).record (.loop c (v ≠ 0))) [.loop c (v ≠ 0)] :=
    (extends_setStore st s).trans (extends_record _ trivial (by simp))
  have hholds : ((st.setStore s).record (.loop c (v ≠ 0))).ctx.Holds (f :: K) :=
    h.congr rfl rfl
  by_cases hv : v ≠ 0
  · simp only [hv, ne_eq, not_false_eq_true, if_true, List.length_cons, List.length_nil,
      decide_true] at hroom hext hholds ⊢
    obtain ⟨hpush, hext'⟩ := push_holds hholds
      (by have := hext.size; simp only [List.length_cons]; omega) (.list body)
    exact ⟨_, ⟨hpush, by simp, by simp [hsucc], by simp, hext.trans hext'⟩,
      .inl ⟨trivial, rfl⟩⟩
  · obtain ⟨hpop, hext'⟩ := pop_holds hholds
    simp only [hv, if_false, decide_false] at hext hext' hpop ⊢
    exact ⟨_, ⟨hpop, by simp, by simp [hsucc], by simp, hext.trans hext'⟩,
      .inr ⟨trivial, rfl⟩⟩

theorem runSync_simulates {st : ExecState L} {f : Frame L} {K : List (Frame L)}
    (h : st.ctx.Holds (f :: K)) (hsucc : st.ctx.flags = .success)
    (hroom : (f.step st.store).frames.length + K.length ≤ st.ctx.stack.length)
    {body : List (Statement L)} (hf : f.statement = .sync body) :
    st.Simulates K (f.step st.store) (st.runSync body f.subindex) := by
  simp only [Frame.step, hf] at hroom ⊢
  unfold runSync
  by_cases hsub : f.subindex = 0
  · simp only [hsub, if_true, List.length_cons, List.length_nil] at hroom ⊢
    have hcount : st.Extends (st.addSynced 1) [] := .of_log_eq rfl rfl rfl
    have hholds : (st.addSynced 1).ctx.Holds (f :: K) := h
    obtain ⟨hpush, hext⟩ := setSubindex_push_holds hholds
      (by simp only [ctx_addSynced]; omega) ⟨.sync body, 1⟩ (.list body)
    exact ⟨hpush, by simp, by simp [hsucc], by simp,
      hcount.trans hext⟩
  · simp only [hsub, if_false]
    have hset : (st.setSubindex (.sync body) (f.subindex + 1)).ctx.Holds
        (⟨.sync body, f.subindex + 1⟩ :: K) := h.set_top ⟨.sync body, f.subindex + 1⟩
    obtain ⟨hpop, hext⟩ := pop_holds hset
    have hcount : Extends (st.setSubindex (.sync body) (f.subindex + 1)).pop
        ((st.setSubindex (.sync body) (f.subindex + 1)).pop.addSynced (-1)) [] :=
      .of_log_eq rfl rfl rfl
    exact ⟨hpop, by simp, by simp [hsucc], by simp,
      ((extends_setSubindex st _ _).trans hext).trans hcount⟩

theorem limit_of_not_exceeds {st : ExecState L} {n : Nat} (h : ¬ st.Exceeds n) :
    st.limit n = st := if_neg h

/-- The hard limit never hits after the soft one has been tested. -/
theorem limit_soft_hard (st : ExecState L) :
    (st.limit instrPerCycleSoft).limit instrPerCycleHard = st.limit instrPerCycleSoft := by
  apply limit_of_not_exceeds
  unfold limit
  split
  · rintro ⟨hflags, -⟩
    simp [forceSuspension, record, StmtFlags.suspendSignalled, StmtFlags.success] at hflags
  · rename_i h
    rintro ⟨hflags, hsynced, hcount⟩
    exact h ⟨hflags, hsynced, Nat.lt_trans (by decide) hcount⟩

/-- The switch does what `Frame.step` says, and it leaves exactly one
limit to test. -/
theorem runFrame_simulates {st : ExecState L} {f : Frame L} {K : List (Frame L)}
    (h : st.ctx.Holds (f :: K)) (hsucc : st.ctx.flags = .success)
    (hroom : (f.step st.store).frames.length + K.length ≤ st.ctx.stack.length) :
    ∃ st', st.Simulates K (f.step st.store) st' ∧
      st.runFrame.limit instrPerCycleHard = st'.limit (f.step st.store).limit := by
  have hrun : st.runFrame = st.runStatement f.subindex f.statement := by
    simp only [runFrame, h.top, Frame.toStackFrame]
  -- only a loop has another limit than the hard one
  have hlimit : (∀ c body, f.statement ≠ .loop c body) →
      (f.step st.store).limit = instrPerCycleHard := by
    intro hloop
    rcases f.step_limit st.store with h | ⟨-, c, body, hf⟩
    · exact h
    · exact absurd hf (hloop c body)
  rw [hrun]
  cases hf : f.statement with
  | leaf leaf => exact ⟨_, runLeaf_simulates h hf, by rw [hlimit (by simp [hf])]; rfl⟩
  | list args =>
      exact ⟨_, runList_simulates h hsucc hroom hf, by rw [hlimit (by simp [hf])]; rfl⟩
  | ifElse c a b =>
      have hstep : f.step st.store = f.branchStep st.store := by simp only [Frame.step, hf]
      have hsim := runBranch_simulates h hsucc (hstep ▸ hroom)
      rw [← hstep, hf] at hsim
      exact ⟨_, hsim, by rw [hlimit (by simp [hf])]; rfl⟩
  | selectCase e bs =>
      have hstep : f.step st.store = f.branchStep st.store := by simp only [Frame.step, hf]
      have hsim := runBranch_simulates h hsucc (hstep ▸ hroom)
      rw [← hstep, hf] at hsim
      exact ⟨_, hsim, by rw [hlimit (by simp [hf])]; rfl⟩
  | loop c body =>
      obtain ⟨st', hsim, ⟨hlimit, hloop⟩ | ⟨hlimit, hloop⟩⟩ :=
        runLoop_simulates h hsucc hroom hf
      · refine ⟨st', hsim, ?_⟩
        rw [hlimit, runStatement, hloop, limit_soft_hard]
      · exact ⟨st', hsim, by rw [hlimit, runStatement, hloop]⟩
  | sync body =>
      exact ⟨_, runSync_simulates h hsucc hroom hf, by rw [hlimit (by simp [hf])]; rfl⟩
  | noop =>
      have hstep : f.step st.store = { frames := [f], store := st.store } := by
        simp only [Frame.step, hf]
      rw [hstep]
      exact ⟨st, ⟨h, rfl, hsucc, (Int.add_zero _).symm, .of_log_eq rfl rfl rfl⟩, rfl⟩

/-- One turn of the loop is one `Frame.step` of the topmost frame,
followed by the test of one limit. -/
theorem iteration_spec {st : ExecState L} {f : Frame L} {K : List (Frame L)}
    (h : st.ctx.Holds (f :: K)) (hsucc : st.ctx.flags = .success)
    (hroom : (f.step st.store).frames.length + K.length ≤ st.ctx.stack.length) :
    ∃ st', st.Simulates K (f.step st.store) st' ∧
      st.runFrame.limit instrPerCycleHard = st'.limit (f.step st.store).limit ∧
      st.iteration =
        { st'.limit (f.step st.store).limit with
          instructionsCounter := st.instructionsCounter + 1 } := by
  have hlen := h.length_le
  have hframe := h.1
  simp only [List.length_cons] at hlen hframe
  obtain ⟨st', hsim, hlimit⟩ := runFrame_simulates h hsucc hroom
  refine ⟨st', hsim, hlimit, ?_⟩
  have hcounter : (st'.limit (f.step st.store).limit).instructionsCounter =
      st.instructionsCounter := by
    rw [← hsim.extends.counter]
    unfold limit
    split <;> rfl
  rw [iteration, if_neg (by omega)]
  simp only [hlimit, hcounter]

end ExecState

end

end LinuxSampler
