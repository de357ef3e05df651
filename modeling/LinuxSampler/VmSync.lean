import LinuxSampler.VmStack

/-!
# Synchronized blocks and the instruction limits

A script can ask not to be suspended automatically for the duration of a
`synchronized` block. `exec()` keeps the number of blocks it is inside of
in a local counter, and the limits are off while it is not zero.

The frames of these blocks are in the persistent stack, the counter is
not: a call that resumes inside such a block starts with the counter at
zero. So `synced` is the number of entered blocks on the stack
(`SyncInv`) exactly in those calls that start outside of all of them, and
for these the limits do what they should (`limits_respect_sync`).
-/

namespace LinuxSampler

section

variable {L : ScriptLang}

/-! ## Synchronized blocks on the stack -/

def Statement.isSyncBlock : Statement L → Bool
  | .sync _ => true
  | _ => false

/-- The frames up to the current index. -/
def ExecContext.activeFrames (ctx : ExecContext L) : List (StackFrame L) :=
  ctx.stack.take (ctx.stackFrame + 1).toNat

def StackFrame.isSyncBlock (f : StackFrame L) : Bool :=
  f.statement.any Statement.isSyncBlock

/-- A block whose body has been pushed. -/
def StackFrame.isEnteredSyncBlock (f : StackFrame L) : Bool :=
  f.isSyncBlock && f.subindex != 0

def ExecContext.SyncOnStack (ctx : ExecContext L) : Prop :=
  ∃ f ∈ ctx.activeFrames, f.isSyncBlock

/-- The context was suspended outside of all synchronized blocks. -/
def ExecContext.OutsideSync (ctx : ExecContext L) : Prop :=
  ∀ f ∈ ctx.activeFrames, f.isEnteredSyncBlock = false

theorem ExecContext.Holds.activeFrames {ctx : ExecContext L} {K : List (Frame L)}
    (h : ctx.Holds K) : ctx.activeFrames = K.reverse.map Frame.toStackFrame := by
  obtain ⟨hframe, unused, hstack⟩ := h
  have hlen : (ctx.stackFrame + 1).toNat = (K.reverse.map Frame.toStackFrame).length := by
    simp only [hframe, List.length_map, List.length_reverse]
    omega
  rw [ExecContext.activeFrames, hlen, hstack, List.take_left]

/-- A property of the active frames, read off the list they are held as. -/
theorem ExecContext.Holds.mem_activeFrames {ctx : ExecContext L} {K : List (Frame L)}
    (h : ctx.Holds K) {f : StackFrame L} :
    f ∈ ctx.activeFrames ↔ ∃ g ∈ K, g.toStackFrame = f := by
  simp [h.activeFrames]

/-! ## What a turn does to them -/

/-- The frame is one of a synchronized block that has been entered. -/
def Frame.isEntered (f : Frame L) : Bool := f.toStackFrame.isEnteredSyncBlock

def Frame.isSyncBlock (f : Frame L) : Bool := f.toStackFrame.isSyncBlock

@[simp] theorem Frame.isSyncBlock_mk (stmt : Statement L) (i : Int) :
    Frame.isSyncBlock ⟨stmt, i⟩ = stmt.isSyncBlock := rfl

@[simp] theorem Frame.isEntered_mk (stmt : Statement L) (i : Int) :
    Frame.isEntered ⟨stmt, i⟩ = (stmt.isSyncBlock && i != 0) := rfl

@[simp] theorem Statement.isSyncBlock_list (args : List (Statement L)) :
    (Statement.list args).isSyncBlock = false := rfl

@[simp] theorem Statement.isSyncBlock_loop (c : L.IntExpr) (body : List (Statement L)) :
    (Statement.loop c body).isSyncBlock = false := rfl

@[simp] theorem Statement.isSyncBlock_sync (body : List (Statement L)) :
    (Statement.sync body).isSyncBlock = true := rfl

/-- The counter follows the frames. -/
theorem Frame.step_synced (f : Frame L) (s : Store L.Global) :
    ((f.step s).frames.countP Frame.isEntered : Int) =
      (if f.isEntered then 1 else 0) + (f.step s).synced := by
  have hbranch : f.statement.isSyncBlock = false →
      ((f.branchStep s).frames.countP Frame.isEntered : Int) =
        (if f.isEntered then 1 else 0) + (f.branchStep s).synced := by
    intro hsync
    have hf : f.isEntered = false := by
      obtain ⟨stmt, i⟩ := f
      simp [show stmt.isSyncBlock = false from hsync]
    unfold Frame.branchStep
    split
    · simp [hf]
    · rcases f.statement.evalBranch s with ⟨i, s'⟩
      dsimp only
      split
      · simp [hf, hsync]
      · simp [hf]
  obtain ⟨stmt, i⟩ := f
  cases stmt with
  | leaf leaf => rfl
  | list args =>
      simp only [step]
      cases ExecState.statementAt args i with
      | none => rfl
      | some stmt => simp
  | ifElse c a b => exact hbranch rfl
  | selectCase e bs => exact hbranch rfl
  | loop c body =>
      simp only [step]
      split <;> rfl
  | sync body =>
      simp only [step]
      split
      · rename_i hi
        subst hi
        rfl
      · rename_i hi
        simp [hi]
  | noop => rfl

/-- Only the topmost frame can be one of a block not entered yet. -/
def EnteredBelowTop (K : List (Frame L)) : Prop :=
  ∀ f ∈ K.tail, f.isSyncBlock → f.isEntered

/-- A frame that a turn continues is not one of a block it has not entered. -/
theorem Frame.step_below (f : Frame L) (s : Store L.Global) :
    ∀ g ∈ (f.step s).frames.tail, g.isSyncBlock → g.isEntered := by
  have hbranch : f.statement.isSyncBlock = false →
      ∀ g ∈ (f.branchStep s).frames.tail, g.isSyncBlock → g.isEntered := by
    intro hsync
    unfold Frame.branchStep
    split
    · simp
    · rcases f.statement.evalBranch s with ⟨i, s'⟩
      dsimp only
      split
      · simp [hsync]
      · simp
  obtain ⟨stmt, i⟩ := f
  cases stmt with
  | leaf leaf => simp [step]
  | list args =>
      simp only [step]
      cases ExecState.statementAt args i with
      | none => simp
      | some stmt => simp
  | ifElse c a b => exact hbranch rfl
  | selectCase e bs => exact hbranch rfl
  | loop c body =>
      simp only [step]
      split <;> simp
  | sync body =>
      simp only [step]
      split <;> simp
  | noop => simp [step]

theorem Frame.step_enteredBelowTop {f : Frame L} {K : List (Frame L)}
    (h : EnteredBelowTop (f :: K)) (s : Store L.Global) :
    EnteredBelowTop ((f.step s).frames ++ K) := by
  have hbelow := f.step_below s
  intro g hg
  rcases hframes : (f.step s).frames with _ | ⟨top, below⟩
  · rw [hframes] at hg
    exact h g (List.mem_of_mem_tail hg)
  · rw [hframes] at hg hbelow
    rcases List.mem_append.mp hg with hg | hg
    · exact hbelow g hg
    · exact h g hg

/-- The frame of a block that has not been entered comes from a statement list. -/
theorem Frame.step_top_sync {f : Frame L} {s : Store L.Global} {top : Frame L}
    {below : List (Frame L)} (h : (f.step s).frames = top :: below)
    (hsync : top.isSyncBlock) :
    (∃ args stmt, f.statement = .list args ∧
        ExecState.statementAt args f.subindex = some stmt ∧ stmt.isSyncBlock) ∧
      (f.step s).synced = 0 ∧ (f.step s).limit = instrPerCycleHard := by
  have hlist : ∀ body : List (Statement L),
      (Frame.ofStatement (.list body)).isSyncBlock = false := fun _ => rfl
  have hbranch : (f.branchStep s).frames ≠ top :: below := by
    intro hbr
    unfold Frame.branchStep at hbr
    split at hbr
    · cases hbr
    · rcases f.statement.evalBranch s with ⟨i, s'⟩
      dsimp only at hbr
      split at hbr
      · cases hbr
        simp [hlist] at hsync
      · cases hbr
  obtain ⟨stmt, i⟩ := f
  cases stmt with
  | leaf leaf => cases h
  | list args =>
      simp only [step] at h ⊢
      cases hstmt : ExecState.statementAt args i with
      | none =>
          rw [hstmt] at h
          cases h
      | some stmt =>
          rw [hstmt] at h
          cases h
          exact ⟨⟨args, stmt, rfl, hstmt, hsync⟩, rfl, rfl⟩
  | ifElse c a b => exact absurd h hbranch
  | selectCase e bs => exact absurd h hbranch
  | loop c body =>
      simp only [step] at h
      split at h
      · cases h
        simp [hlist] at hsync
      · cases h
  | sync body =>
      simp only [step] at h
      split at h
      · cases h
        simp [hlist] at hsync
      · cases h
  | noop =>
      cases h
      cases hsync

/-! ## The counter is the number of entered blocks -/

/-- The invariant of a call that started outside of all synchronized
blocks. -/
structure SyncInv (st : ExecState L) (K : List (Frame L)) : Prop where
  synced : st.synced = K.countP Frame.isEntered
  below : EnteredBelowTop K
  forced : st.ctx.flags = .success → .forced ∉ st.log

theorem ExecContext.Holds.outsideSync {ctx : ExecContext L} {K : List (Frame L)}
    (h : ctx.Holds K) (hout : ctx.OutsideSync) : K.countP Frame.isEntered = 0 := by
  rw [List.countP_eq_zero]
  intro f hf
  simp only [Frame.isEntered, hout _ (h.mem_activeFrames.mpr ⟨f, hf, rfl⟩),
    Bool.false_eq_true, not_false_eq_true]

theorem ExecContext.Holds.syncOnStack {ctx : ExecContext L} {K : List (Frame L)}
    (h : ctx.Holds K) : ctx.SyncOnStack ↔ ∃ f ∈ K, f.isSyncBlock := by
  constructor
  · rintro ⟨g, hg, hsync⟩
    obtain ⟨f, hf, rfl⟩ := h.mem_activeFrames.mp hg
    exact ⟨f, hf, hsync⟩
  · rintro ⟨f, hf, hsync⟩
    exact ⟨f.toStackFrame, h.mem_activeFrames.mpr ⟨f, hf, rfl⟩, hsync⟩

namespace ExecState

/-- Whether the limit forced a suspension is the outcome of its test. -/
theorem forced_mem_limit {st : ExecState L} {n : Nat} (h : .forced ∉ st.log) :
    .forced ∈ (st.limit n).log ↔ st.Exceeds n := by
  unfold limit
  split
  · rename_i hex
    simp [forceSuspension, record, hex]
  · rename_i hex
    simp [h, hex]

theorem Simulates.forced_not_mem {st st' : ExecState L} {K : List (Frame L)}
    {r : FrameStep L} (hsim : st.Simulates K r st') (h : .forced ∉ st.log) :
    .forced ∉ st'.log := by
  obtain ⟨es, hlog, -, hes⟩ := hsim.extends.log
  rw [hlog]
  intro hmem
  rcases List.mem_append.mp hmem with hmem | hmem
  · exact h hmem
  · exact (hes _ hmem).2 rfl

end ExecState

theorem SyncInv.enter {hs : List (Statements L)} {ctx : ExecContext L} {K : List (Frame L)}
    (hctx : ctx.Sound hs K) (hbelow : EnteredBelowTop K) (hout : ctx.OutsideSync)
    (handler : Statements L) (global : L.Global) :
    SyncInv (ExecState.enter true ctx handler global)
      (if ctx.stackFrame < 0 then [.ofStatement (.list handler)] else K) := by
  have hcount := hctx.holds.outsideSync hout
  unfold ExecState.enter
  by_cases hneg : ctx.stackFrame < 0
  · simp only [if_pos hneg]
    refine ⟨rfl, by simp [EnteredBelowTop], fun _ => ?_⟩
    simp [ExecState.push, ExecState.record]
  · simp only [if_neg hneg]
    exact ⟨by simp [hcount], hbelow, fun _ => by simp⟩

/-- The state the limit is tested in, after a turn from a state with the
invariant. -/
theorem SyncInv.simulates {st st' : ExecState L} {f : Frame L} {K : List (Frame L)}
    (h : SyncInv st (f :: K)) (hsim : st.Simulates K (f.step st.store) st') :
    st'.synced = ((f.step st.store).frames ++ K).countP Frame.isEntered := by
  have hstep := f.step_synced st.store
  rw [hsim.synced, h.synced, List.countP_append, List.countP_cons]
  push_cast
  rw [hstep]
  split <;> omega

theorem SyncInv.iteration {hs : List (Statements L)} {st : ExecState L} {f : Frame L}
    {K : List (Frame L)} (h : SyncInv st (f :: K)) (hsound : st.Sound hs (f :: K))
    (hsucc : st.ctx.flags = .success) :
    SyncInv st.iteration ((f.step st.store).frames ++ K) := by
  obtain ⟨st', hsim, -, heq⟩ := hsound.iteration_spec hsucc
  rw [heq]
  refine ⟨?_, Frame.step_enteredBelowTop h.below st.store, fun hflags => ?_⟩
  · have hlimit : (st'.limit (f.step st.store).limit).synced = st'.synced := by
      unfold ExecState.limit
      split <;> rfl
    exact hlimit.trans (h.simulates hsim)
  · have hforced := hsim.forced_not_mem (h.forced hsucc)
    rw [ExecState.forced_mem_limit hforced]
    intro hex
    simp only [ExecState.limit, if_pos hex] at hflags
    cases hflags

/-! ## Runs -/

/-- The turn is past the hard limit and about to push the frame of a
synchronized block, which is then on the stack but not entered. -/
def ExecState.PushesSyncAtLimit (st : ExecState L) : Prop :=
  st.synced = 0 ∧ st.instructionsCounter > instrPerCycleHard ∧
    ∃ args i stmt, st.ctx.stack[st.ctx.stackFrame.toNat]? = some ⟨some (.list args), i⟩ ∧
      ExecState.statementAt args i = some stmt ∧ stmt.isSyncBlock

def ExecState.Forced (st : ExecState L) : Prop := .forced ∈ st.log

theorem ExecState.forced_of_any {st : ExecState L} (h : st.log.any VmEvent.isForced = true) :
    st.Forced := by
  obtain ⟨e, he, hforced⟩ := List.any_eq_true.mp h
  cases e with
  | forced => exact he
  | start _ | leaf _ | branch _ _ | loop _ _ | push _ | pop _ | overflow => cases hforced

/-- What the two limits should do in the turn that `st` is about to make:
force a suspension only when no synchronized block is on the stack, and
whenever none is. A turn that the script itself ends by an abort or a
suspension is not suspended once more. -/
structure LimitsRespectSync (st : ExecState L) : Prop where
  forced_outside : st.iteration.Forced → ¬ st.iteration.ctx.SyncOnStack
  hard_applied : ¬ st.iteration.ctx.SyncOnStack → st.runFrame.ctx.flags = .success →
    st.instructionsCounter > instrPerCycleHard → st.iteration.Forced
  soft_applied : ¬ st.iteration.ctx.SyncOnStack → ∀ c body i,
    st.ctx.stack[st.ctx.stackFrame.toNat]? = some ⟨some (.loop c body), i⟩ →
      (L.evalInt c st.store).1 ≠ 0 → st.instructionsCounter > instrPerCycleSoft →
        st.iteration.Forced

/-- No synchronized block among the frames: the counter is zero. -/
theorem countP_eq_zero_of_not_syncOnStack {ctx : ExecContext L} {K : List (Frame L)}
    (h : ctx.Holds K) (hout : ¬ ctx.SyncOnStack) : K.countP Frame.isEntered = 0 := by
  rw [List.countP_eq_zero]
  intro f hf hentered
  apply hout
  refine h.syncOnStack.mpr ⟨f, hf, ?_⟩
  simp only [Frame.isEntered, StackFrame.isEnteredSyncBlock, Bool.and_eq_true] at hentered
  exact hentered.1

/-- One turn from a state with the invariant. -/
theorem SyncInv.limitsRespectSync {hs : List (Statements L)} {st : ExecState L}
    {f : Frame L} {K : List (Frame L)} (h : SyncInv st (f :: K))
    (hsound : st.Sound hs (f :: K)) (hsucc : st.ctx.flags = .success)
    (hturn : ¬ st.PushesSyncAtLimit) : LimitsRespectSync st := by
  obtain ⟨st', hsim, hrun, heq⟩ := hsound.iteration_spec hsucc
  have hholds := (hsound.iteration hsucc).ctx.holds
  have hcount := h.simulates hsim
  have hlog := hsim.forced_not_mem (h.forced hsucc)
  have hforced : st.iteration.Forced ↔ st'.Exceeds (f.step st.store).limit := by
    rw [heq]
    exact ExecState.forced_mem_limit hlog
  constructor
  · intro hf hsync
    obtain ⟨hflags, hzero, hcounter⟩ := hforced.mp hf
    have hnone : ∀ g ∈ (f.step st.store).frames ++ K, g.isEntered = false := by
      have : ((f.step st.store).frames ++ K).countP Frame.isEntered = 0 := by omega
      intro g hg
      simpa using List.countP_eq_zero.mp this g hg
    obtain ⟨g, hg, hgsync⟩ := hholds.syncOnStack.mp hsync
    -- a block that has been entered would show in the counter
    have hbelow : g ∉ ((f.step st.store).frames ++ K).tail := by
      intro htail
      have := Frame.step_enteredBelowTop h.below st.store g htail hgsync
      rw [hnone g hg] at this
      cases this
    rcases hframes : (f.step st.store).frames with _ | ⟨top, below⟩
    · rw [hframes, List.nil_append] at hg
      have := h.below g hg hgsync
      rw [hnone g (List.mem_append_right _ hg)] at this
      cases this
    · rw [hframes] at hg hbelow
      obtain rfl : g = top := by
        rcases List.mem_cons.mp hg with rfl | hg
        · rfl
        · exact absurd hg hbelow
      obtain ⟨⟨args, stmt, hlist, hstmt, hstmtsync⟩, hsynced, hlimit⟩ :=
        Frame.step_top_sync hframes hgsync
      have htop := hsound.ctx.holds.top
      rw [Frame.toStackFrame, hlist] at htop
      refine hturn ⟨?_, ?_, args, f.subindex, stmt, htop, hstmt, hstmtsync⟩
      · have := hsim.synced
        omega
      · rw [← hsim.extends.counter, ← hlimit]
        exact hcounter
  · intro hout hflags hcounter
    have hzero := countP_eq_zero_of_not_syncOnStack hholds hout
    have hsucc' : st'.ctx.flags = .success := by
      by_contra hne
      rw [ExecState.limit_of_not_exceeds fun hex => hne hex.1] at hrun
      unfold ExecState.limit at hrun
      split at hrun
      · apply hlog
        simp [← hrun, ExecState.forceSuspension, ExecState.record]
      · exact hne (hrun ▸ hflags)
    have hle : (f.step st.store).limit ≤ instrPerCycleHard := by
      rcases f.step_limit st.store with hl | ⟨hl, -⟩
      · exact Nat.le_of_eq hl
      · rw [hl]
        decide
    refine hforced.mpr ⟨hsucc', by omega, ?_⟩
    rw [hsim.extends.counter]
    omega
  · intro hout c body i htop hcond hcounter
    have hzero := countP_eq_zero_of_not_syncOnStack hholds hout
    have hf : f.statement = .loop c body := by
      rw [hsound.ctx.holds.top, Frame.toStackFrame] at htop
      simp only [Option.some.injEq, StackFrame.mk.injEq] at htop
      exact htop.1
    have hstep : (f.step st.store).flags = .success ∧
        (f.step st.store).limit = instrPerCycleSoft := by
      simp only [Frame.step, hf, ne_eq, hcond, not_false_eq_true, if_true, and_self]
    refine hforced.mpr ⟨hsim.flags.trans hstep.1, by omega, ?_⟩
    rw [hsim.extends.counter, hstep.2]
    exact hcounter

/-- The invariant of a configuration, for calls that start outside of all
synchronized blocks. -/
def Conf.SyncSound (hs : List (Statements L)) : Conf L → Prop
  | .idle ctx => ∃ K, ctx.Sound hs K ∧ EnteredBelowTop K
  | .running st => ∃ K, st.Sound hs K ∧ SyncInv st K

theorem Reach.syncSound {sizes : PolyphonicSizes} {hs : List (Statements L)}
    {turnOk : ExecState L → Prop} {c : Conf L}
    (h : Reach true sizes hs ExecContext.OutsideSync turnOk c) : c.SyncSound hs := by
  induction h with
  | create => exact ⟨[], .create sizes hs, by simp [EnteredBelowTop]⟩
  | enter global _ hmem hout ih =>
      obtain ⟨K, hK, hbelow⟩ := ih
      exact ⟨_, .enter hK hmem true global, .enter hK hbelow hout _ global⟩
  | iterate _ hguard _ ih =>
      obtain ⟨K, hK, hinv⟩ := ih
      obtain ⟨f, K, rfl⟩ := hK.of_guard hguard
      exact ⟨_, hK.iteration hguard.1, hinv.iteration hK hguard.1⟩
  | leave _ _ ih =>
      obtain ⟨K, hK, hinv⟩ := ih
      obtain ⟨K', hK', rfl | rfl⟩ := hK.leave
      · exact ⟨K', hK', hinv.below⟩
      · exact ⟨[], hK', by simp [EnteredBelowTop]⟩
  | signalAbort _ ih | resetPolyphonicData _ ih =>
      obtain ⟨K, hK, hbelow⟩ := ih
      exact ⟨K, hK.congr rfl rfl, hbelow⟩
  | @fork st child polyphonic _ _ _ _ ih ihchild =>
      obtain ⟨K, hK, hinv⟩ := ih
      obtain ⟨K', hK', -⟩ := ihchild
      have hparent : { st.ctx with polyphonic := polyphonic }.Sound hs K :=
        hK.ctx.congr rfl rfl
      exact ⟨K, hparent.forkTo hK', hinv.below⟩

/-- In a run in which no call starts inside a synchronized block, and no
turn past the hard limit pushes the frame of one, the limits suspend the
script outside of synchronized blocks, and always there. -/
theorem limits_respect_sync {sizes : PolyphonicSizes} {hs : List (Statements L)}
    {st : ExecState L}
    (h : Reach true sizes hs ExecContext.OutsideSync (fun st => ¬ st.PushesSyncAtLimit)
      (.running st))
    (hguard : st.Guard) (hturn : ¬ st.PushesSyncAtLimit) : LimitsRespectSync st := by
  obtain ⟨K, hK, hinv⟩ := h.syncSound
  obtain ⟨f, K, rfl⟩ := hK.of_guard hguard
  exact hinv.limitsRespectSync hK hguard.1 hturn

end

/-! ## `wait()` inside a synchronized block -/

/-- `synchronized  wait()  while ($i < 100)  end while  end synchronized` -/
def waitInSync : Statements counterLang :=
  [.sync [.leaf CounterLeaf.wait, .loop (100 : Int) []]]

/-- The context after `wait()`. -/
def waitInSyncSuspended : ExecContext counterLang :=
  ((ExecState.enter true (createExecContext ⟨0, 0, 0⟩ [waitInSync]) waitInSync
    (0 : Int)).turns 4).leave

/-- The resumed call, just before it goes round the loop for the 36th time. -/
def waitInSyncResumed : ExecState counterLang :=
  (ExecState.enter true waitInSyncSuspended waitInSync (0 : Int)).turns 71

theorem limits_disregard_sync_after_wait :
    ¬ ∀ (L : ScriptLang) (sizes : PolyphonicSizes) (hs : List (Statements L))
      (st : ExecState L), Reach true sizes hs (fun _ => True) (fun _ => True) (.running st) →
        st.Guard → LimitsRespectSync st := by
  intro h
  have hsuspended : Reach true ⟨0, 0, 0⟩ [waitInSync] (fun _ => True) (fun _ => True)
      (.idle waitInSyncSuspended) :=
    .leave (Reach.turns (.enter _ .create (List.mem_singleton.mpr rfl) trivial)
      (by decide +kernel) fun _ _ => trivial) (by decide +kernel)
  have hresumed : Reach true ⟨0, 0, 0⟩ [waitInSync] (fun _ => True) (fun _ => True)
      (.running waitInSyncResumed) :=
    Reach.turns (.enter _ hsuspended (List.mem_singleton.mpr rfl) trivial) (by decide +kernel)
      fun _ _ => trivial
  have hforced : waitInSyncResumed.iteration.Forced :=
    ExecState.forced_of_any (by decide +kernel)
  have hsync : waitInSyncResumed.iteration.ctx.SyncOnStack :=
    List.any_eq_true.mp (by decide +kernel)
  exact (h _ _ _ _ hresumed (by decide +kernel)).forced_outside hforced hsync

/-! ## Limits outside and inside of a block -/

/-- `while ($i < 50)  inc($i)  end while`, then
`synchronized  while ($i < 100)  end while  end synchronized` -/
def countThenSync : Statements counterLang :=
  [.loop (50 : Int) [.leaf CounterLeaf.inc], .sync [.loop (100 : Int) []]]

/-- The call after that many turns of the call before. -/
def resumeAfter (st : ExecState counterLang) (n : Nat) : ExecState counterLang :=
  .enter true (st.turns n).leave countThenSync (st.turns n).global

/-- The soft limit suspends the first two calls in the first loop. -/
def countFirst : ExecState counterLang :=
  .enter true (createExecContext ⟨0, 0, 0⟩ [countThenSync]) countThenSync (0 : Int)

def countSecond : ExecState counterLang := resumeAfter countFirst 74

/-- The third call gets to the block and stays in it. -/
def countThird : ExecState counterLang := resumeAfter countSecond 72

abbrev CountReach : Conf counterLang → Prop :=
  Reach true ⟨0, 0, 0⟩ [countThenSync] ExecContext.OutsideSync fun st => ¬ st.PushesSyncAtLimit

theorem ExecState.not_pushesSyncAtLimit {L : ScriptLang} {st : ExecState L}
    (h : st.synced ≠ 0 ∨ st.instructionsCounter ≤ instrPerCycleHard) :
    ¬ st.PushesSyncAtLimit := by
  rintro ⟨hsynced, hcounter, -⟩
  omega

theorem CountReach.turns {st : ExecState counterLang} {n : Nat} (h : CountReach (.running st))
    (hround : st.goesRound n = true)
    (hturn : ∀ st' ∈ List.iterate ExecState.iteration st n,
      st'.synced ≠ 0 ∨ st'.instructionsCounter ≤ instrPerCycleHard) :
    CountReach (.running (st.turns n)) :=
  Reach.turns h hround fun st' hst' => ExecState.not_pushesSyncAtLimit (hturn st' hst')

theorem CountReach.resumeAfter {st : ExecState counterLang} {n : Nat}
    (h : CountReach (.running (st.turns n))) (hguard : ¬ (st.turns n).Guard)
    (hout : ∀ f ∈ (st.turns n).leave.activeFrames, f.isEnteredSyncBlock = false) :
    CountReach (.running (LinuxSampler.resumeAfter st n)) :=
  .enter _ (.leave h hguard) (List.mem_singleton.mpr rfl) hout

theorem countSecond_reach : CountReach (.running countSecond) := by
  have hfirst : CountReach (.running countFirst) :=
    .enter _ .create (List.mem_singleton.mpr rfl) (by unfold ExecContext.OutsideSync; decide)
  have hturns : CountReach (.running (countFirst.turns 74)) :=
    hfirst.turns (by decide +kernel) (by decide +kernel)
  exact hturns.resumeAfter (by decide +kernel) (by decide +kernel)

theorem countThird_reach : CountReach (.running countThird) := by
  have hturns : CountReach (.running (countSecond.turns 72)) :=
    countSecond_reach.turns (by decide +kernel) (by decide +kernel)
  exact hturns.resumeAfter (by decide +kernel) (by decide +kernel)

/-- The soft limit suspends a resumed call outside of the block, and the hard limit does not
suspend the next one within it. -/
theorem limits_respect_sync_resumed :
    (LimitsRespectSync (countSecond.turns 71) ∧ (countSecond.turns 71).iteration.Forced) ∧
      LimitsRespectSync (countThird.turns 230) ∧
        (countThird.turns 230).instructionsCounter > instrPerCycleHard ∧
        (countThird.turns 230).iteration.ctx.SyncOnStack ∧
        ¬ (countThird.turns 230).iteration.Forced := by
  have hsecond : LimitsRespectSync (countSecond.turns 71) :=
    limits_respect_sync (countSecond_reach.turns (by decide +kernel) (by decide +kernel))
      (by decide +kernel) (ExecState.not_pushesSyncAtLimit (by decide +kernel))
  have hthird : LimitsRespectSync (countThird.turns 230) :=
    limits_respect_sync (countThird_reach.turns (by decide +kernel) (by decide +kernel))
      (by decide +kernel) (ExecState.not_pushesSyncAtLimit (by decide +kernel))
  have hsync : (countThird.turns 230).iteration.ctx.SyncOnStack :=
    List.any_eq_true.mp (by decide +kernel)
  exact ⟨⟨hsecond, ExecState.forced_of_any (by decide +kernel)⟩, hthird, by decide +kernel, hsync,
    fun hforced => hthird.forced_outside hforced hsync⟩

end LinuxSampler
