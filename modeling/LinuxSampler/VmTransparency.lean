import LinuxSampler.VmScriptEvent
import LinuxSampler.VmStruct

/-!
# Automatic suspension is transparent, with one exception

A run of an event that is called again as long as it was suspended is
compared with the structural execution of its handlers. A suspension by
an instruction limit leaves the frames as they are and the next call
picks them up, wherever it hits, unless it hits in the very turn that
drops the last frame (`LimitAtEnd`). The context is then suspended with
an empty stack, which the next call takes for a handler not yet started.

`resumed_run_transparent_iff` says that this is the only way in which a
run can differ from the structural execution. One direction follows the
frames (`FrameSteps`) turn by turn. For the other one it is enough to
count handler starts: `excess` is the number of starts that belong to no
handler of the event, no step decreases it and `LimitAtEnd` increases it.
-/

namespace LinuxSampler

section

variable {L : ScriptLang} {autoSuspend : Bool} {all hs : List (Statements L)} {cur : Nat}

/-! ## A turn, seen from the frames -/

/-- What a turn leaves behind: the frames, memory and observations of
`Frame.step`, and either its flags or those of a forced suspension. -/
theorem ExecState.Sound.turn {st : ExecState L} {f : Frame L} {K : List (Frame L)}
    (h : st.Sound all (f :: K)) (hsucc : st.ctx.flags = .success)
    (hflags : (f.step st.store).flags = .success) :
    st.iteration.store = (f.step st.store).store ∧
      st.iteration.log.filter VmEvent.isObserved =
        st.log.filter VmEvent.isObserved ++ (f.step st.store).observed ∧
      (st.iteration.ctx.flags = .success ∨
        st.iteration.ctx.flags = .suspendSignalled ∧
          st.synced + (f.step st.store).synced = 0 ∧
          st.instructionsCounter > (f.step st.store).limit) := by
  obtain ⟨st', hsim, -, heq⟩ := h.iteration_spec hsucc
  obtain ⟨es, hlog, hobs, -⟩ := hsim.extends.log
  rw [heq]
  by_cases hex : st'.Exceeds (f.step st.store).limit
  · have hsynced := hex.2.1
    have hcounter := hex.2.2
    rw [hsim.synced] at hsynced
    rw [hsim.extends.counter] at hcounter
    simp only [limit, if_pos hex]
    refine ⟨hsim.store, ?_, .inr ⟨rfl, hsynced, hcounter⟩⟩
    simp only [forceSuspension, record, hlog, List.filter_append, hobs]
    exact List.append_nil _
  · simp only [limit, if_neg hex]
    refine ⟨hsim.store, ?_, .inl (hsim.flags.trans hflags)⟩
    rw [hlog, List.filter_append, hobs]

/-- The bottommost frame is a handler's. -/
def BottomIsList (K : List (Frame L)) : Prop :=
  ∀ f, K.getLast? = some f → ∃ args, f.statement = .list args

theorem Frame.step_bottomIsList {f : Frame L} {K : List (Frame L)}
    (h : BottomIsList (f :: K)) (s : Store L.Global) :
    BottomIsList ((f.step s).frames ++ K) := by
  intro g hg
  cases K with
  | cons k K =>
      rw [List.getLast?_append, List.getLast?_cons, Option.some_or] at hg
      exact h g (by rw [List.getLast?_cons_cons, List.getLast?_cons, hg])
  | nil =>
      obtain ⟨args, hargs⟩ := h f rfl
      rw [List.append_nil] at hg
      rcases f.step_frames s with heq | heq | ⟨stmt, i, heq, -⟩
      · rw [heq] at hg
        cases hg
      · rw [heq] at hg
        cases hg
        exact ⟨args, hargs⟩
      · rw [heq] at hg
        cases hg
        exact ⟨args, hargs⟩

/-! ## Points of a run -/

namespace EventRun

/-- `r'` is a later point of the run than `r`, or the same. -/
def Leads (autoSuspend : Bool) (r r' : EventRun L) : Prop :=
  ∃ n, (step autoSuspend)^[n] r = r'

theorem Leads.iterate (n : Nat) (r : EventRun L) :
    Leads autoSuspend r ((step autoSuspend)^[n] r) := ⟨n, rfl⟩

theorem Leads.refl (r : EventRun L) : Leads autoSuspend r r := ⟨0, rfl⟩

theorem Leads.trans {r₁ r₂ r₃ : EventRun L} (h : Leads autoSuspend r₁ r₂)
    (h' : Leads autoSuspend r₂ r₃) : Leads autoSuspend r₁ r₃ := by
  obtain ⟨n, rfl⟩ := h
  obtain ⟨m, rfl⟩ := h'
  exact ⟨m + n, Function.iterate_add_apply _ m n r₁⟩

theorem Leads.single {r r' : EventRun L} (h : step autoSuspend r = r') :
    Leads autoSuspend r r' := ⟨1, h⟩

/-- The run is within handler `cur`, with frames `K` left to work off. -/
structure AtFrames (all hs : List (Statements L)) (cur : Nat) (r : EventRun L)
    (K : List (Frame L)) (s : Store L.Global) (t : List (VmEvent L)) : Prop where
  handlers : r.handlers = hs
  current : r.currentHandler = cur
  handler : ∃ h ∈ all, hs[cur]? = some h
  bottom : BottomIsList K
  state : ∃ st, r.mode = .running st ∧ st.Sound all K ∧ st.ctx.flags = .success ∧
    st.store = s
  observed : r.observed = t

/-- The run is about to start handler `cur`, if there is one. -/
structure AtNext (all hs : List (Statements L)) (cur : Nat) (r : EventRun L)
    (s : Store L.Global) (t : List (VmEvent L)) : Prop where
  handlers : r.handlers = hs
  current : r.currentHandler = cur
  mode : r.mode = .next .notRunning
  sound : r.execCtx.Sound all []
  flags : r.execCtx.flags = .success
  store : r.store = s
  observed : r.observed = t

/-- One turn with frames left after it: the run gets to these frames, if
necessary in the next call. -/
theorem AtFrames.turn {r : EventRun L} {f : Frame L} {K : List (Frame L)}
    {s : Store L.Global} {t : List (VmEvent L)} (h : AtFrames all hs cur r (f :: K) s t)
    (hflags : (f.step s).flags = .success) (hne : (f.step s).frames ++ K ≠ []) :
    ∃ r', Leads autoSuspend r r' ∧
      AtFrames all hs cur r' ((f.step s).frames ++ K) (f.step s).store
        (t ++ (f.step s).observed) := by
  obtain ⟨st, hmode, hsound, hsucc, rfl⟩ := h.state
  have hbottom := Frame.step_bottomIsList h.bottom st.store
  have hguard : st.Guard := by
    have := hsound.ctx.holds.1
    simp only [List.length_cons] at this
    exact ⟨hsucc, by omega⟩
  have hnext := hsound.iteration hsucc
  obtain ⟨hstore, hlog, hout⟩ := hsound.turn hsucc hflags
  -- the state after the turn
  set r₁ : EventRun L := { r with mode := .running st.iteration } with hr₁
  have hstep₁ : step autoSuspend r = r₁ := by
    simp only [step, hmode, if_pos hguard, hr₁]
  have hobs₁ : r₁.observed = t ++ (f.step st.store).observed := by
    rw [← h.observed]
    simp only [EventRun.observed, hr₁, hmode, hlog, List.append_assoc]
  rcases hout with hsucc₁ | ⟨hsusp₁, -, -⟩
  · exact ⟨r₁, .single hstep₁, h.handlers, h.current, h.handler, hbottom,
      ⟨_, rfl, hnext, hsucc₁, hstore⟩, hobs₁⟩
  · -- suspended with frames left: the next call continues with them
    obtain ⟨handler, hmem, hget⟩ := h.handler
    have hleave : st.iteration.leave =
        { st.iteration.ctx with
          status := .suspended
          flags := .success
          instructionsCount := st.iteration.instructionsCounter } := by
      simp only [ExecState.leave, hsusp₁, StmtFlags.suspendSignalled, Bool.false_eq_true,
        not_false_eq_true, and_self, if_true]
    have hctx : st.iteration.leave.Sound all ((f.step st.store).frames ++ K) := by
      rw [hleave]
      exact hnext.ctx.congr rfl rfl
    have hpos : ¬ st.iteration.leave.stackFrame < 0 := by
      rw [hctx.holds.neg_iff]
      exact hne
    have hnotGuard : ¬ st.iteration.Guard := by
      rintro ⟨hflags₁, -⟩
      rw [hsusp₁] at hflags₁
      cases hflags₁
    set r₂ : EventRun L := { r with
      execCtx := st.iteration.leave
      global := st.iteration.global
      trace := r.trace ++ st.iteration.log
      mode := .returned .suspended } with hr₂
    have hstep₂ : step autoSuspend r₁ = r₂ := by
      have hstatus : st.iteration.leave.status = .suspended := by rw [hleave]
      simp only [step, hr₁, if_neg hnotGuard, completed, hstatus, true_or, if_true, hr₂]
    set st' := ExecState.enter autoSuspend st.iteration.leave handler st.iteration.global
      with hst'
    have hst'_eq : st' =
        { ctx := { st.iteration.leave with status := .running, instructionsCount := 0 }
          global := st.iteration.global
          instructionsCounter := 0
          synced := if autoSuspend then 0 else 1
          log := [] } := by
      simp only [hst', ExecState.enter, if_neg hpos]
    have hstep₃ : step autoSuspend (step autoSuspend r₂) = { r₂ with mode := .running st' } := by
      simp only [step, hr₂, h.handlers, h.current, hget, hst']
    refine ⟨{ r₂ with mode := .running st' }, ?_, h.handlers, h.current, ⟨handler, hmem, hget⟩,
      hbottom, ⟨st', rfl, ?_, ?_, ?_⟩, ?_⟩
    · exact ⟨4, by
        simp only [Function.iterate_succ, Function.comp_apply, Function.iterate_zero, id_eq,
          hstep₁, hstep₂, hstep₃]⟩
    · have hsound' := ExecState.Sound.enter hctx hmem autoSuspend st.iteration.global
      rwa [if_neg hpos] at hsound'
    · rw [hst'_eq, hleave]
    · rw [hst'_eq, ← hstore, hleave]
      rfl
    · rw [← hobs₁]
      simp only [EventRun.observed, hr₁, hr₂, hst'_eq, List.filter_append, List.filter_nil,
        List.append_nil]

/-- The last turn of a handler: the run gets to the next handler, unless
the hard limit hits. -/
theorem AtFrames.lastTurn {r : EventRun L} {f : Frame L} {K : List (Frame L)}
    {s : Store L.Global} {t : List (VmEvent L)} (h : AtFrames all hs cur r (f :: K) s t)
    (hflags : (f.step s).flags = .success) (hnil : (f.step s).frames ++ K = [])
    (hend : ¬ r.LimitAtEnd) :
    ∃ r', Leads autoSuspend r r' ∧
      AtNext all hs (cur + 1) r' (f.step s).store (t ++ (f.step s).observed) := by
  obtain ⟨st, hmode, hsound, hsucc, rfl⟩ := h.state
  obtain ⟨hframes, rfl⟩ := List.append_eq_nil_iff.mp hnil
  obtain ⟨args, hargs⟩ := h.bottom f rfl
  have hframe : st.ctx.stackFrame = 0 := hsound.ctx.holds.1
  have hguard : st.Guard := ⟨hsucc, by omega⟩
  have hstmt : ExecState.statementAt args f.subindex = none := by
    cases hstmt : ExecState.statementAt args f.subindex with
    | none => rfl
    | some stmt =>
        simp only [Frame.step, hargs, hstmt] at hframes
        cases hframes
  have hlist : f.step st.store = { frames := [], store := st.store } := by
    simp only [Frame.step, hargs, hstmt]
  have hnext := hsound.iteration hsucc
  obtain ⟨hstore, hlog, hout⟩ := hsound.turn hsucc hflags
  rw [hframes, List.append_nil] at hnext
  have hsucc₁ : st.iteration.ctx.flags = .success := by
    rcases hout with hsucc₁ | ⟨-, hsynced, hcounter⟩
    · exact hsucc₁
    · rw [hlist] at hsynced hcounter
      refine absurd ?_ hend
      simp only [LimitAtEnd, hmode]
      refine ⟨hguard, hframe, ?_, by simpa using hsynced, hcounter⟩
      simp only [ExecState.atListEnd, hsound.ctx.holds.top, Frame.toStackFrame, hargs, hstmt,
        Option.isNone_none]
  set r₁ : EventRun L := { r with mode := .running st.iteration } with hr₁
  have hstep₁ : step autoSuspend r = r₁ := by
    simp only [step, hmode, if_pos hguard, hr₁]
  have hnotGuard : ¬ st.iteration.Guard := by
    rintro ⟨-, hpos⟩
    have := hnext.ctx.holds.1
    simp only [List.length_nil] at this
    omega
  have hleave : st.iteration.leave =
      { st.iteration.ctx.reset with
        status := .notRunning
        instructionsCount := st.iteration.instructionsCounter } := by
    simp only [ExecState.leave, hsucc₁, StmtFlags.success, Bool.false_eq_true, false_and,
      if_false]
  set r₂ : EventRun L := { r with
    currentHandler := r.currentHandler + 1
    execCtx := st.iteration.leave
    global := st.iteration.global
    trace := r.trace ++ st.iteration.log
    mode := .next .notRunning } with hr₂
  have hstep₂ : step autoSuspend r₁ = r₂ := by
    have hstatus : st.iteration.leave.status = .notRunning := by rw [hleave]
    simp only [step, hr₁, if_neg hnotGuard, completed, hstatus, reduceCtorEq, or_self,
      if_false, hr₂]
  refine ⟨r₂, ⟨2, ?_⟩, ?_⟩
  · simp only [Function.iterate_succ, Function.comp_apply, Function.iterate_zero, id_eq,
      hstep₁, hstep₂]
  · refine ⟨h.handlers, congrArg (· + 1) h.current, rfl, ?_, ?_, ?_, ?_⟩
    · change st.iteration.leave.Sound all []
      rw [hleave]
      exact hnext.ctx.reset.congr rfl rfl
    · change st.iteration.leave.flags = .success
      rw [hleave]
      rfl
    · rw [← hstore]
      change Store.mk st.iteration.global st.iteration.leave.polyphonic = _
      rw [hleave]
      rfl
    · rw [← h.observed]
      simp only [EventRun.observed, hr₂, hmode, List.filter_append, hlog, List.append_nil,
        List.append_assoc]

/-- The call that starts a handler. -/
theorem AtNext.enter {r : EventRun L} {s : Store L.Global} {t : List (VmEvent L)}
    {handler : Statements L} (h : AtNext all hs cur r s t) (hget : hs[cur]? = some handler)
    (hmem : handler ∈ all) :
    ∃ r', Leads autoSuspend r r' ∧
      AtFrames all hs cur r' [.ofStatement (.list handler)] s (t ++ [.start handler]) := by
  have hneg : r.execCtx.stackFrame < 0 := by
    have := h.sound.holds.1
    simp only [List.length_nil] at this
    omega
  have hsound := ExecState.Sound.enter h.sound hmem autoSuspend r.global
  rw [if_pos hneg] at hsound
  set st := ExecState.enter autoSuspend r.execCtx handler r.global with hst
  refine ⟨{ r with mode := .running st }, .single ?_, h.handlers, h.current,
    ⟨handler, hmem, hget⟩, ?_, ⟨st, rfl, hsound, ?_, ?_⟩, ?_⟩
  · simp only [step, h.mode, h.handlers, h.current, hget, hst]
  · intro f hf
    cases hf
    exact ⟨handler, rfl⟩
  · simp only [hst, ExecState.enter, if_pos hneg, ExecState.flags_push, ExecState.ctx_record]
    exact h.flags
  · simp only [hst, ExecState.enter, if_pos hneg, ExecState.store_push,
      ExecState.store_record]
    rw [← h.store, EventRun.store, h.mode]
    rfl
  · rw [← h.observed]
    simp only [EventRun.observed, h.mode, hst, ExecState.enter, if_pos hneg, ExecState.push,
      ExecState.record, List.nil_append, List.append_nil]
    rfl

/-! ## Whole handlers -/

/-- No point of the run is one at which the hard limit hits too late. -/
def NeverLimitAtEnd (autoSuspend : Bool) (r : EventRun L) : Prop :=
  ∀ r', Leads autoSuspend r r' → ¬ r'.LimitAtEnd

theorem NeverLimitAtEnd.leads {r r' : EventRun L} (h : NeverLimitAtEnd autoSuspend r)
    (hleads : Leads autoSuspend r r') : NeverLimitAtEnd autoSuspend r' :=
  fun r'' h' => h r'' (hleads.trans h')

/-- The frames of a handler are worked off, over as many calls as it
takes. -/
theorem AtFrames.finish {K : List (Frame L)} {s s' : Store L.Global}
    {t : List (VmEvent L)} (hsteps : FrameSteps K s t [] s') :
    ∀ {r : EventRun L} {t₀ : List (VmEvent L)}, K ≠ [] → AtFrames all hs cur r K s t₀ →
      NeverLimitAtEnd autoSuspend r →
      ∃ r', Leads autoSuspend r r' ∧ AtNext all hs (cur + 1) r' s' (t₀ ++ t) := by
  generalize hK' : ([] : List (Frame L)) = K' at hsteps
  induction hsteps with
  | refl K s => exact fun hne => absurd rfl hne
  | @head f K K' s s' t hflags hrest ih =>
      intro r t₀ _ h hnever
      by_cases hne : (f.step s).frames ++ K = []
      · obtain ⟨r', hleads, hnext⟩ :=
          h.lastTurn hflags hne (hnever r (.refl r))
        rw [hne] at hrest
        cases hrest with
        | refl =>
            rw [List.append_nil]
            exact ⟨r', hleads, hnext⟩
      · obtain ⟨r₁, hleads, h₁⟩ := h.turn hflags hne
        obtain ⟨r', hleads', hnext⟩ := ih hK' (hK' ▸ hne) h₁ (hnever.leads hleads)
        rw [← List.append_assoc]
        exact ⟨r', hleads.trans hleads', hnext⟩

/-- All handlers from the current one on are executed. -/
theorem AtNext.finish {rest : List (Statements L)} {s s' : Store L.Global}
    {t : List (VmEvent L)} (hexec : ExecutesHandlers rest s t s') :
    ∀ {r : EventRun L} {cur : Nat} {t₀ : List (VmEvent L)}, hs.drop cur = rest →
      (∀ h ∈ hs, h ∈ all) → AtNext all hs cur r s t₀ → NeverLimitAtEnd autoSuspend r →
      ∃ r', Leads autoSuspend r r' ∧ r'.mode = .returned .notRunning ∧ r'.store = s' ∧
        r'.observed = t₀ ++ t := by
  induction hexec with
  | nil =>
      intro r cur t₀ hdrop _ h _
      have hget : hs[cur]? = none :=
        List.getElem?_eq_none (List.drop_eq_nil_iff.mp hdrop)
      refine ⟨{ r with mode := .returned .notRunning }, .single ?_, rfl, ?_, ?_⟩
      · simp only [step, h.mode, h.handlers, h.current, hget]
      · rw [← h.store]
        simp only [EventRun.store, h.mode]
      · rw [← h.observed]
        simp only [EventRun.observed, h.mode, List.append_nil]
  | @cons handler rest s s₁ s₂ t₁ t₂ hhandler _ ih =>
      intro r cur t₀ hdrop hmem h hnever
      have hget : hs[cur]? = some handler := by
        have := congrArg (·[0]?) hdrop
        simpa using this
      have hrest : hs.drop (cur + 1) = rest := by
        rw [← List.drop_drop, hdrop]
        rfl
      obtain ⟨r₁, hleads₁, h₁⟩ := h.enter hget (hmem _ (List.mem_of_getElem? hget))
      obtain ⟨r₂, hleads₂, h₂⟩ := AtFrames.finish (hhandler.steps.1 []) (by simp) h₁
        (hnever.leads hleads₁)
      have hleads := hleads₁.trans hleads₂
      obtain ⟨r₃, hleads₃, hmode, hstore, hobs⟩ := ih hrest hmem h₂ (hnever.leads hleads)
      refine ⟨r₃, hleads.trans hleads₃, hmode, hstore, ?_⟩
      rw [hobs]
      simp

end EventRun

/-! ## Counting handler starts -/

def VmEvent.isStart : VmEvent L → Bool
  | .start _ => true
  | _ => false

def starts (log : List (VmEvent L)) : Nat := log.countP VmEvent.isStart

@[simp] theorem starts_append (l l' : List (VmEvent L)) :
    starts (l ++ l') = starts l + starts l' := List.countP_append

@[simp] theorem starts_cons (e : VmEvent L) (l : List (VmEvent L)) :
    starts (e :: l) = starts l + if e.isStart then 1 else 0 := List.countP_cons

@[simp] theorem starts_nil : starts ([] : List (VmEvent L)) = 0 := rfl

/-- Handler starts are among the observed events. -/
theorem starts_filter (l : List (VmEvent L)) :
    starts (l.filter VmEvent.isObserved) = starts l := by
  rw [starts, List.countP_filter]
  apply List.countP_congr
  intro e _
  cases e <;> simp [VmEvent.isStart, VmEvent.isObserved]

theorem Executes.starts {stmt : Statement L} {s s' : Store L.Global} {t : List (VmEvent L)}
    (h : Executes stmt s t s') : starts t = 0 := by
  induction h with
  | leaf _ | listNil | branchNone _ _ | loopEnd _ => rfl
  | listCons _ _ ih₁ ih₂ => rw [starts_append, ih₁, ih₂]
  | branchTaken _ _ _ _ ih => rw [starts_cons, ih]; rfl
  | loopNext _ _ _ ih₁ ih₂ => rw [starts_cons, starts_append, ih₁, ih₂]; rfl
  | sync _ ih => exact ih

/-- Structurally, every handler is started once. -/
theorem ExecutesHandlers.starts {s s' : Store L.Global} {t : List (VmEvent L)}
    (h : ExecutesHandlers hs s t s') : starts t = hs.length := by
  induction h with
  | nil => rfl
  | cons hhandler _ ih =>
      rw [starts_cons, starts_append, hhandler.starts, ih, Nat.zero_add]
      rfl

namespace ExecState

theorem starts_limit (st : ExecState L) (n : Nat) :
    starts (st.limit n).log = starts st.log := by
  unfold limit
  split
  · simp [forceSuspension, record, VmEvent.isStart]
  · rfl

@[simp] theorem starts_push (st : ExecState L) (stmt : Option (Statement L)) :
    starts (st.push stmt).log = starts st.log := by
  simp [push, record, VmEvent.isStart]

@[simp] theorem starts_pop (st : ExecState L) : starts st.pop.log = starts st.log := by
  simp [pop, record, VmEvent.isStart]

theorem starts_record (st : ExecState L) {e : VmEvent L} (h : e.isStart = false) :
    starts (st.record e).log = starts st.log := by
  simp [record, h]

/-- Only `enter` starts handlers. -/
theorem starts_runStatement (st : ExecState L) (i : Int) (stmt : Statement L) :
    starts (st.runStatement i stmt).log = starts st.log := by
  have hbranch : ∀ stmt, starts (st.runBranch stmt i).log = starts st.log := by
    intro stmt
    unfold runBranch
    split
    · exact starts_pop st
    · rcases stmt.evalBranch st.store with ⟨v, s⟩
      dsimp only
      split
      · rw [starts_push]
        exact starts_record (st.setStore s) rfl
      · rw [starts_pop]
        exact starts_record (st.setStore s) rfl
  cases stmt with
  | leaf leaf =>
      simp only [runStatement, runLeaf, starts_pop]
      exact starts_record (st.setStore _) rfl
  | list args =>
      simp only [runStatement, runList]
      split
      · rw [starts_push]
        rfl
      · exact starts_pop st
  | ifElse c a b => exact hbranch _
  | selectCase e bs => exact hbranch _
  | loop c body =>
      simp only [runStatement, runLoop]
      split
      · rw [starts_limit, starts_push]
        exact starts_record (st.setStore _) rfl
      · rw [starts_pop]
        exact starts_record (st.setStore _) rfl
  | sync body =>
      simp only [runStatement, runSync]
      split
      · rw [starts_push]
        rfl
      · exact starts_pop (st.setSubindex _ _)
  | noop => rfl

theorem starts_iteration (st : ExecState L) :
    starts st.iteration.log = starts st.log := by
  unfold iteration
  split
  · exact starts_record _ rfl
  · have hrun : starts st.runFrame.log = starts st.log := by
      unfold runFrame
      split
      · exact starts_runStatement st _ _
      · rfl
      · rfl
    exact (starts_limit st.runFrame _).trans hrun

theorem starts_enter (autoSuspend : Bool) (ctx : ExecContext L) (h : Statements L)
    (global : L.Global) :
    starts (enter autoSuspend ctx h global).log = if ctx.stackFrame < 0 then 1 else 0 := by
  unfold enter
  by_cases hneg : ctx.stackFrame < 0
  · simp only [if_pos hneg, starts_push]
    rfl
  · simp only [if_neg hneg]
    rfl

end ExecState

namespace EventRun

/-- Whether the current handler has been started. -/
def pending (r : EventRun L) : Int :=
  match r.mode with
  | .running _ => 1
  | .next _ | .returned _ => if r.execCtx.stackFrame ≥ 0 then 1 else 0

/-- Handler starts beyond one for each handler reached. -/
def excess (r : EventRun L) : Int := starts r.observed - r.currentHandler - r.pending

theorem pending_running {r : EventRun L} {st : ExecState L} (h : r.mode = .running st) :
    r.pending = 1 := by
  simp only [pending, h]

/-- The context a call leaves is either suspended or has an empty stack. -/
theorem leave_cases (st : ExecState L) :
    st.leave.status = .suspended ∨ st.leave.stackFrame = -1 := by
  unfold ExecState.leave
  split
  · exact .inl rfl
  · exact .inr rfl

/-- A completed call observes nothing new, and no handler start gets lost. -/
theorem excess_completed (r : EventRun L) (st : ExecState L) (hmode : r.mode = .running st) :
    r.excess ≤ (r.completed st).excess := by
  have hobs : (r.completed st).observed = r.observed := by
    unfold completed
    dsimp only
    split <;> simp [EventRun.observed, hmode]
  have hpending : (r.completed st).currentHandler + (r.completed st).pending ≤
      r.currentHandler + 1 := by
    unfold completed
    by_cases hstop : st.leave.status = .suspended ∨ st.leave.status = .error
    · simp only [if_pos hstop, pending]
      split <;> omega
    · have hreset := (leave_cases st).resolve_left fun h => hstop (.inl h)
      simp [if_neg hstop, pending, hreset]
  simp only [excess, hobs, pending_running hmode]
  omega

theorem excess_step (r : EventRun L) : r.excess ≤ (step autoSuspend r).excess := by
  unfold step
  split
  · rename_i res hmode
    split
    · simp [excess, pending, observed, hmode]
    · rename_i h _
      have hstart := ExecState.starts_enter autoSuspend r.execCtx h r.global
      simp only [excess, pending, observed, hmode, starts_append, starts_filter, starts_nil,
        hstart]
      split <;> split <;> omega
  · rename_i st hmode
    split
    · have hiter := ExecState.starts_iteration st
      simp [excess, pending, observed, hmode, starts_filter, hiter]
    · exact excess_completed r st hmode
  · rename_i hmode
    simp [excess, pending, observed, hmode]
  · exact Int.le_refl _

theorem excess_leads {r r' : EventRun L} (h : Leads autoSuspend r r') :
    r.excess ≤ r'.excess := by
  obtain ⟨n, rfl⟩ := h
  induction n with
  | zero => exact Int.le_refl _
  | succ n ih =>
      rw [Function.iterate_succ_apply']
      exact Int.le_trans ih (excess_step _)

/-- The exception: the handler is done, but the context looks as if it had
not been started. -/
theorem LimitAtEnd.excess {r : EventRun L} (h : r.LimitAtEnd) (autoSuspend : Bool) :
    r.excess + 1 ≤ (step autoSuspend (step autoSuspend r)).excess := by
  unfold LimitAtEnd at h
  split at h
  · rename_i st hmode
    obtain ⟨hguard, hframe, hend, hsynced, hcounter⟩ := h
    have hpop : st.runFrame = st.pop := by
      unfold ExecState.runFrame
      unfold ExecState.atListEnd at hend
      split at hend
      · rename_i args i htop
        simp only [htop, ExecState.runStatement, ExecState.runList,
          Option.isNone_iff_eq_none.mp hend]
      · cases hend
    have hroom : ¬ st.ctx.stackFrame ≥ st.ctx.stack.length := by
      unfold ExecState.atListEnd at hend
      split at hend
      · rename_i htop
        obtain ⟨hlt, -⟩ := List.getElem?_eq_some_iff.mp htop
        omega
      · cases hend
    have hex : st.pop.Exceeds instrPerCycleHard := ⟨hguard.1, hsynced, hcounter⟩
    have hiter : st.iteration.ctx.flags = .suspendSignalled ∧
        st.iteration.ctx.stackFrame = -1 := by
      rw [ExecState.iteration, if_neg hroom, hpop]
      simp only [ExecState.limit, if_pos hex]
      refine ⟨rfl, ?_⟩
      change st.ctx.stackFrame - 1 = -1
      omega
    have hnotGuard : ¬ st.iteration.Guard := fun hg => by
      have := hg.2
      omega
    have hleave : st.iteration.leave.status = .suspended ∧
        st.iteration.leave.stackFrame = -1 := by
      simp only [ExecState.leave, hiter.1, StmtFlags.suspendSignalled, Bool.false_eq_true,
        not_false_eq_true, and_self, if_true, hiter.2]
    have hstarts := ExecState.starts_iteration st
    simp only [step, hmode, if_pos hguard, if_neg hnotGuard, completed, hleave.1, true_or,
      if_true, EventRun.excess, pending, observed, starts_append, starts_filter, hstarts,
      hleave.2, List.filter_append, starts_nil]
    simp
  · exact h.elim
  · exact h.elim

/-! ## The end of a run -/

theorem handlers_step (r : EventRun L) : (step autoSuspend r).handlers = r.handlers := by
  unfold step completed
  dsimp only
  split
  · split <;> rfl
  · split
    · rfl
    · split <;> rfl
  · rfl
  · rfl

/-- A run only comes to its end after the last handler. -/
def Exhausted (r : EventRun L) : Prop :=
  r.mode = .returned .notRunning → r.handlers.length ≤ r.currentHandler

theorem exhausted_step {r : EventRun L} (h : r.Exhausted) :
    (step autoSuspend r).Exhausted := by
  unfold step
  split
  · split
    · rename_i hnone
      exact fun _ => List.getElem?_eq_none_iff.mp hnone
    · exact fun hmode => by cases hmode
  · rename_i st _
    split
    · exact fun hmode => by cases hmode
    · unfold completed
      dsimp only
      split
      · rename_i hstop
        intro hmode
        rw [EventMode.returned.injEq] at hmode
        rw [hmode] at hstop
        rcases hstop with hstop | hstop <;> cases hstop
      · exact fun hmode => by cases hmode
  · exact fun hmode => by cases hmode
  · exact h

theorem exhausted_leads {r r' : EventRun L} (h : Leads autoSuspend r r')
    (hexhausted : r.Exhausted) : r'.Exhausted ∧ r'.handlers = r.handlers := by
  obtain ⟨n, rfl⟩ := h
  induction n with
  | zero => exact ⟨hexhausted, rfl⟩
  | succ n ih =>
      rw [Function.iterate_succ_apply']
      exact ⟨exhausted_step ih.1, (handlers_step _).trans ih.2⟩

/-- Of two later points of a run one is later than the other. -/
theorem Leads.total {r r₁ r₂ : EventRun L} (h₁ : Leads autoSuspend r r₁)
    (h₂ : Leads autoSuspend r r₂) :
    Leads autoSuspend r₁ r₂ ∨ Leads autoSuspend r₂ r₁ := by
  obtain ⟨n, rfl⟩ := h₁
  obtain ⟨m, rfl⟩ := h₂
  rcases Nat.le_total n m with hle | hle
  · exact .inl ⟨m - n, by rw [← Function.iterate_add_apply, Nat.sub_add_cancel hle]⟩
  · exact .inr ⟨n - m, by rw [← Function.iterate_add_apply, Nat.sub_add_cancel hle]⟩

/-- Nothing comes after the end. -/
theorem Leads.of_end {r r' : EventRun L} (h : Leads autoSuspend r r')
    (hmode : r.mode = .returned .notRunning) : r' = r := by
  obtain ⟨n, rfl⟩ := h
  apply Function.iterate_fixed
  simp only [step, hmode]

/-- The run comes to its end, and what it did and left behind is `t` and
`s`. -/
def EndsWith (autoSuspend : Bool) (r : EventRun L) (t : List (VmEvent L))
    (s : Store L.Global) : Prop :=
  ∃ r', Leads autoSuspend r r' ∧ r'.mode = .returned .notRunning ∧ r'.observed = t ∧
    r'.store = s

end EventRun

/-- A context no handler is executed in. -/
structure ExecContext.Fresh (all : List (Statements L)) (ctx : ExecContext L) : Prop where
  size : ctx.stack.length = requiredMaxStackSizeForHandlers all
  stackFrame : ctx.stackFrame = -1
  flags : ctx.flags = .success

theorem ExecContext.Fresh.create (sizes : PolyphonicSizes) (all : List (Statements L)) :
    (createExecContext sizes all).Fresh all :=
  ⟨by simp [createExecContext], rfl, rfl⟩

namespace EventRun

/-- After the exception there has been a handler start too many. -/
theorem not_endsWith_of_limitAtEnd {ctx : ExecContext L} {global : L.Global}
    {t : List (VmEvent L)} {s s' : Store L.Global} {r : EventRun L}
    (hframe : ctx.stackFrame = -1) (hexec : ExecutesHandlers hs s t s')
    (hr : Leads autoSuspend (start hs ctx global) r) (hlimit : r.LimitAtEnd) :
    ¬ EndsWith autoSuspend (start hs ctx global) t s' := by
  rintro ⟨r', hleads, hmode, hobs, -⟩
  have htwo : Leads autoSuspend r (step autoSuspend (step autoSuspend r)) := ⟨2, rfl⟩
  -- the end comes after the turn in question
  have hafter : Leads autoSuspend (step autoSuspend (step autoSuspend r)) r' := by
    rcases (hr.trans htwo).total hleads with h | h
    · exact h
    · rw [h.of_end hmode]
      exact .refl r'
  have hstart : (start hs ctx global).excess = 0 := by
    simp [excess, pending, EventRun.observed, start, hframe]
  have hlow := excess_leads hr
  have hstep := hlimit.excess autoSuspend
  have hhigh := excess_leads hafter
  have hexhausted := exhausted_leads hleads (fun h => by cases h)
  have hcurrent := hexhausted.1 hmode
  rw [hexhausted.2] at hcurrent
  have hpending : 0 ≤ r'.pending := by
    unfold pending
    split
    · decide
    · split <;> decide
    · split <;> decide
  have hfinal : r'.excess = hs.length - r'.currentHandler - r'.pending := by
    rw [excess, hobs, hexec.starts]
  have hlen : (start hs ctx global).handlers.length = hs.length := rfl
  omega

end EventRun

open EventRun in
/-- A run of the handlers `hs` of an event, resumed whenever it was
suspended, does what the structural execution of these handlers does, if
and only if the hard limit never hits in the turn that drops a handler's
last frame. -/
theorem resumed_run_transparent_iff {ctx : ExecContext L} {global : L.Global}
    {t : List (VmEvent L)} {s : Store L.Global} (hctx : ctx.Fresh all)
    (hmem : ∀ h ∈ hs, h ∈ all)
    (hexec : ExecutesHandlers hs ⟨global, ctx.polyphonic⟩ t s) :
    EndsWith autoSuspend (start hs ctx global) t s ↔
      NeverLimitAtEnd autoSuspend (start hs ctx global) := by
  constructor
  · intro hends r hr hlimit
    exact not_endsWith_of_limitAtEnd hctx.stackFrame hexec hr hlimit hends
  · intro hnever
    have hnext : AtNext all hs 0 (start hs ctx global) ⟨global, ctx.polyphonic⟩ [] :=
      ⟨rfl, rfl, rfl, ⟨hctx.size, .nil_of_neg hctx.stackFrame, trivial⟩, hctx.flags, rfl, rfl⟩
    obtain ⟨r', hleads, hmode, hstore, hobs⟩ := hnext.finish hexec rfl hmem hnever
    exact ⟨r', hleads, hmode, hobs, hstore⟩

end

/-! ## A handler executed twice -/

/-- A call of a user function with a loop in it, and 103 more statements.
The body of the function is a list of its own inside the handler's. -/
def loopThenStatements : Statements counterLang :=
  .list [.loop (19 : Int) [.leaf CounterLeaf.inc]] ::
    List.replicate 103 (.leaf CounterLeaf.inc)

theorem executes_statements (k : Nat) (s : Store counterLang.Global) :
    ∃ t s', Executes (L := counterLang) (.list (List.replicate k (.leaf CounterLeaf.inc))) s
      t s' := by
  induction k generalizing s with
  | zero => exact ⟨_, _, .listNil⟩
  | succ k ih =>
      obtain ⟨t, s', hrest⟩ := ih (counterLang.execLeaf CounterLeaf.inc s).store
      exact ⟨_, _, .listCons (.leaf rfl) hrest⟩

theorem executes_countTo (n : Int) (k : Nat) :
    ∀ (i : Int) (poly : PolyphonicMemory), (n - i).toNat = k →
      ∃ t s', Executes (L := counterLang) (.loop n [.leaf CounterLeaf.inc]) ⟨i, poly⟩ t s' := by
  induction k with
  | zero =>
      intro i poly hk
      have hge : ¬ i < n := by omega
      exact ⟨_, _, .loopEnd (by simp [counterLang, hge])⟩
  | succ k ih =>
      intro i poly hk
      have hlt : i < n := by omega
      obtain ⟨t, s', hrest⟩ := ih (i + 1) poly (by omega)
      exact ⟨_, _, .loopNext (by simp [counterLang, hlt])
        (.listCons (.leaf rfl) .listNil) hrest⟩

/-- The event's handlers have all been executed. -/
def EventRun.isFinished {L : ScriptLang} (r : EventRun L) : Bool :=
  match r.mode with
  | .returned .notRunning => true
  | _ => false

/-- Nothing comes after the end, so only the points before it have to be looked at. -/
theorem EventRun.neverLimitAtEnd_of_finished {L : ScriptLang} {autoSuspend : Bool}
    {r : EventRun L} {n : Nat} (hend : ((step autoSuspend)^[n] r).isFinished = true)
    (h : ∀ r' ∈ List.iterate (step autoSuspend) r n, ¬ r'.LimitAtEnd) :
    NeverLimitAtEnd autoSuspend r := by
  have hmode : ((step autoSuspend)^[n] r).mode = .returned .notRunning := by
    unfold isFinished at hend
    split at hend
    · assumption
    · cases hend
  rintro r' ⟨k, rfl⟩
  rcases Nat.lt_or_ge k n with hk | hk
  · exact h _ (List.mem_iterate.mpr ⟨k, hk, rfl⟩)
  · obtain ⟨m, rfl⟩ := Nat.exists_eq_add_of_le hk
    rw [Nat.add_comm, Function.iterate_add_apply, (Leads.iterate m _).of_end hmode, LimitAtEnd,
      hmode]
    exact id

/-- `while ($i < 30) inc($i) end while` -/
def countToThirty : Statements counterLang := [.loop (30 : Int) [.leaf CounterLeaf.inc]]

/-- The soft limit suspends the handler in its loop, and the resumed handler does what the
structural execution does. -/
theorem resumed_run_transparent_iff_countToThirty :
    let r : EventRun counterLang :=
      .start [countToThirty] (createExecContext ⟨0, 0, 0⟩ [countToThirty]) (0 : Int)
    (∃ r', EventRun.Leads true r r' ∧ r'.execCtx.status = .suspended ∧
      r'.trace.any VmEvent.isForced = true ∧ 0 ≤ r'.execCtx.stackFrame) ∧
    ∃ t s, ExecutesHandlers [countToThirty] ⟨(0 : Int), ⟨[], [], []⟩⟩ t s ∧
      EventRun.EndsWith true r t s := by
  intro r
  obtain ⟨t, s, hloop⟩ := executes_countTo 30 30 0 ⟨[], [], []⟩ rfl
  have hexec : ExecutesHandlers [countToThirty] ⟨(0 : Int), ⟨[], [], []⟩⟩ _ s :=
    .cons (.listCons hloop .listNil) .nil
  have hnever : EventRun.NeverLimitAtEnd true r :=
    EventRun.neverLimitAtEnd_of_finished (n := 129) (by decide +kernel) (by decide +kernel)
  exact ⟨⟨_, .iterate 76 r, by decide +kernel⟩, _, s, hexec,
    (resumed_run_transparent_iff (.create _ _) (fun _ h => h) hexec).mpr hnever⟩

theorem resumed_run_repeats_handler :
    ¬ ∀ (L : ScriptLang) (all hs : List (Statements L)) (ctx : ExecContext L)
      (global : L.Global) (t : List (VmEvent L)) (s : Store L.Global),
      ctx.Fresh all → (∀ h ∈ hs, h ∈ all) →
        ExecutesHandlers hs ⟨global, ctx.polyphonic⟩ t s →
        EventRun.EndsWith true (.start hs ctx global) t s := by
  intro h
  obtain ⟨t₁, s₁, hloop⟩ := executes_countTo 19 19 0 ⟨[], [], []⟩ rfl
  obtain ⟨t₂, s₂, hrest⟩ := executes_statements 103 s₁
  have hexec : ∃ t, ExecutesHandlers [loopThenStatements] ⟨(0 : Int), ⟨[], [], []⟩⟩ t s₂ :=
    ⟨_, .cons (.listCons (.listCons hloop .listNil) hrest) .nil⟩
  obtain ⟨t, hexec⟩ := hexec
  have hlimit : ∃ r, EventRun.Leads true (.start [loopThenStatements]
      (createExecContext ⟨0, 0, 0⟩ [loopThenStatements]) (0 : Int)) r ∧ r.LimitAtEnd :=
    ⟨_, .iterate 290 _, by decide +kernel⟩
  obtain ⟨r, hleads, hlimit⟩ := hlimit
  exact EventRun.not_endsWith_of_limitAtEnd rfl hexec hleads hlimit
    (h _ _ _ _ _ _ _ (.create _ _) (fun _ hmem => hmem) hexec)

end LinuxSampler
