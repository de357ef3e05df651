import LinuxSampler.VmStep
import Mathlib.Data.List.Iterate

/-!
# The stack is large enough

`Reach` lists what can happen to an execution context between its
creation and any point of any later call of `exec()`. The invariant
carried over all of it is that the active frames `Fits` the stack: the
static bound of each frame's statement leaves room for the frames below
it. A push moves from a statement to one directly inside it, and the
bound of the outer statement exceeds the bound of the inner one.
-/

namespace LinuxSampler

section

variable {L : ScriptLang}

/-! ## Frames that fit -/

/-- Every frame could still be executed to its deepest point on a stack of `size`
frames. -/
def Fits (size : Nat) : List (Frame L) → Prop
  | [] => True
  | f :: K => requiredMaxStackSizeFor f.statement + K.length ≤ size ∧ Fits size K

theorem Fits.length_le {size : Nat} : ∀ {K : List (Frame L)}, Fits size K → K.length ≤ size
  | [], _ => Nat.zero_le _
  | f :: K, h => by
      have := requiredMaxStackSizeFor_pos f.statement
      have := h.1
      simp only [List.length_cons]
      omega

/-- What a turn can do to the frames: drop the topmost one, keep it, or
continue it with a statement directly inside it on top. -/
theorem Frame.step_frames (f : Frame L) (s : Store L.Global) :
    (f.step s).frames = [] ∨ (f.step s).frames = [f] ∨
      ∃ stmt i, (f.step s).frames = [.ofStatement stmt, ⟨f.statement, i⟩] ∧
        requiredMaxStackSizeFor stmt + 1 ≤ requiredMaxStackSizeFor f.statement := by
  have hbranch : (f.branchStep s).frames = [] ∨
      ∃ stmt i, (f.branchStep s).frames = [.ofStatement stmt, ⟨f.statement, i⟩] ∧
        requiredMaxStackSizeFor stmt + 1 ≤ requiredMaxStackSizeFor f.statement := by
    unfold Frame.branchStep
    split
    · exact .inl rfl
    · rcases f.statement.evalBranch s with ⟨i, s'⟩
      dsimp only
      split
      · rename_i body hbody
        have hle : requiredMaxStackSizeFor (.list body) + 1 ≤
            requiredMaxStackSizeFor f.statement := by
          split at hbody
          · exact requiredMaxStackSizeFor_branch hbody
          · cases hbody
        exact .inr ⟨.list body, -1, rfl, hle⟩
      · exact .inl rfl
  obtain ⟨stmt, i⟩ := f
  cases stmt with
  | leaf leaf => exact .inl rfl
  | list args =>
      simp only [step]
      cases hstmt : ExecState.statementAt args i with
      | none => exact .inl rfl
      | some stmt =>
          have hmem : stmt ∈ args := by
            unfold ExecState.statementAt at hstmt
            split at hstmt
            · cases hstmt
            · exact List.mem_of_getElem? hstmt
          have hle := requiredMaxStackSizeFor_le_of_mem hmem
          refine .inr (.inr ⟨stmt, i + 1, rfl, ?_⟩)
          simp only [requiredMaxStackSizeFor]
          omega
  | ifElse c a b => exact hbranch.imp_right .inr
  | selectCase e bs => exact hbranch.imp_right .inr
  | loop c body =>
      simp only [step]
      split
      · exact .inr (.inr ⟨.list body, i, rfl, Nat.le_refl _⟩)
      · exact .inl rfl
  | sync body =>
      simp only [step]
      split
      · exact .inr (.inr ⟨.list body, 1, rfl, Nat.le_refl _⟩)
      · exact .inl rfl
  | noop => exact .inr (.inl rfl)

/-- A turn keeps the frames within the stack. -/
theorem Frame.step_fits {size : Nat} {f : Frame L} {K : List (Frame L)}
    (h : Fits size (f :: K)) (s : Store L.Global) :
    Fits size ((f.step s).frames ++ K) := by
  obtain ⟨hf, hK⟩ := h
  rcases f.step_frames s with heq | heq | ⟨stmt, i, heq, hle⟩
  · rw [heq]
    exact hK
  · rw [heq]
    exact ⟨hf, hK⟩
  · rw [heq]
    have hdepth : requiredMaxStackSizeFor stmt + (K.length + 1) ≤ size := by
      omega
    exact ⟨hdepth, hf, hK⟩

/-! ## Contexts of a script -/

/-- The context's stack has the size allocated for `hs`, and the active
frames fit. -/
structure ExecContext.Sound (hs : List (Statements L)) (ctx : ExecContext L)
    (K : List (Frame L)) : Prop where
  size : ctx.stack.length = requiredMaxStackSizeForHandlers hs
  holds : ctx.Holds K
  fits : Fits (requiredMaxStackSizeForHandlers hs) K

namespace ExecContext.Sound

variable {hs : List (Statements L)} {ctx : ExecContext L} {K : List (Frame L)}

theorem congr {ctx' : ExecContext L} (h : ctx.Sound hs K) (hstack : ctx'.stack = ctx.stack)
    (hframe : ctx'.stackFrame = ctx.stackFrame) : ctx'.Sound hs K :=
  ⟨by rw [hstack]; exact h.size, h.holds.congr hstack hframe, h.fits⟩

theorem create (sizes : PolyphonicSizes) (hs : List (Statements L)) :
    (createExecContext sizes hs).Sound hs [] :=
  ⟨by simp [createExecContext], .nil_of_neg rfl, trivial⟩

theorem reset (h : ctx.Sound hs K) : ctx.reset.Sound hs [] :=
  ⟨by simpa [ExecContext.reset] using h.size, .nil_of_neg rfl, trivial⟩

/-- A copied stack represents the same frames. -/
theorem forkTo {child : ExecContext L} {K' : List (Frame L)} (h : ctx.Sound hs K)
    (hchild : child.Sound hs K') : (ctx.forkTo child).Sound hs K := by
  have hsize : child.stack.length = ctx.stack.length := hchild.size.trans h.size.symm
  have hstack : (ctx.forkTo child).stack = ctx.stack := copyFlatFrom_of_length_eq hsize
  exact h.congr hstack rfl

/-- The index is within the stack, and -1 is the empty stack. -/
theorem stackFrame_range (h : ctx.Sound hs K) :
    -1 ≤ ctx.stackFrame ∧ ctx.stackFrame < ctx.stack.length := by
  have hlen := h.fits.length_le
  have hframe := h.holds.1
  have hsize := h.size
  omega

end ExecContext.Sound

/-- A point within a call of `exec()`. -/
structure ExecState.Sound (hs : List (Statements L)) (st : ExecState L)
    (K : List (Frame L)) : Prop where
  ctx : st.ctx.Sound hs K
  log : ∀ e ∈ st.log, e.InRange (requiredMaxStackSizeForHandlers hs)

namespace ExecState

theorem limit_stack (st : ExecState L) (n : Nat) :
    (st.limit n).ctx.stack = st.ctx.stack ∧
      (st.limit n).ctx.stackFrame = st.ctx.stackFrame := by
  unfold limit
  split <;> exact ⟨rfl, rfl⟩

theorem mem_limit_log {st : ExecState L} {n : Nat} {e : VmEvent L}
    (h : e ∈ (st.limit n).log) : e ∈ st.log ∨ e = .forced := by
  unfold limit at h
  split at h
  · simpa [forceSuspension, record] using h
  · exact .inl h

/-- There is always room for what a turn pushes. -/
theorem Sound.iteration_spec {hs : List (Statements L)} {st : ExecState L} {f : Frame L}
    {K : List (Frame L)} (h : st.Sound hs (f :: K)) (hsucc : st.ctx.flags = .success) :
    ∃ st', st.Simulates K (f.step st.store) st' ∧
      st.runFrame.limit instrPerCycleHard = st'.limit (f.step st.store).limit ∧
      st.iteration =
        { st'.limit (f.step st.store).limit with
          instructionsCounter := st.instructionsCounter + 1 } := by
  apply ExecState.iteration_spec h.ctx.holds hsucc
  have := (f.step_fits h.ctx.fits st.store).length_le
  rw [h.ctx.size]
  simpa using this

/-- One turn keeps the invariant. -/
theorem Sound.iteration {hs : List (Statements L)} {st : ExecState L} {f : Frame L}
    {K : List (Frame L)} (h : st.Sound hs (f :: K)) (hsucc : st.ctx.flags = .success) :
    st.iteration.Sound hs ((f.step st.store).frames ++ K) := by
  have hfits := f.step_fits h.ctx.fits st.store
  obtain ⟨st', hsim, -, heq⟩ := h.iteration_spec hsucc
  obtain ⟨hstack, hframe⟩ := st'.limit_stack (f.step st.store).limit
  have hctx : st'.ctx.Sound hs ((f.step st.store).frames ++ K) :=
    ⟨hsim.extends.size.trans h.ctx.size, hsim.holds, hfits⟩
  rw [heq]
  refine ⟨hctx.congr hstack hframe, fun e he => ?_⟩
  obtain ⟨es, hlog, -, hrange⟩ := hsim.extends.log
  rcases mem_limit_log he with he | rfl
  · rw [hlog] at he
    rcases List.mem_append.mp he with he | he
    · exact h.log e he
    · rw [← h.ctx.size]
      exact (hrange e he).1
  · trivial

theorem Sound.enter {hs : List (Statements L)} {ctx : ExecContext L} {K : List (Frame L)}
    (hctx : ctx.Sound hs K) {handler : Statements L} (hmem : handler ∈ hs)
    (autoSuspend : Bool) (global : L.Global) :
    (ExecState.enter autoSuspend ctx handler global).Sound hs
      (if ctx.stackFrame < 0 then [.ofStatement (.list handler)] else K) := by
  unfold ExecState.enter
  by_cases hneg : ctx.stackFrame < 0
  · simp only [if_pos hneg]
    have hfits := requiredMaxStackSizeFor_handler hmem
    have hpos := requiredMaxStackSizeForHandlers_pos hs
    have hroom : 0 < ctx.stack.length := by rw [hctx.size]; exact hpos
    set st : ExecState L := record _ (.start handler) with hst
    have hholds : st.ctx.Holds [] := .nil_of_neg rfl
    obtain ⟨hpush, hext⟩ := push_holds hholds hroom (.list handler)
    refine ⟨⟨hext.size.trans hctx.size, hpush, hfits, trivial⟩, fun e he => ?_⟩
    obtain ⟨es, hlog, -, hrange⟩ := hext.log
    rw [hlog] at he
    rcases List.mem_append.mp he with he | he
    · simp only [hst, record, List.nil_append, List.mem_singleton] at he
      rw [he]
      trivial
    · have := (hrange e he).1
      rwa [show st.ctx.stack.length = _ from hctx.size] at this
  · simp only [if_neg hneg]
    exact ⟨hctx.congr rfl rfl, by simp⟩

theorem Sound.leave {hs : List (Statements L)} {st : ExecState L} {K : List (Frame L)}
    (h : st.Sound hs K) : ∃ K', st.leave.Sound hs K' ∧ (K' = K ∨ K' = []) := by
  unfold ExecState.leave
  split
  · exact ⟨K, h.ctx.congr rfl rfl, .inl rfl⟩
  · exact ⟨[], h.ctx.reset.congr rfl rfl, .inr rfl⟩

/-- The loop's condition and the active frames. -/
theorem Sound.of_guard {hs : List (Statements L)} {st : ExecState L} {K : List (Frame L)}
    (h : st.Sound hs K) (hguard : st.Guard) : ∃ f K', K = f :: K' := by
  cases K with
  | cons f K => exact ⟨f, K, rfl⟩
  | nil =>
      have := h.ctx.holds.1
      have := hguard.2
      simp only [List.length_nil] at *
      omega

end ExecState

/-! ## Runs -/

/-- A context between two calls of `exec()`, or within one. -/
inductive Conf (L : ScriptLang) where
  | idle (ctx : ExecContext L)
  | running (st : ExecState L)

/-- Everything that can happen to the contexts of the script `hs`. Calls
that violate `callOk` and turns that violate `turnOk` are left out. -/
inductive Reach (autoSuspend : Bool) (sizes : PolyphonicSizes) (hs : List (Statements L))
    (callOk : ExecContext L → Prop) (turnOk : ExecState L → Prop) : Conf L → Prop where
  | create : Reach autoSuspend sizes hs callOk turnOk (.idle (createExecContext sizes hs))
  | enter {ctx : ExecContext L} {h : Statements L} (global : L.Global) :
      Reach autoSuspend sizes hs callOk turnOk (.idle ctx) → h ∈ hs → callOk ctx →
        Reach autoSuspend sizes hs callOk turnOk
          (.running (ExecState.enter autoSuspend ctx h global))
  | iterate {st : ExecState L} :
      Reach autoSuspend sizes hs callOk turnOk (.running st) → st.Guard → turnOk st →
        Reach autoSuspend sizes hs callOk turnOk (.running st.iteration)
  | leave {st : ExecState L} :
      Reach autoSuspend sizes hs callOk turnOk (.running st) → ¬ st.Guard →
        Reach autoSuspend sizes hs callOk turnOk (.idle st.leave)
  | signalAbort {ctx : ExecContext L} :
      Reach autoSuspend sizes hs callOk turnOk (.idle ctx) →
        Reach autoSuspend sizes hs callOk turnOk (.idle ctx.signalAbort)
  | resetPolyphonicData {ctx : ExecContext L} :
      Reach autoSuspend sizes hs callOk turnOk (.idle ctx) →
        Reach autoSuspend sizes hs callOk turnOk (.idle ctx.resetPolyphonicData)
  /-- `fork()` is called by a leaf statement, which may already have
  written its polyphonic variables. -/
  | fork {st : ExecState L} {child : ExecContext L} (polyphonic : PolyphonicMemory) :
      Reach autoSuspend sizes hs callOk turnOk (.running st) → st.Guard →
        polyphonic.sizes = st.ctx.polyphonic.sizes →
        Reach autoSuspend sizes hs callOk turnOk (.idle child) →
        Reach autoSuspend sizes hs callOk turnOk
          (.idle ({ st.ctx with polyphonic := polyphonic }.forkTo child))

/-- The invariant of a configuration. -/
def Conf.Sound (hs : List (Statements L)) : Conf L → Prop
  | .idle ctx => ∃ K, ctx.Sound hs K
  | .running st => ∃ K, st.Sound hs K

variable {autoSuspend : Bool} {sizes : PolyphonicSizes} {hs : List (Statements L)}
  {callOk : ExecContext L → Prop} {turnOk : ExecState L → Prop}

theorem Reach.sound {c : Conf L} (h : Reach autoSuspend sizes hs callOk turnOk c) :
    c.Sound hs := by
  induction h with
  | create => exact ⟨[], .create sizes hs⟩
  | enter global _ hmem _ ih =>
      obtain ⟨K, hK⟩ := ih
      exact ⟨_, .enter hK hmem autoSuspend global⟩
  | iterate _ hguard _ ih =>
      obtain ⟨K, hK⟩ := ih
      obtain ⟨f, K, rfl⟩ := hK.of_guard hguard
      exact ⟨_, hK.iteration hguard.1⟩
  | leave _ _ ih =>
      obtain ⟨K, hK⟩ := ih
      obtain ⟨K', hK', -⟩ := hK.leave
      exact ⟨K', hK'⟩
  | signalAbort _ ih | resetPolyphonicData _ ih =>
      obtain ⟨K, hK⟩ := ih
      exact ⟨K, hK.congr rfl rfl⟩
  | @fork st child polyphonic _ _ _ _ ih ihchild =>
      obtain ⟨K, hK⟩ := ih
      obtain ⟨K', hK'⟩ := ihchild
      have hparent : { st.ctx with polyphonic := polyphonic }.Sound hs K :=
        hK.ctx.congr rfl rfl
      exact ⟨K, hparent.forkTo hK'⟩

/-- At no point of any run is a frame pushed beyond the allocated stack
or popped off an empty one. -/
theorem stack_size_sufficient {st : ExecState L}
    (h : Reach autoSuspend sizes hs callOk turnOk (.running st)) :
    st.ctx.stack.length = requiredMaxStackSizeForHandlers hs ∧
      st.ctx.stackFrame < st.ctx.stack.length ∧
      (∀ i : Int, .push i ∈ st.log → 0 ≤ i ∧ i < st.ctx.stack.length) ∧
      (∀ i : Int, .pop i ∈ st.log → 0 ≤ i ∧ i < st.ctx.stack.length) ∧
      .overflow ∉ st.log := by
  obtain ⟨K, hK⟩ := h.sound
  refine ⟨hK.ctx.size, hK.ctx.stackFrame_range.2, fun i hi => ?_, fun i hi => ?_, ?_⟩
  · rw [hK.ctx.size]
    exact hK.log _ hi
  · rw [hK.ctx.size]
    exact hK.log _ hi
  · exact fun hi => hK.log _ hi

/-- Turns that the loop of `exec()` makes. -/
theorem Reach.turns {n : Nat} : ∀ {st : ExecState L},
    Reach autoSuspend sizes hs callOk turnOk (.running st) → st.goesRound n = true →
      (∀ st' ∈ List.iterate ExecState.iteration st n, turnOk st') →
        Reach autoSuspend sizes hs callOk turnOk (.running (st.turns n)) := by
  induction n with
  | zero => exact fun h _ _ => h
  | succ n ih =>
      intro st h hround hturn
      rw [ExecState.goesRound, Bool.and_eq_true, decide_eq_true_eq] at hround
      rw [List.iterate, List.forall_mem_cons] at hturn
      exact ih (h.iterate hround.1 hturn.1) hround.2 hturn.2

/-- `while ($i < 3)  synchronized  inc($i)  end synchronized  end while` -/
def nestedHandler : Statements counterLang := [.loop (3 : Int) [.sync [.leaf CounterLeaf.inc]]]

/-- The fifth turn pushes the frame that fills the stack. -/
theorem stack_size_sufficient_nested :
    let st := (ExecState.enter true (createExecContext ⟨0, 0, 0⟩ [nestedHandler]) nestedHandler
      (0 : Int)).turns 5
    .push 5 ∈ st.log ∧ st.ctx.stack.length = 6 ∧ st.ctx.stackFrame < st.ctx.stack.length ∧
      .overflow ∉ st.log := by
  have hreach : Reach true ⟨0, 0, 0⟩ [nestedHandler] (fun _ => True) (fun _ => True)
      (.running ((ExecState.enter true (createExecContext ⟨0, 0, 0⟩ [nestedHandler])
        nestedHandler (0 : Int)).turns 5) : Conf counterLang) :=
    .turns (.enter _ .create (List.mem_singleton.mpr rfl) trivial) (by decide +kernel)
      fun _ _ => trivial
  obtain ⟨hsize, hframe, -, -, hoverflow⟩ := stack_size_sufficient hreach
  exact ⟨List.mem_of_getElem? (i := 7) rfl, hsize, hframe, hoverflow⟩

end

end LinuxSampler
