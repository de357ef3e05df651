import LinuxSampler.RtAvlRun
import LinuxSampler.ScriptRun

/-!
# The scheduler queue of a channel

Along a run that spares what is in the queue, the queue holds every
suspended execution exactly once, and nothing else. If in addition no
suspended execution is given up by a reset and nothing but executions is
aborted, every spawned handler starts at its beginning.

Neither holds of all runs. The event of a note that is still suspended in
its release handler is spawned once more at the next release of the key,
and a reset gives the events of suspended executions back to the pool
with their stacks.
-/

namespace LinuxSampler

variable {L : ScriptLang}

namespace ScriptChannel

variable {script : InstrumentScript L} {size : ℕ} {strict : Prop} {S S₀ : ScriptChannel L}
  {lists : Lists EventList} {pending : List ℕ}

def Executes (S : ScriptChannel L) (n : ℕ) : Prop :=
  ∃ e ∈ S.control.execution, e.1.event = n

/-- The queue is a search tree of events in use. Each suspended execution is
in it once, and no event was released, spawned or given another time while
it was in it. -/
structure QueueSound (S : ScriptChannel L) : Prop where
  queue : ∃ pending t twins,
    RTAVLTree.WellFormed S.scheduleTime S.suspendedEvents pending t twins ∧
      (∀ n, S.queued n = true ↔ n ∈ pending) ∧
      ∀ n, n ∈ pending ↔ S.pEvents.Allocated n ∧ (S.event n).execCtx.status = .suspended ∧
        ¬ S.Executes n
  log : ∀ entry ∈ S.log, entry.queued = false

theorem Inv.data (h : Inv script size strict S lists pending) :
    ∃ out, Data script size strict S lists pending out ∧ (∀ n ∈ out, S.Executes n) ∧
      ∀ n, S.Executes n → n ∉ pending := by
  unfold Inv at h
  unfold Executes
  cases hcontrol : S.control with
  | idle =>
      rw [hcontrol] at h
      refine ⟨[], h, fun _ hn => (nomatch hn), ?_⟩
      rintro n ⟨e, he, -⟩
      cases he
  | recycling itEvent it =>
      rw [hcontrol] at h
      refine ⟨[], h.1, fun _ hn => (nomatch hn), ?_⟩
      rintro n ⟨e, he, -⟩
      cases he
  | executing x st =>
      rw [hcontrol] at h
      refine ⟨[x.event], h.1.data, fun n hn => ⟨(x, st), rfl, (List.mem_singleton.mp hn).symm⟩, ?_⟩
      rintro n ⟨e, he, rfl⟩
      cases he
      exact h.1.notPending

theorem Inv.queueSound (h : Inv script size strict S lists pending) : S.QueueSound := by
  obtain ⟨out, hdata, hout, hexec⟩ := h.data
  obtain ⟨t, hT⟩ := hdata.queue
  refine ⟨⟨pending, t, _, hT.wellFormed, hdata.queued_iff, fun n => ?_⟩,
    fun entry hentry => (hdata.log entry hentry).1⟩
  rw [hdata.pool.allocated_iff]
  constructor
  · exact fun hn => ⟨hdata.allocated n hn, (hdata.suspended n hn).1, fun he => hexec n he hn⟩
  · rintro ⟨⟨list, hn⟩, hs, he⟩
    rcases hdata.waiting list n hn hs with hp | ho
    · exact hp
    · exact absurd (hout n ho) he

/-! ## Channels to run -/

def emptyQueue : RTAVLTree ℕ where
  root := none
  nodesCount := 0
  parent _ := none
  children _ _ := none
  prevTwin n := n
  nextTwin n := n
  balance _ := 0
  twinHead _ := true
  tree _ := false

def unusedEvent (script : InstrumentScript counterLang) : ScriptEvent counterLang (Fin 128) where
  scheduleTime := 0
  cause := 0
  id := 0
  handlers := []
  execCtx := createExecContext ⟨0, 0, 0⟩ script.handlers
  currentHandler := 0
  executionSlices := 0
  ignoreAllWaitCalls := false
  handlerType := 0
  parentHandlerID := 0
  childHandlerID := []
  autoAbortByParent := false
  forkIndex := 0

/-- A channel whose script was just loaded, with two script events. -/
def ofScript (script : InstrumentScript counterLang) : ScriptChannel counterLang where
  pEvents := .create EventList 2 0
  event _ := unusedEvent script
  suspendedEvents := emptyQueue
  global := (0 : ℤ)
  control := .idle
  log := []

theorem loaded_ofScript (script : InstrumentScript counterLang) :
    (ofScript script).Loaded script ⟨0, 0, 0⟩ 2 where
  pool := ⟨_, Pool.create_holds 2 0, fun list => by simp [Lists.putLast]⟩
  execCtx _ := rfl
  handlers _ := rfl
  root := rfl
  nodesCount := rfl
  tree _ := rfl
  control := rfl
  log := rfl

/-- `on note wait(..) end on` and `on controller inc(..) end on` -/
def waitingNotes : InstrumentScript counterLang where
  handler
    | .note => some ⟨[.leaf CounterLeaf.wait], false⟩
    | .controller => some ⟨[.leaf CounterLeaf.inc], false⟩
    | _ => none
  autoSuspend := true

/-- A release handler that waits; both handlers use polyphonic variables. -/
def waitingReleases : InstrumentScript counterLang where
  handler
    | .note => some ⟨[.leaf CounterLeaf.inc], true⟩
    | .release => some ⟨[.leaf CounterLeaf.wait], true⟩
    | _ => none
  autoSuspend := true

/-- A note whose release handler is suspended. -/
def suspendedRelease : List ChannelAction :=
  [.event ⟨60, 5, 1⟩ .note, .turn, .turn, .turn, .leave 1000 60, .event ⟨60, 7, 2⟩ .release,
    .recycle, .turn, .turn, .leave 1000 60, .recycle]

def resumedRelease : List ChannelAction :=
  suspendedRelease ++ [.resume 2000, .turn, .leave 3000 60, .resetEvents]

theorem resumedRelease_run : ∃ S,
    (ofScript waitingReleases).run waitingReleases resumedRelease = some S ∧
      RunOk waitingReleases (fun S a => S.SparesQueued a ∧ S.SparesIdle a) resumedRelease
        (ofScript waitingReleases) := by
  have hrun : ((ofScript waitingReleases).run waitingReleases resumedRelease).isSome = true := by
    decide +kernel
  obtain ⟨S, hS⟩ := Option.isSome_iff_exists.mp hrun
  exact ⟨S, hS, by decide +kernel⟩

/-! ## Runs -/

theorem run_queueSound {sizes : PolyphonicSizes} {actions : List ChannelAction}
    (hS : S₀.Loaded script sizes size) (hok : RunOk script SparesQueued actions S₀)
    (hrun : S₀.run script actions = some S) : S.QueueSound := by
  obtain ⟨lists, h⟩ : ∃ lists, Inv script size False S₀ lists [] := hS.inv
  obtain ⟨lists', pending, h'⟩ := h.run (fun _ _ ha => ha) (fun hs => hs.elim) hok hrun
  exact h'.queueSound

theorem run_queueSound_resumed : ∃ S,
    (ofScript waitingReleases).run waitingReleases resumedRelease = some S ∧ S.QueueSound := by
  obtain ⟨S, hrun, hok⟩ := resumedRelease_run
  exact ⟨S, hrun, run_queueSound (loaded_ofScript waitingReleases) (.imp (fun _ _ h => h.1) hok) hrun⟩

/-- The second release of a key writes the time of an event that is in the
queue. -/
theorem not_run_queueSound :
    ¬ ∀ (L : ScriptLang) (script : InstrumentScript L) (sizes : PolyphonicSizes) (size : ℕ)
      (S₀ S : ScriptChannel L) (actions : List ChannelAction),
      S₀.Loaded script sizes size → S₀.run script actions = some S → S.QueueSound := by
  intro h
  have hlog : ((ofScript waitingReleases).run waitingReleases
      (suspendedRelease ++ [.event ⟨60, 9, 3⟩ .release, .recycle])).map
        (fun S => S.log.any ChannelLog.queued) = some true := by decide +kernel
  obtain ⟨S, hrun, hany⟩ := Option.map_eq_some_iff.mp hlog
  obtain ⟨entry, hentry, hqueued⟩ := List.any_eq_true.mp hany
  have := (h _ _ _ _ _ S _ (loaded_ofScript waitingReleases) hrun).log entry hentry
  rw [hqueued] at this
  cases this

/-- Every handler that was spawned starts at its beginning. -/
theorem run_spawned_startsAt {sizes : PolyphonicSizes} {actions : List ChannelAction}
    (hS : S₀.Loaded script sizes size)
    (hok : RunOk script (fun S a => S.SparesQueued a ∧ S.SparesIdle a) actions S₀)
    (hrun : S₀.run script actions = some S) :
    ∀ n queued handler st, .spawned n queued handler st ∈ S.log → st.StartsAt handler := by
  obtain ⟨lists, h⟩ : ∃ lists, Inv script size True S₀ lists [] := hS.inv
  obtain ⟨lists', pending, h'⟩ := h.run (fun _ _ ha => ha.1) (fun _ _ _ ha => ha.2) hok hrun
  obtain ⟨out, hdata, -⟩ := h'.data
  exact fun n queued handler st hentry => (hdata.log _ hentry).2 trivial

theorem run_spawned_startsAt_resumed : ∃ S,
    (ofScript waitingReleases).run waitingReleases resumedRelease = some S ∧
      ∀ n queued handler st, .spawned n queued handler st ∈ S.log → st.StartsAt handler := by
  obtain ⟨S, hrun, hok⟩ := resumedRelease_run
  exact ⟨S, hrun, run_spawned_startsAt (loaded_ofScript waitingReleases) hok hrun⟩

/-- The spawn finds the first frame at a later statement. -/
def continues : ChannelLog counterLang → Bool
  | .spawned _ _ _ st => (st.ctx.stack[0]?).any (·.subindex = 1)
  | .timed _ _ | .freed _ _ => false

/-- After a reset the controller handler continues the stack of a note
handler. -/
theorem not_run_spawned_startsAt :
    ¬ ∀ (L : ScriptLang) (script : InstrumentScript L) (sizes : PolyphonicSizes) (size : ℕ)
      (S₀ S : ScriptChannel L) (actions : List ChannelAction),
      S₀.Loaded script sizes size → S₀.run script actions = some S →
        ∀ n queued handler st, .spawned n queued handler st ∈ S.log → st.StartsAt handler := by
  intro h
  have hlog : ((ofScript waitingNotes).run waitingNotes
      [.event ⟨60, 5, 1⟩ .note, .turn, .turn, .leave 1000 60, .resetEvents,
        .event ⟨0, 7, 2⟩ .controller]).map
        (fun S => S.log.any continues) = some true := by decide +kernel
  obtain ⟨S, hrun, hany⟩ := Option.map_eq_some_iff.mp hlog
  obtain ⟨entry, hentry, hcontinues⟩ := List.any_eq_true.mp hany
  cases entry with
  | spawned n queued handler st =>
      obtain ⟨-, -, unused, hstack⟩ := h _ _ _ _ _ S _ (loaded_ofScript waitingNotes) hrun n queued
        handler st hentry
      simp [continues, hstack, Frame.toStackFrame] at hcontinues
  | timed _ _ | freed _ _ => cases hcontinues

end ScriptChannel

end LinuxSampler
