import LinuxSampler.ScriptCalls

/-!
# Runs of a channel

What each action of the engine keeps, and so any run of a channel. The
conditions on a step exclude the steps after which an event is released
or executed from its start while it waits in the queue, and those that
leave a stack or an abort behind in an event that is not executed.
-/

namespace LinuxSampler

variable {L : ScriptLang}

namespace ScriptChannel

variable {script : InstrumentScript L} {size : ℕ} {strict : Prop} {S S' : ScriptChannel L}
  {lists : Lists EventList} {pending : List ℕ} {n : ℕ}

/-! ## The engine -/

theorem Data.processScriptEvent {it : Iterator EventList} {caller : Caller}
    {itEvent : MidiCause} {type : VMEventHandlerType} {handler : Statements L}
    (h : Data script size strict S lists pending [n]) (hit : it.current = .node n)
    (hn : n ∉ pending) (hlist : ∃ list, n ∈ lists (.rtlist list))
    (hfresh : strict → (S.event n).execCtx.Fresh script.handlers)
    (hhandler : handler ∈ script.handlers)
    (hkey : OnKey lists ⟨n, it, type = .note, caller⟩) :
    Inv script size strict (S.processScriptEvent script itEvent type handler it caller) lists
      pending := by
  have hqueued := h.queued_eq_false hn
  have h₁ := h.record [.timed n (S.queued n)] fun entry hentry => by
    rw [List.mem_singleton.mp hentry]
    exact ⟨hqueued, fun _ => trivial⟩
  set S₁ := S.record [.timed n (S.queued n)] with hS₁
  have h₂ := h₁.modify_out (f := .spawn itEvent type handler) hn (List.mem_singleton.mpr rfl)
    (h.sound n) fun h' hh' => by
      rw [List.mem_singleton.mp hh']
      exact hhandler
  set S₂ := S₁.modify n (.spawn itEvent type handler) with hS₂
  have hevent : S₂.event n = .spawn itEvent type handler (S.event n) := Data.modify_self _ _ _
  have h₃ := h₂.record [.spawned n (S.queued n) handler
      (ExecState.enter script.autoSuspend (S₂.event n).execCtx handler S₂.global)]
    fun entry hentry => by
      rw [List.mem_singleton.mp hentry]
      refine ⟨hqueued, fun hs => ?_⟩
      rw [hevent]
      exact (hfresh hs).startsAt hhandler _ _
  unfold ScriptChannel.processScriptEvent
  rw [Iterator.index_eq_some.mpr hit]
  refine InUse.enter (x := ⟨n, it, type = .note, caller⟩) ⟨h₃, hn, hlist, ?_⟩ hit hkey hhandler
  show (S₂.event n).handler ≠ none
  rw [hevent]
  exact Option.some_ne_none _

/-- The caller is not the loop over the events of a key. -/
theorem onKey_of_ne {x : Execution} (hx : ∀ itEvent, x.caller ≠ .recycled itEvent) :
    OnKey lists x :=
  fun itEvent h => absurd h (hx itEvent)

theorem Data.processEventByScript {itEvent : MidiCause} {type : VMEventHandlerType}
    {pEventHandler : VMEventHandler L} (h : Data script size strict S lists pending [])
    (hhandler : pEventHandler.statements ∈ script.handlers)
    (hrun : S.processEventByScript script itEvent type pEventHandler = some S') :
    ∃ lists', Inv script size strict S' lists' pending := by
  unfold ScriptChannel.processEventByScript at hrun
  split at hrun
  · -- the loop starts at the first event of the key
    cases hrun
    have hcur := h.pool.linked.next_begin (.rtlist (.key itEvent.key))
    have hmut := (DoublyLinked.Represents.mutual h.pool.linked
      (i := .rtlist (.key itEvent.key)) (A := []) (List.nil_append _).symm rfl hcur).2
    refine ⟨lists, h.continueWith _, [], _, (List.nil_append _).symm, hcur, ?_⟩
    rw [Pool.first, Pool.iterator, if_pos rfl]
    exact congrArg some hmut.symm
  · dsimp only at hrun
    rcases h.allocAppend with ⟨hindex, hpool⟩ | ⟨c, lists', hcur, hunused, hc, -, -, h₁⟩
    · -- the pool is exhausted
      rw [hindex, hpool] at hrun
      split at hrun
      · cases hrun
      · cases hrun
        refine ⟨lists, ?_⟩
        unfold ScriptChannel.processScriptEvent
        rw [hindex]
        exact h.continueWith _
    · have hcp : c ∉ pending := by
        intro hp
        obtain ⟨list', hp⟩ := h.allocated c hp
        exact hunused list' hp
      have hfresh : strict → (S.event c).execCtx.Fresh script.handlers := by
        intro hs
        rcases h.fresh hs c with hp | ho | hf
        · exact absurd hp hcp
        · cases ho
        · exact hf
      have hkey (it : Iterator EventList) (isNote : Bool) :
          OnKey lists' ⟨c, it, isNote, .spawned⟩ := onKey_of_ne fun _ => Caller.noConfusion
      refine ⟨lists', ?_⟩
      rw [Iterator.index_eq_some.mpr hcur] at hrun
      split at hrun
      · cases hrun
        obtain ⟨K, hK⟩ := h₁.sound c
        have h₂ := h₁.modify_out
          (f := fun e => { e with execCtx := e.execCtx.resetPolyphonicData }) hcp
          (List.mem_singleton.mpr rfl) ⟨K, hK.congr rfl rfl⟩ (h₁.handlers c)
        refine h₂.processScriptEvent hcur hcp ⟨_, hc⟩ (fun hs => ?_) hhandler (hkey _ _)
        rw [Data.modify_self]
        exact ⟨(hfresh hs).size, (hfresh hs).stackFrame, (hfresh hs).flags⟩
      · cases hrun
        exact h₁.processScriptEvent hcur hcp ⟨_, hc⟩ hfresh hhandler (hkey _ _)

/-- A turn of the loop over the events of a key. -/
theorem Data.recycle {itEvent : MidiCause} {it : Iterator EventList} {A B : List ℕ}
    {handler : Statements L} (h : Data script size strict S lists pending [])
    (hL : lists (.rtlist (.key itEvent.key)) = A ++ B)
    (hcursor : Pool.Cursor (.key itEvent.key) A B it)
    (hcare : ∀ n ∈ it.index, S.queued n = false) (hhandler : handler ∈ script.handlers) :
    Inv script size strict (S.recycle script itEvent it handler) lists pending := by
  unfold ScriptChannel.recycle
  split
  · exact h.continueWith _
  · next hend =>
    cases B with
    | nil => exact absurd (Option.some.inj hcursor.current).symm hend
    | cons n B =>
        have hcur : it.current = .node n := (Option.some.inj hcursor.current).symm
        have hn : n ∉ pending := h.notMem_pending (hcare n (Iterator.index_eq_some.mpr hcur))
        have hmem : n ∈ lists (.rtlist (.key itEvent.key)) := by simp [hL]
        refine (h.mono fun _ hm => nomatch hm).processScriptEvent hcur hn ⟨_, hmem⟩ (fun hs => ?_)
          hhandler fun itEvent' he => ?_
        · rcases h.fresh hs n with hp | ho | hf
          · exact absurd hp hn
          · cases ho
          · exact hf
        · cases he
          exact ⟨rfl, A, B, hL, hcursor⟩

theorem Data.resume {fragmentEnd : ℕ} (h : Data script size strict S lists pending [])
    (hcontrol : S.control = .idle) (hrun : S.resume script fragmentEnd = some S') :
    ∃ pending', Inv script size strict S' lists pending' := by
  have hsame : Inv script size strict S lists pending := by
    unfold Inv
    rw [hcontrol]
    exact h
  unfold ScriptChannel.resume at hrun
  split at hrun
  · cases hrun
    exact ⟨pending, hsame⟩
  · next hroot =>
    obtain ⟨t, hT⟩ := h.queue
    obtain ⟨root, hroot⟩ := Option.ne_none_iff_exists'.mp hroot
    obtain ⟨m, hm, hlow, -⟩ := hT.lowest (List.ne_nil_of_mem (hT.root_mem hroot))
    have hmem : m ∈ pending := hT.head_mem hm
    rw [hlow, Option.bind_eq_bind, Option.bind_some] at hrun
    split at hrun
    · cases hrun
      exact ⟨pending, hsame⟩
    · obtain ⟨T', hunschedule, h₁⟩ := h.unschedule hmem
      obtain ⟨handler, hhandler⟩ := Option.ne_none_iff_exists'.mp (h.suspended m hmem).2
      simp only [hunschedule, Option.bind_eq_bind, Option.bind_some, hhandler] at hrun
      cases hrun
      refine ⟨pending.erase m, InUse.enter (x := ⟨m, _, _, .resumed⟩)
        ⟨h₁, hT.nodup.not_mem_erase, h.allocated m hmem, ?_⟩ rfl
        (onKey_of_ne fun _ => Caller.noConfusion)
        (h.handlers m handler (List.mem_of_getElem? hhandler))⟩
      show (S.event m).handler ≠ none
      rw [hhandler]
      exact Option.some_ne_none _

theorem Data.execInit {pEventHandler : VMEventHandler L}
    (h : Data script size strict S lists pending [])
    (hhandler : pEventHandler.statements ∈ script.handlers)
    (hrun : S.execInit script pEventHandler = some S') :
    ∃ lists', Inv script size strict S' lists' pending := by
  unfold ScriptChannel.execInit at hrun
  dsimp only at hrun
  rcases h.allocAppend with ⟨hindex, -⟩ | ⟨c, lists', hcur, hunused, hc, -, -, h₁⟩
  · rw [hindex] at hrun
    cases hrun
  · rw [Iterator.index_eq_some.mpr hcur] at hrun
    cases hrun
    have hcp : c ∉ pending := by
      intro hp
      obtain ⟨list', hp⟩ := h.allocated c hp
      exact hunused list' hp
    have h₂ := h₁.modify_out (f := .spawnInit pEventHandler.statements) hcp
      (List.mem_singleton.mpr rfl) (h₁.sound c) fun h' hh' => by
        rw [List.mem_singleton.mp hh']
        exact hhandler
    refine ⟨lists', InUse.enter (x := ⟨c, _, false, .initialized⟩) ⟨h₂, hcp, ⟨_, hc⟩, ?_⟩ hcur
      (onKey_of_ne fun _ => Caller.noConfusion) hhandler⟩
    rw [Data.modify_self]
    exact Option.some_ne_none _

/-! ## Conditions on a step -/

/-- No event of the queue is released with the list of a key or spawned once
more. -/
def SparesQueued (S : ScriptChannel L) : ChannelAction → Prop
  | .recycle => ∀ it ∈ S.control.cursor, ∀ n ∈ it.index, S.queued n = false
  | .freeKey itSelf => ∀ n ∈ S.keyEvents (if itSelf then 1 else 0), S.queued n = false
  | .resetKeys | .resetEvents => ∀ key, ∀ n ∈ S.keyEvents key, S.queued n = false
  | _ => True

/-- A reset finds no suspended execution, and whatever is aborted is
executed or suspended. -/
def SparesIdle (S : ScriptChannel L) : ChannelAction → Prop
  | .resetEvents => S.suspendedEvents.root = none
  | .call (.abort id) =>
      ∀ e ∈ S.control.execution, ∀ callback ∈ (S.pEvents.fromID id).index,
        callback = e.1.event ∨ S.queued callback = true
  | .leave _ _ =>
      ∀ e ∈ S.control.execution,
        ¬ (e.2.ctx.flags.suspend = true ∧ e.2.ctx.flags.abort = false) →
          ∀ id ∈ (S.event e.1.event).childHandlerID, ∀ child ∈ (S.pEvents.fromID id).index,
            (S.event child).autoAbortByParent = true → S.queued child = true
  | _ => True

/-- Every step of a run meets the condition. -/
def RunOk (script : InstrumentScript L) (ok : ScriptChannel L → ChannelAction → Prop) :
    List ChannelAction → ScriptChannel L → Prop
  | [], _ => True
  | action :: actions, S =>
      ok S action ∧ ∀ S' ∈ S.step script action, RunOk script ok actions S'

theorem RunOk.imp {ok ok' : ScriptChannel L → ChannelAction → Prop}
    (himp : ∀ S a, ok S a → ok' S a) : ∀ {actions : List ChannelAction} {S : ScriptChannel L},
      RunOk script ok actions S → RunOk script ok' actions S
  | [], _, _ => trivial
  | _ :: _, S, ⟨hfirst, hrest⟩ => ⟨himp S _ hfirst, fun S' hS' => RunOk.imp himp (hrest S' hS')⟩

instance (S : ScriptChannel L) : DecidablePred S.SparesQueued
  | .recycle => inferInstanceAs
      (Decidable (∀ it ∈ S.control.cursor, ∀ n ∈ it.index, S.queued n = false))
  | .freeKey itSelf => inferInstanceAs
      (Decidable (∀ n ∈ S.keyEvents (if itSelf then 1 else 0), S.queued n = false))
  | .resetKeys | .resetEvents => inferInstanceAs
      (Decidable (∀ key, ∀ n ∈ S.keyEvents key, S.queued n = false))
  | .event _ _ | .call _ | .turn | .leave _ _ | .resume _ | .init =>
      inferInstanceAs (Decidable True)

instance (S : ScriptChannel L) : DecidablePred S.SparesIdle
  | .resetEvents => inferInstanceAs (Decidable (S.suspendedEvents.root = none))
  | .call (.abort id) => inferInstanceAs
      (Decidable (∀ e ∈ S.control.execution, ∀ callback ∈ (S.pEvents.fromID id).index,
        callback = e.1.event ∨ S.queued callback = true))
  | .leave _ _ => inferInstanceAs
      (Decidable (∀ e ∈ S.control.execution,
        ¬ (e.2.ctx.flags.suspend = true ∧ e.2.ctx.flags.abort = false) →
          ∀ id ∈ (S.event e.1.event).childHandlerID, ∀ child ∈ (S.pEvents.fromID id).index,
            (S.event child).autoAbortByParent = true → S.queued child = true))
  | .call (.fork _ _ _ _) | .call (.stopWait _ _) | .event _ _ | .recycle | .turn | .resume _
  | .init | .freeKey _ | .resetKeys => inferInstanceAs (Decidable True)

instance decidableRunOk {ok : ScriptChannel L → ChannelAction → Prop}
    [∀ S a, Decidable (ok S a)] : ∀ (actions : List ChannelAction) (S : ScriptChannel L),
      Decidable (RunOk script ok actions S)
  | [], _ => inferInstanceAs (Decidable True)
  | action :: actions, S =>
      have : ∀ S', Decidable (RunOk script ok actions S') := decidableRunOk actions
      inferInstanceAs
        (Decidable (ok S action ∧ ∀ S' ∈ S.step script action, RunOk script ok actions S'))

/-! ## Steps and runs -/

theorem Called.inv {x : Execution} {st : ExecState L} (hcontrol : S.control = .executing x st)
    (hcur : x.itScriptEvent.current = .node x.event) (hst : ∃ K, st.Sound script.handlers K)
    (hkey : OnKey lists x) (h : Called script size strict S lists x.event S') :
    ∃ lists' pending', Inv script size strict S' lists' pending' := by
  obtain ⟨⟨lists', pending', hin, hkeys⟩, hcontrol'⟩ := h
  refine ⟨lists', pending', ?_⟩
  unfold Inv
  rw [hcontrol', hcontrol]
  refine ⟨hin, hcur, hst, fun itEvent hcaller => ?_⟩
  rw [hkeys]
  exact hkey itEvent hcaller

/-- A step of the engine between two executions. -/
theorem Inv.step_idle (h : Data script size strict S lists pending [])
    (hcontrol : S.control = .idle) {action : ChannelAction} (hqueued : S.SparesQueued action)
    (hidle : strict → S.SparesIdle action) (hstep : S.step script action = some S') :
    ∃ lists' pending', Inv script size strict S' lists' pending' := by
  have hkeys (hq : ∀ key, ∀ n ∈ S.keyEvents key, S.queued n = false) :
      ∀ key, ∀ n ∈ lists (.rtlist (.key key)), n ∉ pending :=
    fun key => h.keyEvents_notMem_pending (hq key)
  have hinv {S' : ScriptChannel L} {lists' : Lists EventList} {pending' : List ℕ}
      (hS' : S'.control = S.control) (h' : Data script size strict S' lists' pending' []) :
      Inv script size strict S' lists' pending' := by
    unfold Inv
    rw [hS', hcontrol]
    exact h'
  simp only [step, hcontrol] at hstep
  cases action with
  | event itEvent type =>
      obtain ⟨handler, hhandler, hrun⟩ := Option.bind_eq_some_iff.mp hstep
      obtain ⟨lists', h'⟩ :=
        h.processEventByScript (InstrumentScript.mem_handlers hhandler) hrun
      exact ⟨lists', pending, h'⟩
  | resume fragmentEnd =>
      obtain ⟨pending', h'⟩ := h.resume hcontrol hstep
      exact ⟨lists, pending', h'⟩
  | init =>
      obtain ⟨handler, hhandler, hrun⟩ := Option.bind_eq_some_iff.mp hstep
      obtain ⟨lists', h'⟩ := h.execInit (InstrumentScript.mem_handlers hhandler) hrun
      exact ⟨lists', pending, h'⟩
  | freeKey itSelf =>
      obtain ⟨S₁, lists', hrun, h', -, -, -, -, hcontrol'⟩ :=
        h.clear (.key (if itSelf then 1 else 0)) (h.keyEvents_notMem_pending hqueued)
      cases hrun.symm.trans hstep
      exact ⟨lists', pending, hinv hcontrol' h'⟩
  | resetKeys =>
      obtain ⟨S₁, lists', hrun, h', -, -, -, hcontrol'⟩ := h.clearKeys (hkeys hqueued)
      cases hrun.symm.trans hstep
      exact ⟨lists', pending, hinv hcontrol' h'⟩
  | resetEvents =>
      obtain ⟨S₁, lists', hrun, h', hcontrol'⟩ := h.resetEvents (hkeys hqueued) fun hs => by
        obtain ⟨t, hT⟩ := h.queue
        exact hT.eq_nil (hidle hs)
      cases hrun.symm.trans hstep
      exact ⟨lists', [], hinv hcontrol' h'⟩
  | recycle | call _ | turn | leave _ _ => cases hstep

/-- A step of the script that is executed. -/
theorem Inv.step_executing {x : Execution} {st : ExecState L}
    (h : InUse script size strict S lists pending x.event)
    (hcur : x.itScriptEvent.current = .node x.event) (hst : ∃ K, st.Sound script.handlers K)
    (hkey : OnKey lists x) (hcontrol : S.control = .executing x st) {action : ChannelAction}
    (hidle : strict → S.SparesIdle action) (hstep : S.step script action = some S') :
    ∃ lists' pending', Inv script size strict S' lists' pending' := by
  simp only [step, hcontrol] at hstep
  cases action with
  | call call =>
      simp only at hstep
      split at hstep
      · obtain ⟨S₁, hrun, h₁⟩ := h.call hst call fun hs id hid callback hc => by
          subst hid
          exact hidle hs (x, st) (by rw [hcontrol]; rfl) callback hc
        cases hrun.symm.trans hstep
        exact h₁.inv hcontrol hcur hst hkey
      · cases hstep
  | turn =>
      simp only at hstep
      split at hstep
      · next hguard =>
        cases hstep
        obtain ⟨K, hK⟩ := hst
        obtain ⟨f, K, rfl⟩ := hK.of_guard hguard
        exact ⟨lists, pending, ⟨h.data.continueWith _, h.notPending, h.list, h.handler⟩, hcur,
          ⟨_, hK.iteration hguard.1⟩, hkey⟩
      · cases hstep
  | leave wakeUp key =>
      simp only at hstep
      split at hstep
      · cases hstep
      · obtain ⟨K, hK⟩ := hst
        obtain ⟨S₁, lists', pending', hrun, hinv⟩ := h.leave hcur hK hkey wakeUp key
          fun hs hstatus id hid child hc ha => by
            rw [ne_eq, status_leave] at hstatus
            exact (h.data.queued_iff child).mp
              (hidle hs (x, st) (by rw [hcontrol]; rfl) hstatus id hid child hc ha)
        cases hrun.symm.trans hstep
        exact ⟨lists', pending', hinv⟩
  | event _ _ | recycle | resume _ | init | freeKey _ | resetKeys | resetEvents => cases hstep

theorem Inv.step (h : Inv script size strict S lists pending) {action : ChannelAction}
    (hqueued : S.SparesQueued action) (hidle : strict → S.SparesIdle action)
    (hstep : S.step script action = some S') :
    ∃ lists' pending', Inv script size strict S' lists' pending' := by
  unfold Inv at h
  cases hcontrol : S.control with
  | idle =>
      rw [hcontrol] at h
      exact Inv.step_idle h hcontrol hqueued hidle hstep
  | recycling itEvent it =>
      rw [hcontrol] at h
      obtain ⟨hdata, A, B, hL, hcursor⟩ := h
      simp only [ScriptChannel.step, hcontrol] at hstep
      cases action with
      | recycle =>
          obtain ⟨handler, hhandler, rfl⟩ := Option.map_eq_some_iff.mp hstep
          have hcare := hqueued it (by rw [hcontrol]; rfl)
          exact ⟨lists, pending, hdata.recycle hL hcursor hcare
            (InstrumentScript.mem_handlers hhandler)⟩
      | event _ _ | call _ | turn | leave _ _ | resume _ | init | freeKey _ | resetKeys
        | resetEvents => cases hstep
  | executing x st =>
      rw [hcontrol] at h
      obtain ⟨hin, hcur, hst, hkey⟩ := h
      exact Inv.step_executing hin hcur hst hkey hcontrol hidle hstep

theorem Inv.run {ok : ScriptChannel L → ChannelAction → Prop}
    (hqueued : ∀ S a, ok S a → S.SparesQueued a) (hidle : strict → ∀ S a, ok S a → S.SparesIdle a)
    {actions : List ChannelAction} (h : Inv script size strict S lists pending)
    (hok : RunOk script ok actions S) (hrun : S.run script actions = some S') :
    ∃ lists' pending', Inv script size strict S' lists' pending' := by
  induction actions generalizing S lists pending with
  | nil =>
      cases hrun
      exact ⟨lists, pending, h⟩
  | cons action actions ih =>
      obtain ⟨hfirst, hrest⟩ := hok
      rw [ScriptChannel.run, List.foldlM_cons] at hrun
      obtain ⟨S₁, hstep, hrun⟩ := Option.bind_eq_some_iff.mp hrun
      obtain ⟨lists₁, pending₁, h₁⟩ :=
        h.step (hqueued S action hfirst) (fun hs => hidle hs S action hfirst) hstep
      exact ih h₁ (hrest S₁ hstep) hrun

theorem Loaded.inv {sizes : PolyphonicSizes} (h : S.Loaded script sizes size) :
    ∃ lists, Inv script size strict S lists [] := by
  obtain ⟨lists, hpool, hempty⟩ := h.pool
  refine ⟨lists, ?_⟩
  unfold Inv
  rw [h.control]
  refine ⟨hpool, ⟨.nil, .empty h.root h.nodesCount fun _ => h.tree⟩, fun entry hentry => ?_,
    fun _ hm => (nomatch hm), fun n => ⟨[], ?_⟩, fun n handler hh => ?_, fun _ hm => (nomatch hm),
    fun list n hn => ?_, fun _ n => .inr (.inr ?_)⟩
  · rw [h.log] at hentry
    cases hentry
  · rw [h.execCtx]
    exact .create sizes script.handlers
  · rw [h.handlers] at hh
    cases hh
  · rw [hempty] at hn
    cases hn
  · rw [h.execCtx]
    exact .create sizes script.handlers

end ScriptChannel

end LinuxSampler
