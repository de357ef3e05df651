import LinuxSampler.ScriptRun

/-!
# The events kept for a key

Which steps of a channel put an event on the list of a key. It is only the
end of a note handler that does, if a release handler is to go on with its
variables; all other steps leave these lists as they are or take events off
them.
-/

namespace LinuxSampler

variable {L : ScriptLang}

namespace ScriptChannel

variable (script : InstrumentScript L) (S : ScriptChannel L)

/-- The execution ends with its last handler, or with an error. -/
def Finishes (x : Execution) (st : ExecState L) : Prop :=
  st.leave.status = .error ∨ st.leave.status ≠ .suspended ∧
    ((S.event x.event).handlers[(S.event x.event).currentHandler + 1]?).isNone = true

instance (x : Execution) (st : ExecState L) : Decidable (S.Finishes x st) :=
  inferInstanceAs (Decidable (_ ∨ _))

/-- The key of the MIDI event; that of a resumed event is its own. -/
def keyOf (x : Execution) (key : Fin 128) : Fin 128 :=
  match x.caller with
  | .resumed => (S.event x.event).cause
  | _ => key

/-- The key that the step keeps an event for. -/
def keptFor : ChannelAction → Option (Fin 128)
  | .leave _ key =>
      S.control.execution.bind fun (x, st) =>
        if S.Finishes x st ∧ x.isNote ∧ script.passesPolyphonicData then some (S.keyOf x key)
        else none
  | _ => none

variable {script} {S} {S' : ScriptChannel L} {size : ℕ} {lists : Lists EventList}
  {pending out : List ℕ} {n : ℕ} {key : Fin 128} {x : Execution} {st : ExecState L}

/-! ## What leaves the lists as they are -/

theorem keyEvents_congr (hpool : S'.pEvents = S.pEvents) : S'.keyEvents = S.keyEvents := by
  unfold keyEvents
  rw [hpool]

theorem processScriptEvent_pEvents (itEvent : MidiCause) (type : VMEventHandlerType)
    (handler : Statements L) (it : Iterator EventList) (caller : Caller) :
    (S.processScriptEvent script itEvent type handler it caller).pEvents = S.pEvents := by
  unfold processScriptEvent
  split <;> rfl

theorem schedule_pEvents {time : ℕ} (hrun : S.schedule n time = some S') :
    S'.pEvents = S.pEvents := by
  obtain ⟨T, -, hS'⟩ := Option.bind_eq_some_iff.mp hrun
  rw [← Option.some.inj hS']
  rfl

/-- What a note handler leaves in its event is not changed when children are
aborted. -/
theorem abortChildren_field {β : Type*} (π : ScriptEvent L (Fin 128) → β)
    (hπ : ∀ e ctx, π { e with execCtx := ctx } = π e) (ids : List ℕ) (k : ℕ) :
    π ((S.abortChildren ids).event k) = π (S.event k) := by
  induction ids generalizing S with
  | nil => rfl
  | cons id ids ih =>
      rw [abortChildren, List.foldl_cons]
      refine ih.trans ?_
      split
      · rfl
      · split
        · next child _ _ =>
          by_cases hk : k = child
          · subst hk
            rw [signalAbort, Data.modify_self]
            exact hπ _ _
          · rw [signalAbort, Data.modify_of_ne S hk]
        · rfl

theorem abortChildren_pEvents (ids : List ℕ) : (S.abortChildren ids).pEvents = S.pEvents := by
  induction ids generalizing S with
  | nil => rfl
  | cons id ids ih =>
      rw [abortChildren, List.foldl_cons]
      refine ih.trans ?_
      split
      · rfl
      · split <;> rfl

theorem keyEvents_allocAppend (h : Data script size False S lists pending out)
    (hpool : S'.pEvents = (S.pEvents.allocAppend .events).1) (key : Fin 128) :
    S'.keyEvents key = S.keyEvents key := by
  rcases h.allocAppend with ⟨-, hsame⟩ | ⟨c, lists', -, -, -, -, hkeys, h'⟩
  · rw [keyEvents_congr (hpool.trans hsame)]
  · have hpool' := h'.pool.elements_eq
    dsimp only at hpool'
    rw [keyEvents, hpool, hpool', hkeys, h.keyEvents_eq]

/-! ## The end of an execution -/

theorem finish_pEvents : (S.finish script x key).pEvents =
    if x.isNote ∧ script.passesPolyphonicData then
      (S.pEvents.moveToEndOf x.itScriptEvent (.key (S.keyOf x key))).1
    else (S.pEvents.free x.itScriptEvent).1 := by
  unfold finish
  by_cases hnote : x.isNote ∧ script.passesPolyphonicData
  · simp only [if_pos hnote]
    rfl
  · simp only [if_neg hnote]
    rfl

/-- The pool after an execution: as before, or its event was kept or released. -/
theorem leave_pEvents {wakeUp : ℕ} (hrun : S.leave script x st wakeUp key = some S') :
    S'.pEvents = S.pEvents ∨ S.Finishes x st ∧ S'.pEvents =
      if x.isNote ∧ script.passesPolyphonicData then
        (S.pEvents.moveToEndOf x.itScriptEvent (.key (S.keyOf x key))).1
      else (S.pEvents.free x.itScriptEvent).1 := by
  have hfinish (S₁ : ScriptChannel L) (hpool : S₁.pEvents = S.pEvents)
      (hcause : (S₁.event x.event).cause = (S.event x.event).cause) :
      (S₁.finish script x key).pEvents =
        if x.isNote ∧ script.passesPolyphonicData then
          (S.pEvents.moveToEndOf x.itScriptEvent (.key (S.keyOf x key))).1
        else (S.pEvents.free x.itScriptEvent).1 := by
    have hkey : S₁.keyOf x key = S.keyOf x key := by
      unfold keyOf
      rw [hcause]
    rw [finish_pEvents, hpool, hkey]
  unfold leave at hrun
  dsimp only at hrun
  obtain ⟨S₁, hS₁⟩ : ∃ S₁ : ScriptChannel L, S₁ = ({ S with global := st.global }.modify x.event
    fun e => { e with execCtx := st.leave, executionSlices := e.executionSlices + 1 }) := ⟨_, rfl⟩
  have hpool₁ : S₁.pEvents = S.pEvents := by rw [hS₁]; rfl
  have hself : S₁.event x.event = { S.event x.event with
      execCtx := st.leave, executionSlices := (S.event x.event).executionSlices + 1 } := by
    rw [hS₁]
    exact Data.modify_self _ _ _
  rw [← hS₁] at hrun
  clear hS₁
  split at hrun
  · left
    split at hrun
    · obtain ⟨handler, -, rfl⟩ := Option.map_eq_some_iff.mp hrun
      exact hpool₁
    · obtain ⟨S₂, hschedule, hS'⟩ := Option.bind_eq_some_iff.mp hrun
      cases hS'
      exact (schedule_pEvents hschedule).trans hpool₁
  · next hsuspended =>
    obtain ⟨S₂, hS₂⟩ : ∃ S₂, S₂ = S₁.abortChildren (S₁.event x.event).childHandlerID := ⟨_, rfl⟩
    have hpool₂ : S₂.pEvents = S.pEvents := by
      rw [hS₂, abortChildren_pEvents, hpool₁]
    have hfield {β : Type} (π : ScriptEvent L (Fin 128) → β)
        (hπ : ∀ e ctx, π { e with execCtx := ctx } = π e) :
        π (S₂.event x.event) = π (S₁.event x.event) := by
      rw [hS₂]
      exact abortChildren_field π hπ _ _
    rw [← hS₂] at hrun
    clear hS₂
    have hcause : (S₂.event x.event).cause = (S.event x.event).cause := by
      rw [hfield (·.cause) fun _ _ => rfl, hself]
    split at hrun
    · next herror =>
      cases hrun
      exact .inr ⟨.inl herror, hfinish S₂ hpool₂ hcause⟩
    · rw [Data.modify_self] at hrun
      split at hrun
      · cases hrun
        exact .inl hpool₂
      · next hlast =>
        cases hrun
        refine .inr ⟨.inr ⟨hsuspended, ?_⟩, hfinish _ hpool₂ ?_⟩
        · have hhandlers := hfield (·.handlers) fun _ _ => rfl
          have hcurrent := hfield (·.currentHandler) fun _ _ => rfl
          simp only [hself] at hhandlers hcurrent
          rw [ScriptEvent.handler] at hlast
          simp only [hhandlers, hcurrent] at hlast
          rw [hlast]
          rfl
        · rw [Data.modify_self]
          exact hcause

/-- An event that is kept goes to the list of one key, a released one to
none. -/
theorem mem_keyEvents_leave (h : Data script size False S lists pending out) {wakeUp : ℕ}
    (hcur : x.itScriptEvent.current = .node x.event)
    (hlist : ∃ list, x.event ∈ lists (.rtlist list)) {k : Fin 128}
    (hrun : S.leave script x st wakeUp k = some S') (hn : n ∈ S'.keyEvents key) :
    n ∈ S.keyEvents key ∨ S.Finishes x st ∧ x.isNote ∧ script.passesPolyphonicData ∧
      key = S.keyOf x k := by
  have hindex : x.itScriptEvent.index = some x.event := Iterator.index_eq_some.mpr hcur
  have hallocated : ∃ i ∈ x.itScriptEvent.index, S.pEvents.Allocated i :=
    ⟨x.event, hindex, h.pool.allocated_iff.mpr hlist⟩
  have hnodup := h.pool.linked.nodup
  rcases leave_pEvents hrun with hpool | ⟨hfinishes, hpool⟩
  · rw [keyEvents_congr hpool] at hn
    exact .inl hn
  · rw [keyEvents, hpool] at hn
    rw [h.keyEvents_eq]
    split at hn
    · next hnote =>
      obtain ⟨P', hmove, -, hP'⟩ :=
        h.pool.apply (.moveToEndOf x.itScriptEvent (.key (S.keyOf x k))) hallocated
      cases hmove
      rw [hP'.elements_eq, Pool.Op.next, hindex] at hn
      rcases Lists.mem_putLast.mp hn with hn | ⟨hkey, -⟩
      · exact .inl ((Lists.mem_remove (hnodup _)).mp hn).2
      · exact .inr ⟨hfinishes, hnote.1, hnote.2, by simpa using hkey⟩
    · obtain ⟨P', hfree, -, hP'⟩ := h.pool.apply (.free x.itScriptEvent) hallocated
      cases hfree
      rw [hP'.elements_eq, Pool.Op.next, hindex] at hn
      rcases Lists.mem_putLast.mp hn with hn | ⟨hkey, -⟩
      · exact .inl ((Lists.mem_remove (hnodup _)).mp hn).2
      · cases hkey

/-! ## Steps -/

/-- A step between two executions keeps no event. -/
theorem Data.mem_keyEvents_idle (h : Data script size False S lists pending [])
    (hcontrol : S.control = .idle) {action : ChannelAction} (hqueued : S.SparesQueued action)
    (hstep : S.step script action = some S') (hn : n ∈ S'.keyEvents key) :
    n ∈ S.keyEvents key := by
  have hqueue (hq : ∀ key, ∀ n ∈ S.keyEvents key, S.queued n = false) :
      ∀ key, ∀ n ∈ lists (.rtlist (.key key)), n ∉ pending :=
    fun key => h.keyEvents_notMem_pending (hq key)
  have hlists {S₁ : ScriptChannel L} {lists₁ : Lists EventList} {pending₁ : List ℕ}
      (h₁ : Data script size False S₁ lists₁ pending₁ [])
      (hsub : lists₁ (.rtlist (.key key)) = [] ∨
        lists₁ (.rtlist (.key key)) = lists (.rtlist (.key key))) (hn : n ∈ S₁.keyEvents key) :
      n ∈ S.keyEvents key := by
    rw [h₁.keyEvents_eq] at hn
    rw [h.keyEvents_eq]
    rcases hsub with he | he
    · rw [he] at hn
      cases hn
    · rwa [he] at hn
  simp only [ScriptChannel.step, hcontrol] at hstep
  cases action with
  | event itEvent type =>
      obtain ⟨handler, -, hrun⟩ := Option.bind_eq_some_iff.mp hstep
      unfold ScriptChannel.processEventByScript at hrun
      split at hrun
      · cases hrun
        exact hn
      · have hpool : S'.pEvents = (S.pEvents.allocAppend .events).1 := by
          dsimp only at hrun
          split at hrun
          · split at hrun
            · cases hrun
            · cases hrun
              exact processScriptEvent_pEvents ..
          · cases hrun
            exact processScriptEvent_pEvents ..
        rwa [keyEvents_allocAppend h hpool] at hn
  | resume fragmentEnd =>
      rw [keyEvents_congr] at hn
      · exact hn
      · have hresume : S.resume script fragmentEnd = some S' := hstep
        unfold ScriptChannel.resume at hresume
        split at hresume
        · rw [Option.some.inj hresume]
        · next hne =>
          obtain ⟨m, hlow, hrun⟩ := Option.bind_eq_some_iff.mp hresume
          split at hrun
          · rw [Option.some.inj hrun]
          · obtain ⟨t, hT⟩ := h.queue
            have hmem : m ∈ pending := by
              obtain ⟨root, hroot⟩ := Option.ne_none_iff_exists'.mp hne
              obtain ⟨m', hm', hlow', -⟩ := hT.lowest (List.ne_nil_of_mem (hT.root_mem hroot))
              rw [hlow] at hlow'
              exact Option.some.inj hlow' ▸ hT.head_mem hm'
            obtain ⟨T', hunschedule, -⟩ := h.unschedule hmem
            obtain ⟨handler, hhandler⟩ :=
              Option.ne_none_iff_exists'.mp (h.suspended m hmem).2
            simp only [hunschedule, Option.bind_eq_bind, Option.bind_some, hhandler] at hrun
            cases hrun
            rfl
  | init =>
      obtain ⟨handler, -, hrun⟩ := Option.bind_eq_some_iff.mp hstep
      have hpool : S'.pEvents = (S.pEvents.allocAppend .events).1 := by
        unfold ScriptChannel.execInit at hrun
        dsimp only at hrun
        split at hrun
        · cases hrun
        · cases hrun
          rfl
      rwa [keyEvents_allocAppend h hpool] at hn
  | freeKey itSelf =>
      obtain ⟨S₁, lists', hrun, h', hself, hother, -⟩ :=
        h.clear (.key (if itSelf then 1 else 0)) (h.keyEvents_notMem_pending hqueued)
      cases hrun.symm.trans hstep
      refine hlists h' ?_ hn
      by_cases hkey : EventList.key key = .key (if itSelf then 1 else 0)
      · rw [hkey]
        exact .inl hself
      · exact .inr (hother _ hkey)
  | resetKeys =>
      obtain ⟨S₁, lists', hrun, h', hempty, -⟩ := h.clearKeys (hqueue hqueued)
      cases hrun.symm.trans hstep
      exact hlists h' (.inl (hempty key)) hn
  | resetEvents =>
      obtain ⟨S₁, lists₁, hrun₁, h₁, hempty, -⟩ := h.clearKeys (hqueue hqueued)
      obtain ⟨S₂, hrun₂, hrun⟩ := Option.bind_eq_some_iff.mp hstep
      cases hrun₁.symm.trans hrun₂
      obtain ⟨T, -, hrun⟩ := Option.bind_eq_some_iff.mp hrun
      obtain ⟨P', hclear, -, hP'⟩ := h₁.pool.apply (.clear .events) trivial
      have hclear' : S₁.pEvents.clear .events = some P' := hclear
      rw [ScriptChannel.clear, hclear'] at hrun
      cases hrun
      have hkey : (Pool.Op.clear EventList.events).next lists₁ (.rtlist (.key key)) = [] := by
        rw [Pool.Op.next, Lists.putLast, Function.update_of_ne (by simp), Lists.empty,
          Function.update_of_ne (by simp), hempty]
      have hnil : P'.elements (.rtlist (.key key)) = [] := by rw [hP'.elements_eq, hkey]
      have hn' : n ∈ P'.elements (.rtlist (.key key)) := hn
      rw [hnil] at hn'
      cases hn'
  | recycle | call _ | turn | leave _ _ => cases hstep

theorem Inv.mem_keyEvents_step (h : Inv script size False S lists pending)
    {action : ChannelAction} (hqueued : S.SparesQueued action)
    (hstep : S.step script action = some S') (hn : n ∈ S'.keyEvents key) :
    n ∈ S.keyEvents key ∨ S.keptFor script action = some key := by
  unfold Inv at h
  cases hcontrol : S.control with
  | idle =>
      rw [hcontrol] at h
      exact .inl (h.mem_keyEvents_idle hcontrol hqueued hstep hn)
  | recycling itEvent it =>
      simp only [ScriptChannel.step, hcontrol] at hstep
      cases action with
      | recycle =>
          obtain ⟨handler, -, rfl⟩ := Option.map_eq_some_iff.mp hstep
          have hpool : (S.recycle script itEvent it handler.statements).pEvents = S.pEvents := by
            unfold recycle
            split
            · rfl
            · exact processScriptEvent_pEvents ..
          rw [keyEvents_congr hpool] at hn
          exact .inl hn
      | event _ _ | call _ | turn | leave _ _ | resume _ | init | freeKey _ | resetKeys
        | resetEvents => cases hstep
  | executing x st =>
      rw [hcontrol] at h
      obtain ⟨hin, hcur, hst, -⟩ := h
      simp only [ScriptChannel.step, hcontrol] at hstep
      cases action with
      | call call =>
          simp only at hstep
          split at hstep
          · obtain ⟨S₁, hrun, ⟨lists₁, pending₁, h₁, hkeys⟩, -⟩ := hin.call hst call False.elim
            cases hrun.symm.trans hstep
            rw [h₁.data.keyEvents_eq, hkeys, ← hin.data.keyEvents_eq] at hn
            exact .inl hn
          · cases hstep
      | turn =>
          simp only at hstep
          split at hstep
          · cases hstep
            exact .inl hn
          · cases hstep
      | leave wakeUp k =>
          simp only at hstep
          split at hstep
          · cases hstep
          · rcases mem_keyEvents_leave hin.data hcur hin.list hstep hn with hold |
              ⟨hfinishes, hnote, hpasses, rfl⟩
            · exact .inl hold
            · right
              rw [keptFor, hcontrol]
              exact if_pos ⟨hfinishes, hnote, hpasses⟩
      | event _ _ | recycle | resume _ | init | freeKey _ | resetKeys | resetEvents => cases hstep

end ScriptChannel

end LinuxSampler
