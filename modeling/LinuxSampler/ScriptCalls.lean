import LinuxSampler.ScriptEvents

/-!
# The execution of a script event

What the invariant says of the event that is executed, and what is kept
by the calls of its script and by the end of its execution.
-/

namespace LinuxSampler

variable {L : ScriptLang}

namespace ScriptChannel

variable {script : InstrumentScript L} {size : ℕ} {strict : Prop} {S S' : ScriptChannel L}
  {lists : Lists EventList} {pending : List ℕ} {n : ℕ} {x : Execution} {st : ExecState L}

/-- The event `n` is executed. -/
structure InUse (script : InstrumentScript L) (size : ℕ) (strict : Prop) (S : ScriptChannel L)
    (lists : Lists EventList) (pending : List ℕ) (n : ℕ) : Prop where
  data : Data script size strict S lists pending [n]
  notPending : n ∉ pending
  list : ∃ list, n ∈ lists (.rtlist list)
  handler : (S.event n).handler ≠ none

/-- What the loop over the events of a key finds when it goes on. -/
def OnKey (lists : Lists EventList) (x : Execution) : Prop :=
  ∀ itEvent, x.caller = .recycled itEvent → x.isNote = false ∧
    ∃ A B, lists (.rtlist (.key itEvent.key)) = A ++ x.event :: B ∧
      Pool.Cursor (.key itEvent.key) A (x.event :: B) x.itScriptEvent

/-- The invariant. -/
def Inv (script : InstrumentScript L) (size : ℕ) (strict : Prop) (S : ScriptChannel L)
    (lists : Lists EventList) (pending : List ℕ) : Prop :=
  match S.control with
  | .idle => Data script size strict S lists pending []
  | .recycling itEvent it =>
      Data script size strict S lists pending [] ∧
        ∃ A B, lists (.rtlist (.key itEvent.key)) = A ++ B ∧
          Pool.Cursor (.key itEvent.key) A B it
  | .executing x st =>
      InUse script size strict S lists pending x.event ∧
        x.itScriptEvent.current = .node x.event ∧ (∃ K, st.Sound script.handlers K) ∧
        OnKey lists x

theorem Data.continueWith {out : List ℕ} (h : Data script size strict S lists pending out)
    (control : ChannelControl L) :
    Data script size strict (S.continueWith control) lists pending out :=
  h.congr rfl rfl rfl rfl

/-! ## Calls of a script -/

/-- What a call by the executed event `n` leaves as it was. -/
structure Called (script : InstrumentScript L) (size : ℕ) (strict : Prop) (S : ScriptChannel L)
    (lists : Lists EventList) (n : ℕ) (S' : ScriptChannel L) : Prop where
  inUse : ∃ lists' pending', InUse script size strict S' lists' pending' n ∧
    ∀ key, lists' (.rtlist (.key key)) = lists (.rtlist (.key key))
  control : S'.control = S.control

theorem Called.refl (h : InUse script size strict S lists pending n) :
    Called script size strict S lists n S :=
  ⟨⟨lists, pending, h, fun _ => rfl⟩, rfl⟩

/-- Fields that nothing depends on. -/
theorem InUse.modify_same {m : ℕ} {f : ScriptEvent L (Fin 128) → ScriptEvent L (Fin 128)}
    (h : InUse script size strict S lists pending n)
    (htime : (f (S.event m)).scheduleTime = S.scheduleTime m)
    (hctx : (f (S.event m)).execCtx = (S.event m).execCtx)
    (hhandlers : (f (S.event m)).handlers = (S.event m).handlers)
    (hcurrent : (f (S.event m)).currentHandler = (S.event m).currentHandler) :
    InUse script size strict (S.modify m f) lists pending n := by
  refine ⟨h.data.modify_same htime hctx hhandlers hcurrent, h.notPending, h.list, ?_⟩
  by_cases hn : n = m
  · subst hn
    rw [Data.modify_self, ScriptEvent.handler, hhandlers, hcurrent]
    exact h.handler
  · rw [Data.modify_of_ne S hn]
    exact h.handler

/-- `ScheduleResumeOfScriptCallback()` takes the callback out of the queue
before it changes its time. -/
theorem InUse.scheduleResume (h : InUse script size strict S lists pending n)
    (itCallback : Iterator EventList) (now : ℕ) (forever : Bool) :
    ∃ S', S.scheduleResumeOfScriptCallback itCallback now forever = some S' ∧
      Called script size strict S lists n S' := by
  unfold scheduleResumeOfScriptCallback
  cases itCallback.index with
  | none => exact ⟨S, rfl, .refl h⟩
  | some m =>
      set S₁ := if forever then S.modify m fun e => { e with ignoreAllWaitCalls := true } else S
        with hS₁
      have h₁ : InUse script size strict S₁ lists pending n := by
        rw [hS₁]
        split
        · exact h.modify_same rfl rfl rfl rfl
        · exact h
      have hcontrol : S₁.control = S.control := by
        rw [hS₁]
        split <;> rfl
      have hcalled : Called script size strict S lists n S₁ :=
        ⟨⟨lists, pending, h₁, fun _ => rfl⟩, hcontrol⟩
      dsimp only
      rw [← hS₁]
      split
      · exact ⟨S₁, rfl, hcalled⟩
      · next hqueued =>
        split
        · exact ⟨S₁, rfl, hcalled⟩
        · have hm : m ∈ pending := (h₁.data.queued_iff m).mp (not_not.mp hqueued)
          have hmn : m ≠ n := by
            rintro rfl
            exact h.notPending hm
          obtain ⟨T, hrun, hT⟩ := h₁.data.unschedule hm
          obtain ⟨t, hnodup⟩ := h₁.data.queue
          have hfresh : m ∉ pending.erase m := hnodup.nodup.not_mem_erase
          obtain ⟨S₂, hrun₂, h₂, -, hcontrol₂, hevent₂⟩ := hT.schedule hfresh
            (h₁.data.allocated m hm) (h₁.data.suspended m hm) (now + 1)
          refine ⟨S₂, ?_, ⟨lists, _, ⟨h₂.settle (fun _ _ _ => ?_) fun _ => .inl ?_, ?_, h.list, ?_⟩,
            fun _ => rfl⟩, hcontrol₂.trans hcontrol⟩
          · rw [hrun, Option.bind_eq_bind, Option.bind_some, hrun₂]
          · exact List.mem_append_right _ List.mem_cons_self
          · exact List.mem_append_right _ List.mem_cons_self
          · rw [List.mem_append, List.mem_singleton]
            rintro (hn | hn)
            · exact h.notPending (List.mem_of_mem_erase hn)
            · exact hmn hn.symm
          · rw [hevent₂, Function.update_of_ne hmn.symm]
            exact h₁.handler

/-- What `forkScriptCallback()` makes of the parent `n` and of a child `c`. -/
structure ForkedChild (S S' : ScriptChannel L) (n c : ℕ) (execCtx : ExecContext L)
    (autoAbort : Bool) (now : ℕ) : Prop where
  pool : S'.pEvents = (S.pEvents.allocAppend .events).1
  ne : c ≠ n
  parent : S'.event n = (S.event n).addChildHandlerID (S'.pEvents.getID c)
  child : S'.event c =
    { ({ S.event n with execCtx := execCtx }.forkTo (S.event c) autoAbort) with
      parentHandlerID := S'.pEvents.getID n
      scheduleTime := now }
  other : ∀ m, m ≠ n → m ≠ c → S'.event m = S.event m

/-- A forked child is a suspended event in the queue. -/
theorem InUse.forkScriptCallback {execCtx : ExecContext L}
    (h : InUse script size strict S lists pending n) {K : List (Frame L)}
    (hctx : execCtx.Sound script.handlers K) (autoAbort : Bool) (now : ℕ) :
    (∃ it, S.forkScriptCallback n execCtx autoAbort now = some (S, it) ∧ it.index = none ∧
        ((S.event n).countChildHandlers ≥ maxForkPerScriptHandler ∨
          (S.pEvents.allocAppend .events).2.index = none)) ∨
      ∃ c S' lists', S.forkScriptCallback n execCtx autoAbort now =
          some (S', (S.pEvents.allocAppend .events).2) ∧
        (S.pEvents.allocAppend .events).2.index = some c ∧
        ForkedChild S S' n c execCtx autoAbort now ∧
        InUse script size strict S' lists' (pending ++ [c]) n ∧ S'.control = S.control ∧
        (∀ list, c ∉ lists (.rtlist list)) ∧ c ∈ lists' (.rtlist .events) ∧
        (∀ list, ∀ m ∈ lists (.rtlist list), m ∈ lists' (.rtlist list)) ∧
        ∀ key, lists' (.rtlist (.key key)) = lists (.rtlist (.key key)) := by
  unfold ScriptChannel.forkScriptCallback
  split
  · next hfull => exact .inl ⟨_, rfl, rfl, .inl hfull⟩
  · dsimp only
    rcases h.data.allocAppend with ⟨hindex, hpool⟩ | ⟨c, lists', hcur, hunused, hc, hsub, hkeys, h₁⟩
    · rw [hindex, hpool]
      exact .inl ⟨_, rfl, hindex, .inr rfl⟩
    · rw [Iterator.index_eq_some.mpr hcur]
      dsimp only
      obtain ⟨list, hn⟩ := h.list
      have hcn : c ≠ n := by
        rintro rfl
        exact hunused list hn
      have hcp : c ∉ pending := by
        intro hp
        obtain ⟨list', hp⟩ := h.data.allocated c hp
        exact hunused list' hp
      set S₁ : ScriptChannel L := { S with pEvents := (S.pEvents.allocAppend .events).1 } with hS₁
      obtain ⟨handler, hhandler⟩ := Option.ne_none_iff_exists'.mp h.handler
      have hhandler' : (S.event n).handlers[(S.event n).currentHandler]? = some handler := hhandler
      have hmem : handler ∈ script.handlers :=
        h.data.handlers n handler (List.mem_of_getElem? hhandler')
      -- the child is a copy of the parent
      have h₂ := h₁.record [.timed c (S₁.queued c)] fun entry hentry => by
        rw [List.mem_singleton.mp hentry]
        exact ⟨h₁.queued_eq_false hcp, fun _ => trivial⟩
      set S₂ := S₁.record [.timed c (S₁.queued c)] with hS₂
      set child : ScriptEvent L (Fin 128) → ScriptEvent L (Fin 128) := fun e =>
        { ({ S₂.event n with execCtx := execCtx }.forkTo e autoAbort) with
          parentHandlerID := S₂.pEvents.getID n } with hchild
      have hchildHandlers : (child (S₂.event c)).handlers = [handler] := by
        show ((S.event n).handlers[(S.event n).currentHandler]?).toList = [handler]
        rw [hhandler']
        rfl
      obtain ⟨K', hK'⟩ := h₁.sound c
      have h₃ := h₂.modify_out (f := child) hcp List.mem_cons_self ⟨K, hctx.forkTo hK'⟩
        fun h' hh' => by
          rw [hchildHandlers, List.mem_singleton] at hh'
          rwa [hh']
      set S₃ := S₂.modify c child with hS₃
      -- the parent records the ID of the child
      have hparent (e : ScriptEvent L (Fin 128)) (id : ℕ) :
          (e.addChildHandlerID id).scheduleTime = e.scheduleTime ∧
            (e.addChildHandlerID id).execCtx = e.execCtx ∧
            (e.addChildHandlerID id).handlers = e.handlers ∧
            (e.addChildHandlerID id).currentHandler = e.currentHandler := by
        unfold ScriptEvent.addChildHandlerID
        split <;> exact ⟨rfl, rfl, rfl, rfl⟩
      obtain ⟨hp₁, hp₂, hp₃, hp₄⟩ := hparent (S₃.event n) (S₃.pEvents.getID c)
      have h₄ := h₃.modify_same (n := n) (f := fun e => e.addChildHandlerID (S₃.pEvents.getID c))
        hp₁ hp₂ hp₃ hp₄
      set S₄ := S₃.modify n fun e => e.addChildHandlerID (S₃.pEvents.getID c) with hS₄
      have hevent₃ : S₃.event c = child (S₂.event c) := Data.modify_self _ c _
      have hevent₃n : S₃.event n = S.event n := Data.modify_of_ne _ hcn.symm _
      have hevent₄ : S₄.event c = child (S₂.event c) := by
        rw [hS₄, Data.modify_of_ne _ hcn, hevent₃]
      have hevent₄n : (S₄.event n).handler = (S.event n).handler := by
        rw [hS₄, Data.modify_self, ScriptEvent.handler, hp₃, hp₄, hevent₃n, ScriptEvent.handler]
      obtain ⟨S₅, hrun, h₅, hpool₅, hcontrol, hevent₅⟩ := h₄.schedule hcp ⟨_, hc⟩ (by
        rw [hevent₄, ScriptEvent.handler, hchildHandlers]
        exact ⟨rfl, by simp [hchild, ScriptEvent.forkTo]⟩) now
      have hcpend : c ∈ pending ++ [c] := List.mem_append_right _ List.mem_cons_self
      refine .inr ⟨c, S₅, lists', ?_, rfl, ⟨hpool₅, hcn, ?_, ?_, fun m hmn hmc => ?_⟩,
        ⟨?_, ?_, ⟨list, hsub list n hn⟩, ?_⟩, hcontrol, hunused, hc, hsub, hkeys⟩
      · rw [hrun]
        rfl
      · rw [hevent₅, Function.update_of_ne hcn.symm, hS₄, Data.modify_self, hevent₃n, hpool₅]
        rfl
      · rw [hevent₅, Function.update_self, hevent₄, hpool₅]
        rfl
      · rw [hevent₅, Function.update_of_ne hmc, hS₄, Data.modify_of_ne _ hmn, hS₃,
          Data.modify_of_ne _ hmc]
        rfl
      · exact h₅.settle (fun _ _ _ => hcpend) fun _ => .inl hcpend
      · rw [List.mem_append, List.mem_singleton]
        rintro (hn | hn)
        · exact h.notPending hn
        · exact hcn hn.symm
      · rw [hevent₅, Function.update_of_ne hcn.symm, hevent₄n]
        exact h.handler

theorem InUse.forkLoop {execCtx : ExecContext L} {K : List (Frame L)}
    (hctx : execCtx.Sound script.handlers K) (autoAbort : Bool) (now : ℕ) :
    ∀ (children : List ℕ) {S : ScriptChannel L} {lists : Lists EventList} {pending : List ℕ},
      InUse script size strict S lists pending n →
        ∃ S', forkLoop n execCtx autoAbort now S children = some S' ∧
          Called script size strict S lists n S'
  | [], S, _, _, h => ⟨S, rfl, .refl h⟩
  | iChild :: children, S, lists, pending, h => by
      rcases h.forkScriptCallback hctx autoAbort now with ⟨it, hrun, hindex, -⟩ |
        ⟨c, S₁, lists₁, hrun, hindex, -, hin, hcontrol, -, -, -, hkeys⟩
      · rw [ScriptChannel.forkLoop, hrun, Option.bind_eq_bind, Option.bind_some]
        dsimp only
        rw [hindex]
        exact ⟨S, rfl, .refl h⟩
      · rw [ScriptChannel.forkLoop, hrun, Option.bind_eq_bind, Option.bind_some]
        dsimp only
        rw [hindex]
        have h₂ := hin.modify_same (m := c) (f := fun e => { e with forkIndex := iChild + 1 })
          rfl rfl rfl rfl
        obtain ⟨S₃, hloop, h₃⟩ := InUse.forkLoop hctx autoAbort now children h₂
        obtain ⟨⟨lists₃, pending₃, hin₃, hkeys₃⟩, hcontrol₃⟩ := h₃
        exact ⟨S₃, hloop, ⟨lists₃, pending₃, hin₃, fun key => (hkeys₃ key).trans (hkeys key)⟩,
          hcontrol₃.trans hcontrol⟩

/-- A strict run aborts nothing but executions. -/
theorem InUse.call (h : InUse script size strict S lists pending n)
    (hst : ∃ K, st.Sound script.handlers K) (call : ScriptCall)
    (hcall : strict → ∀ id, call = .abort id → ∀ callback ∈ (S.pEvents.fromID id).index,
      callback = n ∨ S.queued callback = true) :
    ∃ S', S.call n st call = some S' ∧ Called script size strict S lists n S' := by
  cases call with
  | fork count autoAbort polyphonic now =>
      obtain ⟨K, hK⟩ := hst
      have hctx : ({ st.ctx with polyphonic := polyphonic } : ExecContext L).Sound
        script.handlers K := hK.ctx.congr rfl rfl
      unfold ScriptChannel.call
      dsimp only
      unfold ScriptChannel.fork
      split
      · exact ⟨_, rfl, ⟨lists, pending, h.modify_same rfl rfl rfl rfl, fun _ => rfl⟩, rfl⟩
      · split
        · exact ⟨S, rfl, .refl h⟩
        · split
          · exact ⟨S, rfl, .refl h⟩
          · exact InUse.forkLoop hctx autoAbort now _ h
  | abort id =>
      unfold ScriptChannel.call
      dsimp only
      cases hindex : (S.pEvents.fromID id).index with
      | none => exact ⟨S, rfl, .refl h⟩
      | some callback =>
          dsimp only
          split
          · exact ⟨S, rfl, .refl h⟩
          · next hne =>
            refine ⟨_, rfl, ⟨lists, pending, ⟨?_, h.notPending, h.list, ?_⟩, fun _ => rfl⟩, rfl⟩
            · refine h.data.signalAbort fun hstrict => ?_
              rcases hcall hstrict id rfl callback hindex with heq | hq
              · exact absurd heq hne
              · exact .inl ((h.data.queued_iff callback).mp hq)
            · rw [ScriptChannel.signalAbort, Data.modify_of_ne S (Ne.symm hne)]
              exact h.handler
  | stopWait id disableWaitForever =>
      exact h.scheduleResume _ _ disableWaitForever

/-! ## The end of an execution -/

theorem status_leave (st : ExecState L) :
    st.leave.status = .suspended ↔ st.ctx.flags.suspend = true ∧ st.ctx.flags.abort = false := by
  unfold ExecState.leave
  split
  · next hflags => simpa using hflags
  · next hflags =>
    refine iff_of_false (fun hs => ?_) (by simpa using hflags)
    split at hs <;> cases hs

/-- A handler that has ended leaves its context as it found it. -/
theorem fresh_leave {K : List (Frame L)} (hst : st.Sound script.handlers K)
    (hflags : st.leave.status ≠ .suspended) : st.leave.Fresh script.handlers := by
  rw [ne_eq, status_leave] at hflags
  unfold ExecState.leave
  rw [if_neg (by simpa using hflags)]
  exact ⟨hst.ctx.reset.size, rfl, rfl⟩

theorem InUse.enter (h : InUse script size strict S lists pending x.event)
    (hcur : x.itScriptEvent.current = .node x.event) (hkey : OnKey lists x)
    {handler : Statements L} (hhandler : handler ∈ script.handlers) :
    Inv script size strict (S.enter script x handler) lists pending := by
  obtain ⟨K, hK⟩ := h.data.sound x.event
  exact ⟨⟨h.data.continueWith _, h.notPending, h.list, h.handler⟩, hcur,
    ⟨_, .enter hK hhandler script.autoSuspend S.global⟩, hkey⟩

/-- The event is kept for the release of its key, or released; then the caller
goes on. -/
theorem Data.finish (h : Data script size strict S lists pending [x.event])
    (hcur : x.itScriptEvent.current = .node x.event) (hpending : x.event ∉ pending)
    (hlist : ∃ list, x.event ∈ lists (.rtlist list))
    (hstatus : (S.event x.event).execCtx.status ≠ .suspended)
    (hfresh : strict → (S.event x.event).execCtx.Fresh script.handlers) (hkey : OnKey lists x)
    (key : Fin 128) : ∃ lists', Inv script size strict (S.finish script x key) lists' pending := by
  have h₀ := h.settle (fun _ _ hs => absurd hs hstatus) fun hs => .inr (hfresh hs)
  obtain ⟨list, hlist⟩ := hlist
  obtain ⟨event, it, isNote, caller⟩ := x
  by_cases hnote : isNote = true ∧ script.passesPolyphonicData = true
  · have hkeep (k : Fin 128) := h₀.keep hcur hlist k
    unfold ScriptChannel.finish
    simp only [if_pos hnote]
    cases caller with
    | recycled itEvent =>
        have := (hkey itEvent rfl).1
        rw [hnote.1] at this
        cases this
    | resumed =>
        obtain ⟨lists', h'⟩ := hkeep (S.event event).cause
        exact ⟨lists', h'.continueWith _⟩
    | spawned | initialized =>
        obtain ⟨lists', h'⟩ := hkeep key
        exact ⟨lists', h'.continueWith _⟩
  · obtain ⟨lists', h', hit, -, herase⟩ := h₀.free hcur hpending hlist
    refine ⟨lists', ?_⟩
    unfold ScriptChannel.finish
    simp only [if_neg hnote]
    cases caller with
    | recycled itEvent =>
        obtain ⟨-, A, B, hL, hcursor⟩ := hkey itEvent rfl
        have hA : event ∉ A := by
          have hn := h.pool.linked.nodup (.rtlist (.key itEvent.key))
          rw [hL, List.nodup_append'] at hn
          exact fun hA => hn.2.2 hA List.mem_cons_self
        have hL' : lists' (.rtlist (.key itEvent.key)) = A ++ B := by
          rw [herase, hL, List.erase_append_right _ hA, List.erase_cons_head]
        rw [hit]
        exact ⟨h'.continueWith _, A, B, hL', hcursor.leave h'.pool.linked hL'⟩
    | spawned | resumed | initialized => exact h'.continueWith _

/-- A suspended event is in the queue; then the caller goes on. -/
theorem InUse.suspend (h : InUse script size strict S lists pending x.event) (hkey : OnKey lists x)
    (hsuspended : (S.event x.event).execCtx.status = .suspended) (wakeUp : ℕ) :
    ∃ S' pending', S.schedule x.event wakeUp = some S' ∧
      Inv script size strict
        (S'.continueWith (Execution.next S'.pEvents x.itScriptEvent x.caller)) lists pending' := by
  obtain ⟨S', hrun, hdata, -⟩ := h.data.schedule h.notPending h.list ⟨hsuspended, h.handler⟩ wakeUp
  have hmem : x.event ∈ pending ++ [x.event] := List.mem_append_right _ List.mem_cons_self
  have h' : Data script size strict S' lists (pending ++ [x.event]) [] :=
    hdata.settle (fun _ _ _ => hmem) fun _ => .inl hmem
  refine ⟨S', pending ++ [x.event], hrun, ?_⟩
  obtain ⟨event, it, isNote, caller⟩ := x
  cases caller with
  | recycled itEvent =>
      obtain ⟨-, A, B, hL, hcursor⟩ := hkey itEvent rfl
      have hL' : lists (.rtlist (.key itEvent.key)) = (A ++ [event]) ++ B := by
        rw [hL, List.append_assoc, List.singleton_append]
      exact ⟨h'.continueWith _, A ++ [event], B, hL', hcursor.stay h'.pool.linked hL⟩
  | spawned | resumed | initialized => exact h'.continueWith _

/-- Aborting a callback changes the flags of its context. -/
theorem signalAbort_event (S : ScriptChannel L) (m k : ℕ) :
    ((S.signalAbort m).event k).handlers = (S.event k).handlers ∧
      ((S.signalAbort m).event k).currentHandler = (S.event k).currentHandler ∧
      ((S.signalAbort m).event k).autoAbortByParent = (S.event k).autoAbortByParent ∧
      ((S.signalAbort m).event k).execCtx.status = (S.event k).execCtx.status ∧
      (k ≠ m → (S.signalAbort m).event k = S.event k) := by
  by_cases hk : k = m
  · subst hk
    rw [ScriptChannel.signalAbort, Data.modify_self]
    exact ⟨rfl, rfl, rfl, rfl, fun h => absurd rfl h⟩
  · have heq : (S.signalAbort m).event k = S.event k := Data.modify_of_ne S hk _
    rw [heq]
    exact ⟨rfl, rfl, rfl, rfl, fun _ => rfl⟩

/-- A strict run aborts the children that wait in the queue. -/
theorem Data.abortChildren {out : List ℕ} (ids : List ℕ)
    (h : Data script size strict S lists pending out) (hn : n ∉ pending)
    (hids : strict → ∀ id ∈ ids, ∀ child ∈ (S.pEvents.fromID id).index,
      (S.event child).autoAbortByParent = true → child ∈ pending) :
    Data script size strict (S.abortChildren ids) lists pending out ∧
      (S.abortChildren ids).pEvents = S.pEvents ∧ (S.abortChildren ids).control = S.control ∧
      ((S.abortChildren ids).event n).handler = (S.event n).handler ∧
      ((S.abortChildren ids).event n).execCtx.status = (S.event n).execCtx.status ∧
      (strict → (S.abortChildren ids).event n = S.event n) := by
  induction ids generalizing S with
  | nil => exact ⟨h, rfl, rfl, rfl, rfl, fun _ => rfl⟩
  | cons id ids ih =>
      have hrest : strict → ∀ id ∈ ids, ∀ child ∈ (S.pEvents.fromID id).index,
          (S.event child).autoAbortByParent = true → child ∈ pending :=
        fun hs id hid => hids hs id (List.mem_cons_of_mem _ hid)
      rw [ScriptChannel.abortChildren, List.foldl_cons]
      cases hindex : (S.pEvents.fromID id).index with
      | none => exact ih h hrest
      | some child =>
          dsimp only
          split
          · next hauto =>
            have hchild : strict → child ∈ pending := fun hs =>
              hids hs id List.mem_cons_self child hindex hauto
            have h₁ := h.signalAbort fun hs => .inl (hchild hs)
            have hfields := S.signalAbort_event child
            obtain ⟨hdata, hpool, hcontrol, hhandler, hstatus, hsame⟩ := ih h₁ fun hs id hid c hc ha =>
              hrest hs id hid c hc ((hfields c).2.2.1 ▸ ha)
            obtain ⟨hh, hcurrent, -, hst, hne⟩ := hfields n
            refine ⟨hdata, hpool, hcontrol, hhandler.trans ?_, hstatus.trans hst, fun hs => ?_⟩
            · rw [ScriptEvent.handler, ScriptEvent.handler, hh, hcurrent]
            · have hnc : n ≠ child := by
                rintro rfl
                exact hn (hchild hs)
              exact (hsame hs).trans (hne hnc)
          · exact ih h hrest

/-- What follows a call of `ScriptVM::exec()`. -/
theorem InUse.leave (h : InUse script size strict S lists pending x.event)
    (hcur : x.itScriptEvent.current = .node x.event) {K : List (Frame L)}
    (hst : st.Sound script.handlers K) (hkey : OnKey lists x) (wakeUp : ℕ) (key : Fin 128)
    (hids : strict → st.leave.status ≠ .suspended → ∀ id ∈ (S.event x.event).childHandlerID,
      ∀ child ∈ (S.pEvents.fromID id).index,
        (S.event child).autoAbortByParent = true → child ∈ pending) :
    ∃ S' lists' pending', S.leave script x st wakeUp key = some S' ∧
      Inv script size strict S' lists' pending' := by
  obtain ⟨K', hleave, -⟩ := hst.leave
  set S₁ : ScriptChannel L := { S with global := st.global } with hS₁
  have hdata₁ : Data script size strict S₁ lists pending [x.event] := h.data.congr rfl rfl rfl rfl
  set f : ScriptEvent L (Fin 128) → ScriptEvent L (Fin 128) := fun e =>
    { e with execCtx := st.leave, executionSlices := e.executionSlices + 1 } with hf
  set S₂ := S₁.modify x.event f with hS₂
  have hdata₂ : Data script size strict S₂ lists pending [x.event] :=
    hdata₁.modify_out h.notPending (List.mem_singleton.mpr rfl) ⟨K', hleave⟩
      (h.data.handlers x.event)
  have hevent₂ : S₂.event x.event = f (S.event x.event) := Data.modify_self _ _ _
  have hin₂ : InUse script size strict S₂ lists pending x.event := by
    refine ⟨hdata₂, h.notPending, h.list, ?_⟩
    rw [hevent₂]
    exact h.handler
  have hmem : ∀ {S : ScriptChannel L} {out : List ℕ},
      Data script size strict S lists pending out → ∀ handler,
        (S.event x.event).handler = some handler → handler ∈ script.handlers :=
    fun h handler hh => h.handlers x.event handler (List.mem_of_getElem? hh)
  unfold ScriptChannel.leave
  simp only
  rw [← hS₁, ← hf, ← hS₂]
  by_cases hstatus : st.leave.status = .suspended
  · rw [if_pos hstatus]
    have hsuspended : (S₂.event x.event).execCtx.status = .suspended := by
      rw [hevent₂]
      exact hstatus
    obtain ⟨S', pending', hrun, hinv⟩ := hin₂.suspend hkey hsuspended wakeUp
    cases hcaller : x.caller with
    | initialized =>
        obtain ⟨handler, hhandler⟩ := Option.ne_none_iff_exists'.mp hin₂.handler
        refine ⟨_, lists, pending, ?_, hin₂.enter hcur hkey (hmem hdata₂ handler hhandler)⟩
        simp only [hhandler, Option.map_some]
    | spawned | resumed | recycled itEvent =>
        rw [hcaller] at hinv
        refine ⟨_, lists, pending', ?_, hinv⟩
        simp only [hrun, Option.bind_eq_bind, Option.bind_some]
        rfl
  · rw [if_neg hstatus]
    have hchild : ∀ m, (S₂.event m).autoAbortByParent = (S.event m).autoAbortByParent := by
      intro m
      by_cases hm : m = x.event
      · subst hm
        rw [hevent₂]
      · rw [hS₂, Data.modify_of_ne _ hm]
    obtain ⟨hdata₃, -, -, hhandler₃, hstatus₃, hsame₃⟩ := hdata₂.abortChildren
      (S₂.event x.event).childHandlerID h.notPending fun hs id hid c hc ha => by
        rw [hevent₂] at hid
        rw [hchild] at ha
        exact hids hs hstatus id hid c hc ha
    set S₃ := S₂.abortChildren (S₂.event x.event).childHandlerID with hS₃
    have hended : (S₃.event x.event).execCtx.status ≠ .suspended := by
      rw [hstatus₃, hevent₂]
      exact hstatus
    have hfresh : strict → (S₃.event x.event).execCtx.Fresh script.handlers := by
      intro hs
      rw [hsame₃ hs, hevent₂]
      exact fresh_leave hst hstatus
    split
    · obtain ⟨lists', hinv⟩ := hdata₃.finish hcur h.notPending h.list hended hfresh hkey key
      exact ⟨_, lists', pending, rfl, hinv⟩
    · -- the next handler of the list, if there is one
      set S₄ := S₃.modify x.event fun e => { e with currentHandler := e.currentHandler + 1 }
        with hS₄
      have hdata₄ : Data script size strict S₄ lists pending [x.event] :=
        hdata₃.modify_out h.notPending (List.mem_singleton.mpr rfl) (hdata₃.sound x.event)
          (hdata₃.handlers x.event)
      have hctx₄ : (S₄.event x.event).execCtx = (S₃.event x.event).execCtx := by
        rw [hS₄, Data.modify_self]
      cases hhandler : (S₄.event x.event).handler with
      | some handler =>
          have hin₄ : InUse script size strict S₄ lists pending x.event :=
            ⟨hdata₄, h.notPending, h.list, by rw [hhandler]; exact Option.some_ne_none _⟩
          exact ⟨_, lists, pending, rfl, hin₄.enter hcur hkey (hmem hdata₄ handler hhandler)⟩
      | none =>
          rw [← hctx₄] at hended hfresh
          obtain ⟨lists', hinv⟩ := hdata₄.finish hcur h.notPending h.list hended hfresh hkey key
          exact ⟨_, lists', pending, rfl, hinv⟩

end ScriptChannel

end LinuxSampler
