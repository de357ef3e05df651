import LinuxSampler.ScriptFork

/-!
# fork() in runs of a channel

What the steps of a channel do to the IDs of its pool, to the lists of
children and to the numbers of the children. From it follows what
`fork()` does in every state of a run that releases no event of the queue
with the list of a key, and that the first result of `fork()` in a child
is its number.
-/

namespace LinuxSampler

variable {L : ScriptLang}

namespace ScriptChannel

variable {S S' : ScriptChannel L} {n : ℕ} {execCtx : ExecContext L} {count : ℤ}
  {autoAbort : Bool} {now : ℕ} {script : InstrumentScript L} {size reserved : ℕ} {strict : Prop}
  {lists : Lists EventList} {pending : List ℕ}

/-! ## Effects -/

/-- What the engine does to the pool and to the data of `fork()`, where the events in `T` may
be started once more. -/
structure Effect (T : Set ℕ) (S S' : ScriptChannel L) : Prop where
  sized : ∀ {size reserved}, Pool.Sized size reserved S.pEvents → Pool.Sized size reserved S'.pEvents
  listed : ∀ m, (S.event m).Listed → (S'.event m).Listed
  forkIndex : ∀ m ∉ T, (S'.event m).forkIndex = (S.event m).forkIndex

namespace Effect

variable {T : Set ℕ} {S'' : ScriptChannel L} {it : Iterator EventList} {list : EventList}

/-- The events are the same. -/
theorem of_event (hsized : ∀ {size reserved}, Pool.Sized size reserved S.pEvents →
    Pool.Sized size reserved S'.pEvents) (hevent : S'.event = S.event) : Effect T S S' where
  sized := hsized
  listed m h := by rwa [hevent]
  forkIndex m _ := by rw [hevent]

theorem refl (S : ScriptChannel L) : Effect T S S := of_event id rfl

theorem trans (h : Effect T S S') (h' : Effect T S' S'') : Effect T S S'' where
  sized hs := h'.sized (h.sized hs)
  listed m hm := h'.listed m (h.listed m hm)
  forkIndex m hm := (h'.forkIndex m hm).trans (h.forkIndex m hm)

theorem modify {f : ScriptEvent L (Fin 128) → ScriptEvent L (Fin 128)}
    (hlisted : (S.event n).Listed → (f (S.event n)).Listed)
    (hindex : n ∈ T ∨ (f (S.event n)).forkIndex = (S.event n).forkIndex) :
    Effect T S (S.modify n f) where
  sized := id
  listed m hm := by
    by_cases hmn : m = n
    · subst hmn
      rw [Data.modify_self]
      exact hlisted hm
    · rwa [Data.modify_of_ne _ hmn]
  forkIndex m hm := by
    by_cases hmn : m = n
    · subst hmn
      rw [Data.modify_self]
      exact hindex.resolve_left hm
    · rw [Data.modify_of_ne _ hmn]

/-! The queue and the pool -/

theorem schedule {time : ℕ} (hrun : S.schedule n time = some S') : Effect T S S' := by
  obtain ⟨queue, -, hrun⟩ := Option.bind_eq_some_iff.mp hrun
  cases hrun
  have hrecord : Effect T S (S.record [.timed n (S.queued n)]) := of_event id rfl
  exact hrecord.trans ((modify (n := n) (f := fun e => { e with scheduleTime := time }) id
    (.inr rfl)).trans (of_event id rfl))

theorem unschedule (hrun : S.unschedule n = some S') : Effect T S S' := by
  obtain ⟨queue, -, hrun⟩ := Option.bind_eq_some_iff.mp hrun
  cases hrun
  exact of_event id rfl

theorem scheduleResume {forever : Bool}
    (hrun : S.scheduleResumeOfScriptCallback it now forever = some S') : Effect T S S' := by
  unfold scheduleResumeOfScriptCallback at hrun
  split at hrun
  · cases hrun
    exact .refl S
  · next m _ =>
    dsimp only at hrun
    set S₁ := if forever then S.modify m fun e => { e with ignoreAllWaitCalls := true } else S
      with hS₁
    have h₁ : Effect T S S₁ := by
      rw [hS₁]
      split
      · exact modify id (.inr rfl)
      · exact .refl S
    split at hrun
    · obtain rfl := Option.some.inj hrun
      exact h₁
    · split at hrun
      · obtain rfl := Option.some.inj hrun
        exact h₁
      · obtain ⟨S₂, hunschedule, hschedule⟩ := Option.bind_eq_some_iff.mp hrun
        exact h₁.trans ((unschedule hunschedule).trans (schedule hschedule))

theorem free : Effect T S (S.free it).1 := of_event (fun hs => hs.free it) rfl

theorem keep {key : Fin 128} : Effect T S (S.keep it key).1 :=
  of_event (fun hs => hs.moveToEndOf it _) rfl

theorem clear (hrun : S.clear list = some S') : Effect T S S' := by
  obtain ⟨P, hclear, hrun⟩ := Option.bind_eq_some_iff.mp hrun
  cases hrun
  exact of_event (fun hs => hs.clear hclear) rfl

theorem clearKeys (hrun : S.clearKeys = some S') : Effect T S S' := by
  unfold ScriptChannel.clearKeys at hrun
  revert hrun
  induction List.finRange 128 generalizing S with
  | nil =>
      intro hrun
      obtain rfl := Option.some.inj hrun
      exact .refl S
  | cons key keys ih =>
      intro hrun
      rw [List.foldlM_cons] at hrun
      obtain ⟨S₁, hclear, hrun⟩ := Option.bind_eq_some_iff.mp hrun
      exact (clear hclear).trans (ih hrun)

theorem resetEvents (hrun : S.resetEvents = some S') : Effect T S S' := by
  obtain ⟨S₁, hkeys, hrun⟩ := Option.bind_eq_some_iff.mp hrun
  obtain ⟨queue, -, hrun⟩ := Option.bind_eq_some_iff.mp hrun
  have hqueue : Effect T S₁ { S₁ with suspendedEvents := queue } := of_event id rfl
  exact (clearKeys hkeys).trans (hqueue.trans (clear hrun))

theorem allocAppend : Effect T S { S with pEvents := (S.pEvents.allocAppend list).1 } :=
  of_event (fun hs => hs.allocAppend list) rfl

/-! Executions -/

theorem signalAbort {m : ℕ} : Effect T S (S.signalAbort m) := modify id (.inr rfl)

theorem abortChildren (ids : List ℕ) : Effect T S (S.abortChildren ids) := by
  induction ids generalizing S with
  | nil => exact .refl S
  | cons id ids ih =>
      rw [ScriptChannel.abortChildren, List.foldl_cons]
      refine trans ?_ ih
      split
      · exact .refl S
      · split
        · exact signalAbort
        · exact .refl S

variable {x : Execution} {st : ExecState L} {key : Fin 128}

theorem finish : Effect T S (S.finish script x key) := by
  unfold ScriptChannel.finish
  dsimp only
  split
  · exact (keep (S := S)).trans (of_event id rfl)
  · exact (free (S := S)).trans (of_event id rfl)

theorem leave {wakeUp : ℕ} (hrun : S.leave script x st wakeUp key = some S') : Effect T S S' := by
  unfold ScriptChannel.leave at hrun
  dsimp only at hrun
  set S₁ : ScriptChannel L := { S with global := st.global } with hS₁
  set S₂ := S₁.modify x.event fun e =>
    { e with execCtx := st.leave, executionSlices := e.executionSlices + 1 } with hS₂
  have h₂ : Effect T S S₂ := by
    have h₁ : Effect T S S₁ := of_event id rfl
    exact h₁.trans (modify id (.inr rfl))
  split at hrun
  · split at hrun
    · obtain ⟨handler, -, rfl⟩ := Option.map_eq_some_iff.mp hrun
      exact h₂.trans (of_event id rfl)
    · obtain ⟨S₃, hschedule, hrun⟩ := Option.bind_eq_some_iff.mp hrun
      cases hrun
      exact h₂.trans ((schedule hschedule).trans (of_event id rfl))
  · have h₃ : Effect T S (S₂.abortChildren (S₂.event x.event).childHandlerID) :=
      h₂.trans (abortChildren _)
    split at hrun
    · cases hrun
      exact h₃.trans finish
    · have h₄ := h₃.trans (modify (n := x.event)
        (f := fun e => { e with currentHandler := e.currentHandler + 1 }) id (.inr rfl))
      split at hrun
      · cases hrun
        exact h₄.trans (of_event id rfl)
      · cases hrun
        exact h₄.trans finish

theorem processScriptEvent {itEvent : MidiCause} {type : VMEventHandlerType}
    {handler : Statements L} {caller : Caller} (hT : ∀ m ∈ it.index, m ∈ T) :
    Effect T S (S.processScriptEvent script itEvent type handler it caller) := by
  unfold ScriptChannel.processScriptEvent
  split
  · exact of_event id rfl
  · next m hm =>
    have h₁ : Effect T S (S.record [.timed m (S.queued m)]) := of_event id rfl
    refine h₁.trans (trans (modify (n := m) (f := .spawn itEvent type handler) (fun _ => ?_)
      (.inl (hT m hm))) (of_event id rfl))
    exact fun _ => ⟨Nat.zero_le _, fun _ hid => nomatch hid⟩

theorem processEventByScript {itEvent : MidiCause} {type : VMEventHandlerType}
    {pEventHandler : VMEventHandler L}
    (hT : ∀ m ∈ (S.pEvents.allocAppend .events).2.index, m ∈ T)
    (hrun : S.processEventByScript script itEvent type pEventHandler = some S') :
    Effect T S S' := by
  unfold ScriptChannel.processEventByScript at hrun
  split at hrun
  · cases hrun
    exact of_event id rfl
  · dsimp only at hrun
    split at hrun
    · split at hrun
      · cases hrun
      · next m _ =>
        cases hrun
        exact (allocAppend (S := S)).trans ((modify (n := m) id (.inr rfl)).trans
          (processScriptEvent hT))
    · cases hrun
      exact (allocAppend (S := S)).trans (processScriptEvent hT)

theorem recycle {itEvent : MidiCause} {handler : Statements L} (hT : ∀ m ∈ it.index, m ∈ T) :
    Effect T S (S.recycle script itEvent it handler) := by
  unfold ScriptChannel.recycle
  split
  · exact of_event id rfl
  · exact processScriptEvent hT

theorem resume {fragmentEnd : ℕ} (hrun : S.resume script fragmentEnd = some S') :
    Effect T S S' := by
  unfold ScriptChannel.resume at hrun
  split at hrun
  · cases hrun
    exact .refl S
  · obtain ⟨m, -, hrun⟩ := Option.bind_eq_some_iff.mp hrun
    split at hrun
    · cases hrun
      exact .refl S
    · obtain ⟨S₁, hunschedule, hrun⟩ := Option.bind_eq_some_iff.mp hrun
      dsimp only at hrun
      split at hrun
      · cases hrun
        exact (unschedule hunschedule).trans (of_event id rfl)
      · cases hrun
        exact (unschedule hunschedule).trans finish

theorem execInit {pEventHandler : VMEventHandler L}
    (hT : ∀ m ∈ (S.pEvents.allocAppend .events).2.index, m ∈ T)
    (hrun : S.execInit script pEventHandler = some S') : Effect T S S' := by
  unfold ScriptChannel.execInit at hrun
  dsimp only at hrun
  split at hrun
  · cases hrun
  · next m hm =>
    cases hrun
    refine (allocAppend (S := S)).trans (trans (modify (n := m)
      (f := .spawnInit pEventHandler.statements) (fun _ => ?_) (.inl (hT m hm))) (of_event id rfl))
    exact fun _ => ⟨Nat.zero_le _, fun _ hid => nomatch hid⟩

end Effect

theorem Effect.numbered {T : Set ℕ} (h : Effect T S S') (hS : Numbered size reserved S) :
    Numbered size reserved S' :=
  ⟨h.sized hS.sized, fun m => h.listed m (hS.listed m)⟩

/-! ## Steps -/

/-- The event `c` is neither spawned once more for a release of its key, nor does it call
`fork()`. -/
def Spares (c : ℕ) (S : ScriptChannel L) : ChannelAction → Prop
  | .recycle => ∀ it ∈ S.control.cursor, c ∉ it.index
  | .call (.fork _ _ _ _) => ∀ e ∈ S.control.execution, e.1.event ≠ c
  | _ => True

/-- The events that a step may start. -/
def Started (lists : Lists EventList) (S : ScriptChannel L) (action : ChannelAction) : Set ℕ :=
  { m | (∀ list, m ∉ lists (.rtlist list)) ∨ ¬ S.Spares m action }

theorem Data.started_of_alloc {out : List ℕ} {action : ChannelAction}
    (h : Data script size strict S lists pending out) :
    ∀ m ∈ (S.pEvents.allocAppend .events).2.index, m ∈ Started lists S action := by
  intro m hm
  have hfree := List.mem_of_mem_getLast? (h.pool.getLast?_freelist hm)
  exact .inl fun list => h.pool.linked.notMem_of_freelist hfree

theorem Effect.fork {K : List (Frame L)} {T : Set ℕ} (hctx : execCtx.Sound script.handlers K)
    (hsize : size < 2 ^ 31) (h : InUse script size strict S lists pending n)
    (hS : Numbered size reserved S) (hn : n ∈ T) (hT : ∀ m ∈ lists .freelist, m ∈ T)
    (hrun : S.fork n execCtx count autoAbort now = some S') :
    Numbered size reserved S' ∧ ∀ m ∉ T, (S'.event m).forkIndex = (S.event m).forkIndex := by
  unfold ScriptChannel.fork at hrun
  split at hrun
  · cases hrun
    have hmodify : Effect T S (S.modify n fun e => { e with forkIndex := 0 }) :=
      Effect.modify id (.inl hn)
    exact ⟨hmodify.numbered hS, hmodify.forkIndex⟩
  · split at hrun
    · cases hrun
      exact ⟨hS, fun _ _ => rfl⟩
    · next hlimit =>
      split at hrun
      · cases hrun
        exact ⟨hS, fun _ _ => rfl⟩
      · next hfree =>
        have hfits : ¬ S.Exceeds n count := by
          rw [hasFreeScriptCallbacks, decide_eq_true_eq, not_not] at hfree
          rw [Exceeds, not_or]
          exact ⟨hlimit, not_lt.mpr hfree⟩
        obtain ⟨S₁, cs, lists', hloop, hcs, hforked, hin, hsized⟩ :=
          h.forkAll autoAbort now hctx hsize hS hfits
        rw [← execForkLoop_fst, hloop] at hrun
        cases hrun
        obtain ⟨hlength, -⟩ := (exceeds_iff h).mp hfits
        have hcount := (h.listed hS).1
        refine hforked.frame h hsize hS hsized (by omega) fun m hm => hT m ?_
        rw [← h.data.pool.elements_eq, hforked.freelist]
        exact List.mem_append_right _ (List.mem_reverse.mpr hm)

/-- Every step keeps the IDs and the lists, and starts no event that is in use. -/
theorem Inv.effect (h : Inv script size strict S lists pending) (hsize : size < 2 ^ 31)
    (hS : Numbered size reserved S) {action : ChannelAction}
    (hstep : S.step script action = some S') :
    Numbered size reserved S' ∧
      ∀ m ∉ Started lists S action, (S'.event m).forkIndex = (S.event m).forkIndex := by
  have hof : Effect (Started lists S action) S S' → Numbered size reserved S' ∧
      ∀ m ∉ Started lists S action, (S'.event m).forkIndex = (S.event m).forkIndex :=
    fun heffect => ⟨heffect.numbered hS, heffect.forkIndex⟩
  unfold Inv at h
  cases hcontrol : S.control with
  | idle =>
      rw [hcontrol] at h
      refine hof ?_
      simp only [ScriptChannel.step, hcontrol] at hstep
      cases action with
      | event itEvent type =>
          obtain ⟨handler, -, hrun⟩ := Option.bind_eq_some_iff.mp hstep
          exact .processEventByScript h.started_of_alloc hrun
      | resume fragmentEnd => exact .resume hstep
      | init =>
          obtain ⟨handler, -, hrun⟩ := Option.bind_eq_some_iff.mp hstep
          exact .execInit h.started_of_alloc hrun
      | freeKey itSelf => exact .clear hstep
      | resetKeys => exact .clearKeys hstep
      | resetEvents => exact .resetEvents hstep
      | recycle | call _ | turn | leave _ _ => cases hstep
  | recycling itEvent it =>
      refine hof ?_
      simp only [ScriptChannel.step, hcontrol] at hstep
      cases action with
      | recycle =>
          obtain ⟨handler, -, rfl⟩ := Option.map_eq_some_iff.mp hstep
          refine .recycle fun m hm => .inr fun hspares => hspares it ?_ hm
          rw [hcontrol]
          rfl
      | event _ _ | call _ | turn | leave _ _ | resume _ | init | freeKey _ | resetKeys
        | resetEvents => cases hstep
  | executing x st =>
      rw [hcontrol] at h
      obtain ⟨hin, -, ⟨K, hK⟩, -⟩ := h
      simp only [ScriptChannel.step, hcontrol] at hstep
      cases action with
      | call call =>
          simp only at hstep
          split at hstep
          · cases call with
            | fork count autoAbort polyphonic now =>
                have hctx : ({ st.ctx with polyphonic := polyphonic } : ExecContext L).Sound
                  script.handlers K := hK.ctx.congr rfl rfl
                refine Effect.fork hctx hsize hin hS (.inr fun hspares => ?_) (fun m hm => .inl
                  fun list => hin.data.pool.linked.notMem_of_freelist hm) hstep
                exact hspares (x, st) (by rw [hcontrol]; rfl) rfl
            | abort id =>
                refine hof ?_
                unfold ScriptChannel.call at hstep
                dsimp only at hstep
                split at hstep
                · cases hstep
                  exact .refl S
                · split at hstep
                  · cases hstep
                    exact .refl S
                  · cases hstep
                    exact .signalAbort
            | stopWait id disableWaitForever => exact hof (.scheduleResume hstep)
          · cases hstep
      | turn =>
          simp only at hstep
          split at hstep
          · cases hstep
            exact hof (.of_event id rfl)
          · cases hstep
      | leave wakeUp key =>
          simp only at hstep
          split at hstep
          · cases hstep
          · exact hof (.leave hstep)
      | event _ _ | recycle | resume _ | init | freeKey _ | resetKeys | resetEvents => cases hstep

/-! ## Runs -/

theorem Inv.run_numbered {actions : List ChannelAction}
    (h : Inv script size False S lists pending) (hsize : size < 2 ^ 31)
    (hS : Numbered size reserved S) (hok : RunOk script SparesQueued actions S)
    (hrun : S.run script actions = some S') :
    Numbered size reserved S' ∧ ∃ lists' pending', Inv script size False S' lists' pending' := by
  induction actions generalizing S lists pending with
  | nil =>
      cases hrun
      exact ⟨hS, lists, pending, h⟩
  | cons action actions ih =>
      obtain ⟨hfirst, hrest⟩ := hok
      rw [ScriptChannel.run, List.foldlM_cons] at hrun
      obtain ⟨S₁, hstep, hrun⟩ := Option.bind_eq_some_iff.mp hrun
      obtain ⟨lists₁, pending₁, h₁⟩ := h.step hfirst (fun hs => hs.elim) hstep
      exact ih h₁ (h.effect hsize hS hstep).1 (hrest S₁ hstep) hrun

/-- The event `c` is in use, it is not spawned once more for a release of its key, and it does
not call `fork()`. -/
def Keeps (c : ℕ) (S : ScriptChannel L) (action : ChannelAction) : Prop :=
  S.pEvents.Allocated c ∧ S.Spares c action

/-- Until then a child keeps its number. -/
theorem Inv.run_forkIndex {c : ℕ} {actions : List ChannelAction}
    (h : Inv script size False S lists pending) (hsize : size < 2 ^ 31)
    (hS : Numbered size reserved S)
    (hok : RunOk script (fun S a => S.SparesQueued a ∧ S.Keeps c a) actions S)
    (hrun : S.run script actions = some S') : (S'.event c).forkIndex = (S.event c).forkIndex := by
  induction actions generalizing S lists pending with
  | nil =>
      cases hrun
      rfl
  | cons action actions ih =>
      obtain ⟨⟨hfirst, hkeeps, hspares⟩, hrest⟩ := hok
      rw [ScriptChannel.run, List.foldlM_cons] at hrun
      obtain ⟨S₁, hstep, hrun⟩ := Option.bind_eq_some_iff.mp hrun
      obtain ⟨lists₁, pending₁, h₁⟩ := h.step hfirst (fun hs => hs.elim) hstep
      obtain ⟨hS₁, hindex⟩ := h.effect hsize hS hstep
      rw [ih h₁ hS₁ (hrest S₁ hstep) hrun, hindex c]
      obtain ⟨out, hdata, -⟩ := h.data
      obtain ⟨list, hc⟩ := hdata.pool.allocated_iff.mp hkeeps
      rintro (hunused | hstarted)
      · exact hunused list hc
      · exact hstarted hspares

/-- The first result of `fork()` in the event `c`, whatever it does before. -/
def FirstResult (script : InstrumentScript L) (S : ScriptChannel L) (c value : ℕ) : Prop :=
  ∀ actions S', RunOk script (fun S a => S.SparesQueued a ∧ S.Keeps c a) actions S →
    S.run script actions = some S' → ∀ execCtx count autoAbort now,
      ∃ S'', S'.execFork c execCtx count autoAbort now = some (S'', .success value)

/-- A call of `fork()` by an event that is no freshly forked child. It returns -1 and leaves the
channel as it is exactly when a limit is exceeded; else it returns 0 and creates all children. -/
def ForkSound (script : InstrumentScript L) (S : ScriptChannel L) : Prop :=
  (∀ n, (S.event n).Listed) ∧
    ∀ x st, S.control = .executing x st → st.Guard → (S.event x.event).forkIndex = 0 →
      ∀ count : ℤ, -2 ^ 63 ≤ count → count < 2 ^ 63 → ∀ autoAbort polyphonic now,
        let execCtx : ExecContext L := { st.ctx with polyphonic := polyphonic }
        let result := S.execFork x.event execCtx count autoAbort now
        (S.Exceeds x.event count → result = some (S, .success (-1))) ∧
          (¬ S.Exceeds x.event count → ∃ S' cs, result = some (S', .success 0) ∧
            cs.length = count.toNat ∧ Forked 0 S S' x.event execCtx autoAbort now cs ∧
            (∀ m ∈ x.event :: cs, (S'.pEvents.fromID (S'.pEvents.getID m)).index = some m) ∧
            ∀ (i : ℕ) (hi : i < cs.length), FirstResult script S' cs[i] (i + 1))

theorem Inv.forkSound (h : Inv script size False S lists pending) (hsize : size < 2 ^ 31)
    (hS : Numbered size reserved S) : S.ForkSound script := by
  refine ⟨hS.listed, fun x st hcontrol hguard hindex count hmin hmax autoAbort polyphonic now => ?_⟩
  unfold Inv at h
  rw [hcontrol] at h
  obtain ⟨hin, hcur, ⟨K, hK⟩, hkey⟩ := h
  set execCtx : ExecContext L := { st.ctx with polyphonic := polyphonic } with hexecCtx
  have hctx : execCtx.Sound script.handlers K := hK.ctx.congr rfl rfl
  have hlength : (S.pEvents.elements .freelist).length < 2 ^ 62 := by
    have hle := hin.data.pool.length_le .freelist
    rw [hin.data.pool.poolsize] at hle
    rw [hin.data.pool.elements_eq]
    omega
  have heq := execFork_eq execCtx autoAbort now hindex (hin.listed hS).1 hlength hmin hmax
  refine ⟨fun hexceeds => by rw [heq, if_pos hexceeds], fun hfits => ?_⟩
  obtain ⟨S', cs, lists', hloop, hcs, hforked, hin', hsized⟩ :=
    hin.forkAll autoAbort now hctx hsize hS hfits
  refine ⟨S', cs, by rw [heq, if_neg hfits, hloop], hcs, hforked,
    fun m hm => hforked.fromID hin' hsize hsized hm, fun i hi actions S'' hok hrun execCtx' count'
      autoAbort' now' => ?_⟩
  have hcalled : Called script size False S lists x.event S' := by
    refine ⟨⟨lists', pending ++ cs, hin', fun key => ?_⟩, hforked.control⟩
    rw [← hin'.data.keyEvents_eq, hforked.keys, hin.data.keyEvents_eq]
  obtain ⟨lists₁, pending₁, hinv⟩ := hcalled.inv hcontrol hcur ⟨K, hK⟩ hkey
  obtain ⟨hfits', -⟩ := (exceeds_iff hin).mp hfits
  have hcount := (hin.listed hS).1
  obtain ⟨hS', -⟩ := hforked.frame (T := {m | m ∈ cs}) hin hsize hS hsized (by omega)
    fun m hm => hm
  have hnumber : (S''.event cs[i]).forkIndex = i + 1 := by
    rw [hinv.run_forkIndex hsize hS' hok hrun, hforked.child i hi]
    exact congrArg (· + 1) (Nat.zero_add i)
  refine ⟨S''.modify cs[i] fun e => { e with forkIndex := 0 }, ?_⟩
  unfold execFork
  rw [hnumber, if_pos (Nat.succ_ne_zero i)]

/-- In every state of a run without such steps. -/
theorem run_forkSound {sizes : PolyphonicSizes} {S₀ : ScriptChannel L}
    {actions : List ChannelAction} (hS : S₀.Loaded script sizes size)
    (hpool : S₀.pEvents = .create EventList size reserved) (hsize : size < 2 ^ 31)
    (hok : RunOk script SparesQueued actions S₀) (hrun : S₀.run script actions = some S) :
    S.ForkSound script := by
  obtain ⟨lists, h⟩ : ∃ lists, Inv script size False S₀ lists [] := hS.inv
  have hnumbered : Numbered size reserved S₀ := by
    refine ⟨hpool ▸ Pool.create_sized size reserved, fun m hm => ?_⟩
    exact absurd (hS.handlers m) hm
  obtain ⟨hS', lists', pending', h'⟩ := h.run_numbered hsize hnumbered hok hrun
  exact h'.forkSound hsize hS'

/-- A note handler forks and waits, and its child is resumed. -/
def forkedNote : List ChannelAction :=
  [.event ⟨60, 5, 1⟩ .note, .call (.fork 1 true ⟨[], [], []⟩ 500), .turn, .turn, .leave 1000 60,
    .resume 2000]

theorem run_forkSound_forkedNote :
    ∃ S, (ofScript waitingNotes).run waitingNotes forkedNote = some S ∧
      S.ForkSound waitingNotes := by
  have hrun : ((ofScript waitingNotes).run waitingNotes forkedNote).isSome = true := by
    decide +kernel
  obtain ⟨S, hS⟩ := Option.isSome_iff_exists.mp hrun
  exact ⟨S, hS, run_forkSound (loaded_ofScript waitingNotes) rfl (by decide) (by decide +kernel) hS⟩

/-- A release handler of key 1 is suspended; `FreeKey()` of some key releases its event, which
is resumed. -/
def freedRelease : List ChannelAction :=
  [.event ⟨1, 5, 1⟩ .note, .turn, .turn, .turn, .leave 1000 1, .event ⟨1, 7, 2⟩ .release,
    .recycle, .turn, .turn, .leave 1000 1, .recycle, .freeKey true, .resume 2000]

/-- The next free event is the one that is executed. -/
def executesFree (S : ScriptChannel counterLang) : Bool :=
  match S.control with
  | .executing x st => st.Guard ∧ (S.event x.event).forkIndex = 0 ∧
      (S.event x.event).countChildHandlers = 0 ∧
      (S.pEvents.elements .freelist).getLast? = some x.event
  | _ => false

/-- The event becomes its own child. -/
theorem not_run_forkSound :
    ¬ ∀ (L : ScriptLang) (script : InstrumentScript L) (sizes : PolyphonicSizes)
      (size reserved : ℕ) (S₀ S : ScriptChannel L) (actions : List ChannelAction),
      S₀.Loaded script sizes size → S₀.pEvents = .create EventList size reserved →
        size < 2 ^ 31 → S₀.run script actions = some S → S.ForkSound script := by
  intro h
  have hfree : ((ofScript waitingReleases).run waitingReleases freedRelease).map executesFree =
      some true := by decide +kernel
  obtain ⟨S, hrun, hexecutes⟩ := Option.map_eq_some_iff.mp hfree
  have hsound := (h _ _ _ _ _ _ S _ (loaded_ofScript waitingReleases) rfl (by decide) hrun).2
  unfold executesFree at hexecutes
  split at hexecutes
  · next x st hcontrol =>
    obtain ⟨hguard, hindex, hcount, hlast⟩ := of_decide_eq_true hexecutes
    obtain ⟨-, hall⟩ := hsound x st hcontrol hguard hindex 1 (by decide) (by decide) true
      st.ctx.polyphonic 0
    have hmem := List.mem_of_mem_getLast? hlast
    have hfits : ¬ S.Exceeds x.event 1 := by
      rintro (hlimit | hlimit)
      · rw [hcount] at hlimit
        exact absurd hlimit (by decide)
      · have := List.length_pos_of_mem hmem
        omega
    obtain ⟨S', cs, -, hcs, hforked, -⟩ := hall hfits
    obtain ⟨c, rfl⟩ := List.length_eq_one_iff.mp hcs
    -- the child is the parent, which has no number
    have hfreelist := hforked.freelist
    rw [hfreelist, List.reverse_singleton, List.getLast?_concat] at hlast
    cases hlast
    have hchild := congrArg ScriptEvent.forkIndex (hforked.child 0 Nat.one_pos)
    have hparent := congrArg ScriptEvent.forkIndex hforked.parent
    rw [List.getElem_cons_zero, hparent] at hchild
    have hnumber : 0 = 1 := hindex.symm.trans hchild
    cases hnumber
  · cases hexecutes

end ScriptChannel

end LinuxSampler
