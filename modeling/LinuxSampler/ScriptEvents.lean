import LinuxSampler.PoolLoop
import LinuxSampler.RtAvlQueue
import LinuxSampler.ScriptChannel
import LinuxSampler.VmTransparency

/-!
# What holds of the script events

The invariant of the pool, the queue and the events of a channel, and
what each operation on them keeps of it. It is stated against the lists
of the pool and the events in the queue, oldest first. Events between two
operations, which may be suspended and not be in the queue, are listed
apart.

In a strict run the invariant says in addition that every other event has
an empty stack.
-/

namespace LinuxSampler

variable {L : ScriptLang}

/-- The next turn is the first one of the handler, on a stack that is
otherwise empty. -/
def ExecState.StartsAt (st : ExecState L) (handler : Statements L) : Prop :=
  st.Guard ∧ st.ctx.Holds [.ofStatement (.list handler)]

/-- A fresh context executes a handler from its start. -/
theorem ExecContext.Fresh.startsAt {handlers : List (Statements L)} {ctx : ExecContext L}
    (hctx : ctx.Fresh handlers) {handler : Statements L} (hmem : handler ∈ handlers)
    (autoSuspend : Bool) (global : L.Global) :
    (ExecState.enter autoSuspend ctx handler global).StartsAt handler := by
  have hsound : ctx.Sound handlers [] := ⟨hctx.size, .nil_of_neg hctx.stackFrame, trivial⟩
  have hneg : ctx.stackFrame < 0 := by rw [hctx.stackFrame]; decide
  have hentered := ExecState.Sound.enter hsound hmem autoSuspend global
  rw [if_pos hneg] at hentered
  refine ⟨⟨?_, ?_⟩, hentered.ctx.holds⟩
  · simp only [ExecState.enter, if_pos hneg, ExecState.flags_push]
    exact hctx.flags
  · rw [hentered.ctx.holds.1]
    simp

/-- The event was in the queue. -/
def ChannelLog.queued : ChannelLog L → Bool
  | .timed _ queued | .freed _ queued | .spawned _ queued _ _ => queued

/-- The spawn, if it is one, starts the handler. -/
def ChannelLog.Starts : ChannelLog L → Prop
  | .spawned _ _ handler st => st.StartsAt handler
  | .timed _ _ | .freed _ _ => True

namespace ScriptChannel

variable {script : InstrumentScript L} {size : ℕ} {strict : Prop} {S : ScriptChannel L}
  {lists : Lists EventList} {pending out : List ℕ} {n : ℕ}

/-- The pool stands for `lists` and the queue for `pending`. -/
structure Data (script : InstrumentScript L) (size : ℕ) (strict : Prop) (S : ScriptChannel L)
    (lists : Lists EventList) (pending out : List ℕ) : Prop where
  pool : Pool.Holds size S.pEvents lists
  queue : ∃ t, RTAVLTree.Holds S.scheduleTime true S.suspendedEvents t pending
  log : ∀ entry ∈ S.log, entry.queued = false ∧ (strict → entry.Starts)
  allocated : ∀ n ∈ pending, ∃ list, n ∈ lists (.rtlist list)
  sound : ∀ n, ∃ K, (S.event n).execCtx.Sound script.handlers K
  handlers : ∀ n, ∀ handler ∈ (S.event n).handlers, handler ∈ script.handlers
  suspended : ∀ n ∈ pending,
    (S.event n).execCtx.status = .suspended ∧ (S.event n).handler ≠ none
  waiting : ∀ list, ∀ n ∈ lists (.rtlist list), (S.event n).execCtx.status = .suspended →
    n ∈ pending ∨ n ∈ out
  fresh : strict → ∀ n, n ∈ pending ∨ n ∈ out ∨ (S.event n).execCtx.Fresh script.handlers

namespace Data

theorem queued_iff (h : Data script size strict S lists pending out) (n : ℕ) :
    S.queued n = true ↔ n ∈ pending := by
  obtain ⟨t, hT⟩ := h.queue
  exact hT.tree rfl n

theorem queued_eq_false (h : Data script size strict S lists pending out) (hn : n ∉ pending) :
    S.queued n = false := by
  rw [Bool.eq_false_iff]
  exact fun hq => hn ((h.queued_iff n).mp hq)

theorem keyEvents_eq (h : Data script size strict S lists pending out) (key : Fin 128) :
    S.keyEvents key = lists (.rtlist (.key key)) := by
  rw [keyEvents, h.pool.elements_eq]

theorem notMem_pending (h : Data script size strict S lists pending out)
    (hq : S.queued n = false) : n ∉ pending := by
  intro hp
  rw [(h.queued_iff n).mpr hp] at hq
  cases hq

theorem keyEvents_notMem_pending (h : Data script size strict S lists pending out)
    {key : Fin 128} (hq : ∀ n ∈ S.keyEvents key, S.queued n = false) :
    ∀ n ∈ lists (.rtlist (.key key)), n ∉ pending := by
  intro n hn
  rw [← h.keyEvents_eq] at hn
  exact h.notMem_pending (hq n hn)

theorem mono {out' : List ℕ} (h : Data script size strict S lists pending out)
    (hsub : ∀ n ∈ out, n ∈ out') : Data script size strict S lists pending out' :=
  { h with
    waiting := fun list n hn hs => (h.waiting list n hn hs).imp_right (hsub n)
    fresh := fun hstrict n => (h.fresh hstrict n).imp_right (.imp_left (hsub n)) }

/-- The event `n` is no longer between two operations. -/
theorem settle (h : Data script size strict S lists pending (n :: out))
    (hwaiting : ∀ list, n ∈ lists (.rtlist list) → (S.event n).execCtx.status = .suspended →
      n ∈ pending)
    (hfresh : strict → n ∈ pending ∨ (S.event n).execCtx.Fresh script.handlers) :
    Data script size strict S lists pending out :=
  { h with
    waiting := by
      intro list m hm hs
      rcases h.waiting list m hm hs with hp | ho
      · exact .inl hp
      · rcases List.mem_cons.mp ho with rfl | ho
        · exact .inl (hwaiting list hm hs)
        · exact .inr ho
    fresh := by
      intro hstrict m
      rcases h.fresh hstrict m with hp | ho | hf
      · exact .inl hp
      · rcases List.mem_cons.mp ho with rfl | ho
        · exact (hfresh hstrict).imp_right .inr
        · exact .inr (.inl ho)
      · exact .inr (.inr hf) }

/-- The rest of the channel does not matter. -/
theorem congr {S' : ScriptChannel L} (h : Data script size strict S lists pending out)
    (hpool : S'.pEvents = S.pEvents) (hevent : S'.event = S.event)
    (hqueue : S'.suspendedEvents = S.suspendedEvents) (hlog : S'.log = S.log) :
    Data script size strict S' lists pending out := by
  obtain ⟨h₁, h₂, h₃, h₄, h₅, h₆, h₇, h₈, h₉⟩ := h
  have htime : S'.scheduleTime = S.scheduleTime := by
    funext n
    rw [scheduleTime, scheduleTime, hevent]
  refine ⟨hpool ▸ h₁, ?_, hlog ▸ h₃, h₄, ?_, ?_, ?_, ?_, ?_⟩
  · rw [hqueue, htime]
    exact h₂
  all_goals
    rw [hevent]
    assumption

theorem record (entries : List (ChannelLog L))
    (h : Data script size strict S lists pending out)
    (hentries : ∀ entry ∈ entries, entry.queued = false ∧ (strict → entry.Starts)) :
    Data script size strict (S.record entries) lists pending out :=
  { h with
    log := by
      intro entry hentry
      rcases List.mem_append.mp hentry with hentry | hentry
      · exact h.log entry hentry
      · exact hentries entry hentry }

/-! ## Changes of an event -/

theorem modify_self (S : ScriptChannel L) (n : ℕ)
    (f : ScriptEvent L (Fin 128) → ScriptEvent L (Fin 128)) :
    (S.modify n f).event n = f (S.event n) :=
  Function.update_self ..

theorem modify_of_ne (S : ScriptChannel L) {m n : ℕ} (hm : m ≠ n)
    (f : ScriptEvent L (Fin 128) → ScriptEvent L (Fin 128)) :
    (S.modify n f).event m = S.event m :=
  Function.update_of_ne hm ..

/-- The condition for each field of the invariant. -/
theorem modify {f : ScriptEvent L (Fin 128) → ScriptEvent L (Fin 128)}
    (h : Data script size strict S lists pending out)
    (htime : n ∈ pending → (f (S.event n)).scheduleTime = S.scheduleTime n)
    (hsound : ∃ K, (f (S.event n)).execCtx.Sound script.handlers K)
    (hhandlers : ∀ handler ∈ (f (S.event n)).handlers, handler ∈ script.handlers)
    (hsuspended : n ∈ pending → (f (S.event n)).execCtx.status = .suspended ∧
      (f (S.event n)).handler ≠ none)
    (hwaiting : n ∈ out ∨ (f (S.event n)).execCtx.status = (S.event n).execCtx.status)
    (hfresh : strict → n ∈ pending ∨ n ∈ out ∨ (f (S.event n)).execCtx.Fresh script.handlers) :
    Data script size strict (S.modify n f) lists pending out := by
  have hother {m : ℕ} (hm : m ≠ n) : (S.modify n f).event m = S.event m := modify_of_ne S hm f
  have hself : (S.modify n f).event n = f (S.event n) := modify_self S n f
  refine ⟨h.pool, ?_, h.log, h.allocated, fun m => ?_, fun m => ?_, fun m hm => ?_,
    fun list m hm hs => ?_, fun hstrict m => ?_⟩
  · obtain ⟨t, hT⟩ := h.queue
    refine ⟨t, hT.congr_key fun m hm => ?_⟩
    by_cases hmn : m = n
    · subst hmn
      rw [scheduleTime, hself]
      exact htime hm
    · rw [scheduleTime, hother hmn, scheduleTime]
  all_goals by_cases hmn : m = n
  · subst hmn
    rw [hself]
    exact hsound
  · rw [hother hmn]
    exact h.sound m
  · subst hmn
    rw [hself]
    exact hhandlers
  · rw [hother hmn]
    exact h.handlers m
  · subst hmn
    rw [hself]
    exact hsuspended hm
  · rw [hother hmn]
    exact h.suspended m hm
  · subst hmn
    rw [hself] at hs
    rcases hwaiting with ho | heq
    · exact .inr ho
    · exact h.waiting list m hm (heq ▸ hs)
  · rw [hother hmn] at hs
    exact h.waiting list m hm hs
  · subst hmn
    rw [hself]
    exact hfresh hstrict
  · rw [hother hmn]
    exact h.fresh hstrict m

/-- An event between two operations may be changed in every way. -/
theorem modify_out {f : ScriptEvent L (Fin 128) → ScriptEvent L (Fin 128)}
    (h : Data script size strict S lists pending out) (hn : n ∉ pending) (hout : n ∈ out)
    (hsound : ∃ K, (f (S.event n)).execCtx.Sound script.handlers K)
    (hhandlers : ∀ handler ∈ (f (S.event n)).handlers, handler ∈ script.handlers) :
    Data script size strict (S.modify n f) lists pending out :=
  h.modify (fun hp => absurd hp hn) hsound hhandlers (fun hp => absurd hp hn) (.inl hout)
    fun _ => .inr (.inl hout)

/-- The fields that no other part of the channel depends on. -/
theorem modify_same {f : ScriptEvent L (Fin 128) → ScriptEvent L (Fin 128)}
    (h : Data script size strict S lists pending out)
    (htime : (f (S.event n)).scheduleTime = S.scheduleTime n)
    (hctx : (f (S.event n)).execCtx = (S.event n).execCtx)
    (hhandlers : (f (S.event n)).handlers = (S.event n).handlers)
    (hcurrent : (f (S.event n)).currentHandler = (S.event n).currentHandler) :
    Data script size strict (S.modify n f) lists pending out := by
  refine h.modify (fun _ => htime) (hctx ▸ h.sound n) (hhandlers ▸ h.handlers n) (fun hp => ?_)
    (.inr (congrArg _ hctx)) fun hstrict => hctx ▸ h.fresh hstrict n
  rw [ScriptEvent.handler, hctx, hhandlers, hcurrent]
  exact h.suspended n hp

theorem signalAbort (h : Data script size strict S lists pending out)
    (hn : strict → n ∈ pending ∨ n ∈ out) :
    Data script size strict (S.signalAbort n) lists pending out := by
  obtain ⟨K, hK⟩ := h.sound n
  exact h.modify (fun _ => rfl) ⟨K, hK.congr rfl rfl⟩ (h.handlers n) (h.suspended n) (.inr rfl)
    fun hstrict => (hn hstrict).imp_right .inl

/-! ## The queue -/

/-- An event that is not in the queue is given a time and inserted. -/
theorem schedule (h : Data script size strict S lists pending out) (hn : n ∉ pending)
    (hlist : ∃ list, n ∈ lists (.rtlist list))
    (hsuspended : (S.event n).execCtx.status = .suspended ∧ (S.event n).handler ≠ none)
    (time : ℕ) :
    ∃ S', S.schedule n time = some S' ∧ Data script size strict S' lists (pending ++ [n]) out ∧
      S'.pEvents = S.pEvents ∧ S'.control = S.control ∧
      S'.event = Function.update S.event n { S.event n with scheduleTime := time } := by
  have hrecord := h.record [.timed n (S.queued n)] fun entry hentry => by
    rw [List.mem_singleton.mp hentry]
    exact ⟨h.queued_eq_false hn, fun _ => trivial⟩
  have htimed := hrecord.modify (n := n) (f := fun e => { e with scheduleTime := time })
    (fun hp => absurd hp hn) (h.sound n) (h.handlers n) (fun hp => absurd hp hn) (.inr rfl)
    fun hstrict => h.fresh hstrict n
  obtain ⟨t, hT⟩ := htimed.queue
  obtain ⟨T', t', hinsert, hT'⟩ := hT.insert hn
  set S₁ := (S.record [.timed n (S.queued n)]).modify n fun e => { e with scheduleTime := time }
    with hS₁
  have hself : S₁.event n = { S.event n with scheduleTime := time } := modify_self _ n _
  refine ⟨{ S₁ with suspendedEvents := T' }, ?_, ?_, rfl, rfl, rfl⟩
  · rw [ScriptChannel.schedule, ← hS₁, hinsert]
    rfl
  · refine ⟨htimed.pool, ⟨t', hT'⟩, htimed.log, fun m hm => ?_, htimed.sound, htimed.handlers,
      fun m hm => ?_, fun list m hm hs => ?_, fun hstrict m => ?_⟩
    · rcases List.mem_append.mp hm with hm | hm
      · exact htimed.allocated m hm
      · rw [List.mem_singleton.mp hm]
        exact hlist
    · rcases List.mem_append.mp hm with hm | hm
      · exact htimed.suspended m hm
      · rw [List.mem_singleton.mp hm, hself]
        exact hsuspended
    · exact (htimed.waiting list m hm hs).imp_left (List.mem_append_left _)
    · exact (htimed.fresh hstrict m).imp_left (List.mem_append_left _)

/-- An event is taken out of the queue. -/
theorem unschedule (h : Data script size strict S lists pending out) (hn : n ∈ pending) :
    ∃ T', S.unschedule n = some { S with suspendedEvents := T' } ∧
      Data script size strict { S with suspendedEvents := T' } lists (pending.erase n)
        (n :: out) := by
  obtain ⟨t, hT⟩ := h.queue
  obtain ⟨T', t', herase, hT'⟩ := hT.erase hn
  have hmem : ∀ m, m ∈ pending → m ∈ pending.erase n ∨ m ∈ n :: out := by
    intro m hm
    by_cases hmn : m = n
    · exact .inr (hmn ▸ List.mem_cons_self)
    · exact .inl ((List.mem_erase_of_ne hmn).mpr hm)
  refine ⟨T', ?_, h.pool, ⟨t', hT'⟩, h.log, fun m hm => h.allocated m (List.mem_of_mem_erase hm),
    h.sound, h.handlers, fun m hm => h.suspended m (List.mem_of_mem_erase hm),
    fun list m hm hs => ?_, fun hstrict m => ?_⟩
  · rw [ScriptChannel.unschedule, herase]
    rfl
  · rcases h.waiting list m hm hs with hp | ho
    · exact hmem m hp
    · exact .inr (List.mem_cons_of_mem _ ho)
  · rcases h.fresh hstrict m with hp | ho | hf
    · exact (hmem m hp).imp_right .inl
    · exact .inr (.inl (List.mem_cons_of_mem _ ho))
    · exact .inr (.inr hf)

/-! ## The pool -/

/-- The pool changes its lists, and no event in use becomes one that was not. -/
theorem pool_next {op : Pool.Op EventList} {P' : Pool EventList}
    (h : Data script size strict S lists pending out) (hop : Pool.Holds size P' (op.next lists))
    (hold : ∀ m, (∃ list, m ∈ op.next lists (.rtlist list)) →
      m ∈ out ∨ ∃ list, m ∈ lists (.rtlist list))
    (hnew : ∀ m ∈ pending, ∃ list, m ∈ op.next lists (.rtlist list)) :
    Data script size strict { S with pEvents := P' } (op.next lists) pending out :=
  { h with
    pool := hop
    allocated := hnew
    waiting := by
      intro list m hm hs
      rcases hold m ⟨list, hm⟩ with ho | ⟨list', hm'⟩
      · exact .inr ho
      · exact h.waiting list' m hm' hs }

/-- The free list gives an event that is not in use. -/
theorem allocAppend (h : Data script size strict S lists pending out) :
    (S.pEvents.allocAppend .events).2.index = none ∧
        (S.pEvents.allocAppend .events).1 = S.pEvents ∨
      ∃ n lists', (S.pEvents.allocAppend .events).2.current = .node n ∧
        (∀ list, n ∉ lists (.rtlist list)) ∧ n ∈ lists' (.rtlist .events) ∧
        (∀ list, ∀ m ∈ lists (.rtlist list), m ∈ lists' (.rtlist list)) ∧
        (∀ key, lists' (.rtlist (.key key)) = lists (.rtlist (.key key))) ∧
        Data script size strict { S with pEvents := (S.pEvents.allocAppend .events).1 } lists'
          pending (n :: out) := by
  have hlinked := h.pool.linked
  obtain ⟨P', hrun, -, hP'⟩ := h.pool.apply (.allocAppend .events) trivial
  obtain rfl : (S.pEvents.allocAppend .events).1 = P' := Option.some.inj hrun
  cases hlast : (lists .freelist).getLast? with
  | none =>
      have hempty := hlinked.poolIsEmpty_iff.mpr (List.getLast?_eq_none_iff.mp hlast)
      left
      rw [Pool.allocAppend, if_pos hempty]
      exact ⟨rfl, rfl⟩
  | some n =>
      have hfree : n ∈ lists .freelist := List.mem_of_mem_getLast? hlast
      have hnext : (Pool.Op.allocAppend EventList.events).next lists =
          (lists.remove n).putLast (.rtlist .events) [n] := by
        rw [Pool.Op.next, hlast]
        rfl
      have hunused : ∀ list, n ∉ lists (.rtlist list) := fun list =>
        hlinked.notMem_of_freelist hfree
      have hremove : ∀ list, lists.remove n (.rtlist list) = lists (.rtlist list) := fun list =>
        List.erase_of_not_mem (hunused list)
      have hmem : ∀ list, ∀ m ∈ lists (.rtlist list),
          m ∈ (lists.remove n).putLast (.rtlist .events) [n] (.rtlist list) := by
        intro list m hm
        rw [Lists.mem_putLast, hremove]
        exact .inl hm
      have hne : ¬ S.pEvents.poolIsEmpty = true := fun he => by
        rw [hlinked.poolIsEmpty_iff.mp he] at hfree
        cases hfree
      rw [hnext] at hP'
      refine .inr ⟨n, _, ?_, hunused, ?_, hmem, fun key => ?_, ?_⟩
      · rw [Pool.allocAppend, if_neg hne]
        exact (hlinked.alloc hlast).1
      · rw [Lists.mem_putLast]
        exact .inr ⟨rfl, List.mem_singleton.mpr rfl⟩
      · rw [Lists.putLast, Function.update_of_ne (by simp), hremove]
      · rw [← hnext] at hP' hmem ⊢
        refine (h.mono fun m hm => List.mem_cons_of_mem n hm).pool_next hP' (fun m hm => ?_)
          fun m hm => ?_
        · obtain ⟨list, hm⟩ := hm
          rw [hnext, Lists.mem_putLast, hremove] at hm
          rcases hm with hm | ⟨-, hm⟩
          · exact .inr ⟨list, hm⟩
          · exact .inl (List.mem_singleton.mp hm ▸ List.mem_cons_self)
        · obtain ⟨list, hm⟩ := h.allocated m hm
          exact ⟨list, hmem list m hm⟩

/-- An event that is not in the queue goes back to the free list. -/
theorem free {it : Iterator EventList} {list : EventList}
    (h : Data script size strict S lists pending out) (hit : it.current = .node n)
    (hn : n ∉ pending) (hlist : n ∈ lists (.rtlist list)) :
    ∃ lists', Data script size strict (S.free it).1 lists' pending out ∧
      (S.free it).2 = { it with current := it.fallback } ∧
      (∀ list', n ∉ lists' (.rtlist list')) ∧
      ∀ list', lists' (.rtlist list') = (lists (.rtlist list')).erase n := by
  have hindex : it.index = some n := Iterator.index_eq_some.mpr hit
  obtain ⟨P', hrun, -, hP'⟩ := h.pool.apply (.free it)
    ⟨n, hindex, h.pool.allocated_iff.mpr ⟨list, hlist⟩⟩
  obtain rfl : (S.pEvents.free it).1 = P' := Option.some.inj hrun
  have hnext : ∀ list', (Pool.Op.free it).next lists (.rtlist list') =
      (lists (.rtlist list')).erase n := by
    intro list'
    have hne : ListId.rtlist list' ≠ .freelist := by simp
    rw [Pool.Op.next, hindex]
    simp only [Option.elim_some, Lists.putLast, Function.update_of_ne hne]
    rfl
  have hmem : ∀ list', ∀ m, m ≠ n → (m ∈ (Pool.Op.free it).next lists (.rtlist list') ↔
      m ∈ lists (.rtlist list')) := by
    intro list' m hm
    rw [hnext, List.mem_erase_of_ne hm]
  have hgone : ∀ list', n ∉ (Pool.Op.free it).next lists (.rtlist list') := by
    intro list'
    rw [hnext]
    exact (h.pool.linked.nodup _).not_mem_erase
  have hrecord := h.record (S.freed it.index.toList) fun entry hentry => by
    rw [hindex] at hentry
    rw [List.mem_singleton.mp hentry]
    exact ⟨h.queued_eq_false hn, fun _ => trivial⟩
  refine ⟨_, hrecord.pool_next hP' (fun m hm => ?_) fun m hm => ?_, rfl, hgone, hnext⟩
  · obtain ⟨list', hm⟩ := hm
    have hmn : m ≠ n := by
      rintro rfl
      exact hgone list' hm
    exact .inr ⟨list', (hmem list' m hmn).mp hm⟩
  · obtain ⟨list', hm'⟩ := h.allocated m hm
    have hmn : m ≠ n := by
      rintro rfl
      exact hn hm
    exact ⟨list', (hmem list' m hmn).mpr hm'⟩

/-- An event goes to the list of a key. -/
theorem keep {it : Iterator EventList} {list : EventList}
    (h : Data script size strict S lists pending out) (hit : it.current = .node n)
    (hlist : n ∈ lists (.rtlist list)) (key : Fin 128) :
    ∃ lists', Data script size strict (S.keep it key).1 lists' pending out := by
  have hindex : it.index = some n := Iterator.index_eq_some.mpr hit
  obtain ⟨P', hrun, -, hP'⟩ := h.pool.apply (.moveToEndOf it (.key key))
    ⟨n, hindex, h.pool.allocated_iff.mpr ⟨list, hlist⟩⟩
  obtain rfl : (S.pEvents.moveToEndOf it (.key key)).1 = P' := Option.some.inj hrun
  have hnext : (Pool.Op.moveToEndOf it (.key key)).next lists =
      (lists.remove n).putLast (.rtlist (.key key)) [n] := by
    rw [Pool.Op.next, hindex]
    rfl
  have hnodup := h.pool.linked.nodup
  refine ⟨_, h.pool_next hP' (fun m hm => ?_) fun m hm => ?_⟩
  · obtain ⟨list', hm⟩ := hm
    rw [hnext, Lists.mem_putLast, Lists.mem_remove (hnodup _)] at hm
    rcases hm with ⟨-, hm⟩ | ⟨-, hm⟩
    · exact .inr ⟨list', hm⟩
    · exact .inr ⟨list, List.mem_singleton.mp hm ▸ hlist⟩
  · obtain ⟨list', hm'⟩ := h.allocated m hm
    rw [hnext]
    by_cases hmn : m = n
    · subst hmn
      exact ⟨.key key, Lists.mem_putLast.mpr (.inr ⟨rfl, List.mem_singleton.mpr rfl⟩)⟩
    · exact ⟨list', Lists.mem_putLast.mpr
        (.inl ((Lists.mem_remove (hnodup _)).mpr ⟨hmn, hm'⟩))⟩

/-- A list without an event of the queue is emptied. -/
theorem clear (list : EventList) (h : Data script size strict S lists pending out)
    (hn : ∀ n ∈ lists (.rtlist list), n ∉ pending) :
    ∃ S' lists', S.clear list = some S' ∧ Data script size strict S' lists' pending out ∧
      lists' (.rtlist list) = [] ∧
      (∀ list', list' ≠ list → lists' (.rtlist list') = lists (.rtlist list')) ∧
      S'.event = S.event ∧ S'.suspendedEvents = S.suspendedEvents ∧ S'.control = S.control := by
  obtain ⟨P', hrun, -, hP'⟩ := h.pool.apply (.clear list) trivial
  have hrun' : S.pEvents.clear list = some P' := hrun
  have hself : (Pool.Op.clear list).next lists (.rtlist list) = [] := by
    rw [Pool.Op.next, Lists.putLast, Function.update_of_ne (by simp), Lists.empty,
      Function.update_self]
  have hother : ∀ list', list' ≠ list →
      (Pool.Op.clear list).next lists (.rtlist list') = lists (.rtlist list') := by
    intro list' hne
    rw [Pool.Op.next, Lists.putLast, Function.update_of_ne (by simp), Lists.empty,
      Function.update_of_ne (by simpa using hne)]
  have hrecord := h.record (S.freed (S.pEvents.elements (.rtlist list)))
    fun entry hentry => by
      obtain ⟨m, hm, rfl⟩ := List.mem_map.mp hentry
      rw [h.pool.elements_eq] at hm
      exact ⟨h.queued_eq_false (hn m hm), fun _ => trivial⟩
  refine ⟨_, _, ?_, hrecord.pool_next hP' (fun m hm => ?_) fun m hm => ?_, hself, hother, rfl, rfl,
    rfl⟩
  · rw [ScriptChannel.clear, hrun']
    rfl
  · obtain ⟨list', hm⟩ := hm
    by_cases hne : list' = list
    · rw [hne, hself] at hm
      cases hm
    · exact .inr ⟨list', hother list' hne ▸ hm⟩
  · obtain ⟨list', hm'⟩ := h.allocated m hm
    have hne : list' ≠ list := by
      rintro rfl
      exact hn m hm' hm
    exact ⟨list', by rwa [hother list' hne]⟩

/-- The lists of several keys are emptied. -/
theorem clear_keys (keys : List (Fin 128)) (h : Data script size strict S lists pending out)
    (hn : ∀ key, ∀ n ∈ lists (.rtlist (.key key)), n ∉ pending) :
    ∃ S' lists', keys.foldlM (fun S key => S.clear (.key key)) S = some S' ∧
      Data script size strict S' lists' pending out ∧
      (∀ key ∈ keys, lists' (.rtlist (.key key)) = []) ∧
      (∀ list, lists' (.rtlist list) = [] ∨ lists' (.rtlist list) = lists (.rtlist list)) ∧
      S'.event = S.event ∧ S'.suspendedEvents = S.suspendedEvents ∧ S'.control = S.control := by
  induction keys generalizing S lists with
  | nil =>
      refine ⟨S, lists, rfl, h, fun key hkey => ?_, fun _ => .inr rfl, rfl, rfl, rfl⟩
      cases hkey
  | cons key keys ih =>
      obtain ⟨S₁, lists₁, hrun₁, h₁, hself, hother, hevent₁, hqueue₁, hcontrol₁⟩ :=
        h.clear (.key key) (hn key)
      have hsub :
          ∀ list, lists₁ (.rtlist list) = [] ∨ lists₁ (.rtlist list) = lists (.rtlist list) := by
        intro list
        by_cases hlist : list = .key key
        · exact .inl (hlist ▸ hself)
        · exact .inr (hother list hlist)
      have hn₁ : ∀ key', ∀ n ∈ lists₁ (.rtlist (.key key')), n ∉ pending := by
        intro key' n hmem
        rcases hsub (.key key') with he | he
        · rw [he] at hmem
          cases hmem
        · exact hn key' n (he ▸ hmem)
      obtain ⟨S', lists', hrun, h', hempty, hsub', hevent, hqueue, hcontrol⟩ := ih h₁ hn₁
      refine ⟨S', lists', ?_, h', fun key' hkey => ?_, fun list => ?_, hevent.trans hevent₁,
        hqueue.trans hqueue₁, hcontrol.trans hcontrol₁⟩
      · rw [List.foldlM_cons, hrun₁]
        exact hrun
      · rcases List.mem_cons.mp hkey with rfl | hkey
        · rcases hsub' (.key key') with he | he
          · exact he
          · rw [he, hself]
        · exact hempty key' hkey
      · rcases hsub' list with he | he
        · exact .inl he
        · rw [he]
          exact hsub list

theorem clearKeys (h : Data script size strict S lists pending out)
    (hn : ∀ key, ∀ n ∈ lists (.rtlist (.key key)), n ∉ pending) :
    ∃ S' lists', S.clearKeys = some S' ∧ Data script size strict S' lists' pending out ∧
      (∀ key, lists' (.rtlist (.key key)) = []) ∧ S'.event = S.event ∧
      S'.suspendedEvents = S.suspendedEvents ∧ S'.control = S.control := by
  obtain ⟨S', lists', hrun, h', hempty, -, hrest⟩ := h.clear_keys (List.finRange 128) hn
  exact ⟨S', lists', hrun, h', fun key => hempty key (List.mem_finRange key), hrest⟩

/-- All events are released; a strict run has none that is suspended. -/
theorem resetEvents (h : Data script size strict S lists pending [])
    (hn : ∀ key, ∀ n ∈ lists (.rtlist (.key key)), n ∉ pending)
    (hstrict : strict → pending = []) :
    ∃ S' lists', S.resetEvents = some S' ∧ Data script size strict S' lists' [] [] ∧
      S'.control = S.control := by
  obtain ⟨S₁, lists₁, hrun₁, h₁, hkeys, -, -, hcontrol₁⟩ := h.clearKeys hn
  obtain ⟨t, hT⟩ := h₁.queue
  obtain ⟨T₂, hclear, hT₂⟩ := hT.clear
  have h₂ : Data script size strict { S₁ with suspendedEvents := T₂ } lists₁ [] pending :=
    { h₁ with
      queue := ⟨_, hT₂⟩
      allocated := fun _ hm => nomatch hm
      suspended := fun _ hm => nomatch hm
      waiting := fun list m hm hs => .inr ((h₁.waiting list m hm hs).resolve_right (nomatch ·))
      fresh := fun hs m => .inr (by simpa using h₁.fresh hs m) }
  obtain ⟨S₃, lists₃, hrun₃, h₃, hevents, hother, hevent₃, -, hcontrol₃⟩ :=
    h₂.clear .events fun _ _ => List.not_mem_nil
  have hempty : ∀ list, lists₃ (.rtlist list) = [] := by
    rintro (_ | key)
    · exact hevents
    · rw [hother _ (by simp), hkeys key]
  refine ⟨S₃, lists₃, ?_, ?_, hcontrol₃.trans hcontrol₁⟩
  · rw [ScriptChannel.resetEvents, hrun₁, Option.bind_eq_bind, Option.bind_some, hclear]
    exact hrun₃
  · refine { h₃ with waiting := fun list m hm => ?_, fresh := fun hs m => ?_ }
    · rw [hempty] at hm
      cases hm
    · have hm := h₃.fresh hs m
      rw [hstrict hs] at hm
      exact hm

end Data

end ScriptChannel

end LinuxSampler
