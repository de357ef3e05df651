import LinuxSampler.NoteScheduling

/-!
# Whether scheduling a note is atomic

`ScheduleEventMicroSec()` gives the event back where there is no node for it,
and `LaunchNewNote()` gives the note back where it cannot become a child. But
an event that is scheduled stays on the queue where no note is launched for
it: the call fails, and the event is played.
-/

namespace LinuxSampler

open DoublyLinked

variable {C δ : Type}

/-! ## Events -/

namespace DelayedEvents

variable {D D' : DelayedEvents C} {size m : ℕ}

/-- The nodes in the queue are not free. -/
structure Usable (size : ℕ) (D : DelayedEvents C) : Prop where
  nodes : Pool.InUse size 0 D.schedulerNodes D.schedulerNodes.elements
  queue : ∃ pending, D.Queued pending ∧ ∀ m ∈ pending, m ∉ D.schedulerNodes.elements .freelist

/-- A node that was free is inserted. -/
theorem Usable.schedule (h : D.Usable size) {P : Pool Unit}
    (hm : m ∈ D.schedulerNodes.elements .freelist)
    (hP : Pool.InUse size 0 P (Lists.moveTo D.schedulerNodes.elements (.rtlist ()) m))
    (e : ScheduledEvent C)
    (hD' : D' = { D with schedulerNodes := P, node := Function.update D.node m e }) :
    ∃ queue, D'.queue.insert D'.scheduleTime true m = some queue ∧
      Usable size { D' with queue := queue } ∧
      ∃ pending, D.Queued pending ∧ Queued { D' with queue := queue } (pending ++ [m]) := by
  subst hD'
  obtain ⟨pending, ⟨t, hT⟩, hused⟩ := h.queue
  have hpending : m ∉ pending := fun hmem => hused m hmem hm
  have hT' : RTAVLTree.Holds (fun x => (Function.update D.node m e x).scheduleTime) true D.queue t
      pending := by
    refine hT.congr_key fun x hx => ?_
    rw [Function.update_of_ne (ne_of_mem_of_not_mem hx hpending), scheduleTime]
  obtain ⟨queue, t', hinsert, hqueue⟩ := hT'.insert hpending
  refine ⟨queue, hinsert, ⟨hP.elements, pending ++ [m], ⟨t', hqueue⟩, fun x hx hfree => ?_⟩,
    pending, ⟨t, hT⟩, t', hqueue⟩
  rw [hP.holds.elements_eq, Lists.mem_moveTo (h.nodes.nodup _)] at hfree
  rcases hfree with ⟨hne, hfree⟩ | ⟨hlist, -⟩
  · rcases List.mem_append.mp hx with hx | hx
    · exact hused x hx hfree
    · exact hne (List.mem_singleton.mp hx)
  · cases hlist

end DelayedEvents

namespace EventEngine

variable [DecidableEq C] {S S' : EventEngine C δ} {L : Lists (EngineEventList C)} {c : C}
  {pEvent : Event δ} {delay : ℤ} {events nodes n m : ℕ}

/-- The event `n` waits on the queue, and nothing has become of the notes. -/
structure Schedules (S : EventEngine C δ) (c : C) (pEvent : Event δ) (n m : ℕ)
    (S' : EventEngine C δ) : Prop where
  event : S.pEventPool.Takes (.delayed c) n S'.pEventPool
  node : (S.delayedEvents c).schedulerNodes.Takes () m (S'.delayedEvents c).schedulerNodes
  queue : ∃ pending, (S.delayedEvents c).Queued pending ∧
    (S'.delayedEvents c).Queued (pending ++ [m])
  channels : ∀ c', c' ≠ c → S'.delayedEvents c' = S.delayedEvents c'
  target : (S'.delayedEvents c).target m = some n
  param : (S'.event n).param = pEvent.param
  notes : S'.pNotePool = S.pNotePool

omit [DecidableEq C] in
theorem param_fragmentPos (S : EventEngine C δ) (n : ℕ) :
    ((S.fragmentPos n).2.event n).param = (S.event n).param := by
  have hself : (S.fragmentPos n).2.event n =
      ((S.event n).fragmentPos S.pEventGenerator.toFragmentPos).2 := Function.update_self ..
  rw [hself, Event.fragmentPos]
  split <;> rfl

/-- The event is given back where there is no node for it. -/
theorem scheduleEventMicroSec_of_lacks (h : Pool.InUse events 1 S.pEventPool L)
    (hD : (S.delayedEvents c).Usable nodes) (hlacks : S.LacksEvent c) (pEvent : Event δ)
    (delay : ℤ) :
    ∃ P, S.scheduleEventMicroSec c pEvent delay = some ({ S with pEventPool := P }, 0) ∧
      Pool.InUse events 1 P L := by
  unfold EventEngine.scheduleEventMicroSec
  dsimp only
  rcases h.allocAppend_cases (.events c) with ⟨-, hindex, hpool⟩ | ⟨hne, i, hindex, -⟩
  · rw [hindex, hpool]
    exact ⟨S.pEventPool, rfl, h⟩
  · have hempty := hlacks.resolve_left (by simp [hne])
    rcases hD.nodes.allocAppend_cases () with ⟨-, hnode, -⟩ | ⟨hne', -⟩
    · rw [hindex]
      dsimp only
      rw [hnode]
      exact ⟨_, rfl, h.allocAppend_free hindex⟩
    · rw [hempty] at hne'
      cases hne'

/-- The node `m`, taken for an event, is inserted at its time. -/
theorem scheduleAheadMicroSec_spec (S₁ : EventEngine C δ) {Q : Pool Unit} {e : ScheduledEvent C}
    (hD : (S.delayedEvents c).Usable nodes)
    (hm : m ∈ (S.delayedEvents c).schedulerNodes.elements .freelist)
    (hQ : Pool.InUse nodes 0 Q
      (Lists.moveTo (S.delayedEvents c).schedulerNodes.elements (.rtlist ()) m))
    (hdelayed : S₁.delayedEvents = Function.update S.delayedEvents c
      { S.delayedEvents c with
        schedulerNodes := Q, node := Function.update (S.delayedEvents c).node m e })
    (pos : ℤ) (delay : ℕ) :
    ∃ D, S₁.scheduleAheadMicroSec c m pos delay =
        some { S₁ with delayedEvents := Function.update S.delayedEvents c D } ∧
      D.schedulerNodes = Q ∧ D.target m = e.itEvent.index ∧ D.Usable nodes ∧
      ∃ pending, (S.delayedEvents c).Queued pending ∧ D.Queued (pending ++ [m]) := by
  obtain ⟨queue, hinsert, husable, hqueued⟩ := hD.schedule hm hQ
    { e with scheduleTime := S₁.pEventGenerator.scheduleTime pos delay } rfl
  refine ⟨_, ?_, rfl, ?_, husable, hqueued⟩
  · unfold EventEngine.scheduleAheadMicroSec EventEngine.setDelayed
    rw [hdelayed]
    simp only [Function.update_self, Function.update_idem]
    rw [hinsert]
    rfl
  · rw [DelayedEvents.target]
    dsimp only
    rw [Function.update_self]

theorem scheduleEventMicroSec_of_not_lacks (h : Pool.InUse events 1 S.pEventPool L)
    (hD : (S.delayedEvents c).Usable nodes) (hlacks : ¬ S.LacksEvent c) (pEvent : Event δ)
    (delay : ℤ) :
    ∃ (S' : EventEngine C δ) (n m : ℕ),
      S.scheduleEventMicroSec c pEvent delay = some (S', S'.pEventPool.getID n) ∧
      S.Schedules c pEvent n m S' ∧ n < events ∧
      Pool.InUse events 1 S'.pEventPool S'.pEventPool.elements ∧
      (S'.delayedEvents c).Usable nodes := by
  unfold EventEngine.scheduleEventMicroSec
  dsimp only
  rcases h.allocAppend_cases (.events c) with ⟨hempty, -⟩ | ⟨-, i, hindex, hfree, -⟩
  · exact absurd (.inl hempty) hlacks
  rcases hD.nodes.allocAppend_cases () with ⟨hempty, -⟩ | ⟨-, m, hnode, hm, hQ⟩
  · exact absurd (.inr hempty) hlacks
  rw [hindex]
  dsimp only
  rw [hnode]
  dsimp only
  set S₁ := EventEngine.connect _ c m _ with hS₁
  have hevents : Pool.InUse events 1 S₁.pEventPool (L.moveTo (.rtlist (.delayed c)) i) :=
    h.allocAppend_moveToEndOf hindex (.delayed c)
  set e : ScheduledEvent C := { (S.delayedEvents c).node m with
    itEvent := ((S.pEventPool.allocAppend (.events c)).1.moveToEndOf
      (S.pEventPool.allocAppend (.events c)).2 (.delayed c)).2.2 }
  have hdelayed : S₁.delayedEvents = Function.update S.delayedEvents c
      { S.delayedEvents c with
        schedulerNodes := ((S.delayedEvents c).schedulerNodes.allocAppend ()).1
        node := Function.update (S.delayedEvents c).node m e } := by
    rw [hS₁, EventEngine.connect, EventEngine.setDelayed, EventEngine.setEvent]
    simp only [Function.update_self, Function.update_idem]
    rfl
  obtain ⟨D, hrun, hnodes, htarget, husable, hqueue⟩ :=
    scheduleAheadMicroSec_spec (S₁.fragmentPos i).2 hD hm hQ hdelayed (S₁.fragmentPos i).1
      (delay % 2 ^ 64).toNat
  have hself : Function.update S.delayedEvents c D c = D := Function.update_self ..
  rw [hrun]
  refine ⟨_, i, m, rfl, ⟨?_, ?_, ?_, ?_, ?_, ?_, rfl⟩, h.lt hfree, hevents.elements, ?_⟩
  · exact h.takes hfree hevents
  · dsimp only
    rw [hself, hnodes]
    exact hD.nodes.takes hm hQ
  · dsimp only
    rw [hself]
    exact hqueue
  · intro c' hc
    exact Function.update_of_ne hc ..
  · dsimp only
    rw [hself, htarget]
    exact hindex
  · have hevent : S₁.event i = pEvent := Function.update_self ..
    rw [← hevent]
    exact param_fragmentPos S₁ i
  · dsimp only
    rw [hself]
    exact husable

end EventEngine

/-! ## Notes -/

/-- The sizes of the pools. A size is an `int`. -/
structure SchedulingSizes extends EngineSizes where
  noteIDs : ℕ
  notes_lt : notes < 2 ^ 31

namespace SchedulingEngine

/-- The pools are in order, and so are the queues of the channels. -/
structure Usable (z : SchedulingSizes) (S : SchedulingEngine C δ) : Prop where
  events : Pool.InUse z.events 1 S.pEventPool S.pEventPool.elements
  notes : Pool.InUse z.notes 1 S.pNotePool S.pNotePool.elements
  noteIDs : Pool.InUse z.noteIDs 0 S.noteIDPool S.noteIDPool.elements
  delayed : ∀ c, (S.delayedEvents c).Usable z.nodes

/-- The note `k` is launched for the event `n`, and nothing has become of the
events. -/
structure Launches (S : SchedulingEngine C δ) (c : C) (n k key : ℕ)
    (S' : SchedulingEngine C δ) : Prop where
  note : S.pNotePool.Takes (.activeNotes c key) k S'.pNotePool
  noteID : (S'.event n).noteID = S'.pNotePool.getID k
  pEventPool : S'.pEventPool = S.pEventPool
  delayedEvents : S'.delayedEvents = S.delayedEvents

variable [DecidableEq C] {S S' : SchedulingEngine C δ} {z : SchedulingSizes}
  {parentNoteID : δ → ℕ} {c : C} {pEvent : Event δ} {delay : ℤ} {n k parent : ℕ}

omit [DecidableEq C] in
/-- A note is linked to its parent if it can be, and what is written then is no
event. -/
theorem Usable.linkParent (h : S.Usable z) (k newNoteID parent : ℕ) :
    ¬ S.CanLink parent ∧ S.linkParent k newNoteID parent = (S, false) ∨
      S.CanLink parent ∧ ∃ noteIDPool childNoteID note, S.linkParent k newNoteID parent =
        ({ S with noteIDPool := noteIDPool, childNoteID := childNoteID, note := note }, true) ∧
        Pool.InUse z.noteIDs 0 noteIDPool noteIDPool.elements := by
  unfold SchedulingEngine.linkParent CanLink
  by_cases hparent : parent = 0
  · rw [if_pos hparent]
    exact .inr ⟨fun hne => absurd hparent hne, _, _, _, rfl, h.noteIDs⟩
  · rw [if_neg hparent]
    cases hp : (S.pNotePool.fromID parent).index with
    | none =>
        refine .inl ⟨fun hlink => ?_, rfl⟩
        obtain ⟨p, hdata⟩ := Iterator.hasData_iff.mp (hlink hparent).1
        rw [hp] at hdata
        cases hdata
    | some p =>
        have hdata : (S.pNotePool.fromID parent).hasData = true :=
          Iterator.hasData_iff.mpr ⟨p, hp⟩
        dsimp only
        rcases h.noteIDs.allocAppend_cases (.pChildNotes p) with
          ⟨hempty, hindex, hpool⟩ | ⟨hne, j, hindex, -, hids⟩
        · rw [hindex, hpool]
          refine .inl ⟨fun hlink => ?_, rfl⟩
          rw [hempty] at hlink
          cases (hlink hparent).2
        · rw [hindex]
          exact .inr ⟨fun _ => ⟨hdata, hne⟩, _, _, _, rfl, hids.elements⟩

omit [DecidableEq C] in
theorem canLink_congr {T : SchedulingEngine C δ}
    (hfrom : (T.pNotePool.fromID parent).index = (S.pNotePool.fromID parent).index)
    (hids : T.noteIDPool = S.noteIDPool) : T.CanLink parent ↔ S.CanLink parent := by
  unfold CanLink
  rw [Iterator.hasData_iff, Iterator.hasData_iff, hfrom, hids]

/-- The note is given back where it cannot become a child. -/
theorem Usable.launchNewNote (h : S.Usable z) (parentNoteID : δ → ℕ) (c : C) (n : ℕ) :
    (¬ S.CanLaunch (parentNoteID (S.event n).param) ∧ ∃ P note,
      S.launchNewNote parentNoteID c n = ({ S with pNotePool := P, note := note }, 0) ∧
        Pool.InUse z.notes 1 P S.pNotePool.elements) ∨
    (S.CanLaunch (parentNoteID (S.event n).param) ∧ ∃ (S' : SchedulingEngine C δ) (k key : ℕ),
      S.launchNewNote parentNoteID c n = (S', S'.pNotePool.getID k) ∧
        S.Launches c n k key S' ∧ k < z.notes ∧ S'.Usable z) := by
  unfold SchedulingEngine.launchNewNote
  rcases h.notes.allocAppend_cases .pool with ⟨hempty, -⟩ | ⟨hne, k, hindex, hfree, hP⟩
  · rw [if_pos hempty]
    refine .inl ⟨fun hlaunch => ?_, _, _, rfl, h.notes⟩
    have hne := hlaunch.1
    rw [hempty] at hne
    cases hne
  · rw [if_neg (by simp [hne])]
    dsimp only
    rw [hindex]
    dsimp only
    set T := setNote _ k _ with hT
    have hlink : T.CanLink (parentNoteID (S.event n).param) ↔
        S.CanLink (parentNoteID (S.event n).param) :=
      canLink_congr (h.notes.fromID_allocAppend .pool _) rfl
    have hTusable : T.Usable z := ⟨h.events, hP.elements, h.noteIDs, h.delayed⟩
    rcases hTusable.linkParent k ((S.pNotePool.allocAppend .pool).1.getID k)
      (parentNoteID (T.event n).param) with
      ⟨hcannot, hlinked⟩ | ⟨hcan, noteIDPool, childNoteID, note, hlinked, hids⟩
    · rw [hlinked]
      exact .inl ⟨fun hlaunch => hcannot (hlink.mpr hlaunch.2), _, _, rfl,
        h.notes.allocAppend_free hindex⟩
    · rw [hlinked]
      dsimp only
      rw [if_pos rfl]
      set S' := moveLaunched _ c n k _ _ with hS'
      have hmoved : Pool.InUse z.notes 1 S'.pNotePool
          (Lists.moveTo S.pNotePool.elements (.rtlist (.activeNotes c (note k).hostKey)) k) := by
        have hkey : (Function.update note k
            { note k with eventID := S.pEventPool.getID n } k).hostKey = (note k).hostKey := by
          rw [Function.update_self]
        rw [← hkey]
        exact h.notes.allocAppend_moveToEndOf hindex _
      have hevent : S'.event n = { S.event n with noteID := S'.pNotePool.getID k } :=
        Function.update_self ..
      refine .inr ⟨⟨hne, hlink.mp hcan⟩, S', k, _, rfl, ⟨h.notes.takes hfree hmoved, ?_, rfl, rfl⟩,
        h.notes.lt hfree, h.events, hmoved.elements, hids, h.delayed⟩
      rw [hevent]

/-! ## Both -/

omit [DecidableEq C] in
/-- The four pools have the same lists, and the queues are as before. -/
theorem resources_congr (hevents : S'.pEventPool.elements = S.pEventPool.elements)
    (hnotes : S'.pNotePool.elements = S.pNotePool.elements)
    (hdelayed : S'.delayedEvents = S.delayedEvents) (hids : S'.noteIDPool = S.noteIDPool)
    (hchild : S'.childNoteID = S.childNoteID) : S'.resources = S.resources := by
  unfold resources EventEngine.delayedList Pool.available pChildNotes
  rw [hevents, hnotes, hdelayed, hids, hchild]

omit [DecidableEq C] in
/-- One event fewer is free. -/
theorem resources_ne (h : S.pEventPool.Takes (.delayed c) n S'.pEventPool) :
    S'.resources ≠ S.resources := by
  intro hsame
  have hfree : S'.pEventPool.available = S.pEventPool.available :=
    congrArg NoteResources.freeEvents hsame
  have htaken := h.available
  omega

/-- An event and a node are given back before the call returns zero, or they are
taken for good. -/
theorem Usable.scheduleEventMicroSec (h : S.Usable z) (c : C) (pEvent : Event δ) (delay : ℤ) :
    (S.LacksEvent c ∧ ∃ S', S.scheduleEventMicroSec c pEvent delay = some (S', 0) ∧
      S'.resources = S.resources ∧ S'.Usable z) ∨
    (¬ S.LacksEvent c ∧ ∃ (S' : SchedulingEngine C δ) (n m : ℕ),
      S.scheduleEventMicroSec c pEvent delay = some (S', S'.pEventPool.getID n) ∧
        S.Schedules c pEvent n m S'.toEventEngine ∧ n < z.events ∧ S'.noteIDPool = S.noteIDPool ∧
        S'.Usable z) := by
  unfold SchedulingEngine.scheduleEventMicroSec
  by_cases hlacks : S.LacksEvent c
  · obtain ⟨P, hrun, hP⟩ := EventEngine.scheduleEventMicroSec_of_lacks h.events (h.delayed c) hlacks
      pEvent delay
    rw [hrun]
    exact .inl ⟨hlacks, _, rfl, resources_congr hP.holds.elements_eq rfl rfl rfl rfl,
      hP.elements, h.notes, h.noteIDs, h.delayed⟩
  · obtain ⟨E, n, m, hrun, hE, hn, hpool, husable⟩ :=
      EventEngine.scheduleEventMicroSec_of_not_lacks h.events (h.delayed c) hlacks pEvent delay
    rw [hrun]
    refine .inr ⟨hlacks, { S with toEventEngine := E }, n, m, rfl, hE, hn, rfl, hpool, ?_,
      h.noteIDs, fun c' => ?_⟩
    · rw [hE.notes]
      exact h.notes
    · by_cases hc : c' = c
      · rw [hc]
        exact husable
      · rw [hE.channels c' hc]
        exact h.delayed c'

omit [DecidableEq C] in
theorem Launches.adds {S₁ : SchedulingEngine C δ} {m key : ℕ}
    (hschedules : S.Schedules c pEvent n m S₁.toEventEngine) (h : S₁.Launches c n k key S')
    (hfrom : (S'.pNotePool.fromID (S'.pNotePool.getID k)).index = some k) :
    S.Adds c (S'.pNotePool.getID k) n m k key S' where
  event := h.pEventPool ▸ hschedules.event
  node := h.delayedEvents ▸ hschedules.node
  note := hschedules.notes ▸ h.note
  queue := h.delayedEvents ▸ hschedules.queue
  channels := h.delayedEvents ▸ hschedules.channels
  target := h.delayedEvents ▸ hschedules.target
  noteID := h.noteID
  fromID := hfrom

/-- The second of the three results is the one that is not atomic. -/
theorem Usable.scheduleNoteMicroSec (h : S.Usable z) (parentNoteID : δ → ℕ) (c : C)
    (pEvent : Event δ) (delay : ℤ) :
    ∃ S' id, S.scheduleNoteMicroSec parentNoteID c pEvent delay = some (S', id) ∧ S'.Usable z ∧
      (S.LacksEvent c ∧ id = 0 ∧ S'.resources = S.resources ∨
        ¬ S.LacksEvent c ∧ ¬ S.CanLaunch (parentNoteID pEvent.param) ∧ id = 0 ∧
          (∃ n, S.pEventPool.Takes (.delayed c) n S'.pEventPool) ∨
        ¬ S.LacksEvent c ∧ S.CanLaunch (parentNoteID pEvent.param) ∧ id ≠ 0 ∧
          ∃ n m k key, S.Adds c id n m k key S') := by
  unfold SchedulingEngine.scheduleNoteMicroSec
  rcases h.scheduleEventMicroSec c pEvent delay with
    ⟨hlacks, S', hrun, hsame, hS'⟩ | ⟨hlacks, S₁, n, m, hrun, hschedules, hn, hids, h₁⟩
  · rw [hrun]
    exact ⟨S', 0, rfl, hS', .inl ⟨hlacks, rfl, hsame⟩⟩
  · have hindex := h₁.events.fromID_getID z.events_lt hn
    have hne := h₁.events.getID_ne_zero z.events_lt hn
    have hcan : S₁.CanLaunch (parentNoteID (S₁.event n).param) ↔
        S.CanLaunch (parentNoteID pEvent.param) := by
      rw [hschedules.param, CanLaunch, CanLaunch, CanLink, CanLink, hschedules.notes, hids]
    simp only [hrun, Option.bind_eq_bind, Option.bind_some, if_neg hne, hindex]
    rcases h₁.launchNewNote parentNoteID c n with
      ⟨hcannot, P, note, hlaunch, hP⟩ | ⟨hlaunched, S', k, key, hlaunch, hlaunches, hk, hS'⟩
    · rw [hlaunch]
      refine ⟨_, 0, rfl, ⟨h₁.events, hP.elements, h₁.noteIDs, h₁.delayed⟩, .inr (.inl ?_)⟩
      exact ⟨hlacks, hcan.not.mp hcannot, rfl, n, hschedules.event⟩
    · rw [hlaunch]
      refine ⟨S', _, rfl, hS', .inr (.inr ?_)⟩
      exact ⟨hlacks, hcan.mp hlaunched, hS'.notes.getID_ne_zero z.notes_lt hk, n, m, k, key,
        hlaunches.adds hschedules (hS'.notes.fromID_getID z.notes_lt hk)⟩

/-- The event waits, but the call has failed. -/
theorem Usable.not_atomic (h : S.Usable z) (hlacks : ¬ S.LacksEvent c)
    (hcannot : ¬ S.CanLaunch (parentNoteID pEvent.param)) (delay : ℤ) :
    ¬ S.Atomic parentNoteID c pEvent delay := by
  rintro ⟨T, id', hrun', hsame, -⟩
  obtain ⟨S', id, hrun, -, hcases⟩ := h.scheduleNoteMicroSec parentNoteID c pEvent delay
  cases hrun.symm.trans hrun'
  rcases hcases with ⟨hlacks', -⟩ | ⟨-, -, hid, n, htakes⟩ | ⟨-, hcan, -⟩
  · exact hlacks hlacks'
  · exact resources_ne htakes (hsame hid)
  · exact hcannot hcan

/-- A call is atomic unless an event is scheduled for which no note can be
launched. -/
theorem Usable.atomic_iff (h : S.Usable z) (parentNoteID : δ → ℕ) (c : C) (pEvent : Event δ)
    (delay : ℤ) : S.Atomic parentNoteID c pEvent delay ↔
      S.LacksEvent c ∨ S.CanLaunch (parentNoteID pEvent.param) := by
  constructor
  · intro hatomic
    by_contra hneither
    obtain ⟨hlacks, hcannot⟩ := not_or.mp hneither
    exact h.not_atomic hlacks hcannot delay hatomic
  · intro hcondition
    obtain ⟨S', id, hrun, -, hcases⟩ := h.scheduleNoteMicroSec parentNoteID c pEvent delay
    refine ⟨S', id, hrun, ?_⟩
    rcases hcases with ⟨-, hid, hsame⟩ | ⟨hlacks, hcannot, -⟩ | ⟨-, -, hid, hadds⟩
    · exact ⟨fun _ => hsame, fun hne => absurd hid hne⟩
    · exact absurd hcondition (not_or.mpr ⟨hlacks, hcannot⟩)
    · exact ⟨fun h0 => absurd h0 hid, fun _ => hadds⟩

/-! ## The engine without note IDs -/

/-- The pool of note IDs only decides whether a child is launched. -/
theorem Usable.toEventEngine_launchNewNote (h : S.Usable z) (parentNoteID : δ → ℕ) (c : C)
    (n : ℕ) :
    S.toEventEngine.launchNewNote parentNoteID c n (!S.noteIDPool.poolIsEmpty) =
      ((S.launchNewNote parentNoteID c n).1.toEventEngine,
        (S.launchNewNote parentNoteID c n).2) := by
  unfold EventEngine.launchNewNote SchedulingEngine.launchNewNote
  by_cases hempty : S.pNotePool.poolIsEmpty = true
  · rw [if_pos hempty, if_pos hempty]
  rw [if_neg hempty, if_neg hempty]
  dsimp only
  cases hk : (S.pNotePool.allocAppend .pool).2.index with
  | none => rfl
  | some k =>
      dsimp only [EventEngine.setNote, setNote, SchedulingEngine.linkParent]
      by_cases hparent : parentNoteID (S.event n).param = 0
      · simp only [hparent, if_true, moveLaunched, setNote, EventEngine.setEvent,
          Function.update_self, Function.update_idem]
      · simp only [hparent, if_false]
        cases hp : ((S.pNotePool.allocAppend .pool).1.fromID
            (parentNoteID (S.event n).param)).index with
        | none => rfl
        | some p =>
            simp only [Option.bind_eq_bind, Option.bind_some]
            rcases h.noteIDs.allocAppend_cases (.pChildNotes p) with
              ⟨he, hindex, hpool⟩ | ⟨hne, j, hindex, -, hids⟩
            · simp only [hindex, he]
              rfl
            · simp [hindex, hne, moveLaunched, setNote, EventEngine.setEvent]
/-- What holds of the events, the nodes and the notes of an engine therefore holds
here. -/
theorem Usable.toEventEngine_scheduleNoteMicroSec (h : S.Usable z) (parentNoteID : δ → ℕ) (c : C)
    (pEvent : Event δ) (delay : ℤ) :
    S.toEventEngine.scheduleNoteMicroSec parentNoteID c pEvent delay
        (!S.noteIDPool.poolIsEmpty) =
      (S.scheduleNoteMicroSec parentNoteID c pEvent delay).map fun (S', id) =>
        (S'.toEventEngine, id) := by
  unfold EventEngine.scheduleNoteMicroSec SchedulingEngine.scheduleNoteMicroSec
  rcases h.scheduleEventMicroSec c pEvent delay with
    ⟨-, S', hrun, -⟩ | ⟨-, S₁, n, m, hrun, -, hn, hids, h₁⟩
  · rw [hrun]
    obtain ⟨⟨E, id⟩, hE, hS'⟩ := Option.bind_eq_some_iff.mp hrun
    cases hS'
    rw [hE]
    rfl
  · have hindex := h₁.events.fromID_getID z.events_lt hn
    have hne := h₁.events.getID_ne_zero z.events_lt hn
    rw [hrun]
    obtain ⟨⟨E, id⟩, hE, hS₁⟩ := Option.bind_eq_some_iff.mp hrun
    obtain ⟨hengine, hid⟩ := Prod.mk.inj (Option.some.inj hS₁)
    have hE₁ : E = S₁.toEventEngine := congrArg toEventEngine hengine
    subst hE₁ hid
    rw [hE]
    simp only [Option.bind_eq_bind, Option.bind_some, if_neg hne, hindex, ← hids]
    exact congrArg some (h₁.toEventEngine_launchNewNote parentNoteID c n)

/-! ## Engines to run -/

omit [DecidableEq C] in
/-- The delayed events of an engine that keeps its invariant are in order. -/
theorem usable_of_inv {lists : Lists (EngineEventList C)}
    (h : EventEngine.Inv z.toEngineSizes S.toEventEngine lists)
    (hids : Pool.InUse z.noteIDs 0 S.noteIDPool S.noteIDPool.elements) : S.Usable z := by
  obtain ⟨notes, hnotes⟩ := h.notes
  refine ⟨h.events.elements, hnotes.elements, hids, fun c => ?_⟩
  obtain ⟨nodes, pending, hD⟩ := h.delayed c
  refine ⟨hD.pool.elements, pending, hD.queue, fun m hm hfree => ?_⟩
  rw [hD.pool.holds.elements_eq] at hfree
  exact hD.pool.disjoint hfree (by simp) ((hD.inUse m).mpr hm)

/-- The engine with two notes, and two IDs for their children. -/
def freshScheduling : SchedulingEngine Unit ℕ where
  toEventEngine := EventEngine.freshEngine
  noteIDPool := .create _ 2 0
  childNoteID _ := 0

def freshSizes : SchedulingSizes := ⟨⟨3, 2, 3, by decide⟩, 2, by decide⟩

theorem freshScheduling_usable : freshScheduling.Usable freshSizes :=
  usable_of_inv EventEngine.freshEngine_created.inv (Pool.create_inUse _ _).elements

theorem atomic_iff_firstNote : freshScheduling.Usable freshSizes ∧
    freshScheduling.Atomic id () EventEngine.middleC 0 := by
  have hcan : freshScheduling.CanLaunch (id EventEngine.middleC.param) :=
    ⟨by decide +kernel, fun hne => absurd rfl hne⟩
  exact ⟨freshScheduling_usable,
    (freshScheduling_usable.atomic_iff id () EventEngine.middleC 0).mpr (.inr hcan)⟩

/-- Two notes are scheduled, and no note is left. -/
def twoNotes : Option (SchedulingEngine Unit ℕ) := do
  let (S, _) ← freshScheduling.scheduleNoteMicroSec id () EventEngine.middleC 0
  let (S, _) ← S.scheduleNoteMicroSec id () EventEngine.middleC 0
  return S

/-- The third note fails, and its event stays on the queue. -/
theorem not_atomic_thirdNote : ∃ S, twoNotes = some S ∧ S.Usable freshSizes ∧
    ¬ S.Atomic id () EventEngine.middleC 0 := by
  obtain ⟨S₁, id₁, hrun₁, h₁, -⟩ :=
    freshScheduling_usable.scheduleNoteMicroSec id () EventEngine.middleC 0
  obtain ⟨S₂, id₂, hrun₂, h₂, -⟩ := h₁.scheduleNoteMicroSec id () EventEngine.middleC 0
  have hrun : twoNotes = some S₂ := by
    rw [twoNotes, hrun₁]
    simp [hrun₂]
  have hstate : ∀ S ∈ twoNotes, S.pNotePool.poolIsEmpty = true ∧
      S.pEventPool.poolIsEmpty = false ∧
      (S.delayedEvents ()).schedulerNodes.poolIsEmpty = false := by
    decide +kernel
  obtain ⟨hnotes, hevents, hnodes⟩ := hstate S₂ hrun
  refine ⟨S₂, hrun, h₂, h₂.not_atomic ?_ ?_ 0⟩
  · rintro (hempty | hempty)
    · exact absurd hempty (by simp [hevents])
    · exact absurd hempty (by simp [hnodes])
  · rintro ⟨hempty, -⟩
    exact absurd hempty (by simp [hnotes])

end SchedulingEngine

end LinuxSampler
