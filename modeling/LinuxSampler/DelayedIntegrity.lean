import LinuxSampler.DelayedQueue

/-!
# What the engine keeps of its delayed events

The invariant of an engine with its pools and the queues of its channels,
and what each operation keeps of it. Only an operation that releases an
event without regard to where it is can break it.
-/

namespace LinuxSampler

open DoublyLinked

/-- The sizes of the pools. A size is an `int`. -/
structure EngineSizes where
  events : ℕ
  notes : ℕ
  nodes : ℕ
  events_lt : events < 2 ^ 31

/-- The time for which an event is scheduled. -/
def EventGenerator.timeAhead {δ : Type} (G : EventGenerator) (pEvent : Event δ) (delay : ℤ) : ℕ :=
  G.scheduleTime (pEvent.fragmentPos G.toFragmentPos).1 (delay % 2 ^ 64).toNat

namespace EventEngine

variable {C δ : Type} [DecidableEq C] {z : EngineSizes} {S : EventEngine C δ}
  {lists : Lists (EngineEventList C)} {l : ListId (EngineEventList C)}
  {P : Pool (EngineEventList C)} {it : Iterator (EngineEventList C)} {c : C} {i m n : ℕ}

/-- The events that wait, by the lists of the pool. -/
def waiting (lists : Lists (EngineEventList C)) (c : C) : Set ℕ :=
  {i | i ∈ lists (.rtlist (.delayed c))}

structure Inv (z : EngineSizes) (S : EventEngine C δ) (lists : Lists (EngineEventList C)) :
    Prop where
  events : Pool.InUse z.events 1 S.pEventPool lists
  notes : ∃ L, Pool.InUse z.notes 1 S.pNotePool L
  delayed : ∀ c, ∃ nodes pending,
    (S.delayedEvents c).Sound z.nodes nodes pending (waiting lists c)

theorem waiting_moveTo (h : Pool.InUse n 1 P lists) (hi : ∀ c, i ∉ waiting lists c)
    (hl : ∀ c, l ≠ .rtlist (.delayed c)) (c : C) :
    waiting (lists.moveTo l i) c = waiting lists c := by
  ext j
  exact Lists.mem_moveTo_of_ne (h.nodup _) (hi c) (hl c).symm

omit [DecidableEq C] in
theorem notMem_waiting (h : Pool.InUse n 1 P lists) (hi : i ∈ lists l)
    (hl : ∀ c, l ≠ .rtlist (.delayed c)) (c : C) : i ∉ waiting lists c :=
  h.disjoint hi (hl c)

omit [DecidableEq C] in
/-- The pool changes, but not what is on the lists of delayed events. -/
theorem Inv.setPool {lists' : Lists (EngineEventList C)}
    (h : Inv z S lists) (hP : Pool.InUse z.events 1 P lists')
    (hwaiting : ∀ c, waiting lists' c = waiting lists c) :
    Inv z { S with pEventPool := P } lists' where
  events := hP
  notes := h.notes
  delayed c := by
    obtain ⟨nodes, pending, hD⟩ := h.delayed c
    rw [← hwaiting c] at hD
    exact ⟨nodes, pending, hD⟩

theorem Inv.free (h : Inv z S lists) (hit : it.index = some i) (hi : i < z.events)
    (hwaiting : ∀ c, i ∉ waiting lists c) :
    Inv z { S with pEventPool := (S.pEventPool.free it).1 } (lists.moveTo .freelist i) :=
  h.setPool (h.events.free hit hi) (waiting_moveTo h.events hwaiting (by simp))

omit [DecidableEq C] in
theorem Inv.setEvents (h : Inv z S lists) (event : ℕ → Event δ) :
    Inv z { S with event := event } lists :=
  { h with }

/-- The queue of one channel and the lists change. -/
theorem Inv.setDelayed {D : DelayedEvents C} {lists' : Lists (EngineEventList C)}
    (h : Inv z S lists) (event : ℕ → Event δ)
    (hP : Pool.InUse z.events 1 P lists')
    (hD : ∃ nodes pending, D.Sound z.nodes nodes pending (waiting lists' c))
    (hother : ∀ c', c' ≠ c → waiting lists' c' = waiting lists c') :
    Inv z { S with
      pEventPool := P, event := event,
      delayedEvents := Function.update S.delayedEvents c D } lists' where
  events := hP
  notes := h.notes
  delayed c' := by
    by_cases hc : c' = c
    · subst hc
      simpa using hD
    · simpa [hc, hother c' hc] using h.delayed c'

/-! ## Scheduling -/

/-- What has joined the queue of the channel is not scheduled before the time. -/
structure SchedulesFrom (S S' : EventEngine C δ) (c : C) (time : ℕ) : Prop where
  generator : S'.pEventGenerator = S.pEventGenerator
  since : ∀ t ≤ time, (S.delayedEvents c).Since t → (S'.delayedEvents c).Since t
  others : ∀ c', c' ≠ c → S'.delayedEvents c' = S.delayedEvents c'

omit [DecidableEq C] in
theorem SchedulesFrom.congr {S₁ S' S₁' : EventEngine C δ} {time : ℕ}
    (h : SchedulesFrom S₁ S₁' c time)
    (hgenerator : S'.pEventGenerator = S₁'.pEventGenerator)
    (hdelayed : S'.delayedEvents = S₁'.delayedEvents) : SchedulesFrom S₁ S' c time where
  generator := hgenerator.trans h.generator
  since := hdelayed ▸ h.since
  others := hdelayed ▸ h.others

/-- A node has been given to the event `i`, which was put on the list. -/
theorem Inv.scheduleAheadMicroSec (h : Inv z S lists) {S₁ : EventEngine C δ}
    {lists₁ : Lists (EngineEventList C)} {Q : Pool Unit} {nodes : Lists Unit} {pending : List ℕ}
    {e : ScheduledEvent C}
    (hD : (S.delayedEvents c).Sound z.nodes nodes pending (waiting lists c))
    (hm : m ∈ nodes .freelist) (hQ : Pool.InUse z.nodes 0 Q (nodes.moveTo (.rtlist ()) m))
    (he : e.itEvent.index = some i) (hi : i ∉ waiting lists c)
    (hevents : Pool.InUse z.events 1 S₁.pEventPool lists₁) (hnotes : S₁.pNotePool = S.pNotePool)
    (hdelayed : S₁.delayedEvents = Function.update S.delayedEvents c
      { S.delayedEvents c with
        schedulerNodes := Q, node := Function.update (S.delayedEvents c).node m e })
    (hself : waiting lists₁ c = insert i (waiting lists c))
    (hother : ∀ c', c' ≠ c → waiting lists₁ c' = waiting lists c') (pos : ℤ) (delay : ℕ) :
    ∃ S', S₁.scheduleAheadMicroSec c m pos delay = some S' ∧ Inv z S' lists₁ ∧
      S'.pEventPool = S₁.pEventPool ∧ (S₁.pEventGenerator = S.pEventGenerator →
        SchedulesFrom S S' c (S.pEventGenerator.scheduleTime pos delay)) := by
  obtain ⟨queue, hinsert, hsound, hsince⟩ := hD.schedule hm hQ
    { e with scheduleTime := S₁.pEventGenerator.scheduleTime pos delay } he hi rfl
  rw [← hself] at hsound
  unfold EventEngine.scheduleAheadMicroSec
  rw [hdelayed]
  simp only [Function.update_self, Function.update_idem]
  rw [hinsert]
  refine ⟨_, rfl, ⟨hevents, ?_, fun c' => ?_⟩, rfl, fun hgenerator =>
    ⟨hgenerator, fun t ht h' => ?_, fun c' hc => ?_⟩⟩
  · obtain ⟨L, hL⟩ := h.notes
    exact ⟨L, hnotes ▸ hL⟩
  · by_cases hc : c' = c
    · subst hc
      exact ⟨_, _, by simpa [EventEngine.setDelayed] using hsound⟩
    · obtain ⟨nodes', pending', hD'⟩ := h.delayed c'
      refine ⟨nodes', pending', ?_⟩
      simpa [EventEngine.setDelayed, hc, hdelayed, hother c' hc] using hD'
  · rw [← hgenerator] at ht
    simpa [EventEngine.setDelayed] using hsince t ht h'
  · simp [EventEngine.setDelayed, hc, hdelayed]

/-- The lists when an event that was just taken joins the delayed ones. -/
theorem waiting_delay (h : Pool.InUse n 1 P lists) (hi : ∀ c, i ∉ waiting lists c)
    (c : C) : waiting (lists.moveTo (.rtlist (.delayed c)) i) c = insert i (waiting lists c) ∧
      ∀ c', c' ≠ c → waiting (lists.moveTo (.rtlist (.delayed c)) i) c' = waiting lists c' := by
  constructor
  · ext j
    have hj := Lists.mem_moveTo (j := j) (i := i) (l := .rtlist (.delayed c))
      (h.nodup (.rtlist (.delayed c)))
    have hne : i ∉ lists (.rtlist (.delayed c)) := hi c
    simp only [waiting, Set.mem_ofPred_eq, Set.mem_insert_iff]
    rw [hj]
    grind
  · intro c' hc
    ext j
    exact Lists.mem_moveTo_of_ne (h.nodup _) (hi c') (by simpa using hc)

/-- The ID is zero or that of an event. -/
theorem Inv.scheduleEventMicroSec (h : Inv z S lists) (c : C) (pEvent : Event δ) (delay : ℤ) :
    ∃ S' id lists', S.scheduleEventMicroSec c pEvent delay = some (S', id) ∧ Inv z S' lists' ∧
      (id = 0 ∨ ∃ n < z.events, id = S'.pEventPool.getID n) ∧
      SchedulesFrom S S' c (S.pEventGenerator.timeAhead pEvent delay) := by
  unfold EventEngine.scheduleEventMicroSec
  dsimp only
  set it := (S.pEventPool.allocAppend (.events c)).2
  set S₀ : EventEngine C δ := { S with pEventPool := (S.pEventPool.allocAppend (.events c)).1 }
    with hS₀
  rcases h.events.allocAppend (.events c) with ⟨hindex, hpool, -⟩ | ⟨i, hindex, hfree, hP⟩
  · rw [show it.index = none from hindex]
    refine ⟨S₀, 0, lists, rfl, ?_, .inl rfl, ⟨rfl, fun _ _ h => h, fun _ _ => rfl⟩⟩
    rw [hS₀, hpool]
    exact h
  · have hnot := notMem_waiting h.events hfree (by simp)
    have hkeep := waiting_moveTo h.events hnot (l := .rtlist (.events c)) (by simp)
    have h₀ : Inv z S₀ (lists.moveTo (.rtlist (.events c)) i) := h.setPool hP hkeep
    have hlt := h.events.lt hfree
    have hnot₀ : ∀ c', i ∉ waiting (lists.moveTo (.rtlist (.events c)) i) c' := by
      intro c'
      rw [hkeep c']
      exact hnot c'
    obtain ⟨nodes, pending, hD⟩ := h₀.delayed c
    rw [show it.index = some i from hindex]
    rcases hD.pool.allocAppend () with ⟨hnode, -⟩ | ⟨m, hnode, hm, hnodes⟩
    · rw [show ((S.delayedEvents c).schedulerNodes.allocAppend ()).2.index = none from hnode]
      exact ⟨_, _, _, rfl, h₀.free hindex hlt hnot₀, .inl rfl, ⟨rfl, fun _ _ h => h, fun _ _ => rfl⟩⟩
    · rw [show ((S.delayedEvents c).schedulerNodes.allocAppend ()).2.index = some m from hnode]
      dsimp only
      set S₁ := EventEngine.connect _ c m it with hS₁
      have hmem : i ∈ lists.moveTo (.rtlist (.events c)) i (.rtlist (.events c)) :=
        (Lists.mem_moveTo (h.events.nodup _)).mpr (.inr ⟨rfl, rfl⟩)
      have hmove : Pool.InUse z.events 1 S₁.pEventPool _ :=
        hP.moveToEndOf hindex hmem (.delayed c)
      obtain ⟨hself, hother⟩ := waiting_delay hP hnot₀ c
      set e : ScheduledEvent C := { (S₀.delayedEvents c).node m with
        itEvent := (S₀.pEventPool.moveToEndOf it (.delayed c)).2.2 }
      have hdelayed : S₁.delayedEvents = Function.update S₀.delayedEvents c
          { S₀.delayedEvents c with
            schedulerNodes := ((S₀.delayedEvents c).schedulerNodes.allocAppend ()).1
            node := Function.update (S₀.delayedEvents c).node m e } := by
        rw [hS₁, EventEngine.connect, EventEngine.setDelayed, EventEngine.setEvent]
        simp only [Function.update_self, Function.update_idem]
        rfl
      have he : e.itEvent.index = some i := hindex
      have hmove' : Pool.InUse z.events 1 (S₁.fragmentPos i).2.pEventPool _ := hmove
      obtain ⟨S', hrun, hS', hpool, hsched⟩ :=
        h₀.scheduleAheadMicroSec hD hm hnodes he (hnot₀ c) hmove'
          rfl hdelayed hself hother (S₁.fragmentPos i).1 (delay % 2 ^ 64).toNat
      rw [hrun]
      refine ⟨S', _, _, rfl, hS', .inr ⟨i, hlt, ?_⟩, ?_⟩
      · rw [hpool]
      · have hevent : S₁.event i = pEvent := Function.update_self ..
        rw [EventGenerator.timeAhead, ← hevent]
        exact ⟨(hsched rfl).generator, (hsched rfl).since, (hsched rfl).others⟩

omit [DecidableEq C] in
theorem Inv.setNotes {Q : Pool (NoteList C)} {L : Lists (NoteList C)} (h : Inv z S lists)
    (hQ : Pool.InUse z.notes 1 Q L) (event : ℕ → Event δ) (note : ℕ → LaunchedNote) :
    Inv z { S with pNotePool := Q, event := event, note := note } lists :=
  { h with notes := ⟨L, hQ⟩ }

theorem Inv.launchNewNote (h : Inv z S lists) (parentNoteID : δ → ℕ) (c : C) (n : ℕ)
    (childNoteID : Bool) : Inv z (S.launchNewNote parentNoteID c n childNoteID).1 lists := by
  obtain ⟨L, hL⟩ := h.notes
  unfold EventEngine.launchNewNote
  split
  · exact h
  · dsimp only
    rcases hL.allocAppend .pool with ⟨hindex, hpool, -⟩ | ⟨k, hindex, hfree, hQ⟩
    · rw [hindex, hpool]
      exact h
    · have hk : k ∈ L.moveTo (.rtlist .pool) k (.rtlist .pool) :=
        (Lists.mem_moveTo (hL.nodup _)).mpr (.inr ⟨rfl, rfl⟩)
      rw [hindex]
      dsimp only
      split
      · exact h.setNotes (hQ.free hindex (hL.lt hfree)) _ _
      · exact h.setNotes (hQ.moveToEndOf hindex hk _) _ _

theorem launchNewNote_frame (S : EventEngine C δ) (parentNoteID : δ → ℕ) (c : C) (n : ℕ)
    (childNoteID : Bool) :
    (S.launchNewNote parentNoteID c n childNoteID).1.pEventGenerator = S.pEventGenerator ∧
      (S.launchNewNote parentNoteID c n childNoteID).1.delayedEvents = S.delayedEvents := by
  unfold EventEngine.launchNewNote
  split
  · exact ⟨rfl, rfl⟩
  · dsimp only
    split
    · exact ⟨rfl, rfl⟩
    · split <;> exact ⟨rfl, rfl⟩

theorem Inv.scheduleNoteMicroSec (h : Inv z S lists) (parentNoteID : δ → ℕ) (c : C)
    (pEvent : Event δ) (delay : ℤ) (childNoteID : Bool) :
    ∃ S' id lists', S.scheduleNoteMicroSec parentNoteID c pEvent delay childNoteID =
      some (S', id) ∧ Inv z S' lists' ∧
      SchedulesFrom S S' c (S.pEventGenerator.timeAhead pEvent delay) := by
  obtain ⟨S₁, id, lists₁, hrun, h₁, hid, hsched⟩ := h.scheduleEventMicroSec c pEvent delay
  unfold EventEngine.scheduleNoteMicroSec
  rw [hrun]
  rcases hid with rfl | ⟨n, hn, rfl⟩
  · exact ⟨S₁, 0, lists₁, rfl, h₁, hsched⟩
  · have hindex := h₁.events.fromID_getID z.events_lt hn
    have hne := h₁.events.getID_ne_zero z.events_lt hn
    simp only [Option.bind_eq_bind, Option.bind_some, if_neg hne, hindex]
    refine ⟨_, _, lists₁, rfl, h₁.launchNewNote parentNoteID c n childNoteID, ?_⟩
    obtain ⟨hgenerator, hdelayed⟩ := S₁.launchNewNote_frame parentNoteID c n childNoteID
    exact hsched.congr hgenerator hdelayed

/-! ## Dropping events -/

theorem Inv.ignoreEvent (h : Inv z S lists) {id : ℕ}
    (hid : ∀ i ∈ (S.pEventPool.fromID id).index, ∀ c, i ∉ waiting lists c) :
    ∃ lists', Inv z (S.ignoreEvent id) lists' := by
  unfold EventEngine.ignoreEvent
  dsimp only
  split
  · next hdata =>
    obtain ⟨i, hi⟩ := Iterator.hasData_iff.mp hdata
    exact ⟨_, h.free hi (h.events.fromID_lt hi) (hid i hi)⟩
  · exact ⟨lists, h⟩

theorem Inv.ignoreNote (h : Inv z S lists) {id : ℕ}
    (hid : ∀ k ∈ (S.pNotePool.fromID id).index, (S.note k).activeVoices = 0 →
      ∀ i ∈ (S.pEventPool.fromID (S.note k).eventID).index, ∀ c, i ∉ waiting lists c) :
    ∃ lists', Inv z (S.ignoreNote id) lists' := by
  obtain ⟨L, hL⟩ := h.notes
  unfold EventEngine.ignoreNote
  dsimp only
  cases hk : (S.pNotePool.fromID id).index with
  | none => exact ⟨lists, h⟩
  | some k =>
      dsimp only
      split
      · exact ⟨lists, h⟩
      · next hvoices =>
        split
        · next hdata =>
          obtain ⟨i, hi⟩ := Iterator.hasData_iff.mp hdata
          have hwait := hid k hk (not_not.mp hvoices) i hi
          have h₁ := h.free hi (h.events.fromID_lt hi) hwait
          exact ⟨_, h₁.setNotes (hL.free hk (hL.fromID_lt hk)) _ _⟩
        · exact ⟨lists, h⟩

/-! ## clear() -/

theorem Inv.clearDelayed (h : Inv z S lists) (c : C) :
    ∃ S' lists', S.clearDelayed c = some S' ∧ Inv z S' lists' ∧ ∀ time, SchedulesFrom S S' c time := by
  obtain ⟨nodes, pending, hD⟩ := h.delayed c
  obtain ⟨P, hP, hpool⟩ := h.events.clear (.delayed c)
  obtain ⟨Q, queue, nodes', hQ, hqueue, hsound⟩ := hD.clear
  unfold EventEngine.clearDelayed
  simp only [hP, hQ, hqueue, Option.bind_eq_bind, Option.bind_some]
  refine ⟨_, _, rfl, h.setDelayed S.event hpool ⟨nodes', [], ?_⟩ fun c' hc => ?_,
    fun time => ⟨rfl, fun t _ _ => ?_, fun c' hc => ?_⟩⟩
  · have hempty : waiting ((lists.empty (.rtlist (.delayed c))).putLast .freelist
        (lists (.rtlist (.delayed c)))) c = ∅ := by
      ext j
      simp [waiting]
    rw [hempty]
    exact hsound
  · ext j
    simp [waiting, hc]
  · simpa [EventEngine.setDelayed] using hsound.since_iff.mpr (by simp)
  · simp [EventEngine.setDelayed, hc]

end EventEngine

end LinuxSampler
