import LinuxSampler.DelayedDue

/-!
# The delayed events over a run

As long as no event is dropped that waits, the nodes in the queue of each
channel and the events on its list of delayed events correspond, in every
state that an engine reaches.

`IgnoreEvent()` and `IgnoreNote()` do not look where an event is. An event
that waits goes back to the pool, and its node stays in the queue.
-/

namespace LinuxSampler

namespace EventEngine

variable {C δ : Type} [DecidableEq C] {z : EngineSizes} {S S' : EventEngine C δ}
  {lists : Lists (EngineEventList C)} {c : C} {i : ℕ} {parentNoteID : δ → ℕ}
  {a : EngineAction C δ}

/-- `pending` are the nodes in the queue, a search tree with a ring for each
time. Each refers to one event on the list of delayed events and each event
there has one, and none of them is back in the pool. -/
structure IntactAt (S : EventEngine C δ) (c : C) (pending : List ℕ) : Prop where
  queue : ∃ t twins, RTAVLTree.WellFormed (S.delayedEvents c).scheduleTime
    (S.delayedEvents c).queue pending t twins
  tree : ∀ m, (S.delayedEvents c).queue.tree m = true ↔ m ∈ pending
  correspond : Set.BijOn (S.delayedEvents c).target {m | m ∈ pending}
    (some '' {i | i ∈ S.delayedList c})
  live : ∀ m ∈ pending, ∀ i ∈ (S.delayedEvents c).target m, i ∉ S.pEventPool.elements .freelist

def Intact (S : EventEngine C δ) (c : C) : Prop := ∃ pending, S.IntactAt c pending

omit [DecidableEq C] in
theorem Inv.waiting_eq (h : Inv z S lists) (c : C) : waiting lists c = {i | i ∈ S.delayedList c} := by
  rw [delayedList, h.events.holds.elements_eq]
  rfl

omit [DecidableEq C] in
theorem Inv.intact (h : Inv z S lists) (c : C) : S.Intact c := by
  obtain ⟨nodes, pending, hD⟩ := h.delayed c
  obtain ⟨t, hT⟩ := hD.queue
  rw [h.waiting_eq c] at hD
  refine ⟨pending, ⟨t, _, hT.wellFormed⟩, hT.tree rfl, hD.paired, fun m hm i hi hfree => ?_⟩
  obtain ⟨j, hj, hmj⟩ := hD.paired.mapsTo hm
  obtain rfl : j = i := Option.some.inj (hmj.trans hi)
  rw [h.events.holds.elements_eq] at hfree
  rw [← h.waiting_eq c] at hj
  exact h.events.disjoint hfree (by simp) hj

/-! ## Steps -/

omit [DecidableEq C] in
theorem Inv.elsewhere (h : Inv z S lists) (hi : S.Elsewhere i) :
    (∃ list, i ∈ lists (.rtlist list)) ∧ ∀ c, i ∉ waiting lists c := by
  obtain ⟨hlt, hfree, hdelayed⟩ := hi
  rw [h.events.holds.elements_eq] at hfree
  rw [h.events.sized.poolsize] at hlt
  refine ⟨?_, fun c hc => ?_⟩
  · obtain ⟨l, hl⟩ := (h.events.holds.cover i).mp hlt
    cases l with
    | freelist => exact absurd hl hfree
    | rtlist list => exact ⟨list, hl⟩
  · rw [h.waiting_eq c] at hc
    exact hdelayed c hc

omit [DecidableEq C] in
theorem rtlist_ne_delayed {list : EngineEventList C} (h : list.isDelayed = false) (c : C) :
    ListId.rtlist list ≠ .rtlist (.delayed c) := by
  intro e
  cases e
  cases h

omit [DecidableEq C] in
theorem Inv.spared (h : Inv z S lists) (ha : a.Spares S) (hi : i ∈ a.dropped S) (c : C) :
    i ∉ waiting lists c := by
  rw [h.waiting_eq c]
  exact ha i hi c

theorem Inv.ignoreNote_of_spares (h : Inv z S lists) {id : ℕ}
    (hid : ∀ i ∈ S.noteEvent id, ∀ c, i ∉ waiting lists c) :
    ∃ lists', Inv z (S.ignoreNote id) lists' := by
  refine h.ignoreNote fun k hk hvoices i hi => hid i ?_
  have hk' : (S.pNotePool.fromID id).index = some k := hk
  simp only [noteEvent, hk', Option.bind_eq_bind, Option.bind_some, hvoices, ne_eq, not_true,
    if_false]
  exact hi

theorem Inv.step (h : Inv z S lists) (hvalid : a.Valid S) (hspares : a.Spares S) :
    ∃ S' lists', a.step parentNoteID S = some S' ∧ Inv z S' lists' := by
  have hdropped {i : ℕ} (hi : i ∈ a.dropped S) (c : C) := h.spared hspares hi c
  cases a with
  | scheduleEvent c pEvent delay =>
      obtain ⟨S', id, lists', hrun, hS', -⟩ := h.scheduleEventMicroSec c pEvent delay
      exact ⟨S', lists', congrArg (Option.map Prod.fst) hrun, hS'⟩
  | scheduleNote c pEvent delay childNoteID =>
      obtain ⟨S', id, lists', hrun, hS', -⟩ :=
        h.scheduleNoteMicroSec parentNoteID c pEvent delay childNoteID
      exact ⟨S', lists', congrArg (Option.map Prod.fst) hrun, hS'⟩
  | ignoreEvent id =>
      obtain ⟨lists', hS'⟩ := h.ignoreEvent fun i hi => hdropped hi
      exact ⟨_, lists', rfl, hS'⟩
  | ignoreNote id =>
      obtain ⟨lists', hS'⟩ := h.ignoreNote_of_spares fun i hi => hdropped hi
      exact ⟨_, lists', rfl, hS'⟩
  | ignoreEventByScriptID id =>
      by_cases hbit : id.testBit 63 = true
      · obtain ⟨lists', hS'⟩ := h.ignoreNote_of_spares fun i hi =>
          hdropped (by rwa [EngineAction.dropped, if_pos hbit])
        refine ⟨_, lists', rfl, ?_⟩
        rwa [ignoreEventByScriptID, if_pos hbit]
      · obtain ⟨lists', hS'⟩ := h.ignoreEvent fun i hi =>
          hdropped (by rwa [EngineAction.dropped, if_neg hbit])
        refine ⟨_, lists', rfl, ?_⟩
        rwa [ignoreEventByScriptID, if_neg hbit]
  | insertDueEvents c =>
      obtain ⟨S', lists', hrun, hS', -⟩ := h.insertDueEvents c
      exact ⟨S', lists', hrun, hS'⟩
  | clearDelayed c =>
      obtain ⟨S', lists', hrun, hS', -⟩ := h.clearDelayed c
      exact ⟨S', lists', hrun, hS'⟩
  | alloc list e =>
      rcases h.events.allocAppend list with ⟨hindex, hpool, -⟩ | ⟨i, hindex, hfree, hP⟩
      · refine ⟨S, lists, ?_, h⟩
        simp only [EngineAction.step, hindex, hpool, Option.elim_none]
      · have hkeep := waiting_moveTo h.events (notMem_waiting h.events hfree (by simp))
          (rtlist_ne_delayed hvalid)
        refine ⟨_, _, ?_, (h.setPool hP hkeep).setEvents (Function.update S.event i e)⟩
        simp only [EngineAction.step, hindex, Option.elim_some]
        rfl
  | free n =>
      obtain ⟨⟨list, hn⟩, hwaiting⟩ := h.elsewhere hvalid
      exact ⟨_, _, rfl, h.free rfl (h.events.lt hn) hwaiting⟩
  | moveToEndOf n dst =>
      obtain ⟨⟨list, hn⟩, hwaiting⟩ := h.elsewhere hvalid.1
      have hkeep := waiting_moveTo h.events hwaiting (rtlist_ne_delayed hvalid.2)
      exact ⟨_, _, rfl, h.setPool (h.events.moveToEndOf rfl hn dst) hkeep⟩
  | clearList list =>
      obtain ⟨P, hP, hpool⟩ := h.events.clear list
      refine ⟨_, _, congrArg (Option.map _) hP, h.setPool hpool fun c => ?_⟩
      ext i
      have hne : ListId.rtlist (.delayed c) ≠ .rtlist list := (rtlist_ne_delayed hvalid c).symm
      simp [waiting, hne]
  | writeEvent n e => exact ⟨_, lists, rfl, h.setEvents _⟩
  | launchNewNote c n childNoteID =>
      exact ⟨_, lists, rfl, h.launchNewNote parentNoteID c n childNoteID⟩
  | writeVoices k activeVoices =>
      obtain ⟨L, hL⟩ := h.notes
      exact ⟨_, lists, rfl, h.setNotes hL _ _⟩
  | freeNote k =>
      obtain ⟨L, hL⟩ := h.notes
      have hk : k < z.notes := hL.sized.poolsize ▸ hvalid.1
      exact ⟨_, lists, rfl, h.setNotes (hL.free rfl hk) _ _⟩
  | nextFragment pEventGenerator => exact ⟨_, lists, rfl, { h with }⟩

/-! ## Steps that drop an event -/

/-- What the steps that drop an event have in common. -/
def Drops (S : EventEngine C δ) (i : ℕ) (S' : EventEngine C δ) : Prop :=
  S'.delayedEvents = S.delayedEvents ∧
    ∃ it, it.index = some i ∧ S'.pEventPool = (S.pEventPool.free it).1

theorem drops_ignoreEvent {id : ℕ} (hi : i ∈ (S.pEventPool.fromID id).index) :
    S.Drops i (S.ignoreEvent id) := by
  rw [ignoreEvent, if_pos (Iterator.hasData_iff.mpr ⟨i, hi⟩)]
  exact ⟨rfl, _, hi, rfl⟩

theorem drops_ignoreNote {id : ℕ} (hi : i ∈ S.noteEvent id) : S.Drops i (S.ignoreNote id) := by
  unfold noteEvent at hi
  unfold ignoreNote
  cases hk : (S.pNotePool.fromID id).index with
  | none =>
      rw [hk] at hi
      cases hi
  | some k =>
      rw [hk] at hi
      simp only [Option.bind_eq_bind, Option.bind_some] at hi ⊢
      split at hi
      · cases hi
      · next hvoices =>
        rw [hk]
        dsimp only
        rw [if_neg hvoices, if_pos (Iterator.hasData_iff.mpr ⟨i, hi⟩)]
        exact ⟨rfl, _, hi, rfl⟩

theorem drops_step (hi : i ∈ a.dropped S) (hstep : a.step parentNoteID S = some S') :
    S.Drops i S' := by
  cases a with
  | ignoreEvent id =>
      cases hstep
      exact drops_ignoreEvent hi
  | ignoreNote id =>
      cases hstep
      exact drops_ignoreNote hi
  | ignoreEventByScriptID id =>
      cases hstep
      rw [EngineAction.dropped] at hi
      unfold ignoreEventByScriptID
      split at hi
      · next hbit =>
        rw [if_pos hbit]
        exact drops_ignoreNote hi
      · next hbit =>
        rw [if_neg hbit]
        exact drops_ignoreEvent hi
  | _ => cases hi

/-! ## Runs -/

/-- An engine that was just created. -/
structure Created (z : EngineSizes) (S : EventEngine C δ) : Prop where
  events : S.pEventPool = .create _ z.events 1
  notes : S.pNotePool = .create _ z.notes 1
  nodes : ∀ c, (S.delayedEvents c).schedulerNodes = .create Unit z.nodes 0
  queue : ∀ c, RTAVLTree.IsEmpty true (S.delayedEvents c).queue

theorem Created.inv (h : S.Created z) :
    Inv z S (Lists.putLast (fun _ => []) .freelist (List.range z.events)) where
  events := h.events ▸ Pool.create_inUse _ _
  notes := ⟨_, h.notes ▸ Pool.create_inUse _ _⟩
  delayed c := by
    have hqueue := h.queue c
    refine ⟨_, [], ⟨⟨_, .empty hqueue.root hqueue.nodesCount hqueue.tree⟩,
      h.nodes c ▸ Pool.create_inUse _ _, fun m => ?_, ?_⟩⟩
    · simp
    · simp [waiting]

theorem Inv.run {actions : List (EngineAction C δ)} (h : Inv z S lists)
    (hok : RunOk parentNoteID EngineAction.Spares actions S) :
    ∃ S' lists', EventEngine.run parentNoteID actions S = some S' ∧ Inv z S' lists' := by
  induction actions generalizing S lists with
  | nil => exact ⟨S, lists, rfl, h⟩
  | cons a actions ih =>
      obtain ⟨hvalid, hspares, hrest⟩ := hok
      obtain ⟨S₁, lists₁, hstep, h₁⟩ := h.step hvalid hspares
      obtain ⟨S', lists', hrun, hS'⟩ := ih h₁ (hrest S₁ hstep)
      refine ⟨S', lists', ?_, hS'⟩
      rw [EventEngine.run, List.foldlM_cons, hstep]
      exact hrun

/-- Over runs that drop no waiting event no null pointer is followed, and the queue and the list of
delayed events of every channel correspond. -/
theorem intact_run {S₀ : EventEngine C δ} (h₀ : S₀.Created z) {actions : List (EngineAction C δ)}
    (hok : RunOk parentNoteID EngineAction.Spares actions S₀) :
    ∃ S, EventEngine.run parentNoteID actions S₀ = some S ∧ ∀ c, S.Intact c := by
  obtain ⟨S, lists, hrun, h⟩ := h₀.inv.run hok
  exact ⟨S, hrun, h.intact⟩

/-! ## Engines to run -/

/-- One channel, at 64 sample points a fragment. The length of a delay is that
in microseconds. -/
def freshEngine : EventEngine Unit ℕ where
  pEventPool := .create _ 3 1
  event _ := ⟨.note_on, 60, 0, 0, 0, 0⟩
  pNotePool := .create _ 2 1
  note _ := ⟨0, 0, 0, 0⟩
  delayedEvents _ := ⟨.create Unit 3 0, fun _ => ⟨.invalid, 0⟩, RTAVLTree.freshTree⟩
  pEventGenerator := ⟨id, id, 64, 0⟩

theorem freshEngine_created : freshEngine.Created ⟨3, 2, 3, by decide⟩ where
  events := rfl
  notes := rfl
  nodes _ := rfl
  queue _ := RTAVLTree.freshTree_isEmpty true

def middleC : Event ℕ := ⟨.note_on, 60, 0, 0, 0, 0⟩

/-- Two events are scheduled, the one that has become due is ignored, and the
channel is reset. -/
def ignoreDue : List (EngineAction Unit ℕ) :=
  [.scheduleNote () middleC 0 true, .scheduleEvent () middleC 100, .insertDueEvents (),
    .ignoreNote 2, .clearDelayed ()]

theorem intact_run_ignoreDue :
    RunOk id EngineAction.Spares ignoreDue freshEngine ∧
      ∃ S, EventEngine.run id ignoreDue freshEngine = some S ∧ ∀ c, S.Intact c := by
  have hok : RunOk id EngineAction.Spares ignoreDue freshEngine := by decide +kernel
  exact ⟨hok, intact_run freshEngine_created hok⟩

/-- The handler of an event plays a note and ignores it at once. -/
theorem not_intact_run : ¬ ∀ actions : List (EngineAction Unit ℕ),
    RunOk id (fun _ _ => True) actions freshEngine →
      ∃ S, EventEngine.run id actions freshEngine = some S ∧ ∀ c, S.Intact c := by
  intro h
  obtain ⟨S, hrun, hS⟩ := h [.scheduleNote () middleC 0 true, .ignoreNote 2] (by decide +kernel)
  obtain ⟨pending, hpending⟩ := hS ()
  have hstate : ∀ S ∈ EventEngine.run id [.scheduleNote () middleC 0 true, .ignoreNote 2]
      freshEngine, (S.delayedEvents ()).queue.tree 2 = true ∧
        (S.delayedEvents ()).target 2 = some 2 ∧ 2 ∈ S.pEventPool.elements .freelist := by
    decide +kernel
  obtain ⟨htree, htarget, hfree⟩ := hstate S hrun
  exact hpending.live 2 ((hpending.tree 2).mp htree) 2 htarget hfree

end EventEngine

end LinuxSampler
