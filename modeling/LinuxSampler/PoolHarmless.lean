import LinuxSampler.PoolExhaustion

/-!
# What an exhausted pool does no harm to

In every state that an engine reaches, an operation that does not find an
element leaves everything else as it was, unless it is one of the two that
do not look.
-/

namespace LinuxSampler

namespace PooledEngine

variable {C δ : Type} [DecidableEq C] {L : ScriptLang} {script : C → InstrumentScript L}
  {parentNoteID : δ → ℕ} {S S' : PooledEngine C δ L} {z : EngineSizes} {size : C → ℕ} {c : C}

structure Inv (script : C → InstrumentScript L) (z : EngineSizes) (size : C → ℕ)
    (S : PooledEngine C δ L) : Prop where
  engine : ∃ lists, EventEngine.Inv z S.engine lists
  channel : ∀ c, ∃ lists pending,
    ScriptChannel.Inv (script c) (size c) False (S.channel c) lists pending

/-! ## Steps -/

omit [DecidableEq C] in
theorem Inv.withEngine (h : Inv script z size S) {engine : EventEngine C δ}
    (hengine : ∃ lists, EventEngine.Inv z engine lists) (noteIDPool : ℕ)
    (activeKeyGroups : C → List ℕ) :
    Inv script z size { S with
      engine := engine, noteIDPool := noteIDPool, activeKeyGroups := activeKeyGroups } :=
  ⟨hengine, h.channel⟩

theorem Inv.setChannel (h : Inv script z size S) {channel : ScriptChannel L}
    (hchannel : ∃ lists pending, ScriptChannel.Inv (script c) (size c) False channel lists pending) :
    Inv script z size (S.setChannel c channel) where
  engine := h.engine
  channel c' := by
    unfold PooledEngine.setChannel
    by_cases hc : c' = c
    · subst hc
      simpa using hchannel
    · simpa [hc] using h.channel c'

theorem Inv.handleKeyGroupConflicts (h : Inv script z size S) {KeyGroup n : ℕ}
    (hstep : S.handleKeyGroupConflicts c KeyGroup n = some S') : Inv script z size S' := by
  unfold PooledEngine.handleKeyGroupConflicts at hstep
  split_ifs at hstep
  · rcases h.engine with ⟨lists, hengine⟩
    have halloc : ∃ engine lists', EngineAction.step (fun _ : δ => 0) S.engine
        (.alloc (.keyGroup c KeyGroup) (S.engine.event n)) = some engine ∧
          EventEngine.Inv z engine lists' :=
      hengine.step rfl fun i hi => nomatch hi
    rcases halloc with ⟨engine, lists', hrun, h'⟩
    dsimp only [EngineAction.step] at hrun hstep
    cases hindex : (S.engine.pEventPool.allocAppend (.keyGroup c KeyGroup)).2.index with
    | none =>
        rw [hindex] at hstep
        cases hstep
    | some m =>
        rw [hindex] at hstep hrun
        cases hrun
        cases hstep
        exact h.withEngine ⟨lists', h'⟩ _ _
  · cases hstep
    exact h

theorem Inv.clearLists {engine engine' : EventEngine C δ} {groups : List ℕ}
    (h : ∃ lists, EventEngine.Inv z engine lists)
    (hrun : groups.foldlM (fun engine group =>
      EngineAction.step parentNoteID engine (.clearList (.keyGroup c group))) engine =
        some engine') : ∃ lists, EventEngine.Inv z engine' lists := by
  induction groups generalizing engine with
  | nil =>
      cases hrun
      exact h
  | cons group groups ih =>
      rcases h with ⟨lists, h⟩
      have hclear : ∃ engine₁ lists₁, EngineAction.step parentNoteID engine
          (.clearList (.keyGroup c group)) = some engine₁ ∧ EventEngine.Inv z engine₁ lists₁ :=
        h.step rfl fun i hi => nomatch hi
      rcases hclear with ⟨engine₁, lists₁, hstep, h₁⟩
      rw [List.foldlM_cons, hstep] at hrun
      exact ih ⟨lists₁, h₁⟩ hrun

/-- The conditions under which the pools stay sound: no event is dropped that
waits, and no script event is released that is in the queue. -/
def Spares (S : PooledEngine C δ L) : PooledAction C δ → Prop
  | .engine a => a.Valid S.engine ∧ a.Spares S.engine
  | .script c a => (S.channel c).SparesQueued a
  | _ => True

theorem Inv.step (h : Inv script z size S) {a : PooledAction C δ} (hspares : S.Spares a)
    (hstep : S.step script parentNoteID a = some S') : Inv script z size S' := by
  rcases h.engine with ⟨lists, hengine⟩
  cases a with
  | engine a =>
      rcases hspares with ⟨hvalid, hspares⟩
      dsimp only [PooledEngine.step] at hstep
      split_ifs at hstep
      have hnext : ∃ engine lists', a.step parentNoteID S.engine = some engine ∧
          EventEngine.Inv z engine lists' := hengine.step hvalid hspares
      rcases hnext with ⟨engine, lists', hrun, h'⟩
      rw [hrun] at hstep
      cases hstep
      exact h.withEngine ⟨lists', h'⟩ _ _
  | scheduleNote c pEvent delay =>
      rcases hengine.scheduleNoteMicroSec parentNoteID c pEvent delay (S.noteIDPool ≠ 0) with
        ⟨engine, id, lists', hrun, h', -⟩
      dsimp only [PooledEngine.step] at hstep
      unfold PooledEngine.scheduleNoteMicroSec at hstep
      rw [hrun] at hstep
      cases hstep
      exact h.withEngine ⟨lists', h'⟩ _ _
  | launchNewNote c n =>
      cases hstep
      exact h.withEngine ⟨lists, hengine.launchNewNote parentNoteID c n _⟩ _ _
  | freeNoteIDs count =>
      cases hstep
      exact ⟨h.engine, h.channel⟩
  | script c a =>
      rcases Option.map_eq_some_iff.mp hstep with ⟨channel, hchannel, rfl⟩
      rcases h.channel c with ⟨lists, pending, hc⟩
      exact h.setChannel (hc.step hspares False.elim hchannel)
  | handleKeyGroupConflicts c KeyGroup n => exact h.handleKeyGroupConflicts hstep
  | addGroup c group =>
      dsimp only [PooledEngine.step] at hstep
      split_ifs at hstep
      · cases hstep
        exact h
      · cases hstep
        exact ⟨h.engine, h.channel⟩
  | deleteGroupEventLists c =>
      rcases Option.bind_eq_some_iff.mp hstep with ⟨engine, hrun, hS'⟩
      cases hS'
      exact h.withEngine (Inv.clearLists h.engine hrun) _ _

/-! ## Operations -/

omit [DecidableEq C] in
theorem AsBefore.refl (S : PooledEngine C δ L) : S.AsBefore S :=
  ⟨fun _ => rfl, fun _ _ => rfl, fun _ => rfl, fun _ _ => rfl, rfl, rfl, fun _ => rfl,
    fun _ => rfl, fun _ => rfl, rfl⟩

/-- The channel changes, but for its script events. -/
theorem AsBefore.setChannel {channel : ScriptChannel L}
    (hpool : channel.pEvents = (S.channel c).pEvents)
    (hevent : channel.event = (S.channel c).event)
    (hqueue : channel.suspendedEvents = (S.channel c).suspendedEvents) :
    S.AsBefore (S.setChannel c channel) := by
  have hchannel {α : Type} (f : ScriptChannel L → α) (hf : f channel = f (S.channel c)) (c' : C) :
      f ((S.setChannel c channel).channel c') = f (S.channel c') := by
    unfold PooledEngine.setChannel
    by_cases hc : c' = c
    · subst hc
      simpa using hf
    · simp [hc]
  exact { AsBefore.refl S with
    scriptEventLists := hchannel _ hpool
    scriptEvent := hchannel _ hevent
    suspendedEvents := hchannel _ hqueue }

theorem processEventByScript_eq_none {script : InstrumentScript L} {T : ScriptChannel L}
    {n : ℕ} {lists : Lists EventList} (h : Pool.Holds n T.pEvents lists) (itEvent : MidiCause)
    (type : VMEventHandlerType) (pEventHandler : VMEventHandler L) :
    T.processEventByScript script itEvent type pEventHandler = none ↔
      pEventHandler.isPolyphonic = true ∧
        ¬ (type = .release ∧ script.passesPolyphonicData = true ∧
          ¬ T.pEvents.isEmpty (.rtlist (.key itEvent.key)) = true) ∧
        T.pEvents.poolIsEmpty = true := by
  unfold ScriptChannel.processEventByScript
  by_cases hrecycles : type = .release ∧ script.passesPolyphonicData = true ∧
      ¬ T.pEvents.isEmpty (.rtlist (.key itEvent.key)) = true
  · simp [hrecycles]
  · rw [if_neg hrecycles, ← h.index_allocAppend .events]
    dsimp only
    by_cases hpolyphonic : pEventHandler.isPolyphonic = true
    · rw [if_pos hpolyphonic]
      simp only [hpolyphonic, hrecycles, not_false_eq_true, true_and]
      cases hindex : (T.pEvents.allocAppend .events).2.index <;> simp
    · simp [hpolyphonic]

/-- Without a free script event no script is run. -/
theorem processEventByScript_of_poolIsEmpty {script : InstrumentScript L} {T T' : ScriptChannel L}
    {itEvent : MidiCause} {type : VMEventHandlerType} {pEventHandler : VMEventHandler L}
    (hempty : T.pEvents.poolIsEmpty = true)
    (hrun : T.processEventByScript script itEvent type pEventHandler = some T') :
    T'.pEvents = T.pEvents ∧ T'.event = T.event ∧ T'.suspendedEvents = T.suspendedEvents := by
  have halloc : T.pEvents.allocAppend .events =
      (T.pEvents, T.pEvents.begin (.rtlist .events)) := by
    rw [Pool.allocAppend, if_pos hempty]
  unfold ScriptChannel.processEventByScript at hrun
  split_ifs at hrun
  · cases hrun
    exact ⟨rfl, rfl, rfl⟩
  · rw [halloc] at hrun
    cases hrun
  · rw [halloc] at hrun
    cases hrun
    exact ⟨rfl, rfl, rfl⟩

theorem harmless_processEventByScript (h : Inv script z size S) (itEvent : MidiCause)
    (type : VMEventHandlerType) :
    S.Harmless script parentNoteID (.processEventByScript c itEvent type) ↔
      S.Affords script (.processEventByScript c itEvent type : PoolRequest C δ) := by
  rcases h.channel c with ⟨lists, pending, hc⟩
  rcases hc.data with ⟨out, hdata, -, -⟩
  unfold Harmless Affords
  dsimp only [serve]
  cases hhandler : (script c).handler type with
  | none =>
      constructor
      · intro _ pEventHandler hp
        cases hp
      · intro _
        exact ⟨S, rfl, fun _ => .refl S⟩
  | some pEventHandler =>
      have hnone : (S.channel c).processEventByScript (script c) itEvent type pEventHandler = none ↔
          _ := processEventByScript_eq_none hdata.pool itEvent type pEventHandler
      dsimp only
      constructor
      · rintro ⟨S', hrun, -⟩ pEventHandler' hp hpolyphonic hrecycles hempty
        cases hp
        rw [hnone.mpr ⟨hpolyphonic, hrecycles, hempty⟩] at hrun
        cases hrun
      · intro hafford
        cases hrun : (S.channel c).processEventByScript (script c) itEvent type pEventHandler with
        | none =>
            rcases hnone.mp hrun with ⟨hpolyphonic, hrecycles, hempty⟩
            exact absurd hempty (hafford _ rfl hpolyphonic hrecycles)
        | some channel =>
            refine ⟨S.setChannel c channel, rfl, ?_⟩
            intro hempty
            rcases processEventByScript_of_poolIsEmpty hempty hrun with ⟨hpool, hevent, hqueue⟩
            exact .setChannel hpool hevent hqueue

theorem harmless_handleKeyGroupConflicts (h : Inv script z size S) (KeyGroup n : ℕ) :
    S.Harmless script parentNoteID (.handleKeyGroupConflicts c KeyGroup n) ↔
      S.Affords script (.handleKeyGroupConflicts c KeyGroup n : PoolRequest C δ) := by
  rcases h.engine with ⟨lists, hengine⟩
  have hindex := hengine.events.holds.index_allocAppend (.keyGroup c KeyGroup)
  unfold Harmless Affords
  dsimp only [serve, Lacks]
  unfold PooledEngine.handleKeyGroupConflicts
  by_cases hgroup : KeyGroup ≠ 0 ∧ KeyGroup ∈ S.activeKeyGroups c
  · rw [if_pos hgroup, ← hindex]
    dsimp only
    cases hm : (S.engine.pEventPool.allocAppend (.keyGroup c KeyGroup)).2.index with
    | none =>
        constructor
        · rintro ⟨S', hrun, -⟩
          cases hrun
        · intro hafford
          exact absurd rfl (hafford hgroup.1 hgroup.2)
    | some m =>
        constructor
        · intro _ _ _ hempty
          cases hempty
        · intro _
          refine ⟨_, rfl, ?_⟩
          intro hempty
          cases hempty
  · rw [if_neg hgroup]
    constructor
    · intro _ h0 hmem
      exact absurd ⟨h0, hmem⟩ hgroup
    · intro _
      exact ⟨S, rfl, fun _ => .refl S⟩

omit [DecidableEq C] in
/-- The elements in use of the pools of the engine are as before. -/
theorem AsBefore.withEngine {engine : EventEngine C δ} {lists : Lists (EngineEventList C)}
    {notes : Lists (NoteList C)} (h : EventEngine.Inv z S.engine lists)
    (hnotes : Pool.Holds z.notes S.engine.pNotePool notes)
    (hevents : Pool.Holds z.events engine.pEventPool lists)
    (hevent : engine.event = S.engine.event)
    (hnotes' : Pool.Holds z.notes engine.pNotePool notes)
    (hnote : ∀ k, k ∉ notes .freelist → engine.note k = S.engine.note k)
    (hdelayed : engine.delayedEvents = S.engine.delayedEvents) :
    S.AsBefore { S with engine := engine } :=
  { AsBefore.refl S with
    eventLists := fun l => by rw [hevents.elements_eq, h.events.holds.elements_eq]
    event := fun n _ => congrFun hevent n
    noteLists := fun l => by rw [hnotes'.elements_eq, hnotes.elements_eq]
    note := fun k hk => hnote k (by rwa [hnotes.elements_eq] at hk)
    delayedEvents := hdelayed }

theorem harmless_scheduleEventMicroSec (h : Inv script z size S) (pEvent : Event δ) (delay : ℤ) :
    S.Harmless script parentNoteID (.scheduleEventMicroSec c pEvent delay) := by
  rcases h.engine with ⟨lists, hengine⟩
  rcases hengine.notes with ⟨notes, hnotes⟩
  rcases hengine.delayed c with ⟨nodes, pending, hD⟩
  rcases hengine.scheduleEventMicroSec c pEvent delay with ⟨engine, id, lists', hrun, -, -⟩
  refine ⟨{ S with engine := engine }, ?_, ?_⟩
  · dsimp only [serve]
    rw [hrun]
    rfl
  · intro hlacks
    have hnode := hD.pool.holds.index_allocAppend ()
    unfold EventEngine.scheduleEventMicroSec at hrun
    dsimp only at hrun
    rcases hengine.events.allocAppend (.events c) with ⟨hindex, hpool, -⟩ | ⟨i, hindex, hfree, -⟩
    · rw [hindex, hpool] at hrun
      cases hrun
      exact .withEngine hengine hnotes.holds hengine.events.holds rfl hnotes.holds
        (fun _ _ => rfl) rfl
    · have hsome := (hengine.events.holds.index_allocAppend (.events c)).not.mp
        (hindex ▸ Option.some_ne_none i)
      rw [hindex] at hrun
      dsimp only at hrun
      rw [hnode.mpr (hlacks.resolve_left hsome)] at hrun
      cases hrun
      exact .withEngine hengine hnotes.holds (hengine.events.allocAppend_free hindex).holds rfl
        hnotes.holds (fun _ _ => rfl) rfl

omit [DecidableEq C] in
theorem noteIDsLeft_zero (S : PooledEngine C δ L) (param : δ) :
    S.noteIDsLeft parentNoteID 0 param = S.noteIDPool :=
  if_neg fun h => h.1 rfl

/-- A child note for which no note ID is left goes back to the pool. -/
theorem launchNewNote_of_noteIDs_empty {E : EventEngine C δ} {n k : ℕ}
    (hempty : ¬ E.pNotePool.poolIsEmpty = true)
    (hindex : (E.pNotePool.allocAppend .pool).2.index = some k)
    (hparent : parentNoteID (E.event n).param ≠ 0) :
    E.launchNewNote parentNoteID c n false =
      ({ E.setNote k { E.note k with hostKey := (E.event n).key } with
        pNotePool := ((E.pNotePool.allocAppend .pool).1.free (E.pNotePool.allocAppend .pool).2).1 },
        0) := by
  unfold EventEngine.launchNewNote
  rw [if_neg hempty]
  dsimp only [EventEngine.setNote]
  rw [hindex]
  dsimp only
  rw [if_neg hparent]
  cases ((E.pNotePool.allocAppend .pool).1.fromID (parentNoteID (E.event n).param)).index <;> rfl

theorem harmless_launchNewNote (h : Inv script z size S) (n : ℕ) :
    S.Harmless script parentNoteID (.launchNewNote c n) := by
  rcases h.engine with ⟨lists, hengine⟩
  rcases hengine.notes with ⟨notes, hnotes⟩
  refine ⟨_, rfl, ?_⟩
  intro hlacks
  unfold PooledEngine.launchNewNote
  dsimp only
  by_cases hempty : S.engine.pNotePool.poolIsEmpty = true
  · unfold EventEngine.launchNewNote
    rw [if_pos hempty]
    dsimp only
    rw [noteIDsLeft_zero]
    exact .refl S
  · rcases hlacks.resolve_left hempty with ⟨hids, hparent⟩
    rcases hnotes.allocAppend .pool with ⟨hindex, -⟩ | ⟨k, hindex, hfree, -⟩
    · exact absurd ((hnotes.holds.index_allocAppend .pool).mp hindex) hempty
    · rw [show decide (S.noteIDPool ≠ 0) = false by simp [hids],
        launchNewNote_of_noteIDs_empty hempty hindex hparent]
      dsimp only
      rw [noteIDsLeft_zero]
      refine .withEngine hengine hnotes.holds hengine.events.holds rfl
        (hnotes.allocAppend_free hindex).holds ?_ rfl
      intro j hj
      have hjk : j ≠ k := by
        intro hjk
        subst hjk
        exact hj hfree
      exact Function.update_of_ne hjk ..

theorem harmless_fork (count : ℤ) (autoAbort : Bool) (polyphonic : PolyphonicMemory) (now : ℕ)
    (h : Inv script z size S) :
    S.Harmless script parentNoteID (.fork c count autoAbort polyphonic now) := by
  rcases h.channel c with ⟨lists, pending, hc⟩
  unfold Harmless
  dsimp only [serve, Lacks]
  unfold ScriptChannel.Inv at hc
  cases hcontrol : (S.channel c).control with
  | idle => exact ⟨S, rfl, fun _ => .refl S⟩
  | recycling itEvent it => exact ⟨S, rfl, fun _ => .refl S⟩
  | executing x st =>
      rw [hcontrol] at hc
      rcases hc with ⟨hin, -, hst, -⟩
      rcases hin.call hst (.fork count autoAbort polyphonic now) False.elim with ⟨channel, hrun, -⟩
      refine ⟨S.setChannel c channel, congrArg (Option.map _) hrun, ?_⟩
      intro hlacks
      rcases hlacks (x, st) rfl with ⟨hfork, hfree⟩
      unfold ScriptChannel.call ScriptChannel.fork at hrun
      simp only [hfork, hfree, ne_eq, not_true, not_false_eq_true, if_false, if_true,
        Bool.false_eq_true, ite_self] at hrun
      cases hrun
      exact .setChannel rfl rfl rfl

theorem Inv.harmless_iff (h : Inv script z size S) (r : PoolRequest C δ) :
    S.Harmless script parentNoteID r ↔ S.Affords script r := by
  cases r with
  | processEventByScript c itEvent type => exact harmless_processEventByScript h itEvent type
  | handleKeyGroupConflicts c KeyGroup n => exact harmless_handleKeyGroupConflicts h KeyGroup n
  | scheduleEventMicroSec c pEvent delay =>
      exact iff_of_true (harmless_scheduleEventMicroSec h pEvent delay) trivial
  | launchNewNote c n => exact iff_of_true (harmless_launchNewNote h n) trivial
  | fork c count autoAbort polyphonic now =>
      exact iff_of_true (harmless_fork count autoAbort polyphonic now h) trivial

/-! ## Runs -/

/-- An engine that was just created, with the scripts of its channels loaded. -/
structure Created (script : C → InstrumentScript L) (z : EngineSizes) (size : C → ℕ)
    (S : PooledEngine C δ L) : Prop where
  engine : S.engine.Created z
  channel : ∀ c, ∃ sizes, (S.channel c).Loaded (script c) sizes (size c)

theorem Created.inv (h : S.Created script z size) : Inv script z size S where
  engine := ⟨_, h.engine.inv⟩
  channel c := by
    rcases h.channel c with ⟨sizes, hloaded⟩
    rcases hloaded.inv with ⟨lists, hc⟩
    exact ⟨lists, [], hc⟩

def RunOk (script : C → InstrumentScript L) (parentNoteID : δ → ℕ) :
    List (PooledAction C δ) → PooledEngine C δ L → Prop
  | [], _ => True
  | a :: actions, S =>
      S.Spares a ∧ ∀ S' ∈ S.step script parentNoteID a, RunOk script parentNoteID actions S'

theorem Inv.run {actions : List (PooledAction C δ)} (h : Inv script z size S)
    (hok : RunOk script parentNoteID actions S)
    (hrun : run script parentNoteID actions S = some S') : Inv script z size S' := by
  induction actions generalizing S with
  | nil =>
      cases hrun
      exact h
  | cons a actions ih =>
      rcases hok with ⟨hspares, hrest⟩
      rw [PooledEngine.run, List.foldlM_cons] at hrun
      rcases Option.bind_eq_some_iff.mp hrun with ⟨S₁, hstep, hrun⟩
      exact ih (h.step hspares hstep) (hrest S₁ hstep) hrun

/-- In every state that is reached, a request follows no null pointer and changes nothing where an
element is missing, just if the operations that do not look for one find it. -/
theorem harmless_run {S₀ : PooledEngine C δ L} {actions : List (PooledAction C δ)}
    (h₀ : S₀.Created script z size) (hok : RunOk script parentNoteID actions S₀)
    (hrun : run script parentNoteID actions S₀ = some S) (r : PoolRequest C δ) :
    S.Harmless script parentNoteID r ↔ S.Affords script r :=
  (h₀.inv.run hok hrun).harmless_iff r

/-! ## Engines to run -/

instance decidableSpares [Fintype C] (S : PooledEngine C δ L) :
    (a : PooledAction C δ) → Decidable (S.Spares a)
  | .engine a => inferInstanceAs (Decidable (a.Valid S.engine ∧ a.Spares S.engine))
  | .script c a => inferInstanceAs (Decidable ((S.channel c).SparesQueued a))
  | .scheduleNote .. | .launchNewNote .. | .freeNoteIDs _ | .handleKeyGroupConflicts ..
  | .addGroup .. | .deleteGroupEventLists _ => isTrue trivial

instance decidableRunOk [Fintype C] : (actions : List (PooledAction C δ)) →
    (S : PooledEngine C δ L) → Decidable (RunOk script parentNoteID actions S)
  | [], _ => isTrue trivial
  | a :: actions, S =>
      have (S' : PooledEngine C δ L) : Decidable (RunOk script parentNoteID actions S') :=
        decidableRunOk actions S'
      inferInstanceAs (Decidable (S.Spares a ∧
        ∀ S' ∈ S.step script parentNoteID a, RunOk script parentNoteID actions S'))

/-- One channel, whose script has polyphonic variables. -/
def freshPools : PooledEngine Unit ℕ counterLang where
  engine := EventEngine.freshEngine
  noteIDPool := 0
  channel _ := ScriptChannel.ofScript ScriptChannel.waitingReleases
  activeKeyGroups _ := [1]

theorem freshPools_created :
    freshPools.Created (fun _ => ScriptChannel.waitingReleases) ⟨3, 2, 3, by decide⟩
      (fun _ => 2) where
  engine := EventEngine.freshEngine_created
  channel _ := ⟨_, ScriptChannel.loaded_ofScript _⟩

/-- The three events of the engine are used up. -/
def useEvents : List (PooledAction Unit ℕ) :=
  [.scheduleNote () EventEngine.middleC 0, .engine (.alloc (.key () 60) EventEngine.middleC),
    .handleKeyGroupConflicts () 1 1]

theorem harmless_run_useEvents : ∃ S,
    run (fun _ => ScriptChannel.waitingReleases) id useEvents freshPools = some S ∧
      ∀ r, S.Harmless (fun _ => ScriptChannel.waitingReleases) id r ↔
        S.Affords (fun _ => ScriptChannel.waitingReleases) r := by
  have hrun : (run (fun _ => ScriptChannel.waitingReleases) id useEvents freshPools).isSome =
      true := by decide +kernel
  have hok : RunOk (fun _ => ScriptChannel.waitingReleases) id useEvents freshPools := by
    decide +kernel
  rcases Option.isSome_iff_exists.mp hrun with ⟨S, hS⟩
  exact ⟨S, hS, harmless_run freshPools_created hok hS⟩

/-- A note in a key group when no event is left. -/
theorem not_harmless_run : ¬ ∀ (actions : List (PooledAction Unit ℕ))
    (S : PooledEngine Unit ℕ counterLang),
    run (fun _ => ScriptChannel.waitingReleases) id actions freshPools = some S →
      ∀ r, S.Harmless (fun _ => ScriptChannel.waitingReleases) id r := by
  intro h
  have hrun : (run (fun _ => ScriptChannel.waitingReleases) id useEvents freshPools).isSome =
      true := by decide +kernel
  rcases Option.isSome_iff_exists.mp hrun with ⟨S, hS⟩
  have hnone : ∀ S ∈ run (fun _ => ScriptChannel.waitingReleases) id useEvents freshPools,
      (S.serve (fun _ => ScriptChannel.waitingReleases) id
        (.handleKeyGroupConflicts () 1 1)).isNone = true := by
    decide +kernel
  rcases h useEvents S hS (.handleKeyGroupConflicts () 1 1) with ⟨S', hserve, -⟩
  have hnull := hnone S hS
  rw [hserve] at hnull
  cases hnull

end PooledEngine

end LinuxSampler
