import LinuxSampler.DelayedRun
import LinuxSampler.ScriptChannel

/-!
# Pre-processing the events of a fragment by a script

`ProcessEvents()` passes the events of a fragment to the handlers of the
script, and these may drop events by their IDs. The loop fetches the next
event before it calls a handler, so the handler may drop the event it was
called for and those before it.

It may not drop the next one: that one is in the free list then, or already
on the list of delayed events, and the loop goes on there and never comes
back (`preprocess_of_astray`). Other events it may drop (`visitsOnce_iff`).
-/

namespace LinuxSampler

namespace EventEngine

variable {C δ : Type} [DecidableEq C] {parentNoteID : δ → ℕ} {z : EngineSizes}
  {S S' : EventEngine C δ} {lists lists' : Lists (EngineEventList C)} {c c' : C} {i : ℕ}
  {pEvent : Event δ} {delay : ℤ} {id : ℕ}

/-- The elements of `pEvents`. -/
def fragmentEvents (S : EventEngine C δ) (c : C) : List ℕ :=
  S.pEventPool.elements (.rtlist (.events c))

/-! ## The lists of events -/

omit [DecidableEq C] in
theorem Inv.fragmentEvents_eq (h : Inv z S lists) (c : C) :
    S.fragmentEvents c = lists (.rtlist (.events c)) := by
  rw [fragmentEvents, h.events.holds.elements_eq]

theorem elements_of_moveTo {P : Pool (EngineEventList C)} {L : Lists (EngineEventList C)}
    {l : ListId (EngineEventList C)} (hP : Pool.InUse z.events 1 P (L.moveTo l i))
    (hl : l ≠ .rtlist (.events c)) :
    P.elements (.rtlist (.events c)) = (L (.rtlist (.events c))).erase i := by
  rw [hP.holds.elements_eq, Lists.moveTo, Lists.putLast, Function.update_of_ne hl.symm]
  rfl

theorem pool_scheduleEventMicroSec
    (hrun : S.scheduleEventMicroSec c pEvent delay = some (S', id)) :
    (S.pEventPool.allocAppend (.events c)).2.index = none ∧
        S'.pEventPool = (S.pEventPool.allocAppend (.events c)).1 ∨
      ∃ i, (S.pEventPool.allocAppend (.events c)).2.index = some i ∧
        (S'.pEventPool = ((S.pEventPool.allocAppend (.events c)).1.free
            (S.pEventPool.allocAppend (.events c)).2).1 ∨
          S'.pEventPool = ((S.pEventPool.allocAppend (.events c)).1.moveToEndOf
            (S.pEventPool.allocAppend (.events c)).2 (.delayed c)).1) := by
  unfold EventEngine.scheduleEventMicroSec at hrun
  dsimp only at hrun
  cases hindex : (S.pEventPool.allocAppend (.events c)).2.index with
  | none =>
      rw [hindex] at hrun
      cases hrun
      exact .inl ⟨rfl, rfl⟩
  | some i =>
      rw [hindex] at hrun
      refine .inr ⟨i, rfl, ?_⟩
      dsimp only at hrun
      split at hrun
      · cases hrun
        exact .inl rfl
      · obtain ⟨S₁, hahead, hrun⟩ := Option.bind_eq_some_iff.mp hrun
        cases hrun
        obtain ⟨queue, -, hrun⟩ := Option.bind_eq_some_iff.mp hahead
        cases hrun
        exact .inr rfl

/-- An event that is scheduled does not stay among those of the fragment. -/
theorem Inv.fragmentEvents_schedule (h : Inv z S lists)
    (hrun : S.scheduleEventMicroSec c pEvent delay = some (S', id)) (c' : C) :
    S'.fragmentEvents c' = S.fragmentEvents c' := by
  rw [h.fragmentEvents_eq]
  rcases h.events.allocAppend (.events c) with ⟨hindex, hpool, -⟩ | ⟨i, hindex, hfree, hP⟩
  · rcases pool_scheduleEventMicroSec hrun with ⟨-, hrun⟩ | ⟨i, hindex', -⟩
    · rw [fragmentEvents, hrun, hpool, h.events.holds.elements_eq]
    · rw [hindex] at hindex'
      cases hindex'
  · rcases pool_scheduleEventMicroSec hrun with ⟨hindex', -⟩ | ⟨-, -, hrun | hrun⟩
    · rw [hindex] at hindex'
      cases hindex'
    · rw [fragmentEvents, hrun, (h.events.allocAppend_free hindex).holds.elements_eq]
    · have hmem : i ∈ lists.moveTo (.rtlist (.events c)) i (.rtlist (.events c)) :=
        (Lists.mem_moveTo (h.events.nodup _)).mpr (.inr ⟨rfl, rfl⟩)
      have hback := hP.moveToEndOf hindex hmem (.delayed c)
      rw [fragmentEvents, hrun, elements_of_moveTo hback (by simp)]
      have hnot : i ∉ lists (.rtlist (.events c')) := h.events.disjoint hfree (by simp)
      by_cases hc : c' = c
      · subst hc
        rw [Lists.moveTo, Lists.putLast, Function.update_self, Lists.remove,
          List.erase_of_not_mem hnot, List.erase_append_right _ hnot, List.erase_cons_head,
          List.append_nil]
      · rw [Lists.moveTo, Lists.putLast, Function.update_of_ne (by simpa using hc), Lists.remove,
          List.erase_of_not_mem hnot, List.erase_of_not_mem hnot]

theorem pool_launchNewNote (S : EventEngine C δ) (n : ℕ) (childNoteID : Bool) :
    (S.launchNewNote parentNoteID c n childNoteID).1.pEventPool = S.pEventPool := by
  unfold launchNewNote
  split
  · rfl
  · dsimp only
    split
    · rfl
    · split <;> rfl

theorem ignoreEvent_of_none (hid : (S.pEventPool.fromID id).index = none) :
    S.ignoreEvent id = S := by
  unfold ignoreEvent
  dsimp only
  split
  · next hdata =>
      obtain ⟨i, hi⟩ := Iterator.hasData_iff.mp hdata
      rw [hid] at hi
      cases hi
  · rfl

theorem ignoreNote_of_none (hid : S.noteEvent id = none) : S.ignoreNote id = S := by
  unfold noteEvent at hid
  unfold ignoreNote
  dsimp only
  split
  · rfl
  · next k hk =>
      rw [hk, Option.bind_eq_bind, Option.bind_some] at hid
      split
      · rfl
      · next hvoices =>
          rw [if_neg hvoices] at hid
          split
          · next hdata =>
              obtain ⟨i, hi⟩ := Iterator.hasData_iff.mp hdata
              rw [hid] at hi
              cases hi
          · rfl

theorem ignoreEventByScriptID_of_none
    (hid : EngineAction.dropped S (.ignoreEventByScriptID id) = none) :
    S.ignoreEventByScriptID id = S := by
  rw [EngineAction.dropped] at hid
  unfold ignoreEventByScriptID
  split
  · next hbit => exact ignoreNote_of_none (by rwa [if_pos hbit] at hid)
  · next hbit => exact ignoreEvent_of_none (by rwa [if_neg hbit] at hid)

omit [DecidableEq C] in
theorem Inv.noteEvent_lt (h : Inv z S lists) (hi : i ∈ S.noteEvent id) : i < z.events := by
  obtain ⟨k, -, hi⟩ := Option.bind_eq_some_iff.mp hi
  split at hi
  · cases hi
  · exact h.events.fromID_lt hi

omit [DecidableEq C] in
theorem Inv.dropped_lt (h : Inv z S lists) {a : EngineAction C δ} (hi : i ∈ a.dropped S) :
    i < z.events := by
  cases a with
  | ignoreEvent id => exact h.events.fromID_lt hi
  | ignoreNote id => exact h.noteEvent_lt hi
  | ignoreEventByScriptID id =>
      rw [EngineAction.dropped] at hi
      split at hi
      · exact h.noteEvent_lt hi
      · exact h.events.fromID_lt hi
  | _ => cases hi

end EventEngine

/-! ## Handlers -/

/-- What a handler does with the events of the engine. -/
inductive HandlerCall (δ : Type) where
  /-- `ignore_event()`, `ignore_controller()` -/
  | ignore (id : ℕ)
  | scheduleEvent (pEvent : Event δ) (delay : ℤ)
  | scheduleNote (pEvent : Event δ) (delay : ℤ) (childNoteID : Bool)

def HandlerCall.action {C δ : Type} (c : C) : HandlerCall δ → EngineAction C δ
  | .ignore id => .ignoreEventByScriptID id
  | .scheduleEvent pEvent delay => .scheduleEvent c pEvent delay
  | .scheduleNote pEvent delay childNoteID => .scheduleNote c pEvent delay childNoteID

/-- A channel with a script. `calls k` is what the handler does that the `k`-th event is
passed to. -/
structure ScriptedChannel (C δ : Type) where
  channel : C
  hasHandler : VMEventHandlerType → Bool
  calls : ℕ → List (HandlerCall δ)

/-- The loop over the events, with those that were passed to handlers so far. -/
structure EventPass (C δ : Type) where
  engine : EventEngine C δ
  itEvent : Iterator (EngineEventList C)
  passed : List (ℕ × VMEventHandlerType) := []

namespace ScriptedChannel

variable {C δ : Type} [DecidableEq C] (parentNoteID : δ → ℕ) (X : ScriptedChannel C δ)

/-- The `switch` over the type of an event. -/
def handlerFor (type : EventType) : Option VMEventHandlerType :=
  match type with
  | .note_on => if X.hasHandler .note then some .note else none
  | .note_off => if X.hasHandler .release then some .release else none
  | .control_change | .channel_pressure | .pitchbend =>
      if X.hasHandler .controller then some .controller else none
  | .note_pressure | .sysex | .rpn | .nrpn | .cancel_release_key | .release_key | .release_note
  | .play_note | .stop_note | .kill_note | .note_synth_param => none

/-- What happens in `ProcessEventByScript()`. -/
def actions (k : ℕ) : List (EngineAction C δ) :=
  (X.calls k).map (HandlerCall.action X.channel)

/-- One round of the loop. A boundary node has no data. -/
def round (st : EventPass C δ) : Option (EventPass C δ) := do
  let i ← st.itEvent.index
  let itNext := st.engine.pEventPool.increment st.itEvent
  match X.handlerFor (st.engine.event i).type with
  | none => some { st with itEvent := itNext }
  | some handler =>
      let engine ← EventEngine.run parentNoteID (X.actions st.passed.length) st.engine
      some { engine, itEvent := itNext, passed := st.passed ++ [(i, handler)] }

/-- `pEvents->first()` -/
def start (S : EventEngine C δ) : EventPass C δ where
  engine := S
  itEvent := S.pEventPool.first (.rtlist (.events X.channel))

/-- The loop of `ProcessEvents()`, up to `pEvents->end()`. -/
def preprocess : ℕ → EventPass C δ → Option (EventPass C δ)
  | 0, _ => none
  | fuel + 1, st =>
      if st.itEvent.current = .endOf (.rtlist (.events X.channel)) then some st
      else X.round parentNoteID st >>= preprocess fuel

/-! ## What the loop is for -/

/-- Each of the events is passed to its handler if it is still in the list then. -/
def visit : List ℕ → EventEngine C δ → List (ℕ × VMEventHandlerType) →
    Option (EventEngine C δ × List (ℕ × VMEventHandlerType))
  | [], S, passed => some (S, passed)
  | i :: rest, S, passed =>
      if i ∈ S.fragmentEvents X.channel then
        match X.handlerFor (S.event i).type with
        | none => visit rest S passed
        | some handler => do
            let S ← EventEngine.run parentNoteID (X.actions passed.length) S
            visit rest S (passed ++ [(i, handler)])
      else visit rest S passed

/-- The loop ends at the end of the list, and has passed these events. -/
def VisitsOnce (S : EventEngine C δ) : Prop :=
  ∃ fuel st, X.preprocess parentNoteID fuel (X.start S) = some st ∧
    X.visit parentNoteID (S.fragmentEvents X.channel) S [] = some (st.engine, st.passed)

/-! ## Conditions -/

def Reaches (st st' : EventPass C δ) : Prop :=
  Relation.ReflTransGen (fun st st' => X.round parentNoteID st = some st') st st'

/-- The loop is about to call the handler of an event. -/
def Handles (st : EventPass C δ) (i : ℕ) : Prop :=
  st.itEvent.index = some i ∧ (X.handlerFor (st.engine.event i).type).isSome

/-- No handler drops an event that waits for its time. -/
def SparesDelayed (st : EventPass C δ) : Prop :=
  ∀ st' i, X.Reaches parentNoteID st st' → X.Handles st' i →
    EventEngine.RunOk parentNoteID EngineAction.Spares (X.actions st'.passed.length) st'.engine

/-- No handler drops the event behind the one that it was called for. -/
def SparesNext (st : EventPass C δ) : Prop :=
  ∀ st' i next, X.Reaches parentNoteID st st' → X.Handles st' i →
    (st'.engine.pEventPool.increment st'.itEvent).index = some next →
      EventEngine.RunOk parentNoteID (fun S a => next ∉ a.dropped S)
        (X.actions st'.passed.length) st'.engine

end ScriptedChannel

/-! ## What a handler keeps -/

theorem EventEngine.Inv.fragmentEvents_step {C δ : Type} [DecidableEq C] {parentNoteID : δ → ℕ}
    {z : EngineSizes} {S S' : EventEngine C δ} {lists : Lists (EngineEventList C)} {c : C}
    (h : EventEngine.Inv z S lists) {call : HandlerCall δ}
    (hstep : (call.action c).step parentNoteID S = some S') (c' : C) :
    S'.fragmentEvents c' = ((call.action c).dropped S).elim (S.fragmentEvents c')
      (S.fragmentEvents c').erase := by
  cases hdropped : (call.action c).dropped S with
  | some i =>
      obtain ⟨-, it, hit, hpool⟩ := EventEngine.drops_step hdropped hstep
      have hfree := h.events.free hit (h.dropped_lt hdropped)
      rw [EventEngine.fragmentEvents, hpool, EventEngine.elements_of_moveTo hfree (by simp),
        h.fragmentEvents_eq]
      rfl
  | none =>
      cases call with
      | ignore id =>
          cases hstep
          rw [EventEngine.ignoreEventByScriptID_of_none hdropped]
          rfl
      | scheduleEvent pEvent delay =>
          obtain ⟨⟨S₁, id⟩, hrun, rfl⟩ := Option.map_eq_some_iff.mp hstep
          exact h.fragmentEvents_schedule hrun c'
      | scheduleNote pEvent delay childNoteID =>
          obtain ⟨⟨S₁, id⟩, hrun, rfl⟩ := Option.map_eq_some_iff.mp hstep
          obtain ⟨⟨S₂, noteOnEventID⟩, hschedule, hrun⟩ := Option.bind_eq_some_iff.mp hrun
          have hsame := h.fragmentEvents_schedule hschedule c'
          dsimp only at hrun
          split at hrun
          · cases hrun
            exact hsame
          · obtain ⟨n, -, hrun⟩ := Option.bind_eq_some_iff.mp hrun
            obtain rfl : (S₂.launchNewNote parentNoteID c n childNoteID).1 = S₁ :=
              congrArg Prod.fst (Option.some.inj hrun)
            rw [EventEngine.fragmentEvents, EventEngine.pool_launchNewNote]
            exact hsame

section Calls

variable {C δ : Type} {parentNoteID : δ → ℕ} {z : EngineSizes} {S S' : EventEngine C δ}
  {lists : Lists (EngineEventList C)} {c : C}

theorem HandlerCall.valid (call : HandlerCall δ) (S : EventEngine C δ) :
    (call.action c).Valid S := by
  cases call <;> trivial

theorem EventEngine.Inv.nodup_fragmentEvents (h : EventEngine.Inv z S lists) (c : C) :
    (S.fragmentEvents c).Nodup :=
  h.fragmentEvents_eq c ▸ h.events.nodup _

/-- `++itNext` -/
theorem EventEngine.Inv.stands_next (h : EventEngine.Inv z S lists) {l : ListId (EngineEventList C)}
    {it : Iterator (EngineEventList C)} {A B : List ℕ} {i : ℕ} (hl : lists l = A ++ i :: B)
    (hit : it.index = some i) :
    EventEngine.StandsAt l (S.pEventPool.increment it) B := by
  have hnext := h.events.next_node hl
  rwa [← Iterator.index_eq_some.mp hit] at hnext

theorem EventEngine.StandsAt.index {l : ListId (EngineEventList C)}
    {it : Iterator (EngineEventList C)} {B : List ℕ}
    (hit : EventEngine.StandsAt l it B) : it.index = B.head? := by
  have hcur : it.current ∈ (B.map NodeRef.node ++ [NodeRef.endOf l]).head? := hit
  unfold Iterator.index
  cases B with
  | nil => rw [← Option.some.inj hcur]; rfl
  | cons j B => rw [← Option.some.inj hcur]; rfl

variable [DecidableEq C]

/-- A handler only takes events away from the list, and an event stays if no call drops it. -/
theorem EventEngine.Inv.calls (h : EventEngine.Inv z S lists) {calls : List (HandlerCall δ)}
    (hok : EventEngine.RunOk parentNoteID EngineAction.Spares
      (calls.map (HandlerCall.action c)) S) :
    ∃ S' lists', EventEngine.run parentNoteID (calls.map (HandlerCall.action c)) S = some S' ∧
      EventEngine.Inv z S' lists' ∧ (S'.fragmentEvents c).Sublist (S.fragmentEvents c) ∧
      ∀ j ∈ S.fragmentEvents c, j ∈ S'.fragmentEvents c ↔
        EventEngine.RunOk parentNoteID (fun S a => j ∉ a.dropped S)
          (calls.map (HandlerCall.action c)) S := by
  induction calls generalizing S lists with
  | nil => exact ⟨S, lists, rfl, h, List.Sublist.refl _, fun j hj => iff_of_true hj trivial⟩
  | cons call calls ih =>
      obtain ⟨-, hspares, hrest⟩ := hok
      obtain ⟨S₁, lists₁, hstep, h₁⟩ := h.step (call.valid S) hspares
      obtain ⟨S', lists', hrun, h', hsub, hstays⟩ := ih h₁ (hrest S₁ hstep)
      have hone : (S₁.fragmentEvents c).Sublist (S.fragmentEvents c) ∧
          ∀ j, j ∈ S₁.fragmentEvents c ↔
            j ∈ S.fragmentEvents c ∧ j ∉ (call.action c).dropped S := by
        rw [h.fragmentEvents_step hstep]
        cases hdropped : (call.action c).dropped S with
        | none => exact ⟨List.Sublist.refl _, fun j => by simp⟩
        | some i =>
            refine ⟨List.erase_sublist, fun j => ?_⟩
            rw [Option.elim_some, (h.nodup_fragmentEvents c).mem_erase_iff, and_comm]
            simp [eq_comm]
      refine ⟨S', lists', Option.bind_eq_some_iff.mpr ⟨S₁, hstep, hrun⟩, h', hsub.trans hone.1,
        fun j hj => ?_⟩
      constructor
      · intro hj'
        have hj₁ := hsub.subset hj'
        refine ⟨call.valid S, ((hone.2 j).mp hj₁).2, fun S₂ hS₂ => ?_⟩
        cases hstep.symm.trans hS₂
        exact (hstays j hj₁).mp hj'
      · rintro ⟨-, hkept, hkeeps⟩
        exact (hstays j ((hone.2 j).mpr ⟨hj, hkept⟩)).mpr (hkeeps S₁ hstep)

end Calls

/-! ## The loop -/

namespace ScriptedChannel

section Located

variable {C δ : Type} {z : EngineSizes} {S : EventEngine C δ} {st : EventPass C δ}
  {lists : Lists (EngineEventList C)} {A B : List ℕ} {i : ℕ}

/-- The iterator is at an element of the pool or at the end of a list. -/
def Located (z : EngineSizes) (st : EventPass C δ) : Prop :=
  (∃ l, st.itEvent.current = .endOf l) ∨ ∃ i < z.events, st.itEvent.index = some i

theorem located_next (h : EventEngine.Inv z st.engine lists) (hloc : Located z st)
    (hi : st.itEvent.index = some i) :
    ∃ l A B, lists l = A ++ i :: B ∧
      EventEngine.StandsAt l (st.engine.pEventPool.increment st.itEvent) B := by
  have hlt : i < z.events := by
    rcases hloc with ⟨l, hl⟩ | ⟨j, hj, hindex⟩
    · rw [Iterator.index, hl] at hi
      cases hi
    · cases hi.symm.trans hindex
      exact hj
  obtain ⟨l, hmem⟩ := (h.events.holds.cover i).mp hlt
  obtain ⟨A, B, hl⟩ := List.append_of_mem hmem
  exact ⟨l, A, B, hl, h.stands_next hl hi⟩

theorem located_of_stands (h : EventEngine.Inv z S lists) {l : ListId (EngineEventList C)}
    (hl : lists l = A ++ B) (hit : EventEngine.StandsAt l st.itEvent B) : Located z st := by
  cases B with
  | nil => exact .inl ⟨l, (Option.some.inj hit).symm⟩
  | cons j B => exact .inr ⟨j, h.events.lt (l := l) (by simp [hl]), hit.index⟩

/-- The loop has left the list. -/
def Astray (X : ScriptedChannel C δ) (st : EventPass C δ) : Prop :=
  st.itEvent.current ≠ .endOf (.rtlist (.events X.channel)) ∧
    ∀ i ∈ st.itEvent.index, i ∉ st.engine.fragmentEvents X.channel

/-- What is behind an element of another list belongs to that list. -/
theorem astray_of_next {X : ScriptedChannel C δ} {st' : EventPass C δ}
    (h : EventEngine.Inv z st.engine lists) (hloc : Located z st)
    (hi : st.itEvent.index = some i) (hnot : i ∉ st.engine.fragmentEvents X.channel)
    (hit : st'.itEvent = st.engine.pEventPool.increment st.itEvent)
    (hsub : st'.engine.fragmentEvents X.channel ⊆ st.engine.fragmentEvents X.channel) :
    X.Astray st' := by
  obtain ⟨l, A, B, hl, hnext⟩ := located_next h hloc hi
  rw [h.fragmentEvents_eq] at hnot hsub
  have hne : l ≠ .rtlist (.events X.channel) := by
    rintro rfl
    exact hnot (by simp [hl])
  rw [← hit] at hnext
  constructor
  · intro hend
    rw [EventEngine.StandsAt, hend] at hnext
    cases B with
    | nil => exact hne (NodeRef.endOf.inj (Option.some.inj hnext))
    | cons j B => cases hnext
  · intro j hj hmem
    rw [hnext.index] at hj
    have hjl : j ∈ lists l := by simp [hl, List.mem_of_mem_head? hj]
    exact h.events.disjoint hjl hne (hsub hmem)

end Located

variable {C δ : Type} [DecidableEq C] {parentNoteID : δ → ℕ} {X : ScriptedChannel C δ}
  {z : EngineSizes} {S : EventEngine C δ} {st st' st₁ : EventPass C δ}
  {lists : Lists (EngineEventList C)} {A B rest : List ℕ} {i : ℕ}

/-- What a round does. -/
theorem round_cases (h : EventEngine.Inv z st.engine lists) (hi : st.itEvent.index = some i)
    (hspares : X.Handles st i → EventEngine.RunOk parentNoteID EngineAction.Spares
      (X.actions st.passed.length) st.engine) :
    ∃ st' lists', X.round parentNoteID st = some st' ∧ EventEngine.Inv z st'.engine lists' ∧
      st'.itEvent = st.engine.pEventPool.increment st.itEvent ∧
      (st'.engine.fragmentEvents X.channel).Sublist (st.engine.fragmentEvents X.channel) ∧
      ∀ j ∈ st.engine.fragmentEvents X.channel, j ∈ st'.engine.fragmentEvents X.channel ↔
        (X.Handles st i → EventEngine.RunOk parentNoteID (fun S a => j ∉ a.dropped S)
          (X.actions st.passed.length) st.engine) := by
  unfold round
  rw [hi, Option.bind_eq_bind, Option.bind_some]
  cases hhandler : X.handlerFor (st.engine.event i).type with
  | none =>
      refine ⟨_, lists, rfl, h, rfl, List.Sublist.refl _, fun j hj => iff_of_true hj ?_⟩
      rintro ⟨-, hsome⟩
      rw [hhandler] at hsome
      cases hsome
  | some handler =>
      have hhandles : X.Handles st i := ⟨hi, by rw [hhandler]; rfl⟩
      obtain ⟨S', lists', hrun, h', hsub, hstays⟩ := h.calls (hspares hhandles)
      refine ⟨_, lists', Option.bind_eq_some_iff.mpr ⟨S', hrun, rfl⟩, h', rfl, hsub, fun j hj => ?_⟩
      exact (hstays j hj).trans ⟨fun hkeeps _ => hkeeps, fun hkeeps => hkeeps hhandles⟩

theorem SparesDelayed.round (h : X.SparesDelayed parentNoteID st)
    (hround : X.round parentNoteID st = some st') : X.SparesDelayed parentNoteID st' :=
  fun st'' i hreach => h st'' i (.head hround hreach)

theorem SparesNext.round (h : X.SparesNext parentNoteID st)
    (hround : X.round parentNoteID st = some st') : X.SparesNext parentNoteID st' :=
  fun st'' i next hreach => h st'' i next (.head hround hreach)

theorem index_of_round (hround : X.round parentNoteID st = some st') :
    ∃ i, st.itEvent.index = some i := by
  obtain ⟨i, hi, -⟩ := Option.bind_eq_some_iff.mp hround
  exact ⟨i, hi⟩

theorem located_round (h : EventEngine.Inv z st.engine lists) (hloc : Located z st)
    (hspares : X.SparesDelayed parentNoteID st) (hround : X.round parentNoteID st = some st') :
    ∃ lists', EventEngine.Inv z st'.engine lists' ∧ Located z st' := by
  obtain ⟨i, hi⟩ := index_of_round hround
  obtain ⟨st₁, lists', hround', h', hit, -⟩ := round_cases h hi (hspares st i .refl)
  cases hround.symm.trans hround'
  obtain ⟨l, A, B, hl, hnext⟩ := located_next h hloc hi
  have hl' : lists l = (A ++ [i]) ++ B := by simp [hl]
  exact ⟨lists', h', located_of_stands h hl' (hit ▸ hnext)⟩

/-- From there on the loop does not come back to the list. -/
theorem preprocess_of_astray (h : EventEngine.Inv z st.engine lists) (hloc : Located z st)
    (hastray : X.Astray st) (hspares : X.SparesDelayed parentNoteID st) (fuel : ℕ) :
    X.preprocess parentNoteID fuel st = none := by
  induction fuel generalizing st lists with
  | zero => rfl
  | succ fuel ih =>
      rw [preprocess, if_neg hastray.1]
      cases hround : X.round parentNoteID st with
      | none => rfl
      | some st' =>
          obtain ⟨lists₁, h₁, hloc₁⟩ := located_round h hloc hspares hround
          obtain ⟨i, hi⟩ := index_of_round hround
          obtain ⟨st₂, lists₂, hround', -, hit, hsub, -⟩ := round_cases h hi (hspares st i .refl)
          cases hround.symm.trans hround'
          have hastray₁ := astray_of_next h hloc hi (hastray.2 i hi) hit hsub.subset
          exact ih h₁ hloc₁ hastray₁ (hspares.round hround)

theorem preprocess_of_reaches {fuel : ℕ} (hend : X.preprocess parentNoteID fuel st = some st₁)
    (hreach : X.Reaches parentNoteID st st') :
    ∃ fuel, X.preprocess parentNoteID fuel st' = some st₁ := by
  induction hreach using Relation.ReflTransGen.head_induction_on generalizing fuel with
  | refl => exact ⟨fuel, hend⟩
  | head hround _ ih =>
      cases fuel with
      | zero => cases hend
      | succ fuel =>
          obtain ⟨i, hi⟩ := index_of_round hround
          rw [preprocess, if_neg (by rw [Iterator.index_eq_some.mp hi]; nofun), hround] at hend
          exact ih hend

theorem located_of_reaches (h : EventEngine.Inv z st.engine lists) (hloc : Located z st)
    (hspares : X.SparesDelayed parentNoteID st) (hreach : X.Reaches parentNoteID st st') :
    ∃ lists', EventEngine.Inv z st'.engine lists' ∧ Located z st' ∧
      X.SparesDelayed parentNoteID st' := by
  induction hreach with
  | refl => exact ⟨lists, h, hloc, hspares⟩
  | tail _ hround ih =>
      obtain ⟨lists₁, h₁, hloc₁, hspares₁⟩ := ih
      obtain ⟨lists₂, h₂, hloc₂⟩ := located_round h₁ hloc₁ hspares₁ hround
      exact ⟨lists₂, h₂, hloc₂, hspares₁.round hround⟩

/-- A loop that comes to the end of its list has not lost the next event on its way. -/
theorem sparesNext_of_preprocess (h : EventEngine.Inv z st.engine lists) (hloc : Located z st)
    (hspares : X.SparesDelayed parentNoteID st) {fuel : ℕ}
    (hend : X.preprocess parentNoteID fuel st = some st₁) : X.SparesNext parentNoteID st := by
  intro st' i next hreach hhandles hnext
  obtain ⟨lists', h', hloc', hspares'⟩ := located_of_reaches h hloc hspares hreach
  obtain ⟨fuel', hend'⟩ := preprocess_of_reaches hend hreach
  have hi := hhandles.1
  have hlisted : i ∈ st'.engine.fragmentEvents X.channel := by
    by_contra hnot
    have hastray : X.Astray st' := by
      refine ⟨by rw [Iterator.index_eq_some.mp hi]; nofun, fun j hj => ?_⟩
      cases hi.symm.trans hj
      exact hnot
    rw [preprocess_of_astray h' hloc' hastray hspares'] at hend'
    cases hend'
  by_contra hdropped
  obtain ⟨st₂, lists₂, hround, h₂, hit, hsub, hstays⟩ :=
    round_cases h' hi (hspares' st' i .refl)
  rw [h'.fragmentEvents_eq] at hlisted hsub hstays
  obtain ⟨A, B, hl⟩ := List.append_of_mem hlisted
  have hstands := h'.stands_next hl hi
  have hmem : next ∈ lists' (.rtlist (.events X.channel)) := by
    rw [hstands.index] at hnext
    simp [hl, List.mem_of_mem_head? hnext]
  have hastray : X.Astray st₂ := by
    rw [← hit] at hnext
    refine ⟨by rw [Iterator.index_eq_some.mp hnext]; nofun, fun j hj => ?_⟩
    cases hnext.symm.trans hj
    exact fun hstay => hdropped ((hstays next hmem).mp hstay hhandles)
  obtain ⟨fuel₂, hend₂⟩ := preprocess_of_reaches hend' (.single hround)
  obtain ⟨lists₃, h₃, hloc₃⟩ := located_round h' hloc' hspares' hround
  rw [preprocess_of_astray h₃ hloc₃ hastray (hspares'.round hround)] at hend₂
  cases hend₂

theorem visit_of_round (hi : st.itEvent.index = some i)
    (hmem : i ∈ st.engine.fragmentEvents X.channel)
    (hround : X.round parentNoteID st = some st') :
    X.visit parentNoteID (i :: rest) st.engine st.passed =
      X.visit parentNoteID rest st'.engine st'.passed := by
  rw [round, hi, Option.bind_eq_bind, Option.bind_some] at hround
  rw [visit, if_pos hmem]
  split at hround
  · cases hround
    rfl
  · obtain ⟨S', hrun, hround⟩ := Option.bind_eq_some_iff.mp hround
    cases hround
    rw [hrun]
    rfl

omit [DecidableEq C] in
theorem eq_filter_of_sublist {L L' : List ℕ} (hn : L.Nodup) (hsub : L'.Sublist L) :
    L' = L.filter (· ∈ L') := by
  have hfilter : L'.Sublist (L.filter (· ∈ L')) := by
    have hself := hsub.filter (· ∈ L')
    rwa [List.filter_eq_self.mpr fun j hj => by simpa using hj] at hself
  refine hfilter.eq_of_length_le (List.Subperm.length_le ?_)
  exact List.subperm_of_subset (hn.filter _) fun j hj => by simpa using (List.mem_filter.mp hj).2

/-- The iterator stands at the first of the events that are still to be visited. -/
theorem preprocess_of_sparesNext (h : EventEngine.Inv z st.engine lists)
    (hl : st.engine.fragmentEvents X.channel = A ++ B)
    (hit : EventEngine.StandsAt (.rtlist (.events X.channel)) st.itEvent B)
    (hrest : rest.filter (· ∈ st.engine.fragmentEvents X.channel) = B)
    (hspares : X.SparesDelayed parentNoteID st) (hnext : X.SparesNext parentNoteID st) :
    ∃ fuel st', X.preprocess parentNoteID fuel st = some st' ∧
      X.visit parentNoteID rest st.engine st.passed = some (st'.engine, st'.passed) := by
  induction rest generalizing st lists A B with
  | nil =>
      subst hrest
      exact ⟨1, st, if_pos (Option.some.inj hit).symm, rfl⟩
  | cons i rest ih =>
      by_cases hmem : i ∈ st.engine.fragmentEvents X.channel
      · rw [List.filter_cons_of_pos (by simpa using hmem)] at hrest
        subst hrest
        have hi : st.itEvent.index = some i := hit.index
        obtain ⟨st₁, lists₁, hround, h₁, hit₁, hsub, hstays⟩ :=
          round_cases h hi (hspares st i .refl)
        set L := st.engine.fragmentEvents X.channel with hL
        set L₁ := st₁.engine.fragmentEvents X.channel with hL₁
        have hlists := (h.fragmentEvents_eq X.channel).symm.trans hl
        have hstands := h.stands_next hlists hi
        rw [← hit₁] at hstands
        have hfilter := eq_filter_of_sublist (h.nodup_fragmentEvents X.channel) hsub
        have hrest₁ : rest.filter (· ∈ L₁) = (rest.filter (· ∈ L)).filter (· ∈ L₁) := by
          rw [List.filter_filter]
          refine List.filter_congr fun j _ => ?_
          have := hsub.subset (a := j)
          grind
        have hl₁ : L₁ = (A ++ [i]).filter (· ∈ L₁) ++ rest.filter (· ∈ L₁) := by
          rw [hrest₁, ← List.filter_append, List.append_assoc, List.singleton_append, ← hl]
          exact hfilter
        have hstands₁ : EventEngine.StandsAt (.rtlist (.events X.channel)) st₁.itEvent
            (rest.filter (· ∈ L₁)) := by
          rw [hrest₁]
          cases hB : rest.filter (· ∈ L) with
          | nil => rwa [hB] at hstands
          | cons j B =>
              -- the event behind `i` is still there
              rw [hB] at hstands
              have hj : j ∈ L := by
                have := List.mem_filter.mp (hB ▸ List.mem_cons_self : j ∈ rest.filter (· ∈ L))
                simpa using this.2
              have hstay : j ∈ L₁ := by
                refine (hstays j hj).mpr fun hhandles => hnext st i j .refl hhandles ?_
                rw [← hit₁]
                exact hstands.index
              rw [List.filter_cons_of_pos (by simpa using hstay)]
              exact hstands
        obtain ⟨fuel, st₂, hend, hvisit⟩ :=
          ih h₁ hl₁ hstands₁ rfl (hspares.round hround) (hnext.round hround)
        refine ⟨fuel + 1, st₂, ?_, (visit_of_round hi hmem hround).trans hvisit⟩
        rw [preprocess, if_neg (by rw [Iterator.index_eq_some.mp hi]; nofun), hround]
        exact hend
      · rw [List.filter_cons_of_neg (by simpa using hmem)] at hrest
        obtain ⟨fuel, st', hend, hvisit⟩ := ih h hl hit hrest hspares hnext
        refine ⟨fuel, st', hend, ?_⟩
        rw [visit, if_neg hmem]
        exact hvisit

/-- For the lists of an engine as it can be. -/
theorem visitsOnce_iff_of_inv (h : EventEngine.Inv z S lists)
    (hspares : X.SparesDelayed parentNoteID (X.start S)) :
    X.VisitsOnce parentNoteID S ↔ X.SparesNext parentNoteID (X.start S) := by
  have hstands := h.events.first_current (.rtlist (.events X.channel))
  have hloc : Located z (X.start S) :=
    located_of_stands h (List.nil_append _).symm hstands
  constructor
  · rintro ⟨fuel, st, hend, -⟩
    exact sparesNext_of_preprocess h hloc hspares hend
  · intro hnext
    refine preprocess_of_sparesNext (A := []) h (List.nil_append _).symm ?_ ?_ hspares hnext
    · rw [← h.fragmentEvents_eq] at hstands
      exact hstands
    · exact List.filter_eq_self.mpr fun j hj => decide_eq_true hj

/-- The script sees every event that is still in the list when its turn comes once, in the
order of the list, and the loop ends there, exactly if no handler drops the event behind
the one that it was called for. -/
theorem visitsOnce_iff {S₀ : EventEngine C δ} (h₀ : S₀.Created z)
    {before : List (EngineAction C δ)}
    (hok : EventEngine.RunOk parentNoteID EngineAction.Spares before S₀)
    (hrun : EventEngine.run parentNoteID before S₀ = some S)
    (hspares : X.SparesDelayed parentNoteID (X.start S)) :
    X.VisitsOnce parentNoteID S ↔ X.SparesNext parentNoteID (X.start S) := by
  obtain ⟨S', lists, hrun', h⟩ := h₀.inv.run hok
  cases hrun.symm.trans hrun'
  exact visitsOnce_iff_of_inv h hspares

theorem engine_of_reaches (hreach : X.Reaches parentNoteID st st') (hnone : st'.passed = []) :
    st'.engine = st.engine := by
  induction hreach with
  | refl => rfl
  | tail _ hround ih =>
      obtain ⟨i, -, hround⟩ := Option.bind_eq_some_iff.mp hround
      dsimp only at hround
      split at hround
      · cases hround
        exact ih hnone
      · obtain ⟨S', -, hround⟩ := Option.bind_eq_some_iff.mp hround
        cases hround
        exact absurd hnone (by simp)

/-- Two notes of one fragment, with the events 2 and 1 and the notes 1 and 0. -/
def chord : List (EngineAction Unit ℕ) :=
  [.alloc (.events ()) EventEngine.middleC, .launchNewNote () 2 true,
    .alloc (.events ()) EventEngine.middleC, .launchNewNote () 1 true]

/-- `on note ignore_event($EVENT_ID) end on`, for the first note only. -/
def ignoreFirst : ScriptedChannel Unit ℕ where
  channel := ()
  hasHandler := (· == .note)
  calls k := if k = 0 then [.ignore (2 ^ 63 + 2)] else []

theorem visitsOnce_iff_ignoreFirst : ∃ S,
    EventEngine.run id chord EventEngine.freshEngine = some S ∧
      (ignoreFirst.VisitsOnce id S ↔ ignoreFirst.SparesNext id (ignoreFirst.start S)) := by
  have hok : EventEngine.RunOk id EngineAction.Spares chord EventEngine.freshEngine := by
    decide +kernel
  obtain ⟨S, lists, hrun, -⟩ := EventEngine.freshEngine_created.inv.run hok
  have hfirst : ∀ S ∈ EventEngine.run id chord EventEngine.freshEngine,
      EventEngine.RunOk id EngineAction.Spares (ignoreFirst.actions 0) S := by decide +kernel
  refine ⟨S, hrun, visitsOnce_iff EventEngine.freshEngine_created hok hrun ?_⟩
  intro st i hreach _
  cases hpassed : st.passed with
  | nil =>
      rw [engine_of_reaches hreach hpassed]
      exact hfirst S hrun
  | cons e passed => trivial

/-- `on note ignore_event(%ALL_EVENTS) end on` -/
def ignoreAll : ScriptedChannel Unit ℕ where
  channel := ()
  hasHandler := (· == .note)
  calls _ := [.ignore (2 ^ 63 + 2), .ignore (2 ^ 63 + 1)]

theorem not_visitsOnce_ignoreAll : ∃ S,
    EventEngine.run id chord EventEngine.freshEngine = some S ∧ ¬ ignoreAll.VisitsOnce id S := by
  have hrounds : ∀ S ∈ EventEngine.run id chord EventEngine.freshEngine,
      (ignoreAll.round id (ignoreAll.start S)).isSome ∧
        ∀ st ∈ ignoreAll.round id (ignoreAll.start S), (ignoreAll.round id st).isSome ∧
          ∀ st' ∈ ignoreAll.round id st, st'.itEvent.current = .endOf .freelist := by
    decide +kernel
  obtain ⟨S, hrun⟩ : ∃ S, EventEngine.run id chord EventEngine.freshEngine = some S :=
    Option.isSome_iff_exists.mp (by decide +kernel)
  refine ⟨S, hrun, ?_⟩
  rintro ⟨fuel, st, hend, -⟩
  obtain ⟨hsome, hnext⟩ := hrounds S hrun
  obtain ⟨st₁, hst₁⟩ := Option.isSome_iff_exists.mp hsome
  obtain ⟨hsome₁, hnext₁⟩ := hnext st₁ hst₁
  obtain ⟨st₂, hst₂⟩ := Option.isSome_iff_exists.mp hsome₁
  have hlost := hnext₁ st₂ hst₂
  obtain ⟨fuel', hend'⟩ := preprocess_of_reaches hend (.tail (.single hst₁) hst₂)
  have hround : ignoreAll.round id st₂ = none := by
    rw [round, Iterator.index, hlost]
    rfl
  cases fuel' with
  | zero => cases hend'
  | succ fuel' =>
      have hon : ¬ st₂.itEvent.current = .endOf (.rtlist (.events ignoreAll.channel)) := by
        intro hoff
        rw [hlost] at hoff
        cases hoff
      rw [preprocess, if_neg hon, hround] at hend'
      cases hend'

end ScriptedChannel

end LinuxSampler
