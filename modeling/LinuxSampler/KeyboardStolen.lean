import LinuxSampler.KeyboardThefts

/-!
# Rendering stolen voices

The queue of voice thefts over a whole run. An event of the queue that a script
drops leaves its key with a theft that is never finished.
-/

namespace LinuxSampler

instance {C : Type*} : ∀ call : ScriptCall C, Decidable call.KeepsStolen
  | .ignoreEvent (.stolen _) => .isFalse id
  | .ignoreNote _ (.stolen _) => .isFalse id
  | .ignoreEvent (.pending _ _) | .ignoreEvent (.key _ _ _) | .ignoreNote _ (.pending _ _)
  | .ignoreNote _ (.key _ _ _) | .scheduleNote _ _ _ => .isTrue trivial

namespace Keyboards

variable {C : Type*} [DecidableEq C] {s s' : Keyboards C} {c : C} {k : Key} {e : KeyEvent}
  {o : KeyOutcome C} {pools : NotePools} {q : List (StolenVoice C)} {v : StolenVoice C}
  {answer : Launch}

/-! ## Processing -/

theorem callScript_theftsOf {call : ScriptCall C} (h : call.KeepsStolen) :
    (s.callScript call).theftsOf = s.theftsOf := by
  have hfree : ∀ (s : Keyboards C) (event : EventPlace C), (∀ n, event ≠ .stolen n) →
      (s.freeEventAt event).theftsOf = s.theftsOf := by
    intro s event hevent
    cases event with
    | pending c n => exact handlerBlind_theftsOf.onChannel rfl
    | key c k n =>
        exact handlerBlind_theftsOf.onChannel (KeyboardChannel.eventBlind_theftsOf.modifyKey rfl)
    | stolen n => exact absurd rfl (hevent n)
  cases call with
  | ignoreEvent event =>
    refine hfree s event ?_
    rintro n rfl
    exact h
  | ignoreNote id event =>
    rw [callScript]
    split
    · refine (hfree _ event ?_).trans rfl
      rintro n rfl
      exact h
    · rfl
  | scheduleNote c pools e => exact blind_theftsOf.launchNewNote

theorem script_theftsOf {calls : List (ScriptCall C)} (h : ∀ call ∈ calls, call.KeepsStolen) :
    (calls.foldl callScript s).theftsOf = s.theftsOf := by
  induction calls generalizing s with
  | nil => rfl
  | cons call calls ih =>
    rw [List.foldl_cons, ih fun call' h' => h call' (List.mem_cons_of_mem _ h'),
      callScript_theftsOf (h call List.mem_cons_self)]

theorem Accounted.processEvent (h : s.Accounted) (hrendering : s.rendering = true)
    (hscript : ∀ call ∈ o.script, call.KeepsStolen) : (s.processEvent o c).Accounted := by
  rw [Keyboards.processEvent]
  split
  · exact h
  · rename_i e rest _
    have hpop : (s.onChannel c ({ · with events := rest })).Accounted :=
      h.congr (handlerBlind_theftsOf.onChannel rfl)
    have hrendering₁ : (s.onChannel c ({ · with events := rest })).rendering = true := hrendering
    generalize s.onChannel c ({ · with events := rest }) = s₁ at hpop hrendering₁ ⊢
    have hcontrollers : (s₁.processHardcodedControllers o c e).theftsOf = s₁.theftsOf :=
      handlerBlind_theftsOf.processHardcodedControllers (fun _ => script_theftsOf hscript)
        fun _ _ => rfl
    dsimp only
    split
    · exact (hpop.processNoteOn hrendering₁).congr handlerBlind_theftsOf.resetParameters
    · exact (hpop.processNoteOn hrendering₁).congr handlerBlind_theftsOf.resetParameters
    · exact (hpop.processNoteOff hrendering₁).congr handlerBlind_theftsOf.resetParameters
    · exact (hpop.processNoteOff hrendering₁).congr handlerBlind_theftsOf.resetParameters
    · exact (hpop.congr handlerBlind_theftsOf.moveToNoteKey).congr
        handlerBlind_theftsOf.resetParameters
    · exact (hpop.congr handlerBlind_theftsOf.moveToNoteKey).congr
        handlerBlind_theftsOf.resetParameters
    · exact hpop.congr hcontrollers
    · exact hpop.congr handlerBlind_theftsOf.processHardcodedRpn
    · exact hpop.congr handlerBlind_theftsOf.processHardcodedNrpn
    · exact hpop.congr handlerBlind_theftsOf.resetParameters

/-! ## Rendering -/

/-- One theft less for the key of the event. -/
theorem CountedBy.finishTheft (h : s.CountedBy (v :: q)) : (s.finishTheft v).CountedBy q := by
  refine ⟨fun c k => ?_, fun v' hv' => ?_, fun hr => ?_⟩
  · have hcount := h.thefts c k
    rw [List.countP_cons] at hcount
    by_cases hfor : c = v.channel ∧ k = v.event.key
    · rcases hfor with ⟨rfl, rfl⟩
      have hv : v.isFor v.channel v.event.key = true := by simp [StolenVoice.isFor]
      rw [hv, if_pos rfl, key] at hcount
      rw [Keyboards.finishTheft, key_onChannel_self, KeyboardChannel.modifyKey_self,
        MidiKey.finishTheft_thefts]
      omega
    · have hv : v.isFor c k = false := by
        simp only [StolenVoice.isFor, Bool.and_eq_false_iff, decide_eq_false_iff_not]
        by_contra hboth
        push Not at hboth
        exact hfor ⟨hboth.1.symm, hboth.2.symm⟩
      rw [hv, if_neg Bool.false_ne_true, add_zero] at hcount
      rw [← hcount, Keyboards.finishTheft]
      by_cases hc : c = v.channel
      · rcases hc with rfl
        rw [key_onChannel_self, KeyboardChannel.modifyKey_of_ne fun hk => hfor ⟨rfl, hk⟩, key]
      · rw [key_onChannel_of_ne hc]
  · rw [← h.instrument v' (List.mem_cons_of_mem _ hv')]
    exact onChannel_same KeyboardChannel.hasInstrument rfl
  · cases h.idle hr

theorem CountedBy.renderStolenVoice (h : s.CountedBy (v :: q)) :
    (s.renderStolenVoice answer v).CountedBy q := by
  have hloaded := h.instrument v List.mem_cons_self
  unfold Keyboards.renderStolenVoice
  rw [hloaded, if_neg (by simp)]
  split
  · split
    · exact (h.congr blind_theftsOf.launchVoice).finishTheft
    · exact h.finishTheft
  · exact h.finishTheft

/-- The loop finishes all thefts. -/
theorem CountedBy.renderStolenVoices {answer : ℕ → Launch} {n : ℕ} (h : s.CountedBy q) :
    ((q.zipIdx n).foldl (fun s v => s.renderStolenVoice (answer v.2) v.1) s).CountedBy [] := by
  induction q generalizing s n with
  | nil => exact h
  | cons v q ih =>
    rw [List.zipIdx_cons, List.foldl_cons]
    exact ih h.renderStolenVoice

theorem postProcess_theftsOf {silent : ℕ → Bool} : (s.postProcess silent).theftsOf = s.theftsOf :=
  Prod.ext rfl (Prod.ext rfl (funext fun _ =>
    KeyboardChannel.eventBlind_theftsOf.clearEventLists.trans
      KeyboardChannel.eventBlind_theftsOf.freeAllInactiveKeys))

theorem Accounted.endFragment {answer : ℕ → Launch} {silent : ℕ → Bool} (h : s.Accounted) :
    (s.endFragment answer silent).Accounted := by
  have hrendered : (s.renderStolenVoices answer).CountedBy [] := CountedBy.renderStolenVoices h
  have hpost : ((s.renderStolenVoices answer).postProcess silent).CountedBy [] :=
    hrendered.congr postProcess_theftsOf
  exact ⟨hpost.thefts, nofun, fun _ => rfl⟩

/-! ## Runs -/

/-- No script drops a queued theft. -/
def TheftsFinished (_ : Keyboards C) : KeyAction C → Prop
  | .callScript call => call.KeepsStolen
  | .processEvent o _ => ∀ call ∈ o.script, call.KeepsStolen
  | _ => True

theorem Accounted.init : (init : Keyboards C).Accounted := ⟨fun _ _ => rfl, nofun, fun _ => rfl⟩

/-- Outside of a fragment the counters may be reset, and instruments may change. -/
theorem Accounted.outside (h : s.Accounted) (hidle : s.rendering = false)
    (hqueue : s'.voiceStealingQueue = [])
    (hthefts : ∀ c k, (s'.key c k).voiceTheftsQueued = (s.key c k).voiceTheftsQueued ∨
      (s'.key c k).voiceTheftsQueued = 0) : s'.Accounted := by
  have hempty : s.voiceStealingQueue = [] := h.idle hidle
  rw [Accounted, hqueue]
  refine ⟨fun c k => ?_, fun v hv => ?_, fun _ => rfl⟩
  · have hzero := h.thefts c k
    rw [hempty] at hzero
    rcases hthefts c k with hsame | hsame
    · rw [hsame, hzero]
    · exact hsame
  · cases hv

theorem Accounted.step {a : KeyAction C} (h : s.Accounted) (henabled : s.Enabled a)
    (hok : s.TheftsFinished a) : (s.step a).Accounted := by
  cases a with
  | startFragment => exact ⟨h.thefts, h.instrument, nofun⟩
  | importEvent alloc pools c note e =>
    exact h.congr (handlerBlind_theftsOf.importEvent fun _ _ => rfl)
  | callScript call => exact h.congr (callScript_theftsOf hok)
  | insertDelayed c n e => exact h.congr (handlerBlind_theftsOf.onChannel rfl)
  | processEvent o c => exact h.processEvent henabled hok
  | processCtrlTrigger o c e =>
    rw [Keyboards.step, processCtrlTrigger]
    split
    · split
      · exact h.processNoteOn henabled.1
      · exact h.processNoteOff henabled.1
    · exact h
  | processRegions o c e => exact h.congr blind_theftsOf.processRegions
  | endFragment answer silent => exact h.endFragment
  | resetInternal c =>
    refine h.outside henabled (h.idle henabled) fun c' k => ?_
    by_cases hc : c' = c
    · rcases hc with rfl
      refine .inr ?_
      rw [Keyboards.step, resetInternal, key_onChannel_self]
      rfl
    · refine .inl ?_
      rw [Keyboards.step, resetInternal, key_onChannel_of_ne hc]
      rfl
  | resetEngine => exact h.outside henabled rfl fun _ _ => .inr rfl
  | resetControllers c => exact h.congr (handlerBlind_theftsOf.onChannel rfl)
  | setInstrument c loaded =>
    refine h.outside henabled (h.idle henabled) fun c' k => .inl ?_
    have hkeys : ((s.onChannel c ({ · with hasInstrument := loaded })).channel c').keys =
        (s.channel c').keys := onChannel_same KeyboardChannel.keys rfl
    rw [Keyboards.step, key, hkeys, key]
  | setMute c mute => exact h.congr (handlerBlind_theftsOf.onChannel rfl)

/-- In a run in which all thefts are finished, the counter of a key is the number of
events for the key in the voice stealing queue, and it is zero after each fragment. -/
theorem voiceTheftsQueued_run {as : List (KeyAction C)}
    (hrun : (system C).RunFrom TheftsFinished init as) :
    (∀ c k, (((system C).exec init as).key c k).voiceTheftsQueued =
      (((system C).exec init as).voiceStealingQueue.countP (·.isFor c k) : ℤ)) ∧
    (((system C).exec init as).rendering = false →
      ∀ c k, (((system C).exec init as).key c k).voiceTheftsQueued = 0) := by
  have h : ((system C).exec init as).Accounted :=
    hrun.invariant (fun _ _ h henabled hok => h.step henabled hok) .init
  refine ⟨h.thefts, fun hidle c k => ?_⟩
  have hqueue : ((system C).exec init as).voiceStealingQueue = [] := h.idle hidle
  rw [h.thefts, hqueue]
  rfl

instance (s : Keyboards C) : ∀ a : KeyAction C, Decidable (s.TheftsFinished a)
  | .callScript call => inferInstanceAs (Decidable call.KeepsStolen)
  | .processEvent o _ => inferInstanceAs (Decidable (∀ call ∈ o.script, call.KeepsStolen))
  | .startFragment | .importEvent _ _ _ _ _ | .insertDelayed _ _ _ | .processCtrlTrigger _ _ _
  | .processRegions _ _ _ | .resetInternal _ | .resetEngine | .resetControllers _
  | .setInstrument _ _ | .setMute _ _ | .endFragment _ _ => .isTrue trivial

/-! ## A theft that is dropped -/

/-- A MIDI event, for the runs below. -/
def midi (type : EventType) (controller value : ℕ) : KeyEvent :=
  ⟨type, 0, 100, 0, 0, controller, value, 0⟩

/-- All lists and pools have an element, and the next note has the given ID. -/
def answers (note : ℕ) (launches : List Launch) (script : List (ScriptCall Unit)) :
    KeyOutcome Unit :=
  ⟨fun _ => true, ⟨fun _ => note, true⟩, fun _ => launches, script, false⟩

/-- A note-on whose voice is stolen, then RPN data entry with its script handler, and the end
of the fragment, which launches the voice. -/
def stolenRun (script : List (ScriptCall Unit)) : List (KeyAction Unit) :=
  [.setInstrument () true, .startFragment,
   .importEvent true ⟨fun _ => 1, true⟩ () 60 (midi .note_on 0 0),
   .importEvent true ⟨fun _ => 0, true⟩ () 0 (midi .control_change 100 1),
   .importEvent true ⟨fun _ => 0, true⟩ () 0 (midi .control_change 6 64),
   .processEvent (answers 0 [.noFreeVoice true true] []) (),
   .processEvent (answers 0 [] []) (),
   .processEvent (answers 0 [] script) (),
   .endFragment (fun _ => .started .none) fun _ => true]

/-- The handler calls `ignore_event()` with the ID of the event on the voice stealing queue: the
counter stays up when the queue is empty. -/
theorem not_voiceTheftsQueued_run :
    ¬ ∀ as : List (KeyAction Unit), (system Unit).RunFrom (fun _ _ => True) init as →
      ∀ c k, (((system Unit).exec init as).key c k).voiceTheftsQueued =
        (((system Unit).exec init as).voiceStealingQueue.countP (·.isFor c k) : ℤ) := by
  intro h
  have hrun := h (stolenRun [.ignoreEvent (.stolen 0)]) (by decide) () 60
  revert hrun
  decide

/-- The handler ignores the note of the theft, which is finished without it. -/
theorem voiceTheftsQueued_run_stolen :
    (((system Unit).exec init (stolenRun [.ignoreNote 1 (.key () 60 0)])).key () 60).voiceTheftsQueued
      = 0 :=
  (voiceTheftsQueued_run (by decide)).2 rfl () 60

end Keyboards

end LinuxSampler
