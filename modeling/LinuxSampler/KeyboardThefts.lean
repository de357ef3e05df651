import LinuxSampler.KeyboardLaunch

/-!
# Queued voice thefts

`VoiceTheftsQueued` of a key counts the events of the voice stealing queue that
are for the key. The counter goes up in `InitNewVoice()`, it goes down in
`RenderStolenVoices()`, and the queue is cleared at the end of the fragment.
-/

namespace LinuxSampler

/-- What the accounting depends on. -/
def KeyboardChannel.theftsOf (ch : KeyboardChannel) : (Key → ℤ) × Bool :=
  (fun k => (ch.keys k).voiceTheftsQueued, ch.hasInstrument)

namespace KeyboardChannel

variable {ch : KeyboardChannel} {k : Key} {e : KeyEvent} {f : MidiKey → MidiKey}

theorem eventBlind_theftsOf : EventBlind MidiKey.voiceTheftsQueued theftsOf where
  key _ _ _ _ _ := rfl
  keys _ _ _ h := Prod.ext (funext h) rfl
  control _ _ _ _ _ _ _ := rfl

@[simp] theorem setKeyDown_theftsOf {down : Bool} : (ch.setKeyDown k down).theftsOf = ch.theftsOf :=
  rfl

@[simp] theorem receiveNoteOn_theftsOf : (ch.receiveNoteOn e).theftsOf = ch.theftsOf := by
  rw [receiveNoteOn]
  dsimp only
  split
  · split
    · exact setKeyDown_theftsOf.trans
        ((eventBlind_theftsOf.modifyKey rfl).trans eventBlind_theftsOf.append)
    · exact setKeyDown_theftsOf.trans
        ((eventBlind_theftsOf.modifyKey rfl).trans eventBlind_theftsOf.append)
  · exact eventBlind_theftsOf.append

@[simp] theorem receiveNoteOff_theftsOf : (ch.receiveNoteOff e).theftsOf = ch.theftsOf :=
  eventBlind_theftsOf.append.trans (setKeyDown_theftsOf.trans (eventBlind_theftsOf.modifyKey rfl))

end KeyboardChannel

/-- The event of the queue is for key `k` of channel `c`. -/
def StolenVoice.isFor {C : Type*} [DecidableEq C] (c : C) (k : Key) (v : StolenVoice C) : Bool :=
  decide (v.channel = c) && decide (v.event.key = k)

/-- No event of the voice stealing queue is dropped. -/
def ScriptCall.KeepsStolen {C : Type*} : ScriptCall C → Prop
  | .ignoreEvent (.stolen _) => False
  | .ignoreNote _ (.stolen _) => False
  | _ => True

namespace Keyboards

variable {C : Type*} [DecidableEq C] {s s' : Keyboards C} {c : C} {k : Key} {e : KeyEvent}
  {o : KeyOutcome C} {pools : NotePools} {q : List (StolenVoice C)} {v : StolenVoice C}
  {f : KeyboardChannel → KeyboardChannel}

/-- What the accounting depends on. -/
def theftsOf (s : Keyboards C) : List (StolenVoice C) × Bool × (C → (Key → ℤ) × Bool) :=
  (s.voiceStealingQueue, s.rendering, fun c => (s.channel c).theftsOf)

/-- The counters count the events of `q`. Those are for channels with an instrument,
and there are none outside of a fragment. -/
structure CountedBy (q : List (StolenVoice C)) (s : Keyboards C) : Prop where
  thefts : ∀ c k, (s.key c k).voiceTheftsQueued = q.countP (·.isFor c k)
  instrument : ∀ v ∈ q, (s.channel v.channel).hasInstrument = true
  idle : s.rendering = false → q = []

def Accounted (s : Keyboards C) : Prop := s.CountedBy s.voiceStealingQueue

theorem CountedBy.congr (h : s.CountedBy q) (hsame : s'.theftsOf = s.theftsOf) :
    s'.CountedBy q := by
  have hch : ∀ c, (s'.channel c).theftsOf = (s.channel c).theftsOf := fun c =>
    congrFun (congrArg (·.2.2) hsame) c
  have hrendering : s'.rendering = s.rendering := congrArg (·.2.1) hsame
  refine ⟨fun c k => ?_, fun v hv => ?_, fun hr => h.idle (hrendering ▸ hr)⟩
  · rw [← h.thefts c k]
    exact congrFun (congrArg Prod.fst (hch c)) k
  · rw [← h.instrument v hv]
    exact congrArg Prod.snd (hch v.channel)

theorem Accounted.congr (h : s.Accounted) (hsame : s'.theftsOf = s.theftsOf) : s'.Accounted := by
  have hq : s'.voiceStealingQueue = s.voiceStealingQueue := congrArg Prod.fst hsame
  rw [Accounted, hq]
  exact CountedBy.congr h hsame

/-! ## Operations that change no counter -/

theorem handlerBlind_theftsOf :
    HandlerBlind MidiKey.voiceTheftsQueued KeyboardChannel.theftsOf (theftsOf (C := C)) where
  toEventBlind := KeyboardChannel.eventBlind_theftsOf
  notes _ _ := rfl
  onChannel h := Prod.ext rfl (Prod.ext rfl (funext fun _ => onChannel_same _ h))

theorem blind_theftsOf : LaunchBlind (theftsOf (C := C)) := handlerBlind_theftsOf.launchBlind

/-! ## Thefts -/

@[simp] theorem launchVoice_rendering {stealing : Bool} {l : Launch} :
    (s.launchVoice stealing c e l).rendering = s.rendering := by
  cases l with
  | nothing => rfl
  | started flags => rfl
  | noFreeVoice stolen queued =>
    rw [launchVoice]
    split
    · rfl
    · rfl

@[simp] theorem launchVoice_hasInstrument {stealing : Bool} {l : Launch} {c' : C} :
    ((s.launchVoice stealing c e l).channel c').hasInstrument = (s.channel c').hasInstrument := by
  cases l with
  | nothing => rfl
  | started flags =>
    rw [launchVoice]
    exact onChannel_same KeyboardChannel.hasInstrument KeyboardChannel.markKeyAsActive_hasInstrument
  | noFreeVoice stolen queued =>
    rw [launchVoice]
    split
    · exact onChannel_same KeyboardChannel.hasInstrument rfl
    · rfl

/-- `InitNewVoice()`: the counter goes up with the queue. -/
theorem Accounted.launchVoice {l : Launch} (h : s.Accounted)
    (hinstrument : (s.channel c).hasInstrument = true) (hrendering : s.rendering = true) :
    (s.launchVoice true c e l).Accounted := by
  cases l with
  | nothing => exact h
  | started flags =>
    refine h.congr (handlerBlind_theftsOf.onChannel ?_)
    rw [KeyboardChannel.eventBlind_theftsOf.modifyKey rfl,
      KeyboardChannel.eventBlind_theftsOf.markKeyAsActive]
  | noFreeVoice stolen queued =>
    rw [Keyboards.launchVoice]
    split
    · refine ⟨fun c' k' => ?_, fun v hv => ?_, fun hr => ?_⟩
      · have hcount := h.thefts c' k'
        rw [onChannel_voiceStealingQueue, List.countP_append, List.countP_singleton]
        by_cases hfor : c' = c ∧ k' = e.key
        · rcases hfor with ⟨rfl, rfl⟩
          rw [key_onChannel_self, KeyboardChannel.modifyKey_self]
          have hfor : StolenVoice.isFor c' e.key ⟨c', e⟩ = true := by simp [StolenVoice.isFor]
          rw [hfor, if_pos rfl]
          rw [key] at hcount
          simpa using hcount
        · have hsame : ((s.onChannel c (·.modifyKey e.key fun key =>
              { key with voiceTheftsQueued := key.voiceTheftsQueued + 1 })).key c' k') =
                s.key c' k' := by
            by_cases hc : c' = c
            · rcases hc with rfl
              rw [key_onChannel_self, KeyboardChannel.modifyKey_of_ne fun hk => hfor ⟨rfl, hk⟩, key]
            · rw [key_onChannel_of_ne hc]
          have hnot : StolenVoice.isFor c' k' ⟨c, e⟩ = false := by
            simp only [StolenVoice.isFor, Bool.and_eq_false_iff, decide_eq_false_iff_not]
            by_contra hboth
            push Not at hboth
            exact hfor ⟨hboth.1.symm, hboth.2.symm⟩
          rw [hnot, if_neg Bool.false_ne_true, add_zero, ← hcount]
          exact congrArg MidiKey.voiceTheftsQueued hsame
      · rw [onChannel_same KeyboardChannel.hasInstrument rfl]
        rw [onChannel_voiceStealingQueue, List.mem_append, List.mem_singleton] at hv
        rcases hv with hv | rfl
        · exact h.instrument v hv
        · exact hinstrument
      · exact absurd (hrendering.symm.trans hr) (by simp)
    · exact h

theorem Accounted.launchVoices {ls : List Launch} (h : s.Accounted)
    (hinstrument : (s.channel c).hasInstrument = true) (hrendering : s.rendering = true) :
    (ls.foldl (Keyboards.launchVoice true c e) s).Accounted := by
  induction ls generalizing s with
  | nil => exact h
  | cons l ls ih =>
    exact ih (h.launchVoice hinstrument hrendering) (launchVoice_hasInstrument.trans hinstrument)
      (launchVoice_rendering.trans hrendering)

theorem Accounted.triggerNewVoices {ls : List Launch} (h : s.Accounted)
    (hinstrument : (s.channel c).hasInstrument = true) (hrendering : s.rendering = true) :
    (s.triggerNewVoices ls c e).Accounted := by
  rw [Keyboards.triggerNewVoices]
  split
  · exact h.launchVoices hinstrument hrendering
  · exact h

omit [DecidableEq C] in
theorem rendering_of_theftsOf (h : s'.theftsOf = s.theftsOf) : s'.rendering = s.rendering :=
  congrArg (·.2.1) h

omit [DecidableEq C] in
theorem hasInstrument_of_theftsOf (h : s'.theftsOf = s.theftsOf) :
    (s'.channel c).hasInstrument = (s.channel c).hasInstrument :=
  congrArg Prod.snd (congrFun (congrArg (·.2.2) h) c)

/-- The counters are right after the voices of a note were triggered, if they
were right before the event went to its key. -/
theorem Accounted.trigger {ls : List Launch} {s₁ : Keyboards C} (h : s.Accounted)
    (hsame : s₁.theftsOf = s.theftsOf) (hinstrument : (s.channel c).hasInstrument = true)
    (hrendering : s.rendering = true) : (s₁.triggerNewVoices ls c e).Accounted :=
  (h.congr hsame).triggerNewVoices ((hasInstrument_of_theftsOf hsame).trans hinstrument)
    ((rendering_of_theftsOf hsame).trans hrendering)

theorem Accounted.processNoteOn (h : s.Accounted) (hrendering : s.rendering = true) :
    (s.processNoteOn o c e).Accounted := by
  rw [Keyboards.processNoteOn]
  split
  · exact h
  · split
    · exact h
    · rename_i hloaded
      refine Accounted.congr
        (h.trigger ?_ (by simpa using hloaded) hrendering) handlerBlind_theftsOf.freeUnused
      rw [handlerBlind_theftsOf.onChannel KeyboardChannel.eventBlind_theftsOf.cancelRelease,
        handlerBlind_theftsOf.onChannel KeyboardChannel.receiveNoteOn_theftsOf]

theorem Accounted.respawnSolo (h : s.Accounted) (hrendering : s.rendering = true) :
    (s.respawnSolo o c e).1.Accounted := by
  have hsolo : ∀ key, (s.onChannel c ({ · with soloKey := key })).theftsOf = s.theftsOf :=
    fun _ => handlerBlind_theftsOf.onChannel rfl
  rw [Keyboards.respawnSolo]
  split
  · rename_i hcond
    rcases hcond with ⟨-, hinstrument, -⟩
    split
    · exact h.congr (hsolo none)
    · rename_i i _
      split
      · refine Accounted.congr ?_ handlerBlind_theftsOf.freeUnused
        have hlaunch : ∀ pseudo, (((s.onChannel c ({ · with soloKey := some i })).onChannel c
            (·.append i pseudo)).launchNewNote o.pools c pseudo).1.theftsOf = s.theftsOf := by
          intro pseudo
          rw [blind_theftsOf.launchNewNote,
            handlerBlind_theftsOf.onChannel KeyboardChannel.eventBlind_theftsOf.append, hsolo]
        split
        · exact h.congr (hlaunch _)
        · refine h.trigger ?_ hinstrument hrendering
          rw [handlerBlind_theftsOf.onChannel (KeyboardChannel.eventBlind_theftsOf.modifyKey rfl),
            hlaunch]
      · exact h.congr (hsolo (some i))
  · exact h

theorem Accounted.processKeyRelease (h : s.Accounted) (hrendering : s.rendering = true) :
    (s.processKeyRelease o c e).Accounted := by
  rw [Keyboards.processKeyRelease]
  refine Accounted.congr ?_ handlerBlind_theftsOf.freeUnused
  have hsame : (s.onChannel c (·.receiveNoteOff e)).theftsOf = s.theftsOf :=
    handlerBlind_theftsOf.onChannel KeyboardChannel.receiveNoteOff_theftsOf
  have hsolo := (h.congr hsame).respawnSolo (o := o) (c := c) (e := e)
    ((rendering_of_theftsOf hsame).trans hrendering)
  split
  · exact hsolo.congr handlerBlind_theftsOf.releaseKey
  · exact hsolo

theorem Accounted.processNoteOff (h : s.Accounted) (hrendering : s.rendering = true) :
    (s.processNoteOff o c e).Accounted := by
  rw [Keyboards.processNoteOff]
  split
  · exact h
  · split
    · exact h.processKeyRelease hrendering
    · exact h.congr handlerBlind_theftsOf.processStopNote

end Keyboards

end LinuxSampler
