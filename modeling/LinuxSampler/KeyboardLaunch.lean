import LinuxSampler.KeyboardFields

/-!
# What launches and handlers leave alone

A launch of notes and voices adds notes, marks keys as active, and changes
release triggers and the note IDs of events. What holds along these changes holds
along a launch; an observation that does not see them is not changed by it.

The handlers of the controllers put events on keys besides, and they change the
pedals, the parameter numbers and the transposition. An observation that is
`HandlerBlind` sees nothing of that either.
-/

namespace LinuxSampler

namespace Keyboards

variable {C γ : Type*} [DecidableEq C] {ν : Keyboards C → γ} {s s' : Keyboards C} {c : C} {k : Key}
  {e : KeyEvent} {o : KeyOutcome C} {pools : NotePools}

/-! ## Closed relations -/

/-- A relation between states that holds along what a launch consists of. -/
structure LaunchClosed (R : Keyboards C → Keyboards C → Prop) : Prop where
  refl : ∀ s, R s s
  trans : ∀ {s s' s''}, R s s' → R s' s'' → R s s''
  notes : ∀ s notes, R s { s with notes := notes }
  markKeyAsActive : ∀ s c k, R s (s.onChannel c (·.markKeyAsActive k))
  releaseTrigger : ∀ s c k (g : MidiKey → ReleaseTrigger),
    R s (s.onChannel c (·.modifyKey k fun key => { key with releaseTrigger := g key }))
  noteID : ∀ s c k n id,
    R s (s.onChannel c (·.modifyKey k (·.modifyEvent n ({ · with noteID := id }))))

/-- The relation holds along thefts too. -/
def TheftClosed (R : Keyboards C → Keyboards C → Prop) : Prop :=
  ∀ (s : Keyboards C) (c : C) (e : KeyEvent),
    R s ({ s with voiceStealingQueue := s.voiceStealingQueue ++ [StolenVoice.mk c e] }.onChannel c
      (·.modifyKey e.key fun key => { key with voiceTheftsQueued := key.voiceTheftsQueued + 1 }))

namespace LaunchClosed

variable {R : Keyboards C → Keyboards C → Prop}

theorem launchNewNote (h : LaunchClosed R) : R s (s.launchNewNote pools c e).1 := by
  rw [Keyboards.launchNewNote]
  split
  · exact h.refl s
  · split
    · exact h.refl s
    · exact h.trans (h.notes s _) (h.markKeyAsActive _ c _)

theorem started (h : LaunchClosed R) {flags : ReleaseTrigger} :
    R s (s.onChannel c fun ch => (ch.markKeyAsActive e.key).modifyKey e.key fun key =>
      { key with releaseTrigger := key.releaseTrigger.or flags }) := by
  have hboth := h.trans (h.markKeyAsActive s c e.key)
    (h.releaseTrigger (s.onChannel c (·.markKeyAsActive e.key)) c e.key
      fun key => key.releaseTrigger.or flags)
  rwa [onChannel_onChannel] at hboth

theorem launchVoice (h : LaunchClosed R) {l : Launch} : R s (s.launchVoice false c e l) := by
  cases l with
  | nothing => exact h.refl s
  | started flags => exact h.started
  | noFreeVoice stolen queued => exact h.refl s

theorem launchVoices (h : LaunchClosed R) {ls : List Launch} :
    R s (ls.foldl (Keyboards.launchVoice false c e) s) := by
  induction ls generalizing s with
  | nil => exact h.refl s
  | cons l ls ih => exact h.trans h.launchVoice ih

theorem triggerReleaseVoices (h : LaunchClosed R) {ls : List Launch} :
    R s (s.triggerReleaseVoices ls c e) := by
  rw [Keyboards.triggerReleaseVoices]
  split
  · exact h.launchVoices
  · exact h.refl s

theorem processReleaseTrigger (h : LaunchClosed R) {n : ℕ} :
    R s (s.processReleaseTrigger o c k n e) := by
  rw [Keyboards.processReleaseTrigger]
  split
  · refine h.trans ?_ (h.releaseTrigger _ c k _)
    split
    · exact h.launchNewNote
    · exact h.trans (h.trans h.launchNewNote (h.noteID _ c k n _)) h.triggerReleaseVoices
  · exact h.refl s

theorem processRegions (h : LaunchClosed R) : R s (s.processRegions o c e) := by
  rw [Keyboards.processRegions]
  split
  · dsimp only
    split
    · exact h.launchNewNote
    · exact h.trans h.launchNewNote h.launchVoices
  · exact h.refl s

theorem stealVoice (h : LaunchClosed R) (ht : TheftClosed R) {l : Launch} :
    R s (s.launchVoice true c e l) := by
  cases l with
  | nothing => exact h.refl s
  | started flags => exact h.started
  | noFreeVoice stolen queued =>
    rw [Keyboards.launchVoice]
    split
    · exact ht s c e
    · exact h.refl s

theorem triggerNewVoices (h : LaunchClosed R) (ht : TheftClosed R) {ls : List Launch} :
    R s (s.triggerNewVoices ls c e) := by
  rw [Keyboards.triggerNewVoices]
  split
  · rename_i hnote
    clear hnote
    induction ls generalizing s with
    | nil => exact h.refl s
    | cons l ls ih => exact h.trans (h.stealVoice ht) ih
  · exact h.refl s

end LaunchClosed

/-! ## Observations -/

structure LaunchBlind (ν : Keyboards C → γ) : Prop where
  notes : ∀ s notes, ν { s with notes := notes } = ν s
  markKeyAsActive : ∀ s c k, ν (s.onChannel c (·.markKeyAsActive k)) = ν s
  releaseTrigger : ∀ s c k (g : MidiKey → ReleaseTrigger),
    ν (s.onChannel c (·.modifyKey k fun key => { key with releaseTrigger := g key })) = ν s
  noteID : ∀ s c k n id,
    ν (s.onChannel c (·.modifyKey k (·.modifyEvent n ({ · with noteID := id })))) = ν s

/-- The observation does not see thefts either. -/
def TheftBlind (ν : Keyboards C → γ) : Prop :=
  ∀ (s : Keyboards C) (c : C) (e : KeyEvent),
    ν ({ s with voiceStealingQueue := s.voiceStealingQueue ++ [StolenVoice.mk c e] }.onChannel c
      (·.modifyKey e.key fun key => { key with voiceTheftsQueued := key.voiceTheftsQueued + 1 })) =
        ν s

namespace LaunchBlind

/-- To have the same observation is a closed relation. -/
theorem closed (h : LaunchBlind ν) : LaunchClosed fun s s' => ν s' = ν s where
  refl _ := rfl
  trans h h' := h'.trans h
  notes := h.notes
  markKeyAsActive := h.markKeyAsActive
  releaseTrigger := h.releaseTrigger
  noteID := h.noteID

theorem launchNewNote (h : LaunchBlind ν) : ν (s.launchNewNote pools c e).1 = ν s :=
  h.closed.launchNewNote

theorem launchVoice (h : LaunchBlind ν) {l : Launch} : ν (s.launchVoice false c e l) = ν s :=
  h.closed.launchVoice

theorem processReleaseTrigger (h : LaunchBlind ν) {n : ℕ} :
    ν (s.processReleaseTrigger o c k n e) = ν s :=
  h.closed.processReleaseTrigger

theorem processRegions (h : LaunchBlind ν) : ν (s.processRegions o c e) = ν s :=
  h.closed.processRegions

theorem triggerNewVoices (h : LaunchBlind ν) (ht : TheftBlind ν) {ls : List Launch} :
    ν (s.triggerNewVoices ls c e) = ν s :=
  h.closed.triggerNewVoices ht

end LaunchBlind

theorem TheftBlind.of_channel {β : Type*} {π : KeyboardChannel → β}
    (h : ∀ ch k, π (KeyboardChannel.modifyKey ch k
      fun key => { key with voiceTheftsQueued := key.voiceTheftsQueued + 1 }) = π ch) :
    TheftBlind fun (s : Keyboards C) c => π (s.channel c) :=
  fun _ _ e => funext fun _ => onChannel_same π (h _ e.key)

end Keyboards

/-! ## Observations of keys -/

namespace KeyboardChannel

variable {α β : Type*} {σ : MidiKey → α} {π : KeyboardChannel → β} {ch : KeyboardChannel} {k : Key}
  {e : KeyEvent} {f : MidiKey → MidiKey} {alloc : Bool}

/-- `π` sees nothing of the keys but `σ`, and nothing of what controllers set. -/
structure EventBlind (σ : MidiKey → α) (π : KeyboardChannel → β) : Prop where
  key : ∀ (key : MidiKey) active releaseTrigger events past, σ { key with
    active := active, releaseTrigger := releaseTrigger, events := events, past := past } = σ key
  keys : ∀ (ch : KeyboardChannel) ks activeKeys, (∀ k, σ (ks k) = σ (ch.keys k)) →
    π { ch with keys := ks, activeKeys := activeKeys } = π ch
  control : ∀ (ch : KeyboardChannel) sustain sostenuto keys transpose rpn nrpn, π { ch with
    sustainPedal := sustain, sostenutoPedal := sostenuto, sostenutoKeys := keys,
    globalTranspose := transpose, rpn := rpn, nrpn := nrpn } = π ch

namespace EventBlind

theorem modifyKey (h : EventBlind σ π) (hf : σ (f (ch.keys k)) = σ (ch.keys k)) :
    π (ch.modifyKey k f) = π ch :=
  h.keys ch _ ch.activeKeys fun _ => modifyKey_same σ hf

theorem append (h : EventBlind σ π) : π (ch.append k e) = π ch := h.modifyKey (h.key ..)

theorem markKeyAsActive (h : EventBlind σ π) : π (ch.markKeyAsActive k) = π ch := by
  rw [KeyboardChannel.markKeyAsActive]
  split
  · rfl
  · exact h.keys ch _ _ fun _ => modifyKey_same σ (h.key ..)

theorem resetParameters (h : EventBlind σ π) {isRpn isNrpn : Bool} :
    π (ch.resetParameters isRpn isNrpn) = π ch :=
  resetParameters_field π fun ch rpn nrpn => h.control ch ch.sustainPedal ch.sostenutoPedal
    ch.sostenutoKeys ch.globalTranspose rpn nrpn

theorem appendCopies (h : EventBlind σ π) {keys : List Key} {alloc : Key → Bool}
    {test : MidiKey → Bool} : π (ch.appendCopies keys alloc test e) = π ch :=
  appendCopies_same π fun _ _ => h.append

theorem cancelRelease (h : EventBlind σ π) : π (ch.cancelRelease alloc e) = π ch := by
  rw [KeyboardChannel.cancelRelease]
  split
  · exact h.append
  · rfl

theorem freeAllInactiveKeys (h : EventBlind σ π) {hasNotes : Key → Bool} :
    π (ch.freeAllInactiveKeys hasNotes) = π ch := by
  rw [KeyboardChannel.freeAllInactiveKeys]
  generalize ch.activeKeys = keys
  induction keys generalizing ch with
  | nil => rfl
  | cons k keys ih =>
    rw [List.foldl_cons, ih]
    split
    · rfl
    · exact h.keys ch _ _ fun _ => modifyKey_same σ (h.key ..)

/-- The events of the channel are gone afterwards. -/
theorem clearEventLists (h : EventBlind σ π) :
    π ch.clearEventListsOfCurrentFragment = π { ch with events := [] } := by
  refine h.keys { ch with events := [] } _ ch.activeKeys fun k => ?_
  split
  · exact h.key ..
  · rfl

end EventBlind

end KeyboardChannel

namespace Keyboards

open KeyboardChannel (EventBlind)

variable {C α β γ : Type*} [DecidableEq C] {σ : MidiKey → α} {π : KeyboardChannel → β}
  {ν : Keyboards C → γ} {s : Keyboards C} {c : C} {k : Key} {e : KeyEvent} {o : KeyOutcome C}
  {pools : NotePools} {n : ℕ}

/-- `ν` sees the channels by `π`, and no notes. -/
structure HandlerBlind (σ : MidiKey → α) (π : KeyboardChannel → β) (ν : Keyboards C → γ) : Prop
    extends EventBlind σ π where
  notes : ∀ s notes, ν { s with notes := notes } = ν s
  onChannel : ∀ {s : Keyboards C} {c : C} {f : KeyboardChannel → KeyboardChannel},
    π (f (s.channel c)) = π (s.channel c) → ν (s.onChannel c f) = ν s

namespace HandlerBlind

theorem of_channel (h : EventBlind σ π) :
    HandlerBlind σ π fun (s : Keyboards C) c => π (s.channel c) where
  toEventBlind := h
  notes _ _ := rfl
  onChannel hf := funext fun _ => onChannel_same π hf

theorem launchBlind (h : HandlerBlind σ π ν) : LaunchBlind ν where
  notes := h.notes
  markKeyAsActive _ _ _ := h.onChannel h.toEventBlind.markKeyAsActive
  releaseTrigger _ _ _ _ := h.onChannel (h.modifyKey (h.key ..))
  noteID _ _ _ _ _ := h.onChannel (h.modifyKey (h.key ..))

theorem append (h : HandlerBlind σ π ν) : ν (s.onChannel c (·.append k e)) = ν s :=
  h.onChannel h.toEventBlind.append

theorem modifyEvent (h : HandlerBlind σ π ν) {g : KeyEvent → KeyEvent} :
    ν (s.onChannel c (·.modifyKey k (·.modifyEvent n g))) = ν s :=
  h.onChannel (h.modifyKey (h.key ..))

theorem freeEvent (h : HandlerBlind σ π ν) :
    ν (s.onChannel c (·.modifyKey k (·.freeEvent n))) = ν s :=
  h.onChannel (h.modifyKey (h.key ..))

theorem freeUnused (h : HandlerBlind σ π ν) : ν (s.freeUnused c k n) = ν s := by
  refine h.onChannel (h.modifyKey ?_)
  split
  · exact h.key ..
  · rfl

/-! ### Note events -/

theorem releaseKey (h : HandlerBlind σ π ν) : ν (s.releaseKey o c n e) = ν s := by
  rw [Keyboards.releaseKey]
  split
  · rw [h.launchBlind.processReleaseTrigger, h.modifyEvent]
  · exact h.modifyEvent

theorem processStopNote (h : HandlerBlind σ π ν) : ν (s.processStopNote c e) = ν s := by
  rw [Keyboards.processStopNote]
  split
  · rw [h.freeUnused, h.modifyEvent, h.append]
  · rw [h.freeEvent, h.append]

theorem moveToNoteKey (h : HandlerBlind σ π ν) : ν (s.moveToNoteKey c e) = ν s := by
  rw [Keyboards.moveToNoteKey]
  split
  · exact h.append
  · rfl

/-! ### Parameters -/

theorem rpn (h : HandlerBlind σ π ν) {g : ParamNumber → ParamNumber} :
    ν (s.onChannel c fun ch => { ch with rpn := g ch.rpn }) = ν s :=
  h.onChannel (h.control (s.channel c) _ _ _ _ _ _)

theorem nrpn (h : HandlerBlind σ π ν) {g : ParamNumber → ParamNumber} :
    ν (s.onChannel c fun ch => { ch with nrpn := g ch.nrpn }) = ν s :=
  h.onChannel (h.control (s.channel c) _ _ _ _ _ _)

theorem resetParameters (h : HandlerBlind σ π ν) {isRpn isNrpn : Bool} :
    ν (s.onChannel c (·.resetParameters isRpn isNrpn)) = ν s :=
  h.onChannel h.toEventBlind.resetParameters

theorem processHardcodedRpn (h : HandlerBlind σ π ν) : ν (s.processHardcodedRpn o c e) = ν s := by
  rw [Keyboards.processHardcodedRpn]
  split
  · exact h.onChannel (h.appendCopies.trans (h.control (s.channel c) _ _ _ _ _ _))
  · split
    · exact h.rpn (g := fun _ => .init)
    · rfl

theorem processHardcodedNrpn (h : HandlerBlind σ π ν) : ν (s.processHardcodedNrpn c e) = ν s := by
  rw [Keyboards.processHardcodedNrpn]
  split
  · exact h.nrpn (g := fun _ => .init)
  · rfl

/-- The calls of the script are left to the observation. -/
theorem enterData (h : HandlerBlind σ π ν) {set : ParamNumber → ParamNumber} {skip : Bool}
    (hscript : ∀ s, ν (o.script.foldl callScript s) = ν s) :
    ν (s.enterData set skip o c e) = ν s := by
  have hrpn : ν (s.enterRpn set skip o c e) = ν s := by
    rw [enterRpn]
    split
    · exact h.rpn
    · split
      · exact (hscript _).trans h.rpn
      · exact h.processHardcodedRpn.trans ((hscript _).trans h.rpn)
  have hnrpn : ν (s.enterNrpn set skip o c e) = ν s := by
    rw [enterNrpn]
    split
    · exact h.nrpn
    · split
      · exact (hscript _).trans h.nrpn
      · exact h.processHardcodedNrpn.trans ((hscript _).trans h.nrpn)
  rw [Keyboards.enterData]
  split
  · rw [h.resetParameters, hrpn]
  · split
    · rw [h.resetParameters, hnrpn]
    · exact h.resetParameters

/-! ### Pedals -/

theorem sustainPedal (h : HandlerBlind σ π ν) {down : Bool} :
    ν (s.onChannel c ({ · with sustainPedal := down })) = ν s :=
  h.onChannel (h.control (s.channel c) _ _ _ _ _ _)

theorem sostenutoPedal (h : HandlerBlind σ π ν) {down : Bool} :
    ν (s.onChannel c ({ · with sostenutoPedal := down })) = ν s :=
  h.onChannel (h.control (s.channel c) _ _ _ _ _ _)

theorem releaseBySustain (h : HandlerBlind σ π ν) : ν (s.releaseBySustain o c e k) = ν s := by
  rw [Keyboards.releaseBySustain]
  split
  · dsimp only
    split
    · rw [h.launchBlind.processReleaseTrigger, h.append]
    · exact h.append
  · rfl

theorem processSustainPedalUp (h : HandlerBlind σ π ν) :
    ν (s.processSustainPedalUp o c e) = ν s := by
  rw [Keyboards.processSustainPedalUp]
  generalize (s.channel c).activeKeys = keys
  induction keys generalizing s with
  | nil => rfl
  | cons k keys ih => rw [List.foldl_cons, ih, h.releaseBySustain]

theorem processSustain (h : HandlerBlind σ π ν) : ν (s.processSustain o c e) = ν s := by
  rw [Keyboards.processSustain]
  split
  · dsimp only
    split
    · exact h.sustainPedal
    · refine (h.onChannel ?_).trans h.sustainPedal
      exact h.toEventBlind.resetParameters.trans h.appendCopies
  · split
    · dsimp only
      split
      · exact h.sustainPedal
      · exact h.resetParameters.trans (h.processSustainPedalUp.trans h.sustainPedal)
    · exact h.resetParameters

theorem processSostenuto (h : HandlerBlind σ π ν) : ν (s.processSostenuto o c e) = ν s := by
  rw [Keyboards.processSostenuto]
  split
  · dsimp only
    split
    · exact h.sostenutoPedal
    · refine (h.onChannel ?_).trans h.sostenutoPedal
      exact h.toEventBlind.resetParameters.trans (h.control _ _ _ _ _ _ _)
  · split
    · dsimp only
      split
      · exact h.sostenutoPedal
      · refine (h.onChannel ?_).trans h.sostenutoPedal
        exact h.toEventBlind.resetParameters.trans h.appendCopies
    · exact h.resetParameters

/-- Solo mode is switched by controllers too. -/
theorem processHardcodedControllers (h : HandlerBlind σ π ν)
    (hscript : ∀ s, ν (o.script.foldl callScript s) = ν s)
    (hsolo : ∀ (ch : KeyboardChannel) mode, π { ch with soloMode := mode } = π ch) :
    ν (s.processHardcodedControllers o c e) = ν s := by
  have hsame : ∀ {f : KeyboardChannel → KeyboardChannel} {isRpn isNrpn : Bool},
      π (f (s.channel c)) = π (s.channel c) →
      ν (s.onChannel c fun ch => (f ch).resetParameters isRpn isNrpn) = ν s :=
    fun hf => h.onChannel (h.toEventBlind.resetParameters.trans hf)
  rw [Keyboards.processHardcodedControllers]
  split
  case h_1 | h_2 | h_5 | h_6 => exact h.enterData hscript
  case h_3 => exact h.processSustain
  case h_4 => exact h.processSostenuto
  case h_12 => exact hsame h.appendCopies
  case h_13 | h_14 => exact hsame (hsolo _ _)
  case h_15 => exact h.resetParameters
  all_goals exact hsame (h.control _ _ _ _ _ _ _)

/-! ### Fragments -/

/-- Events that wait are not seen. -/
theorem importEvent (h : HandlerBlind σ π ν) {alloc : Bool} {note : ℕ}
    (hevents : ∀ (ch : KeyboardChannel) es, π { ch with events := es } = π ch) :
    ν (s.importEvent alloc pools c note e) = ν s := by
  rw [Keyboards.importEvent]
  split
  · split
    · rfl
    · split
      · dsimp only
        split
        · exact h.launchBlind.launchNewNote
        · exact (h.onChannel (hevents _ _)).trans h.launchBlind.launchNewNote
      · exact h.onChannel (hevents _ _)
  · rfl

/-- Thefts are not seen. -/
theorem renderStolenVoices (h : HandlerBlind σ π ν) {answer : ℕ → Launch}
    (hthefts : ∀ (key : MidiKey) n, σ { key with voiceTheftsQueued := n } = σ key) :
    ν (s.renderStolenVoices answer) = ν s := by
  have hfinish : ∀ {s : Keyboards C} {v : StolenVoice C}, ν (s.finishTheft v) = ν s := by
    intro s v
    refine h.onChannel (h.modifyKey ?_)
    generalize (s.channel v.channel).keys v.event.key = key
    rw [MidiKey.finishTheft]
    dsimp only
    split
    · exact (h.key { key with voiceTheftsQueued := key.voiceTheftsQueued - 1 } key.active
        key.releaseTrigger [] key.past).trans (hthefts key _)
    · exact hthefts key _
  have hvoice : ∀ {s : Keyboards C} {v : StolenVoice C} {answer : Launch},
      ν (s.renderStolenVoice answer v) = ν s := by
    intro s v answer
    unfold renderStolenVoice
    split
    · rfl
    · split
      · split
        · exact hfinish.trans h.launchBlind.launchVoice
        · exact hfinish
      · exact hfinish
  rw [Keyboards.renderStolenVoices]
  generalize s.voiceStealingQueue.zipIdx = q
  induction q generalizing s with
  | nil => rfl
  | cons v q ih => rw [List.foldl_cons, ih, hvoice]

end HandlerBlind

end Keyboards

end LinuxSampler
