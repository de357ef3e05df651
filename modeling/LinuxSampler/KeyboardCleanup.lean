import LinuxSampler.KeyboardTidy

/-!
# Cleanup at the end of a fragment

With the controllers, the scripts and the rendering of stolen voices the lists
of the idle keys stay empty, if an event that goes to a key without a check
reaches none that is idle. Then `FreeAllInactiveKeys()` and
`ClearEventListsOfCurrentFragment()` leave all lists empty.
-/

namespace LinuxSampler

namespace Keyboards

variable {C : Type*} [DecidableEq C] {s s' : Keyboards C} {c : C} {k : Key} {e : KeyEvent}
  {o : KeyOutcome C} {pools : NotePools} {left : C → Key → ℕ} {q : List (StolenVoice C)}
  {v : StolenVoice C} {answer : Launch}

/-- No idle key has an event. -/
def noneLeft : C → Key → ℕ := fun _ _ => 0

/-! ## Copies -/

theorem idle_append {k' : Key} (h : (s.onChannel c (·.append k' e)).Idle c k) : s.Idle c k := by
  rwa [Idle, key_onChannel_self, KeyboardChannel.append_active, KeyboardChannel.append_thefts] at h

/-- Copies that only go to keys which are not idle. -/
theorem keeps_appendCopies {keys : List Key} {alloc : Key → Bool} {test : MidiKey → Bool}
    (htest : ∀ key key' : MidiKey, key.keyPressed = key'.keyPressed → test key = test key')
    (h : ∀ k ∈ keys, test (s.key c k) = true → alloc k = true → ¬ s.Idle c k) :
    Keeps left left s (s.onChannel c (·.appendCopies keys alloc test e)) := by
  induction keys generalizing s with
  | nil => exact keeps_onChannel rfl
  | cons k keys ih =>
    by_cases hcopy : test (s.key c k) = true ∧ alloc k = true
    · have hbusy := h k List.mem_cons_self hcopy.1 hcopy.2
      have hrest : ∀ k' ∈ keys, test ((s.onChannel c (·.append k e)).key c k') = true →
          alloc k' = true → ¬ (s.onChannel c (·.append k e)).Idle c k' := by
        intro k' hk' hpass halloc hidle
        refine h k' (List.mem_cons_of_mem _ hk') ?_ halloc (idle_append hidle)
        rw [← hpass, key_onChannel_self]
        exact htest _ _ KeyboardChannel.append_keyPressed.symm
      have hboth := (keeps_append_busy (e := e) hbusy).trans (ih hrest)
      rw [onChannel_onChannel] at hboth
      refine hboth.of_shape ?_
      have hcond : (test ((s.channel c).keys k) && alloc k) = true := by
        rw [Bool.and_eq_true]
        exact hcopy
      rw [KeyboardChannel.appendCopies, List.foldl_cons, if_pos hcond, KeyboardChannel.appendCopies]
    · refine (ih fun k' hk' => h k' (List.mem_cons_of_mem _ hk')).of_shape ?_
      have hcond : ¬ (test ((s.channel c).keys k) && alloc k) = true := by
        rw [Bool.and_eq_true]
        exact hcopy
      rw [KeyboardChannel.appendCopies, List.foldl_cons, if_neg hcond, KeyboardChannel.appendCopies]

omit [DecidableEq C] in
theorem Tidy.not_idle (h : s.Tidy left) (hk : k ∈ (s.channel c).activeKeys) : ¬ s.Idle c k := by
  rintro ⟨hinactive, -⟩
  rw [(h.listed c k).mp hk] at hinactive
  cases hinactive

theorem keeps_releaseAllVoices {alloc : Key → Bool} :
    Keeps left left s (s.onChannel c (·.releaseAllVoices alloc e)) := fun htidy =>
  keeps_appendCopies (fun _ _ _ => rfl) (fun _ hk _ _ => htidy.not_idle hk) htidy

theorem keeps_processSustainPedalDown {alloc : Key → Bool} :
    Keeps left left s (s.onChannel c (·.processSustainPedalDown alloc e)) := fun htidy =>
  keeps_appendCopies (fun _ _ h => by rw [h]) (fun _ hk _ _ => htidy.not_idle hk) htidy

theorem keeps_releaseBySustain (h : ¬ s.Idle c k) :
    Keeps left left s (s.releaseBySustain o c e k) := by
  rw [releaseBySustain]
  split
  · dsimp only
    split
    · exact (keeps_append_busy h).trans closed_keeps.processReleaseTrigger
    · exact keeps_append_busy h
  · exact .refl

theorem keeps_processSustainPedalUp : Keeps left left s (s.processSustainPedalUp o c e) := by
  intro htidy
  rw [processSustainPedalUp]
  have hbusy : ∀ k ∈ (s.channel c).activeKeys, ¬ s.Idle c k := fun _ hk => htidy.not_idle hk
  generalize (s.channel c).activeKeys = keys at hbusy
  induction keys generalizing s with
  | nil => exact ⟨htidy, fun _ _ => id⟩
  | cons k keys ih =>
    rw [List.foldl_cons]
    rcases keeps_releaseBySustain (o := o) (e := e) (hbusy k List.mem_cons_self) htidy with
      ⟨htidy', hidle⟩
    rcases ih htidy' fun k' hk' hk'' =>
      hbusy k' (List.mem_cons_of_mem _ hk') (hidle c k' hk'') with ⟨htidy'', hidle'⟩
    exact ⟨htidy'', fun c' k' hk' => hidle c' k' (hidle' c' k' hk')⟩

/-! ## Controllers -/

/-- The event reaches no idle key unchecked: a `kill_note` or `note_synth_param` event
by the host key of its note, the release of the sostenuto pedal by a key that was
captured. -/
def ReachesBusyKeys (s : Keyboards C) (alloc : Key → Bool) (c : C) (e : KeyEvent) : Prop :=
  (e.type = .kill_note ∨ e.type = .note_synth_param →
    ∀ note ∈ s.noteByID e.noteID, ¬ s.Idle c note.hostKey) ∧
  (e.type = .control_change ∧ e.controller = 66 ∧ e.value < 64 ∧
      (s.channel c).sostenutoPedal = true ∧ (s.channel c).mute = false ∧
      (s.channel c).sustainPedal = false →
    ∀ k ∈ (s.channel c).sostenutoKeys, (s.key c k).keyPressed = false → alloc k = true →
      ¬ s.Idle c k)

instance {alloc : Key → Bool} : Decidable (s.ReachesBusyKeys alloc c e) :=
  inferInstanceAs (Decidable (_ ∧ _))

theorem keeps_resetParameters {isRpn isNrpn : Bool} :
    Keeps left left s (s.onChannel c (·.resetParameters isRpn isNrpn)) :=
  keeps_onChannel KeyboardChannel.resetParameters_shapeOf

/-- A change of the channel, and the reset of its parameters. -/
theorem Keeps.resetParameters {f : KeyboardChannel → KeyboardChannel} {isRpn isNrpn : Bool}
    (h : Keeps left left s (s.onChannel c f)) :
    Keeps left left s (s.onChannel c fun ch => (f ch).resetParameters isRpn isNrpn) :=
  h.of_shape KeyboardChannel.resetParameters_shapeOf

theorem keeps_processSustain : Keeps left left s (s.processSustain o c e) := by
  have hpedal : ∀ down, Keeps left left s (s.onChannel c ({ · with sustainPedal := down })) :=
    fun _ => keeps_onChannel rfl
  rw [processSustain]
  dsimp only
  split
  · split
    · exact hpedal true
    · exact (hpedal true).trans keeps_processSustainPedalDown.resetParameters
  · split
    · split
      · exact hpedal false
      · exact ((hpedal false).trans keeps_processSustainPedalUp).trans keeps_resetParameters
    · exact keeps_resetParameters

theorem keeps_processSostenuto (htype : e.type = .control_change) (hcc : e.controller = 66)
    (h : s.ReachesBusyKeys o.alloc c e) : Keeps left left s (s.processSostenuto o c e) := by
  have hpedal : ∀ down, Keeps left left s (s.onChannel c ({ · with sostenutoPedal := down })) :=
    fun _ => keeps_onChannel rfl
  rw [processSostenuto]
  dsimp only
  split
  · split
    · exact hpedal true
    · exact (hpedal true).trans (keeps_onChannel rfl).resetParameters
  · split
    · rename_i hup
      split
      · exact hpedal false
      · rename_i hmute
        refine (hpedal false).trans (keeps_appendCopies ?_ ?_).resetParameters
        · intro key key' hpressed
          rw [hpressed]
        · intro k hk htest halloc hidle
          rw [onChannel_self] at hk htest hmute
          simp only [Bool.and_eq_true, Bool.not_eq_true', key_onChannel_self] at htest
          refine h.2 ⟨htype, hcc, hup.1, hup.2, by simpa using hmute, htest.2⟩ k hk htest.1
            halloc ?_
          rwa [Idle, key_onChannel_self] at hidle
    · exact keeps_resetParameters

theorem keeps_processHardcodedRpn : Keeps left left s (s.processHardcodedRpn o c e) := by
  rw [processHardcodedRpn]
  split
  · have htranspose : ∀ t, Keeps left left s (s.onChannel c ({ · with globalTranspose := t })) :=
      fun _ => keeps_onChannel rfl
    have hrelease : ∀ s : Keyboards C,
        Keeps left left s (s.onChannel c (·.releaseAllVoices o.alloc e)) :=
      fun _ => keeps_releaseAllVoices
    have hboth := (htranspose (max (min (((e.value / 128 % 256 : ℕ) : ℤ) - 64) 24) (-24))).trans
      (hrelease _)
    rw [onChannel_onChannel] at hboth
    exact hboth
  · split
    · exact keeps_onChannel rfl
    · exact .refl

theorem keeps_processHardcodedNrpn : Keeps left left s (s.processHardcodedNrpn c e) := by
  rw [processHardcodedNrpn]
  split
  · exact keeps_onChannel rfl
  · exact .refl

theorem keeps_moveToNoteKey (h : ∀ note ∈ s.noteByID e.noteID, ¬ s.Idle c note.hostKey) :
    Keeps left left s (s.moveToNoteKey c e) := by
  rw [moveToNoteKey]
  split
  · rename_i note hnote
    exact keeps_append_busy (h note hnote)
  · exact .refl

theorem keeps_callScript {call : ScriptCall C} :
    Keeps noneLeft noneLeft s (s.callScript call) := by
  have hfree : ∀ (s : Keyboards C) (event : EventPlace C),
      Keeps noneLeft noneLeft s (s.freeEventAt event) := by
    intro s event
    cases event with
    | pending c n =>
      rw [freeEventAt]
      exact keeps_onChannel rfl
    | stolen n => exact keeps_of_shape fun _ => rfl
    | key c k n =>
      refine keeps_modifyKey rfl le_rfl (fun _ hlength => ?_) fun _ _ _ => rfl
      rw [MidiKey.freeEvent, List.eq_nil_of_length_eq_zero hlength]
      rfl
  cases call with
  | ignoreEvent event => exact hfree s event
  | ignoreNote id event =>
    rw [callScript]
    split
    · have hnote : Keeps noneLeft noneLeft s { s with notes := s.notes.eraseP (·.id = id) } :=
        keeps_of_shape fun _ => rfl
      exact hnote.trans (hfree _ event)
    · exact .refl
  | scheduleNote c pools e => exact closed_keeps.launchNewNote

theorem keeps_script {calls : List (ScriptCall C)} :
    Keeps noneLeft noneLeft s (calls.foldl callScript s) := by
  induction calls generalizing s with
  | nil => exact .refl
  | cons call calls ih => exact keeps_callScript.trans ih

theorem keeps_enterData {set : ParamNumber → ParamNumber} {skip : Bool} :
    Keeps noneLeft noneLeft s (s.enterData set skip o c e) := by
  have hrpn : Keeps noneLeft noneLeft s (s.enterRpn set skip o c e) := by
    have hset : Keeps noneLeft noneLeft s (s.onChannel c fun ch => { ch with rpn := set ch.rpn }) :=
      keeps_onChannel rfl
    rw [enterRpn]
    split
    · exact hset
    · split
      · exact hset.trans keeps_script
      · exact (hset.trans keeps_script).trans keeps_processHardcodedRpn
  have hnrpn : Keeps noneLeft noneLeft s (s.enterNrpn set skip o c e) := by
    have hset : Keeps noneLeft noneLeft s
        (s.onChannel c fun ch => { ch with nrpn := set ch.nrpn }) := keeps_onChannel rfl
    rw [enterNrpn]
    split
    · exact hset
    · split
      · exact hset.trans keeps_script
      · exact (hset.trans keeps_script).trans keeps_processHardcodedNrpn
  rw [enterData]
  split
  · exact hrpn.trans keeps_resetParameters
  · split
    · exact hnrpn.trans keeps_resetParameters
    · exact keeps_resetParameters

theorem keeps_processHardcodedControllers (htype : e.type = .control_change)
    (h : s.ReachesBusyKeys o.alloc c e) :
    Keeps noneLeft noneLeft s (s.processHardcodedControllers o c e) := by
  rw [processHardcodedControllers]
  split
  case h_1 => exact keeps_enterData
  case h_2 => exact keeps_enterData
  case h_3 => exact keeps_processSustain
  case h_4 hcc => exact keeps_processSostenuto htype hcc h
  case h_5 => exact keeps_enterData
  case h_6 => exact keeps_enterData
  case h_12 => exact keeps_releaseAllVoices.resetParameters
  all_goals exact (keeps_onChannel rfl).resetParameters

theorem keeps_processEvent (h : ∀ e ∈ (s.channel c).events.head?, s.ReachesBusyKeys o.alloc c e) :
    Keeps noneLeft noneLeft s (s.processEvent o c) := by
  rw [processEvent]
  split
  · exact .refl
  · rename_i e rest hevents
    have hpop : Keeps noneLeft noneLeft s (s.onChannel c ({ · with events := rest })) :=
      keeps_onChannel rfl
    have hreach : (s.onChannel c ({ · with events := rest })).ReachesBusyKeys o.alloc c e := by
      have hreach := h e (by rw [hevents]; rfl)
      simp only [ReachesBusyKeys, onChannel_self, onChannel_noteByID, Idle, key_onChannel_self]
      exact hreach
    refine hpop.trans ?_
    generalize s.onChannel c ({ · with events := rest }) = s₁ at hreach ⊢
    dsimp only
    split
    case h_1 => exact keeps_processNoteOn.trans keeps_resetParameters
    case h_2 => exact keeps_processNoteOn.trans keeps_resetParameters
    case h_3 => exact keeps_processNoteOff.trans keeps_resetParameters
    case h_4 => exact keeps_processNoteOff.trans keeps_resetParameters
    case h_5 htype =>
      exact (keeps_moveToNoteKey (hreach.1 (.inl htype))).trans keeps_resetParameters
    case h_6 htype =>
      exact (keeps_moveToNoteKey (hreach.1 (.inr htype))).trans keeps_resetParameters
    case h_7 htype => exact keeps_processHardcodedControllers htype hreach
    case h_8 => exact keeps_processHardcodedRpn
    case h_9 => exact keeps_processHardcodedNrpn
    case h_10 => exact keeps_resetParameters

/-! ## Stolen voices -/

theorem Tidy.finishTheft (h : s.Tidy noneLeft)
    (hpos : 0 < (s.key v.channel v.event.key).voiceTheftsQueued) :
    (s.finishTheft v).Tidy noneLeft := by
  have hself : (s.finishTheft v).key v.channel v.event.key =
      (s.key v.channel v.event.key).finishTheft := by
    rw [Keyboards.finishTheft, key_onChannel_self, KeyboardChannel.modifyKey_self, key]
  have hne : ∀ c k, ¬ (c = v.channel ∧ k = v.event.key) → (s.finishTheft v).key c k = s.key c k := by
    intro c k hck
    by_cases hc : c = v.channel
    · rcases hc with rfl
      rw [Keyboards.finishTheft, key_onChannel_self,
        KeyboardChannel.modifyKey_of_ne fun hk => hck ⟨rfl, hk⟩, key]
    · exact key_onChannel_of_ne hc
  have hactive : ∀ c k, ((s.finishTheft v).key c k).active = (s.key c k).active := by
    intro c k
    by_cases hck : c = v.channel ∧ k = v.event.key
    · rcases hck with ⟨rfl, rfl⟩
      rw [hself, MidiKey.finishTheft_active]
    · rw [hne c k hck]
  have hkeys : ∀ c, ((s.finishTheft v).channel c).activeKeys = (s.channel c).activeKeys :=
    fun _ => onChannel_same KeyboardChannel.activeKeys rfl
  refine ⟨fun c k hidle => ?_, fun c k => ?_, fun c => ?_, fun c k => ?_⟩
  · by_cases hck : c = v.channel ∧ k = v.event.key
    · rcases hck with ⟨rfl, rfl⟩
      rcases hidle with ⟨hinactive, hzero⟩
      rw [hself, MidiKey.finishTheft_active] at hinactive
      rw [hself, MidiKey.finishTheft_thefts] at hzero
      rw [hself, MidiKey.finishTheft_events hinactive hzero]
      rfl
    · rw [Idle, hne c k hck] at hidle
      rw [hne c k hck]
      exact h.idle c k hidle
  · rw [hkeys, hactive]
    exact h.listed c k
  · rw [hkeys]
    exact h.nodup c
  · by_cases hck : c = v.channel ∧ k = v.event.key
    · rcases hck with ⟨rfl, rfl⟩
      rw [hself, MidiKey.finishTheft_thefts]
      omega
    · rw [hne c k hck]
      exact h.nonneg c k

theorem CountedBy.pos (h : s.CountedBy (v :: q)) :
    0 < (s.key v.channel v.event.key).voiceTheftsQueued := by
  have hcount := h.thefts v.channel v.event.key
  have hv : v.isFor v.channel v.event.key = true := by simp [StolenVoice.isFor]
  rw [List.countP_cons, hv, if_pos rfl] at hcount
  omega

theorem Tidy.renderStolenVoice (h : s.Tidy noneLeft) (hcount : s.CountedBy (v :: q)) :
    (s.renderStolenVoice answer v).Tidy noneLeft := by
  unfold Keyboards.renderStolenVoice
  split
  · exact h
  · split
    · rename_i flags
      split
      · have hcount' : (s.launchVoice false v.channel v.event (.started flags)).CountedBy (v :: q) :=
          hcount.congr blind_theftsOf.launchVoice
        have htidy := (closed_keeps.launchVoice h : (s.launchVoice false v.channel v.event
          (.started flags)).Tidy noneLeft ∧ _).1
        exact htidy.finishTheft hcount'.pos
      · exact h.finishTheft hcount.pos
    · exact h.finishTheft hcount.pos

theorem Tidy.renderStolenVoices {answer : ℕ → Launch} {n : ℕ}
    (h : s.Tidy noneLeft) (hcount : s.CountedBy q) :
    ((q.zipIdx n).foldl (fun s v => s.renderStolenVoice (answer v.2) v.1) s).Tidy noneLeft := by
  induction q generalizing s n with
  | nil => exact h
  | cons v q ih =>
    rw [List.zipIdx_cons, List.foldl_cons]
    exact ih (h.renderStolenVoice hcount) hcount.renderStolenVoice

end Keyboards

/-! ## Cleanup -/

namespace KeyboardChannel

variable {ch : KeyboardChannel} {k : Key}

/-- The inactive keys have no events. -/
structure Settled (ch : KeyboardChannel) : Prop where
  listed : ∀ k, k ∈ ch.activeKeys ↔ (ch.keys k).active = true
  nodup : ch.activeKeys.Nodup
  inactive : ∀ k, (ch.keys k).active = false → (ch.keys k).events = []

theorem freeKey_self : ((ch.freeKey k).keys k) =
    { ch.keys k with active := false, releaseTrigger := .none, events := [], past := [] } :=
  Function.update_self ..

theorem freeKey_of_ne {k' : Key} (h : k' ≠ k) : (ch.freeKey k).keys k' = ch.keys k' :=
  Function.update_of_ne h ..

theorem Settled.freeKey (h : ch.Settled) : (ch.freeKey k).Settled := by
  have hkeys : (ch.freeKey k).activeKeys = ch.activeKeys.erase k := rfl
  refine ⟨fun k' => ?_, ?_, fun k' hk' => ?_⟩
  · rw [hkeys, h.nodup.mem_erase_iff, h.listed]
    by_cases hkk : k' = k
    · rcases hkk with rfl
      simp [freeKey_self]
    · rw [freeKey_of_ne hkk]
      simp [hkk]
  · rw [hkeys]
    exact h.nodup.erase k
  · by_cases hkk : k' = k
    · rcases hkk with rfl
      rw [freeKey_self]
    · rw [freeKey_of_ne hkk] at hk' ⊢
      exact h.inactive k' hk'

theorem Settled.freeAllInactiveKeys {hasNotes : Key → Bool} (h : ch.Settled) :
    (ch.freeAllInactiveKeys hasNotes).Settled := by
  rw [KeyboardChannel.freeAllInactiveKeys]
  generalize ch.activeKeys = keys
  induction keys generalizing ch with
  | nil => exact h
  | cons k keys ih =>
    rw [List.foldl_cons]
    split
    · exact ih h
    · exact ih h.freeKey

/-- All lists are empty: those of the active keys are cleared. -/
theorem Settled.clearEventLists (h : ch.Settled) :
    ch.clearEventListsOfCurrentFragment.Settled ∧
      ∀ k, (ch.clearEventListsOfCurrentFragment.keys k).events = [] := by
  have hactive : ∀ k, (ch.clearEventListsOfCurrentFragment.keys k).active = (ch.keys k).active := by
    intro k
    rw [clearEventListsOfCurrentFragment]
    dsimp only
    split
    · rfl
    · rfl
  have hempty : ∀ k, (ch.clearEventListsOfCurrentFragment.keys k).events = [] := by
    intro k
    rw [clearEventListsOfCurrentFragment]
    dsimp only
    split
    · rfl
    · rename_i hk
      rw [h.listed, Bool.not_eq_true] at hk
      exact h.inactive k hk
  refine ⟨⟨fun k => ?_, h.nodup, fun k _ => hempty k⟩, hempty⟩
  rw [hactive]
  exact h.listed k

end KeyboardChannel

namespace Keyboards

variable {C : Type*} [DecidableEq C] {s s' : Keyboards C} {c : C} {k : Key}

/-- Without queued thefts only active keys have events. -/
theorem Tidy.settled (h : s.Tidy noneLeft) (hcount : s.CountedBy []) (c : C) :
    (s.channel c).Settled := by
  refine ⟨h.listed c, h.nodup c, fun k hk => ?_⟩
  exact List.eq_nil_of_length_eq_zero (h.idle c k ⟨hk, hcount.thefts c k⟩)

theorem endFragment_settled {answer : ℕ → Launch} {silent : ℕ → Bool}
    (h : s.Tidy noneLeft) (hcount : s.Accounted) (c : C) :
    ((s.endFragment answer silent).channel c).Settled ∧
      ∀ k, ((s.endFragment answer silent).key c k).events = [] := by
  have htidy : (s.renderStolenVoices answer).Tidy noneLeft :=
    Tidy.renderStolenVoices h hcount
  have hcounted : (s.renderStolenVoices answer).CountedBy [] :=
    CountedBy.renderStolenVoices hcount
  exact (htidy.settled hcounted c).freeAllInactiveKeys.clearEventLists

theorem Tidy.endFragment {answer : ℕ → Launch} {silent : ℕ → Bool}
    (h : s.Tidy noneLeft) (hcount : s.Accounted) :
    (s.endFragment answer silent).Tidy noneLeft := by
  have hsettled : ∀ c, ((s.endFragment answer silent).channel c).Settled ∧
      ∀ k, ((s.endFragment answer silent).key c k).events = [] :=
    endFragment_settled h hcount
  refine ⟨fun c k _ => ?_, fun c => (hsettled c).1.listed, fun c => (hsettled c).1.nodup,
    fun c k => ?_⟩
  · rw [(hsettled c).2 k]
    rfl
  · have hcounted : (s.endFragment answer silent).Accounted := hcount.endFragment
    rw [hcounted.thefts c k]
    exact Int.natCast_nonneg _

/-! ## Runs -/

omit [DecidableEq C] in
theorem Tidy.init : (init : Keyboards C).Tidy noneLeft := by
  refine ⟨fun _ _ _ => rfl, fun c k => ?_, fun _ => List.nodup_nil, fun _ _ => le_rfl⟩
  simp [Keyboards.init, KeyboardChannel.init, key, MidiKey.init]

omit [DecidableEq C] in
/-- A channel is as before, or all its keys are reset. -/
theorem Tidy.reset (h : s.Tidy noneLeft)
    (hreset : ∀ c, s'.channel c = s.channel c ∨ s'.channel c = (s.channel c).reset) :
    s'.Tidy noneLeft := by
  refine ⟨fun c k hk => ?_, fun c k => ?_, fun c => ?_, fun c k => ?_⟩
  · rw [Idle, key] at hk
    rw [key]
    rcases hreset c with hc | hc
    · rw [hc] at hk ⊢
      exact h.idle c k hk
    · rw [hc]
      rfl
  · rw [key]
    rcases hreset c with hc | hc
    · rw [hc]
      exact h.listed c k
    · rw [hc]
      simp [KeyboardChannel.reset, MidiKey.init]
  · rcases hreset c with hc | hc
    · rw [hc]
      exact h.nodup c
    · rw [hc]
      exact List.nodup_nil
  · rw [key]
    rcases hreset c with hc | hc
    · rw [hc]
      exact h.nonneg c k
    · rw [hc]
      exact le_rfl

/-- All thefts are finished, and no event reaches an idle key unchecked. -/
def ListsKept (s : Keyboards C) (a : KeyAction C) : Prop :=
  s.TheftsFinished a ∧
    match a with
    | .processEvent o c => ∀ e ∈ (s.channel c).events.head?, s.ReachesBusyKeys o.alloc c e
    | _ => True

instance (s : Keyboards C) : ∀ a : KeyAction C, Decidable (s.ListsKept a)
  | .processEvent o c => inferInstanceAs (Decidable
      (_ ∧ ∀ e ∈ (s.channel c).events.head?, s.ReachesBusyKeys o.alloc c e))
  | .callScript _ | .endFragment _ _ | .startFragment | .importEvent _ _ _ _ _
  | .insertDelayed _ _ _ | .processCtrlTrigger _ _ _ | .processRegions _ _ _ | .resetInternal _
  | .resetEngine | .resetControllers _ | .setInstrument _ _ | .setMute _ _ =>
      inferInstanceAs (Decidable (_ ∧ True))

theorem Tidy.step {a : KeyAction C} (h : s.Tidy noneLeft) (hcount : s.Accounted)
    (hok : s.ListsKept a) : (s.step a).Tidy noneLeft := by
  rcases hok with ⟨hfinished, hreach⟩
  cases a with
  | startFragment => exact ⟨h.idle, h.listed, h.nodup, h.nonneg⟩
  | importEvent alloc pools c note e =>
    refine (?_ : Keeps noneLeft noneLeft s _) h |>.1
    rw [Keyboards.step, importEvent]
    split
    · split
      · exact .refl
      · split
        · dsimp only
          split
          · exact closed_keeps.launchNewNote
          · exact closed_keeps.launchNewNote.trans (keeps_onChannel rfl)
        · exact keeps_onChannel rfl
    · exact .refl
  | callScript call => exact (keeps_callScript h).1
  | insertDelayed c n e =>
    exact (keeps_onChannel rfl h : (s.insertDelayed c n e).Tidy noneLeft ∧ _).1
  | processEvent o c => exact (keeps_processEvent hreach h).1
  | processCtrlTrigger o c e =>
    refine (?_ : Keeps noneLeft noneLeft s _) h |>.1
    rw [Keyboards.step, processCtrlTrigger]
    split
    · split
      · exact keeps_processNoteOn
      · exact keeps_processNoteOff
    · exact .refl
  | processRegions o c e => exact (closed_keeps.processRegions h).1
  | endFragment answer silent => exact h.endFragment hcount
  | resetInternal c =>
    refine h.reset fun c' => ?_
    by_cases hc : c' = c
    · rcases hc with rfl
      exact .inr onChannel_self
    · exact .inl (onChannel_of_ne hc)
  | resetEngine => exact h.reset fun _ => .inr rfl
  | resetControllers c =>
    exact (keeps_onChannel rfl h : (s.onChannel c (·.resetControllers)).Tidy noneLeft ∧ _).1
  | setInstrument c loaded =>
    exact (keeps_onChannel rfl h :
      (s.onChannel c ({ · with hasInstrument := loaded })).Tidy noneLeft ∧ _).1
  | setMute c mute =>
    exact (keeps_onChannel rfl h : (s.onChannel c ({ · with mute := mute })).Tidy noneLeft ∧ _).1

theorem ListsKept.invariant {as : List (KeyAction C)} (hrun : (system C).RunFrom ListsKept init as) :
    ((system C).exec init as).Tidy noneLeft ∧ ((system C).exec init as).Accounted :=
  hrun.invariant (I := fun s => s.Tidy noneLeft ∧ s.Accounted)
    (fun _ _ h henabled hok => ⟨h.1.step h.2 hok, h.2.step henabled hok.1⟩) ⟨.init, .init⟩

/-- At the end of each fragment the event lists of all keys are empty. -/
theorem events_endFragment {as : List (KeyAction C)} {answer : ℕ → Launch}
    {silent : ℕ → Bool}
    (hrun : (system C).RunFrom ListsKept init (as ++ [.endFragment answer silent])) (c : C)
    (k : Key) :
    (((system C).exec init (as ++ [.endFragment answer silent])).key c k).events = [] := by
  rcases hrun.of_append with ⟨hbefore, -, hok, -⟩
  rcases ListsKept.invariant hbefore with ⟨htidy, hcount⟩
  rw [StepSystem.exec_append]
  exact (endFragment_settled htidy hcount c).2 k

/-- A note is captured by the sostenuto pedal and its key is released. `silent` says
whether its voice ends in the first fragment. In the second one the pedal goes up. -/
def sostenutoRun (silent : Bool) : List (KeyAction Unit) :=
  [.setInstrument () true, .startFragment,
   .importEvent true ⟨fun _ => 1, true⟩ () 60 (midi .note_on 0 0),
   .importEvent true ⟨fun _ => 0, true⟩ () 0 (midi .control_change 66 127),
   .importEvent true ⟨fun _ => 0, true⟩ () 60 (midi .note_off 0 0),
   .processEvent (answers 0 [.started .none] []) (),
   .processEvent (answers 0 [] []) (),
   .processEvent (answers 0 [] []) (),
   .endFragment (fun _ => .nothing) (fun _ => silent),
   .startFragment,
   .importEvent true ⟨fun _ => 0, true⟩ () 0 (midi .control_change 66 0),
   .processEvent (answers 0 [] []) ()]

theorem events_endFragment_sostenuto :
    (((system Unit).exec init (sostenutoRun false ++
      [.endFragment (fun _ => .nothing) fun _ => true])).key () 60).events =
        [] :=
  events_endFragment (by decide +kernel) () 60

/-- The pedal releases a key that is not active any more; its event stays in the list. -/
theorem not_events_endFragment :
    ¬ ∀ (as : List (KeyAction Unit)) (answer : ℕ → Launch) (silent : ℕ → Bool),
      (system Unit).RunFrom (fun _ _ => True) init (as ++ [.endFragment answer silent]) →
        ∀ c k, (((system Unit).exec init (as ++ [.endFragment answer silent])).key c k).events =
          [] := by
  intro h
  have hlist := h (sostenutoRun true) (fun _ => .nothing) (fun _ => true)
    (by decide) () 60
  revert hlist
  decide

end Keyboards

end LinuxSampler
