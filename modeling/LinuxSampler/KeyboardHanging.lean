import LinuxSampler.KeyboardRelease

/-!
# Hanging notes

The releases of the keys in whole runs of notes, pedals and controller resets.
A controller reset lifts both pedals, but does not release the keys they hold.
-/

namespace LinuxSampler

namespace Keyboards

variable {C : Type*} [DecidableEq C] {s s' : Keyboards C} {c : C} {k : Key} {e : KeyEvent}
  {o : KeyOutcome C} {muted : C → Bool} {before : C → Key → ℕ} {todo todo' : C → List Key}
  {f : KeyboardChannel → KeyboardChannel} {a : KeyAction C} {as : List (KeyAction C)}

/-- The channels that are not muted are sound. -/
def Sounds (muted : C → Bool) (before : C → Key → ℕ) (todo : C → List Key) (s : Keyboards C) :
    Prop :=
  ∀ c, muted c = false → (s.channel c).soundOf.Sound (before c) (todo c)

theorem Sounds.onChannel (h : s.Sounds muted before todo)
    (hf : muted c = false → (f (s.channel c)).soundOf.Sound (before c) (todo' c))
    (htodo : ∀ c', c' ≠ c → todo' c' = todo c') :
    (s.onChannel c f).Sounds muted before todo' := by
  intro c' hc'
  by_cases hc : c' = c
  · rw [hc] at hc' ⊢
    rw [onChannel_self]
    exact hf hc'
  · rw [onChannel_of_ne hc, htodo c' hc]
    exact h c' hc'

/-- What preserves the channel preserves the state. -/
theorem Sounds.map (h : s.Sounds muted before todo)
    (hf : (s.channel c).soundOf.Sound (before c) (todo c) →
      (f (s.channel c)).soundOf.Sound (before c) (todo c)) :
    (s.onChannel c f).Sounds muted before todo :=
  h.onChannel (fun hc => hf (h c hc)) fun _ _ => rfl

theorem Sounds.same (h : s.Sounds muted before todo)
    (hf : (f (s.channel c)).soundOf = (s.channel c).soundOf) :
    (s.onChannel c f).Sounds muted before todo :=
  h.map fun hsound => by rwa [hf]

/-- Launches preserve soundness. -/
theorem closed_sounds : LaunchClosed (C := C) fun s s' =>
    s.Sounds muted before todo → s'.Sounds muted before todo where
  refl _ h := h
  trans h h' hs := h' (h hs)
  notes _ _ h := h
  markKeyAsActive s c k h := h.map fun hsound => by
    rw [KeyboardChannel.markKeyAsActive_soundOf]
    exact hsound.markKeyAsActive
  releaseTrigger s c k g h := h.same (KeyboardChannel.modifyKey_soundOf_same rfl)
  noteID s c k n id h := h.same (KeyboardChannel.modifyEvent_soundOf fun _ => rfl)

theorem theftClosed_sounds : TheftClosed (C := C) fun s s' =>
    s.Sounds muted before todo → s'.Sounds muted before todo := by
  intro s c e h
  have hqueue : ({ s with voiceStealingQueue := s.voiceStealingQueue ++ [StolenVoice.mk c e] } :
      Keyboards C).Sounds muted before todo := h
  exact hqueue.same (KeyboardChannel.modifyKey_soundOf_same rfl)

theorem Sounds.resetParameters {isRpn isNrpn : Bool} (h : s.Sounds muted before todo) :
    (s.onChannel c (·.resetParameters isRpn isNrpn)).Sounds muted before todo :=
  h.same KeyboardChannel.resetParameters_soundOf

theorem Sounds.freeUnused {n : ℕ} (h : s.Sounds muted before todo) :
    (s.freeUnused c k n).Sounds muted before todo := by
  refine h.map fun hsound => ?_
  by_cases hfree : (!((s.channel c).keys k).active) = true ∧
      ((s.channel c).keys k).voiceTheftsQueued = 0
  · have hk : ((s.channel c).keys k).active = false := by simpa using hfree.1
    have hfreed := KeyboardChannel.freeEvent_sound (n := n) hsound hk
    rw [KeyboardChannel.modifyKey] at hfreed ⊢
    rwa [if_pos hfree]
  · rw [KeyboardChannel.modifyKey_soundOf_same (by rw [if_neg hfree])]
    exact hsound

/-! ## Notes -/

/-- The handler has released no key yet. -/
def Fresh (muted : C → Bool) (before : C → Key → ℕ) (s : Keyboards C) : Prop :=
  ∀ c, muted c = false → ∀ k, releases (s.key c k).types ≤ before c k

theorem processNoteOn_sounds (h : s.Sounds muted before todo) (hfresh : s.Fresh muted before)
    (htype : e.type = .note_on) (hactive : muted c = false → (s.key c e.key).active = true) :
    (s.processNoteOn o c e).Sounds muted before todo := by
  rw [processNoteOn]
  split
  · exact h
  · split
    · exact h
    · have hreceive : (s.onChannel c (·.receiveNoteOn e)).Sounds muted before todo := by
        refine h.onChannel (fun hc => ?_) fun _ _ => rfl
        rw [KeyboardChannel.receiveNoteOn_soundOf htype]
        exact (h c hc).press (hactive hc) (hfresh c hc e.key)
      have hcancel : ((s.onChannel c (·.receiveNoteOn e)).onChannel c
          (·.cancelRelease (o.alloc e.key) e)).Sounds muted before todo := by
        refine hreceive.onChannel (fun hc => ?_) fun _ _ => rfl
        have hself : ((s.channel c).receiveNoteOn e).soundOf = _ :=
          KeyboardChannel.receiveNoteOn_soundOf htype
        refine KeyboardChannel.cancelRelease_sound (hreceive c hc) ?_ ?_
        · rw [onChannel_self, hself, SoundView.setKey_self]
          exact hactive hc
        · rw [onChannel_self, hself, SoundView.setKey_self]
      exact (closed_sounds.triggerNewVoices theftClosed_sounds hcancel).freeUnused

theorem respawnSolo_of_not_solo (h : (s.channel c).soloMode = false) :
    s.respawnSolo o c e = (s, false) := by
  rw [respawnSolo, if_neg]
  rintro ⟨hsolo, -⟩
  rw [h] at hsolo
  cases hsolo

/-- No channel has a key left to release. -/
def noKeys : C → List Key := fun _ => []

theorem processKeyRelease_sounds (h : s.Sounds muted before noKeys)
    (hfresh : s.Fresh muted before) (htype : e.type = .note_off) (hc : muted c = false) :
    (s.processKeyRelease o c e).Sounds muted before noKeys := by
  have hself : (s.onChannel c (·.receiveNoteOff e)).channel c = (s.channel c).receiveNoteOff e :=
    onChannel_self
  have hview : ((s.channel c).receiveNoteOff e).soundOf = _ :=
    KeyboardChannel.receiveNoteOff_soundOf htype
  have hsolo : ((s.onChannel c (·.receiveNoteOff e)).channel c).soloMode = false := by
    rw [hself]
    exact (congrArg SoundView.soloMode hview).trans (h c hc).solo
  have hactive : ((s.onChannel c (·.receiveNoteOff e)).key c e.key).active =
      ((s.channel c).keys e.key).active := by
    rw [key, hself]
    have hkey := congrArg (fun v => (SoundView.key v e.key).active) hview
    rw [SoundView.setKey_self] at hkey
    exact hkey
  have hshould : ((s.onChannel c (·.receiveNoteOff e)).channel c).shouldReleaseVoice e.key =
      (s.channel c).shouldReleaseVoice e.key := by
    rw [hself]
    rfl
  rw [processKeyRelease]
  refine Sounds.freeUnused ?_
  rw [respawnSolo_of_not_solo hsolo, hactive, hshould, Bool.false_and, Bool.not_false,
    Bool.and_true]
  split
  · rename_i hrelease
    have hreleased : (s.onChannel c fun ch => (ch.receiveNoteOff e).modifyKey e.key
        (·.modifyEvent (s.key c e.key).events.length ({ · with type := .release_key }))).Sounds
          muted before noKeys :=
      h.onChannel (fun _ => KeyboardChannel.receiveNoteOff_sound_release (h c hc) htype hrelease)
        fun _ _ => rfl
    rw [releaseKey, onChannel_onChannel]
    split
    · exact closed_sounds.processReleaseTrigger hreleased
    · exact hreleased
  · rename_i hkept
    rw [Bool.not_eq_true] at hkept
    exact h.onChannel (fun _ => KeyboardChannel.receiveNoteOff_sound (h c hc) htype
      (hfresh c hc e.key) hkept) fun _ _ => rfl

/-! ## Pedals -/

/-- Only channel `c` has keys left to release. -/
def onlyFor (c : C) (keys : List Key) : C → List Key := Function.update noKeys c keys

@[simp] theorem onlyFor_self {keys : List Key} : onlyFor c keys c = keys := Function.update_self ..

theorem onlyFor_of_ne {keys : List Key} {c' : C} (h : c' ≠ c) : onlyFor c keys c' = [] :=
  Function.update_of_ne h ..

theorem onlyFor_nil : onlyFor c [] = noKeys := Function.update_eq_self ..

/-- The pedals of channel `c` change. -/
theorem Sounds.pedals {keys : List Key} (h : s.Sounds muted before noKeys)
    (hf : muted c = false → (f (s.channel c)).soundOf.Sound (before c) keys) :
    (s.onChannel c f).Sounds muted before (onlyFor c keys) :=
  h.onChannel (fun hc => by rw [onlyFor_self]; exact hf hc) fun _ hc' => onlyFor_of_ne hc'

theorem Sounds.close {keys : List Key} (h : s.Sounds muted before (onlyFor c (k :: keys)))
    (hk : (s.key c k).keyPressed = false → (s.channel c).soundOf.held k = false → False) :
    s.Sounds muted before (onlyFor c keys) := by
  intro c' hc'
  have hsound := h c' hc'
  by_cases hc : c' = c
  · rw [hc, onlyFor_self] at hsound ⊢
    exact hsound.close fun _ hup hfree => (hk hup hfree).elim
  · rwa [onlyFor_of_ne hc] at hsound ⊢

/-- The turn of the loop for a key: it is released, or it is pressed or held. -/
theorem releaseBySustain_sounds {keys : List Key}
    (h : s.Sounds muted before (onlyFor c (k :: keys))) (halloc : o.alloc k = true) :
    (s.releaseBySustain o c e k).Sounds muted before (onlyFor c keys) := by
  rw [releaseBySustain, halloc, Bool.and_true]
  split
  · rename_i htest
    rw [Bool.and_eq_true, Bool.not_eq_true', KeyboardChannel.shouldReleaseVoice_eq,
      Bool.not_eq_true'] at htest
    have happend : ∀ e' : KeyEvent, e'.type = .release_key →
        (s.onChannel c (·.append k e')).Sounds muted before (onlyFor c keys) := by
      intro e' he'
      refine h.onChannel (fun hc => ?_) fun c' hc' => ?_
      · have hsound := h c hc
        rw [onlyFor_self] at hsound ⊢
        rw [KeyboardChannel.append_soundOf, he']
        exact hsound.release htest.1 htest.2
      · rw [onlyFor_of_ne hc', onlyFor_of_ne hc']
    dsimp only
    split
    · exact closed_sounds.processReleaseTrigger (happend _ rfl)
    · exact happend _ rfl
  · rename_i htest
    rw [Bool.and_eq_true, Bool.not_eq_true', KeyboardChannel.shouldReleaseVoice_eq,
      Bool.not_eq_true'] at htest
    exact h.close fun hup hfree => htest ⟨hup, hfree⟩

theorem releasesBySustain_sounds {keys : List Key} (h : s.Sounds muted before (onlyFor c keys))
    (halloc : ∀ k, o.alloc k = true) :
    (keys.foldl (releaseBySustain o c e) s).Sounds muted before noKeys := by
  induction keys generalizing s with
  | nil => rwa [onlyFor_nil] at h
  | cons k keys ih => exact ih (releaseBySustain_sounds h (halloc k))

/-- On a muted channel anything may happen to the keys. -/
theorem Sounds.onMuted (h : s.Sounds muted before noKeys) (hc : muted c = true) :
    (s.onChannel c f).Sounds muted before noKeys :=
  h.onChannel (fun hc' => absurd (hc.symm.trans hc') (by decide)) fun _ _ => rfl

theorem processSustain_sounds (h : s.Sounds muted before noKeys) (hfresh : s.Fresh muted before)
    (hmute : (s.channel c).mute = muted c) (halloc : ∀ k, o.alloc k = true) :
    (s.processSustain o c e).Sounds muted before noKeys := by
  rw [processSustain]
  split
  · dsimp only
    rw [onChannel_self]
    split
    · rename_i hm
      exact h.onMuted (hmute.symm.trans hm)
    · rw [onChannel_onChannel]
      refine h.onChannel (fun hc => ?_) fun _ _ => rfl
      have hsound := h c hc
      rw [KeyboardChannel.resetParameters_soundOf]
      refine KeyboardChannel.cancelCopies_sound ?_ rfl fun k hk => (hsound.listed k).mp hk
      refine hsound.pedals (hfresh c hc) fun k _ _ _ hfree => ?_
      cases hfree
  · split
    · dsimp only
      rw [onChannel_self]
      split
      · rename_i hm
        exact h.onMuted (hmute.symm.trans hm)
      · refine Sounds.resetParameters (releasesBySustain_sounds ?_ halloc)
        rw [onChannel_self]
        refine h.pedals fun hc => ?_
        refine (h c hc).pedals (hfresh c hc) fun k hk hactive => ?_
        exact absurd (((h c hc).listed k).mpr hactive) hk
    · exact h.resetParameters

theorem processSostenuto_sounds (h : s.Sounds muted before noKeys) (hfresh : s.Fresh muted before)
    (hmute : (s.channel c).mute = muted c) (halloc : ∀ k, o.alloc k = true) :
    (s.processSostenuto o c e).Sounds muted before noKeys := by
  rw [processSostenuto]
  split
  · rename_i hdown
    dsimp only
    rw [onChannel_self]
    split
    · rename_i hm
      exact h.onMuted (hmute.symm.trans hm)
    · rw [onChannel_onChannel]
      refine h.onChannel (fun hc => ?_) fun _ _ => rfl
      rw [KeyboardChannel.resetParameters_soundOf]
      have hsostenuto : (s.channel c).soundOf.sostenutoPedal = false := hdown.2
      refine (h c hc).pedals (hfresh c hc) fun k hk hactive hup hfree => ?_
      refine (h c hc).released k hk hactive hup ?_
      rw [SoundView.held, hsostenuto, Bool.false_and, Bool.or_false]
      exact (Bool.or_eq_false_iff.mp hfree).1
  · split
    · rename_i hup
      dsimp only
      rw [onChannel_self]
      split
      · rename_i hm
        exact h.onMuted (hmute.symm.trans hm)
      · rw [onChannel_onChannel]
        refine h.onChannel (fun hc => ?_) fun _ _ => rfl
        rw [KeyboardChannel.resetParameters_soundOf]
        refine KeyboardChannel.releaseCopies_sound ?_ rfl rfl halloc
        refine (h c hc).pedals (hfresh c hc) fun k hk hactive hpressed hfree => ?_
        refine (h c hc).released k List.not_mem_nil hactive hpressed ?_
        have huncaptured : (s.channel c).soundOf.sostenutoKeys.contains k = false := by
          rw [List.contains_eq_mem]
          exact decide_eq_false hk
        rw [SoundView.held, huncaptured, Bool.and_false, Bool.or_false]
        exact (Bool.or_eq_false_iff.mp hfree).1
    · exact h.resetParameters

/-! ## Events -/

/-- Notes, the pedals, and the reset of the controllers. -/
def IsPedalEvent (e : KeyEvent) : Prop :=
  e.type = .note_on ∨ e.type = .note_off ∨
    (e.type = .control_change ∧ (e.controller = 64 ∨ e.controller = 66 ∨ e.controller = 121))

instance (e : KeyEvent) : Decidable (IsPedalEvent e) := inferInstanceAs (Decidable (_ ∨ _))

/-- If the controllers of a channel are reset next, then the keys its pedals hold are
released already. -/
def HeldReleased (s : Keyboards C) (c : C) : Prop :=
  ∀ e ∈ (s.channel c).events.head?, e.type = .control_change → e.controller = 121 →
    (s.channel c).mute = false → ∀ k, (s.key c k).active = true → (s.key c k).keyPressed = false →
      (s.channel c).held k = true → Released (s.key c k).types

instance : Decidable (s.HeldReleased c) :=
  inferInstanceAs (Decidable (∀ e ∈ (s.channel c).events.head?, _))

theorem resetControllers_sounds (h : s.Sounds muted before noKeys) (hfresh : s.Fresh muted before)
    (hheld : muted c = false → ∀ k, (s.key c k).active = true → (s.key c k).keyPressed = false →
      (s.channel c).held k = true → Released (s.key c k).types) :
    (s.onChannel c fun ch => ch.resetControllers.resetParameters false false).Sounds muted before
      noKeys := by
  refine h.onChannel (fun hc => ?_) fun _ _ => rfl
  rw [KeyboardChannel.resetParameters_soundOf]
  refine (h c hc).pedals (hfresh c hc) fun k hk hactive hup _ => ?_
  by_cases hkept : (s.channel c).held k = true
  · exact hheld hc k hactive hup hkept
  · exact (h c hc).released k hk hactive hup (Bool.eq_false_iff.mpr hkept)

theorem processEvent_sounds (h : s.Sounds muted before noKeys) (hfresh : s.Fresh muted before)
    (hmute : (s.channel c).mute = muted c) (hpending : ∀ e ∈ (s.channel c).events, IsPedalEvent e)
    (halloc : ∀ k, o.alloc k = true) (hheld : s.HeldReleased c) :
    (s.processEvent o c).Sounds muted before noKeys := by
  rw [processEvent]
  cases hevents : (s.channel c).events with
  | nil => exact h
  | cons e rest =>
    rw [HeldReleased, hevents] at hheld
    have he : IsPedalEvent e := hpending e (by rw [hevents]; exact List.mem_cons_self)
    have hkeys : ∀ c' k, (s.onChannel c ({ · with events := rest })).key c' k = s.key c' k := by
      intro c' k
      exact onChannel_same (fun ch => ch.keys k) rfl
    have hpop : (s.onChannel c ({ · with events := rest })).Sounds muted before noKeys := by
      refine h.map fun hsound => hsound.pend fun e' he' => hsound.expects e' ?_
      exact (show e' ∈ (s.channel c).events by rw [hevents]; exact List.mem_cons_of_mem e he')
    have hactive : muted c = false → e.type = .note_on →
        ((s.onChannel c ({ · with events := rest })).key c e.key).active = true := by
      intro hc hon
      have hmem : e ∈ (s.channel c).events := by
        rw [hevents]
        exact List.mem_cons_self
      rw [hkeys]
      rcases (h c hc).expects e hmem with hexp | hexp | hexp
      · exact hexp.2
      · rw [hon] at hexp
        cases hexp
      · rw [hon] at hexp
        cases hexp.1
    have hfresh₁ : (s.onChannel c ({ · with events := rest })).Fresh muted before := by
      intro c' hc' k
      rw [hkeys]
      exact hfresh c' hc' k
    have hheld₁ : e.type = .control_change → e.controller = 121 → muted c = false → ∀ k,
        ((s.onChannel c ({ · with events := rest })).key c k).active = true →
        ((s.onChannel c ({ · with events := rest })).key c k).keyPressed = false →
        ((s.onChannel c ({ · with events := rest })).channel c).held k = true →
        Released ((s.onChannel c ({ · with events := rest })).key c k).types := by
      intro htype hcc hc k
      rw [hkeys, onChannel_self]
      exact hheld e rfl htype hcc (hmute.trans hc) k
    have hmute₁ : ((s.onChannel c ({ · with events := rest })).channel c).mute = muted c := by
      rw [onChannel_self]
      exact hmute
    dsimp only
    generalize s.onChannel c ({ · with events := rest }) = s₁ at *
    rcases he with htype | htype | ⟨htype, hcc⟩
    · rw [htype]
      exact (processNoteOn_sounds hpop hfresh₁ htype fun hc => hactive hc htype).resetParameters
    · rw [htype]
      refine Sounds.resetParameters ?_
      rw [processNoteOff]
      split
      · exact hpop
      · rename_i hm
        refine processKeyRelease_sounds hpop hfresh₁ htype ?_
        rw [← hmute₁]
        exact Bool.eq_false_iff.mpr hm
    · rw [htype]
      dsimp only
      rw [processHardcodedControllers]
      rcases hcc with hcc | hcc | hcc
      · rw [hcc]
        exact processSustain_sounds hpop hfresh₁ hmute₁ halloc
      · rw [hcc]
        exact processSostenuto_sounds hpop hfresh₁ hmute₁ halloc
      · rw [hcc]
        exact resetControllers_sounds hpop hfresh₁ (hheld₁ htype hcc)

/-- The key of the note that is launched is active. -/
theorem launchNewNote_active {pools : NotePools} (hparent : e.parentNoteID = 0)
    (hid : (s.launchNewNote pools c e).2 ≠ 0) :
    ((s.launchNewNote pools c e).1.key c e.key).active = true := by
  rw [launchNewNote_id hparent] at hid
  rw [launchNewNote]
  dsimp only
  rw [if_neg hid, hostKeyOf, if_pos hparent]
  dsimp only
  rw [key_onChannel_self]
  exact KeyboardChannel.markKeyAsActive_active_self

omit [DecidableEq C] in
theorem applyTranspose_eq {note : ℕ} {e' : KeyEvent}
    (h : (s.channel c).applyTranspose note e = some e') :
    e'.type = e.type ∧ e'.controller = e.controller := by
  rw [KeyboardChannel.applyTranspose] at h
  split at h
  · cases h
    exact ⟨rfl, rfl⟩
  · dsimp only at h
    split at h
    · cases h
    · cases h
      exact ⟨rfl, rfl⟩

theorem importEvent_sounds {alloc : Bool} {pools : NotePools} {note : ℕ}
    (h : s.Sounds muted before noKeys) (hparent : e.parentNoteID = 0) (he : IsPedalEvent e) :
    (s.importEvent alloc pools c note e).Sounds muted before noKeys := by
  have hqueue : ∀ {s : Keyboards C} {e : KeyEvent}, s.Sounds muted before noKeys →
      (muted c = false → (s.channel c).soundOf.Expects e) →
      (s.onChannel c fun ch => { ch with events := ch.events ++ [e] }).Sounds muted before
        noKeys := by
    intro s e h hexpects
    refine h.onChannel (fun hc => (h c hc).pend fun e' he' => ?_) fun _ _ => rfl
    rcases List.mem_append.mp he' with he' | he'
    · exact (h c hc).expects e' he'
    · rw [List.mem_singleton.mp he']
      exact hexpects hc
  rw [importEvent]
  split
  · split
    · exact h
    · rename_i e' htranspose
      rcases applyTranspose_eq htranspose with ⟨htype, hcontroller⟩
      have hparent' : e'.parentNoteID = 0 := (applyTranspose_parentNoteID htranspose).trans hparent
      split
      · rename_i hon
        have hlaunched : (s.launchNewNote pools c e').1.Sounds muted before noKeys :=
          closed_sounds.launchNewNote h
        dsimp only
        split
        · exact hlaunched
        · rename_i hid
          exact hqueue hlaunched fun _ => .inl ⟨hon, launchNewNote_active hparent' hid⟩
      · rename_i hon
        refine hqueue h fun _ => .inr ?_
        rw [htype, hcontroller]
        exact he.resolve_left fun h => hon (htype.trans h)
  · exact h

/-! ## The end of the fragment -/

theorem Sounds.finishTheft {v : StolenVoice C} (h : s.Sounds muted before todo) :
    (s.finishTheft v).Sounds muted before todo := by
  refine h.map fun hsound => ?_
  rw [KeyboardChannel.modifyKey_soundOf]
  by_cases hclear : (!((s.channel v.channel).keys v.event.key).active) = true ∧
      ((s.channel v.channel).keys v.event.key).voiceTheftsQueued - 1 = 0
  · have hk : ((s.channel v.channel).keys v.event.key).active = false := by simpa using hclear.1
    rw [MidiKey.finishTheft, if_pos hclear]
    exact hsound.shorten hk (((List.nil_sublist _).append_left _).map _)
  · rw [MidiKey.finishTheft, if_neg hclear]
    have hsame : ((s.channel v.channel).modifyKey v.event.key fun key => key).soundOf =
        (s.channel v.channel).soundOf := KeyboardChannel.modifyKey_soundOf_same rfl
    rw [KeyboardChannel.modifyKey_soundOf] at hsame
    exact (congrArg (SoundView.Sound _ _) hsame).mpr hsound

theorem renderStolenVoice_sounds {answer : Launch} {v : StolenVoice C}
    (h : s.Sounds muted before todo) :
    (s.renderStolenVoice answer v).Sounds muted before todo := by
  unfold renderStolenVoice
  split
  · exact h
  · split
    · split
      · exact Sounds.finishTheft (closed_sounds.launchVoice h)
      · exact h.finishTheft
    · exact h.finishTheft

theorem endFragment_sounds {answer : ℕ → Launch} {silent : ℕ → Bool}
    (h : s.Sounds muted before todo) (hempty : ∀ c, (s.channel c).events = []) :
    (s.endFragment answer silent).Sounds muted before todo := by
  have hrender : (s.renderStolenVoices answer).Sounds muted before todo := by
    rw [renderStolenVoices]
    clear hempty
    generalize s.voiceStealingQueue.zipIdx = q
    induction q generalizing s with
    | nil => exact h
    | cons v q ih => exact ih (renderStolenVoice_sounds h)
  intro c hc
  have hevents : ((s.renderStolenVoices answer).channel c).events = [] :=
    (congrArg PressView.events (congrFun renderStolenVoices_pressOf c)).trans (hempty c)
  exact KeyboardChannel.clearEventLists_sound
    (KeyboardChannel.freeAllInactiveKeys_sound (hrender c hc) hevents)

/-! ## Runs -/

/-- Input of notes, pedals and controller resets; the event pool has an element for
each event. -/
def PedalInput (_ : Keyboards C) : KeyAction C → Prop
  | .startFragment | .processRegions _ _ _ | .endFragment _ _ => True
  | .importEvent _ _ _ _ e => IsPedalEvent e
  | .processEvent o _ => o.script = [] ∧ ∀ k, o.alloc k = true
  | _ => False

instance (s : Keyboards C) : ∀ a : KeyAction C, Decidable (s.PedalInput a)
  | .startFragment | .processRegions _ _ _ | .endFragment _ _ => .isTrue trivial
  | .importEvent _ _ _ _ e => inferInstanceAs (Decidable (IsPedalEvent e))
  | .processEvent o _ => inferInstanceAs (Decidable (o.script = [] ∧ ∀ k, o.alloc k = true))
  | .callScript _ | .insertDelayed _ _ _ | .processCtrlTrigger _ _ _ | .resetInternal _
  | .resetEngine | .resetControllers _ | .setInstrument _ _ | .setMute _ _ => .isFalse id

/-- No controller reset lifts a pedal from a key that still has to be released. -/
def ResetsReleased (s : Keyboards C) : KeyAction C → Prop
  | .processEvent _ c => s.HeldReleased c
  | _ => True

instance (s : Keyboards C) : ∀ a : KeyAction C, Decidable (s.ResetsReleased a)
  | .processEvent _ c => inferInstanceAs (Decidable (s.HeldReleased c))
  | .startFragment | .importEvent _ _ _ _ _ | .processRegions _ _ _ | .endFragment _ _
  | .callScript _ | .insertDelayed _ _ _ | .processCtrlTrigger _ _ _ | .resetInternal _
  | .resetEngine | .resetControllers _ | .setInstrument _ _ | .setMute _ _ => .isTrue trivial

/-- Between two steps: no key is left to release, and only notes, pedals and resets of the
controllers are pending. -/
structure Steady (muted : C → Bool) (s : Keyboards C) : Prop where
  sound : s.Sounds muted (fun c k => releases (s.key c k).types) noKeys
  pending : ∀ c, ∀ e ∈ (s.channel c).events, IsPedalEvent e
  mute : ∀ c, (s.channel c).mute = muted c

omit [DecidableEq C] in
theorem imported_isPedalEvent {alloc : Bool} {pools : NotePools} {note : ℕ} (he : IsPedalEvent e)
    {e' : KeyEvent} (h : e' ∈ s.imported alloc pools c note e) : IsPedalEvent e' := by
  rw [imported] at h
  split at h
  · split at h
    · cases h
    · rename_i e₁ htranspose
      rcases applyTranspose_eq htranspose with ⟨htype, hcontroller⟩
      rw [IsPedalEvent, ← htype, ← hcontroller] at he
      split at h
      · split at h
        · cases h
        · rw [List.mem_singleton.mp h]
          exact he
      · rw [List.mem_singleton.mp h]
        exact he
  · cases h

/-- The pending events and the mute state follow the view of the pressed keys. -/
theorem Steady.pending_step (h : s.Steady muted) (henabled : s.Enabled a) (hok : s.PedalInput a) :
    (∀ c, ∀ e ∈ ((s.step a).channel c).events, IsPedalEvent e) ∧
      ∀ c, ((s.step a).channel c).mute = muted c := by
  have hview : ∀ {s' : Keyboards C}, (∀ c, (∀ e ∈ (s'.pressOf c).events, IsPedalEvent e) ∧
      (s'.pressOf c).mute = muted c) → (∀ c, ∀ e ∈ (s'.channel c).events, IsPedalEvent e) ∧
        ∀ c, (s'.channel c).mute = muted c :=
    fun h => ⟨fun c => (h c).1, fun c => (h c).2⟩
  have hsame : ∀ {s' : Keyboards C}, s'.pressOf = s.pressOf →
      (∀ c, ∀ e ∈ (s'.channel c).events, IsPedalEvent e) ∧ ∀ c, (s'.channel c).mute = muted c :=
    fun hs' => hview fun c => hs' ▸ ⟨h.pending c, h.mute c⟩
  cases a with
  | startFragment => exact hsame rfl
  | importEvent alloc pools c note e =>
    refine hview fun c' => ?_
    rw [Keyboards.step, importEvent_pressOf henabled.2.2.2]
    by_cases hc : c' = c
    · rcases hc with rfl
      rw [Function.update_self]
      refine ⟨fun e' he' => ?_, h.mute c'⟩
      rcases List.mem_append.mp he' with he' | he'
      · exact h.pending c' e' he'
      · exact imported_isPedalEvent hok he'
    · rw [Function.update_of_ne hc]
      exact ⟨h.pending c', h.mute c'⟩
  | processEvent o c =>
    refine hview fun c' => ?_
    rw [Keyboards.step, processEvent_pressOf hok.1]
    by_cases hc : c' = c
    · rcases hc with rfl
      rw [Function.update_self, PressView.pop_events, PressView.pop_mute]
      exact ⟨fun e' he' => h.pending c' e' (List.mem_of_mem_tail he'), h.mute c'⟩
    · rw [Function.update_of_ne hc]
      exact ⟨h.pending c', h.mute c'⟩
  | processRegions o c e => exact hsame blind_pressOf.processRegions
  | endFragment answer silent =>
    refine hview fun c => ?_
    rw [Keyboards.step, endFragment_pressOf]
    refine ⟨fun e he => ?_, h.mute c⟩
    cases he
  | callScript call => cases hok
  | insertDelayed c n e => cases hok
  | processCtrlTrigger o c e => cases hok
  | resetInternal c => cases hok
  | resetEngine => cases hok
  | resetControllers c => cases hok
  | setInstrument c loaded => cases hok
  | setMute c mute => cases hok

theorem Steady.sound_step (h : s.Steady muted) (henabled : s.Enabled a) (hok : s.PedalInput a)
    (hheld : s.ResetsReleased a) :
    (s.step a).Sounds muted (fun c k => releases (s.key c k).types) noKeys := by
  cases a with
  | startFragment => exact h.sound
  | importEvent alloc pools c note e => exact importEvent_sounds h.sound henabled.2.2.2 hok
  | processEvent o c =>
    exact processEvent_sounds h.sound (fun _ _ _ => le_rfl) (h.mute c) (h.pending c) hok.2 hheld
  | processRegions o c e => exact closed_sounds.processRegions h.sound
  | endFragment answer silent => exact endFragment_sounds h.sound henabled.2
  | callScript call => cases hok
  | insertDelayed c n e => cases hok
  | processCtrlTrigger o c e => cases hok
  | resetInternal c => cases hok
  | resetEngine => cases hok
  | resetControllers c => cases hok
  | setInstrument c loaded => cases hok
  | setMute c mute => cases hok

theorem Steady.step (h : s.Steady muted) (henabled : s.Enabled a) (hok : s.PedalInput a)
    (hheld : s.ResetsReleased a) : (s.step a).Steady muted := by
  rcases h.pending_step henabled hok with ⟨hpending, hmute⟩
  refine ⟨fun c hc => ?_, hpending, hmute⟩
  have hsound := h.sound_step henabled hok hheld c hc
  exact ⟨hsound.quiet, hsound.released, fun _ _ => le_rfl, hsound.listed, hsound.nodup,
    hsound.expects, hsound.solo, hsound.mute⟩

omit [DecidableEq C] in
theorem steady_start {loaded muted : C → Bool} : (start loaded muted).Steady muted := by
  refine ⟨fun c hc => ?_, fun _ => nofun, fun _ => rfl⟩
  refine ⟨fun _ _ => nofun, nofun, fun _ _ => le_rfl, ?_, List.nodup_nil, nofun, rfl, hc⟩
  exact fun k => ⟨nofun, nofun⟩

/-- In a run in which each controller reset finds the held keys released, after every
step the keys that are neither pressed nor held are released, and the step has not
released a key that is pressed or held. -/
theorem released_run {loaded muted : C → Bool}
    (hrun : (system C).RunFrom (fun s a => s.PedalInput a ∧ s.ResetsReleased a)
      (start loaded muted) (as ++ [a])) (hc : muted c = false) :
    (∀ k, (((system C).exec (start loaded muted) (as ++ [a])).key c k).active = true →
      (((system C).exec (start loaded muted) (as ++ [a])).key c k).keyPressed = false →
      (((system C).exec (start loaded muted) (as ++ [a])).channel c).held k = false →
      Released (((system C).exec (start loaded muted) (as ++ [a])).key c k).types) ∧
    (∀ k, (((system C).exec (start loaded muted) (as ++ [a])).key c k).keyPressed = true ∨
        (((system C).exec (start loaded muted) (as ++ [a])).channel c).held k = true →
      releases (((system C).exec (start loaded muted) (as ++ [a])).key c k).types ≤
        releases (((system C).exec (start loaded muted) as).key c k).types) := by
  have hlast := hrun.invariant_before (I := Steady muted)
    (fun _ _ h henabled hok => h.step henabled hok.1 hok.2) steady_start
  rcases hlast with ⟨hsteady, henabled, hok, hheld⟩
  have hsound := hsteady.sound_step henabled hok hheld c hc
  rw [StepSystem.exec_append]
  exact ⟨fun k => hsound.released k List.not_mem_nil, hsound.withheld⟩

/-! ## A controller reset under a held pedal -/

/-- A note-on, the sustain pedal, the note-off and one more controller event. -/
def sustainRun (controller value : ℕ) : List (KeyAction Unit) :=
  [.startFragment,
   .importEvent true ⟨fun _ => 1, true⟩ () 60 (midi .note_on 0 0),
   .importEvent true ⟨fun _ => 0, true⟩ () 0 (midi .control_change 64 127),
   .importEvent true ⟨fun _ => 0, true⟩ () 60 (midi .note_off 0 0),
   .importEvent true ⟨fun _ => 0, true⟩ () 0 (midi .control_change controller value),
   .processEvent (answers 0 [.started .none] []) (),
   .processEvent (answers 0 [] []) (),
   .processEvent (answers 0 [] []) ()]

/-- The reset lifts the pedal, and the key that it held is never released. -/
theorem not_released_run :
    ¬ ∀ as : List (KeyAction Unit),
      (system Unit).RunFrom PedalInput (start (fun _ => true) fun _ => false) as →
      ∀ k, (((system Unit).exec (start (fun _ => true) fun _ => false) as).key () k).active = true →
        (((system Unit).exec (start (fun _ => true) fun _ => false) as).key () k).keyPressed =
          false →
        (((system Unit).exec (start (fun _ => true) fun _ => false) as).channel ()).held k = false →
        Released (((system Unit).exec (start (fun _ => true) fun _ => false) as).key () k).types := by
  intro h
  have hrun := h (sustainRun 121 0 ++ [.processEvent (answers 0 [] []) ()]) (by decide) 60
    (by decide) (by decide) (by decide)
  revert hrun
  decide

/-- The pedal is lifted by its controller. -/
theorem released_run_sustain : Released (((system Unit).exec (start (fun _ => true) fun _ => false)
    (sustainRun 64 0 ++ [.processEvent (answers 0 [] []) ()])).key () 60).types := by
  have hrun : (system Unit).RunFrom (fun s a => s.PedalInput a ∧ s.ResetsReleased a)
      (start (fun _ => true) fun _ => false)
      (sustainRun 64 0 ++ [.processEvent (answers 0 [] []) ()]) := by decide +kernel
  exact (released_run (c := ()) hrun rfl).1 60 (by decide) (by decide) (by decide)

end Keyboards

end LinuxSampler
