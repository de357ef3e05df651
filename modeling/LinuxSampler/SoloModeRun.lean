import LinuxSampler.SoloModeRelease

/-!
# Solo mode in runs

The solo key is a pressed key in every state of a run of note events. A run
comes to its end unless the release of a solo key without notes follows a
null pointer.
-/

namespace LinuxSampler

/-! ## The solo key is pressed -/

/-- A channel is in solo mode, with an instrument. -/
structure SoloView.Valid (v : SoloView) : Prop where
  soloMode : v.soloMode = true
  hasInstrument : v.hasInstrument = true
  soloKey : ∀ k ∈ v.soloKey, v.keyPressed k = true

theorem KeyboardChannel.valid_reset {ch : KeyboardChannel} (h : ch.soloOf.Valid) :
    ch.reset.soloOf.Valid :=
  ⟨h.soloMode, h.hasInstrument, fun _ hk => nomatch hk⟩

variable {C : Type*} [DecidableEq C]

namespace Keyboards

variable {s : Keyboards C} {c d : C} {e : KeyEvent} {o : KeyOutcome C}

theorem valid_update {v : SoloView} (h : (s.soloOf c).Valid) (hv : d = c → v.Valid) :
    (Function.update s.soloOf d v c).Valid := by
  by_cases hc : c = d
  · subst hc
    rw [Function.update_self]
    exact hv rfl
  · rwa [Function.update_of_ne hc]

omit [DecidableEq C] in
theorem valid_receiveNoteOn (h : (s.soloOf c).Valid) :
    ((s.channel c).receiveNoteOn e).soloOf.Valid := by
  rw [KeyboardChannel.receiveNoteOn_soloOf]
  split
  · refine ⟨h.soloMode, h.hasInstrument, fun k hk => ?_⟩
    rw [if_pos (show (s.channel c).soloMode = true from h.soloMode)] at hk
    cases hk
    exact Function.update_self ..
  · exact h

theorem valid_processNoteOn (h : (s.soloOf c).Valid) :
    ((s.processNoteOn o d e).soloOf c).Valid := by
  rw [processNoteOn_soloOf]
  split
  · refine valid_update h fun hd => ?_
    rw [hd]
    exact valid_receiveNoteOn h
  · exact h

omit [DecidableEq C] in
/-- The next solo key is a pressed one, or the solo key was not released. -/
theorem valid_releaseOf (h : (s.soloOf c).Valid) : (s.releaseOf c e).Valid := by
  rw [releaseOf, KeyboardChannel.receiveNoteOff_soloOf]
  split
  · refine ⟨h.soloMode, h.hasInstrument, fun k hk => ?_⟩
    have hpressed := (KeyboardChannel.highestPressed_eq_some.mp hk).2.1
    rwa [Set.mem_ofPred_eq, KeyboardChannel.receiveNoteOff_soloOf] at hpressed
  · next hnot =>
    refine ⟨h.soloMode, h.hasInstrument, fun k hk => ?_⟩
    have hne : k ≠ e.key := by
      rintro rfl
      exact hnot ⟨h.soloMode, h.hasInstrument, hk⟩
    exact (Function.update_of_ne hne ..).trans (h.soloKey k hk)

theorem valid_processNoteOff (h : (s.soloOf c).Valid) :
    ((s.processNoteOff o d e).soloOf c).Valid := by
  rw [processNoteOff_soloOf]
  split
  · refine valid_update h fun hd => ?_
    rw [hd]
    exact valid_releaseOf h
  · exact h

theorem valid_onChannel {f : KeyboardChannel → KeyboardChannel} (h : (s.soloOf c).Valid)
    (hf : ∀ ch : KeyboardChannel, ch.soloOf.Valid → (f ch).soloOf.Valid) :
    ((s.onChannel d f).soloOf c).Valid := by
  rw [soloOf_onChannel]
  refine valid_update h fun hd => ?_
  rw [hd]
  exact hf _ h

end Keyboards

namespace SoloKeyboards

variable {s s' s₀ : SoloKeyboards C} {glide : Option ℚ} {o : KeyOutcome C} {c d : C}
  {e : KeyEvent} {a : KeyAction C} {as : List (KeyAction C × Option ℚ)}

omit [DecidableEq C] in
theorem valid_soloOf : (s.soloOf c).Valid ↔ s.Solo c ∧ s.SoloKeyPressed c :=
  ⟨fun h => ⟨⟨h.soloMode, h.hasInstrument⟩, h.soloKey⟩,
    fun h => ⟨h.1.soloMode, h.1.hasInstrument, h.2⟩⟩

/-! ## Runs of note events -/

/-- A note-off on a channel in solo mode meets the condition. -/
def SparesNoteOff (s : SoloKeyboards C) (o : KeyOutcome C) (c : C) (e : KeyEvent) : Prop :=
  e.type = .note_off → s.Solo c → s.Meets o c e

/-- Only note events are processed, and the instruments stay. -/
def Spares (s : SoloKeyboards C) : KeyAction C → Prop
  | .processEvent o c => ∀ e rest, (s.channel c).events = e :: rest →
      e.type ∈ [EventType.note_on, .play_note, .note_off, .stop_note] ∧
        (s.onKeys (·.onChannel c ({ · with events := rest }))).SparesNoteOff o c e
  | .processCtrlTrigger o c e => s.SparesNoteOff o c e
  | .setInstrument _ loaded => loaded = true
  | _ => True

def AllSpare : List (KeyAction C × Option ℚ) → SoloKeyboards C → Prop
  | [], _ => True
  | (a, glide) :: as, s => s.Spares a ∧ ∀ s' ∈ s.step glide a, s'.AllSpare as

section Decidable

variable (s : SoloKeyboards C) (o : KeyOutcome C) (c : C) (e : KeyEvent)

instance (k : Key) : Decidable (s.StaysPressed c e k) :=
  inferInstanceAs (Decidable (_ ∧ (_ : Bool) = true))

instance (i : Key) : Decidable (s.CanRespawn o c e i) :=
  decidable_of_iff (_ ∧ _ ∧ _) ⟨fun ⟨event, note, voice⟩ => ⟨event, note, voice⟩,
    fun ⟨event, note, voice⟩ => ⟨event, note, voice⟩⟩

instance : Decidable (s.Solo c) :=
  decidable_of_iff (_ ∧ _) ⟨fun h => ⟨h.1, h.2⟩, fun h => ⟨h.1, h.2⟩⟩

instance (i : Key) : Decidable (IsGreatest {k | s.StaysPressed c e k} i) :=
  inferInstanceAs (Decidable (s.StaysPressed c e i ∧ ∀ k, s.StaysPressed c e k → k ≤ i))

instance : Decidable (s.Meets o c e) := inferInstanceAs (Decidable (_ → _ ∧ (_ ∨ _)))

instance : Decidable (s.SparesNoteOff o c e) := inferInstanceAs (Decidable (_ → _ → _))

instance : DecidablePred s.Spares
  | .processEvent o c =>
      match hevents : (s.channel c).events with
      | [] => .isTrue fun _ _ h => by simp [hevents] at h
      | e :: rest => decidable_of_iff
          (e.type ∈ [EventType.note_on, .play_note, .note_off, .stop_note] ∧
            (s.onKeys (·.onChannel c ({ · with events := rest }))).SparesNoteOff o c e)
          (by simp [Spares, hevents])
  | .processCtrlTrigger o c e => inferInstanceAs (Decidable (s.SparesNoteOff o c e))
  | .setInstrument _ loaded => inferInstanceAs (Decidable (loaded = true))
  | .startFragment | .importEvent .. | .callScript _ | .insertDelayed .. | .processRegions ..
  | .endFragment .. | .resetInternal _ | .resetEngine | .resetControllers _ | .setMute .. =>
      inferInstanceAs (Decidable True)

instance decidableAllSpare : ∀ (as : List (KeyAction C × Option ℚ)) (s : SoloKeyboards C),
    Decidable (s.AllSpare as)
  | [], _ => inferInstanceAs (Decidable True)
  | (a, glide) :: as, s =>
      have : ∀ s', Decidable (AllSpare as s') := decidableAllSpare as
      inferInstanceAs (Decidable (s.Spares a ∧ ∀ s' ∈ s.step glide a, s'.AllSpare as))

end Decidable

/-- No null pointer is followed. -/
theorem processNoteOff_isSome (glide : Option ℚ) (h : s.SparesNoteOff o c e) :
    ∃ s', s.processNoteOff glide o c e = some s' := by
  by_cases htype : e.type = .note_off
  · by_cases hsolo : s.Solo c
    · obtain ⟨s', hs', -⟩ := (hsolo.follows_iff glide htype).mpr (h htype hsolo)
      exact ⟨s', hs'⟩
    · have hnot : ¬ ((s.channel c).soloMode = true ∧ (s.channel c).hasInstrument = true) :=
        fun hand => hsolo ⟨hand.1, hand.2⟩
      set s₁ := s.onKeys (·.onChannel c (·.receiveNoteOff e)) with hs₁
      have hch : s₁.channel c = (s.channel c).receiveNoteOff e := Keyboards.onChannel_self
      have hr : s₁.respawnSolo glide o c e = some (s₁, false) := by
        rw [respawnSolo, hch]
        exact if_neg hnot
      rw [processNoteOff]
      split
      · exact ⟨_, rfl⟩
      · rw [processKeyRelease]
        dsimp only
        rw [← hs₁, hr]
        exact ⟨_, rfl⟩
  · rw [processNoteOff, if_neg htype]
    split
    · exact ⟨_, rfl⟩
    · exact ⟨_, rfl⟩

theorem Spares.step_isSome (glide : Option ℚ) (h : s.Spares a) :
    ∃ s', s.step glide a = some s' := by
  cases a with
  | processEvent o c =>
      show ∃ s', s.processEvent glide o c = some s'
      rw [processEvent]
      split
      · exact ⟨_, rfl⟩
      · next e rest hcons =>
        obtain ⟨s', hs'⟩ := processNoteOff_isSome glide (h e rest hcons).2
        dsimp only
        split
        · exact ⟨_, rfl⟩
        · exact ⟨_, rfl⟩
        · rw [hs']
          exact ⟨_, rfl⟩
        · rw [hs']
          exact ⟨_, rfl⟩
        · exact ⟨_, rfl⟩
  | processCtrlTrigger o c e =>
      show ∃ s', s.processCtrlTrigger glide o c e = some s'
      rw [processCtrlTrigger]
      split
      · split
        · exact ⟨_, rfl⟩
        · exact processNoteOff_isSome glide h
      · exact ⟨_, rfl⟩
  | startFragment | importEvent _ _ _ _ _ | callScript _ | insertDelayed _ _ _
    | processRegions _ _ _ | endFragment _ _ | resetInternal _ | resetEngine | resetControllers _
    | setInstrument _ _ | setMute _ _ => exact ⟨_, rfl⟩

/-- In solo mode the solo key stays a pressed one. -/
theorem Spares.valid_step (h : s.Spares a) (hvalid : (s.soloOf c).Valid) :
    ((s.toKeyboards.step a).soloOf c).Valid := by
  have hpop (d : C) (rest : List KeyEvent) :
      ((s.onChannel d ({ · with events := rest })).soloOf c).Valid :=
    Keyboards.valid_onChannel hvalid fun _ hch => hch
  have hreset {s : Keyboards C} (d : C) (hvalid : (s.soloOf c).Valid) :
      ((s.onChannel d (·.resetParameters false false)).soloOf c).Valid :=
    Keyboards.valid_onChannel hvalid fun _ hch => by
      rwa [KeyboardChannel.eventBlind_soloOf.resetParameters]
  cases a with
  | startFragment => exact hvalid
  | importEvent alloc pools d note e =>
    rwa [Keyboards.step, Keyboards.handlerBlind_soloOf.importEvent fun _ _ => rfl]
  | callScript call => rwa [Keyboards.step, Keyboards.callScript_soloOf]
  | insertDelayed d n e =>
      rw [Keyboards.step, Keyboards.insertDelayed]
      exact Keyboards.valid_onChannel hvalid fun _ hch => hch
  | processEvent o d =>
      rw [Keyboards.step, Keyboards.processEvent]
      split
      · exact hvalid
      · next e rest hcons =>
        have htype := (h e rest hcons).1
        dsimp only
        split
        · exact hreset d (Keyboards.valid_processNoteOn (hpop d rest))
        · exact hreset d (Keyboards.valid_processNoteOn (hpop d rest))
        · exact hreset d (Keyboards.valid_processNoteOff (hpop d rest))
        · exact hreset d (Keyboards.valid_processNoteOff (hpop d rest))
        all_goals simp_all
  | processCtrlTrigger o d e =>
      rw [Keyboards.step, Keyboards.processCtrlTrigger]
      split
      · split
        · exact Keyboards.valid_processNoteOn hvalid
        · exact Keyboards.valid_processNoteOff hvalid
      · exact hvalid
  | processRegions o d e => rwa [Keyboards.step, Keyboards.blind_soloOf.processRegions]
  | endFragment answer silent => rwa [Keyboards.step, Keyboards.endFragment_soloOf]
  | resetInternal d =>
      rw [Keyboards.step, Keyboards.resetInternal]
      exact Keyboards.valid_onChannel hvalid fun _ => KeyboardChannel.valid_reset
  | resetEngine => exact KeyboardChannel.valid_reset hvalid
  | resetControllers d =>
      rw [Keyboards.step]
      exact Keyboards.valid_onChannel hvalid fun _ hch => hch
  | setInstrument d loaded =>
      rw [Keyboards.step]
      exact Keyboards.valid_onChannel hvalid fun _ hch => ⟨hch.soloMode, h, hch.soloKey⟩
  | setMute d mute =>
      rw [Keyboards.step]
      exact Keyboards.valid_onChannel hvalid fun _ hch =>
        ⟨hch.soloMode, hch.hasInstrument, hch.soloKey⟩

/-- In a run whose note-offs meet the condition no null pointer is followed, the
solo key is a pressed key in every state, and there a note-off does what it is
to do exactly if it meets the condition. -/
theorem followsHighest_run (h : s₀.Solo c) (hkey : s₀.SoloKeyPressed c) (has : s₀.AllSpare as) :
    ∃ s, s₀.run as = some s ∧ s.Solo c ∧ s.SoloKeyPressed c ∧
      ∀ (glide : Option ℚ) (o : KeyOutcome C) (e : KeyEvent), e.type = .note_off →
        ((∃ s', s.processNoteOff glide o c e = some s' ∧ s.Follows s' c e) ↔ s.Meets o c e) := by
  induction as generalizing s₀ with
  | nil => exact ⟨s₀, rfl, h, hkey, fun glide _ _ htype => h.follows_iff glide htype⟩
  | cons p as ih =>
    obtain ⟨a, glide⟩ := p
    obtain ⟨s₁, hs₁⟩ := has.1.step_isSome glide
    have hvalid := has.1.valid_step (valid_soloOf.mpr ⟨h, hkey⟩)
    rw [← toKeyboards_step hs₁] at hvalid
    obtain ⟨h₁, hkey₁⟩ := valid_soloOf.mp hvalid
    rw [run, hs₁]
    exact ih h₁ hkey₁ (has.2 s₁ hs₁)

/-! ## Key 0 -/

/-- A channel in solo mode. -/
def soloStart (portamentoMode : Bool) : SoloKeyboards Unit where
  toKeyboards :=
    { Keyboards.init with
      channel := fun _ => { KeyboardChannel.init with soloMode := true, hasInstrument := true } }
  portamentoMode := fun _ => portamentoMode
  portamentoPos := fun _ => 0
  launched := []

/-- The keys are pressed one by one, the note of the n-th one has the ID n. -/
def pressed (keys : List Key) : List (KeyAction Unit × Option ℚ) :=
  (keys.zipIdx 1).flatMap fun p =>
    [(.importEvent true ⟨fun _ => p.2, true⟩ () p.1.val (Keyboards.midi .note_on 0 0), none),
      (.processEvent (Keyboards.answers 0 [.started .none] []) (), none)]

def noteOff (k : Key) : KeyEvent := { Keyboards.midi .note_off 0 0 with key := k }

/-- The key is released, and the notes launched for another one have the ID 3. -/
def released (k : Key) : List (KeyAction Unit × Option ℚ) :=
  [(.importEvent true ⟨fun _ => 0, true⟩ () k.val (Keyboards.midi .note_off 0 0), none),
    (.processEvent (Keyboards.answers 3 [.started .none] []) (), none)]

theorem followsHighest_run_released : ∃ s,
    (soloStart false).run (pressed [60, 64] ++ released 64) = some s ∧
      s.Solo () ∧ s.SoloKeyPressed () ∧
      ∀ (glide : Option ℚ) (o : KeyOutcome Unit) (e : KeyEvent), e.type = .note_off →
        ((∃ s', s.processNoteOff glide o () e = some s' ∧ s.Follows s' () e) ↔
          s.Meets o () e) :=
  followsHighest_run ⟨rfl, rfl⟩ (fun k hk => nomatch hk) (by decide +kernel)

/-- The solo key 60 is released while key 0 is pressed, and there is no solo key
any more. If the notes of the solo key have died away, then its release follows
a null pointer with portamento. -/
theorem not_followsHighest_keyZero :
    (∃ s s', (soloStart false).run (pressed [0, 60]) = some s ∧
      s.processNoteOff none (Keyboards.answers 3 [.started .none] []) () (noteOff 60) = some s' ∧
      (s.channel ()).soloKey = some 60 ∧ s'.IsPressed () 0 ∧ (s'.channel ()).soloKey = none ∧
      ¬ s'.SoloKeyHighest ()) ∧
    ∃ s, (soloStart true).run (pressed [60, 64] ++
        [(.endFragment (fun _ => .nothing) fun _ => true, none)]) = some s ∧
      s.processNoteOff none (Keyboards.answers 3 [.started .none] []) () (noteOff 64) = none := by
  constructor
  · have hview : ((soloStart false).run (pressed [0, 60])).bind (fun s =>
        (s.processNoteOff none (Keyboards.answers 3 [.started .none] []) () (noteOff 60)).map
          fun s' => ((s.channel ()).soloKey, (s'.key () 0).keyPressed, (s'.channel ()).soloKey)) =
        some (some 60, true, none) := by decide +kernel
    obtain ⟨s, hs, hoff⟩ := Option.bind_eq_some_iff.mp hview
    obtain ⟨s', hs', hfields⟩ := Option.map_eq_some_iff.mp hoff
    obtain ⟨hkey, hfields⟩ := Prod.mk.inj hfields
    obtain ⟨hpressed, hnone⟩ := Prod.mk.inj hfields
    refine ⟨s, s', hs, hs', hkey, hpressed, hnone, fun hhighest => ?_⟩
    rw [SoloKeyHighest, hnone] at hhighest
    exact hhighest 0 hpressed
  · have hnull : ((soloStart true).run (pressed [60, 64] ++
        [(.endFragment (fun _ => .nothing) fun _ => true, none)])).map
          (fun s => (s.processNoteOff none (Keyboards.answers 3 [.started .none] []) ()
            (noteOff 64)).isSome) = some false := by decide +kernel
    obtain ⟨s, hs, hnone⟩ := Option.map_eq_some_iff.mp hnull
    exact ⟨s, hs, Option.isNone_iff_eq_none.mp (Option.isSome_eq_false_iff.mp hnone)⟩

end SoloKeyboards

end LinuxSampler
