import LinuxSampler.SoloModeHighest

/-!
# The release of the solo key

When the solo key is released its successor is searched among the keys above
key 0, and with portamento the first note of the released key is read
without a test. Both decide on whether solo mode follows the highest pressed
key.
-/

namespace LinuxSampler

variable {C : Type*} [DecidableEq C]

/-! ## Launches -/

namespace Keyboards

variable {s s' : Keyboards C} {c : C} {e e' : KeyEvent} {pools : NotePools}

/-- The ID of a new note depends on the notes, the key and the parent. -/
theorem launchNewNote_id_congr (hnotes : s'.notes = s.notes) (hkey : e'.key = e.key)
    (hparent : e'.parentNoteID = e.parentNoteID) :
    (s'.launchNewNote pools c e').2 = (s.launchNewNote pools c e).2 := by
  have hhost : s'.hostKeyOf pools e' = s.hostKeyOf pools e := by
    unfold hostKeyOf noteByID
    rw [hnotes, hkey, hparent]
  rw [launchNewNote, launchNewNote, hhost, hkey]
  dsimp only
  split
  · rfl
  · split
    · rfl
    · rfl

theorem noteByID_launchNewNote (h : (s.launchNewNote pools c e).2 ≠ 0) :
    ((s.launchNewNote pools c e).1.noteByID (s.launchNewNote pools c e).2).isSome = true := by
  rw [launchNewNote] at h ⊢
  dsimp only at h ⊢
  split at h
  · exact absurd rfl h
  · split at h
    · exact absurd rfl h
    · next hzero _ hostKey _ =>
      rw [if_neg hzero]
      dsimp only
      rw [onChannel_noteByID, noteByID, List.find?_isSome]
      exact ⟨_, List.mem_append_right _ List.mem_cons_self, by simp⟩

end Keyboards

namespace SoloKeyboards

/-! ## What solo mode is for -/

structure Solo (s : SoloKeyboards C) (c : C) : Prop where
  soloMode : (s.channel c).soloMode = true
  hasInstrument : (s.channel c).hasInstrument = true

def IsPressed (s : SoloKeyboards C) (c : C) (k : Key) : Prop := (s.key c k).keyPressed = true

def SoloKeyPressed (s : SoloKeyboards C) (c : C) : Prop :=
  ∀ k ∈ (s.channel c).soloKey, s.IsPressed c k

/-- There is no solo key only if no key is pressed. -/
def SoloKeyHighest (s : SoloKeyboards C) (c : C) : Prop :=
  match (s.channel c).soloKey with
  | none => ∀ k, ¬ s.IsPressed c k
  | some k => IsGreatest {k | s.IsPressed c k} k

/-- What a note-off is to do: if it releases the solo key, the highest pressed
key gets a voice. -/
structure Follows (s s' : SoloKeyboards C) (c : C) (e : KeyEvent) : Prop where
  highest : (s.channel c).soloKey = some e.key → s'.SoloKeyHighest c
  respawned : (s.channel c).soloKey = some e.key → ∀ k ∈ (s'.channel c).soloKey,
    ∃ v ∈ s'.launched.drop s.launched.length, v.channel = c ∧ v.key = k
  unchanged : (s.channel c).soloKey ≠ some e.key → (s'.channel c).soloKey = (s.channel c).soloKey

/-! ## When it does -/

/-- The key is still pressed after the note-off. -/
def StaysPressed (s : SoloKeyboards C) (c : C) (e : KeyEvent) (k : Key) : Prop :=
  k ≠ e.key ∧ s.IsPressed c k

/-- There are an event, a note and a voice for the other key. -/
structure CanRespawn (s : SoloKeyboards C) (o : KeyOutcome C) (c : C) (e : KeyEvent) (i : Key) :
    Prop where
  event : o.alloc i = true
  note : (s.launchNewNote o.pools c { e with key := i }).2 ≠ 0
  voice : ∃ l ∈ o.launches i, l.isStarted = true

/-- If the solo key is released, then no other key is pressed, or one above key 0
is; with portamento the released key has a note. -/
def Meets (s : SoloKeyboards C) (o : KeyOutcome C) (c : C) (e : KeyEvent) : Prop :=
  (s.channel c).soloKey = some e.key → (s.channel c).mute = false ∧
    ((∀ k, ¬ s.StaysPressed c e k) ∨
      ∃ i, 0 < i ∧ IsGreatest {k | s.StaysPressed c e k} i ∧
        (s.portamentoMode c = true → s.pActiveNotes c e.key ≠ []) ∧ s.CanRespawn o c e i)

variable {s s' : SoloKeyboards C} {glide : Option ℚ} {o : KeyOutcome C} {c : C} {e : KeyEvent}
  {k i : Key}

/-! ## The voices of the other key -/

theorem updatePortamentoPos_eq_none :
    s.updatePortamentoPos glide c k = none ↔
      s.portamentoMode c = true ∧ s.pActiveNotes c k = [] := by
  rw [updatePortamentoPos]
  split
  · next hmode =>
    split
    · next hnil => simp [hmode, hnil]
    · next hcons => simp [hcons]
  · next hmode => simp [hmode]

theorem updatePortamentoPos_launched (h : s.updatePortamentoPos glide c k = some s') :
    s'.launched = s.launched := by
  rw [updatePortamentoPos] at h
  split at h
  · split at h
    · cases h
    · rw [← Option.some.inj h]
      cases glide <;> rfl
  · rw [Option.some.inj h]

theorem respawn_launched : ∃ L, (s.respawn o c e i).launched = s.launched ++ L ∧
    ((∃ v ∈ L, v.channel = c ∧ v.key = i) ↔ s.CanRespawn o c e i) := by
  have hid (velocity : ℕ) (f : KeyboardChannel → KeyboardChannel) :
      ((s.toKeyboards.onChannel c f).launchNewNote o.pools c
        { e with type := .note_on, key := i, velocity := velocity }).2 =
      (s.launchNewNote o.pools c { e with key := i }).2 :=
    Keyboards.launchNewNote_id_congr rfl rfl rfl
  rw [respawn]
  by_cases halloc : o.alloc i = true
  · rw [if_pos halloc]
    dsimp only
    by_cases hzero : (s.launchNewNote o.pools c { e with key := i }).2 = 0
    · refine ⟨[], ?_, iff_of_false (by simp) fun hcan => hcan.note hzero⟩
      split
      · exact (List.append_nil _).symm
      · next hne => exact absurd ((hid _ _).trans hzero) hne
    · refine ⟨((o.launches i).filter Launch.isStarted).map fun _ =>
        ⟨c, i, (s.launchNewNote o.pools c { e with key := i }).2⟩, ?_, ?_⟩
      · split
        · next heq => exact absurd ((hid _ _).symm.trans heq) hzero
        · next hne =>
          have hsome := Keyboards.noteByID_launchNewNote hne
          refine (congrArg (s.launched ++ ·) (if_pos hsome)).trans ?_
          exact congrArg (fun id => s.launched ++
            ((o.launches i).filter Launch.isStarted).map fun _ => ⟨c, i, id⟩) (hid _ _)
      · simp only [List.mem_map, List.mem_filter]
        constructor
        · rintro ⟨-, ⟨l, ⟨hl, hstarted⟩, -⟩, -⟩
          exact ⟨halloc, hzero, l, hl, hstarted⟩
        · rintro ⟨-, -, l, hl, hstarted⟩
          exact ⟨_, ⟨l, ⟨hl, hstarted⟩, rfl⟩, rfl, rfl⟩
  · rw [if_neg halloc]
    exact ⟨[], (List.append_nil _).symm, iff_of_false (by simp) fun hcan => halloc hcan.event⟩

/-- The search has found no other key, or the voices of the released key are
read and voices of the other key are started. -/
theorem processNoteOff_cases (glide : Option ℚ) (o : KeyOutcome C) (h : s.Solo c)
    (hmute : (s.channel c).mute = false) (htype : e.type = .note_off) :
    (¬ ((s.channel c).soloKey = some e.key ∧
        (((s.channel c).receiveNoteOff e).highestPressed).isSome = true) ∧
      ∃ s', s.processNoteOff glide o c e = some s' ∧ s'.launched = s.launched) ∨
    ((s.channel c).soloKey = some e.key ∧
      ∃ i, ((s.channel c).receiveNoteOff e).highestPressed = some i ∧
        (s.portamentoMode c = true ∧ s.pActiveNotes c e.key = [] ∧
            s.processNoteOff glide o c e = none ∨
          (s.portamentoMode c = true → s.pActiveNotes c e.key ≠ []) ∧
            ∃ s' L, s.processNoteOff glide o c e = some s' ∧ s'.launched = s.launched ++ L ∧
              ((∃ v ∈ L, v.channel = c ∧ v.key = i) ↔ s.CanRespawn o c e i))) := by
  have hplays : ¬ (s.channel c).mute = true := by simp [hmute]
  set s₁ := s.onKeys (·.onChannel c (·.receiveNoteOff e)) with hs₁
  have hch : s₁.channel c = (s.channel c).receiveNoteOff e := Keyboards.onChannel_self
  have hsolo : (s₁.channel c).soloMode = true ∧ (s₁.channel c).hasInstrument = true := by
    rw [hch]
    exact ⟨h.soloMode, h.hasInstrument⟩
  have hkey : (s₁.channel c).soloKey = (s.channel c).soloKey := by
    rw [hch]
    rfl
  -- what follows on the search changes neither the voices nor whether there is a result
  have hrest : s.processNoteOff glide o c e = (s₁.respawnSolo glide o c e).map fun r =>
      let killed := r.2 && (r.1.key c e.key).active
      (if ((s₁.key c e.key).active && (s₁.channel c).shouldReleaseVoice e.key) && !killed then
        r.1.onKeys (·.releaseKey o c (s.key c e.key).events.length e)
      else r.1).onKeys (·.freeUnused c e.key (s.key c e.key).events.length) := by
    rw [processNoteOff, if_neg hplays, if_pos htype, processKeyRelease]
    dsimp only
    rw [← hs₁]
    cases s₁.respawnSolo glide o c e with
    | none => rfl
    | some r => rfl
  have hsome {r : SoloKeyboards C × Bool} (hr : s₁.respawnSolo glide o c e = some r) :
      ∃ s', s.processNoteOff glide o c e = some s' ∧ s'.launched = r.1.launched := by
    rw [hrest, hr]
    refine ⟨_, rfl, ?_⟩
    dsimp only
    split
    · rfl
    · rfl
  by_cases hown : (s.channel c).soloKey = some e.key
  · cases hsearch : ((s.channel c).receiveNoteOff e).highestPressed with
    | none =>
        have hr : s₁.respawnSolo glide o c e = some
            ((s₁.onKeys (·.onChannel c ({ · with soloKey := none }))).setPortamentoPos c (-1),
              false) := by
          rw [respawnSolo, if_pos hsolo, if_pos (hkey.trans hown), hch, hsearch]
        exact .inl ⟨by simp, hsome hr⟩
    | some i =>
        set s₂ := s₁.onKeys (·.onChannel c ({ · with soloKey := some i })) with hs₂
        have hr : s₁.respawnSolo glide o c e =
            (s₂.updatePortamentoPos glide c e.key).map fun s => (s.respawn o c e i, true) := by
          rw [respawnSolo, if_pos hsolo, if_pos (hkey.trans hown), hch, hsearch]
          dsimp only
          rw [← hs₂]
          cases s₂.updatePortamentoPos glide c e.key with
          | none => rfl
          | some r => rfl
        refine .inr ⟨hown, i, rfl, ?_⟩
        cases hupdate : s₂.updatePortamentoPos glide c e.key with
        | none =>
            obtain ⟨hmode, hnil⟩ := updatePortamentoPos_eq_none.mp hupdate
            refine .inl ⟨hmode, hnil, ?_⟩
            rw [hrest, hr, hupdate]
            rfl
        | some s₃ =>
            have hnot : ¬ (s.portamentoMode c = true ∧ s.pActiveNotes c e.key = []) := by
              intro hand
              have hnone : s₂.updatePortamentoPos glide c e.key = none :=
                updatePortamentoPos_eq_none.mpr hand
              rw [hupdate] at hnone
              cases hnone
            rw [hupdate] at hr
            obtain ⟨s', hs', hlaunched⟩ := hsome hr
            obtain ⟨L, hL, hcan⟩ := respawn_launched (s := s₃) (o := o) (c := c) (e := e) (i := i)
            have hkeys₃ := toKeyboards_updatePortamentoPos hupdate
            refine .inr ⟨fun hmode hnil => hnot ⟨hmode, hnil⟩, s', L, hs', ?_, hcan.trans ?_⟩
            · rw [hlaunched, hL, updatePortamentoPos_launched hupdate]
              rfl
            · have hid : (s₃.launchNewNote o.pools c { e with key := i }).2 =
                  (s.launchNewNote o.pools c { e with key := i }).2 := by
                rw [hkeys₃]
                exact Keyboards.launchNewNote_id_congr rfl rfl rfl
              constructor
              · rintro ⟨hevent, hnote, hvoice⟩
                exact ⟨hevent, hid ▸ hnote, hvoice⟩
              · rintro ⟨hevent, hnote, hvoice⟩
                exact ⟨hevent, hid.symm ▸ hnote, hvoice⟩
  · have hr : s₁.respawnSolo glide o c e = some (s₁.setPortamentoPos c (-1), false) := by
      rw [respawnSolo, if_pos hsolo, if_neg fun heq => hown (hkey.symm.trans heq)]
    exact .inl ⟨fun hand => hown hand.1, hsome hr⟩

/-! ## The released key -/

omit [DecidableEq C] in
theorem keyPressed_receiveNoteOff :
    ((s.channel c).receiveNoteOff e).soloOf.keyPressed k = true ↔ s.StaysPressed c e k := by
  rw [KeyboardChannel.receiveNoteOff_soloOf]
  dsimp only
  by_cases hk : k = e.key
  · subst hk
    rw [Function.update_self]
    exact iff_of_false (by simp) fun hstays => hstays.1 rfl
  · rw [Function.update_of_ne hk]
    exact (and_iff_right hk).symm

theorem soloOf_processNoteOff (hmute : (s.channel c).mute = false) (htype : e.type = .note_off)
    (hs' : s.processNoteOff glide o c e = some s') : s'.soloOf c = s.releaseOf c e := by
  rw [toKeyboards_processNoteOff hs', Keyboards.processNoteOff_soloOf, if_pos ⟨hmute, htype⟩,
    Function.update_self]

theorem soloKey_processNoteOff (h : s.Solo c) (hmute : (s.channel c).mute = false)
    (htype : e.type = .note_off) (hs' : s.processNoteOff glide o c e = some s') :
    (s'.channel c).soloKey =
      if (s.channel c).soloKey = some e.key then
        ((s.channel c).receiveNoteOff e).highestPressed
      else (s.channel c).soloKey := by
  have hview := congrArg SoloView.soloKey (soloOf_processNoteOff hmute htype hs')
  change (s'.channel c).soloKey = _ at hview
  rw [hview, Keyboards.releaseOf, KeyboardChannel.receiveNoteOff_soloOf]
  by_cases hown : (s.channel c).soloKey = some e.key
  · rw [if_pos ⟨h.soloMode, h.hasInstrument, hown⟩, if_pos hown]
  · rw [if_neg fun hand => hown hand.2.2, if_neg hown]
    rfl

theorem isPressed_processNoteOff (hmute : (s.channel c).mute = false) (htype : e.type = .note_off)
    (hs' : s.processNoteOff glide o c e = some s') : s'.IsPressed c k ↔ s.StaysPressed c e k := by
  have hview := congrArg SoloView.keyPressed (soloOf_processNoteOff hmute htype hs')
  have hkeys : (s.releaseOf c e).keyPressed =
      ((s.channel c).receiveNoteOff e).soloOf.keyPressed := by
    rw [Keyboards.releaseOf]
    split
    · rfl
    · rfl
  rw [hkeys] at hview
  rw [← keyPressed_receiveNoteOff, ← hview]
  rfl

/-- Solo mode follows the highest pressed key exactly if the condition holds. -/
theorem Solo.follows_iff (glide : Option ℚ) (h : s.Solo c) (htype : e.type = .note_off) :
    (∃ s', s.processNoteOff glide o c e = some s' ∧ s.Follows s' c e) ↔ s.Meets o c e := by
  have hgreatest (i : Key) : IsGreatest {k | s.StaysPressed c e k} i ↔
      IsGreatest {k | ((s.channel c).receiveNoteOff e).soloOf.keyPressed k = true} i := by
    simp only [keyPressed_receiveNoteOff]
  by_cases hplays : (s.channel c).mute = true
  · -- a muted channel ignores the event
    have hs' : s.processNoteOff glide o c e = some s := by
      rw [processNoteOff, if_pos hplays]
    by_cases hown : (s.channel c).soloKey = some e.key
    · refine iff_of_false ?_ fun hmeets => ?_
      · rintro ⟨s', hs'', hfollows⟩
        cases hs'.symm.trans hs''
        obtain ⟨v, hv, -⟩ := hfollows.respawned hown _ hown
        rw [List.drop_length] at hv
        cases hv
      · have hmute := (hmeets hown).1
        rw [hplays] at hmute
        cases hmute
    · exact iff_of_true ⟨s, hs', fun heq => absurd heq hown, fun heq => absurd heq hown,
        fun _ => rfl⟩ fun heq => absurd heq hown
  have hmute : (s.channel c).mute = false := Bool.eq_false_iff.mpr hplays
  rcases processNoteOff_cases glide o h hmute htype with
    ⟨hnot, s', hs', hlaunched⟩ | ⟨hown, i, hi, hcase⟩
  · have hsoloKey := soloKey_processNoteOff h hmute htype hs'
    by_cases hown : (s.channel c).soloKey = some e.key
    · -- no key above key 0 is pressed
      have hnone : ((s.channel c).receiveNoteOff e).highestPressed = none := by
        rw [← Option.not_isSome_iff_eq_none]
        exact fun hsome => hnot ⟨hown, hsome⟩
      rw [if_pos hown, hnone] at hsoloKey
      have hiff : s'.SoloKeyHighest c ↔ ∀ k, ¬ s.StaysPressed c e k := by
        rw [SoloKeyHighest, hsoloKey]
        exact forall_congr' fun k => not_congr (isPressed_processNoteOff hmute htype hs')
      constructor
      · rintro ⟨s'', hs'', hfollows⟩ -
        cases hs'.symm.trans hs''
        exact ⟨hmute, .inl (hiff.mp (hfollows.highest hown))⟩
      · intro hmeets
        refine ⟨s', hs', fun _ => hiff.mpr ?_, fun _ k hk => ?_, fun hne => absurd hown hne⟩
        · rcases (hmeets hown).2 with hall | ⟨j, hpos, hj, -⟩
          · exact hall
          · have hsome := KeyboardChannel.highestPressed_eq_some.mpr ⟨hpos, (hgreatest j).mp hj⟩
            rw [hnone] at hsome
            cases hsome
        · rw [hsoloKey] at hk
          cases hk
    · rw [if_neg hown] at hsoloKey
      refine iff_of_true ⟨s', hs', fun heq => absurd heq hown, fun heq => absurd heq hown,
        fun _ => hsoloKey⟩ fun heq => absurd heq hown
  · obtain ⟨hpos, hi'⟩ := KeyboardChannel.highestPressed_eq_some.mp hi
    have hstays := (hgreatest i).mpr hi'
    have hmeets : s.Meets o c e ↔
        (s.portamentoMode c = true → s.pActiveNotes c e.key ≠ []) ∧ s.CanRespawn o c e i := by
      constructor
      · intro hmeets
        rcases (hmeets hown).2 with hall | ⟨j, -, hj, hnotes, hcan⟩
        · exact absurd hstays.1 (hall i)
        · rw [hj.unique hstays] at hcan
          exact ⟨hnotes, hcan⟩
      · rintro ⟨hnotes, hcan⟩ -
        exact ⟨hmute, .inr ⟨i, hpos, hstays, hnotes, hcan⟩⟩
    rw [hmeets]
    rcases hcase with ⟨hmode, hnil, hs'⟩ | ⟨hnotes, s', L, hs', hlaunched, hcan⟩
    · refine iff_of_false ?_ fun hand => hand.1 hmode hnil
      rintro ⟨s', hs'', -⟩
      rw [hs'] at hs''
      cases hs''
    · have hsoloKey := soloKey_processNoteOff h hmute htype hs'
      rw [if_pos hown, hi] at hsoloKey
      have hdrop : s'.launched.drop s.launched.length = L := by
        rw [hlaunched, List.drop_left]
      constructor
      · rintro ⟨s'', hs'', hfollows⟩
        cases hs'.symm.trans hs''
        have hvoice := hfollows.respawned hown i hsoloKey
        rw [hdrop] at hvoice
        exact ⟨hnotes, hcan.mp hvoice⟩
      · rintro ⟨-, hcanRespawn⟩
        refine ⟨s', hs', fun _ => ?_, fun _ k hk => ?_, fun hne => absurd hown hne⟩
        · rw [SoloKeyHighest, hsoloKey]
          have hset : {k | s'.IsPressed c k} = {k | s.StaysPressed c e k} :=
            Set.ext fun k => isPressed_processNoteOff hmute htype hs'
          rwa [hset]
        · rw [hsoloKey] at hk
          cases hk
          rw [hdrop]
          exact hcan.mpr hcanRespawn

end SoloKeyboards

end LinuxSampler
