import LinuxSampler.KeyboardTranspose

/-!
# Solo mode

In solo mode only the notes of one key sound, and when that key is released
the highest key that is still pressed sounds again. This adds to the keys of
an engine what solo mode has to do with portamento: the position where the
next voice starts to glide, which is read from the voices of the key that is
left. The first note of a released key is read without a test, so that the
processing of a note-off may follow a null pointer.

What the keys themselves do is as in `Keyboards`, see `toKeyboards_step`.
-/

namespace LinuxSampler

/-- A voice that was started for a note. -/
structure VoiceLaunch (C : Type*) where
  channel : C
  key : Key
  noteID : ℕ
deriving DecidableEq

/-- `launched` is no data of the class: the voices that were started by note-ons,
pseudo note-ons included. -/
structure SoloKeyboards (C : Type*) extends Keyboards C where
  portamentoMode : C → Bool
  portamentoPos : C → ℚ
  launched : List (VoiceLaunch C)

variable {C : Type*} [DecidableEq C]

/-- `pActiveNotes` of a key. -/
def Keyboards.pActiveNotes (s : Keyboards C) (c : C) (k : Key) : List (NoteObject C) :=
  s.notes.filter fun note => note.channel = c ∧ note.hostKey = k

namespace SoloKeyboards

def onKeys (s : SoloKeyboards C) (f : Keyboards C → Keyboards C) : SoloKeyboards C :=
  { s with toKeyboards := f s.toKeyboards }

def setPortamentoPos (s : SoloKeyboards C) (c : C) (pos : ℚ) : SoloKeyboards C :=
  { s with portamentoPos := Function.update s.portamentoPos c pos }

/-! ## Note-on -/

def triggerNewVoices (launches : List Launch) (c : C) (e : KeyEvent) (s : SoloKeyboards C) :
    SoloKeyboards C :=
  { s.onKeys (·.triggerNewVoices launches c e) with
    launched := s.launched ++
      if (s.noteByID e.noteID).isSome then
        (launches.filter Launch.isStarted).map fun _ => ⟨c, e.key, e.noteID⟩
      else [] }

/-- `glide` is what `UpdatePortamentoPos()` of the voice that sounds gives, if
there is one. Here the note and the voice are tested. -/
def processNoteOn (glide : Option ℚ) (o : KeyOutcome C) (c : C) (e : KeyEvent)
    (s : SoloKeyboards C) : SoloKeyboards C :=
  if (s.channel c).mute then s
  else if !(s.channel c).hasInstrument then s
  else
    let n := (s.key c e.key).events.length
    let s :=
      if (s.channel c).soloMode ∧ e.type = .note_on ∧ s.portamentoMode c then
        glide.elim s (s.setPortamentoPos c)
      else s
    let s := s.onKeys (·.onChannel c (·.receiveNoteOn e))
    let s := s.onKeys (·.onChannel c (·.cancelRelease (o.alloc e.key) e))
    let s := s.triggerNewVoices (o.launches e.key) c e
    let s := s.onKeys (·.freeUnused c e.key n)
    if e.type = .note_on ∧ ((s.channel c).soloMode = false ∨ s.portamentoPos c < 0) then
      s.setPortamentoPos c e.key.val
    else s

/-! ## Note-off -/

/-- `none`: the released key has no note, its first one is read all the same.
`glide` is the position of the first voice of that note, if it has one. -/
def updatePortamentoPos (glide : Option ℚ) (c : C) (k : Key) (s : SoloKeyboards C) :
    Option (SoloKeyboards C) :=
  if s.portamentoMode c then
    match s.pActiveNotes c k with
    | [] => none
    | _ :: _ => some (glide.elim s (s.setPortamentoPos c))
  else some s

/-- A pseudo note-on event starts voices on the other key. -/
def respawn (o : KeyOutcome C) (c : C) (e : KeyEvent) (i : Key) (s : SoloKeyboards C) :
    SoloKeyboards C :=
  if o.alloc i then
    let n := (s.key c i).events.length
    let pseudo := { e with type := .note_on, key := i, velocity := (s.key c i).velocity }
    let s := s.onKeys (·.onChannel c (·.append i pseudo))
    let launched := s.launchNewNote o.pools c pseudo
    let noteID := launched.2
    let s := s.onKeys fun _ => launched.1
    let s :=
      if noteID = 0 then s
      else
        (s.onKeys (·.onChannel c
          (·.modifyKey i (·.modifyEvent n ({ · with noteID := noteID }))))).triggerNewVoices
            (o.launches i) c { pseudo with noteID := noteID }
    s.onKeys (·.freeUnused c i n)
  else s

/-- The result is `bOtherKeysPressed`. -/
def respawnSolo (glide : Option ℚ) (o : KeyOutcome C) (c : C) (e : KeyEvent)
    (s : SoloKeyboards C) : Option (SoloKeyboards C × Bool) :=
  if (s.channel c).soloMode ∧ (s.channel c).hasInstrument then
    if (s.channel c).soloKey = some e.key then
      match (s.channel c).highestPressed with
      | none =>
          let s := s.onKeys (·.onChannel c ({ · with soloKey := none }))
          some (s.setPortamentoPos c (-1), false)
      | some i => do
          let s := s.onKeys (·.onChannel c ({ · with soloKey := some i }))
          let s ← s.updatePortamentoPos glide c e.key
          return (s.respawn o c e i, true)
    else some (s.setPortamentoPos c (-1), false)
  else some (s, false)

def processKeyRelease (glide : Option ℚ) (o : KeyOutcome C) (c : C) (e : KeyEvent)
    (s : SoloKeyboards C) : Option (SoloKeyboards C) := do
  let n := (s.key c e.key).events.length
  let s := s.onKeys (·.onChannel c (·.receiveNoteOff e))
  let bShouldRelease := (s.key c e.key).active && (s.channel c).shouldReleaseVoice e.key
  let (s, bOtherKeysPressed) ← s.respawnSolo glide o c e
  let killed := bOtherKeysPressed && (s.key c e.key).active
  let s := if bShouldRelease && !killed then s.onKeys (·.releaseKey o c n e) else s
  return s.onKeys (·.freeUnused c e.key n)

def processNoteOff (glide : Option ℚ) (o : KeyOutcome C) (c : C) (e : KeyEvent)
    (s : SoloKeyboards C) : Option (SoloKeyboards C) :=
  if (s.channel c).mute then some s
  else if e.type = .note_off then s.processKeyRelease glide o c e
  else some (s.onKeys (·.processStopNote c e))

/-! ## Steps -/

/-- The keys handle all other events as ever. -/
def processEvent (glide : Option ℚ) (o : KeyOutcome C) (c : C) (s : SoloKeyboards C) :
    Option (SoloKeyboards C) :=
  match (s.channel c).events with
  | [] => some s
  | e :: rest =>
      let popped := s.onKeys (·.onChannel c ({ · with events := rest }))
      let reset (s : SoloKeyboards C) := s.onKeys (·.onChannel c (·.resetParameters false false))
      match e.type with
      | .note_on | .play_note => some (reset (popped.processNoteOn glide o c e))
      | .note_off | .stop_note => (popped.processNoteOff glide o c e).map reset
      | _ => some (s.onKeys (·.processEvent o c))

def processCtrlTrigger (glide : Option ℚ) (o : KeyOutcome C) (c : C) (e : KeyEvent)
    (s : SoloKeyboards C) : Option (SoloKeyboards C) :=
  if (s.channel c).hasInstrument then
    if e.type = .note_on then some (s.processNoteOn glide o c e)
    else s.processNoteOff glide o c e
  else some s

/-- `none`: a null pointer was followed. -/
def step (glide : Option ℚ) (s : SoloKeyboards C) : KeyAction C → Option (SoloKeyboards C)
  | .processEvent o c => s.processEvent glide o c
  | .processCtrlTrigger o c e => s.processCtrlTrigger glide o c e
  | a => some (s.onKeys (·.step a))

def run : List (KeyAction C × Option ℚ) → SoloKeyboards C → Option (SoloKeyboards C)
  | [], s => some s
  | (a, glide) :: as, s => (s.step glide a).bind (run as)

/-! ## The keys of the engine -/

variable {s s' : SoloKeyboards C} {glide : Option ℚ} {o : KeyOutcome C} {c : C} {e : KeyEvent}
  {k i : Key}

omit [DecidableEq C] in
@[simp] theorem toKeyboards_onKeys {f : Keyboards C → Keyboards C} :
    (s.onKeys f).toKeyboards = f s.toKeyboards := rfl

@[simp] theorem toKeyboards_setPortamentoPos {pos : ℚ} :
    (s.setPortamentoPos c pos).toKeyboards = s.toKeyboards := rfl

@[simp] theorem toKeyboards_triggerNewVoices {launches : List Launch} :
    (s.triggerNewVoices launches c e).toKeyboards = s.toKeyboards.triggerNewVoices launches c e :=
  rfl

@[simp] theorem toKeyboards_glide :
    (glide.elim s (s.setPortamentoPos c)).toKeyboards = s.toKeyboards := by
  cases glide <;> rfl

omit [DecidableEq C] in
/-- A new position does not matter. -/
theorem toKeyboards_ite {p : Prop} [Decidable p] (h : s'.toKeyboards = s.toKeyboards) :
    (if p then s' else s).toKeyboards = s.toKeyboards := by
  split
  · exact h
  · rfl

theorem toKeyboards_processNoteOn :
    (s.processNoteOn glide o c e).toKeyboards = s.toKeyboards.processNoteOn o c e := by
  rw [processNoteOn, Keyboards.processNoteOn]
  split
  · rfl
  · split
    · rfl
    · dsimp only
      rw [toKeyboards_ite toKeyboards_setPortamentoPos]
      simp only [toKeyboards_onKeys, toKeyboards_triggerNewVoices,
        toKeyboards_ite toKeyboards_glide]

theorem toKeyboards_updatePortamentoPos (h : s.updatePortamentoPos glide c k = some s') :
    s'.toKeyboards = s.toKeyboards := by
  rw [updatePortamentoPos] at h
  split at h
  · split at h
    · cases h
    · rw [← Option.some.inj h]
      exact toKeyboards_glide
  · rw [Option.some.inj h]

theorem toKeyboards_respawnSolo {b : Bool} (h : s.respawnSolo glide o c e = some (s', b)) :
    (s'.toKeyboards, b) = s.toKeyboards.respawnSolo o c e := by
  rw [respawnSolo] at h
  rw [Keyboards.respawnSolo]
  split at h
  · next hsolo =>
    split at h
    · next hkey =>
      rw [if_pos ⟨hsolo.1, hsolo.2, hkey⟩]
      rcases Option.eq_none_or_eq_some (s.channel c).highestPressed with hnone | ⟨i, hi⟩
      · rw [hnone] at h ⊢
        cases h
        rfl
      · rw [hi] at h ⊢
        obtain ⟨s₁, hs₁, h⟩ := Option.bind_eq_some_iff.mp h
        cases h
        have hkeys := toKeyboards_updatePortamentoPos hs₁
        dsimp only
        rw [respawn]
        simp only [hkeys, toKeyboards_onKeys]
        split
        · simp only [toKeyboards_onKeys]
          split
          · simp only [toKeyboards_onKeys]
          · simp only [toKeyboards_onKeys, toKeyboards_triggerNewVoices]
        · rw [hkeys]
          rfl
    · next hkey =>
      rw [if_neg fun hand => hkey hand.2.2]
      cases h
      rfl
  · next hsolo =>
    rw [if_neg fun hand => hsolo ⟨hand.1, hand.2.1⟩]
    cases h
    rfl

theorem toKeyboards_processNoteOff (h : s.processNoteOff glide o c e = some s') :
    s'.toKeyboards = s.toKeyboards.processNoteOff o c e := by
  rw [processNoteOff] at h
  rw [Keyboards.processNoteOff]
  split at h
  · next hmute =>
    rw [if_pos hmute, Option.some.inj h]
  · next hmute =>
    rw [if_neg hmute]
    split at h
    · next htype =>
      rw [if_pos htype]
      obtain ⟨⟨s₁, b⟩, hs₁, h⟩ := Option.bind_eq_some_iff.mp h
      cases h
      have hrespawn := toKeyboards_respawnSolo hs₁
      rw [toKeyboards_onKeys] at hrespawn
      rw [Keyboards.processKeyRelease, ← hrespawn]
      dsimp only
      rw [toKeyboards_onKeys]
      congr 1
      split
      · next hrelease => exact (if_pos hrelease).symm
      · next hrelease => exact (if_neg hrelease).symm
    · next htype =>
      rw [if_neg htype, ← Option.some.inj h]
      rfl

/-- The keys do not depend on the portamento. -/
theorem toKeyboards_step {a : KeyAction C} (h : s.step glide a = some s') :
    s'.toKeyboards = s.toKeyboards.step a := by
  cases a with
  | processEvent o c =>
      change s.processEvent glide o c = some s' at h
      change s'.toKeyboards = s.toKeyboards.processEvent o c
      rw [processEvent] at h
      rw [Keyboards.processEvent]
      rcases eq_or_ne (s.channel c).events [] with hnil | hne
      · rw [hnil] at h ⊢
        rw [← Option.some.inj h]
      · obtain ⟨e, rest, hcons⟩ := List.exists_cons_of_ne_nil hne
        rw [hcons] at h ⊢
        dsimp only at h ⊢
        cases htype : e.type with
        | note_on | play_note =>
            rw [htype] at h
            rw [← Option.some.inj h, toKeyboards_onKeys, toKeyboards_processNoteOn]
            rfl
        | note_off | stop_note =>
            rw [htype] at h
            obtain ⟨s₁, hs₁, rfl⟩ := Option.map_eq_some_iff.mp h
            rw [toKeyboards_onKeys, toKeyboards_processNoteOff hs₁]
            rfl
        | _ =>
            rw [htype] at h
            rw [← Option.some.inj h, toKeyboards_onKeys, Keyboards.processEvent, hcons]
            dsimp only
            rw [htype]
  | processCtrlTrigger o c e =>
      change s.processCtrlTrigger glide o c e = some s' at h
      change s'.toKeyboards = s.toKeyboards.processCtrlTrigger o c e
      rw [processCtrlTrigger] at h
      rw [Keyboards.processCtrlTrigger]
      split at h
      · next hloaded =>
        rw [if_pos hloaded]
        split at h
        · next htype =>
          rw [if_pos htype, ← Option.some.inj h, toKeyboards_processNoteOn]
        · next htype =>
          rw [if_neg htype, toKeyboards_processNoteOff h]
      · next hloaded =>
        rw [if_neg hloaded, Option.some.inj h]
  | startFragment | importEvent _ _ _ _ _ | callScript _ | insertDelayed _ _ _
    | processRegions _ _ _ | endFragment _ _ | resetInternal _ | resetEngine | resetControllers _
    | setInstrument _ _ | setMute _ _ =>
      rw [← Option.some.inj h]
      rfl

end SoloKeyboards

end LinuxSampler
