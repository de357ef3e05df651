import LinuxSampler.KeyboardPress
import LinuxSampler.KeyboardStolen

/-!
# Pressed keys and the transposition

A note event lands on a key when it is imported, under the transposition of
that moment. Whether all keys are released at the end of a run is decided by
the keys its events landed on, not by their note numbers.
-/

namespace LinuxSampler

/-! ## Lists of note events -/

def KeyEvent.releases (e : KeyEvent) (k : Key) : Bool :=
  decide (e.type = .note_off) && decide (e.key = k)

def KeyEvent.presses (e : KeyEvent) (k : Key) : Bool :=
  decide (e.type = .note_on) && decide (e.key = k)

/-- Whether the key is pressed after the events. -/
def pressedAfter (k : Key) (pressed : Bool) (es : List KeyEvent) : Bool :=
  es.foldl (fun pressed e => e.presses k || pressed && !e.releases k) pressed

/-- Each note-on is followed by a note-off for the same key. -/
def Answered : List KeyEvent → Prop
  | [] => True
  | e :: es => (e.type = .note_on → es.any (·.releases e.key) = true) ∧ Answered es

instance decidableAnswered : ∀ es, Decidable (Answered es)
  | [] => .isTrue trivial
  | _ :: es =>
      have : Decidable (Answered es) := decidableAnswered es
      inferInstanceAs (Decidable (_ ∧ _))

section Lists

variable {k : Key} {pressed : Bool} {e : KeyEvent} {es es' : List KeyEvent}

@[simp] theorem pressedAfter_nil : pressedAfter k pressed [] = pressed := rfl

@[simp] theorem pressedAfter_cons : pressedAfter k pressed (e :: es) =
    pressedAfter k (e.presses k || pressed && !e.releases k) es := rfl

theorem pressedAfter_append :
    pressedAfter k pressed (es ++ es') = pressedAfter k (pressedAfter k pressed es) es' :=
  List.foldl_append

/-- A key that was pressed before stays so until it is released. -/
theorem pressedAfter_eq : pressedAfter k pressed es =
    (pressedAfter k false es || pressed && !es.any (·.releases k)) := by
  induction es generalizing pressed with
  | nil => simp
  | cons e es ih =>
    have hset : ∀ b, pressedAfter k b es =
        (pressedAfter k false es || b && !es.any (·.releases k)) := fun _ => ih
    rw [pressedAfter_cons, pressedAfter_cons, hset, hset (e.presses k || _), List.any_cons]
    cases e.presses k <;> cases e.releases k <;> cases pressed <;> simp

theorem forall_not_pressedAfter : (∀ k, pressedAfter k false es = false) ↔ Answered es := by
  induction es with
  | nil => simp [Answered]
  | cons e es ih =>
    rw [Answered, ← ih]
    have hfirst : ∀ k, pressedAfter k false (e :: es) =
        (pressedAfter k false es || e.presses k && !es.any (·.releases k)) := by
      intro k
      rw [pressedAfter_cons, pressedAfter_eq, Bool.false_and, Bool.or_false]
    constructor
    · intro h
      refine ⟨fun hon => ?_, fun k => ?_⟩
      · have hkey := hfirst e.key
        rw [h, KeyEvent.presses, hon] at hkey
        have hleft := (Bool.or_eq_false_iff.mp hkey.symm).2
        simpa using hleft
      · have hkey := hfirst k
        rw [h] at hkey
        exact (Bool.or_eq_false_iff.mp hkey.symm).1
    · rintro ⟨hanswered, hrest⟩ k
      rw [hfirst, hrest, Bool.false_or, KeyEvent.presses]
      by_cases hon : e.type = .note_on
      · by_cases hk : e.key = k
        · rw [← hk, hanswered hon, Bool.not_true, Bool.and_false]
        · simp [hk]
      · simp [hon]

end Lists

namespace PressView

variable {p : PressView} {k : Key} {e : KeyEvent} {es : List KeyEvent}

/-- Note-ons are ignored by a channel that is muted or has no instrument, the
other channels play what lands on them: after the pending events the pressed keys
are those that `es` leaves pressed. -/
structure Plays (p : PressView) (loaded muted : Bool) (es : List KeyEvent) : Prop where
  instrument : p.hasInstrument = loaded
  mute : p.mute = muted
  down : p.keyDown = p.keyPressed
  silent : muted = true ∨ loaded = false → ∀ k, p.keyPressed k = false
  pending : muted = false → loaded = true → ∀ k,
    pressedAfter k (p.keyPressed k) p.events = pressedAfter k false es

variable {loaded muted pressed : Bool} {k' : Key}

theorem press_keyPressed :
    (p.press k pressed).keyPressed k' = if k' = k then pressed else p.keyPressed k' :=
  Function.update_apply ..

theorem press_down (h : p.keyDown = p.keyPressed) :
    (p.press k pressed).keyDown = (p.press k pressed).keyPressed := by
  simp only [press, h]

theorem play_instrument : (p.play e).hasInstrument = p.hasInstrument := by
  rw [play]
  repeat' split
  all_goals rfl

theorem play_mute : (p.play e).mute = p.mute := by
  rw [play]
  repeat' split
  all_goals rfl

theorem play_events : (p.play e).events = p.events := by
  rw [play]
  repeat' split
  all_goals rfl

theorem play_down (h : p.keyDown = p.keyPressed) : (p.play e).keyDown = (p.play e).keyPressed := by
  rw [play]
  repeat' split
  · exact h
  · exact press_down h
  · exact press_down h
  · exact h

/-- A channel that does not play may still release a key. -/
theorem play_silent (hnot : p.mute = true ∨ p.hasInstrument = false)
    (h : ∀ k, p.keyPressed k = false) : (p.play e).keyPressed k = false := by
  rw [play]
  split
  · exact h k
  · rename_i hmute
    split
    · rename_i hon
      rcases hnot with hnot | hnot
      · exact absurd hnot hmute
      · rw [hon.2] at hnot
        cases hnot
    · split
      · rw [press_keyPressed]
        split
        · rfl
        · exact h k
      · exact h k

theorem play_keyPressed (hmute : p.mute = false) (hloaded : p.hasInstrument = true) :
    (p.play e).keyPressed k = (e.presses k || p.keyPressed k && !e.releases k) := by
  rw [play, hmute, if_neg Bool.false_ne_true, KeyEvent.presses, KeyEvent.releases]
  by_cases hon : e.type = .note_on
  · rw [if_pos ⟨hon, hloaded⟩, press_keyPressed, hon]
    by_cases hk : k = e.key
    · simp [hk]
    · simp [hk, Ne.symm hk]
  · rw [if_neg fun h => hon h.1]
    by_cases hoff : e.type = .note_off
    · rw [if_pos hoff, press_keyPressed, hoff]
      by_cases hk : k = e.key
      · simp [hk]
      · simp [hk, Ne.symm hk]
    · rw [if_neg hoff]
      simp [hon, hoff]

theorem pop_events : p.pop.events = p.events.tail := by
  rw [pop]
  split
  · rename_i hevents
    rw [hevents]
    rfl
  · rename_i hevents
    rw [play_events, hevents, List.tail_cons]

theorem pop_mute : p.pop.mute = p.mute := by
  rw [pop]
  split
  · rfl
  · rw [play_mute]

theorem Plays.pop (h : p.Plays loaded muted es) : p.pop.Plays loaded muted es := by
  rw [PressView.pop]
  split
  · exact h
  · rename_i e rest hevents
    refine ⟨play_instrument.trans h.instrument, play_mute.trans h.mute, play_down h.down, ?_, ?_⟩
    · intro hnot k
      refine play_silent ?_ (h.silent hnot)
      rwa [← h.mute, ← h.instrument] at hnot
    · intro hmute hloaded k
      have hpending := h.pending hmute hloaded k
      rw [hevents, pressedAfter_cons] at hpending
      have hplay : ({ p with events := rest }.play e).keyPressed k =
          (e.presses k || p.keyPressed k && !e.releases k) :=
        play_keyPressed (h.mute.trans hmute) (h.instrument.trans hloaded)
      rw [hplay, play_events]
      exact hpending

/-- An event lands on the channel. -/
theorem Plays.land (h : p.Plays loaded muted es) {es' : List KeyEvent} :
    { p with events := p.events ++ es' }.Plays loaded muted (es ++ es') := by
  refine ⟨h.instrument, h.mute, h.down, h.silent, fun hmute hloaded k => ?_⟩
  rw [pressedAfter_append, pressedAfter_append, h.pending hmute hloaded]

end PressView

namespace Keyboards

variable {C : Type*} [DecidableEq C] {s : Keyboards C} {c : C} {e : KeyEvent}
  {answer : ℕ → Launch} {silent : ℕ → Bool} {a : KeyAction C} {as : List (KeyAction C)}
  {es : List KeyEvent} {loaded muted : Bool}

/-! ## Import -/

/-- What is queued when a MIDI event is imported: nothing if it is transposed out
of range or if its note cannot be launched. -/
def imported (alloc : Bool) (pools : NotePools) (c : C) (note : ℕ) (e : KeyEvent)
    (s : Keyboards C) : List KeyEvent :=
  if alloc then
    match (s.channel c).applyTranspose note e with
    | none => []
    | some e =>
        if e.type = .note_on then
          if pools.note e.key = 0 then [] else [{ e with noteID := pools.note e.key }]
        else [e]
  else []

omit [DecidableEq C] in
theorem applyTranspose_parentNoteID {note : ℕ} {e' : KeyEvent}
    (h : (s.channel c).applyTranspose note e = some e') : e'.parentNoteID = e.parentNoteID := by
  rw [KeyboardChannel.applyTranspose] at h
  split at h
  · cases h
    rfl
  · dsimp only at h
    split at h
    · cases h
    · cases h
      rfl

theorem launchNewNote_id {pools : NotePools} (h : e.parentNoteID = 0) :
    (s.launchNewNote pools c e).2 = pools.note e.key := by
  rw [launchNewNote]
  dsimp only
  split
  · rename_i hzero
    exact hzero.symm
  · rw [hostKeyOf, if_pos h]

theorem importEvent_pressOf {alloc : Bool} {pools : NotePools} {note : ℕ}
    (h : e.parentNoteID = 0) : (s.importEvent alloc pools c note e).pressOf =
      Function.update s.pressOf c { s.pressOf c with
        events := (s.pressOf c).events ++ s.imported alloc pools c note e } := by
  have hsame : Function.update s.pressOf c { s.pressOf c with
      events := (s.pressOf c).events ++ [] } = s.pressOf := by
    rw [List.append_nil]
    exact Function.update_eq_self ..
  rw [importEvent, imported]
  by_cases halloc : alloc = true
  · rw [if_pos halloc, if_pos halloc]
    cases htranspose : (s.channel c).applyTranspose note e with
    | none => exact hsame.symm
    | some e' =>
      dsimp only
      by_cases hon : e'.type = .note_on
      · have hparent : e'.parentNoteID = 0 := (applyTranspose_parentNoteID htranspose).trans h
        rw [if_pos hon, if_pos hon, launchNewNote_id hparent]
        by_cases hzero : pools.note e'.key = 0
        · rw [if_pos hzero, if_pos hzero, blind_pressOf.launchNewNote, hsame]
        · have hlaunch : (s.launchNewNote pools c e').1.pressOf = s.pressOf :=
            blind_pressOf.launchNewNote
          rw [if_neg hzero, if_neg hzero, pressOf_onChannel, hlaunch, ← hlaunch]
          rfl
      · rw [if_neg hon, if_neg hon, pressOf_onChannel]
        rfl
  · rw [if_neg halloc, if_neg halloc, hsame]

/-! ## The end of the fragment -/

theorem renderStolenVoices_pressOf {answer : ℕ → Launch} :
    (s.renderStolenVoices answer).pressOf = s.pressOf :=
  handlerBlind_pressOf.renderStolenVoices fun _ _ => rfl

theorem endFragment_pressOf : (s.endFragment answer silent).pressOf =
    fun c => { s.pressOf c with events := [] } := by
  have hrender : (s.renderStolenVoices answer).pressOf = s.pressOf := renderStolenVoices_pressOf
  refine funext fun c => ?_
  rw [← hrender]
  exact KeyboardChannel.cleanup_pressOf

/-! ## Runs -/

/-- MIDI input, without scripts and MIDI rules that trigger notes. -/
def MidiInput (_ : Keyboards C) : KeyAction C → Prop
  | .startFragment | .importEvent _ _ _ _ _ | .processRegions _ _ _ | .endFragment _ _
  | .resetControllers _ => True
  | .processEvent o _ => o.script = []
  | _ => False

instance (s : Keyboards C) : ∀ a : KeyAction C, Decidable (s.MidiInput a)
  | .startFragment | .importEvent _ _ _ _ _ | .processRegions _ _ _ | .endFragment _ _
  | .resetControllers _ => .isTrue trivial
  | .processEvent o _ => inferInstanceAs (Decidable (o.script = []))
  | .callScript _ | .insertDelayed _ _ _ | .processCtrlTrigger _ _ _ | .resetInternal _
  | .resetEngine | .setInstrument _ _ | .setMute _ _ => .isFalse id

/-- What lands on a channel. -/
def landing (s : Keyboards C) (c : C) : KeyAction C → List KeyEvent
  | .importEvent alloc pools c' note e => if c' = c then s.imported alloc pools c note e else []
  | _ => []

/-- What lands on a channel in a run. -/
def landings (c : C) : Keyboards C → List (KeyAction C) → List KeyEvent
  | _, [] => []
  | s, a :: as => s.landing c a ++ landings c (s.step a) as

theorem Plays.step (h : (s.pressOf c).Plays loaded muted es) (henabled : s.Enabled a)
    (hok : s.MidiInput a) : ((s.step a).pressOf c).Plays loaded muted (es ++ s.landing c a) := by
  have hquiet : ∀ {s' : Keyboards C}, s'.pressOf = s.pressOf →
      (s'.pressOf c).Plays loaded muted (es ++ []) := by
    intro s' hs'
    rwa [hs', List.append_nil]
  cases a with
  | startFragment => exact hquiet rfl
  | importEvent alloc pools c' note e =>
    rw [Keyboards.step, landing, importEvent_pressOf henabled.2.2.2]
    by_cases hc : c' = c
    · rcases hc with rfl
      rw [if_pos rfl, Function.update_self]
      exact h.land
    · rw [if_neg hc, Function.update_of_ne (Ne.symm hc), List.append_nil]
      exact h
  | processEvent o c' =>
    have hland : s.landing c (.processEvent o c') = [] := rfl
    rw [Keyboards.step, hland, processEvent_pressOf hok, List.append_nil]
    by_cases hc : c' = c
    · rcases hc with rfl
      rw [Function.update_self]
      exact h.pop
    · rwa [Function.update_of_ne (Ne.symm hc)]
  | processRegions o c' e => exact hquiet blind_pressOf.processRegions
  | endFragment answer silent =>
    rw [Keyboards.step, endFragment_pressOf]
    have hempty : (s.pressOf c).events = [] := henabled.2 c
    have hland : s.landing c (.endFragment answer silent) = [] := rfl
    refine ⟨h.instrument, h.mute, h.down, h.silent, fun hmute hloaded k => ?_⟩
    have hpending := h.pending hmute hloaded k
    rw [hempty] at hpending
    rw [hland, List.append_nil]
    exact hpending
  | resetControllers c' => exact hquiet (handlerBlind_pressOf.onChannel rfl)
  | callScript call => cases hok
  | insertDelayed c' n e => cases hok
  | processCtrlTrigger o c' e => cases hok
  | resetInternal c' => cases hok
  | resetEngine => cases hok
  | setInstrument c' loaded => cases hok
  | setMute c' mute => cases hok

theorem Plays.exec (h : (s.pressOf c).Plays loaded muted es)
    (hrun : (system C).RunFrom MidiInput s as) :
    (((system C).exec s as).pressOf c).Plays loaded muted (es ++ landings c s as) := by
  induction as generalizing s es with
  | nil =>
    rw [landings, List.append_nil]
    exact h
  | cons a as ih =>
    rcases hrun with ⟨henabled, hok, hrest⟩
    rw [landings, ← List.append_assoc]
    exact ih (Plays.step h henabled hok) hrest

/-- No key was pressed so far. -/
def start (loaded muted : C → Bool) : Keyboards C :=
  { (init : Keyboards C) with
    channel := fun c => { KeyboardChannel.init with hasInstrument := loaded c, mute := muted c } }

/-- When all events of a run are processed, no key is pressed if and only if the
channel did not play, or each note-on was followed by a note-off that landed on
the same key. -/
theorem keyPressed_run {loaded muted : C → Bool}
    (hrun : (system C).RunFrom MidiInput (start loaded muted) as)
    (hdone : (((system C).exec (start loaded muted) as).channel c).events = []) :
    (∀ k, (((system C).exec (start loaded muted) as).key c k).keyPressed = false ∧
        (((system C).exec (start loaded muted) as).channel c).keyDown k = false) ↔
      muted c = true ∨ loaded c = false ∨ Answered (landings c (start loaded muted) as) := by
  have hstart : ((start loaded muted).pressOf c).Plays (loaded c) (muted c) [] :=
    ⟨rfl, rfl, rfl, fun _ _ => rfl, fun _ _ _ => rfl⟩
  have h := Plays.exec hstart hrun
  generalize (system C).exec (start loaded muted) as = s at h hdone
  rw [List.nil_append] at h
  have hkeys : (∀ k, (s.key c k).keyPressed = false ∧ (s.channel c).keyDown k = false) ↔
      ∀ k, (s.pressOf c).keyPressed k = false := by
    refine forall_congr' fun k => ?_
    have hdown : (s.channel c).keyDown k = (s.pressOf c).keyPressed k := congrFun h.down k
    rw [hdown]
    exact and_self_iff
  rw [hkeys]
  by_cases hnot : muted c = true ∨ loaded c = false
  · refine ⟨fun _ => ?_, fun _ => h.silent hnot⟩
    exact hnot.imp_right .inl
  · have hmute : muted c = false := by simpa using fun hm => hnot (.inl hm)
    have hloaded : loaded c = true := by simpa using fun hl => hnot (.inr hl)
    have hempty : (s.pressOf c).events = [] := hdone
    have hpending : ∀ k, (s.pressOf c).keyPressed k =
        pressedAfter k false (landings c (start loaded muted) as) := by
      intro k
      rw [← h.pending hmute hloaded k, hempty, pressedAfter_nil]
    simp only [hpending, hmute, hloaded, Bool.false_eq_true, Bool.true_eq_false, false_or]
    exact forall_not_pressedAfter

/-! ## A transposition between note-on and note-off -/

/-- The note-off of a number on a channel is imported. -/
def isNoteOff (c : C) (note : ℕ) : KeyAction C → Bool
  | .importEvent _ _ c' note' e => decide (c' = c ∧ note' = note ∧ e.type = .note_off)
  | _ => false

/-- Each note-on is followed by a note-off of the same note number. -/
def Paired : List (KeyAction C) → Prop
  | [] => True
  | .importEvent _ _ c note e :: as =>
      (e.type = .note_on → as.any (isNoteOff c note) = true) ∧ Paired as
  | _ :: as => Paired as

/-- A note-on, RPN coarse tuning up by a half tone, and the note-off in the next
fragment. -/
def tunedRun : List (KeyAction Unit) :=
  [.startFragment,
   .importEvent true ⟨fun _ => 1, true⟩ () 60 (midi .note_on 0 0),
   .importEvent true ⟨fun _ => 0, true⟩ () 0 (midi .control_change 101 0),
   .importEvent true ⟨fun _ => 0, true⟩ () 0 (midi .control_change 100 2),
   .importEvent true ⟨fun _ => 0, true⟩ () 0 (midi .control_change 6 65),
   .processEvent (answers 0 [.started .none] []) (),
   .processEvent (answers 0 [] []) (),
   .processEvent (answers 0 [] []) (),
   .processEvent (answers 0 [] []) (),
   .endFragment (fun _ => .nothing) fun _ => false,
   .startFragment,
   .importEvent true ⟨fun _ => 0, true⟩ () 60 (midi .note_off 0 0),
   .processEvent (answers 0 [] []) ()]

/-- The note-off lands on key 61. -/
theorem not_keyPressed_run :
    ¬ ∀ as : List (KeyAction Unit), Paired as →
      (system Unit).RunFrom MidiInput (start (fun _ => true) fun _ => false) as →
      (((system Unit).exec (start (fun _ => true) fun _ => false) as).channel ()).events = [] →
      ∀ k, (((system Unit).exec (start (fun _ => true) fun _ => false) as).key () k).keyPressed =
        false := by
  intro h
  have hpaired : Paired tunedRun := ⟨fun _ => rfl, nofun, nofun, nofun, nofun, trivial⟩
  have hrun := h tunedRun hpaired (by decide) (by decide) 60
  revert hrun
  decide

theorem keyPressed_run_answered :
    (((system Unit).exec (start (fun _ => true) fun _ => false) (tunedRun.take 6 ++
      [.importEvent true ⟨fun _ => 0, true⟩ () 60 (midi .note_off 0 0)] ++
      List.replicate 4 (.processEvent (answers 0 [] []) ()))).key () 60).keyPressed = false :=
  ((keyPressed_run (by decide) (by decide)).mpr (.inr (.inr (by decide))) 60).1

end Keyboards

end LinuxSampler
