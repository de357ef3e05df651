import LinuxSampler.KeyboardLaunch

/-!
# Pressed keys

`PressView` is what the keys tell about being pressed: it follows the note-ons
and note-offs in the order of the import. A note event is transposed when it is
imported, the transposition is changed when an RPN event is processed; so the
note-off of a number may go to another key than the note-on did.
-/

namespace LinuxSampler

/-- The pressed keys of a channel, and the events that are still to be processed. -/
structure PressView where
  keyPressed : Key → Bool
  keyDown : Key → Bool
  hasInstrument : Bool
  mute : Bool
  events : List KeyEvent

namespace PressView

def press (p : PressView) (k : Key) (pressed : Bool) : PressView :=
  { p with
    keyPressed := Function.update p.keyPressed k pressed
    keyDown := Function.update p.keyDown k pressed }

/-- An event is processed. Without an instrument note-ons are ignored. -/
def play (p : PressView) (e : KeyEvent) : PressView :=
  if p.mute then p
  else if e.type = .note_on ∧ p.hasInstrument then p.press e.key true
  else if e.type = .note_off then p.press e.key false else p

theorem play_of_ne {p : PressView} {e : KeyEvent} (hon : e.type ≠ .note_on)
    (hoff : e.type ≠ .note_off) : p.play e = p := by
  have hplays : ¬ (e.type = .note_on ∧ p.hasInstrument = true) := fun h => hon h.1
  rw [play, if_neg hplays, if_neg hoff, ite_self]

/-- The next event is processed. -/
def pop (p : PressView) : PressView :=
  match p.events with
  | [] => p
  | e :: rest => { p with events := rest }.play e

end PressView

namespace KeyboardChannel

variable {ch : KeyboardChannel} {k : Key} {e : KeyEvent} {f : MidiKey → MidiKey}

def pressOf (ch : KeyboardChannel) : PressView where
  keyPressed := fun k => (ch.keys k).keyPressed
  keyDown := ch.keyDown
  hasInstrument := ch.hasInstrument
  mute := ch.mute
  events := ch.events

theorem eventBlind_pressOf : EventBlind MidiKey.keyPressed pressOf where
  key _ _ _ _ _ := rfl
  keys _ _ _ h := by simp only [pressOf, h]
  control _ _ _ _ _ _ _ := rfl

theorem press_pressOf {pressed : Bool} (h : (f (ch.keys k)).keyPressed = pressed) :
    ((ch.modifyKey k f).setKeyDown k pressed).pressOf = ch.pressOf.press k pressed := by
  have hkeys : (fun k' => ((ch.modifyKey k f).keys k').keyPressed) =
      Function.update (fun k' => (ch.keys k').keyPressed) k pressed := by
    refine funext fun k' => ?_
    by_cases hk : k' = k
    · rcases hk with rfl
      rw [modifyKey_self, h, Function.update_self]
    · rw [modifyKey_of_ne hk, Function.update_of_ne hk]
  simp only [pressOf, setKeyDown, PressView.press, ← hkeys]
  rfl

theorem receiveNoteOn_pressOf : (ch.receiveNoteOn e).pressOf =
    if e.type = .note_on then ch.pressOf.press e.key true else ch.pressOf := by
  rw [receiveNoteOn]
  dsimp only
  split
  · rw [press_pressOf rfl]
    split
    · exact congrArg (·.press e.key true) eventBlind_pressOf.append
    · exact congrArg (·.press e.key true) eventBlind_pressOf.append
  · exact eventBlind_pressOf.append

theorem receiveNoteOff_pressOf : (ch.receiveNoteOff e).pressOf = ch.pressOf.press e.key false :=
  eventBlind_pressOf.append.trans (press_pressOf rfl)

/-- Freeing a key and clearing its list leave it pressed. -/
theorem cleanup_pressOf {hasNotes : Key → Bool} :
    ((ch.freeAllInactiveKeys hasNotes).clearEventListsOfCurrentFragment).pressOf =
      { ch.pressOf with events := [] } := by
  have hfree : (ch.freeAllInactiveKeys hasNotes).pressOf = ch.pressOf :=
    eventBlind_pressOf.freeAllInactiveKeys
  rw [eventBlind_pressOf.clearEventLists, ← hfree]
  rfl

end KeyboardChannel

namespace Keyboards

variable {C : Type*} [DecidableEq C] {s s' : Keyboards C} {c : C} {k : Key} {e : KeyEvent}
  {o : KeyOutcome C} {f : KeyboardChannel → KeyboardChannel}

/-- The view of all channels. -/
def pressOf (s : Keyboards C) (c : C) : PressView := (s.channel c).pressOf

theorem pressOf_onChannel : (s.onChannel c f).pressOf =
    Function.update s.pressOf c (f (s.channel c)).pressOf := by
  refine funext fun c' => ?_
  by_cases hc : c' = c
  · rw [hc, Function.update_self, pressOf, onChannel_self]
  · rw [Function.update_of_ne hc, pressOf, onChannel_of_ne hc, pressOf]

theorem handlerBlind_pressOf :
    HandlerBlind MidiKey.keyPressed KeyboardChannel.pressOf (pressOf (C := C)) :=
  .of_channel KeyboardChannel.eventBlind_pressOf

theorem blind_pressOf : LaunchBlind (pressOf (C := C)) := handlerBlind_pressOf.launchBlind

theorem theftBlind_pressOf : TheftBlind (pressOf (C := C)) :=
  .of_channel fun _ _ => KeyboardChannel.eventBlind_pressOf.modifyKey rfl

/-! ## Handlers -/

theorem processNoteOn_pressOf (htype : e.type ≠ .note_off) :
    (s.processNoteOn o c e).pressOf = Function.update s.pressOf c ((s.pressOf c).play e) := by
  have hsame : Function.update s.pressOf c (s.pressOf c) = s.pressOf := Function.update_eq_self ..
  rw [processNoteOn, PressView.play, if_neg htype]
  by_cases hmute : (s.channel c).mute = true
  · rw [if_pos hmute, if_pos (show (s.pressOf c).mute = true from hmute), hsame]
  · rw [if_neg hmute, if_neg (show ¬ (s.pressOf c).mute = true from hmute)]
    by_cases hloaded : (s.channel c).hasInstrument = true
    · have hview : (s.pressOf c).hasInstrument = true := hloaded
      rw [if_neg (by rw [hloaded]; simp), handlerBlind_pressOf.freeUnused,
        blind_pressOf.triggerNewVoices theftBlind_pressOf,
        handlerBlind_pressOf.onChannel KeyboardChannel.eventBlind_pressOf.cancelRelease,
        pressOf_onChannel, KeyboardChannel.receiveNoteOn_pressOf]
      simp only [hview, and_true]
      rfl
    · have hview : ¬ (s.pressOf c).hasInstrument = true := hloaded
      rw [if_pos (by simpa using hloaded), if_neg fun h => hview h.2, hsame]

theorem respawnSolo_pressOf : (s.respawnSolo o c e).1.pressOf = s.pressOf := by
  have hsolo : ∀ key, (s.onChannel c ({ · with soloKey := key })).pressOf = s.pressOf :=
    fun _ => handlerBlind_pressOf.onChannel rfl
  rw [respawnSolo]
  split
  · split
    · exact hsolo none
    · rename_i i _
      dsimp only
      split
      · rw [handlerBlind_pressOf.freeUnused]
        have happend : ∀ pseudo, ((s.onChannel c ({ · with soloKey := some i })).onChannel c
            (·.append i pseudo)).pressOf = s.pressOf := fun pseudo =>
          handlerBlind_pressOf.append.trans (hsolo _)
        split
        · exact blind_pressOf.launchNewNote.trans (happend _)
        · rw [blind_pressOf.triggerNewVoices theftBlind_pressOf, blind_pressOf.noteID]
          exact blind_pressOf.launchNewNote.trans (happend _)
      · exact hsolo (some i)
  · rfl

theorem processNoteOff_pressOf (hne : e.type ≠ .note_on) :
    (s.processNoteOff o c e).pressOf = Function.update s.pressOf c ((s.pressOf c).play e) := by
  have hsame : Function.update s.pressOf c (s.pressOf c) = s.pressOf := Function.update_eq_self ..
  have hon : ¬ (e.type = .note_on ∧ (s.pressOf c).hasInstrument = true) := fun h => hne h.1
  rw [processNoteOff, PressView.play, if_neg hon]
  by_cases hmute : (s.channel c).mute = true
  · rw [if_pos hmute, if_pos (show (s.pressOf c).mute = true from hmute), hsame]
  · rw [if_neg hmute, if_neg (show ¬ (s.pressOf c).mute = true from hmute)]
    by_cases htype : e.type = .note_off
    · rw [if_pos htype, if_pos htype, processKeyRelease, handlerBlind_pressOf.freeUnused]
      have hreceive : ((s.onChannel c (·.receiveNoteOff e)).respawnSolo o c e).1.pressOf =
          Function.update s.pressOf c ((s.pressOf c).press e.key false) := by
        rw [respawnSolo_pressOf, pressOf_onChannel, KeyboardChannel.receiveNoteOff_pressOf]
        rfl
      split
      · rw [handlerBlind_pressOf.releaseKey, hreceive]
      · exact hreceive
    · rw [if_neg htype, if_neg htype, handlerBlind_pressOf.processStopNote, hsame]

/-- Without scripts the view follows the event that is processed. -/
theorem processEvent_pressOf (h : o.script = []) :
    (s.processEvent o c).pressOf = Function.update s.pressOf c (s.pressOf c).pop := by
  have hsame : Function.update s.pressOf c (s.pressOf c) = s.pressOf := Function.update_eq_self ..
  rw [processEvent, PressView.pop]
  cases hevents : (s.channel c).events with
  | nil =>
    have hview : (s.pressOf c).events = [] := hevents
    rw [hview]
    exact hsame.symm
  | cons e rest =>
    have hview : (s.pressOf c).events = e :: rest := hevents
    have hpop : (s.onChannel c ({ · with events := rest })).pressOf =
        Function.update s.pressOf c { s.pressOf c with events := rest } := pressOf_onChannel
    rw [hview]
    dsimp only
    generalize s.onChannel c ({ · with events := rest }) = s₁ at hpop
    have hself : s₁.pressOf c = { s.pressOf c with events := rest } := by
      rw [hpop, Function.update_self]
    have hset : ∀ p, Function.update s₁.pressOf c p = Function.update s.pressOf c p := by
      intro p
      rw [hpop, Function.update_idem]
    have hother : e.type ≠ .note_on → e.type ≠ .note_off → ∀ {s' : Keyboards C},
        s'.pressOf = s₁.pressOf → s'.pressOf =
          Function.update s.pressOf c ({ s.pressOf c with events := rest }.play e) := by
      intro hon hoff s' hs'
      rw [PressView.play_of_ne hon hoff, hs', hpop]
    have hcontrollers : (s₁.processHardcodedControllers o c e).pressOf = s₁.pressOf := by
      refine handlerBlind_pressOf.processHardcodedControllers (fun _ => ?_) fun _ _ => rfl
      rw [h]
      rfl
    split
    · rename_i htype
      rw [handlerBlind_pressOf.resetParameters, processNoteOn_pressOf (by simp [htype]), hself, hset]
    · rename_i htype
      rw [handlerBlind_pressOf.resetParameters, processNoteOn_pressOf (by simp [htype]), hself, hset]
    · rename_i htype
      rw [handlerBlind_pressOf.resetParameters, processNoteOff_pressOf (by simp [htype]), hself, hset]
    · rename_i htype
      rw [handlerBlind_pressOf.resetParameters, processNoteOff_pressOf (by simp [htype]), hself, hset]
    · rename_i htype
      exact hother (by simp [htype]) (by simp [htype])
        (handlerBlind_pressOf.resetParameters.trans handlerBlind_pressOf.moveToNoteKey)
    · rename_i htype
      exact hother (by simp [htype]) (by simp [htype])
        (handlerBlind_pressOf.resetParameters.trans handlerBlind_pressOf.moveToNoteKey)
    · rename_i htype
      exact hother (by simp [htype]) (by simp [htype]) hcontrollers
    · rename_i htype
      exact hother (by simp [htype]) (by simp [htype]) handlerBlind_pressOf.processHardcodedRpn
    · rename_i htype
      exact hother (by simp [htype]) (by simp [htype]) handlerBlind_pressOf.processHardcodedNrpn
    · rename_i hon _ hoff _ _ _ _ _ _
      exact hother hon hoff handlerBlind_pressOf.resetParameters

end Keyboards

end LinuxSampler
