import LinuxSampler.SoloMode

/-!
# The highest pressed key

`SoloView` is what solo mode depends on, and the note events are the only
ones that change it. What remains is to compare the key that is chosen when
the solo key is released with the highest pressed key, and to see that its
voices are started.
-/

namespace LinuxSampler

/-- The solo key of a channel, and what it is chosen from. -/
structure SoloView where
  soloMode : Bool
  soloKey : Option Key
  keyPressed : Key → Bool
  hasInstrument : Bool
  mute : Bool

namespace KeyboardChannel

variable {ch : KeyboardChannel} {k i : Key} {e : KeyEvent} {f : MidiKey → MidiKey}

def soloOf (ch : KeyboardChannel) : SoloView where
  soloMode := ch.soloMode
  soloKey := ch.soloKey
  keyPressed := fun k => (ch.keys k).keyPressed
  hasInstrument := ch.hasInstrument
  mute := ch.mute

theorem eventBlind_soloOf : EventBlind MidiKey.keyPressed soloOf where
  key _ _ _ _ _ := rfl
  keys _ _ _ h := by simp only [soloOf, h]
  control _ _ _ _ _ _ _ := rfl

/-- A key is pressed or released. -/
theorem press_soloOf {pressed : Bool} (h : (f (ch.keys k)).keyPressed = pressed) :
    ((ch.modifyKey k f).setKeyDown k pressed).soloOf =
      { ch.soloOf with keyPressed := Function.update ch.soloOf.keyPressed k pressed } := by
  have hkeys : (fun k' => ((ch.modifyKey k f).keys k').keyPressed) =
      Function.update ch.soloOf.keyPressed k pressed := by
    refine funext fun k' => ?_
    by_cases hk : k' = k
    · rcases hk with rfl
      rw [modifyKey_self, h, Function.update_self]
    · rw [modifyKey_of_ne hk, Function.update_of_ne hk]
      rfl
  simp only [soloOf, setKeyDown] at hkeys ⊢
  rw [← hkeys]
  rfl

/-- A note-on presses its key, which in solo mode becomes the solo key. -/
theorem receiveNoteOn_soloOf : (ch.receiveNoteOn e).soloOf =
    if e.type = .note_on then
      { ch.soloOf with
        soloKey := if ch.soloMode then some e.key else ch.soloKey
        keyPressed := Function.update ch.soloOf.keyPressed e.key true }
    else ch.soloOf := by
  have happend : ((ch.append e.key e).soloOf) = ch.soloOf := eventBlind_soloOf.append
  rw [receiveNoteOn]
  dsimp only
  split
  · rw [press_soloOf rfl]
    by_cases hsolo : ch.soloMode = true
    · rw [if_pos (show (ch.append e.key e).soloMode = true from hsolo), if_pos hsolo]
      have hkey : ({ ch.append e.key e with soloKey := some e.key } : KeyboardChannel).soloOf =
          { ch.soloOf with soloKey := some e.key } := by
        rw [← happend]
        rfl
      rw [hkey]
    · rw [if_neg (show ¬ (ch.append e.key e).soloMode = true from hsolo), if_neg hsolo, happend]
      rfl
  · exact happend

theorem receiveNoteOff_soloOf : (ch.receiveNoteOff e).soloOf =
    { ch.soloOf with keyPressed := Function.update ch.soloOf.keyPressed e.key false } :=
  eventBlind_soloOf.append.trans (press_soloOf rfl)

theorem cleanup_soloOf {hasNotes : Key → Bool} :
    ((ch.freeAllInactiveKeys hasNotes).clearEventListsOfCurrentFragment).soloOf = ch.soloOf := by
  have hfree : (ch.freeAllInactiveKeys hasNotes).soloOf = ch.soloOf :=
    eventBlind_soloOf.freeAllInactiveKeys
  rw [eventBlind_soloOf.clearEventLists, ← hfree]
  rfl

/-! ## The search -/

/-- The search finds the highest one of the pressed keys above key 0. -/
theorem highestPressed_eq_some : ch.highestPressed = some i ↔
    0 < i ∧ IsGreatest {k | ch.soloOf.keyPressed k = true} i := by
  have hsorted : (List.finRange 128).reverse.Pairwise (· > ·) :=
    List.pairwise_reverse.mpr (List.pairwise_lt_finRange 128)
  rw [highestPressed, List.find?_eq_some_iff_append]
  constructor
  · rintro ⟨hi, above, below, hkeys, habove⟩
    rw [Bool.and_eq_true, decide_eq_true_eq] at hi
    refine ⟨hi.1, hi.2, fun k hk => ?_⟩
    by_contra hlt
    have hik : i < k := not_le.mp hlt
    have hmem : k ∈ above ++ i :: below := by
      rw [← hkeys]
      exact List.mem_reverse.mpr (List.mem_finRange k)
    rw [hkeys, List.pairwise_append, List.pairwise_cons] at hsorted
    rcases List.mem_append.mp hmem with hmem | hmem
    · have hnot := habove k hmem
      have hpos : 0 < k := hi.1.trans hik
      have hpressed : (ch.keys k).keyPressed = true := hk
      simp [hpos, hpressed] at hnot
    · rcases List.mem_cons.mp hmem with rfl | hmem
      · exact lt_irrefl _ hik
      · exact lt_asymm hik (hsorted.2.1.1 k hmem)
  · rintro ⟨hpos, hpressed, hgreatest⟩
    have hmem : i ∈ (List.finRange 128).reverse := List.mem_reverse.mpr (List.mem_finRange i)
    obtain ⟨above, below, hkeys⟩ := List.append_of_mem hmem
    refine ⟨?_, above, below, hkeys, fun k hk => ?_⟩
    · rw [Bool.and_eq_true, decide_eq_true_eq]
      exact ⟨hpos, hpressed⟩
    · rw [hkeys, List.pairwise_append] at hsorted
      have hik : i < k := hsorted.2.2 k hk i List.mem_cons_self
      have hnot : ¬ (ch.keys k).keyPressed = true := fun hpressed =>
        absurd (hgreatest hpressed) (not_le.mpr hik)
      simp [hnot]

end KeyboardChannel

namespace Keyboards

variable {C : Type*} [DecidableEq C] {s : Keyboards C} {c : C} {k : Key} {e : KeyEvent}
  {o : KeyOutcome C} {f : KeyboardChannel → KeyboardChannel}

/-- The view of all channels. -/
def soloOf (s : Keyboards C) (c : C) : SoloView := (s.channel c).soloOf

theorem soloOf_onChannel : (s.onChannel c f).soloOf =
    Function.update s.soloOf c (f (s.channel c)).soloOf := by
  refine funext fun c' => ?_
  by_cases hc : c' = c
  · rw [hc, Function.update_self, soloOf, onChannel_self]
  · rw [Function.update_of_ne hc, soloOf, onChannel_of_ne hc, soloOf]

theorem handlerBlind_soloOf :
    HandlerBlind MidiKey.keyPressed KeyboardChannel.soloOf (soloOf (C := C)) :=
  .of_channel KeyboardChannel.eventBlind_soloOf

theorem blind_soloOf : LaunchBlind (soloOf (C := C)) := handlerBlind_soloOf.launchBlind

theorem theftBlind_soloOf : TheftBlind (soloOf (C := C)) :=
  .of_channel fun _ _ => KeyboardChannel.eventBlind_soloOf.modifyKey rfl

/-! ## Note events -/

theorem processNoteOn_soloOf : (s.processNoteOn o c e).soloOf =
    if (s.channel c).mute = false ∧ (s.channel c).hasInstrument = true then
      Function.update s.soloOf c ((s.channel c).receiveNoteOn e).soloOf
    else s.soloOf := by
  rw [processNoteOn]
  by_cases hmute : (s.channel c).mute = true
  · rw [if_pos hmute, if_neg fun hand => by rw [hmute] at hand; cases hand.1]
  · rw [if_neg hmute]
    by_cases hloaded : (s.channel c).hasInstrument = true
    · rw [if_neg (by simpa using hloaded), if_pos ⟨by simpa using hmute, hloaded⟩,
        handlerBlind_soloOf.freeUnused, blind_soloOf.triggerNewVoices theftBlind_soloOf,
        handlerBlind_soloOf.onChannel KeyboardChannel.eventBlind_soloOf.cancelRelease,
          soloOf_onChannel]
    · rw [if_pos (by simpa using hloaded), if_neg fun hand => hloaded hand.2]

/-- The search decides on the solo key if the old one is released. -/
theorem respawnSolo_soloOf : (s.respawnSolo o c e).1.soloOf =
    if (s.channel c).soloMode ∧ (s.channel c).hasInstrument ∧
        (s.channel c).soloKey = some e.key then
      Function.update s.soloOf c { s.soloOf c with soloKey := (s.channel c).highestPressed }
    else s.soloOf := by
  have hsolo : ∀ key, (s.onChannel c ({ · with soloKey := key })).soloOf =
      Function.update s.soloOf c { s.soloOf c with soloKey := key } :=
    fun _ => soloOf_onChannel
  rw [respawnSolo]
  split
  · split
    · next hnone => rw [hnone, ← hsolo]
    · next i hi =>
      rw [hi]
      dsimp only
      split
      · have happend : ∀ pseudo, ((s.onChannel c ({ · with soloKey := some i })).onChannel c
            (·.append i pseudo)).soloOf = _ := fun pseudo =>
          (handlerBlind_soloOf.onChannel KeyboardChannel.eventBlind_soloOf.append).trans
            (hsolo (some i))
        rw [handlerBlind_soloOf.freeUnused]
        split
        · exact blind_soloOf.launchNewNote.trans (happend _)
        · rw [blind_soloOf.triggerNewVoices theftBlind_soloOf, blind_soloOf.noteID]
          exact blind_soloOf.launchNewNote.trans (happend _)
      · exact hsolo (some i)
  · rfl

/-- What a note-off makes of the view of its channel. -/
def releaseOf (s : Keyboards C) (c : C) (e : KeyEvent) : SoloView :=
  let v := ((s.channel c).receiveNoteOff e).soloOf
  if v.soloMode ∧ v.hasInstrument ∧ v.soloKey = some e.key then
    { v with soloKey := ((s.channel c).receiveNoteOff e).highestPressed }
  else v

theorem processNoteOff_soloOf : (s.processNoteOff o c e).soloOf =
    if (s.channel c).mute = false ∧ e.type = .note_off then
      Function.update s.soloOf c (s.releaseOf c e)
    else s.soloOf := by
  rw [processNoteOff]
  by_cases hmute : (s.channel c).mute = true
  · rw [if_pos hmute, if_neg fun hand => by rw [hmute] at hand; cases hand.1]
  · rw [if_neg hmute]
    by_cases htype : e.type = .note_off
    · have hrespawn : ((s.onChannel c (·.receiveNoteOff e)).respawnSolo o c e).1.soloOf =
          Function.update s.soloOf c (s.releaseOf c e) := by
        rw [respawnSolo_soloOf, onChannel_self, soloOf_onChannel, releaseOf, Function.update_self,
          Function.update_idem]
        exact (apply_ite (Function.update s.soloOf c) _ _ _).symm
      rw [if_pos htype, if_pos ⟨by simpa using hmute, htype⟩, processKeyRelease,
        handlerBlind_soloOf.freeUnused]
      split
      · rw [handlerBlind_soloOf.releaseKey, hrespawn]
      · exact hrespawn
    · rw [if_neg htype, if_neg fun hand => htype hand.2, handlerBlind_soloOf.processStopNote]

/-! ## Between note events -/

theorem callScript_soloOf {call : ScriptCall C} : (s.callScript call).soloOf = s.soloOf := by
  have hfree : ∀ (s : Keyboards C) (event : EventPlace C),
      (s.freeEventAt event).soloOf = s.soloOf := by
    intro s event
    cases event with
    | pending c n =>
      have hpending : (s.onChannel c fun ch => { ch with events := ch.events.eraseIdx n }).soloOf =
          s.soloOf := handlerBlind_soloOf.onChannel rfl
      exact hpending
    | key c k n =>
      have hkey : (s.onChannel c (·.modifyKey k (·.freeEvent n))).soloOf = s.soloOf :=
        handlerBlind_soloOf.onChannel (KeyboardChannel.eventBlind_soloOf.modifyKey rfl)
      exact hkey
    | stolen n => rfl
  cases call with
  | ignoreEvent event => exact hfree s event
  | ignoreNote id event =>
    rw [callScript]
    split
    · exact hfree _ event
    · rfl
  | scheduleNote c pools e => exact blind_soloOf.launchNewNote

theorem endFragment_soloOf {answer : ℕ → Launch} {silent : ℕ → Bool} :
    (s.endFragment answer silent).soloOf = s.soloOf := by
  have hrender : (s.renderStolenVoices answer).soloOf = s.soloOf :=
    handlerBlind_soloOf.renderStolenVoices fun _ _ => rfl
  refine funext fun c => ?_
  rw [← hrender]
  exact KeyboardChannel.cleanup_soloOf

end Keyboards

end LinuxSampler
