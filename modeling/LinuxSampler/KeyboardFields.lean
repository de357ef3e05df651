import LinuxSampler.KeyboardControl

/-!
# Fields of the keyboard state

What the operations on keys, channels and engines leave alone, and what they
change.
-/

namespace LinuxSampler

namespace MidiKey

variable {key : MidiKey}

@[simp] theorem finishTheft_thefts :
    key.finishTheft.voiceTheftsQueued = key.voiceTheftsQueued - 1 := by
  rw [finishTheft]
  dsimp only
  split
  · rfl
  · rfl

@[simp] theorem finishTheft_active : key.finishTheft.active = key.active := by
  rw [finishTheft]
  dsimp only
  split
  · rfl
  · rfl

theorem finishTheft_events (hinactive : key.active = false)
    (hlast : key.voiceTheftsQueued - 1 = 0) : key.finishTheft.events = [] := by
  rw [finishTheft]
  dsimp only
  rw [if_pos ⟨by rw [hinactive]; rfl, hlast⟩]

end MidiKey

namespace KeyboardChannel

variable {ch : KeyboardChannel} {k k' : Key} {e : KeyEvent} {f : MidiKey → MidiKey}

/-! ## Keys -/

@[simp] theorem modifyKey_self : (ch.modifyKey k f).keys k = f (ch.keys k) :=
  Function.update_self ..

theorem modifyKey_of_ne (h : k' ≠ k) : (ch.modifyKey k f).keys k' = ch.keys k' :=
  Function.update_of_ne h ..

/-- What `f` leaves alone is left alone for all keys. -/
theorem modifyKey_same {β : Type*} (π : MidiKey → β)
    (h : π (f (ch.keys k)) = π (ch.keys k)) :
    π ((ch.modifyKey k f).keys k') = π (ch.keys k') := by
  by_cases hk : k' = k
  · rw [hk, modifyKey_self, h]
  · rw [modifyKey_of_ne hk]

@[simp] theorem append_thefts :
    ((ch.append k e).keys k').voiceTheftsQueued = (ch.keys k').voiceTheftsQueued :=
  modifyKey_same _ rfl

@[simp] theorem append_active : ((ch.append k e).keys k').active = (ch.keys k').active :=
  modifyKey_same _ rfl

@[simp] theorem append_keyPressed :
    ((ch.append k e).keys k').keyPressed = (ch.keys k').keyPressed :=
  modifyKey_same _ rfl

/-! ## Active keys -/

theorem markKeyAsActive_of_active (h : (ch.keys k).active = true) : ch.markKeyAsActive k = ch :=
  if_pos h

theorem markKeyAsActive_keys (h : ¬ (ch.keys k).active = true) :
    (ch.markKeyAsActive k).keys = (ch.modifyKey k ({ · with active := true })).keys := by
  rw [markKeyAsActive, if_neg h]

theorem markKeyAsActive_activeKeys (h : ¬ (ch.keys k).active = true) :
    (ch.markKeyAsActive k).activeKeys = ch.activeKeys ++ [k] := by
  rw [markKeyAsActive, if_neg h]

/-- What does not depend on `active` is left alone. -/
theorem markKeyAsActive_same {β : Type*} (π : MidiKey → β)
    (h : ∀ key : MidiKey, π { key with active := true } = π key) :
    π ((ch.markKeyAsActive k).keys k') = π (ch.keys k') := by
  by_cases hk : (ch.keys k).active = true
  · rw [markKeyAsActive_of_active hk]
  · rw [markKeyAsActive_keys hk]
    exact modifyKey_same _ (h _)

@[simp] theorem markKeyAsActive_thefts :
    ((ch.markKeyAsActive k).keys k').voiceTheftsQueued = (ch.keys k').voiceTheftsQueued :=
  markKeyAsActive_same _ fun _ => rfl

@[simp] theorem markKeyAsActive_events :
    ((ch.markKeyAsActive k).keys k').events = (ch.keys k').events :=
  markKeyAsActive_same _ fun _ => rfl

theorem markKeyAsActive_active_self : ((ch.markKeyAsActive k).keys k).active = true := by
  by_cases hk : (ch.keys k).active = true
  · rw [markKeyAsActive_of_active hk, hk]
  · rw [markKeyAsActive_keys hk, modifyKey_self]

theorem markKeyAsActive_active_of_ne (h : k' ≠ k) :
    ((ch.markKeyAsActive k).keys k').active = (ch.keys k').active := by
  by_cases hk : (ch.keys k).active = true
  · rw [markKeyAsActive_of_active hk]
  · rw [markKeyAsActive_keys hk, modifyKey_of_ne h]

/-- Apart from the keys only the list of the active ones changes. -/
theorem markKeyAsActive_field {β : Type*} (π : KeyboardChannel → β)
    (h : ∀ ks as, π { ch with keys := ks, activeKeys := as } = π ch) :
    π (ch.markKeyAsActive k) = π ch := by
  by_cases hk : (ch.keys k).active = true
  · rw [markKeyAsActive, if_pos hk]
  · rw [markKeyAsActive, if_neg hk]
    exact h _ _

@[simp] theorem markKeyAsActive_hasInstrument :
    (ch.markKeyAsActive k).hasInstrument = ch.hasInstrument :=
  markKeyAsActive_field _ fun _ _ => rfl

/-! ## Parameters -/

/-- Only the parameter numbers change. -/
theorem resetParameters_field {β : Type*} (π : KeyboardChannel → β) {isRpn isNrpn : Bool}
    (h : ∀ (ch : KeyboardChannel) rpn nrpn, π { ch with rpn := rpn, nrpn := nrpn } = π ch) :
    π (ch.resetParameters isRpn isNrpn) = π ch := by
  have hrpn : π (if !isRpn && ch.rpn.received then ch.resetMidiRpnParameter else ch) = π ch := by
    split
    · exact h ch .init ch.nrpn
    · rfl
  simp only [resetParameters]
  generalize (if !isRpn && ch.rpn.received then ch.resetMidiRpnParameter else ch) = ch' at hrpn ⊢
  split
  · exact (h ch' ch'.rpn .init).trans hrpn
  · exact hrpn

/-! ## Copies -/

/-- What a copied event leaves alone is left alone. -/
theorem appendCopies_same {β : Type*} (π : KeyboardChannel → β) {keys : List Key}
    {alloc : Key → Bool} {test : MidiKey → Bool} (h : ∀ ch k, π (append ch k e) = π ch) :
    π (ch.appendCopies keys alloc test e) = π ch := by
  rw [appendCopies]
  induction keys generalizing ch with
  | nil => rfl
  | cons k keys ih =>
    rw [List.foldl_cons, ih]
    split
    · exact h ch k
    · rfl

end KeyboardChannel

namespace Keyboards

variable {C : Type*} [DecidableEq C] {s : Keyboards C} {c c' : C} {k : Key}
  {f : KeyboardChannel → KeyboardChannel}

@[simp] theorem onChannel_self : (s.onChannel c f).channel c = f (s.channel c) :=
  Function.update_self ..

theorem onChannel_of_ne (h : c' ≠ c) : (s.onChannel c f).channel c' = s.channel c' :=
  Function.update_of_ne h ..

@[simp] theorem onChannel_voiceStealingQueue :
    (s.onChannel c f).voiceStealingQueue = s.voiceStealingQueue := rfl

@[simp] theorem onChannel_noteByID {id : ℕ} : (s.onChannel c f).noteByID id = s.noteByID id := rfl

@[simp] theorem key_onChannel_self : (s.onChannel c f).key c k = (f (s.channel c)).keys k := by
  rw [key, onChannel_self]

theorem key_onChannel_of_ne (h : c' ≠ c) : (s.onChannel c f).key c' k = s.key c' k := by
  rw [key, onChannel_of_ne h, key]

theorem onChannel_onChannel {g : KeyboardChannel → KeyboardChannel} :
    (s.onChannel c f).onChannel c g = s.onChannel c fun ch => g (f ch) := by
  simp [onChannel]

/-- What `f` leaves alone is left alone for all channels. -/
theorem onChannel_same {β : Type*} (π : KeyboardChannel → β)
    (h : π (f (s.channel c)) = π (s.channel c)) :
    π ((s.onChannel c f).channel c') = π (s.channel c') := by
  by_cases hc : c' = c
  · rw [hc, onChannel_self, h]
  · rw [onChannel_of_ne hc]

end Keyboards

end LinuxSampler
