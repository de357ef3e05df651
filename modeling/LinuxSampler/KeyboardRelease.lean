import LinuxSampler.KeyboardTranspose

/-!
# Releases

A key sounds from a note-on, or from the cancellation of its release, until a
release event is put on its list. `SoundView` is what this depends on, `Sound` is
the invariant of a channel: a key that is neither pressed nor held by a pedal is
released, and only such a key is released.
-/

namespace LinuxSampler

/-! ## Lists of events -/

/-- A note-on or the cancellation of a release. -/
def EventType.starts (t : EventType) : Bool := decide (t = .note_on ∨ t = .cancel_release_key)

/-- A release follows the latest event that starts. -/
def Released : List EventType → Prop
  | [] => True
  | t :: ts => (t.starts = true → .release_key ∈ ts) ∧ Released ts

instance decidableReleased : ∀ ts, Decidable (Released ts)
  | [] => .isTrue trivial
  | _ :: ts =>
      have : Decidable (Released ts) := decidableReleased ts
      inferInstanceAs (Decidable (_ ∧ _))

/-- No event starts. -/
def Quiet (ts : List EventType) : Prop := ∀ t ∈ ts, t.starts = false

def releases (ts : List EventType) : ℕ := ts.count .release_key

section Lists

variable {t : EventType} {ts ts' : List EventType}

theorem Quiet.released (h : Quiet ts) : Released ts := by
  induction ts with
  | nil => trivial
  | cons t ts ih =>
    refine ⟨fun hstarts => ?_, ih fun t' ht' => h t' (List.mem_cons_of_mem t ht')⟩
    rw [h t List.mem_cons_self] at hstarts
    cases hstarts

theorem Quiet.append (h : Quiet ts) (ht : t.starts = false) : Quiet (ts ++ [t]) := by
  intro t' ht'
  rcases List.mem_append.mp ht' with ht' | ht'
  · exact h t' ht'
  · rw [List.mem_singleton.mp ht']
    exact ht

theorem Quiet.sublist (h : Quiet ts) (hsub : ts'.Sublist ts) : Quiet ts' :=
  fun t ht => h t (hsub.subset ht)

theorem released_append_release : Released (ts ++ [.release_key]) := by
  induction ts with
  | nil => exact ⟨nofun, trivial⟩
  | cons t ts ih => exact ⟨fun _ => List.mem_append_right _ List.mem_cons_self, ih⟩

theorem releases_append (ht : t ≠ .release_key) : releases (ts ++ [t]) = releases ts := by
  rw [releases, List.count_append, List.count_singleton, releases]
  simp [ht]

end Lists

/-! ## Channels -/

/-- The part of a key that its releases depend on; `types` are those of all its
events since it became active. -/
structure KeyPhase where
  active : Bool
  pressed : Bool
  types : List EventType

structure SoundView where
  key : Key → KeyPhase
  activeKeys : List Key
  soloMode : Bool
  sustainPedal : Bool
  sostenutoPedal : Bool
  sostenutoKeys : List Key
  mute : Bool
  events : List KeyEvent

namespace SoundView

/-- Held by the sustain pedal, or captured by the sostenuto pedal. -/
def held (v : SoundView) (k : Key) : Bool :=
  v.sustainPedal || v.sostenutoPedal && v.sostenutoKeys.contains k

def setKey (v : SoundView) (k : Key) (p : KeyPhase) : SoundView :=
  { v with key := Function.update v.key k p }

def markKeyAsActive (v : SoundView) (k : Key) : SoundView :=
  if (v.key k).active then v
  else { v.setKey k { v.key k with active := true } with activeKeys := v.activeKeys ++ [k] }

/-- Notes, the sustain and the sostenuto pedal, and the reset of the controllers.
The key of a pending note-on is active, for its note is launched already. -/
def Expects (v : SoundView) (e : KeyEvent) : Prop :=
  (e.type = .note_on ∧ (v.key e.key).active = true) ∨ e.type = .note_off ∨
    (e.type = .control_change ∧ (e.controller = 64 ∨ e.controller = 66 ∨ e.controller = 121))

/-- `todo` are the keys that may still have to be released, `before` is how many
releases each key had at the beginning of the handler. -/
structure Sound (before : Key → ℕ) (todo : List Key) (v : SoundView) : Prop where
  quiet : ∀ k, (v.key k).active = false → Quiet (v.key k).types
  released : ∀ k, k ∉ todo → (v.key k).active = true → (v.key k).pressed = false →
    v.held k = false → Released (v.key k).types
  withheld : ∀ k, (v.key k).pressed = true ∨ v.held k = true →
    releases (v.key k).types ≤ before k
  listed : ∀ k, k ∈ v.activeKeys ↔ (v.key k).active = true
  nodup : v.activeKeys.Nodup
  expects : ∀ e ∈ v.events, v.Expects e
  solo : v.soloMode = false
  mute : v.mute = false

variable {v : SoundView} {before : Key → ℕ} {todo todo' : List Key} {k : Key} {p : KeyPhase}

@[simp] theorem setKey_self : (v.setKey k p).key k = p := Function.update_self ..

theorem setKey_of_ne {k' : Key} (h : k' ≠ k) : (v.setKey k p).key k' = v.key k' :=
  Function.update_of_ne h ..

theorem setKey_setKey {p' : KeyPhase} : (v.setKey k p).setKey k p' = v.setKey k p' := by
  simp only [setKey, Function.update_idem]

/-- A key that stays active, or stays inactive. -/
theorem Sound.setKey (h : v.Sound before todo) (hactive : p.active = (v.key k).active)
    (hquiet : p.active = false → Quiet p.types)
    (hreleased : k ∉ todo' → p.active = true → p.pressed = false → v.held k = false →
      Released p.types)
    (hwithheld : p.pressed = true ∨ v.held k = true → releases p.types ≤ before k)
    (htodo : ∀ k', k' ≠ k → k' ∉ todo' → k' ∉ todo) : (v.setKey k p).Sound before todo' := by
  have hactive' : ∀ k', ((v.setKey k p).key k').active = (v.key k').active := by
    intro k'
    by_cases hk : k' = k
    · rw [hk, setKey_self, hactive]
    · rw [setKey_of_ne hk]
  refine ⟨fun k' => ?_, fun k' => ?_, fun k' => ?_, fun k' => ?_, h.nodup, fun e he => ?_,
    h.solo, h.mute⟩
  · by_cases hk : k' = k
    · rw [hk, setKey_self]
      exact hquiet
    · rw [setKey_of_ne hk]
      exact h.quiet k'
  · by_cases hk : k' = k
    · rw [hk, setKey_self]
      exact hreleased
    · rw [setKey_of_ne hk]
      exact fun hk' => h.released k' (htodo k' hk hk')
  · by_cases hk : k' = k
    · rw [hk, setKey_self]
      exact hwithheld
    · rw [setKey_of_ne hk]
      exact h.withheld k'
  · rw [hactive']
    exact h.listed k'
  · rw [Expects, hactive']
    exact h.expects e he

/-- A key that becomes active is quiet, whatever it is exempt from. -/
theorem Sound.markKeyAsActive (h : v.Sound before todo) :
    (v.markKeyAsActive k).Sound before todo := by
  rw [SoundView.markKeyAsActive]
  split
  · exact h
  · rename_i hk
    generalize hv : ({ v.setKey k { v.key k with active := true } with
      activeKeys := v.activeKeys ++ [k] } : SoundView) = v'
    have hkey : ∀ k', k' ≠ k → v'.key k' = v.key k' := by
      intro k' hkk
      rw [← hv]
      exact setKey_of_ne hkk
    have hself : v'.key k = { v.key k with active := true } := by
      rw [← hv]
      exact setKey_self
    have hactive : ∀ k', (v'.key k').active = true ↔ (v.key k').active = true ∨ k' = k := by
      intro k'
      by_cases hkk : k' = k
      · rw [hkk, hself]
        simp
      · rw [hkey k' hkk]
        simp [hkk]
    have hpressed : ∀ k', (v'.key k').pressed = (v.key k').pressed := by
      intro k'
      by_cases hkk : k' = k
      · rw [hkk, hself]
      · rw [hkey k' hkk]
    have htypes : ∀ k', (v'.key k').types = (v.key k').types := by
      intro k'
      by_cases hkk : k' = k
      · rw [hkk, hself]
      · rw [hkey k' hkk]
    have hheld : v'.held = v.held := by
      rw [← hv]
      rfl
    have hkeys : v'.activeKeys = v.activeKeys ++ [k] := by rw [← hv]
    refine ⟨fun k' hk' => ?_, fun k' htodo _ hup hfree => ?_, fun k' hk' => ?_,
      fun k' => ?_, ?_, fun e he => ?_, ?_, ?_⟩
    · rw [htypes]
      refine h.quiet k' ?_
      by_contra hcon
      rw [(hactive k').mpr (.inl (by simpa using hcon))] at hk'
      cases hk'
    · rw [hpressed] at hup
      rw [hheld] at hfree
      rw [htypes]
      by_cases hwas : (v.key k').active = true
      · exact h.released k' htodo hwas hup hfree
      · exact (h.quiet k' (by simpa using hwas)).released
    · rw [hpressed, hheld] at hk'
      rw [htypes]
      exact h.withheld k' hk'
    · rw [hkeys, List.mem_append, List.mem_singleton, h.listed, hactive]
    · rw [hkeys]
      refine List.nodup_append.mpr ⟨h.nodup, List.nodup_singleton k, ?_⟩
      rintro k₁ hk₁ k₂ hk₂ rfl
      rw [List.mem_singleton.mp hk₂] at hk₁
      exact hk ((h.listed k).mp hk₁)
    · have hexpects : v.Expects e := h.expects e (by rwa [← hv] at he)
      rw [Expects, hactive]
      exact hexpects.imp_left fun hon => ⟨hon.1, .inl hon.2⟩
    · rw [← hv]
      exact h.solo
    · rw [← hv]
      exact h.mute

/-- One key less has to be released. -/
theorem Sound.close (h : v.Sound before (k :: todo)) (hk : (v.key k).active = true →
    (v.key k).pressed = false → v.held k = false → Released (v.key k).types) :
    v.Sound before todo := by
  refine ⟨h.quiet, fun k' htodo => ?_, h.withheld, h.listed, h.nodup, h.expects, h.solo, h.mute⟩
  by_cases hkk : k' = k
  · rw [hkk]
    exact hk
  · refine h.released k' fun hmem => ?_
    rcases List.mem_cons.mp hmem with hmem | hmem
    · exact hkk hmem
    · exact htodo hmem

/-- A key that is neither pressed nor held is released. -/
theorem Sound.release (h : v.Sound before (k :: todo)) (hup : (v.key k).pressed = false)
    (hfree : v.held k = false) :
    (v.setKey k { v.key k with types := (v.key k).types ++ [.release_key] }).Sound before todo := by
  refine h.setKey rfl (fun hk => (h.quiet k hk).append rfl) ?_ ?_ ?_
  · exact fun _ _ _ _ => released_append_release
  · rintro (hdown | hdown)
    · rw [hup] at hdown
      cases hdown
    · rw [hfree] at hdown
      cases hdown
  · intro k' hkk htodo hmem
    rcases List.mem_cons.mp hmem with hmem | hmem
    · exact hkk hmem
    · exact htodo hmem

/-- The list of an inactive key is shortened. -/
theorem Sound.shorten (h : v.Sound before todo) {ts : List EventType}
    (hk : (v.key k).active = false) (hsub : ts.Sublist (v.key k).types) :
    (v.setKey k { v.key k with types := ts }).Sound before todo := by
  refine h.setKey rfl (fun _ => (h.quiet k hk).sublist hsub) ?_ ?_ fun _ _ => id
  · exact fun _ _ _ _ => ((h.quiet k hk).sublist hsub).released
  · exact fun hdown => (hsub.count_le _).trans (h.withheld k hdown)

/-- Any event but a release may be put on an active key that is pressed or held. -/
theorem Sound.appendDown (h : v.Sound before todo) {t : EventType}
    (hactive : (v.key k).active = true) (hdown : (v.key k).pressed = true ∨ v.held k = true)
    (hrelease : t ≠ .release_key) :
    (v.setKey k { v.key k with types := (v.key k).types ++ [t] }).Sound before todo := by
  refine h.setKey rfl (fun hk => ?_) (fun _ _ hup hfree => ?_) (fun _ => ?_) fun _ _ => id
  · rw [hactive] at hk
    cases hk
  · rcases hdown with hdown | hdown
    · rw [hdown] at hup
      cases hup
    · rw [hdown] at hfree
      cases hfree
  · rw [releases_append hrelease]
    exact h.withheld k hdown

/-- A note-on presses its key. -/
theorem Sound.press (h : v.Sound before todo) (hactive : (v.key k).active = true)
    (hbefore : releases (v.key k).types ≤ before k) :
    (v.setKey k { v.key k with pressed := true, types := (v.key k).types ++ [.note_on] }).Sound
      before todo := by
  refine h.setKey rfl (fun hk => ?_) nofun (fun _ => ?_) fun _ _ => id
  · rw [hactive] at hk
    cases hk
  · rwa [releases_append (by decide)]

/-- A note-off: the key may have to be released. -/
theorem Sound.unpress (h : v.Sound before []) (hbefore : releases (v.key k).types ≤ before k) :
    (v.setKey k { v.key k with pressed := false, types := (v.key k).types ++ [.note_off] }).Sound
      before [k] := by
  refine h.setKey rfl (fun hk => (h.quiet k hk).append rfl) (fun hmem => ?_) (fun _ => ?_) ?_
  · exact absurd List.mem_cons_self hmem
  · rwa [releases_append (by decide)]
  · exact fun _ _ _ => List.not_mem_nil

/-- The pedals change. -/
theorem Sound.pedals (h : v.Sound before todo) {sustain sostenuto : Bool} {keys : List Key}
    (hbefore : ∀ k, releases (v.key k).types ≤ before k)
    (hreleased : ∀ k, k ∉ todo' → (v.key k).active = true → (v.key k).pressed = false →
      (sustain || sostenuto && keys.contains k) = false → Released (v.key k).types) :
    { v with sustainPedal := sustain, sostenutoPedal := sostenuto, sostenutoKeys := keys }.Sound
      before todo' :=
  ⟨h.quiet, hreleased, fun k _ => hbefore k, h.listed, h.nodup, h.expects, h.solo, h.mute⟩

/-- The pending events change. -/
theorem Sound.pend (h : v.Sound before todo) {es : List KeyEvent} (hes : ∀ e ∈ es, v.Expects e) :
    { v with events := es }.Sound before todo :=
  ⟨h.quiet, h.released, h.withheld, h.listed, h.nodup, hes, h.solo, h.mute⟩

def freeKey (v : SoundView) (k : Key) : SoundView :=
  { v.setKey k { v.key k with active := false, types := [] } with
    activeKeys := v.activeKeys.erase k }

theorem Sound.freeKey (h : v.Sound before todo) (hempty : v.events = []) :
    (v.freeKey k).Sound before todo := by
  have hself : (v.freeKey k).key k = { v.key k with active := false, types := [] } := setKey_self
  have hkey : ∀ k', k' ≠ k → (v.freeKey k).key k' = v.key k' := fun k' hkk => setKey_of_ne hkk
  refine ⟨fun k' => ?_, fun k' htodo => ?_, fun k' => ?_, fun k' => ?_, h.nodup.erase k,
    fun e he => ?_, h.solo, h.mute⟩
  · by_cases hkk : k' = k
    · rw [hkk, hself]
      exact fun _ => List.forall_mem_nil _
    · rw [hkey k' hkk]
      exact h.quiet k'
  · by_cases hkk : k' = k
    · rw [hkk, hself]
      exact nofun
    · rw [hkey k' hkk]
      exact h.released k' htodo
  · by_cases hkk : k' = k
    · rw [hkk, hself]
      exact fun _ => Nat.zero_le _
    · rw [hkey k' hkk]
      exact h.withheld k'
  · have hkeys : (v.freeKey k).activeKeys = v.activeKeys.erase k := rfl
    rw [hkeys, h.nodup.mem_erase_iff, h.listed]
    by_cases hkk : k' = k
    · rw [hkk, hself]
      simp
    · rw [hkey k' hkk]
      simp [hkk]
  · have hmem : e ∈ v.events := he
    rw [hempty] at hmem
    cases hmem

end SoundView

/-! ## The view of a channel -/

/-- The types of the events of a key. -/
def MidiKey.types (key : MidiKey) : List EventType := key.history.map (·.type)

def MidiKey.phase (key : MidiKey) : KeyPhase := ⟨key.active, key.keyPressed, key.types⟩

namespace KeyboardChannel

variable {ch : KeyboardChannel} {k : Key} {e : KeyEvent} {f : MidiKey → MidiKey}
  {before : Key → ℕ} {todo : List Key}

def soundOf (ch : KeyboardChannel) : SoundView where
  key := fun k => (ch.keys k).phase
  activeKeys := ch.activeKeys
  soloMode := ch.soloMode
  sustainPedal := ch.sustainPedal
  sostenutoPedal := ch.sostenutoPedal
  sostenutoKeys := ch.sostenutoKeys
  mute := ch.mute
  events := ch.events

theorem modifyKey_soundOf :
    (ch.modifyKey k f).soundOf = ch.soundOf.setKey k (f (ch.keys k)).phase := by
  have hkeys : (fun k' => ((ch.modifyKey k f).keys k').phase) =
      Function.update (fun k' => (ch.keys k').phase) k (f (ch.keys k)).phase := by
    refine funext fun k' => ?_
    by_cases hk : k' = k
    · rw [hk, modifyKey_self, Function.update_self]
    · rw [modifyKey_of_ne hk, Function.update_of_ne hk]
  simp only [soundOf, SoundView.setKey, hkeys]
  rfl

/-- An operation that leaves the view of the key alone. -/
theorem modifyKey_soundOf_same (h : (f (ch.keys k)).phase = (ch.keys k).phase) :
    (ch.modifyKey k f).soundOf = ch.soundOf := by
  rw [modifyKey_soundOf, h]
  exact congrArg (fun key => { ch.soundOf with key := key }) (Function.update_eq_self ..)

theorem append_phase {key : MidiKey} :
    (key.append e).phase = { key.phase with types := key.types ++ [e.type] } := by
  simp [MidiKey.phase, MidiKey.types, MidiKey.history, MidiKey.append]

theorem append_soundOf : (ch.append k e).soundOf = ch.soundOf.setKey k
    { ch.soundOf.key k with types := (ch.soundOf.key k).types ++ [e.type] } := by
  rw [append, modifyKey_soundOf, append_phase]
  rfl

theorem setKeyDown_keys {down : Bool} : (ch.setKeyDown k down).keys = ch.keys := rfl

@[simp] theorem setKeyDown_soundOf {down : Bool} : (ch.setKeyDown k down).soundOf = ch.soundOf :=
  rfl

theorem markKeyAsActive_soundOf :
    (ch.markKeyAsActive k).soundOf = ch.soundOf.markKeyAsActive k := by
  rw [markKeyAsActive, SoundView.markKeyAsActive]
  by_cases hk : (ch.keys k).active = true
  · rw [if_pos hk, if_pos (show (ch.soundOf.key k).active = true from hk)]
  · rw [if_neg hk, if_neg (show ¬ (ch.soundOf.key k).active = true from hk)]
    have hmark : (ch.modifyKey k ({ · with active := true })).soundOf =
        ch.soundOf.setKey k { ch.soundOf.key k with active := true } := modifyKey_soundOf
    rw [← hmark]
    rfl

theorem resetParameters_soundOf {isRpn isNrpn : Bool} :
    (ch.resetParameters isRpn isNrpn).soundOf = ch.soundOf :=
  resetParameters_field _ fun _ _ _ => rfl

/-- Held by the sustain pedal, or captured by the sostenuto pedal. -/
def held (ch : KeyboardChannel) (k : Key) : Bool := ch.sustainPedal || ch.sostenutoActiveOnKey k

theorem shouldReleaseVoice_eq : ch.shouldReleaseVoice k = !ch.soundOf.held k := by
  rw [shouldReleaseVoice, SoundView.held, sostenutoActiveOnKey]
  cases hs : ch.sustainPedal
  · rw [if_neg Bool.false_ne_true]
    cases hc : ch.sostenutoPedal && ch.sostenutoKeys.contains k
    · simp only [soundOf, hs, hc]
      rfl
    · simp only [soundOf, hs, hc]
      rfl
  · simp [soundOf, hs]

/-! ## Note events -/

theorem types_modify {events : List KeyEvent} {n : ℕ} {g : KeyEvent → KeyEvent}
    (h : ∀ e, (g e).type = e.type) : (events.modify n g).map (·.type) = events.map (·.type) := by
  induction events generalizing n with
  | nil => simp
  | cons e events ih =>
    cases n with
    | zero => simp [h]
    | succ n => simp [ih]

theorem modify_append_length {events : List KeyEvent} {g : KeyEvent → KeyEvent} :
    (events ++ [e]).modify events.length g = events ++ [g e] := by
  induction events with
  | nil => rfl
  | cons e' events ih =>
    rw [List.cons_append, List.length_cons, List.modify_succ_cons, ih, List.cons_append]

theorem modifyEvent_soundOf {n : ℕ} {g : KeyEvent → KeyEvent} (h : ∀ e, (g e).type = e.type) :
    (ch.modifyKey k (·.modifyEvent n g)).soundOf = ch.soundOf := by
  refine modifyKey_soundOf_same ?_
  simp only [MidiKey.phase, MidiKey.types, MidiKey.history, MidiKey.modifyEvent, List.map_append,
    types_modify h]

theorem receiveNoteOn_soundOf (h : e.type = .note_on) :
    (ch.receiveNoteOn e).soundOf = ch.soundOf.setKey e.key { ch.soundOf.key e.key with
      pressed := true, types := (ch.soundOf.key e.key).types ++ [.note_on] } := by
  have hpress : ∀ ch' : KeyboardChannel, ch'.soundOf = (ch.append e.key e).soundOf →
      ((ch'.modifyKey e.key ({ · with keyPressed := true, velocity := e.velocity })).setKeyDown
        e.key true).soundOf = ch.soundOf.setKey e.key { ch.soundOf.key e.key with
          pressed := true, types := (ch.soundOf.key e.key).types ++ [.note_on] } := by
    intro ch' hch'
    have hkey : (ch'.modifyKey e.key
        ({ · with keyPressed := true, velocity := e.velocity })).soundOf =
          ch'.soundOf.setKey e.key { ch'.soundOf.key e.key with pressed := true } :=
      modifyKey_soundOf
    rw [setKeyDown_soundOf, hkey, hch', append_soundOf, SoundView.setKey_setKey,
      SoundView.setKey_self, h]
  rw [receiveNoteOn]
  dsimp only
  rw [if_pos h]
  split
  · exact hpress _ rfl
  · exact hpress _ rfl

theorem receiveNoteOff_soundOf (h : e.type = .note_off) :
    (ch.receiveNoteOff e).soundOf = ch.soundOf.setKey e.key { ch.soundOf.key e.key with
      pressed := false, types := (ch.soundOf.key e.key).types ++ [.note_off] } := by
  have hkey : (ch.modifyKey e.key ({ · with keyPressed := false })).soundOf =
      ch.soundOf.setKey e.key { ch.soundOf.key e.key with pressed := false } := modifyKey_soundOf
  rw [receiveNoteOff, append_soundOf, setKeyDown_soundOf, hkey, SoundView.setKey_setKey,
    SoundView.setKey_self, h]

/-- The note-off that was received becomes a release. -/
theorem receiveNoteOff_release (h : e.type = .note_off) :
    ((ch.receiveNoteOff e).modifyKey e.key (·.modifyEvent (ch.keys e.key).events.length
      ({ · with type := .release_key }))).soundOf =
    ch.soundOf.setKey e.key { ch.soundOf.key e.key with
      pressed := false, types := (ch.soundOf.key e.key).types ++ [.release_key] } := by
  have hkey : (ch.receiveNoteOff e).keys e.key =
      { ch.keys e.key with keyPressed := false, events := (ch.keys e.key).events ++ [e] } := by
    rw [receiveNoteOff, append, modifyKey_self, setKeyDown_keys, modifyKey_self]
    rfl
  rw [modifyKey_soundOf, receiveNoteOff_soundOf h, SoundView.setKey_setKey, hkey]
  refine congrArg (SoundView.setKey _ _) ?_
  simp [MidiKey.phase, MidiKey.types, MidiKey.history, MidiKey.modifyEvent, modify_append_length,
    soundOf]

theorem cancelRelease_sound {alloc : Bool} (h : ch.soundOf.Sound before todo)
    (hactive : (ch.soundOf.key e.key).active = true)
    (hpressed : (ch.soundOf.key e.key).pressed = true) :
    (ch.cancelRelease alloc e).soundOf.Sound before todo := by
  rw [cancelRelease]
  split
  · rw [append_soundOf]
    refine h.appendDown hactive (.inl hpressed) fun htype => ?_
    cases htype
  · exact h

/-- The key is not released: it is inactive, or held. -/
theorem receiveNoteOff_sound (h : ch.soundOf.Sound before []) (htype : e.type = .note_off)
    (hbefore : releases (ch.soundOf.key e.key).types ≤ before e.key)
    (hkept : ((ch.keys e.key).active && ch.shouldReleaseVoice e.key) = false) :
    (ch.receiveNoteOff e).soundOf.Sound before [] := by
  rw [receiveNoteOff_soundOf htype]
  refine (h.unpress hbefore).close fun hactive _ hfree => ?_
  rw [SoundView.setKey_self] at hactive
  have hactive' : (ch.keys e.key).active = true := hactive
  have hfree' : ch.soundOf.held e.key = false := hfree
  rw [hactive', shouldReleaseVoice_eq, hfree'] at hkept
  cases hkept

theorem receiveNoteOff_sound_release (h : ch.soundOf.Sound before []) (htype : e.type = .note_off)
    (hreleased : ((ch.keys e.key).active && ch.shouldReleaseVoice e.key) = true) :
    ((ch.receiveNoteOff e).modifyKey e.key (·.modifyEvent (ch.keys e.key).events.length
      ({ · with type := .release_key }))).soundOf.Sound before [] := by
  rw [Bool.and_eq_true, shouldReleaseVoice_eq, Bool.not_eq_true'] at hreleased
  rw [receiveNoteOff_release htype]
  refine h.setKey rfl (fun hk => (h.quiet _ hk).append rfl) ?_ ?_ fun _ _ => id
  · exact fun _ _ _ _ => released_append_release
  · rintro (hdown | hdown)
    · cases hdown
    · rw [hreleased.2] at hdown
      cases hdown

/-- An event of an inactive key is freed. -/
theorem freeEvent_sound {n : ℕ} (h : ch.soundOf.Sound before todo)
    (hk : (ch.keys k).active = false) :
    (ch.modifyKey k (·.freeEvent n)).soundOf.Sound before todo := by
  rw [modifyKey_soundOf]
  have hsub : ((ch.keys k).freeEvent n).types.Sublist (ch.soundOf.key k).types :=
    ((List.eraseIdx_sublist ..).append_left _).map _
  exact h.shorten hk hsub

/-! ## Pedals -/

/-- The release of active keys is cancelled while the sustain pedal is down. -/
theorem cancelCopies_sound {keys : List Key} {alloc : Key → Bool} {test : MidiKey → Bool}
    (h : ch.soundOf.Sound before todo) (hpedal : ch.sustainPedal = true)
    (hactive : ∀ k ∈ keys, (ch.keys k).active = true) :
    (ch.appendCopies keys alloc test { e with type := .cancel_release_key }).soundOf.Sound
      before todo := by
  rw [appendCopies]
  induction keys generalizing ch with
  | nil => exact h
  | cons k keys ih =>
    rw [List.foldl_cons]
    have hrest : ∀ k' ∈ keys, (ch.keys k').active = true :=
      fun k' hk' => hactive k' (List.mem_cons_of_mem k hk')
    split
    · refine ih ?_ hpedal fun k' hk' => ?_
      · rw [append_soundOf]
        refine h.appendDown (hactive k List.mem_cons_self) (.inr ?_) fun htype => ?_
        · rw [SoundView.held, show ch.soundOf.sustainPedal = true from hpedal, Bool.true_or]
        · cases htype
      · rw [append_active]
        exact hrest k' hk'
    · exact ih h hpedal hrest

/-- The captured keys are released when the sostenuto pedal is up. -/
theorem releaseCopies_sound {keys : List Key} {alloc : Key → Bool} {sustain : Bool}
    (h : ch.soundOf.Sound before keys) (hsostenuto : ch.sostenutoPedal = false)
    (hsustain : ch.sustainPedal = sustain) (halloc : ∀ k, alloc k = true) :
    (ch.appendCopies keys alloc (fun key => !key.keyPressed && !sustain)
      { e with type := .release_key }).soundOf.Sound before [] := by
  rw [appendCopies]
  induction keys generalizing ch with
  | nil => exact h
  | cons k keys ih =>
    have hheld : ch.soundOf.held k = sustain := by
      rw [SoundView.held, show ch.soundOf.sustainPedal = sustain from hsustain,
        show ch.soundOf.sostenutoPedal = false from hsostenuto, Bool.false_and, Bool.or_false]
    rw [List.foldl_cons]
    split
    · rename_i htest
      rw [halloc, Bool.and_true, Bool.and_eq_true, Bool.not_eq_true', Bool.not_eq_true'] at htest
      refine ih ?_ hsostenuto hsustain
      rw [append_soundOf]
      exact h.release htest.1 (hheld.trans htest.2)
    · rename_i htest
      rw [halloc, Bool.and_true, Bool.and_eq_true, Bool.not_eq_true', Bool.not_eq_true'] at htest
      refine ih (h.close fun _ hup hfree => absurd ⟨hup, ?_⟩ htest) hsostenuto hsustain
      rw [← hheld]
      exact hfree

/-! ## The end of the fragment -/

theorem freeKey_soundOf : (ch.freeKey k).soundOf = ch.soundOf.freeKey k := by
  have hkey : (ch.modifyKey k ({ · with
      active := false, releaseTrigger := .none, events := [], past := [] })).soundOf =
      ch.soundOf.setKey k { ch.soundOf.key k with active := false, types := [] } :=
    modifyKey_soundOf
  rw [SoundView.freeKey, ← hkey]
  rfl

theorem freeAllInactiveKeys_sound {hasNotes : Key → Bool} (h : ch.soundOf.Sound before todo)
    (hempty : ch.events = []) : (ch.freeAllInactiveKeys hasNotes).soundOf.Sound before todo := by
  rw [freeAllInactiveKeys]
  generalize ch.activeKeys = keys
  induction keys generalizing ch with
  | nil => exact h
  | cons k keys ih =>
    rw [List.foldl_cons]
    split
    · exact ih h hempty
    · refine ih ?_ hempty
      rw [freeKey_soundOf]
      exact h.freeKey hempty

theorem clearEventLists_sound (h : ch.soundOf.Sound before todo) :
    ch.clearEventListsOfCurrentFragment.soundOf.Sound before todo := by
  have hkey : ch.clearEventListsOfCurrentFragment.soundOf =
      { ch.soundOf with events := [] } := by
    have hphase : ∀ k, (ch.clearEventListsOfCurrentFragment.keys k).phase = (ch.keys k).phase := by
      intro k
      rw [clearEventListsOfCurrentFragment]
      dsimp only
      split
      · simp only [MidiKey.phase, MidiKey.types, MidiKey.history, List.append_nil]
      · rfl
    simp only [soundOf, hphase]
    rfl
  rw [hkey]
  refine h.pend fun e he => ?_
  cases he

end KeyboardChannel

end LinuxSampler
