import LinuxSampler.KeyboardStolen

/-!
# Key event lists

Only the lists of the active keys are cleared at the end of a fragment. So a
handler has to leave the list of an idle key empty: of a key that is not active
and has no theft queued. `Tidy` allows for the events that a handler puts on a
key before it knows whether the key stays idle.
-/

namespace LinuxSampler

/-- What tidiness depends on: of each key whether it is active, its queued thefts
and the length of its list, and the list of the active keys. -/
def KeyboardChannel.shapeOf (ch : KeyboardChannel) : (Key → Bool × ℤ × ℕ) × List Key :=
  (fun k => ((ch.keys k).active, (ch.keys k).voiceTheftsQueued, (ch.keys k).events.length),
    ch.activeKeys)

namespace KeyboardChannel

variable {ch : KeyboardChannel} {k : Key} {e : KeyEvent} {f : MidiKey → MidiKey}

theorem modifyKey_shapeOf (hactive : (f (ch.keys k)).active = (ch.keys k).active)
    (hthefts : (f (ch.keys k)).voiceTheftsQueued = (ch.keys k).voiceTheftsQueued)
    (hlength : (f (ch.keys k)).events.length = (ch.keys k).events.length) :
    (ch.modifyKey k f).shapeOf = ch.shapeOf := by
  refine Prod.ext (funext fun k' => ?_) rfl
  refine modifyKey_same (fun key => (key.active, key.voiceTheftsQueued, key.events.length)) ?_
  rw [hactive, hthefts, hlength]

theorem modifyEvent_shapeOf {n : ℕ} {g : KeyEvent → KeyEvent} :
    (ch.modifyKey k (·.modifyEvent n g)).shapeOf = ch.shapeOf :=
  modifyKey_shapeOf rfl rfl (List.length_modify ..)

@[simp] theorem resetParameters_shapeOf {isRpn isNrpn : Bool} :
    (ch.resetParameters isRpn isNrpn).shapeOf = ch.shapeOf :=
  resetParameters_field _ fun _ _ _ => rfl

theorem setKeyDown_shapeOf {down : Bool} : (ch.setKeyDown k down).shapeOf = ch.shapeOf := rfl

theorem receiveNoteOn_shapeOf : (ch.receiveNoteOn e).shapeOf = (ch.append e.key e).shapeOf := by
  rw [receiveNoteOn]
  dsimp only
  split
  · split
    · exact setKeyDown_shapeOf.trans (modifyKey_shapeOf rfl rfl rfl)
    · exact setKeyDown_shapeOf.trans (modifyKey_shapeOf rfl rfl rfl)
  · rfl

theorem receiveNoteOff_shapeOf : (ch.receiveNoteOff e).shapeOf = (ch.append e.key e).shapeOf := by
  refine Prod.ext (funext fun k => ?_) rfl
  by_cases hk : k = e.key
  · rcases hk with rfl
    simp [shapeOf, receiveNoteOff, append, setKeyDown, MidiKey.append]
  · simp [shapeOf, receiveNoteOff, append, setKeyDown, modifyKey_of_ne hk]

end KeyboardChannel

namespace Keyboards

variable {C : Type*} [DecidableEq C] {s s' s'' : Keyboards C} {c : C} {k : Key} {e : KeyEvent}
  {o : KeyOutcome C} {pools : NotePools} {left left' left'' : C → Key → ℕ}
  {f : KeyboardChannel → KeyboardChannel}

/-- Neither active nor waiting for a stolen voice. -/
def Idle (s : Keyboards C) (c : C) (k : Key) : Prop :=
  (s.key c k).active = false ∧ (s.key c k).voiceTheftsQueued = 0

instance : Decidable (s.Idle c k) := inferInstanceAs (Decidable (_ ∧ _))

/-- The lists of the idle keys have `left` events. -/
structure Tidy (left : C → Key → ℕ) (s : Keyboards C) : Prop where
  idle : ∀ c k, s.Idle c k → (s.key c k).events.length = left c k
  listed : ∀ c k, k ∈ (s.channel c).activeKeys ↔ (s.key c k).active = true
  nodup : ∀ c, (s.channel c).activeKeys.Nodup
  nonneg : ∀ c k, 0 ≤ (s.key c k).voiceTheftsQueued

/-- One event more on key `k` of channel `c`. -/
def oneMore (left : C → Key → ℕ) (c : C) (k : Key) : C → Key → ℕ := fun c' k' =>
  if c' = c ∧ k' = k then left c' k' + 1 else left c' k'

/-- What a handler does: it keeps the state tidy, and makes no key idle. -/
def Keeps (left left' : C → Key → ℕ) (s s' : Keyboards C) : Prop :=
  s.Tidy left → s'.Tidy left' ∧ ∀ c k, s'.Idle c k → s.Idle c k

omit [DecidableEq C] in
theorem Keeps.refl : Keeps left left s s := fun h => ⟨h, fun _ _ => id⟩

omit [DecidableEq C] in
theorem Keeps.trans (h : Keeps left left' s s') (h' : Keeps left' left'' s' s'') :
    Keeps left left'' s s'' := by
  intro htidy
  rcases h htidy with ⟨htidy', hidle⟩
  rcases h' htidy' with ⟨htidy'', hidle'⟩
  exact ⟨htidy'', fun c k hk => hidle c k (hidle' c k hk)⟩

omit [DecidableEq C] in
theorem keeps_of_shape (h : ∀ c, (s'.channel c).shapeOf = (s.channel c).shapeOf) :
    Keeps left left s s' := by
  have hkey : ∀ c k, ((s'.key c k).active, (s'.key c k).voiceTheftsQueued,
      (s'.key c k).events.length) = ((s.key c k).active, (s.key c k).voiceTheftsQueued,
      (s.key c k).events.length) := fun c k => congrFun (congrArg Prod.fst (h c)) k
  have hactive : ∀ c k, (s'.key c k).active = (s.key c k).active :=
    fun c k => congrArg Prod.fst (hkey c k)
  have hthefts : ∀ c k, (s'.key c k).voiceTheftsQueued = (s.key c k).voiceTheftsQueued :=
    fun c k => congrArg (·.2.1) (hkey c k)
  have hlength : ∀ c k, (s'.key c k).events.length = (s.key c k).events.length :=
    fun c k => congrArg (·.2.2) (hkey c k)
  have hkeys : ∀ c, (s'.channel c).activeKeys = (s.channel c).activeKeys :=
    fun c => congrArg Prod.snd (h c)
  have hidle : ∀ c k, s'.Idle c k → s.Idle c k := by
    intro c k hk
    rwa [Idle, hactive, hthefts] at hk
  intro htidy
  refine ⟨⟨fun c k hk => ?_, fun c k => ?_, fun c => ?_, fun c k => ?_⟩, hidle⟩
  · rw [hlength]
    exact htidy.idle c k (hidle c k hk)
  · rw [hkeys, hactive]
    exact htidy.listed c k
  · rw [hkeys]
    exact htidy.nodup c
  · rw [hthefts]
    exact htidy.nonneg c k

theorem keeps_onChannel (h : (f (s.channel c)).shapeOf = (s.channel c).shapeOf) :
    Keeps left left s (s.onChannel c f) :=
  keeps_of_shape fun _ => onChannel_same _ h

/-- A state whose shape is that of another one, on one channel. -/
theorem Keeps.of_shape {g : KeyboardChannel → KeyboardChannel}
    (h : Keeps left left' s (s.onChannel c g))
    (hshape : (f (s.channel c)).shapeOf = (g (s.channel c)).shapeOf) :
    Keeps left left' s (s.onChannel c f) := by
  refine h.trans (keeps_of_shape fun c' => ?_)
  by_cases hc : c' = c
  · rw [hc, onChannel_self, onChannel_self, hshape]
  · rw [onChannel_of_ne hc, onChannel_of_ne hc]

/-! ## Events on keys -/

/-- An operation on one key that does not change its activity, and finishes no
theft. -/
theorem keeps_modifyKey {g : MidiKey → MidiKey}
    (hactive : (g (s.key c k)).active = (s.key c k).active)
    (hthefts : (s.key c k).voiceTheftsQueued ≤ (g (s.key c k)).voiceTheftsQueued)
    (hkey : s.Idle c k → (s.key c k).events.length = left c k →
      (g (s.key c k)).events.length = left' c k)
    (hother : ∀ c' k', ¬ (c' = c ∧ k' = k) → left' c' k' = left c' k') :
    Keeps left left' s (s.onChannel c (·.modifyKey k g)) := by
  have hself : (s.onChannel c (·.modifyKey k g)).key c k = g (s.key c k) := by
    rw [key_onChannel_self, KeyboardChannel.modifyKey_self, key]
  have hne : ∀ c' k', ¬ (c' = c ∧ k' = k) →
      (s.onChannel c (·.modifyKey k g)).key c' k' = s.key c' k' := by
    intro c' k' hck
    by_cases hc : c' = c
    · rcases hc with rfl
      rw [key_onChannel_self, KeyboardChannel.modifyKey_of_ne fun hk => hck ⟨rfl, hk⟩, key]
    · exact key_onChannel_of_ne hc
  have hactive' : ∀ c' k', ((s.onChannel c (·.modifyKey k g)).key c' k').active =
      (s.key c' k').active := by
    intro c' k'
    by_cases hck : c' = c ∧ k' = k
    · rcases hck with ⟨rfl, rfl⟩
      rw [hself, hactive]
    · rw [hne c' k' hck]
  have hthefts' : ∀ c' k', (s.key c' k').voiceTheftsQueued ≤
      ((s.onChannel c (·.modifyKey k g)).key c' k').voiceTheftsQueued := by
    intro c' k'
    by_cases hck : c' = c ∧ k' = k
    · rcases hck with ⟨rfl, rfl⟩
      rw [hself]
      exact hthefts
    · rw [hne c' k' hck]
  have hkeys : ∀ c', ((s.onChannel c (·.modifyKey k g)).channel c').activeKeys =
      (s.channel c').activeKeys := fun _ => onChannel_same KeyboardChannel.activeKeys rfl
  intro htidy
  have hidle : ∀ c' k', (s.onChannel c (·.modifyKey k g)).Idle c' k' → s.Idle c' k' := by
    rintro c' k' ⟨hinactive, hzero⟩
    refine ⟨(hactive' c' k').symm.trans hinactive, ?_⟩
    have hle := hthefts' c' k'
    have hnonneg := htidy.nonneg c' k'
    omega
  refine ⟨⟨fun c' k' hk => ?_, fun c' k' => ?_, fun c' => ?_, fun c' k' => ?_⟩, hidle⟩
  · have hlength := htidy.idle c' k' (hidle c' k' hk)
    by_cases hck : c' = c ∧ k' = k
    · rcases hck with ⟨rfl, rfl⟩
      rw [hself]
      exact hkey (hidle c' k' hk) hlength
    · rw [hne c' k' hck, hlength, hother c' k' hck]
  · rw [hkeys, hactive']
    exact htidy.listed c' k'
  · rw [hkeys]
    exact htidy.nodup c'
  · exact (htidy.nonneg c' k').trans (hthefts' c' k')

theorem keeps_append : Keeps left (oneMore left c k) s (s.onChannel c (·.append k e)) := by
  refine keeps_modifyKey rfl le_rfl (fun _ hlength => ?_) fun c' k' hck => ?_
  · rw [MidiKey.append, List.length_append, hlength, oneMore, if_pos ⟨rfl, rfl⟩]
    rfl
  · rw [oneMore, if_neg hck]

/-- A key that is not idle takes any event. -/
theorem keeps_append_busy (h : ¬ s.Idle c k) :
    Keeps left left s (s.onChannel c (·.append k e)) :=
  keeps_modifyKey rfl le_rfl (fun hidle => absurd hidle h) fun _ _ _ => rfl

theorem length_eraseIdx_succ {events : List KeyEvent} {n : ℕ} (h : events.length = n + 1) :
    (events.eraseIdx n).length = n := by
  rw [List.length_eraseIdx, h, if_pos (Nat.lt_succ_self n)]
  rfl

/-- The event that was one more is freed again. -/
theorem keeps_freeEvent {n : ℕ} (hn : s.Idle c k → n = left c k) :
    Keeps (oneMore left c k) left s (s.onChannel c (·.modifyKey k (·.freeEvent n))) := by
  refine keeps_modifyKey rfl le_rfl (fun hidle hlength => ?_) fun c' k' hck => ?_
  · rw [oneMore, if_pos ⟨rfl, rfl⟩] at hlength
    rw [MidiKey.freeEvent, hn hidle]
    exact length_eraseIdx_succ hlength
  · rw [oneMore, if_neg hck]

/-- It is freed if the key is still idle. -/
theorem keeps_freeUnused {n : ℕ} (hn : s.Idle c k → n = left c k) :
    Keeps (oneMore left c k) left s (s.freeUnused c k n) := by
  by_cases hfree : (!(s.key c k).active) = true ∧ (s.key c k).voiceTheftsQueued = 0
  · refine (keeps_freeEvent hn).of_shape ?_
    have hfree' : (!((s.channel c).keys k).active) = true ∧
        ((s.channel c).keys k).voiceTheftsQueued = 0 := hfree
    refine congrArg KeyboardChannel.shapeOf ?_
    rw [KeyboardChannel.modifyKey, KeyboardChannel.modifyKey, if_pos hfree']
  · refine keeps_modifyKey ?_ ?_ (fun hidle => absurd ?_ hfree) fun c' k' hck => ?_
    · rw [if_neg hfree]
    · rw [if_neg hfree]
    · simpa [Idle] using hidle
    · rw [oneMore, if_neg hck]

/-- A handler that puts an event on a key, and may take it away again in the end. -/
theorem Keeps.close (h : Keeps left (oneMore left c k) s s')
    (hclose : (s'.Idle c k → (s.key c k).events.length = left c k) →
      Keeps (oneMore left c k) left s' s'') : Keeps left left s s'' := by
  intro htidy
  rcases h htidy with ⟨htidy', hidle⟩
  rcases hclose (fun hk => htidy.idle c k (hidle c k hk)) htidy' with ⟨hclosed, hidle'⟩
  exact ⟨hclosed, fun c' k' hk => hidle c' k' (hidle' c' k' hk)⟩

/-! ## Notes and voices -/

theorem keeps_markKeyAsActive :
    Keeps left left s (s.onChannel c (·.markKeyAsActive k)) := by
  by_cases hk : (s.key c k).active = true
  · refine keeps_onChannel ?_
    rw [KeyboardChannel.markKeyAsActive_of_active hk]
  · have hthefts : ∀ c' k', ((s.onChannel c (·.markKeyAsActive k)).key c' k').voiceTheftsQueued =
        (s.key c' k').voiceTheftsQueued := fun c' k' =>
      onChannel_same (fun ch => (ch.keys k').voiceTheftsQueued) KeyboardChannel.markKeyAsActive_thefts
    have hevents : ∀ c' k', ((s.onChannel c (·.markKeyAsActive k)).key c' k').events =
        (s.key c' k').events := fun c' k' =>
      onChannel_same (fun ch => (ch.keys k').events) KeyboardChannel.markKeyAsActive_events
    have hactive : ∀ c' k', ((s.onChannel c (·.markKeyAsActive k)).key c' k').active = true ↔
        (s.key c' k').active = true ∨ c' = c ∧ k' = k := by
      intro c' k'
      by_cases hc : c' = c
      · rcases hc with rfl
        rw [key_onChannel_self, key]
        by_cases hkk : k' = k
        · rcases hkk with rfl
          simp [KeyboardChannel.markKeyAsActive_active_self]
        · simp [KeyboardChannel.markKeyAsActive_active_of_ne hkk, hkk]
      · simp [key_onChannel_of_ne hc, hc]
    have hidle : ∀ c' k', (s.onChannel c (·.markKeyAsActive k)).Idle c' k' → s.Idle c' k' := by
      rintro c' k' ⟨hinactive, hzero⟩
      refine ⟨?_, (hthefts c' k').symm.trans hzero⟩
      by_contra hcon
      rw [Bool.not_eq_false] at hcon
      rw [(hactive c' k').mpr (.inl hcon)] at hinactive
      cases hinactive
    intro htidy
    refine ⟨⟨fun c' k' hidle' => ?_, fun c' k' => ?_, fun c' => ?_, fun c' k' => ?_⟩, hidle⟩
    · rw [hevents]
      exact htidy.idle c' k' (hidle c' k' hidle')
    · rw [hactive]
      by_cases hc : c' = c
      · rcases hc with rfl
        rw [onChannel_self, KeyboardChannel.markKeyAsActive_activeKeys hk, List.mem_append,
          htidy.listed, List.mem_singleton]
        simp
      · rw [onChannel_of_ne hc, htidy.listed]
        simp [hc]
    · by_cases hc : c' = c
      · rcases hc with rfl
        rw [onChannel_self, KeyboardChannel.markKeyAsActive_activeKeys hk]
        refine List.nodup_append.mpr ⟨htidy.nodup c', List.nodup_singleton k, ?_⟩
        rintro k₁ hk₁ k₂ hk₂ rfl
        rw [List.mem_singleton] at hk₂
        rcases hk₂ with rfl
        exact hk ((htidy.listed c' k₁).mp hk₁)
      · rw [onChannel_of_ne hc]
        exact htidy.nodup c'
    · rw [hthefts]
      exact htidy.nonneg c' k'

/-- Launches keep the state tidy. -/
theorem closed_keeps : LaunchClosed (Keeps (C := C) left left) where
  refl _ := .refl
  trans := .trans
  notes _ _ := keeps_of_shape fun _ => rfl
  markKeyAsActive _ _ _ := keeps_markKeyAsActive
  releaseTrigger _ _ _ _ := keeps_onChannel (KeyboardChannel.modifyKey_shapeOf rfl rfl rfl)
  noteID _ _ _ _ _ := keeps_onChannel KeyboardChannel.modifyEvent_shapeOf

theorem theftClosed_keeps : TheftClosed (Keeps (C := C) left left) := by
  intro s c e
  have hqueue : Keeps left left s
      { s with voiceStealingQueue := s.voiceStealingQueue ++ [⟨c, e⟩] } :=
    keeps_of_shape fun _ => rfl
  refine hqueue.trans (keeps_modifyKey rfl ?_ (fun _ hlength => hlength) fun _ _ _ => rfl)
  exact Int.le_add_one le_rfl

/-! ## Handlers -/

theorem keeps_cancelRelease {alloc : Bool} :
    Keeps left left s (s.onChannel c (·.cancelRelease alloc e)) := by
  by_cases hcancel : ((s.channel c).keys e.key).active ∧ !(s.channel c).sustainPedal ∧
      e.type = .note_on ∧ alloc
  · have hbusy : ¬ s.Idle c e.key := by
      rintro ⟨hinactive, -⟩
      rw [key, hcancel.1] at hinactive
      cases hinactive
    refine (keeps_append_busy (e := { e with type := .cancel_release_key }) hbusy).of_shape ?_
    rw [KeyboardChannel.cancelRelease, if_pos hcancel]
  · refine keeps_onChannel ?_
    rw [KeyboardChannel.cancelRelease, if_neg hcancel]

theorem keeps_processNoteOn : Keeps left left s (s.processNoteOn o c e) := by
  rw [processNoteOn]
  split
  · exact .refl
  · split
    · exact .refl
    · refine Keeps.close ?_ keeps_freeUnused
      have hreceive : Keeps left (oneMore left c e.key) s (s.onChannel c (·.receiveNoteOn e)) :=
        keeps_append.of_shape KeyboardChannel.receiveNoteOn_shapeOf
      exact (hreceive.trans keeps_cancelRelease).trans
        (closed_keeps.triggerNewVoices theftClosed_keeps)

theorem keeps_respawnSolo : Keeps left left s (s.respawnSolo o c e).1 := by
  have hsolo : ∀ key, Keeps left left s (s.onChannel c ({ · with soloKey := key })) :=
    fun _ => keeps_onChannel rfl
  rw [respawnSolo]
  split
  · split
    · exact hsolo none
    · rename_i i _
      dsimp only
      split
      · refine (hsolo (some i)).trans (Keeps.close ?_ keeps_freeUnused)
        split
        · exact keeps_append.trans closed_keeps.launchNewNote
        · exact ((keeps_append.trans closed_keeps.launchNewNote).trans
            (keeps_onChannel KeyboardChannel.modifyEvent_shapeOf)).trans
              (closed_keeps.triggerNewVoices theftClosed_keeps)
      · exact hsolo (some i)
  · exact .refl

theorem keeps_releaseKey {n : ℕ} : Keeps left left s (s.releaseKey o c n e) := by
  have hrelease : Keeps left left s (s.onChannel c (·.modifyKey e.key
      (·.modifyEvent n ({ · with type := .release_key })))) :=
    keeps_onChannel KeyboardChannel.modifyEvent_shapeOf
  rw [releaseKey]
  split
  · exact hrelease.trans closed_keeps.processReleaseTrigger
  · exact hrelease

theorem keeps_processKeyRelease : Keeps left left s (s.processKeyRelease o c e) := by
  have hreceive : Keeps left (oneMore left c e.key) s (s.onChannel c (·.receiveNoteOff e)) :=
    keeps_append.of_shape KeyboardChannel.receiveNoteOff_shapeOf
  rw [processKeyRelease]
  refine Keeps.close ?_ keeps_freeUnused
  split
  · exact (hreceive.trans keeps_respawnSolo).trans keeps_releaseKey
  · exact hreceive.trans keeps_respawnSolo

theorem keeps_processStopNote : Keeps left left s (s.processStopNote c e) := by
  rw [processStopNote]
  split
  · refine Keeps.close ?_ keeps_freeUnused
    exact keeps_append.trans (keeps_onChannel KeyboardChannel.modifyEvent_shapeOf)
  · exact Keeps.close keeps_append keeps_freeEvent

theorem keeps_processNoteOff : Keeps left left s (s.processNoteOff o c e) := by
  rw [processNoteOff]
  split
  · exact .refl
  · split
    · exact keeps_processKeyRelease
    · exact keeps_processStopNote

end Keyboards

end LinuxSampler
