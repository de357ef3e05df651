import LinuxSampler.SysexTurns

/-!
# Which SysEx messages are dispatched safely

All messages but those for the parts of Yamaha XG are: the lengths that
are derived for the families of messages leave no reader without a byte,
and no byte of another message is read. The handler of the parts reads a
block into a buffer from its beginning and looks it up by the index of the
parameter, so that a block that starts in the middle is looked up beyond
what was read. The scale tuning takes its address from the buffer, and the
cache is used before it was filled if the first part is the seventeenth.
-/

namespace LinuxSampler

open SysexMap

/-! ## Safe results -/

section Safe

variable {α β : Type} {P : α → Prop} {Q : β → Prop} {x : Except Abort α} {f : α → Except Abort β}

/-- Nothing worse than an exception. -/
def Safe (x : Except Abort α) : Prop := ∀ f, x = .error f → f = .midiInputException

def SafeWith (P : α → Prop) (x : Except Abort α) : Prop := Safe x ∧ ∀ r, x = .ok r → P r

theorem SafeWith.ok {r : α} (h : P r) : SafeWith P (.ok r) := by
  refine ⟨fun f hf => ?_, fun r' hr => ?_⟩
  · cases hf
  · cases hr
    exact h

theorem SafeWith.exception : SafeWith P (.error .midiInputException) := by
  refine ⟨fun f hf => ?_, fun r hr => ?_⟩
  · cases hf
    rfl
  · cases hr

theorem SafeWith.bind (hx : SafeWith P x) (hf : ∀ r, P r → SafeWith Q (f r)) :
    SafeWith Q (x >>= f) := by
  cases x with
  | error e =>
      rw [hx.1 e rfl]
      exact SafeWith.exception
  | ok r => exact hf r (hx.2 r rfl)

theorem Safe.of_ok {r : α} (h : x = .ok r) : Safe x := by
  rintro f rfl
  cases h

theorem not_safe_of_error {e : Abort} (h : x = .error e) (he : e ≠ .midiInputException) :
    ¬ Safe x := fun hs => he (hs e h)

theorem Safe.exception : Safe (.error .midiInputException : Except Abort α) := by
  intro f hf
  cases hf
  rfl

theorem Safe.of_bind (h : Safe (x >>= f)) : Safe x := by
  rintro e rfl
  exact h e rfl

/-- What is done with a result cannot make it safe, or unsafe if it is safe
itself. -/
theorem safe_bind_iff (hf : ∀ r, Safe (f r)) : Safe (x >>= f) ↔ Safe x := by
  cases x with
  | error e => exact ⟨fun h g hg => by cases hg; exact h e rfl, fun h g hg => by
      cases hg
      exact h e rfl⟩
  | ok r => exact ⟨fun _ => Safe.of_ok rfl, fun _ => hf r⟩

theorem safe_map_iff {g : α → β} : Safe (x.map g) ↔ Safe x := by
  cases x with
  | error e => exact ⟨fun h f hf => h f (by cases hf; rfl), fun h f hf => h f (by cases hf; rfl)⟩
  | ok r => exact ⟨fun _ => Safe.of_ok rfl, fun _ => Safe.of_ok rfl⟩

end Safe

variable {π : Type}

/-! ## Loops and tables of safe handlers -/

section Rules

variable {me : SysexMap π} {s : SysexReader} {a : ℕ} {data : List UInt8}

/-- The invariant is kept, and the reader stays in its message. -/
def Stays (I : SysexMap π → Prop) (r : Bool × SysexMap π × SysexReader) : Prop :=
  I r.2.1 ∧ ∃ a data, r.2.2.Has a data

theorem loop_safe {guard : ℕ → Bool} {body : ℕ → SysexHandler π} {I : SysexMap π → Prop}
    (hbody : Consumes body)
    (hstep : ∀ me s a b data, I me → s.Has a (b :: data) →
      SafeWith (Stays I) (body (a % 128) me s))
    (hme : I me) (h : s.Has a data) : SafeWith (Stays I) (loop guard body me s) := by
  obtain ⟨n, hn⟩ : ∃ n, data.length = n := ⟨_, rfl⟩
  induction n using Nat.strong_induction_on generalizing me s a data with
  | _ n ih =>
    cases data with
    | nil =>
        rw [loop_nil h]
        exact SafeWith.ok ⟨hme, a, [], h⟩
    | cons b data =>
        by_cases hguard : guard (a % 128) = true
        · rw [loop_cons hbody h hguard]
          have hturn := hstep me s a b data hme h
          cases hrun : body (a % 128) me s with
          | error e =>
              rw [hturn.1 e hrun]
              exact SafeWith.exception
          | ok r =>
              obtain ⟨go, me', s'⟩ := r
              obtain ⟨hme', a', data', h'⟩ := hturn.2 _ hrun
              cases go with
              | false => exact SafeWith.ok ⟨hme', a', data', h'⟩
              | true =>
                  obtain ⟨a₁, data₁, h₁, hlen⟩ := hbody h hrun rfl
                  rw [List.length_cons] at hn
                  exact ih data₁.length (by omega) hme' h₁ rfl
        · rw [loop_stop h (by simpa using hguard)]
          exact SafeWith.ok ⟨hme, a, _, h⟩

theorem dispatch_safe {I : SysexMap π → Prop} {map : List (AddressBlock π)}
    (hmap : ∀ block ∈ map, ∀ me s a b data, I me → s.Has a (b :: data) →
      SafeWith (Stays I) (block.handler me s))
    (hme : I me) (h : s.Has a data) : SafeWith (fun _ => True) (dispatch map me s) := by
  induction map generalizing me s a data with
  | nil => exact SafeWith.ok trivial
  | cons block map ih =>
      have hrest : ∀ me s a data, I me → s.Has a data →
          SafeWith (fun _ => True) (dispatch map me s) := fun me s a data =>
        ih fun block hb => hmap block (List.mem_cons_of_mem _ hb)
      by_cases hmax : block.max < a
      · rw [dispatch_past h hmax]
        exact hrest me s a data hme h
      · by_cases hin : block.min - a < data.length
        · obtain ⟨s', h', hrun⟩ := dispatch_enter block map me h (not_lt.mp hmax) hin
          obtain ⟨b, tail, hdrop⟩ : ∃ b tail, data.drop (block.min - a) = b :: tail := by
            cases hdrop : data.drop (block.min - a) with
            | nil =>
                rw [List.drop_eq_nil_iff] at hdrop
                omega
            | cons b tail => exact ⟨b, tail, rfl⟩
          rw [hdrop] at h'
          rw [hrun]
          refine (hmap block List.mem_cons_self me s' _ b tail hme h').bind ?_
          rintro ⟨go, me', s''⟩ ⟨hme', a', data', h''⟩
          cases go with
          | false => exact SafeWith.ok trivial
          | true => exact hrest me' s'' a' data' hme' h''
        · rw [dispatch_end block map me h (not_lt.mp hmax) (not_lt.mp hin)]
          exact SafeWith.ok trivial

end Rules

variable [DecidableEq π] {me : SysexMap π} {s : SysexReader} {a : ℕ} {b : UInt8}
  {data : List UInt8}

theorem SysexMap.resetMidiMode_cases (mode : MidiMode) (me : SysexMap π) :
    (me.engine.hasInvalidPart ∧ me.resetMidiMode mode = .error .midiInputException) ∨
      (¬ me.engine.hasInvalidPart ∧ ∃ me', me.resetMidiMode mode = .ok me' ∧ me.Keeps me') := by
  obtain ⟨hbad, herr⟩ | ⟨hgood, e', hok, hparts⟩ := me.engine.resetMidiMode_cases mode me.sourcePort
  · exact .inl ⟨hbad, by rw [SysexMap.resetMidiMode, herr]; rfl⟩
  · exact .inr ⟨hgood, { me with engine := e' }, by rw [SysexMap.resetMidiMode, hok]; rfl,
      rfl, rfl, rfl, hparts⟩

theorem SysexMap.resetMidiMode_safe (mode : MidiMode) (me : SysexMap π) :
    SafeWith me.Keeps (me.resetMidiMode mode) := by
  obtain ⟨_, herr⟩ | ⟨_, me', hok, hkeeps⟩ := me.resetMidiMode_cases mode
  · rw [herr]
    exact SafeWith.exception
  · rw [hok]
    exact SafeWith.ok hkeeps

/-! ## Roland GS -/

namespace GSSysexMap

theorem handle_GsReset_safe (hme : me.CacheOk) (h : s.Has a (b :: data)) :
    SafeWith (Stays CacheOk) (handle_GsReset me s) := by
  obtain ⟨s', hpop, h'⟩ := h.pop
  simp only [handle_GsReset, hpop, bind, Except.bind]
  split
  · exact (me.resetMidiMode_safe .GS).bind fun me' hkeeps =>
      SafeWith.ok ⟨hkeeps.cacheOk hme, _, _, h'⟩
  · exact SafeWith.ok ⟨hme, _, _, h'⟩

theorem commonBody_safe (hme : me.CacheOk) (h : s.Has a (b :: data)) :
    SafeWith (Stays CacheOk) (commonBody (a % 128) me s) := by
  by_cases hindex : a % 128 = 0
  · by_cases hlen : 4 ≤ (b :: data).length
    · obtain ⟨s', h', hok⟩ := commonBody_tune me h hindex hlen
      rw [hok]
      exact SafeWith.ok ⟨hme, _, _, h'⟩
    · rw [commonBody_short h hindex (not_le.mp hlen)]
      exact SafeWith.ok ⟨hme, _, _, h⟩
  · obtain ⟨s', h', hok⟩ := commonBody_byte me h hindex
    rw [hok]
    exact SafeWith.ok ⟨hme, _, _, h'⟩

theorem handle_GsCommon_safe (hme : me.CacheOk) (h : s.Has a data) :
    SafeWith (Stays CacheOk) (handle_GsCommon me s) := by
  rw [handle_GsCommon]
  exact loop_safe commonBody_consumes (fun me s a b data hme h => commonBody_safe hme h) hme h

theorem patchCommonBody_safe {cache : List ℕ} (hme : me.CacheOk) (h : s.Has a (b :: data)) :
    SafeWith (Stays CacheOk) (patchCommonBody cache (a % 128) me s) := by
  by_cases hindex : a % 128 = 0x40
  · by_cases hlen : 12 ≤ data.length
    · obtain ⟨s', h', hok⟩ := patchCommonBody_scale cache me h hindex hlen
      rw [hok]
      exact SafeWith.ok ⟨(tuned_keeps _ me).cacheOk hme, _, _, h'⟩
    · obtain ⟨s', h', hok⟩ := patchCommonBody_short cache me h hindex
        (not_le.mp hlen)
      rw [hok]
      exact SafeWith.ok ⟨hme, _, _, h'⟩
  · obtain ⟨s', h', hok⟩ := patchCommonBody_byte cache me h hindex
    rw [hok]
    exact SafeWith.ok ⟨(patchParam_keeps cache _ b me).cacheOk hme, _, _, h'⟩

theorem efx88Body_safe {cache : List ℕ} (hme : me.CacheOk) (h : s.Has a (b :: data)) :
    SafeWith (Stays CacheOk) (efx88Body cache (a % 128) me s) := by
  obtain ⟨s', h', hok⟩ := efx88Body_eq cache me h
  rw [hok]
  exact SafeWith.ok ⟨(efx88Param_keeps cache _ b me).cacheOk hme, _, _, h'⟩

/-- The part of a GS address has four bits, so the cache is filled. -/
theorem filterChannels_gs (hme : me.CacheOk) (p : ℕ) :
    ∃ cache me', me.filterChannels (p % 16) = .ok (cache, me') ∧ me'.CacheOk := by
  have hp : p % 16 ≠ midi_chan_all := by
    have hlt := Nat.mod_lt p (show 0 < 16 by decide)
    simp only [midi_chan_all]
    omega
  obtain ⟨me', hok, hfilled, _⟩ := filterChannels_eq hme (.inl hp)
  exact ⟨_, me', hok, .inr ⟨_, hfilled⟩⟩

theorem handle_GsPatchCommon_safe (hme : me.CacheOk) (h : s.Has a (b :: data)) :
    SafeWith (Stays CacheOk) (handle_GsPatchCommon me s) := by
  obtain ⟨cache, me', hfilter, hme'⟩ := filterChannels_gs hme (s.address / 128)
  simp only [handle_GsPatchCommon, hfilter, bind, Except.bind]
  split
  · exact loop_safe patchCommonBody_consumes
      (fun me s a b data hme h => patchCommonBody_safe hme h) hme' h
  · exact SafeWith.ok ⟨hme', _, _, h⟩

theorem handle_GsEfx88_safe (hme : me.CacheOk) (h : s.Has a (b :: data)) :
    SafeWith (Stays CacheOk) (handle_GsEfx88 me s) := by
  obtain ⟨cache, me', hfilter, hme'⟩ := filterChannels_gs hme (s.address / 128)
  simp only [handle_GsEfx88, hfilter, bind, Except.bind]
  split
  · exact loop_safe efx88Body_consumes (fun me s a b data hme h => efx88Body_safe hme h) hme' h
  · exact SafeWith.ok ⟨hme', _, _, h⟩

theorem dispatch_addressMap_safe (hme : me.CacheOk) (h : s.Has a data) :
    SafeWith (fun _ => True) (dispatch addressMap me s) := by
  refine dispatch_safe (I := CacheOk) ?_ hme h
  intro block hblock me s a b data hme h
  simp only [addressMap, List.mem_cons, List.not_mem_nil, or_false] at hblock
  rcases hblock with rfl | rfl | rfl | rfl | rfl
  · exact handle_GsReset_safe hme h
  · exact handle_GsCommon_safe hme h
  · exact handle_GsReset_safe hme h
  · exact handle_GsPatchCommon_safe hme h
  · exact handle_GsEfx88_safe hme h

end GSSysexMap

end LinuxSampler
