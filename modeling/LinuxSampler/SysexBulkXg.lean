import LinuxSampler.SysexBulkGs
import LinuxSampler.SysexMessage

/-!
# Bulk messages of Yamaha XG

What is read of a part is looked up by the index of the parameter, so that
a parameter is right only by accident. What remains are the resets, and
messages that reach no parameter of a part that has channels.
-/

namespace LinuxSampler

open SysexMap AddressRun

variable {π : Type} [DecidableEq π]

namespace XGSysexMap

/-! ## The effect of a byte -/

/-- The first and the last address of the parts. -/
def partsFrom : ℕ := SYSEX_ADDR 0x08 0x00 0x00

def partsTo : ℕ := SYSEX_ADDR 0x08 0x7f 0x7f

instance (index : ℕ) (b : UInt8) : Decidable (resets index b) :=
  inferInstanceAs (Decidable ((index = 0x7e ∨ index = 0x7f) ∧ b = 0))

/-- A byte at its own address, outside the parameters of the parts. -/
def applyByte (a : ℕ) (b : UInt8) (e : Engine π) : Except Abort (Engine π) :=
  if resets a b then e.resetMidiMode .XG else .ok e

variable {e₀ : Engine π} {port : π} {a : ℕ} {b : UInt8} {data : List UInt8}

theorem applyByte_keeps (port : π) (he₀ : e₀.renderMode = .XG) :
    Keeps applyByte (SameParts e₀ port) := by
  intro x b e e' he hrun
  unfold applyByte at hrun
  split at hrun
  · rcases e.resetMidiMode_cases .XG port with ⟨-, herr⟩ | ⟨-, e₁, hok, hparts⟩
    · rw [herr] at hrun
      cases hrun
    · rw [hok] at hrun
      cases hrun
      exact ⟨hparts.trans he.1, (Engine.resetMidiMode_renderMode hok).trans he₀.symm⟩
  · cases hrun
    exact he

theorem quiet_of_ne {I : Engine π → Prop} {x : ℕ} (h : x ≠ 0x7e) (h' : x ≠ 0x7f) :
    AddressRun.Quiet applyByte I x := by
  intro b e _
  rw [applyByte, if_neg fun hresets => hresets.1.elim h h']

/-! ## What a message must be like -/

/-- The first part that is reached has its channels at this index. -/
structure Lawful (e : Engine π) (port : π) (a n : ℕ) : Prop where
  /-- The channels of the seventeenth part are those of all MIDI channels. -/
  part16 : ∀ x, a ≤ x → x < a + n → partsFrom ≤ x → x ≤ partsTo → x / 128 % 128 ≠ midi_chan_all
  /-- No parameter of a part with channels. -/
  used : ∀ x, a ≤ x → x < a + n → partsFrom ≤ x → x ≤ partsTo → x % 128 ∈ read →
    e.assigned port (x / 128 % 128) = []
  /-- The scale tuning is not among what is read of the first part. -/
  scale : a ≤ partsTo → max a partsFrom < a + n →
    e.assigned port (max a partsFrom / 128 % 128) ≠ [] →
    ¬ Misread (max a partsFrom % 128) (a + n - max a partsFrom)
  /-- Nor a parameter behind the last part, where the parts are counted from
  the first one again, unless the message is given up before. -/
  wrap : a ≤ partsTo →
    (e.assigned port (max a partsFrom / 128 % 128) ≠ [] →
      ¬ Stops (max a partsFrom % 128) (a + n - max a partsFrom)) →
    ∀ x, x < a + n → partsTo < x → x % 128 ∈ read → e.assigned port (x / 128 % 128) = []

theorem Lawful.congr {e e' : Engine π} {n : ℕ} (h : Lawful e port a n)
    (heq : ∀ p, e'.assigned port p = e.assigned port p) : Lawful e' port a n := by
  refine ⟨h.part16, ?_, ?_, ?_⟩
  · simp only [heq]
    exact h.used
  · simp only [heq]
    exact h.scale
  · simp only [heq]
    exact h.wrap

/-- From an address on that is not behind where the parts are entered. -/
theorem Lawful.drop {e : Engine π} {x n : ℕ} (h : Lawful e port a n) (hx : a ≤ x)
    (hlt : x < a + n) (hle : x ≤ max a partsFrom) : Lawful e port x (a + n - x) := by
  have hmax : max x partsFrom = max a partsFrom := by omega
  have hend : x + (a + n - x) = a + n := by omega
  constructor
  · rw [hend]
    exact fun y hy => h.part16 y (by omega)
  · rw [hend]
    exact fun y hy => h.used y (by omega)
  · rw [hmax, hend]
    exact fun hto => h.scale (by omega)
  · rw [hmax, hend]
    exact fun hto => h.wrap (by omega)

/-! ## The handlers -/

theorem system_handles (block : AddressBlock π) (hblock : block.handler = handle_XgSystem)
    (hmin : block.min = SYSEX_ADDR 0x00 0x00 0x00) (hmax : block.max = SYSEX_ADDR 0x00 0x00 0x06) :
    Handles applyByte (SameParts e₀ port) port a data block := by
  have hfrom : SYSEX_ADDR 0x00 0x00 0x00 = 0 := rfl
  have hto : SYSEX_ADDR 0x00 0x00 0x06 = 6 := rfl
  refine Handles.of_quiet (fun j me s hj hle h => ?_) fun x hx hx' =>
    quiet_of_ne (by omega) (by omega)
  rw [hblock]
  rcases system_cases me h (by omega) with ⟨hok, hzero, hshort⟩ | ⟨k, s', hk, hak, h', hok⟩
  · rw [List.length_drop] at hshort
    exact .inl ⟨hok, by omega⟩
  · exact .inr ⟨k, s', hk, by omega, h', hok⟩

variable {me : SysexMap π} {s : SysexReader}

theorem resetLoop_run (hport : me.sourcePort = port) (hme : me.CacheOk) (h : s.Has a data)
    (ha : 0x7d ≤ a ∧ a ≤ 0x80) :
    (∃ err, handle_XgReset me s = .error err ∧ run applyByte a data me.engine = .error err) ∨
    ∃ me' s' k, handle_XgReset me s = .ok (true, me', s') ∧ k ≤ data.length ∧ a + k ≤ 0x80 ∧
      s'.Has (a + k) (data.drop k) ∧ me'.sourcePort = port ∧ me'.CacheOk ∧
      run applyByte a (data.take k) me.engine = .ok me'.engine ∧
      (a + k = 0x80 ∨ k = data.length) := by
  rw [handle_XgReset]
  induction data generalizing me s a with
  | nil => exact .inr ⟨me, s, 0, loop_nil h, le_rfl, ha.2, h, hport, hme, rfl, .inr rfl⟩
  | cons b data ih =>
      by_cases hend : a = 0x80
      · subst hend
        exact .inr ⟨me, s, 0, loop_stop h rfl, Nat.zero_le _, le_rfl, h, hport, hme, rfl, .inl rfl⟩
      · have hmod : a % 128 = a := Nat.mod_eq_of_lt (by omega)
        obtain ⟨s', h', hreset, hother⟩ := resetBody_eq me h
        rw [hmod] at hreset hother
        rw [loop_cons resetBody_consumes h (decide_eq_true (show a % 128 ≠ 0 by omega)), hmod]
        -- The bytes after this one.
        have hrest : ∀ me₁ : SysexMap π, me₁.sourcePort = port → me₁.CacheOk →
            applyByte a b me.engine = .ok me₁.engine →
            (∃ err, loop (· ≠ 0) resetBody me₁ s' = .error err ∧
              run applyByte a (b :: data) me.engine = .error err) ∨
            ∃ me' s'' k, loop (· ≠ 0) resetBody me₁ s' = .ok (true, me', s'') ∧
              k ≤ (b :: data).length ∧ a + k ≤ 0x80 ∧ s''.Has (a + k) ((b :: data).drop k) ∧
              me'.sourcePort = port ∧ me'.CacheOk ∧
              run applyByte a ((b :: data).take k) me.engine = .ok me'.engine ∧
              (a + k = 0x80 ∨ k = (b :: data).length) := by
          intro me₁ hport₁ hme₁ hbyte
          rcases ih hport₁ hme₁ h' (by omega) with
            ⟨err, herr, hrun⟩ | ⟨me', s'', k, hok, hk, hak, h'', hport', hme', hrun, hdone⟩
          · left
            refine ⟨err, herr, ?_⟩
            rw [run, hbyte]
            exact hrun
          · right
            refine ⟨me', s'', k + 1, hok, ?_, by omega, ?_, hport', hme', ?_, ?_⟩
            · rw [List.length_cons]
              omega
            · rwa [List.drop_succ_cons, show a + (k + 1) = a + 1 + k by omega]
            · rw [List.take_succ_cons, run, hbyte]
              exact hrun
            · rw [List.length_cons]
              omega
        by_cases hresets : resets a b
        · rw [hreset hresets]
          have hbyte : applyByte a b me.engine = me.engine.resetMidiMode .XG := by
            rw [applyByte, if_pos hresets]
          rw [SysexMap.resetMidiMode]
          rcases me.engine.resetMidiMode_cases .XG me.sourcePort with
            ⟨-, herr⟩ | ⟨-, e', hok, hparts⟩
          · left
            refine ⟨.midiInputException, by rw [herr]; rfl, ?_⟩
            rw [run, hbyte, herr]
            rfl
          · have hkeeps : me.Keeps { me with engine := e' } := ⟨rfl, rfl, rfl, hparts⟩
            rw [hok] at hbyte
            rw [hok]
            exact hrest { me with engine := e' } hport (hkeeps.cacheOk hme) hbyte
        · rw [hother hresets]
          refine hrest me hport hme ?_
          rw [applyByte, if_neg hresets]

theorem reset_handles (block : AddressBlock π) (hblock : block.handler = handle_XgReset)
    (hmin : block.min = SYSEX_ADDR 0x00 0x00 0x7d) (hmax : block.max = SYSEX_ADDR 0x00 0x00 0x7f) :
    Handles applyByte (SameParts e₀ port) port a data block := by
  intro j me s hj hle hlt hme h
  have hfrom : SYSEX_ADDR 0x00 0x00 0x7d = 125 := rfl
  have hto : SYSEX_ADDR 0x00 0x00 0x7f = 127 := rfl
  rw [hblock]
  rcases resetLoop_run hme.sourcePort_eq hme.cacheOk h (by omega) with
    herr | ⟨me', s', k, hok, hk, hak, h', hport', hcache', hrun, hdone⟩
  · exact .inl herr
  · right
    rw [List.length_drop] at hk hdone
    rw [List.drop_drop, Nat.add_assoc] at h'
    refine ⟨true, me', s', j + k, hok, by omega, by omega, by omega, h', hport', hcache', ?_,
      fun x hx hlt' hx' => ?_⟩
    · rwa [show j + k - j = k by omega]
    · rcases hx' with hx' | hx'
      · cases hx'
      · omega

/-! ## The parts -/

/-- What is read of a part with channels has no parameter. -/
theorem untouched_of (hcache : me.engine.assigned me.sourcePort (a / 128 % 128) ≠ [])
    (hused : ∀ x, a ≤ x → x < a + data.length → x / 128 = a / 128 → x % 128 ∈ read →
      me.engine.assigned me.sourcePort (x / 128 % 128) = []) :
    Untouched (a % 128) data.length := by
  intro x hx hlt hread
  simp only [blockCount] at hlt
  have hpart : (a - a % 128 + x) / 128 = a / 128 := by omega
  have hindex : (a - a % 128 + x) % 128 = x := by omega
  refine hcache ?_
  rw [← hpart]
  exact hused _ (by omega) (by omega) hpart (by rwa [hindex])

/-- Blocks that begin with the first parameter of their part. -/
theorem loop_aligned_quiet {q : ℕ} (hme : me.Filled q) (h : s.Has a data)
    (ha : data ≠ [] → a % 128 = 0)
    (hused : ∀ x, a ≤ x → x < a + data.length → x % 128 ∈ read →
      me.engine.assigned me.sourcePort (x / 128 % 128) = []) :
    ∃ me' s', loop (fun _ => true) multipartBody me s = .ok (true, me', s') ∧
      me'.engine = me.engine := by
  obtain ⟨n, hn⟩ : ∃ n, data.length = n := ⟨_, rfl⟩
  induction n using Nat.strong_induction_on generalizing me s a data q with
  | _ n ih =>
    cases data with
    | nil => exact ⟨me, s, loop_nil h, rfl⟩
    | cons b data =>
        have hindex := ha (List.cons_ne_nil b data)
        obtain ⟨me₁, hfilter, hfilled, hengine, hport⟩ :=
          filterChannels_eq (p := a / 128 % 128) (.inr ⟨q, hme⟩)
            (.inr (by rw [hme.cache_eq]; exact Option.some_ne_none _))
        have huntouched : me.engine.assigned me.sourcePort (a / 128 % 128) ≠ [] →
            Untouched (a % 128) (b :: data).length := fun hcache =>
          untouched_of hcache fun x hx hlt _ => hused x hx hlt
        -- The second parameter is read, so it is not there.
        have hshort : me.engine.assigned me.sourcePort (a / 128 % 128) ≠ [] →
            (b :: data).length < 0x42 := by
          intro hcache
          by_contra hlong
          refine huntouched hcache 1 (by omega) ?_ (by decide)
          simp only [blockCount]
          omega
        rw [loop_cons multipartBody_consumes h rfl]
        rcases multipartBody_cases h hfilter with
          ⟨hcache, hbad, -⟩ | ⟨hcache, -, hstops, -⟩ |
          ⟨-, me', s', a', hok, hkeeps, h', ha', hsame⟩
        · rw [hindex, misread_zero_iff] at hbad
          have := hshort hcache
          omega
        · rw [hindex, stops_zero_iff] at hstops
          have := hshort hcache
          omega
        · have heq : me' = me₁ := by
            by_cases hcache : me.engine.assigned me.sourcePort (a / 128 % 128) = []
            · exact hsame (.inl hcache)
            · exact hsame (.inr (huntouched hcache))
          subst heq
          rw [hindex] at h' ha'
          rw [hok]
          have hlen : ((b :: data).drop (128 - 0)).length < n := by
            rw [List.length_drop, hn]
            rw [List.length_cons] at hn
            omega
          obtain ⟨me'', s'', hrun, hengine'⟩ := ih _ hlen hfilled h'
            (fun hne => by rw [ha' hne]; omega)
            (by
              intro x hx hlt hread
              have hne : (b :: data).drop (128 - 0) ≠ [] := by
                rintro hnil
                rw [hnil, List.length_nil] at hlt
                omega
              have haddr := ha' hne
              rw [List.length_drop] at hlt
              rw [hengine, hport]
              exact hused x (by omega) (by omega) hread) rfl
          exact ⟨me'', s'', hrun, hengine'.trans hengine⟩

theorem handle_Multipart_quiet (hme : me.CacheOk) (h : s.Has a data) (hdata : data ≠ [])
    (ha : partsFrom ≤ a ∧ a ≤ partsTo)
    (hlaw : Lawful me.engine me.sourcePort a data.length) :
    ∃ go me' s', handle_Multipart me s = .ok (go, me', s') ∧ me'.engine = me.engine := by
  have hto : partsTo = 147455 := rfl
  have hfrom : partsFrom = 131072 := rfl
  have hmax : max a partsFrom = a := by omega
  have hscale := hlaw.scale ha.2
  have hwrap := hlaw.wrap ha.2
  rw [hmax, Nat.add_sub_cancel_left] at hscale hwrap
  obtain ⟨b, tail, rfl⟩ := List.exists_cons_of_ne_nil hdata
  have hlen : 0 < (b :: tail).length := Nat.succ_pos _
  obtain ⟨me₁, hfilter, hfilled, hengine, hport⟩ :=
    filterChannels_eq hme (.inl (hlaw.part16 a le_rfl (by omega) ha.1 ha.2))
  have huntouched : me.engine.assigned me.sourcePort (a / 128 % 128) ≠ [] →
      Untouched (a % 128) (b :: tail).length := fun hcache =>
    untouched_of hcache fun x hx hlt hpart => hlaw.used x hx hlt (by omega) (by omega)
  rw [handle_Multipart, loop_cons multipartBody_consumes h rfl]
  rcases multipartBody_cases h hfilter with
    ⟨hcache, hbad, -⟩ | ⟨hcache, -, -, me', s', hok, hsame⟩ |
    ⟨hgood, me', s', a', hok, hkeeps, h', ha', hsame⟩
  · exact absurd hbad (hscale (by omega) hcache)
  · rw [hok]
    exact ⟨false, me', s', rfl, by rw [hsame (huntouched hcache), hengine]⟩
  · have heq : me' = me₁ := by
      by_cases hcache : me.engine.assigned me.sourcePort (a / 128 % 128) = []
      · exact hsame (.inl hcache)
      · exact hsame (.inr (huntouched hcache))
    subst heq
    rw [hok]
    obtain ⟨me'', s'', hrun, hengine'⟩ := loop_aligned_quiet hfilled h'
      (fun hne => by rw [ha' hne]; omega)
      (by
        intro x hx hlt hread
        have hne : (b :: tail).drop (128 - a % 128) ≠ [] := by
          rintro hnil
          rw [hnil, List.length_nil] at hlt
          omega
        have haddr := ha' hne
        rw [List.length_drop] at hlt
        rw [hengine, hport]
        rcases Nat.lt_or_ge partsTo x with hbehind | hwithin
        · exact hwrap (fun hcache => (hgood hcache).2) x (by omega) hbehind hread
        · exact hlaw.used x (by omega) (by omega) (by omega) hwithin hread)
    exact ⟨true, me'', s'', hrun, hengine'.trans hengine⟩

/-! ## The whole table -/

theorem fromParts_quiet (hme : me.CacheOk) (h : s.Has a data)
    (hlaw : Lawful me.engine me.sourcePort a data.length) :
    ∃ me', dispatch fromParts me s = .ok me' ∧ me'.engine = me.engine := by
  have hmap : fromParts (π := π) =
      ⟨partsFrom, partsTo, handle_Multipart⟩ :: addressMap.drop 6 := rfl
  rw [hmap]
  rcases Nat.lt_or_ge partsTo a with hpast | hmax
  · rw [dispatch_past h hpast, afterParts_eq]
    exact ⟨me, rfl, rfl⟩
  · rcases Nat.lt_or_ge (partsFrom - a) data.length with hin | hout
    · obtain ⟨s', h', hrun⟩ := dispatch_enter ⟨partsFrom, partsTo, handle_Multipart⟩
        (addressMap.drop 6) me h hmax hin
      dsimp only at h' hrun
      have hto : partsTo = 147455 := rfl
      have hfrom : partsFrom = 131072 := rfl
      have hlen : (data.drop (partsFrom - a)).length = a + data.length - max a partsFrom := by
        rw [List.length_drop]
        omega
      have hlaw' := hlaw.drop (le_max_left a partsFrom) (by omega) le_rfl
      rw [← hlen] at hlaw'
      obtain ⟨go, me', s'', hok, hengine⟩ := handle_Multipart_quiet hme h'
        (by
          rw [← List.length_pos_iff, hlen]
          omega)
        (by omega) hlaw'
      refine ⟨me', ?_, hengine⟩
      rw [hrun, hok]
      cases go with
      | false => rfl
      | true => exact afterParts_eq me' s''
    · rw [dispatch_end _ _ me h hmax hout]
      exact ⟨me, rfl, rfl⟩

theorem afterReset_runs (hlaw : Lawful e₀ port a data.length) :
    RunsFrom applyByte (SameParts e₀ port) port a data afterReset 0x80 := by
  intro k me s hk hme h hle hbelow
  have hrun : run applyByte (a + k) (data.drop k) me.engine = .ok me.engine := by
    refine run_quiet hme.inv fun x hx hlt => ?_
    rw [List.length_drop] at hlt
    rcases Nat.lt_or_ge x 0x80 with hx' | hx'
    · exact hbelow x hx (by omega) hx'
    · exact quiet_of_ne (by omega) (by omega)
  rw [hrun]
  rcases afterReset_onward me h with ⟨hok, -⟩ | ⟨k', s', hk', hak', h', hok⟩
  · rw [hok]
    rfl
  · rw [List.length_drop] at hk'
    rw [hok]
    by_cases hend : k + k' = data.length
    · rw [List.drop_drop, hend, List.drop_length] at h'
      rw [dispatch_nil _ _ h']
      rfl
    · have hfrom : SYSEX_ADDR 0x08 0x00 0x00 = partsFrom := rfl
      have hvalue : partsFrom = 131072 := rfl
      have hlaw' := (hlaw.congr hme.inv.assigned_eq).drop (x := a + k + k') (by omega) (by omega)
        (by omega)
      have hlen : ((data.drop k).drop k').length = a + data.length - (a + k + k') := by
        rw [List.length_drop, List.length_drop]
        omega
      rw [← hlen, ← hme.sourcePort_eq] at hlaw'
      obtain ⟨me', hrun', hengine⟩ := fromParts_quiet hme.cacheOk h' hlaw'
      rw [hrun', ← hengine]
      rfl

theorem addressMap_runs (he₀ : e₀.renderMode = .XG) (hlaw : Lawful e₀ port a data.length) :
    RunsFrom applyByte (SameParts e₀ port) port a data addressMap 0 := by
  have hf := applyByte_keeps port he₀
  have hto : SYSEX_ADDR 0x00 0x00 0x06 = 6 := rfl
  have hreset : SYSEX_ADDR 0x00 0x00 0x7d = 125 := rfl
  have hresetTo : SYSEX_ADDR 0x00 0x00 0x7f = 127 := rfl
  refine .cons hf (system_handles _ rfl rfl rfl) ?_ (Nat.zero_le _) (Nat.zero_le _)
    fun x _ hx' => absurd hx' (Nat.not_lt_zero x)
  refine .cons hf (reset_handles _ rfl rfl rfl) (afterReset_runs hlaw) (by dsimp only; omega)
    (by dsimp only; omega) fun x _ hx' => ?_
  exact quiet_of_ne (by dsimp only at hx'; omega) (by dsimp only at hx'; omega)

end XGSysexMap

end LinuxSampler
