import LinuxSampler.SysexFamilies
import LinuxSampler.SysexMultipart

/-!
# Safe SysEx messages

The blocks before the parts of Yamaha XG leave the reader on its way
through the message, unless a reset fails on the way. So a message is
dispatched safely if what of it reaches the parts is.
-/

namespace LinuxSampler

open SysexMap

variable {π : Type} {me : SysexMap π} {s : SysexReader} {a : ℕ} {b : UInt8} {data : List UInt8}

/-! ## On the way through the table -/

section Onward

variable {map map' : List (AddressBlock π)} {limit : ℕ} {x : Except Abort (SysexMap π)}

/-- The message ends before an address, or it goes on with the rest of the
table, not beyond the address if it started before it. -/
def Onward (limit a : ℕ) (data : List UInt8) (map : List (AddressBlock π)) (me : SysexMap π)
    (x : Except Abort (SysexMap π)) : Prop :=
  (x = .ok me ∧ a + data.length ≤ limit) ∨
    ∃ k s', k ≤ data.length ∧ a + k ≤ max a limit ∧ s'.Has (a + k) (data.drop k) ∧
      x = dispatch map me s'

theorem Onward.of_has (h : s.Has a data) : Onward limit a data map me (dispatch map me s) :=
  .inr ⟨0, s, Nat.zero_le _, by omega, by simpa using h, rfl⟩

theorem Onward.trans {limit' : ℕ} (hx : Onward limit a data map me x) (hlimit : limit ≤ limit')
    (hmap : ∀ s k, k ≤ data.length → a + k ≤ max a limit → s.Has (a + k) (data.drop k) →
      Onward limit' (a + k) (data.drop k) map' me (dispatch map me s)) :
    Onward limit' a data map' me x := by
  obtain ⟨rfl, hend⟩ | ⟨k, s', hk, hak, h', rfl⟩ := hx
  · exact .inl ⟨rfl, by omega⟩
  · obtain ⟨hok, hend⟩ | ⟨k', s'', hk', hak', h'', hrun⟩ := hmap s' k hk hak h'
    · rw [List.length_drop] at hend
      exact .inl ⟨hok, by omega⟩
    · rw [List.length_drop] at hk'
      rw [List.drop_drop, Nat.add_assoc] at h''
      exact .inr ⟨k + k', s'', by omega, by omega, h'', hrun⟩

variable {block : AddressBlock π}

/-- A block whose handler goes on through the message. -/
theorem dispatch_onward (h : s.Has a data) (hlimit : block.min ≤ limit)
    (hblock : ∀ s k, k < data.length → block.min ≤ a + k → a + k ≤ block.max →
      s.Has (a + k) (data.drop k) → a + k ≤ max a block.min →
      (∃ s', block.handler me s = .ok (false, me, s') ∧ a + data.length ≤ limit) ∨
      ∃ k' s', k' ≤ data.length ∧ a + k' ≤ max a limit ∧ s'.Has (a + k') (data.drop k') ∧
        block.handler me s = .ok (true, me, s'))
    (hle : block.min ≤ block.max) :
    Onward limit a data map me (dispatch (block :: map) me s) := by
  by_cases hdata : data = []
  · subst hdata
    rw [dispatch_nil _ _ h, ← dispatch_nil map me h]
    exact Onward.of_has h
  have hpos := List.length_pos_iff.mpr hdata
  by_cases hmax : block.max < a
  · rw [dispatch_past h hmax]
    exact Onward.of_has h
  · by_cases hin : block.min - a < data.length
    · obtain ⟨s₁, h₁, hrun⟩ := dispatch_enter block map me h (not_lt.mp hmax) hin
      have haddr : max a block.min = a + (block.min - a) := by omega
      rw [haddr] at h₁
      rw [hrun]
      obtain ⟨s', hok, hend⟩ | ⟨k', s', hk', hak', h', hok⟩ :=
        hblock s₁ (block.min - a) hin (by omega) (by omega) h₁ (by omega)
      · rw [hok]
        exact .inl ⟨rfl, hend⟩
      · rw [hok]
        exact .inr ⟨k', s', hk', hak', h', rfl⟩
    · rw [dispatch_end block map me h (not_lt.mp hmax) (not_lt.mp hin)]
      exact .inl ⟨rfl, by omega⟩

/-- A block that is not implemented. -/
theorem dispatch_nothing {min max : ℕ} (h : s.Has a data) (hlimit : min ≤ limit)
    (hle : min ≤ max) :
    Onward limit a data map me (dispatch (⟨min, max, XGSysexMap.handle_Nothing⟩ :: map) me s) := by
  refine dispatch_onward h hlimit (fun s₁ k hk _ _ h₁ hak => .inr ?_) hle
  exact ⟨k, s₁, hk.le, hak.trans (max_le_max le_rfl hlimit), h₁, rfl⟩

end Onward

namespace XGSysexMap

/-! ## The system block -/

theorem system_cases (me : SysexMap π) (h : s.Has a data) (ha : a ≤ 7) :
    (handle_XgSystem me s = .ok (false, me, s) ∧ a = 0 ∧ data.length < 4) ∨
      ∃ k s', k ≤ data.length ∧ a + k ≤ 7 ∧ s'.Has (a + k) (data.drop k) ∧
        handle_XgSystem me s = .ok (true, me, s') := by
  have hcases := GSSysexMap.commonLoop_cases me h (by omega)
  rwa [Nat.mod_eq_of_lt (show a < 128 by omega)] at hcases

/-! ## The reset block -/

/-- The message has a zero for one of the two resets. -/
def HasReset (a : ℕ) (data : List UInt8) : Prop :=
  ∃ x, (x = 0x7e ∨ x = 0x7f) ∧ a ≤ x ∧ data[x - a]? = some 0

theorem hasReset_drop {k : ℕ} (hk : k = 0 ∨ a + k ≤ 0x7d) :
    HasReset (a + k) (data.drop k) ↔ HasReset a data := by
  constructor
  · rintro ⟨x, hx, hle, hget⟩
    refine ⟨x, hx, by omega, ?_⟩
    rwa [List.getElem?_drop, show k + (x - (a + k)) = x - a by omega] at hget
  · rintro ⟨x, hx, hle, hget⟩
    refine ⟨x, hx, by omega, ?_⟩
    rwa [List.getElem?_drop, show k + (x - (a + k)) = x - a by omega]

theorem not_hasReset_of_lt (h : 0x7f < a) : ¬ HasReset a data := by
  rintro ⟨x, hx, hle, _⟩
  omega

theorem not_hasReset_of_short (h : a + data.length ≤ 0x7e) : ¬ HasReset a data := by
  rintro ⟨x, hx, hle, hget⟩
  obtain ⟨hlt, _⟩ := List.getElem?_eq_some_iff.mp hget
  omega

variable [DecidableEq π]

theorem hasInvalidPart_congr {e e' : Engine π} {port : π} (h : e'.parts port = e.parts port) :
    e'.hasInvalidPart ↔ e.hasInvalidPart := by
  have hparts : ∀ e : Engine π, e.hasInvalidPart ↔
      ∃ q ∈ e.parts port, q.1 ≠ midi_chan_none ∧ ¬ isValidMidiChan q.1 := by
    intro e
    simp [Engine.hasInvalidPart, Engine.parts]
  rw [hparts, hparts, h]

theorem reset_cases (me : SysexMap π) (h : s.Has a data) (ha : 0x7d ≤ a) (ha' : a ≤ 0x80) :
    (me.engine.hasInvalidPart ∧ HasReset a data ∧
      handle_XgReset me s = .error .midiInputException) ∨
    (¬ (me.engine.hasInvalidPart ∧ HasReset a data) ∧ ∃ k me' s', k ≤ data.length ∧
      a + k ≤ 0x80 ∧ s'.Has (a + k) (data.drop k) ∧ me.Keeps me' ∧
      handle_XgReset me s = .ok (true, me', s')) := by
  rw [handle_XgReset]
  obtain ⟨n, hn⟩ : ∃ n, 0x80 - a = n := ⟨_, rfl⟩
  induction n generalizing me s a data with
  | zero =>
      have hend : a = 0x80 := by omega
      subst hend
      exact .inr ⟨fun hbad => not_hasReset_of_lt (by omega) hbad.2, 0, me, s, Nat.zero_le _, le_rfl,
        by simpa using h, Keeps.refl me, loop_stop h rfl⟩
  | succ n ih =>
      cases data with
      | nil =>
          refine .inr ⟨?_, 0, me, s, le_rfl, ha', h, Keeps.refl me, loop_nil h⟩
          rintro ⟨-, x, _, _, hget⟩
          simp at hget
      | cons b data =>
          have hmod : a % 128 = a := Nat.mod_eq_of_lt (by omega)
          obtain ⟨s', h', hreset, hother⟩ := resetBody_eq me h
          rw [loop_cons resetBody_consumes h (decide_eq_true (show a % 128 ≠ 0 by omega))]
          -- The bytes after this one.
          have hrest : ∀ me₁ : SysexMap π, me.Keeps me₁ →
              (resets a b → ¬ me.engine.hasInvalidPart) →
              (me.engine.hasInvalidPart ∧ HasReset a (b :: data) ∧
                loop (· ≠ 0) resetBody me₁ s' = .error .midiInputException) ∨
              (¬ (me.engine.hasInvalidPart ∧ HasReset a (b :: data)) ∧ ∃ k me' s'',
                k ≤ (b :: data).length ∧ a + k ≤ 0x80 ∧ s''.Has (a + k) ((b :: data).drop k) ∧
                me.Keeps me' ∧ loop (· ≠ 0) resetBody me₁ s' = .ok (true, me', s'')) := by
            intro me₁ hkeeps hthis
            have hinvalid : me₁.engine.hasInvalidPart ↔ me.engine.hasInvalidPart :=
              hasInvalidPart_congr hkeeps.parts_eq
            have hlater : HasReset a (b :: data) ↔ resets a b ∨ HasReset (a + 1) data := by
              constructor
              · rintro ⟨x, hx, hle, hget⟩
                by_cases hxa : x = a
                · subst hxa
                  simp only [Nat.sub_self, List.getElem?_cons_zero, Option.some.injEq] at hget
                  exact .inl ⟨hx, hget⟩
                · refine .inr ⟨x, hx, by omega, ?_⟩
                  rwa [show x - a = (x - (a + 1)) + 1 by omega, List.getElem?_cons_succ] at hget
              · rintro (⟨hindex, rfl⟩ | ⟨x, hx, hle, hget⟩)
                · exact ⟨a, hindex, le_rfl, by simp⟩
                · refine ⟨x, hx, by omega, ?_⟩
                  rwa [show x - a = (x - (a + 1)) + 1 by omega, List.getElem?_cons_succ]
            obtain ⟨hbad, hhas, herr⟩ | ⟨hgood, k, me', s'', hk, hak, h'', hkeeps', hok⟩ :=
              ih me₁ h' (by omega) (by omega) (by omega)
            · exact .inl ⟨hinvalid.mp hbad, hlater.mpr (.inr hhas), herr⟩
            · rw [hinvalid] at hgood
              refine .inr ⟨?_, k + 1, me', s'', ?_, by omega, ?_, hkeeps.trans hkeeps', hok⟩
              · rintro ⟨hbad, hhas⟩
                rcases hlater.mp hhas with hnow | hhas
                · exact hthis hnow hbad
                · exact hgood ⟨hbad, hhas⟩
              · rw [List.length_cons]
                omega
              · rwa [List.drop_succ_cons, show a + (k + 1) = a + 1 + k by omega]
          by_cases hresets : resets (a % 128) b
          · rw [hreset hresets]
            rw [hmod] at hresets
            obtain ⟨hbad, herr⟩ | ⟨hgood, me₁, hok, hkeeps⟩ := me.resetMidiMode_cases .XG
            · left
              rw [herr]
              exact ⟨hbad, ⟨a, hresets.1, le_rfl, by simp [hresets.2]⟩, rfl⟩
            · rw [hok]
              exact hrest me₁ hkeeps fun _ => hgood
          · rw [hother hresets]
            rw [hmod] at hresets
            exact hrest me (Keeps.refl me) fun hnow => absurd hnow hresets

/-! ## The whole table -/

/-- The table from the block after the resets on. -/
def afterReset : List (AddressBlock π) := addressMap.drop 2

/-- The table from the parts on. -/
def fromParts : List (AddressBlock π) := addressMap.drop 5

theorem afterReset_onward (me : SysexMap π) (h : s.Has a data) :
    Onward (SYSEX_ADDR 0x08 0x00 0x00) a data fromParts me (dispatch afterReset me s) := by
  have hfx : Onward (SYSEX_ADDR 0x02 0x01 0x00) a data (addressMap.drop 3) me
      (dispatch afterReset me s) := dispatch_nothing h le_rfl (by decide)
  have heq : Onward (SYSEX_ADDR 0x02 0x40 0x00) a data (addressMap.drop 4) me
      (dispatch afterReset me s) :=
    hfx.trans (by decide) fun s k _ _ h => dispatch_nothing h le_rfl (by decide)
  exact heq.trans (by decide) fun s k _ _ h => dispatch_nothing h (by decide) (by decide)

theorem system_onward (me : SysexMap π) (h : s.Has a data) :
    Onward 7 a data (addressMap.drop 1) me (dispatch addressMap me s) := by
  refine dispatch_onward h (Nat.zero_le _) (fun s₁ k hk _ hmax h₁ hak => ?_) (Nat.zero_le _)
  have hmax' : a + k ≤ 6 := hmax
  rcases system_cases me h₁ (by omega) with ⟨hok, hzero, hshort⟩ | ⟨k', s', hk', hak', h', hok⟩
  · rw [List.length_drop] at hshort
    exact .inl ⟨s₁, hok, by omega⟩
  · rw [List.length_drop] at hk'
    rw [List.drop_drop, Nat.add_assoc] at h'
    exact .inr ⟨k + k', s', by omega, by omega, h', hok⟩

theorem reset_onward (me : SysexMap π) (h : s.Has a data) :
    (me.engine.hasInvalidPart ∧ HasReset a data ∧
      dispatch (addressMap.drop 1) me s = .error .midiInputException) ∨
    (¬ (me.engine.hasInvalidPart ∧ HasReset a data) ∧ ∃ me', me.Keeps me' ∧
      Onward 0x80 a data afterReset me' (dispatch (addressMap.drop 1) me s)) := by
  by_cases hdata : data = []
  · subst hdata
    right
    refine ⟨?_, me, Keeps.refl me, ?_⟩
    · rintro ⟨-, x, _, _, hget⟩
      simp at hget
    · rw [dispatch_nil _ _ h, ← dispatch_nil afterReset me h]
      exact Onward.of_has h
  have hpos := List.length_pos_iff.mpr hdata
  by_cases hmax : 0x7f < a
  · right
    refine ⟨fun hbad => not_hasReset_of_lt hmax hbad.2, me, Keeps.refl me, ?_⟩
    rw [addressMap, List.drop_succ_cons, List.drop_zero, dispatch_past h hmax]
    exact Onward.of_has h
  · have hle : a ≤ 0x7f := not_lt.mp hmax
    by_cases hin : 0x7d - a < data.length
    · obtain ⟨s₁, h₁, hrun⟩ := dispatch_enter
        ⟨SYSEX_ADDR 0x00 0x00 0x7d, SYSEX_ADDR 0x00 0x00 0x7f, handle_XgReset⟩ afterReset me h hle hin
      have hmin : SYSEX_ADDR 0x00 0x00 0x7d = 0x7d := rfl
      simp only [hmin] at h₁
      dsimp only at hrun
      have haddr : max a 0x7d = a + (0x7d - a) := by omega
      rw [haddr] at h₁
      have hhas : HasReset (a + (0x7d - a)) (data.drop (0x7d - a)) ↔ HasReset a data :=
        hasReset_drop (by omega)
      obtain ⟨hbad, hreset, herr⟩ | ⟨hgood, k, me', s', hk, hak, h', hkeeps, hok⟩ :=
        reset_cases me h₁ (by omega) (by omega)
      · left
        refine ⟨hbad, hhas.mp hreset, ?_⟩
        rw [addressMap, List.drop_succ_cons, List.drop_zero]
        refine hrun.trans ?_
        rw [herr]
        rfl
      · right
        rw [hhas] at hgood
        rw [List.length_drop] at hk
        rw [List.drop_drop, Nat.add_assoc] at h'
        refine ⟨hgood, me', hkeeps, .inr ⟨0x7d - a + k, s', by omega, by omega, h', ?_⟩⟩
        rw [addressMap, List.drop_succ_cons, List.drop_zero]
        refine hrun.trans ?_
        rw [hok]
        rfl
    · right
      refine ⟨fun hbad => not_hasReset_of_short (by omega) hbad.2, me, Keeps.refl me,
        .inl ⟨dispatch_end _ _ me h hle (not_lt.mp hin), by omega⟩⟩

omit [DecidableEq π] in
/-- Nothing happens in blocks that are not implemented. -/
theorem nothing_eq {map : List (AddressBlock π)}
    (hmap : ∀ block ∈ map, block.handler = handle_Nothing) (me : SysexMap π) (s : SysexReader) :
    dispatch map me s = .ok me := by
  induction map generalizing me s with
  | nil => rfl
  | cons block map ih =>
      have hrest := ih fun block hblock => hmap block (List.mem_cons_of_mem _ hblock)
      rw [dispatch, hmap block List.mem_cons_self]
      split
      · rfl
      · split
        · exact hrest me s
        · generalize (if block.min > s.address then s.add (block.min - s.address) else s) = reader
          dsimp only
          split
          · rfl
          · exact hrest me reader

theorem afterParts_eq (me : SysexMap π) (s : SysexReader) :
    dispatch (addressMap.drop 6) me s = .ok me := by
  refine nothing_eq (fun block hblock => ?_) me s
  simp only [addressMap, List.drop_succ_cons, List.drop_zero, List.mem_cons,
    List.not_mem_nil, or_false] at hblock
  rcases hblock with rfl | rfl <;> rfl

/-- What a message with data for an address must be like. -/
def SafeData (e : Engine π) (port : π) (a : ℕ) (data : List UInt8) : Prop :=
  e.hasInvalidPart ∧ HasReset a data ∨
    (a ≤ SYSEX_ADDR 0x08 0x7f 0x7f → max a (SYSEX_ADDR 0x08 0x00 0x00) < a + data.length →
      MultipartSafe e port (max a (SYSEX_ADDR 0x08 0x00 0x00))
        (data.length - (SYSEX_ADDR 0x08 0x00 0x00 - a)))

theorem multipartSafe_congr {me' : SysexMap π} (h : me.Keeps me') (a n : ℕ) :
    MultipartSafe me'.engine me'.sourcePort a n ↔ MultipartSafe me.engine me.sourcePort a n := by
  simp only [MultipartSafe, h.assigned_eq]

theorem dispatch_addressMap_safe_iff (hchan : me.channel = midi_chan_all)
    (hnone : me.cache = none) (h : s.Has a data) :
    Safe (dispatch addressMap me s) ↔ SafeData me.engine me.sourcePort a data := by
  have hparts : SYSEX_ADDR 0x08 0x00 0x00 = 131072 := rfl
  have hlast : SYSEX_ADDR 0x08 0x7f 0x7f = 147455 := rfl
  obtain ⟨hrun, hend⟩ | ⟨k, s₁, hk, hak, h₁, hrun⟩ := system_onward me h
  · rw [hrun]
    exact ⟨fun _ => .inr fun _ hlt => by omega, fun _ => Safe.of_ok rfl⟩
  · have hreset : HasReset (a + k) (data.drop k) ↔ HasReset a data := hasReset_drop (by omega)
    rw [hrun]
    obtain ⟨hbad, hhas, herr⟩ | ⟨hgood, me₁, hkeeps, honward⟩ := reset_onward me h₁
    · rw [herr]
      exact ⟨fun _ => .inl ⟨hbad, hreset.mp hhas⟩, fun _ => Safe.exception⟩
    · rw [hreset] at hgood
      have hway := honward.trans (by decide) fun s k _ _ h => afterReset_onward me₁ h
      obtain ⟨hok, hend⟩ | ⟨k', s', hk', hak', h', hok⟩ := hway
      · rw [hok]
        rw [List.length_drop] at hend
        exact ⟨fun _ => .inr fun _ hlt => by omega, fun _ => Safe.of_ok rfl⟩
      · rw [List.length_drop] at hk'
        rw [List.drop_drop, Nat.add_assoc] at h'
        have hrest : ∀ (me : SysexMap π) s, Safe (dispatch (addressMap.drop 6) me s) :=
          fun me s => Safe.of_ok (afterParts_eq me s)
        have hto : a + (k + k') ≤ max a (SYSEX_ADDR 0x08 0x00 0x00) := by omega
        rw [hok]
        by_cases hmax : SYSEX_ADDR 0x08 0x7f 0x7f < a + (k + k')
        · rw [fromParts, addressMap, List.drop_succ_cons, List.drop_succ_cons, List.drop_succ_cons,
            List.drop_succ_cons, List.drop_succ_cons, List.drop_zero, dispatch_past h' hmax]
          exact ⟨fun _ => .inr fun hle => by omega, fun _ => hrest me₁ s'⟩
        · by_cases hin : SYSEX_ADDR 0x08 0x00 0x00 - (a + (k + k')) <
              (data.drop (k + k')).length
          · obtain ⟨s₂, h₂, hrun₂⟩ := dispatch_enter
              ⟨SYSEX_ADDR 0x08 0x00 0x00, SYSEX_ADDR 0x08 0x7f 0x7f, handle_Multipart⟩
              (addressMap.drop 6) me₁ h' (not_lt.mp hmax) hin
            dsimp only at h₂ hrun₂
            rw [List.length_drop] at hin
            have haddr : max (a + (k + k')) (SYSEX_ADDR 0x08 0x00 0x00) =
                max a (SYSEX_ADDR 0x08 0x00 0x00) := by omega
            have hdata : (data.drop (k + k')).drop (SYSEX_ADDR 0x08 0x00 0x00 - (a + (k + k'))) ≠
                [] := by
              rw [Ne, List.drop_eq_nil_iff, List.length_drop]
              omega
            have hlen : ((data.drop (k + k')).drop
                (SYSEX_ADDR 0x08 0x00 0x00 - (a + (k + k')))).length =
                data.length - (SYSEX_ADDR 0x08 0x00 0x00 - a) := by
              rw [List.length_drop, List.length_drop]
              omega
            rw [haddr] at h₂
            have hsafe := handle_Multipart_safe_iff (hkeeps.channel_eq.trans hchan)
              (hkeeps.cache_eq.trans hnone) h₂ hdata
            rw [hlen, multipartSafe_congr hkeeps] at hsafe
            have hbind : Safe (dispatch fromParts me₁ s') ↔ Safe (handle_Multipart me₁ s₂) := by
              refine (iff_of_eq (congrArg Safe hrun₂)).trans (safe_bind_iff ?_)
              rintro ⟨go, me₂, s₃⟩
              cases go with
              | false => exact Safe.of_ok rfl
              | true => exact hrest me₂ s₃
            rw [hbind, hsafe]
            exact ⟨fun hm => .inr fun _ _ => hm, fun hm => hm.resolve_left hgood (by omega)
              (by omega)⟩
          · have hend := dispatch_end
              ⟨SYSEX_ADDR 0x08 0x00 0x00, SYSEX_ADDR 0x08 0x7f 0x7f, handle_Multipart⟩
              (addressMap.drop 6) me₁ h' (not_lt.mp hmax) (not_lt.mp hin)
            rw [List.length_drop] at hin
            refine ⟨fun _ => .inr fun _ hlt => by omega, fun _ => ?_⟩
            exact Safe.of_ok hend

end XGSysexMap

/-! ## Messages -/

def SafeMessage [DecidableEq π] (e : Engine π) (port : π) (message : List UInt8) : Prop :=
  ∀ a data, xgData message = some (a, data) → XGSysexMap.SafeData e port a data

theorem SafeMessage.of_none [DecidableEq π] {e : Engine π} {port : π} {message : List UInt8}
    (h : xgData message = none) : SafeMessage e port message := by
  intro a data hdata
  rw [h] at hdata
  cases hdata

theorem safeMessage_iff [DecidableEq π] {e : Engine π} {port : π} {message : List UInt8}
    (h : xgData message = some (a, data)) :
    SafeMessage e port message ↔ XGSysexMap.SafeData e port a data := by
  refine ⟨fun hm => hm a data h, fun hs a' data' hdata => ?_⟩
  rw [h] at hdata
  cases hdata
  exact hs

section Families

variable [DecidableEq π]

theorem Plain.safe {message : List UInt8} {e : Engine π} {port : π}
    {x : Except Abort (Engine π)} (h : Plain message e port x) : Safe x := by
  rcases h with ⟨mode, rfl⟩ | ⟨value, rfl⟩ | ⟨mode, -, rfl⟩
  · exact Safe.of_ok rfl
  · exact Safe.of_ok rfl
  · rcases e.resetMidiMode_cases mode port with ⟨-, herr⟩ | ⟨-, e', hok, -⟩
    · rw [herr]
      exact Safe.exception
    · exact Safe.of_ok hok

/-- Any bytes may be stored and any length may be given. -/
theorem dispatchSysex_safe_iff (e : Engine π) (sourcePort : π) (bytes : List UInt8)
    (length : ℕ) :
    Safe (dispatchSysex e sourcePort bytes length) ↔
      SafeMessage e sourcePort (bytes.take length) := by
  rw [dispatchSysex_take]
  generalize bytes.drop length = rest
  generalize bytes.take length = message
  rcases dispatchSysex_cases (π := π) message rest with
    ⟨hempty, hplain⟩ | ⟨a, data, -, hnone, s, hs, hrun⟩ | ⟨a, data, hdata, s, hs, hrun⟩
  · refine ⟨fun _ a data hdata => .inr fun _ hlt => ?_, fun _ => (hplain e sourcePort).safe⟩
    -- Without data, nothing reaches the parts.
    rw [hempty a data (.inr hdata), List.length_nil] at hlt
    omega
  · beta_reduce at hrun
    rw [hrun]
    exact ⟨fun _ => SafeMessage.of_none hnone, fun _ => safe_map_iff.mpr
      (GSSysexMap.dispatch_addressMap_safe (create_cacheOk _ sourcePort) hs).1⟩
  · beta_reduce at hrun
    rw [hrun, safeMessage_iff hdata, safe_map_iff]
    exact XGSysexMap.dispatch_addressMap_safe_iff rfl rfl hs

/-! ### A message that is not safe -/

/-- A channel of the first part. -/
def firstPart : EngineChannel Unit :=
  { originalMidiChannel := 0
    midiChannel := 0
    midiInputs := [()]
    keyAssignMode := .multi
    partMode := 0
    bMidiBankMsbReceived := false
    uiMidiBankMsb := 0
    bMidiBankLsbReceived := false
    uiMidiBankLsb := 0
    bProgramChangeReceived := false
    uiMidiProgram := 0
    defaultGsLsb := 0
    poweronGsLsb := 0
    globalVolume := 1
    bStatusChanged := false
    eventQueue := ⟨fun _ => ⟨.sysex, 0, 0, .cc 0 0 0, 0, -1⟩, 0, 0, 8, 0, 7⟩ }

/-- An engine with this channel only. -/
def onePart : Engine Unit :=
  { renderMode := .GM
    scaleTuning := List.replicate 12 0
    scaleTuningChanged := false
    frameTime := 0
    now := 0
    engineChannels := [firstPart]
    eventQueue := firstPart.eventQueue
    sysexBuffer := ⟨fun _ => 0, 0, 0, 64, 0, 63⟩
    globalEvents := [] }

def failure {α : Type} : Except Abort α → Option Abort
  | .ok _ => none
  | .error f => some f

theorem Safe.failure_eq {α : Type} {x : Except Abort α} (h : Safe x) :
    failure x = none ∨ failure x = some .midiInputException := by
  cases x with
  | ok r => exact .inl rfl
  | error f => exact .inr (congrArg some (h f rfl))

/-- The bank of the first part, as a single parameter. -/
theorem dispatchSysex_uninitialised :
    failure (dispatchSysex onePart () [0xf0, 0x43, 0x10, 0x4c, 0x08, 0x00, 0x01, 0x05, 0xf7] 9) =
      some .uninitialised := by
  decide +kernel

theorem not_dispatchSysex_safe : ¬ ∀ (e : Engine Unit) (sourcePort : Unit) (bytes : List UInt8)
    (length : ℕ), Safe (dispatchSysex e sourcePort bytes length) := by
  intro hall
  have hbank := (hall onePart () [0xf0, 0x43, 0x10, 0x4c, 0x08, 0x00, 0x01, 0x05, 0xf7] 9).failure_eq
  rw [dispatchSysex_uninitialised] at hbank
  exact absurd hbank (by decide)

end Families

end LinuxSampler
