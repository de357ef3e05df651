import LinuxSampler.SysexRules

/-!
# One turn of each loop

What the body of each loop does at an address with the bytes that are left,
and that it consumes a byte at least.
-/

namespace LinuxSampler

open SysexMap

variable {π : Type} {me : SysexMap π} {s : SysexReader} {a : ℕ} {b : UInt8} {data : List UInt8}

/-! ## Roland GS -/

namespace GSSysexMap

theorem commonBody_byte (me : SysexMap π) (h : s.Has a (b :: data)) (hindex : a % 128 ≠ 0) :
    ∃ s', s'.Has (a + 1) data ∧ commonBody (a % 128) me s = .ok (true, me, s') := by
  refine ⟨s.inc, h.inc, ?_⟩
  rw [commonBody]
  exact hindex

theorem commonBody_tune (me : SysexMap π) (h : s.Has a data) (hindex : a % 128 = 0)
    (hlen : 4 ≤ data.length) :
    ∃ s', s'.Has (a + 4) (data.drop 4) ∧ commonBody (a % 128) me s = .ok (true, me, s') := by
  obtain ⟨s', hread, h'⟩ := h.read hlen
  refine ⟨s', h', ?_⟩
  rw [hindex, commonBody]
  simp only [Nat.cast_ofNat] at hread
  simp [hread, bind, Except.bind, pure, Except.pure]

theorem commonBody_short (h : s.Has a data) (hindex : a % 128 = 0) (hlen : data.length < 4) :
    commonBody (a % 128) me s = .ok (false, me, s) := by
  rw [hindex, commonBody]
  simp [h.read_short 4 (.inr (by omega)), bind, Except.bind, pure, Except.pure]

theorem commonBody_consumes : Consumes (commonBody (π := π)) := by
  intro me s a b data go me' s' h hrun hgo
  by_cases hindex : a % 128 = 0
  · by_cases hlen : 4 ≤ (b :: data).length
    · obtain ⟨s₁, h₁, hok⟩ := commonBody_tune me h hindex hlen
      rw [hok] at hrun
      cases hrun
      refine ⟨_, _, h₁, ?_⟩
      rw [List.length_drop, List.length_cons]
      omega
    · rw [commonBody_short h hindex (by omega)] at hrun
      cases hrun
      cases hgo
  · obtain ⟨s₁, h₁, hok⟩ := commonBody_byte me h hindex
    rw [hok] at hrun
    cases hrun
    exact ⟨_, _, h₁, le_rfl⟩

/-- The loop passes over the block, or gives up within the tuning. -/
theorem commonLoop_cases (me : SysexMap π) (h : s.Has a data) (ha : a % 128 ≤ 7) :
    (loop (· < 0x07) commonBody me s = .ok (false, me, s) ∧ a % 128 = 0 ∧ data.length < 4) ∨
    ∃ k s', k ≤ data.length ∧ a % 128 + k ≤ 7 ∧ s'.Has (a + k) (data.drop k) ∧
      loop (· < 0x07) commonBody me s = .ok (true, me, s') := by
  obtain ⟨n, hn⟩ : ∃ n, 7 - a % 128 = n := ⟨_, rfl⟩
  induction n using Nat.strong_induction_on generalizing s a data with
  | _ n ih =>
    cases data with
    | nil => exact .inr ⟨0, s, le_rfl, ha, h, loop_nil h⟩
    | cons b data =>
        by_cases hend : a % 128 = 7
        · exact .inr ⟨0, s, Nat.zero_le _, ha, h, loop_stop h (by simp [hend])⟩
        · rw [loop_cons commonBody_consumes h (decide_eq_true (show a % 128 < 7 by omega))]
          by_cases hzero : a % 128 = 0
          · by_cases hlen : 4 ≤ (b :: data).length
            · obtain ⟨s', h', hok⟩ := commonBody_tune me h hzero hlen
              rw [hok]
              rcases ih (7 - (a + 4) % 128) (by omega) h' (by omega) rfl with
                ⟨hrun, hfour, hshort⟩ | ⟨k, s'', hk, hak, h'', hrun⟩
              · omega
              · right
                rw [List.length_drop] at hk
                rw [List.drop_drop, Nat.add_assoc] at h''
                exact ⟨4 + k, s'', by omega, by omega, h'', hrun⟩
            · rw [commonBody_short h hzero (not_le.mp hlen)]
              exact .inl ⟨rfl, hzero, not_le.mp hlen⟩
          · obtain ⟨s', h', hok⟩ := commonBody_byte me h hzero
            rw [hok]
            rcases ih (7 - (a + 1) % 128) (by omega) h' (by omega) rfl with
              ⟨hrun, hfour, hshort⟩ | ⟨k, s'', hk, hak, h'', hrun⟩
            · omega
            · right
              rw [Nat.add_assoc, Nat.add_comm 1 k] at h''
              exact ⟨k + 1, s'', by rw [List.length_cons]; omega, by omega, h'', hrun⟩

variable {cache : List ℕ}

theorem patchCommonBody_byte (cache : List ℕ) (me : SysexMap π) (h : s.Has a (b :: data))
    (hindex : a % 128 ≠ 0x40) :
    ∃ s', s'.Has (a + 1) data ∧
      patchCommonBody cache (a % 128) me s = .ok (true, patchParam cache (a % 128) b me, s') := by
  obtain ⟨s', hpop, h'⟩ := h.pop
  refine ⟨s', h', ?_⟩
  simp [patchCommonBody, hpop, bind, Except.bind, pure, Except.pure, hindex]

/-- The engine after the scale tuning was set to these bytes. -/
def tuned (bytes : List UInt8) (me : SysexMap π) : SysexMap π :=
  { me with engine := me.engine.adjustScaleTuning (bytes.map fun b => b.toInt8 - 64) }

theorem tuned_keeps [DecidableEq π] (bytes : List UInt8) (me : SysexMap π) :
    me.Keeps (tuned bytes me) :=
  ⟨rfl, rfl, rfl, rfl⟩

/-- The scale tuning is the twelve bytes after the first one. -/
theorem patchCommonBody_scale (cache : List ℕ) (me : SysexMap π) (h : s.Has a (b :: data))
    (hindex : a % 128 = 0x40)
    (hlen : 12 ≤ data.length) :
    ∃ s', s'.Has (a + 13) (data.drop 12) ∧
      patchCommonBody cache (a % 128) me s = .ok (true, tuned (data.take 12) me, s') := by
  obtain ⟨s₁, hpop, h₁⟩ := h.pop
  obtain ⟨s', hread, h'⟩ := h₁.read hlen
  refine ⟨s', h', ?_⟩
  simp only [Nat.cast_ofNat] at hread
  simp [patchCommonBody, hpop, bind, Except.bind, pure, Except.pure, hindex, hread, tuned]

theorem patchCommonBody_short (cache : List ℕ) (me : SysexMap π) (h : s.Has a (b :: data))
    (hindex : a % 128 = 0x40)
    (hlen : data.length < 12) :
    ∃ s', s'.Has (a + 1) data ∧ patchCommonBody cache (a % 128) me s = .ok (false, me, s') := by
  obtain ⟨s', hpop, h'⟩ := h.pop
  refine ⟨s', h', ?_⟩
  simp [patchCommonBody, hpop, bind, Except.bind, pure, Except.pure, hindex,
    h'.read_short 12 (.inr (by omega))]

theorem patchCommonBody_consumes : Consumes (patchCommonBody (π := π) cache) := by
  intro me s a b data go me' s' h hrun hgo
  by_cases hindex : a % 128 = 0x40
  · by_cases hlen : 12 ≤ data.length
    · obtain ⟨s₁, h₁, hok⟩ := patchCommonBody_scale cache me h hindex hlen
      rw [hok] at hrun
      cases hrun
      refine ⟨_, _, h₁, ?_⟩
      rw [List.length_drop]
      omega
    · obtain ⟨s₁, h₁, hok⟩ := patchCommonBody_short cache me h hindex (by omega)
      rw [hok] at hrun
      cases hrun
      cases hgo
  · obtain ⟨s₁, h₁, hok⟩ := patchCommonBody_byte cache me h hindex
    rw [hok] at hrun
    cases hrun
    exact ⟨_, _, h₁, le_rfl⟩

theorem efx88Body_eq (cache : List ℕ) (me : SysexMap π) (h : s.Has a (b :: data)) :
    ∃ s', s'.Has (a + 1) data ∧
      efx88Body cache (a % 128) me s = .ok (true, efx88Param cache (a % 128) b me, s') := by
  obtain ⟨s', hpop, h'⟩ := h.pop
  refine ⟨s', h', ?_⟩
  simp [efx88Body, hpop, bind, Except.bind, pure, Except.pure]

theorem efx88Body_consumes : Consumes (efx88Body (π := π) cache) := by
  intro me s a b data go me' s' h hrun _
  obtain ⟨s₁, h₁, hok⟩ := efx88Body_eq cache me h
  rw [hok] at hrun
  cases hrun
  exact ⟨_, _, h₁, le_rfl⟩

theorem patchParam_keeps (cache : List ℕ) (index : ℕ) (lead : UInt8) [DecidableEq π]
    (me : SysexMap π) : me.Keeps (patchParam cache index lead me) := by
  unfold patchParam
  split <;> first
    | exact Keeps.refl me
    | exact forEachCC_keeps _ _ cache me
    | (apply forEach_keeps; exact fun c => ⟨rfl, fun _ => Iff.rfl⟩)

theorem efx88Param_keeps (cache : List ℕ) (index : ℕ) (lead : UInt8) [DecidableEq π]
    (me : SysexMap π) : me.Keeps (efx88Param cache index lead me) := by
  unfold efx88Param
  split <;> first
    | exact Keeps.refl me
    | (apply forEach_keeps; exact fun c => ⟨rfl, fun _ => Iff.rfl⟩)

end GSSysexMap

/-! ## Yamaha XG -/

namespace XGSysexMap

/-- The parameters that are read from the buffer. -/
def read : List ℕ := [0x01, 0x02, 0x03, 0x04, 0x05, 0x06, 0x07, 0x0b, 0x0e]

theorem partParam_isSome_iff (index : ℕ) : (partParam (π := π) index).isSome ↔ index ∈ read := by
  unfold partParam
  split <;> simp_all [read]

variable [DecidableEq π]

/-- The engine is reset by a zero at two addresses. -/
def resets (index : ℕ) (b : UInt8) : Prop := (index = 0x7e ∨ index = 0x7f) ∧ b = 0

theorem resetBody_eq (me : SysexMap π) (h : s.Has a (b :: data)) :
    ∃ s', s'.Has (a + 1) data ∧
      (resets (a % 128) b → resetBody (a % 128) me s =
        (me.resetMidiMode .XG).map fun me => (true, me, s')) ∧
      (¬ resets (a % 128) b → resetBody (a % 128) me s = .ok (true, me, s')) := by
  obtain ⟨s', hpop, h'⟩ := h.pop
  refine ⟨s', h', ?_, ?_⟩
  · rintro ⟨hindex, rfl⟩
    rcases hindex with hindex | hindex <;> rw [hindex, resetBody, hpop] <;>
      simp only [bind, Except.bind, if_true] <;> cases me.resetMidiMode .XG <;> rfl
  · intro hresets
    rw [resetBody, hpop]
    simp only [bind, Except.bind]
    split
    · rename_i hindex
      rw [if_neg fun hb => hresets ⟨.inl hindex, hb⟩]
      rfl
    · rename_i hindex
      rw [if_neg fun hb => hresets ⟨.inr hindex, hb⟩]
      rfl
    · rfl

theorem resetBody_consumes : Consumes (resetBody (π := π)) := by
  intro me s a b data go me' s' h hrun _
  obtain ⟨s₁, h₁, hreset, hother⟩ := resetBody_eq me h
  by_cases hresets : resets (a % 128) b
  · rw [hreset hresets] at hrun
    cases hmode : me.resetMidiMode .XG with
    | error => rw [hmode] at hrun; cases hrun
    | ok me₁ =>
        rw [hmode] at hrun
        cases hrun
        exact ⟨_, _, h₁, le_rfl⟩
  · rw [hother hresets] at hrun
    cases hrun
    exact ⟨_, _, h₁, le_rfl⟩

theorem partParam_keeps {index : ℕ} {f : UInt8 → List ℕ → SysexMap π → SysexMap π}
    (hf : partParam index = some f) (b : UInt8) (cache : List ℕ) (me : SysexMap π) :
    me.Keeps (f b cache me) := by
  unfold partParam at hf
  split at hf <;> cases hf <;> first
    | exact forEachCC_keeps _ _ cache me
    | (apply forEach_keeps; exact fun c => ⟨rfl, fun _ => Iff.rfl⟩)
    | skip
  -- The key assignment has three values.
  dsimp only
  split <;> first
    | exact Keeps.refl me
    | (apply forEach_keeps; exact fun c => ⟨rfl, fun _ => Iff.rfl⟩)

end XGSysexMap

end LinuxSampler
