import LinuxSampler.SysexSingles

/-!
# The scale tuning

A GS and an XG message can tune the twelve semitones of the octave. Both
handlers find too few bytes, and the tuning stays what it was: the GS
handler wants twelve bytes behind the first one, and the XG handler reads no
more than three of them.
-/

namespace LinuxSampler

open SysexMap

variable {π : Type} [DecidableEq π] {e : Engine π} {port : π} {s : SysexReader} {p : ℕ}
  {ts message : List UInt8}

/-! ## What a scale tuning is for -/

/-- The engine is tuned by the given data bytes, and has noticed that. -/
def Engine.TunedTo (e : Engine π) (ts : List UInt8) : Prop :=
  e.scaleTuning.map Int8.toInt = (ts.map fun t => (t.toNat : ℤ) - 64) ∧
    e.scaleTuningChanged = true

omit [DecidableEq π] in
/-- The message begins in the block. -/
theorem SysexMap.dispatch_inside {a : ℕ} {data : List UInt8} (block : AddressBlock π)
    (map : List (AddressBlock π)) (me : SysexMap π) (h : s.Has a data) (hmin : block.min ≤ a)
    (hmax : a ≤ block.max) (hdata : data ≠ []) :
    ∃ s', s'.Has a data ∧ dispatch (block :: map) me s = (do
      let (go, me, reader) ← block.handler me s'
      if ¬ go then return me
      dispatch map me reader) := by
  have hlen := List.length_pos_iff.mpr hdata
  obtain ⟨s', hs', hrun⟩ := dispatch_enter block map me h hmax (by omega)
  rw [Nat.sub_eq_zero_of_le hmin, List.drop_zero, max_eq_left hmin] at hs'
  exact ⟨s', hs', hrun⟩

namespace Family

/-- How many parts there are. -/
def partCount : Family → ℕ
  | gs => 16
  | xg => 128

/-- The address of the scale tuning of part `p`. -/
def scaleAddress : Family → ℕ → ℕ
  | gs, p => SYSEX_ADDR 0x40 (0x10 + p) 0x40
  | xg, p => SYSEX_ADDR 0x08 p 0x41

/-! ## What the handlers do -/

/-- The handler of the GS parts pops a byte before it wants twelve. -/
theorem dispatch_scale_gs (hp : p < 16) (hs : s.Has (gs.scaleAddress p) ts) (hts : ts.length = 12)
    (hpart : e.assigned port p ≠ []) :
    (dispatch GSSysexMap.addressMap (create e port) s).map (·.engine) = .ok e := by
  have haddress : gs.scaleAddress p = 1048576 + (16 + p) * 128 + 64 := rfl
  have hne : p ≠ midi_chan_all := by
    rw [midi_chan_all]
    omega
  rw [GSSysexMap.addressMap, dispatch_past hs (show 127 < gs.scaleAddress p by omega),
    dispatch_past hs (show 1048582 < gs.scaleAddress p by omega),
    dispatch_past hs (show 1048703 < gs.scaleAddress p by omega)]
  obtain ⟨s', hs', hrun⟩ := dispatch_inside
    ⟨SYSEX_ADDR 0x40 0x10 0x00, SYSEX_ADDR 0x40 0x1f 0x7f, GSSysexMap.handle_GsPatchCommon⟩
    [⟨SYSEX_ADDR 0x40 0x40 0x00, SYSEX_ADDR 0x40 0x4f 0x7f, GSSysexMap.handle_GsEfx88⟩]
    (create e port) hs (show 1050624 ≤ gs.scaleAddress p by omega)
    (show gs.scaleAddress p ≤ 1052671 by omega)
    (List.ne_nil_of_length_pos (show 0 < ts.length by omega))
  obtain ⟨t, ts', rfl⟩ := List.exists_cons_of_ne_nil (List.ne_nil_of_length_pos
    (show 0 < ts.length by omega))
  obtain ⟨me, hfilter, -, hengine, -⟩ :=
    filterChannels_eq (create_cacheOk e port) (p := p) (.inl hne)
  have hcache : (create e port).filterChannels p = .ok (e.assigned port p, me) := hfilter
  obtain ⟨s₁, -, hbody⟩ := GSSysexMap.patchCommonBody_short (e.assigned port p) me hs'
    (show gs.scaleAddress p % 128 = 0x40 by omega) (by rw [List.length_cons] at hts; omega)
  have hindex : s'.address / 128 % 16 = p := by
    rw [hs'.address_eq]
    omega
  have hhandler : GSSysexMap.handle_GsPatchCommon (create e port) s' = .ok (false, me, s₁) := by
    rw [GSSysexMap.handle_GsPatchCommon, hindex, hcache]
    show (if e.assigned port p ≠ [] then _ else _) = _
    rw [if_pos hpart, loop_cons GSSysexMap.patchCommonBody_consumes hs' (by
      rw [decide_eq_true_eq]
      omega), hbody]
    rfl
  rw [hrun]
  show Except.map _ (GSSysexMap.handle_GsPatchCommon (create e port) s' >>= _) = _
  rw [hhandler]
  exact congrArg Except.ok hengine

/-- The handler of the XG parts reads three bytes of the part at most. -/
theorem dispatch_scale_xg (hp : p < 128) (hs : s.Has (xg.scaleAddress p) ts)
    (hts : ts.length = 12) (hpart : e.assigned port p ≠ []) :
    (dispatch XGSysexMap.addressMap (create e port) s).map (·.engine) =
      if p = midi_chan_all then .error .staleCache else .ok e := by
  have haddress : xg.scaleAddress p = 131072 + p * 128 + 65 := rfl
  rw [XGSysexMap.addressMap, dispatch_past hs (show 6 < xg.scaleAddress p by omega),
    dispatch_past hs (show 127 < xg.scaleAddress p by omega),
    dispatch_past hs (show 33013 < xg.scaleAddress p by omega),
    dispatch_past hs (show 40980 < xg.scaleAddress p by omega),
    dispatch_past hs (show 65535 < xg.scaleAddress p by omega)]
  obtain ⟨s', hs', hrun⟩ := dispatch_inside
    ⟨SYSEX_ADDR 0x08 0x00 0x00, SYSEX_ADDR 0x08 0x7f 0x7f, XGSysexMap.handle_Multipart⟩
    [⟨SYSEX_ADDR 0x0a 0x00 0x10, SYSEX_ADDR 0x0a 0x7f 0x45, XGSysexMap.handle_Nothing⟩,
      ⟨SYSEX_ADDR 0x30 0x00 0x00, SYSEX_ADDR 0x3f 0x7f 0x74, XGSysexMap.handle_Nothing⟩]
    (create e port) hs (show 131072 ≤ xg.scaleAddress p by omega)
    (show xg.scaleAddress p ≤ 147455 by omega)
    (List.ne_nil_of_length_pos (show 0 < ts.length by omega))
  rw [hrun]
  show Except.map _ (XGSysexMap.handle_Multipart (create e port) s' >>= _) = _
  obtain ⟨t, ts', rfl⟩ := List.exists_cons_of_ne_nil (List.ne_nil_of_length_pos
    (show 0 < ts.length by omega))
  have hindex : xg.scaleAddress p % 128 = 0x41 := by omega
  have hmiddle : s'.middle = p := by
    rw [hs'.middle_eq]
    omega
  rw [XGSysexMap.handle_Multipart, loop_cons XGSysexMap.multipartBody_consumes hs' rfl, hindex,
    XGSysexMap.multipartBody, hmiddle]
  by_cases hp16 : p = midi_chan_all
  · rw [if_pos hp16, hp16, filterChannels_stale rfl rfl]
    rfl
  · rw [if_neg hp16]
    obtain ⟨me, hfilter, -, hengine, -⟩ :=
      filterChannels_eq (create_cacheOk e port) (p := p) (.inl hp16)
    have hcache : (create e port).filterChannels p = .ok (e.assigned port p, me) := hfilter
    have hcount : min (0x44 - ((0x41 : ℕ) : ℤ)) s'.available = (3 : ℕ) := by
      rw [SysexReader.available, hs'.left_eq, hts]
      rfl
    obtain ⟨s₁, hread, -⟩ := hs'.read (n := 3) (by omega)
    have hlen : ((t :: ts').take 3).length ≤ 128 := by
      rw [List.length_take]
      omega
    obtain ⟨buffer, hreceived, -⟩ := XGSysexMap.received_eq hlen
    rw [hcache]
    simp only [bind, Except.bind, if_pos hpart, hcount, hread, hreceived]
    exact congrArg Except.ok hengine

/-! ## Messages with a scale tuning -/

/-- A message with a scale tuning has no effect on the tuning: afterwards it is the one of the
message exactly if it was before. -/
theorem tunedTo_iff (family : Family) (hp : p < family.partCount)
    (hmessage : family.data message = some (family.scaleAddress p, ts)) (hts : ts.length = 12)
    (hpart : e.assigned port p ≠ []) (rest : List UInt8) :
    (∃ e', dispatchSysex e port (message ++ rest) message.length = .ok e' ∧ e'.TunedTo ts) ↔
      e.TunedTo ts ∧ p ≠ midi_chan_all := by
  have hne : ts ≠ [] := List.ne_nil_of_length_pos (by omega)
  obtain ⟨s, hs, hrun⟩ := family.dispatchSysex_eq (π := π) hmessage hne rest
  have hresult : dispatchSysex e port (message ++ rest) message.length =
      if p = midi_chan_all then .error .staleCache
      else .ok { e with renderMode := family.mode } := by
    refine (hrun e port).trans ?_
    cases family with
    | gs =>
        have hp16 : ¬ p = midi_chan_all := Nat.ne_of_lt hp
        rw [if_neg hp16]
        exact dispatch_scale_gs hp hs hts hpart
    | xg => exact dispatch_scale_xg hp hs hts hpart
  rw [hresult]
  by_cases hp16 : p = midi_chan_all
  · rw [if_pos hp16]
    exact iff_of_false (fun ⟨_, herror, _⟩ => nomatch herror) fun hand => hand.2 hp16
  · rw [if_neg hp16]
    constructor
    · rintro ⟨e', he', htuned⟩
      cases he'
      exact ⟨htuned, hp16⟩
    · rintro ⟨htuned, -⟩
      exact ⟨_, rfl, htuned⟩

/-- An XG parameter change with data for an address. -/
def xgMessage (a : ℕ) (data : List UInt8) : List UInt8 :=
  [0xf0, 0x43, 0x10, 0x4c, UInt8.ofNat (a / 2 ^ 14), UInt8.ofNat (a / 2 ^ 7 % 128),
    UInt8.ofNat (a % 128)] ++ data ++ [0xf7]

/-- The tuning of the message is the one of the engine. -/
theorem tunedTo_iff_equal : ∃ e', dispatchSysex { onePart with scaleTuningChanged := true } ()
      (gsMessage (gs.scaleAddress 0) (List.replicate 12 64) ++ [])
      (gsMessage (gs.scaleAddress 0) (List.replicate 12 64)).length = .ok e' ∧
    e'.TunedTo (List.replicate 12 64) :=
  (tunedTo_iff gs (show 0 < 16 by decide) (data_gsMessage (by decide) _) rfl (by decide) []).mpr
    ⟨⟨by decide, rfl⟩, by decide⟩

/-- All semitones are to be tuned by 1 cent, and are left as they are. -/
theorem not_tunedTo_sharp :
    (¬ ∃ e', dispatchSysex onePart () (gsMessage (gs.scaleAddress 0) (List.replicate 12 65) ++ [])
      (gsMessage (gs.scaleAddress 0) (List.replicate 12 65)).length = .ok e' ∧
        e'.TunedTo (List.replicate 12 65)) ∧
    ¬ ∃ e', dispatchSysex onePart () (xgMessage (xg.scaleAddress 0) (List.replicate 12 65) ++ [])
      (xgMessage (xg.scaleAddress 0) (List.replicate 12 65)).length = .ok e' ∧
        e'.TunedTo (List.replicate 12 65) := by
  have hflag (message : List UInt8) (h : ((dispatchSysex onePart () (message ++ [])
      message.length).map (·.scaleTuningChanged)).toOption = some false) :
      ¬ ∃ e', dispatchSysex onePart () (message ++ []) message.length = .ok e' ∧
        e'.TunedTo (List.replicate 12 65) := by
    rintro ⟨e', he', -, hchanged⟩
    rw [he'] at h
    exact absurd (hchanged.symm.trans (Option.some.inj h)) Bool.true_eq_false.mp
  exact ⟨hflag _ (by decide +kernel), hflag _ (by decide +kernel)⟩

end Family

end LinuxSampler
