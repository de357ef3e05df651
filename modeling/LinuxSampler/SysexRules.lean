import LinuxSampler.SysexDispatch

/-!
# Rules for the dispatcher of SysEx messages

Which channels a part has depends on the channels they were assigned to
and on their ports, and no message changes either. A loop of a handler can
be unrolled, since each turn consumes a byte.
-/

namespace LinuxSampler

variable {π : Type}

/-! ## The channels of a part -/

/-- The assignment of a channel is kept. -/
structure EngineChannel.SamePart (c c' : EngineChannel π) : Prop where
  originalMidiChannel_eq : c'.originalMidiChannel = c.originalMidiChannel
  midiInputs_iff : ∀ port, port ∈ c'.midiInputs ↔ port ∈ c.midiInputs

theorem EngineChannel.sendControlChange_samePart (now : ℤ) (Controller Value MidiChannel : UInt8)
    (c : EngineChannel π) : c.SamePart (c.sendControlChange now Controller Value MidiChannel) := by
  simp only [sendControlChange]
  split <;> exact ⟨rfl, fun _ => Iff.rfl⟩

section Parts

variable [DecidableEq π]

/-- The indices of the channels that belong to a part, from `i` on. -/
def matching (port : π) (p : ℕ) : List (EngineChannel π) → ℕ → List ℕ
  | [], _ => []
  | c :: cs, i =>
      if c.originalMidiChannel = p ∧ port ∈ c.midiInputs then i :: matching port p cs (i + 1)
      else matching port p cs (i + 1)

namespace Engine

def assigned (e : Engine π) (port : π) (p : ℕ) : List ℕ := matching port p e.engineChannels 0

/-- What the assignment of the channels depends on. -/
def parts (e : Engine π) (port : π) : List (ℕ × Bool) :=
  e.engineChannels.map fun c => (c.originalMidiChannel, decide (port ∈ c.midiInputs))

/-- A channel that cannot be assigned again. -/
def hasInvalidPart (e : Engine π) : Prop :=
  ∃ c ∈ e.engineChannels, c.originalMidiChannel ≠ midi_chan_none ∧
    ¬ isValidMidiChan c.originalMidiChannel

end Engine

theorem matching_congr {port : π} {p : ℕ} {cs cs' : List (EngineChannel π)} {i : ℕ}
    (h : cs.map (fun c => (c.originalMidiChannel, decide (port ∈ c.midiInputs))) =
      cs'.map fun c => (c.originalMidiChannel, decide (port ∈ c.midiInputs))) :
    matching port p cs i = matching port p cs' i := by
  induction cs generalizing cs' i with
  | nil =>
      have hnil : cs' = [] := List.map_eq_nil_iff.mp h.symm
      rw [hnil]
  | cons c cs ih =>
      cases cs' with
      | nil => simp at h
      | cons c' cs' =>
          simp only [List.map_cons, List.cons.injEq, Prod.mk.injEq, decide_eq_decide] at h
          obtain ⟨⟨hchan, hport⟩, htail⟩ := h
          simp only [matching, hchan, hport, ih htail]

theorem Engine.assigned_congr {e e' : Engine π} {port : π} (h : e.parts port = e'.parts port)
    (p : ℕ) : e.assigned port p = e'.assigned port p :=
  matching_congr h

/-- The cache has room for all channels. -/
theorem SysexMap.fillCache_eq {size : ℕ} (port : π) (p : ℕ) (cs : List (EngineChannel π)) (i : ℕ)
    (cache : List ℕ) (hsize : cache.length + cs.length ≤ size) :
    fillCache size port p cs i cache = .ok (cache ++ matching port p cs i) := by
  induction cs generalizing i cache with
  | nil => simp [fillCache, matching]
  | cons c cs ih =>
      rw [List.length_cons] at hsize
      simp only [fillCache, matching]
      split
      · rw [if_pos (by omega), ih _ _ (by rw [List.length_append, List.length_singleton]; omega),
          List.append_assoc]
        rfl
      · exact ih _ _ (by omega)

namespace SysexMap

/-- The cache has the channels of the part it was filled for. -/
structure Filled (me : SysexMap π) (p : ℕ) : Prop where
  channel_eq : me.channel = p
  cache_eq : me.cache = some (me.engine.assigned me.sourcePort p)

/-- The cache is as it was created, or filled. -/
def CacheOk (me : SysexMap π) : Prop :=
  me.channel = midi_chan_all ∧ me.cache = none ∨ ∃ p, me.Filled p

theorem create_cacheOk (e : Engine π) (port : π) : (create e port).CacheOk := .inl ⟨rfl, rfl⟩

/-- Whatever part the cache was filled for. -/
theorem filterChannels_eq {me : SysexMap π} {p : ℕ} (hme : me.CacheOk)
    (hp : p ≠ midi_chan_all ∨ me.cache ≠ none) :
    ∃ me', me.filterChannels p = .ok (me.engine.assigned me.sourcePort p, me') ∧
      me'.Filled p ∧ me'.engine = me.engine ∧ me'.sourcePort = me.sourcePort := by
  have hroom : ([] : List ℕ).length + me.engine.engineChannels.length ≤
      me.engine.channelsCacheSize := by
    simp [Engine.channelsCacheSize]
  have hfill := fillCache_eq me.sourcePort p me.engine.engineChannels 0 [] hroom
  by_cases hchan : me.channel = p
  · obtain ⟨hall, hnone⟩ | ⟨q, hq⟩ := hme
    · rcases hp with hp | hp
      · exact absurd (hchan.symm.trans hall) hp
      · exact absurd hnone hp
    · have hqp : q = p := hq.channel_eq.symm.trans hchan
      rw [hqp] at hq
      refine ⟨me, ?_, hq, rfl, rfl⟩
      rw [filterChannels, if_neg (not_not.mpr hchan), hq.cache_eq]
  · refine ⟨{ me with channel := p, cache := some (me.engine.assigned me.sourcePort p) }, ?_,
      ⟨rfl, rfl⟩, rfl, rfl⟩
    rw [filterChannels, if_pos hchan, hfill]
    rfl

theorem filterChannels_stale {me : SysexMap π} (hchan : me.channel = midi_chan_all)
    (hcache : me.cache = none) : me.filterChannels midi_chan_all = .error .staleCache := by
  rw [filterChannels, if_neg (not_not.mpr hchan), hcache]

/-! ## What a message keeps -/

/-- A step keeps the parts, and the cache as it is. -/
structure Keeps (me me' : SysexMap π) : Prop where
  sourcePort_eq : me'.sourcePort = me.sourcePort
  channel_eq : me'.channel = me.channel
  cache_eq : me'.cache = me.cache
  parts_eq : me'.engine.parts me.sourcePort = me.engine.parts me.sourcePort

namespace Keeps

variable {me me' me'' : SysexMap π}

theorem refl (me : SysexMap π) : Keeps me me := ⟨rfl, rfl, rfl, rfl⟩

theorem trans (h : Keeps me me') (h' : Keeps me' me'') : Keeps me me'' := by
  refine ⟨h'.sourcePort_eq.trans h.sourcePort_eq, h'.channel_eq.trans h.channel_eq,
    h'.cache_eq.trans h.cache_eq, ?_⟩
  have hparts := h'.parts_eq
  rw [h.sourcePort_eq] at hparts
  exact hparts.trans h.parts_eq

theorem assigned_eq (h : Keeps me me') (p : ℕ) :
    me'.engine.assigned me'.sourcePort p = me.engine.assigned me.sourcePort p := by
  rw [h.sourcePort_eq]
  exact Engine.assigned_congr h.parts_eq p

theorem filled (h : Keeps me me') {p : ℕ} (hp : me.Filled p) : me'.Filled p :=
  ⟨h.channel_eq.trans hp.channel_eq, by rw [h.cache_eq, hp.cache_eq, h.assigned_eq]⟩

theorem cacheOk (h : Keeps me me') (hme : me.CacheOk) : me'.CacheOk := by
  obtain ⟨hchan, hcache⟩ | ⟨p, hp⟩ := hme
  · exact .inl ⟨h.channel_eq.trans hchan, h.cache_eq.trans hcache⟩
  · exact .inr ⟨p, h.filled hp⟩

end Keeps

end SysexMap

theorem Engine.modifyChannel_parts {f : EngineChannel π → EngineChannel π}
    (hf : ∀ c : EngineChannel π, c.SamePart (f c)) (e : Engine π) (i : ℕ) (port : π) :
    (e.modifyChannel f i).parts port = e.parts port := by
  refine List.ext_getElem? fun j => ?_
  simp only [parts, modifyChannel, List.getElem?_map, List.getElem?_modify]
  cases e.engineChannels[j]? with
  | none => rfl
  | some c =>
      by_cases hij : i = j
      · simp [hij, (hf c).originalMidiChannel_eq, (hf c).midiInputs_iff]
      · simp [hij]

theorem SysexMap.forEach_keeps {f : EngineChannel π → EngineChannel π}
    (hf : ∀ c : EngineChannel π, c.SamePart (f c)) (cache : List ℕ) (me : SysexMap π) :
    me.Keeps (me.forEach f cache) := by
  refine ⟨rfl, rfl, rfl, ?_⟩
  show (cache.foldl (Engine.modifyChannel f) me.engine).parts _ = _
  generalize me.engine = e
  induction cache generalizing e with
  | nil => rfl
  | cons i cache ih =>
      rw [List.foldl_cons, ih, Engine.modifyChannel_parts hf]

theorem SysexMap.forEachCC_keeps (cc_number cc_value : UInt8) (cache : List ℕ) (me : SysexMap π) :
    me.Keeps (me.forEachCC cc_number cc_value cache) :=
  forEach_keeps (EngineChannel.sendControlChange_samePart _ _ _ _) cache me

/-! ## The reset -/

theorem EngineChannel.mem_foldl_connect (ports : List π) (connections : List π) (port : π) :
    port ∈ ports.foldl connect connections ↔ port ∈ connections ∨ port ∈ ports := by
  induction ports generalizing connections with
  | nil => simp
  | cons p ports ih =>
      have hconnect : port ∈ connect connections p ↔ port ∈ connections ∨ port = p := by
        rw [connect]
        split
        · rename_i hp
          exact ⟨.inl, fun h => h.elim id fun heq => heq ▸ hp⟩
        · rw [List.mem_append, List.mem_singleton]
      rw [List.foldl_cons, ih, hconnect, List.mem_cons]
      tauto

/-- One channel of `ResetMidiMode()`. -/
theorem EngineChannel.reassign (mode : MidiMode) (c : EngineChannel π) :
    (c.originalMidiChannel ≠ midi_chan_none ∧ ¬ isValidMidiChan c.originalMidiChannel ∧
      (if c.originalMidiChannel ≠ midi_chan_all then
        { c with midiChannel := midi_chan_none }.setMidiChannel mode c.originalMidiChannel
      else .ok c) = .error .midiInputException) ∨
    ((c.originalMidiChannel = midi_chan_none ∨ isValidMidiChan c.originalMidiChannel) ∧
      ∃ c', (if c.originalMidiChannel ≠ midi_chan_all then
        { c with midiChannel := midi_chan_none }.setMidiChannel mode c.originalMidiChannel
      else .ok c) = .ok c' ∧ c.SamePart c') := by
  by_cases hall : c.originalMidiChannel = midi_chan_all
  · exact .inr ⟨.inr (by simp [isValidMidiChan, hall]), c, by rw [if_neg (not_not.mpr hall)],
      rfl, fun _ => Iff.rfl⟩
  · by_cases hnone : c.originalMidiChannel = midi_chan_none
    · refine .inr ⟨.inl hnone, { c with midiChannel := midi_chan_none }, ?_, rfl, fun _ => Iff.rfl⟩
      rw [if_pos hall, setMidiChannel, if_pos hnone.symm]
    · by_cases hvalid : isValidMidiChan c.originalMidiChannel
      · refine .inr ⟨.inr hvalid, ?_⟩
        rw [if_pos hall, setMidiChannel, if_neg (Ne.symm hnone), if_neg (not_not.mpr hvalid)]
        refine ⟨_, rfl, ?_⟩
        constructor
        · dsimp only
          split <;> rfl
        · intro port
          dsimp only
          split <;> simp [mem_foldl_connect]
      · refine .inl ⟨hnone, hvalid, ?_⟩
        rw [if_pos hall, setMidiChannel, if_neg (Ne.symm hnone), if_pos hvalid]

theorem Engine.mapM_reassign (mode : MidiMode) (cs : List (EngineChannel π)) (port : π) :
    ((∃ c ∈ cs, c.originalMidiChannel ≠ midi_chan_none ∧
        ¬ isValidMidiChan c.originalMidiChannel) ∧
      (cs.mapM fun c => if c.originalMidiChannel ≠ midi_chan_all then
        { c with midiChannel := midi_chan_none }.setMidiChannel mode c.originalMidiChannel
        else .ok c) = .error .midiInputException) ∨
    ((¬ ∃ c ∈ cs, c.originalMidiChannel ≠ midi_chan_none ∧
        ¬ isValidMidiChan c.originalMidiChannel) ∧
      ∃ cs', (cs.mapM fun c => if c.originalMidiChannel ≠ midi_chan_all then
        { c with midiChannel := midi_chan_none }.setMidiChannel mode c.originalMidiChannel
        else .ok c) = .ok cs' ∧
        cs'.map (fun c => (c.originalMidiChannel, decide (port ∈ c.midiInputs))) =
          cs.map fun c => (c.originalMidiChannel, decide (port ∈ c.midiInputs))) := by
  induction cs with
  | nil => exact .inr ⟨by simp, [], rfl, rfl⟩
  | cons c cs ih =>
      rw [List.mapM_cons]
      obtain ⟨hnone, hvalid, herr⟩ | ⟨hc, c', hok, hpart⟩ := c.reassign mode
      · exact .inl ⟨⟨c, List.mem_cons_self, hnone, hvalid⟩, by rw [herr]; rfl⟩
      · rw [hok]
        obtain ⟨⟨d, hd, hbad⟩, herr⟩ | ⟨hgood, cs', hok', hparts⟩ := ih
        · exact .inl ⟨⟨d, List.mem_cons_of_mem _ hd, hbad⟩, by rw [herr]; rfl⟩
        · refine .inr ⟨?_, c' :: cs', by rw [hok']; rfl, ?_⟩
          · rintro ⟨d, hd, hbad⟩
            rcases List.mem_cons.mp hd with rfl | hd
            · exact hc.elim hbad.1 fun hvalid => hbad.2 hvalid
            · exact hgood ⟨d, hd, hbad⟩
          · simp only [List.map_cons, hparts, hpart.originalMidiChannel_eq, hpart.midiInputs_iff]

/-- The reset fails if a channel cannot be assigned again, and keeps the
parts otherwise. -/
theorem Engine.resetMidiMode_cases (mode : MidiMode) (e : Engine π) (port : π) :
    (e.hasInvalidPart ∧ e.resetMidiMode mode = .error .midiInputException) ∨
      (¬ e.hasInvalidPart ∧ ∃ e', e.resetMidiMode mode = .ok e' ∧
        e'.parts port = e.parts port) := by
  obtain ⟨hbad, herr⟩ | ⟨hgood, cs', hok, hparts⟩ :=
    mapM_reassign mode e.engineChannels port
  · exact .inl ⟨hbad, by rw [resetMidiMode, herr]; rfl⟩
  · refine .inr ⟨hgood, _, by rw [resetMidiMode, hok]; rfl, ?_⟩
    show (cs'.map EngineChannel.resetInternal).map _ = e.parts port
    rw [List.map_map]
    exact hparts

/-! ## The table -/

end Parts

namespace SysexMap

variable {me : SysexMap π} {s : SysexReader} {a : ℕ} {b : UInt8} {data : List UInt8}
  {block : AddressBlock π} {map : List (AddressBlock π)}

theorem dispatch_nil (map : List (AddressBlock π)) (me : SysexMap π) (h : s.Has a []) :
    dispatch map me s = .ok me := by
  cases map with
  | nil => rfl
  | cons block map =>
      rw [dispatch, if_pos (by simp [h.toBool_nil])]

/-- The block was passed already. -/
theorem dispatch_past (h : s.Has a data) (hmax : block.max < a) :
    dispatch (block :: map) me s = dispatch map me s := by
  cases data with
  | nil => rw [dispatch_nil _ _ h, dispatch_nil _ _ h]
  | cons b data =>
      rw [dispatch, if_neg (by simp [h.toBool_cons]), if_pos (by rwa [h.address_eq])]

/-- The message ends before the block. -/
theorem dispatch_end (block : AddressBlock π) (map : List (AddressBlock π)) (me : SysexMap π)
    (h : s.Has a data) (hmax : a ≤ block.max) (hend : data.length ≤ block.min - a) :
    dispatch (block :: map) me s = .ok me := by
  cases data with
  | nil => exact dispatch_nil _ _ h
  | cons b data =>
      rw [List.length_cons] at hend
      have hskip : (s.add (block.min - a)).toBool = false := by
        by_cases hover : (b :: data).length < block.min - a
        · exact (h.add_over hover).toBool_nil
        · have hadd := h.add (not_lt.mp hover)
          rw [List.drop_of_length_le (by rwa [List.length_cons])] at hadd
          exact hadd.toBool_nil
      have hskip' : (if block.min > s.address then s.add (block.min - s.address) else s).toBool =
          false := by
        rw [h.address_eq, if_pos (by omega)]
        exact hskip
      rw [dispatch, if_neg (by simp [h.toBool_cons]), if_neg (by rw [h.address_eq]; omega),
        if_pos (by simp [hskip'])]

/-- The handler gets what of the message lies in the block or after it. -/
theorem dispatch_enter (block : AddressBlock π) (map : List (AddressBlock π)) (me : SysexMap π)
    (h : s.Has a data) (hmax : a ≤ block.max)
    (hin : block.min - a < data.length) :
    ∃ s', s'.Has (max a block.min) (data.drop (block.min - a)) ∧
      dispatch (block :: map) me s = (do
        let (go, me, reader) ← block.handler me s'
        if ¬ go then return me
        dispatch map me reader) := by
  obtain ⟨s', hs', hhas⟩ : ∃ s', (if block.min > s.address then s.add (block.min - s.address)
      else s) = s' ∧ s'.Has (max a block.min) (data.drop (block.min - a)) := by
    refine ⟨_, rfl, ?_⟩
    rw [h.address_eq]
    split
    · have hadd := h.add hin.le
      rwa [show a + (block.min - a) = max a block.min by omega] at hadd
    · rw [show max a block.min = a by omega, show block.min - a = 0 by omega, List.drop_zero]
      exact h
  have hdata : data ≠ [] := by
    rintro rfl
    simp at hin
  have hrest : data.drop (block.min - a) ≠ [] := by
    rw [Ne, List.drop_eq_nil_iff]
    omega
  refine ⟨s', hhas, ?_⟩
  rw [dispatch, if_neg (by simp [h.toBool_eq, hdata]), if_neg (by rw [h.address_eq]; omega), hs',
    if_neg (by simp [hhas.toBool_eq, hrest])]

/-! ## Loops of the handlers -/

/-- A turn of the loop consumes a byte at least. -/
def Consumes (body : ℕ → SysexHandler π) : Prop :=
  ∀ ⦃me : SysexMap π⦄ ⦃s : SysexReader⦄ ⦃a : ℕ⦄ ⦃b : UInt8⦄ ⦃data : List UInt8⦄ ⦃go : Bool⦄
    ⦃me' : SysexMap π⦄ ⦃s' : SysexReader⦄, s.Has a (b :: data) →
    body (a % 128) me s = .ok (go, me', s') → go = true →
    ∃ a' data', s'.Has a' data' ∧ data'.length ≤ data.length

variable {guard : ℕ → Bool} {body : ℕ → SysexHandler π}

theorem whileIndex_fuel (hbody : Consumes body) {fuel fuel' : ℕ} (h : s.Has a data)
    (hfuel : data.length < fuel) (hfuel' : data.length < fuel') :
    whileIndex guard body fuel me s = whileIndex guard body fuel' me s := by
  induction fuel generalizing fuel' me s a data with
  | zero => omega
  | succ fuel ih =>
      cases fuel' with
      | zero => omega
      | succ fuel' =>
          simp only [whileIndex]
          split
          · rename_i hguard
            cases data with
            | nil => simp [h.toBool_nil] at hguard
            | cons b data =>
                simp only [List.length_cons] at hfuel hfuel'
                rw [h.index_eq]
                cases hrun : body (a % 128) me s with
                | error => rfl
                | ok r =>
                    obtain ⟨go, me', s'⟩ := r
                    cases go with
                    | false => rfl
                    | true =>
                        obtain ⟨a', data', h', hlen⟩ := hbody h hrun rfl
                        exact ih h' (by omega) (by omega)
          · rfl

theorem loop_nil (h : s.Has a []) : loop guard body me s = .ok (true, me, s) := by
  rw [loop, whileIndex, if_neg (by simp [h.toBool_nil])]

theorem loop_stop (h : s.Has a data) (hguard : guard (a % 128) = false) :
    loop guard body me s = .ok (true, me, s) := by
  rw [loop, whileIndex, if_neg (by simp [h.index_eq, hguard])]

/-- One turn of the loop. -/
theorem loop_cons (hbody : Consumes body) (h : s.Has a (b :: data))
    (hguard : guard (a % 128) = true) :
    loop guard body me s = (do
      let (go, me, s) ← body (a % 128) me s
      if ¬ go then return (false, me, s)
      loop guard body me s) := by
  rw [loop, whileIndex, if_pos (by simp [h.toBool_cons, h.index_eq, hguard]), h.index_eq]
  cases hrun : body (a % 128) me s with
  | error => rfl
  | ok r =>
      obtain ⟨go, me', s'⟩ := r
      cases go with
      | false => rfl
      | true =>
          obtain ⟨a', data', h', hlen⟩ := hbody h hrun rfl
          have hleft := h.left_eq
          have hleft' := h'.left_eq
          rw [List.length_cons] at hleft
          exact whileIndex_fuel hbody h' (by omega) (by omega)

end SysexMap

end LinuxSampler
