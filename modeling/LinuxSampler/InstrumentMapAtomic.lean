import LinuxSampler.InstrumentMapper
import LinuxSampler.ResourceManager
import LinuxSampler.SamplerChannel
import Mathlib.Data.String.Basic

/-!
# Adding a mapping

`AddOrReplaceEntry()` with what it does outside of the maps: it creates an
engine to get at the instrument manager of the engine type, which it orders to
change the availability mode of the instrument, and destroys the engine in the
end. An order in the background is left to a thread.
-/

namespace LinuxSampler

/-- `EngineFactory::Create()`, by the format of the engine. -/
def engineFactoryCreate (HAVE_SF2 : Bool) (EngineType : String) : Except String EngineFormat :=
  if equalsIgnoringCase EngineType "GigEngine" || equalsIgnoringCase EngineType "gig" then .ok .GIG
  else if equalsIgnoringCase EngineType "sf2" then
    if HAVE_SF2 then .ok .SF2 else .error "LinuxSampler is not compiled with SF2 support"
  else if equalsIgnoringCase EngineType "sfz" then .ok .SFZ
  else .error "Unknown engine type"

/-- `instrument_id_t`: the index is compared before the file name. -/
abbrev InstrumentID := ℕ ×ₗ String

/-- A `command_t` of type `INSTR_MODE` in the queue of the `InstrumentManagerThread`. -/
structure ModeCommand where
  format : EngineFormat
  instrumentId : InstrumentID
  mode : ℤ

/-- The maps with the instrument managers of the engine types. `engines` are the engine objects,
by the order in which they were created. -/
structure MapperSystem (V ρ γ α : Type*) where
  mapper : MidiInstrumentMapper V
  instruments : EngineFormat → ResourceManager InstrumentID ρ γ α
  queue : List ModeCommand
  engines : List ℕ
  nextEngine : ℕ

namespace MapperSystem

variable {V ρ γ α : Type*}

/-! ## The engines and their instrument managers -/

def createEngine (s : MapperSystem V ρ γ α) : MapperSystem V ρ γ α :=
  { s with engines := s.nextEngine :: s.engines, nextEngine := s.nextEngine + 1 }

/-- `EngineFactory::Destroy()` -/
def destroyEngine (engine : ℕ) (s : MapperSystem V ρ γ α) : MapperSystem V ρ γ α :=
  { s with engines := s.engines.erase engine }

def getMode (s : MapperSystem V ρ γ α) (format : EngineFormat) (id : InstrumentID) :
    Except String Mode :=
  ((s.instruments format).availabilityMode id true).result

/-- `create` is what `Create()` of the instrument manager does, if it is called. -/
def setMode (s : MapperSystem V ρ γ α) (format : EngineFormat) (id : InstrumentID) (mode : ℤ)
    (create : Creation ρ α) : Except String Unit × MapperSystem V ρ γ α :=
  let out := (s.instruments format).setAvailabilityMode id mode create true
  (out.result, { s with instruments := Function.update s.instruments format out.manager })

def setModeInBackground (s : MapperSystem V ρ γ α) (format : EngineFormat) (id : InstrumentID)
    (mode : ℤ) : MapperSystem V ρ γ α :=
  { s with queue := s.queue ++ [⟨format, id, mode⟩] }

/-! ## AddOrReplaceEntry() -/

/-- The value of a `mode_t` of the mapper, to which it is cast. -/
def modeValue : MidiInstrumentMapper.Mode → ℤ
  | .onDemand => 0
  | .onDemandHold => 1
  | .persistent => 2
  | .dontCare => 127

def instrumentOf (entry : MidiInstrumentMapper.Entry V) : InstrumentID :=
  toLex (entry.instrumentIndex, entry.instrumentFile)

/-- Every engine type has an instrument manager. -/
def changeMode (s : MapperSystem V ρ γ α) (format : EngineFormat)
    (entry : MidiInstrumentMapper.Entry V) (inBackground : Bool) (create : Creation ρ α) :
    Except String Unit × MapperSystem V ρ γ α :=
  if entry.loadMode = .dontCare then (.ok (), s)
  else if inBackground then
    (.ok (), s.setModeInBackground format (instrumentOf entry) (modeValue entry.loadMode))
  else s.setMode format (instrumentOf entry) (modeValue entry.loadMode) create

/-- The entry with the official name of the engine. -/
def privateEntry (format : EngineFormat) (entry : MidiInstrumentMapper.Entry V) :
    MidiInstrumentMapper.PrivateEntry V where
  engineName := format.name
  instrumentFile := entry.instrumentFile
  instrumentIndex := entry.instrumentIndex
  volume := entry.volume
  name := entry.name

/-- What follows once the engine is created. -/
def addWithEngine (s : MapperSystem V ρ γ α) (format : EngineFormat) (map : ℤ)
    (index : MidiProgIndex) (entry : MidiInstrumentMapper.Entry V) (inBackground : Bool)
    (create : Creation ρ α) : Except String Unit × MapperSystem V ρ γ α :=
  match s.createEngine.changeMode format entry inBackground create with
  | (.error message, s') => (.error message, s')
  | (.ok (), s') =>
      let (result, mapper) := s'.mapper.storeEntry map index (privateEntry format entry)
      (result, { s' with mapper := mapper }.destroyEngine s.nextEngine)

def addOrReplaceEntry (HAVE_SF2 : Bool) (negative : V → Bool) (s : MapperSystem V ρ γ α) (map : ℤ)
    (index : MidiProgIndex) (entry : MidiInstrumentMapper.Entry V) (inBackground : Bool)
    (create : Creation ρ α) : Except String Unit × MapperSystem V ρ γ α :=
  if s.mapper.midiMaps.entries.isEmpty then
    (.error "There is no MIDI instrument map, you have to add one first.", s)
  else if entry.instrumentFile.isEmpty then (.error "No instrument file name given", s)
  else if negative entry.volume then (.error "Volume may not be a negative value", s)
  else
    match engineFactoryCreate HAVE_SF2 entry.engineName with
    | .error message => (.error message, s)
    | .ok format => s.addWithEngine format map index entry inBackground create

/-! ## Atomicity -/

/-- Nothing is left of a call: not in the maps, not in the modes of the instruments, and no engine.
The queue of what is to be loaded in the background counts as well: what is put there by a call
that throws is carried out later. -/
structure Unchanged (s s' : MapperSystem V ρ γ α) : Prop where
  mapper : s'.mapper = s.mapper
  modes : ∀ format id, s'.getMode format id = s.getMode format id
  queue : s'.queue = s.queue
  engines : s'.engines = s.engines

/-- Exactly the index of the map has the entry. But for that only the mode of the instrument may
have been changed, or will be. -/
structure Stored (s s' : MapperSystem V ρ γ α) (format : EngineFormat) (map : ℤ)
    (index : MidiProgIndex) (entry : MidiInstrumentMapper.Entry V) : Prop where
  stored : ∃ m m', s.mapper.midiMaps.find map = some m ∧ s'.mapper.midiMaps.find map = some m' ∧
    m'.name = m.name ∧ m'.entries.find index = some (privateEntry format entry) ∧
    ∀ j, j ≠ index → m'.entries.find j = m.entries.find j
  maps : ∀ j, j ≠ map → s'.mapper.midiMaps.find j = s.mapper.midiMaps.find j
  defaultMap : s'.mapper.defaultMap = s.mapper.defaultMap
  modes : ∀ format' id, format' ≠ format ∨ id ≠ instrumentOf entry →
    s'.getMode format' id = s.getMode format' id
  queue : s'.queue = s.queue ∨
    s'.queue = s.queue ++ [⟨format, instrumentOf entry, modeValue entry.loadMode⟩]
  engines : s'.engines = s.engines

section Call

variable (HAVE_SF2 : Bool) (negative : V → Bool) (s : MapperSystem V ρ γ α) (map : ℤ)
  (index : MidiProgIndex) (entry : MidiInstrumentMapper.Entry V) (inBackground : Bool)
  (create : Creation ρ α)

/-- The call throws and changes nothing, or it returns and has stored the entry. -/
def IsAtomic : Prop :=
  let out := s.addOrReplaceEntry HAVE_SF2 negative map index entry inBackground create
  (∀ message, out.1 = .error message → Unchanged s out.2) ∧
    (out.1 = .ok () → ∃ format, engineFactoryCreate HAVE_SF2 entry.engineName = .ok format ∧
      Stored s out.2 format map index entry)

/-- The checks that come before the engine are passed, and an engine is created. -/
def Accepts (format : EngineFormat) : Prop :=
  s.mapper.midiMaps.entries.isEmpty = false ∧ entry.instrumentFile.isEmpty = false ∧
    negative entry.volume = false ∧ engineFactoryCreate HAVE_SF2 entry.engineName = .ok format

/-- A persistent instrument that is not there cannot be loaded. -/
def LoadFails (format : EngineFormat) : Prop :=
  entry.loadMode = .persistent ∧
    ((s.instruments format).find (instrumentOf entry)).bind (·.resource) = none ∧
    ∃ message, create.resource = .error message

/-- There is no mode to change, or the map exists and the mode can be changed, or the mode is
what it is changed to. -/
def ChangeIsSafe (format : EngineFormat) : Prop :=
  entry.loadMode = .dontCare ∨
    (inBackground = true ∧ (s.mapper.midiMaps.find map).isSome) ∨
    (inBackground = false ∧ ¬ LoadFails s entry create format ∧
      ((s.mapper.midiMaps.find map).isSome ∨
        some (s.getMode format (instrumentOf entry)) =
          (Mode.ofInt (modeValue entry.loadMode)).map .ok))

end Call

/-! ## The mode of an instrument -/

section manager

variable {M : ResourceManager InstrumentID ρ γ α} {key : InstrumentID}
  {entry : ResourceEntry InstrumentID ρ γ α} {create : Creation ρ α}

/-- The mode of an instrument that the manager does not know is the default. -/
def modeOf (entry : Option (ResourceEntry InstrumentID ρ γ α)) : Mode :=
  entry.elim .onDemand (·.mode)

variable (M key entry create) in
theorem createIfPersistent_find :
    (∃ e, (M.createIfPersistent key entry create true).manager.find key = some e ∧
        e.mode = entry.mode) ∧
      ∀ j, j ≠ key → (M.createIfPersistent key entry create true).manager.find j = M.find j := by
  have hput (e : ResourceEntry InstrumentID ρ γ α) (he : e.mode = entry.mode) :
      (∃ e', ((M.put key e).unlock true).find key = some e' ∧ e'.mode = entry.mode) ∧
        ∀ j, j ≠ key → ((M.put key e).unlock true).find j = M.find j := by
    refine ⟨⟨e, ?_, he⟩, fun j hj => ?_⟩
    · rw [ResourceManager.find_unlock, ResourceManager.find_put_self]
    · rw [ResourceManager.find_unlock, ResourceManager.find_put_of_ne hj]
  unfold ResourceManager.createIfPersistent
  split
  · split
    · exact hput _ rfl
    · exact hput _ rfl
  · exact hput _ rfl

theorem createIfPersistent_error_iff :
    (∃ message, (M.createIfPersistent key entry create true).result = .error message) ↔
      entry.mode = .persistent ∧ entry.resource = none ∧
        ∃ message, create.resource = .error message := by
  unfold ResourceManager.createIfPersistent
  split
  · next h =>
    split
    · next message hcreate => exact iff_of_true ⟨message, rfl⟩ ⟨h.1, h.2, message, hcreate⟩
    · next resource hcreate =>
      refine iff_of_false ?_ ?_
      · rintro ⟨_, h⟩
        cases h
      · rintro ⟨-, -, _, h⟩
        rw [hcreate] at h
        cases h
  · next h =>
    refine iff_of_false ?_ fun h' => h ⟨h'.1, h'.2.1⟩
    rintro ⟨_, h⟩
    cases h

end manager

section setAvailabilityMode

variable {M : ResourceManager InstrumentID ρ γ α} {key : InstrumentID} {create : Creation ρ α}
  {value : ℤ} {mode : Mode}

variable (M key create) in
theorem setAvailabilityMode_find (hmode : Mode.ofInt value = some mode) :
    modeOf ((M.setAvailabilityMode key value create true).manager.find key) = mode ∧
      ∀ j, j ≠ key → (M.setAvailabilityMode key value create true).manager.find j = M.find j := by
  unfold ResourceManager.setAvailabilityMode
  rw [hmode]
  dsimp only
  rw [ResourceManager.find_lock]
  cases hfind : M.find key with
  | none =>
    dsimp only
    split
    · next hdemand =>
      refine ⟨?_, fun j _ => ?_⟩
      · rw [ResourceManager.returns, ResourceManager.find_unlock, ResourceManager.find_lock, hfind]
        exact hdemand.symm
      · rw [ResourceManager.returns, ResourceManager.find_unlock, ResourceManager.find_lock]
    · obtain ⟨⟨e, he, hm⟩, hother⟩ := createIfPersistent_find (M.lock true) key _ create
      refine ⟨?_, fun j hj => (hother j hj).trans ResourceManager.find_lock⟩
      rw [he]
      exact hm
  | some entry =>
    dsimp only
    split
    · next hdemand =>
      refine ⟨?_, fun j hj => ?_⟩
      · rw [ResourceManager.returns, ResourceManager.find_unlock, ResourceManager.find_erase_self]
        exact hdemand.1.symm
      · rw [ResourceManager.returns, ResourceManager.find_unlock,
          ResourceManager.find_erase_of_ne hj, ResourceManager.find_lock]
    · obtain ⟨⟨e, he, hm⟩, hother⟩ := createIfPersistent_find (M.lock true) key _ create
      refine ⟨?_, fun j hj => (hother j hj).trans ResourceManager.find_lock⟩
      rw [he]
      exact hm

/-- The call throws if the resource has to be created and cannot be. -/
theorem setAvailabilityMode_error_iff (hmode : Mode.ofInt value = some mode) :
    (∃ message, (M.setAvailabilityMode key value create true).result = .error message) ↔
      mode = .persistent ∧ (M.find key).bind (·.resource) = none ∧
        ∃ message, create.resource = .error message := by
  have hdemand (hm : mode = .onDemand) :
      ¬ (mode = .persistent ∧ (M.find key).bind (·.resource) = none ∧
        ∃ message, create.resource = .error message) := fun h => by
    rw [hm] at h
    cases h.1
  unfold ResourceManager.setAvailabilityMode
  rw [hmode]
  dsimp only
  rw [ResourceManager.find_lock]
  cases hfind : M.find key with
  | none =>
    rw [hfind] at hdemand
    dsimp only
    split
    · next hm =>
      refine iff_of_false ?_ (hdemand hm)
      rintro ⟨_, h⟩
      cases h
    · rw [createIfPersistent_error_iff]
      rfl
  | some entry =>
    rw [hfind] at hdemand
    dsimp only
    split
    · next hm =>
      refine iff_of_false ?_ (hdemand hm.1)
      rintro ⟨_, h⟩
      cases h
    · rw [createIfPersistent_error_iff]
      rfl

end setAvailabilityMode

section step

variable {s s' : MapperSystem V ρ γ α} {format : EngineFormat} {id : InstrumentID} {map : ℤ}
  {index : MidiProgIndex} {entry : MidiInstrumentMapper.Entry V} {inBackground : Bool}
  {create : Creation ρ α} {mode : Mode}

theorem getMode_eq : s.getMode format id = .ok (modeOf ((s.instruments format).find id)) := by
  unfold getMode ResourceManager.availabilityMode
  dsimp only
  rw [ResourceManager.find_lock]
  cases (s.instruments format).find id <;> rfl

variable (s format id create) in
theorem getMode_setMode (hmode : Mode.ofInt (modeValue entry.loadMode) = some mode) :
    let s' := (s.setMode format id (modeValue entry.loadMode) create).2
    s'.getMode format id = .ok mode ∧
      ∀ format' j, format' ≠ format ∨ j ≠ id → s'.getMode format' j = s.getMode format' j := by
  obtain ⟨hid, hother⟩ :=
    setAvailabilityMode_find (s.instruments format) id create hmode
  refine ⟨?_, fun format' j h => ?_⟩
  · rw [getMode_eq]
    unfold setMode
    dsimp only
    rw [Function.update_self, hid]
  · rw [getMode_eq, getMode_eq]
    unfold setMode
    dsimp only
    by_cases hf : format' = format
    · rw [hf, Function.update_self, hother j (h.resolve_left (· hf))]
    · rw [Function.update_of_ne hf]

/-- Where a mode is given, it is one that an instrument can have. -/
theorem exists_mode (h : entry.loadMode ≠ .dontCare) :
    ∃ mode, Mode.ofInt (modeValue entry.loadMode) = some mode := by
  cases hmode : entry.loadMode with
  | onDemand => exact ⟨_, rfl⟩
  | onDemandHold => exact ⟨_, rfl⟩
  | persistent => exact ⟨_, rfl⟩
  | dontCare => exact absurd hmode h

theorem persistent_iff (hmode : Mode.ofInt (modeValue entry.loadMode) = some mode) :
    entry.loadMode = .persistent ↔ mode = .persistent := by
  cases h : entry.loadMode with
  | onDemand =>
    rw [h] at hmode
    cases hmode
    simp
  | onDemandHold =>
    rw [h] at hmode
    cases hmode
    simp
  | persistent =>
    rw [h] at hmode
    cases hmode
    simp
  | dontCare =>
    rw [h] at hmode
    cases hmode

/-! ## The call -/

/-- What is wanted of a call that creates an engine. -/
def Keeps (s : MapperSystem V ρ γ α) (format : EngineFormat) (map : ℤ) (index : MidiProgIndex)
    (entry : MidiInstrumentMapper.Entry V) (out : Except String Unit × MapperSystem V ρ γ α) :
    Prop :=
  (∀ message, out.1 = .error message → Unchanged s out.2) ∧
    (out.1 = .ok () → Stored s out.2 format map index entry)

/-- The mode is changed, or will be; the rest is as it was when the engine was created. -/
structure Changed (s s' : MapperSystem V ρ γ α) (format : EngineFormat)
    (entry : MidiInstrumentMapper.Entry V) : Prop where
  mapper : s'.mapper = s.mapper
  engines : s'.engines = s.nextEngine :: s.engines
  modes : ∀ format' id, format' ≠ format ∨ id ≠ instrumentOf entry →
    s'.getMode format' id = s.getMode format' id
  queue : s'.queue = s.queue ∨
    s'.queue = s.queue ++ [⟨format, instrumentOf entry, modeValue entry.loadMode⟩]

/-- Once the mode is changed, only the change itself can be left over. -/
theorem Changed.keeps_iff
    (h : s.createEngine.changeMode format entry inBackground create = (.ok (), s'))
    (hs : Changed s s' format entry) :
    Keeps s format map index entry (s.addWithEngine format map index entry inBackground create) ↔
      (s.mapper.midiMaps.find map).isSome ∨
        (∀ format' id, s'.getMode format' id = s.getMode format' id) ∧ s'.queue = s.queue := by
  have hengines : s'.engines.erase s.nextEngine = s.engines := by
    rw [hs.engines, List.erase_cons_head]
  unfold addWithEngine
  rw [h]
  dsimp only
  unfold MidiInstrumentMapper.storeEntry
  rw [hs.mapper]
  cases hmap : s.mapper.midiMaps.find map with
  | none =>
    rw [Option.isSome_none, Bool.false_eq_true, false_or]
    constructor
    · intro hkeeps
      have hunchanged := hkeeps.1 _ rfl
      exact ⟨hunchanged.modes, hunchanged.queue⟩
    · rintro ⟨hmodes, hqueue⟩
      refine ⟨fun _ _ => ⟨rfl, hmodes, hqueue, hengines⟩, ?_⟩
      intro hok
      cases hok
  | some m =>
    refine iff_of_true ⟨?_, fun _ => ?_⟩ (Or.inl rfl)
    · intro _ herror
      cases herror
    · refine ⟨⟨m, _, hmap, SortedMap.find_insert_self, rfl, SortedMap.find_insert_self, ?_⟩,
        fun j hj => SortedMap.find_insert_of_ne hj, rfl, hs.modes, hs.queue, hengines⟩
      exact fun j hj => SortedMap.find_insert_of_ne hj

theorem keeps_dontCare (hmode : entry.loadMode = .dontCare) :
    Keeps s format map index entry
      (s.addWithEngine format map index entry inBackground create) := by
  have hs : Changed s s.createEngine format entry := ⟨rfl, rfl, fun _ _ _ => rfl, Or.inl rfl⟩
  exact (hs.keeps_iff (if_pos hmode)).2 (Or.inr ⟨fun _ _ => rfl, rfl⟩)

theorem keeps_background_iff (hmode : entry.loadMode ≠ .dontCare) :
    Keeps s format map index entry (s.addWithEngine format map index entry true create) ↔
      (s.mapper.midiMaps.find map).isSome := by
  have hs : Changed s (s.createEngine.setModeInBackground format (instrumentOf entry)
      (modeValue entry.loadMode)) format entry := ⟨rfl, rfl, fun _ _ _ => rfl, Or.inr rfl⟩
  rw [hs.keeps_iff ((if_neg hmode).trans (if_pos rfl))]
  refine or_iff_left ?_
  rintro ⟨-, hqueue⟩
  have hlength := congrArg List.length hqueue
  simp [createEngine, setModeInBackground] at hlength

/-- When the mode cannot be changed, the engine stays. -/
theorem not_keeps_of_error {message : String}
    (h : s.createEngine.changeMode format entry inBackground create = (.error message, s'))
    (hengines : s'.engines = s.nextEngine :: s.engines) :
    ¬ Keeps s format map index entry
      (s.addWithEngine format map index entry inBackground create) := by
  intro hkeeps
  unfold addWithEngine at hkeeps
  rw [h] at hkeeps
  have hsame := (hkeeps.1 message rfl).engines
  rw [hengines] at hsame
  exact List.cons_ne_self _ _ hsame

theorem keeps_foreground_iff (hmode : Mode.ofInt (modeValue entry.loadMode) = some mode)
    (hcare : entry.loadMode ≠ .dontCare) :
    Keeps s format map index entry (s.addWithEngine format map index entry false create) ↔
      ¬ LoadFails s entry create format ∧
        ((s.mapper.midiMaps.find map).isSome ∨
          s.getMode format (instrumentOf entry) = .ok mode) := by
  have hfails : LoadFails s entry create format ↔
      ∃ message, (s.createEngine.setMode format (instrumentOf entry) (modeValue entry.loadMode)
        create).1 = .error message := by
    unfold LoadFails
    rw [persistent_iff hmode]
    exact (setAvailabilityMode_error_iff hmode).symm
  have hchange : s.createEngine.changeMode format entry false create =
      s.createEngine.setMode format (instrumentOf entry) (modeValue entry.loadMode) create :=
    (if_neg hcare).trans (if_neg Bool.false_ne_true)
  obtain ⟨hid, hother⟩ := getMode_setMode s.createEngine format (instrumentOf entry) create hmode
  rw [hfails]
  cases hresult : (s.createEngine.setMode format (instrumentOf entry) (modeValue entry.loadMode)
      create).1 with
  | error message =>
    refine iff_of_false (not_keeps_of_error (hchange.trans (Prod.ext hresult rfl)) rfl) ?_
    exact fun h => h.1 ⟨message, rfl⟩
  | ok =>
    have hs : Changed s (s.createEngine.setMode format (instrumentOf entry)
        (modeValue entry.loadMode) create).2 format entry := ⟨rfl, rfl, hother, Or.inl rfl⟩
    rw [hs.keeps_iff (hchange.trans (Prod.ext hresult rfl))]
    refine Iff.trans (or_congr_right ?_) (and_iff_right ?_).symm
    · constructor
      · rintro ⟨hmodes, -⟩
        exact (hmodes format (instrumentOf entry)).symm.trans hid
      · intro hsame
        refine ⟨fun format' id => ?_, rfl⟩
        by_cases h : format' ≠ format ∨ id ≠ instrumentOf entry
        · exact hother format' id h
        · obtain ⟨rfl, rfl⟩ : format' = format ∧ id = instrumentOf entry := by
            simpa only [not_or, not_not] using h
          exact hid.trans hsame.symm
    · rintro ⟨_, h⟩
      cases h

theorem keeps_iff :
    Keeps s format map index entry (s.addWithEngine format map index entry inBackground create) ↔
      ChangeIsSafe s map entry inBackground create format := by
  unfold ChangeIsSafe
  by_cases hcare : entry.loadMode = .dontCare
  · exact iff_of_true (keeps_dontCare hcare) (Or.inl hcare)
  · obtain ⟨mode, hmode⟩ := exists_mode hcare
    rw [or_iff_right hcare, hmode]
    cases inBackground with
    | true =>
      rw [keeps_background_iff hcare]
      simp
    | false =>
      rw [keeps_foreground_iff hmode hcare]
      simp

end step

section IsAtomic

variable (HAVE_SF2 : Bool) (negative : V → Bool) (s : MapperSystem V ρ γ α) (map : ℤ)
  (index : MidiProgIndex) (entry : MidiInstrumentMapper.Entry V) (inBackground : Bool)
  (create : Creation ρ α)

variable {HAVE_SF2 negative s entry} in
theorem addOrReplaceEntry_accepted {format : EngineFormat}
    (h : Accepts HAVE_SF2 negative s entry format) :
    s.addOrReplaceEntry HAVE_SF2 negative map index entry inBackground create =
      s.addWithEngine format map index entry inBackground create := by
  obtain ⟨hmaps, hfile, hvolume, hengine⟩ := h
  unfold addOrReplaceEntry
  rw [hmaps, hfile, hvolume, hengine]
  rfl

variable {HAVE_SF2 negative s entry} in
/-- One of the checks that come before the engine throws. -/
theorem addOrReplaceEntry_rejected (h : ∀ format, ¬ Accepts HAVE_SF2 negative s entry format) :
    ∃ message, s.addOrReplaceEntry HAVE_SF2 negative map index entry inBackground create =
      (.error message, s) := by
  unfold addOrReplaceEntry
  split_ifs with hmaps hfile hvolume
  · exact ⟨_, rfl⟩
  · exact ⟨_, rfl⟩
  · exact ⟨_, rfl⟩
  · split
    · exact ⟨_, rfl⟩
    · next format hengine =>
      refine absurd ?_ (h format)
      exact ⟨eq_false_of_ne_true hmaps, eq_false_of_ne_true hfile, eq_false_of_ne_true hvolume,
        hengine⟩

/-- Adding a mapping is atomic exactly if a check throws before there is an engine, or the change
of the mode can neither fail nor be left over. -/
theorem isAtomic_iff :
    IsAtomic HAVE_SF2 negative s map index entry inBackground create ↔
      ∀ format, Accepts HAVE_SF2 negative s entry format →
        ChangeIsSafe s map entry inBackground create format := by
  unfold IsAtomic
  by_cases haccepts : ∃ format, Accepts HAVE_SF2 negative s entry format
  · obtain ⟨format, h⟩ := haccepts
    have hunique (format' : EngineFormat) (h' : Accepts HAVE_SF2 negative s entry format') :
        format' = format := Except.ok.inj (h'.2.2.2.symm.trans h.2.2.2)
    rw [addOrReplaceEntry_accepted map index inBackground create h]
    constructor
    · intro hatomic format' h'
      rw [hunique format' h']
      refine keeps_iff.1 ⟨hatomic.1, fun hok => ?_⟩
      obtain ⟨format', hengine, hstored⟩ := hatomic.2 hok
      obtain rfl : format' = format := Except.ok.inj (hengine.symm.trans h.2.2.2)
      exact hstored
    · intro hsafe
      obtain ⟨herror, hok⟩ := keeps_iff.2 (hsafe format h)
      exact ⟨herror, fun hout => ⟨format, h.2.2.2, hok hout⟩⟩
  · have hnot : ∀ format, ¬ Accepts HAVE_SF2 negative s entry format := not_exists.1 haccepts
    obtain ⟨message, hout⟩ := addOrReplaceEntry_rejected map index inBackground create hnot
    rw [hout]
    refine iff_of_true ⟨fun _ _ => ⟨rfl, fun _ _ => rfl, rfl, rfl⟩, ?_⟩ ?_
    · intro hok
      cases hok
    · exact fun format h => absurd h (hnot format)

end IsAtomic

/-! ## The maps alone -/

section maps

variable (HAVE_SF2 : Bool) (negative : V → Bool) (s : MapperSystem V ρ γ α) (map : ℤ)
  (index : MidiProgIndex) (entry : MidiInstrumentMapper.Entry V) (inBackground : Bool)
  (create : Creation ρ α)

/-- What the maps see of the engines: their official names, and whether a mode can be set. -/
def env : MidiInstrumentMapper.Env V where
  create := fun name => (engineFactoryCreate HAVE_SF2 name).toOption.map fun format =>
    { engineName := format.name
      setMode := some fun file i mode =>
        (s.setMode format (toLex (i, file)) (modeValue mode) create).1 }
  negative := negative

theorem mapper_addWithEngine (format : EngineFormat) :
    (s.addWithEngine format map index entry inBackground create).2.mapper =
      match (if entry.loadMode ≠ .dontCare ∧ inBackground = false then
          (s.setMode format (instrumentOf entry) (modeValue entry.loadMode) create).1
        else .ok ()) with
      | .error _ => s.mapper
      | .ok () => (s.mapper.storeEntry map index (privateEntry format entry)).2 := by
  unfold addWithEngine changeMode
  by_cases hcare : entry.loadMode = .dontCare
  · have hno : ¬ (entry.loadMode ≠ .dontCare ∧ inBackground = false) := fun h => h.1 hcare
    rw [if_pos hcare, if_neg hno]
    rfl
  · rw [if_neg hcare]
    cases inBackground with
    | true =>
      have hno : ¬ (entry.loadMode ≠ .dontCare ∧ true = false) := fun h => Bool.noConfusion h.2
      rw [if_neg hno]
      rfl
    | false =>
      have hyes : entry.loadMode ≠ .dontCare ∧ false = false := ⟨hcare, rfl⟩
      rw [if_pos hyes, if_neg Bool.false_ne_true]
      rcases h : s.createEngine.setMode format (instrumentOf entry) (modeValue entry.loadMode)
        create with ⟨result, s'⟩
      have hresult : (s.setMode format (instrumentOf entry) (modeValue entry.loadMode) create).1 =
        result := congrArg Prod.fst h
      have hmapper : s'.mapper = s.mapper := (congrArg (·.2.mapper) h).symm
      rw [hresult]
      cases result with
      | error message => exact hmapper
      | ok =>
        rw [← hmapper]
        rfl

/-- The maps are those of the mapper by itself. -/
theorem mapper_addOrReplaceEntry :
    (s.addOrReplaceEntry HAVE_SF2 negative map index entry inBackground create).2.mapper =
      (s.mapper.addOrReplaceEntry (s.env HAVE_SF2 negative create) map index entry
        inBackground).2 := by
  unfold addOrReplaceEntry MidiInstrumentMapper.addOrReplaceEntry env
  by_cases hmaps : s.mapper.midiMaps.entries.isEmpty
  · rw [if_pos hmaps, if_pos hmaps]
  · rw [if_neg hmaps, if_neg hmaps]
    by_cases hfile : entry.instrumentFile.isEmpty
    · rw [if_pos hfile, if_pos hfile]
    · rw [if_neg hfile, if_neg hfile]
      dsimp only
      by_cases hvolume : negative entry.volume
      · rw [if_pos hvolume, if_pos hvolume]
      · rw [if_neg hvolume, if_neg hvolume]
        cases engineFactoryCreate HAVE_SF2 entry.engineName with
        | error message => rfl
        | ok format =>
          refine (mapper_addWithEngine s map index entry inBackground create format).trans ?_
          dsimp only [Except.toOption, Option.map_some, instrumentOf]
          generalize (if entry.loadMode ≠ .dontCare ∧ inBackground = false then
            (s.setMode format (toLex (entry.instrumentIndex, entry.instrumentFile))
              (modeValue entry.loadMode) create).1 else .ok ()) = loaded
          cases loaded <;> rfl

end maps

/-- There is the map 0, without an entry, and no instrument is in use. -/
def pianoMap : MapperSystem ℤ Unit Unit Unit where
  mapper :=
    { (MidiInstrumentMapper.init : MidiInstrumentMapper ℤ) with
      midiMaps := SortedMap.insert .empty 0 { name := "Piano", entries := .empty } }
  instruments := fun _ => .empty
  queue := []
  engines := []
  nextEngine := 0

def grandPiano : MidiInstrumentMapper.Entry ℤ where
  engineName := "gig"
  instrumentFile := "grand.gig"
  instrumentIndex := 0
  loadMode := .onDemandHold
  volume := 1
  name := "Grand"

/-- There is no map 1, but the mode of the instrument is changed. -/
theorem not_isAtomic :
    ¬ IsAtomic false (· < 0) pianoMap 1 (toLex (0, toLex (0, 0))) grandPiano false
      ⟨.ok (), none⟩ := by
  intro h
  have hmode := (h.1 "There is no MIDI instrument map 1" (by decide +kernel)).modes .GIG
    (toLex (0, "grand.gig"))
  revert hmode
  decide +kernel

end MapperSystem

end LinuxSampler
