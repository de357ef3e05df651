import LinuxSampler.InstrumentMapper

/-!
# The IDs of the instrument maps and the default map

The IDs are those of an `int`, their limit is checked for a `uint`. Below the
limit every call of `AddMap()` finds a new ID, and the operations keep the
default map among the existing ones.
-/

namespace LinuxSampler

namespace MidiInstrumentMapper

variable {V : Type*} {env : Env V} {s s' : MidiInstrumentMapper V} {map id : ℤ}
  {mapName : String} {m : MidiInstrumentMap V}

/-- `AddMap()` returns a new ID that is not negative, and changes no map. -/
def AddMapSound (s : MidiInstrumentMapper V) (mapName : String) : Prop :=
  ∃ id, (s.addMap mapName).1 = .ok id ∧ 0 ≤ id ∧ s.midiMaps.find id = none ∧
    ∀ map m, s.midiMaps.find map = some m →
      (s.addMap mapName).2.midiMaps.find map = some m

/-- The default map is one of the existing maps. -/
def DefaultSound (s : MidiInstrumentMapper V) : Prop :=
  s.ownDefault = true → s.midiMaps.entries ≠ [] → (s.midiMaps.find s.defaultMap).isSome

/-- An added map does not have to follow one with the highest ID of an `int`. -/
def Call.WithinLimit (s : MidiInstrumentMapper V) : Call V → Prop
  | .addMap _ => s.lastKey ≠ some intMax
  | _ => True

/-- Each call of the run meets the condition. -/
def WithinLimit (env : Env V) (s : MidiInstrumentMapper V) : List (Call V) → Prop
  | [] => True
  | call :: calls => call.WithinLimit s ∧ WithinLimit env (s.step env call) calls

/-- All IDs are non-negative values of an `int`. -/
structure Inv (s : MidiInstrumentMapper V) : Prop where
  ids : ∀ map m, s.midiMaps.find map = some m → 0 ≤ map ∧ map ≤ intMax
  default : s.DefaultSound

/-! ## Parts of the state -/

@[simp] theorem midiMaps_fire (n : Notification) : (s.fire n).midiMaps = s.midiMaps := rfl

@[simp] theorem defaultMap_fire (n : Notification) : (s.fire n).defaultMap = s.defaultMap := rfl

@[simp] theorem ownDefault_fire (n : Notification) : (s.fire n).ownDefault = s.ownDefault := rfl

@[simp] theorem midiMaps_setDefaultMap (own : Bool) :
    (s.setDefaultMap own map).midiMaps = s.midiMaps := by
  unfold setDefaultMap
  split <;> rfl

@[simp] theorem defaultMap_setDefaultMap (own : Bool) :
    (s.setDefaultMap own map).defaultMap = map := by
  unfold setDefaultMap
  split <;> rfl

@[simp] theorem ownDefault_setDefaultMap (own : Bool) :
    (s.setDefaultMap own map).ownDefault = own := by
  unfold setDefaultMap
  split <;> rfl

theorem find_nameMap (s : MidiInstrumentMapper V) (id : ℤ) (mapName : String) :
    ∃ m, m.name = mapName ∧ ∀ map, (s.nameMap id mapName).midiMaps.find map =
      if map = id then some m else s.midiMaps.find map :=
  ⟨_, rfl, fun _ => SortedMap.find_insert⟩

theorem find_eq_none_of_empty (h : s.midiMaps.entries = []) : s.midiMaps.find map = none := by
  cases hm : s.midiMaps.find map with
  | none => rfl
  | some m =>
      have hmem := SortedMap.find_eq_some_iff.mp hm
      rw [h] at hmem
      cases hmem

theorem entries_ne_nil (h : s.midiMaps.find map = some m) : s.midiMaps.entries ≠ [] :=
  fun hnil => by simp [find_eq_none_of_empty hnil] at h

/-- The first key is that of an existing map. -/
theorem find_firstKey (h : s.midiMaps.entries ≠ []) :
    (s.midiMaps.find (s.firstKey.getD (-1))).isSome := by
  obtain ⟨a, l, hl⟩ := List.exists_cons_of_ne_nil h
  have hmem : (a.1, a.2) ∈ s.midiMaps.entries := by simp [hl]
  have hfind := SortedMap.find_eq_some_iff.mpr hmem
  have hkey : s.firstKey.getD (-1) = a.1 := by simp [firstKey, hl]
  rw [hkey, hfind]
  rfl

/-! ## The new ID -/

theorem uint_eq (h₀ : 0 ≤ map) (h : map ≤ intMax) : uint map = map.toNat := by
  have hmax : intMax = 2147483647 := rfl
  unfold uint
  rw [Int.emod_eq_of_lt h₀ (by omega)]

theorem int_eq {u : ℕ} (h : u < 2 ^ 31) : int u = u := by
  have hpow : ((2 ^ 32 : ℕ) : ℤ) = 4294967296 := by simp
  unfold int
  refine Int.bmod_eq_of_le_mul_two ?_ ?_
  · rw [hpow]
    omega
  · rw [hpow]
    omega

/-- Below the limit the sum does not wrap, and its value is one of an `int`. -/
theorem succ_uint (h₀ : 0 ≤ map) (h : map < intMax) :
    (uint map + 1) % 2 ^ 32 = map.toNat + 1 ∧ uint map < map.toNat + 1 ∧
      int (map.toNat + 1) = map + 1 := by
  have hmax : intMax = 2147483647 := rfl
  have huint : uint map = map.toNat := uint_eq h₀ h.le
  refine ⟨?_, by omega, ?_⟩
  · rw [huint]
    exact Nat.mod_eq_of_lt (by omega)
  · rw [int_eq (by omega)]
    omega

theorem nextID_eq_ok (h : Inv s) (hlast : s.lastKey ≠ some intMax) :
    ∃ id, s.nextID = .ok id ∧ 0 ≤ id ∧ id ≤ intMax ∧ s.midiMaps.find id = none := by
  have hmax : intMax = 2147483647 := rfl
  unfold nextID
  unfold lastKey at hlast ⊢
  cases ha : s.midiMaps.entries.getLast? with
  | none =>
      exact ⟨0, rfl, le_rfl, by omega, find_eq_none_of_empty (List.getLast?_eq_none_iff.mp ha)⟩
  | some a =>
      have hmem : (a.1, a.2) ∈ s.midiMaps.entries := List.mem_of_getLast? ha
      obtain ⟨h₀, h₁⟩ := h.ids a.1 a.2 (SortedMap.find_eq_some_iff.mpr hmem)
      have hne : a.1 ≠ intMax := fun heq => hlast (by rw [ha, Option.map_some, heq])
      obtain ⟨hsum, hlt, hint⟩ := succ_uint h₀ (lt_of_le_of_ne h₁ hne)
      refine ⟨a.1 + 1, ?_, by omega, by omega, ?_⟩
      · simp only [Option.map_some, hsum, if_neg hlt.not_gt, hint]
      · cases hfind : s.midiMaps.find (a.1 + 1) with
        | none => rfl
        | some m =>
            have := SortedMap.le_last ha (SortedMap.find_eq_some_iff.mp hfind)
            dsimp only at this
            omega

/-- At the limit the next ID is the lowest value of an `int`. -/
theorem nextID_limit (h : s.lastKey = some intMax) : s.nextID = .ok (-2 ^ 31) := by
  have hwrap : ¬(uint intMax + 1) % 2 ^ 32 < uint intMax := by decide
  have hint : int ((uint intMax + 1) % 2 ^ 32) = -2 ^ 31 := by decide
  unfold nextID
  simp only [h, if_neg hwrap, hint]

theorem addMap_of_ok (mapName : String) (hid : s.nextID = .ok id) :
    (s.addMap mapName).1 = .ok id ∧
      (s.addMap mapName).2.midiMaps = (s.nameMap id mapName).midiMaps := by
  unfold addMap
  rw [hid]
  dsimp only
  split <;> simp

/-- Below the limit `AddMap()` does what it should, and only there. -/
theorem addMapSound_iff (h : Inv s) : s.AddMapSound mapName ↔ s.lastKey ≠ some intMax := by
  constructor
  · rintro ⟨id, hid, h₀, -⟩ hlimit
    rw [(addMap_of_ok _ (nextID_limit hlimit)).1] at hid
    cases hid
    exact absurd h₀ (by decide)
  · intro hlast
    obtain ⟨id, hid, h₀, -, hfresh⟩ := nextID_eq_ok h hlast
    obtain ⟨hresult, hmaps⟩ := addMap_of_ok mapName hid
    refine ⟨id, hresult, h₀, hfresh, fun map m hm => ?_⟩
    obtain ⟨_, -, hfind⟩ := find_nameMap s id mapName
    have hne : map ≠ id := by
      rintro rfl
      simp [hfresh] at hm
    rw [hmaps, hfind, if_neg hne, hm]

/-! ## Runs -/

theorem Inv.init : Inv (init : MidiInstrumentMapper V) where
  ids := fun _ _ hm => nomatch hm
  default := fun hown => nomatch hown

/-- Changes of the maps that keep their IDs keep the invariant. -/
theorem Inv.congr (h : Inv s)
    (hfind : ∀ map, (s'.midiMaps.find map).isSome = (s.midiMaps.find map).isSome)
    (hdefault : s'.defaultMap = s.defaultMap) (hown : s'.ownDefault = s.ownDefault) : Inv s' where
  ids map m hm := by
    have hsome : (s.midiMaps.find map).isSome := by rw [← hfind, hm]; rfl
    obtain ⟨m', hm'⟩ := Option.isSome_iff_exists.mp hsome
    exact h.ids map m' hm'
  default hs hne := by
    obtain ⟨a, l, hl⟩ := List.exists_cons_of_ne_nil hne
    have hmem : (a.1, a.2) ∈ s'.midiMaps.entries := by simp [hl]
    have hsome : (s.midiMaps.find a.1).isSome := by
      rw [← hfind, SortedMap.find_eq_some_iff.mpr hmem]
      rfl
    obtain ⟨m', hm'⟩ := Option.isSome_iff_exists.mp hsome
    rw [hfind, hdefault]
    exact h.default (hown ▸ hs) (entries_ne_nil hm')

theorem Inv.addMap (h : Inv s) (hlast : s.lastKey ≠ some intMax) : Inv (s.addMap mapName).2 := by
  obtain ⟨id, hid, h₀, hmax, hfresh⟩ := nextID_eq_ok h hlast
  obtain ⟨m, -, hfind⟩ := find_nameMap s id mapName
  have hids : ∀ map m, (s.nameMap id mapName).midiMaps.find map = some m →
      0 ≤ map ∧ map ≤ intMax := by
    intro map m hm
    rw [hfind] at hm
    by_cases heq : map = id
    · exact heq ▸ ⟨h₀, hmax⟩
    · rw [if_neg heq] at hm
      exact h.ids map m hm
  unfold MidiInstrumentMapper.addMap
  rw [hid]
  dsimp only
  split
  · refine ⟨by simpa using hids, fun _ _ => ?_⟩
    rw [defaultMap_setDefaultMap, midiMaps_setDefaultMap, midiMaps_fire, hfind, if_pos rfl]
    rfl
  · rename_i hsize
    refine ⟨by simpa using hids, fun hown _ => ?_⟩
    have hne : s.midiMaps.entries ≠ [] := by
      intro hnil
      refine hsize ?_
      simp [nameMap, SortedMap.insert, hnil]
    have hdefault := h.default hown hne
    show ((s.nameMap id mapName).midiMaps.find s.defaultMap).isSome
    rw [hfind]
    split
    · rfl
    · exact hdefault

theorem Inv.removeMap (h : Inv s) : Inv (s.removeMap map) := by
  have hids : ∀ map' m, (s.midiMaps.erase map).find map' = some m → 0 ≤ map' ∧ map' ≤ intMax := by
    intro map' m hm
    rw [SortedMap.find_erase] at hm
    split at hm
    · cases hm
    · exact h.ids map' m hm
  unfold MidiInstrumentMapper.removeMap
  dsimp only
  split
  · refine ⟨by simpa using hids, fun _ hne => ?_⟩
    rw [midiMaps_fire, midiMaps_setDefaultMap] at hne ⊢
    rw [defaultMap_fire, defaultMap_setDefaultMap]
    exact find_firstKey hne
  · rename_i hdefault
    refine ⟨by simpa using hids, fun hown hne => ?_⟩
    have hne' : s.midiMaps.entries ≠ [] := by
      intro hnil
      refine hne ?_
      simp [SortedMap.erase, hnil]
    show ((s.midiMaps.erase map).find s.defaultMap).isSome
    rw [SortedMap.find_erase_of_ne (Ne.symm hdefault)]
    exact h.default hown hne'

theorem Inv.storeEntry {index : MidiProgIndex} {entry : PrivateEntry V} (h : Inv s) :
    Inv (s.storeEntry map index entry).2 := by
  unfold MidiInstrumentMapper.storeEntry
  cases hm : s.midiMaps.find map with
  | none => exact h
  | some m =>
      refine h.congr (fun map' => ?_) rfl rfl
      simp only [midiMaps_fire, SortedMap.find_insert]
      split
      · rename_i heq
        rw [heq, hm]
        rfl
      · rfl

theorem Inv.addOrReplaceEntry {index : MidiProgIndex} {entry : Entry V} {inBackground : Bool}
    (h : Inv s) : Inv (s.addOrReplaceEntry env map index entry inBackground).2 := by
  unfold MidiInstrumentMapper.addOrReplaceEntry
  split
  · exact h
  · split
    · exact h
    · split
      · exact h
      · cases env.create entry.engineName with
        | none => exact h
        | some engine =>
            dsimp only
            split
            · exact h
            · exact h.storeEntry

theorem Inv.changeEntries {f} (h : Inv s) : Inv (s.changeEntries map f) := by
  unfold MidiInstrumentMapper.changeEntries
  cases hm : s.midiMaps.find map with
  | none => exact h
  | some m =>
      refine h.congr (fun map' => ?_) rfl rfl
      simp only [midiMaps_fire, SortedMap.find_insert]
      split
      · rename_i heq
        rw [heq, hm]
        rfl
      · rfl

theorem Inv.step (h : Inv s) (call : Call V) (hcall : call.WithinLimit s) :
    Inv (s.step env call) := by
  cases call with
  | addMap mapName => exact h.addMap hcall
  | removeMap map => exact h.removeMap
  | removeAllMaps =>
      refine ⟨fun map m hm => ?_, fun _ hne => ?_⟩
      · simp [MidiInstrumentMapper.step, removeAllMaps] at hm
      · simp [MidiInstrumentMapper.step, removeAllMaps, SortedMap.empty] at hne
  | addOrReplaceEntry map index entry inBackground => exact h.addOrReplaceEntry
  | removeEntry map index =>
      unfold MidiInstrumentMapper.step MidiInstrumentMapper.removeEntry
      exact h.changeEntries
  | removeAllEntries map =>
      unfold MidiInstrumentMapper.step MidiInstrumentMapper.removeAllEntries
      exact h.changeEntries
  | setDefaultMap map =>
      refine ⟨?_, fun hown => ?_⟩
      · simpa [MidiInstrumentMapper.step] using h.ids
      · simp [MidiInstrumentMapper.step] at hown

theorem Inv.run {calls : List (Call V)} (h : Inv s) (hcalls : WithinLimit env s calls) :
    Inv (s.run env calls) := by
  induction calls generalizing s with
  | nil => exact h
  | cons call calls ih => exact ih (h.step call hcalls.1) hcalls.2

/-- In a run that stays below the limit each further call of `AddMap()` is sound
just as long as the highest ID is not that limit, and the default map exists. -/
theorem run_sound (calls : List (Call V)) (hcalls : WithinLimit env init calls) :
    (∀ mapName, (init.run env calls).AddMapSound mapName ↔
      (init.run env calls).lastKey ≠ some intMax) ∧
      (init.run env calls).DefaultSound :=
  have h := Inv.init.run hcalls
  ⟨fun _ => addMapSound_iff h, h.default⟩

def noEngines : Env Unit where
  create := fun _ => none
  negative := fun _ => false

theorem run_sound_third :
    (init.run noEngines [.addMap "a", .addMap "b", .removeMap 0]).AddMapSound "c" ∧
      (init.run noEngines [.addMap "a", .addMap "b", .removeMap 0]).DefaultSound :=
  have h := run_sound [.addMap "a", .addMap "b", .removeMap 0]
    ⟨by unfold Call.WithinLimit; decide, by unfold Call.WithinLimit; decide, trivial, trivial⟩
  ⟨(h.1 "c").mpr (by decide), h.2⟩

/-! ## The limit of the IDs -/

/-- A second map is added and the first one removed, `n` times. -/
def ladder : ℕ → List (Call V)
  | 0 => [.addMap ""]
  | n + 1 => ladder n ++ [.addMap "", .removeMap n]

/-- Then the only map has the ID `n`. -/
theorem run_ladder (env : Env V) {n : ℕ} (hn : n < 2 ^ 31) :
    (init.run env (ladder n)).midiMaps.entries = [((n : ℤ), ⟨"", .empty⟩)] := by
  induction n with
  | zero => rfl
  | succ n ih =>
      have hmax : intMax = 2147483647 := rfl
      have hentries := ih (by omega)
      unfold run at hentries
      unfold run ladder
      rw [List.foldl_append]
      generalize (ladder n).foldl (MidiInstrumentMapper.step env) init = s at hentries
      have hn₀ : (0 : ℤ) ≤ n := by omega
      obtain ⟨hsum, hlt, hint⟩ := succ_uint hn₀ (by omega)
      have hid : s.nextID = .ok ((n : ℤ) + 1) := by
        unfold nextID lastKey
        rw [hentries]
        dsimp only [List.getLast?_singleton, Option.map_some]
        rw [hsum, if_neg hlt.not_gt, hint]
      have hnone : s.midiMaps.find ((n : ℤ) + 1) = none := by
        have hne : ¬(n : ℤ) = n + 1 := by omega
        simp [SortedMap.find, hentries, hne]
      have hadd : (s.addMap "").2.midiMaps.entries =
          [((n : ℤ), ⟨"", .empty⟩), ((n : ℤ) + 1, ⟨"", .empty⟩)] := by
        rw [(addMap_of_ok _ hid).2]
        have hlt : (n : ℤ) < n + 1 := by omega
        have hle : ¬(n : ℤ) + 1 < n := by omega
        simp only [nameMap, hnone, SortedMap.insert, hentries, List.filter_cons, hlt, hle,
          decide_true, decide_false]
        rfl
      simp only [List.foldl_cons, List.foldl_nil, MidiInstrumentMapper.step]
      generalize (s.addMap "").2 = s' at hadd
      unfold MidiInstrumentMapper.removeMap
      dsimp only
      have hne : ¬(n : ℤ) + 1 = n := by omega
      split <;> simp [SortedMap.erase, hadd, hne]

/-- The map with the highest ID of an `int` gets a successor with a negative one. -/
theorem not_run_sound :
    ¬ (init.run noEngines (ladder (2 ^ 31 - 1))).AddMapSound "" := by
  have hentries := run_ladder noEngines (show 2 ^ 31 - 1 < 2 ^ 31 by omega)
  rintro ⟨id, hid, h₀, -⟩
  have hlast : (init.run noEngines (ladder (2 ^ 31 - 1))).lastKey = some intMax := by
    unfold lastKey
    rw [hentries]
    rfl
  rw [(addMap_of_ok _ (nextID_limit hlast)).1] at hid
  cases hid
  exact absurd h₀ (by decide)

end MidiInstrumentMapper

end LinuxSampler
