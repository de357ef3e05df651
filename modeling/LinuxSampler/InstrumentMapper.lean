import LinuxSampler.SortedMap
import Mathlib.Algebra.Group.Int.Defs
import Mathlib.Algebra.Group.Nat.Defs
import Mathlib.Order.Fin.Basic
import Mathlib.Data.Prod.Lex

/-!
# MidiInstrumentMapper

The MIDI instrument maps, by their IDs, and the ID of the default map. A call
appends the notifications it sends to the listeners; whether one throws is part
of its result. The engine types a mapping may name are a parameter.
-/

namespace LinuxSampler

/-- `midi_prog_index_t`: bank MSB, bank LSB and program, compared like `memcmp`. -/
abbrev MidiProgIndex := Fin 256 ×ₗ Fin 256 ×ₗ Fin 256

namespace MidiInstrumentMapper

inductive Mode where
  | onDemand
  | onDemandHold
  | persistent
  | dontCare
deriving DecidableEq

/-- The type `V` of the volumes stands for `float`. -/
structure Entry (V : Type*) where
  engineName : String
  instrumentFile : String
  instrumentIndex : ℕ
  loadMode : Mode
  volume : V
  name : String

structure PrivateEntry (V : Type*) where
  engineName : String
  instrumentFile : String
  instrumentIndex : ℕ
  volume : V
  name : String

structure MidiInstrumentMap (V : Type*) where
  name : String
  entries : SortedMap MidiProgIndex (PrivateEntry V)

inductive Notification where
  | countChanged (map : ℤ) (count : ℕ)
  | infoChanged (map : ℤ) (bank prog : ℕ)
  | mapCountChanged (count : ℕ)
  | mapInfoChanged (map : ℤ)
deriving DecidableEq

/-- An engine type as `AddOrReplaceEntry()` uses it; `setMode` of its instrument
manager throws the text of an exception. -/
structure EngineType where
  engineName : String
  setMode : Option (String → ℕ → Mode → Except String Unit)

/-- What is outside of the mapper: `EngineFactory::Create()` and the comparison
of a volume with `0.0`. -/
structure Env (V : Type*) where
  create : String → Option EngineType
  negative : V → Bool

end MidiInstrumentMapper

/-- The last component is no data of the class: it says whether the default map
was last set by an operation on the maps, not by a call of `SetDefaultMap()`
from outside. -/
structure MidiInstrumentMapper (V : Type*) where
  midiMaps : SortedMap ℤ (MidiInstrumentMapper.MidiInstrumentMap V)
  defaultMap : ℤ
  fired : List MidiInstrumentMapper.Notification
  ownDefault : Bool

namespace MidiInstrumentMapper

variable {V : Type*}

/-- The value of an `int` as a `uint`. -/
def uint (i : ℤ) : ℕ := (i % 2 ^ 32).toNat

/-- The value of a `uint` as an `int`. -/
def int (u : ℕ) : ℤ := (u : ℤ).bmod (2 ^ 32)

/-- `INT_MAX` -/
def intMax : ℤ := 2 ^ 31 - 1

/-- The static variables before the first call. -/
def init : MidiInstrumentMapper V where
  midiMaps := .empty
  defaultMap := 0
  fired := []
  ownDefault := false

def fire (s : MidiInstrumentMapper V) (n : Notification) : MidiInstrumentMapper V :=
  { s with fired := s.fired ++ [n] }

/-- The key of `--midiMaps.end()`. -/
def lastKey (s : MidiInstrumentMapper V) : Option ℤ := s.midiMaps.entries.getLast?.map (·.1)

/-- The key of `midiMaps.begin()`. -/
def firstKey (s : MidiInstrumentMapper V) : Option ℤ := s.midiMaps.entries.head?.map (·.1)

def setDefaultMap (own : Bool) (s : MidiInstrumentMapper V) (mapId : ℤ) : MidiInstrumentMapper V :=
  let s := { s with defaultMap := mapId, ownDefault := own }
  if mapId ≠ -1 then s.fire (.mapInfoChanged mapId) else s

/-- The search for an unoccupied ID: the first argument counts the IDs that are
left below `lastIndex`. -/
def unoccupied (s : MidiInstrumentMapper V) : ℕ → ℕ → Option ℕ
  | 0, _ => none
  | left + 1, i =>
      if (s.midiMaps.find (int i)).isSome then s.unoccupied left (i + 1) else some i

/-- The ID for the next map; the sum is one of `uint`s. -/
def nextID (s : MidiInstrumentMapper V) : Except String ℤ :=
  match s.lastKey with
  | none => .ok 0
  | some last =>
      let lastIndex := uint last
      if (lastIndex + 1) % 2 ^ 32 < lastIndex then
        match s.unoccupied lastIndex 0 with
        | some i => .ok (int i)
        | none => .error "Internal error: could not find unoccupied MIDI instrument map ID."
      else .ok (int ((lastIndex + 1) % 2 ^ 32))

/-- `midiMaps[ID].name = MapName`: the map is created if there is none. -/
def nameMap (s : MidiInstrumentMapper V) (id : ℤ) (mapName : String) : MidiInstrumentMapper V :=
  let map := (s.midiMaps.find id).getD { name := "", entries := .empty }
  { s with midiMaps := s.midiMaps.insert id { map with name := mapName } }

def addMap (s : MidiInstrumentMapper V) (mapName : String) :
    Except String ℤ × MidiInstrumentMapper V :=
  match s.nextID with
  | .error message => (.error message, s)
  | .ok id =>
      let s := s.nameMap id mapName
      let s := s.fire (.mapCountChanged s.midiMaps.entries.length)
      (.ok id, if s.midiMaps.entries.length = 1 then s.setDefaultMap true id else s)

def removeMap (s : MidiInstrumentMapper V) (map : ℤ) : MidiInstrumentMapper V :=
  let s := { s with midiMaps := s.midiMaps.erase map }
  let s := if map = s.defaultMap then s.setDefaultMap true (s.firstKey.getD (-1)) else s
  s.fire (.mapCountChanged s.midiMaps.entries.length)

def removeAllMaps (s : MidiInstrumentMapper V) : MidiInstrumentMapper V :=
  ({ s with midiMaps := .empty }.setDefaultMap true (-1)).fire (.mapCountChanged 0)

/-- The last part of `AddOrReplaceEntry()`: the entry is stored in its map. -/
def storeEntry (s : MidiInstrumentMapper V) (map : ℤ) (index : MidiProgIndex)
    (entry : PrivateEntry V) : Except String Unit × MidiInstrumentMapper V :=
  match s.midiMaps.find map with
  | none => (.error ("There is no MIDI instrument map " ++ toString map), s)
  | some m =>
      let entries := m.entries.insert index entry
      let s' := { s with midiMaps := s.midiMaps.insert map { m with entries := entries } }
      (.ok (), s'.fire (
        if (m.entries.find index).isSome then
          .infoChanged map (index.1.val * 2 ^ 7 ||| index.2.1.val) index.2.2.val
        else .countChanged map entries.entries.length))

def addOrReplaceEntry (env : Env V) (s : MidiInstrumentMapper V) (map : ℤ) (index : MidiProgIndex)
    (entry : Entry V) (inBackground : Bool) : Except String Unit × MidiInstrumentMapper V :=
  if s.midiMaps.entries.isEmpty then
    (.error "There is no MIDI instrument map, you have to add one first.", s)
  else if entry.instrumentFile.isEmpty then (.error "No instrument file name given", s)
  else if env.negative entry.volume then (.error "Volume may not be a negative value", s)
  else
    match env.create entry.engineName with
    | none => (.error ("No such engine type '" ++ entry.engineName ++ "'"), s)
    | some engine =>
        let loaded := match engine.setMode with
          | some setMode =>
              if entry.loadMode ≠ Mode.dontCare ∧ inBackground = false then
                setMode entry.instrumentFile entry.instrumentIndex entry.loadMode
              else .ok ()
          | none => .ok ()
        match loaded with
        | .error message => (.error message, s)
        | .ok () => s.storeEntry map index
            { engineName := engine.engineName
              instrumentFile := entry.instrumentFile
              instrumentIndex := entry.instrumentIndex
              volume := entry.volume
              name := entry.name }

/-- A change of the entries of a map, if there is that map. -/
def changeEntries (s : MidiInstrumentMapper V) (map : ℤ)
    (f : SortedMap MidiProgIndex (PrivateEntry V) → SortedMap MidiProgIndex (PrivateEntry V)) :
    MidiInstrumentMapper V :=
  match s.midiMaps.find map with
  | none => s
  | some m =>
      let s := { s with midiMaps := s.midiMaps.insert map { m with entries := f m.entries } }
      s.fire (.countChanged map (f m.entries).entries.length)

def removeEntry (s : MidiInstrumentMapper V) (map : ℤ) (index : MidiProgIndex) :
    MidiInstrumentMapper V :=
  s.changeEntries map (·.erase index)

def removeAllEntries (s : MidiInstrumentMapper V) (map : ℤ) : MidiInstrumentMapper V :=
  s.changeEntries map fun _ => .empty

/-- `setDefaultMap` is the call from outside. -/
inductive Call (V : Type*) where
  | addMap (mapName : String)
  | removeMap (map : ℤ)
  | removeAllMaps
  | addOrReplaceEntry (map : ℤ) (index : MidiProgIndex) (entry : Entry V) (inBackground : Bool)
  | removeEntry (map : ℤ) (index : MidiProgIndex)
  | removeAllEntries (map : ℤ)
  | setDefaultMap (map : ℤ)

def step (env : Env V) (s : MidiInstrumentMapper V) : Call V → MidiInstrumentMapper V
  | .addMap mapName => (s.addMap mapName).2
  | .removeMap map => s.removeMap map
  | .removeAllMaps => s.removeAllMaps
  | .addOrReplaceEntry map index entry inBackground =>
      (s.addOrReplaceEntry env map index entry inBackground).2
  | .removeEntry map index => s.removeEntry map index
  | .removeAllEntries map => s.removeAllEntries map
  | .setDefaultMap map => s.setDefaultMap false map

def run (env : Env V) (s : MidiInstrumentMapper V) (calls : List (Call V)) :
    MidiInstrumentMapper V :=
  calls.foldl (step env) s

end MidiInstrumentMapper

end LinuxSampler
