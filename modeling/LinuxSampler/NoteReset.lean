import LinuxSampler.DelayedEvents

/-!
# Notes as pooled objects

A note has synthesis parameters that a script may override. Its fields are
set back when the note is released, not when the next one is launched.
The notes of all channels of an engine come from one pool; the IDs of
child notes from another one, of which only the number of free elements
matters here.
-/

namespace LinuxSampler

/-- The `float` constants that a note starts with: `1.f`, `0.f`, and the time
of 13 ms in which a change takes place. -/
class NoteFloat (F : Type) where
  one : F
  zero : F
  defaultTime : F

/-- `NoteBase::ValueScope` -/
inductive NoteValueScope where
  | relative
  | finalNorm
  | finalNative
deriving DecidableEq

/-- `fade_curve_t` -/
inductive FadeCurve where
  | linear
  | easeInEaseOut
deriving DecidableEq

namespace NoteBase

structure Param (F : Type) where
  value : F
  scope : NoteValueScope
deriving DecidableEq

structure Norm (F : Type) where
  value : F
  final : Bool
deriving DecidableEq

structure SNorm (F : Type) where
  value : F
  final : Bool
  sources : ℤ
deriving DecidableEq

/-- `_Override` -/
structure Override (F : Type) where
  volume : Norm F
  volumeTime : F
  pitch : Norm F
  pitchTime : F
  pan : SNorm F
  panTime : F
  cutoff : Param F
  resonance : Norm F
  attack : Param F
  decay : Param F
  sustain : Norm F
  release : Param F
  cutoffAttack : Param F
  cutoffDecay : Param F
  cutoffSustain : Norm F
  cutoffRelease : Param F
  ampLFODepth : Norm F
  ampLFOFreq : Param F
  cutoffLFODepth : Norm F
  cutoffLFOFreq : Param F
  pitchLFODepth : Norm F
  pitchLFOFreq : Param F
  volumeCurve : FadeCurve
  pitchCurve : FadeCurve
  panCurve : FadeCurve
  sampleOffset : ℤ
deriving DecidableEq

/-- `_Format::Gig` -/
structure Format where
  dimMask : ℕ
  dimBits : ℕ
deriving DecidableEq

section Defaults

variable {F : Type} [NoteFloat F]

def Param.init : Param F := ⟨NoteFloat.one, .relative⟩

def Norm.init : Norm F := ⟨NoteFloat.one, false⟩

def SNorm.init : SNorm F := ⟨NoteFloat.zero, false, 0⟩

def Override.init : Override F where
  volume := .init
  volumeTime := NoteFloat.defaultTime
  pitch := .init
  pitchTime := NoteFloat.defaultTime
  pan := .init
  panTime := NoteFloat.defaultTime
  cutoff := .init
  resonance := .init
  attack := .init
  decay := .init
  sustain := .init
  release := .init
  cutoffAttack := .init
  cutoffDecay := .init
  cutoffSustain := .init
  cutoffRelease := .init
  ampLFODepth := .init
  ampLFOFreq := .init
  cutoffLFODepth := .init
  cutoffLFOFreq := .init
  pitchLFODepth := .init
  pitchLFOFreq := .init
  volumeCurve := .easeInEaseOut
  pitchCurve := .easeInEaseOut
  panCurve := .easeInEaseOut
  sampleOffset := -1

def Format.init : Format := ⟨0, 0⟩

end Defaults

end NoteBase

/-- `pChildNotes` are note IDs, `pActiveVoices` the voices by their index. -/
structure EngineNote (F : Type) where
  hostKey : ℕ
  parentNoteID : ℕ
  pChildNotes : List ℕ
  eventID : ℕ
  override : NoteBase.Override F
  format : NoteBase.Format
  userPar : Fin 4 → ℤ
  pActiveVoices : List ℕ

/-- A note-on event, by what a new note takes from it. -/
structure NoteOnEvent where
  index : ℕ
  key : ℕ
  parentNoteID : ℕ

structure NoteEngine (C F : Type) where
  pEventPool : Pool (EngineEventList C)
  pNotePool : Pool (NoteList C)
  note : ℕ → EngineNote F
  /-- free elements of `noteIDPool` -/
  noteIDPool : ℕ

/-- What a script may write to a note. -/
inductive NoteChange (F : Type) where
  | override (value : NoteBase.Override F)
  | format (value : NoteBase.Format)
  | userPar (index : Fin 4) (value : ℤ)

namespace NoteEngine

variable {C F : Type} [DecidableEq C] [NoteFloat F] (S : NoteEngine C F)

def setNote (k : ℕ) (note : EngineNote F) : NoteEngine C F :=
  { S with note := Function.update S.note k note }

/-- `pNotePool->free()` -/
def freeNote (k : ℕ) : NoteEngine C F :=
  { S with pNotePool := (S.pNotePool.free (S.pNotePool.iterator (.node k) .forward)).1 }

/-- `Note::reset()` -/
def resetNote (k : ℕ) : NoteEngine C F :=
  let note := S.note k
  let S := { S with noteIDPool := S.noteIDPool + note.pChildNotes.length }
  S.setNote k
    { hostKey := 0
      parentNoteID := 0
      pChildNotes := []
      eventID := 0
      override := .init
      format := .init
      userPar := 0
      pActiveVoices := [] }

/-! ## Launching -/

/-- The new note becomes a child of the note that the event asks for, on the
key of its parent. -/
def linkParent (k newNoteID parentNoteID : ℕ) : Option (NoteEngine C F) :=
  if parentNoteID = 0 then some S
  else
    match (S.pNotePool.fromID parentNoteID).index with
    | none => none
    | some p =>
        if S.noteIDPool = 0 then none
        else
          let S := { S with noteIDPool := S.noteIDPool - 1 }
          let S := S.setNote p
            { S.note p with pChildNotes := (S.note p).pChildNotes ++ [newNoteID] }
          some (S.setNote k
            { S.note k with parentNoteID := parentNoteID, hostKey := (S.note p).hostKey })

/-- The new note moves to its host key. -/
def moveLaunched (c : C) (itNewNote : Iterator (NoteList C)) (k eventID : ℕ) : NoteEngine C F :=
  let S := S.setNote k { S.note k with eventID := eventID }
  let list := .activeNotes c (S.note k).hostKey
  { S with pNotePool := (S.pNotePool.moveToEndOf itNewNote list).1 }

/-- The note ID is zero where no note is launched. -/
def launchNewNote (c : C) (itNoteOnEvent : NoteOnEvent) : NoteEngine C F × ℕ :=
  if S.pNotePool.poolIsEmpty then (S, 0)
  else
    let (pNotePool, itNewNote) := S.pNotePool.allocAppend .pool
    let S := { S with pNotePool := pNotePool }
    match itNewNote.index with
    | none => (S, 0)
    | some k =>
        let newNoteID := S.pNotePool.getID k
        let S := S.setNote k { S.note k with hostKey := itNoteOnEvent.key }
        match S.linkParent k newNoteID itNoteOnEvent.parentNoteID with
        | none => (S.freeNote k, 0)
        | some S =>
            let eventID := S.pEventPool.getID itNoteOnEvent.index
            (S.moveLaunched c itNewNote k eventID, newNoteID)

/-! ## Changes -/

/-- A script call on `NoteByID()`. -/
def change (id : ℕ) (value : NoteChange F) : NoteEngine C F :=
  match (S.pNotePool.fromID id).index with
  | none => S
  | some k =>
      match value with
      | .override value => S.setNote k { S.note k with override := value }
      | .format value => S.setNote k { S.note k with format := value }
      | .userPar index value =>
          S.setNote k { S.note k with userPar := Function.update (S.note k).userPar index value }

/-- A voice is moved to the note with that ID. -/
def addVoice (id voice : ℕ) : NoteEngine C F :=
  match (S.pNotePool.fromID id).index with
  | none => S
  | some k => S.setNote k { S.note k with pActiveVoices := (S.note k).pActiveVoices ++ [voice] }

/-- `FreeVoice()` -/
def freeVoice (k voice : ℕ) : NoteEngine C F :=
  S.setNote k { S.note k with pActiveVoices := (S.note k).pActiveVoices.erase voice }

/-! ## Releasing -/

def ignoreNote (id : ℕ) : NoteEngine C F :=
  match (S.pNotePool.fromID id).index with
  | none => S
  | some k =>
      if (S.note k).pActiveVoices ≠ [] then S
      else
        let itEvent := S.pEventPool.fromID (S.note k).eventID
        if itEvent.hasData then
          { S.freeNote k with pEventPool := (S.pEventPool.free itEvent).1 }
        else S

def freeIfInactive (k : ℕ) : NoteEngine C F :=
  if (S.note k).pActiveVoices = [] then (S.resetNote k).freeNote k else S

/-- The notes on a key. -/
def activeNotes (c : C) (key : ℕ) : List ℕ :=
  S.pNotePool.elements (.rtlist (.activeNotes c key))

/-- `FreeAllInactiveKeys()`, with the keys that are active. -/
def freeAllInactiveKeys (c : C) (pActiveKeys : List ℕ) : NoteEngine C F :=
  pActiveKeys.foldl (fun S key => (S.activeNotes c key).foldl freeIfInactive S) S

/-- `MidiKey::Reset()` -/
def resetKey (c : C) (key : ℕ) : Option (NoteEngine C F) := do
  let S := (S.activeNotes c key).foldl resetNote S
  let pNotePool ← S.pNotePool.clear (.activeNotes c key)
  return { S with pNotePool := pNotePool }

/-- `MidiKeyboardManager::Reset()` -/
def resetKeys (c : C) : Option (NoteEngine C F) :=
  (List.range 128).foldlM (fun S key => S.resetKey c key) S

/-- The loop that takes every free note and resets it. -/
def resetFree : ℕ → NoteEngine C F → Option (NoteEngine C F)
  | 0, _ => none
  | fuel + 1, S =>
      let (pNotePool, itNote) := S.pNotePool.allocAppend .pool
      let S := { S with pNotePool := pNotePool }
      match itNote.index with
      | none => some S
      | some k => resetFree fuel (S.resetNote k)

/-- `EngineBase::ResetInternal()`, with the channels of the engine. -/
def resetInternal (engineChannels : List C) : Option (NoteEngine C F) := do
  let pNotePool ← S.pNotePool.clear .pool
  let S ← resetFree (pNotePool.poolsize + 1) { S with pNotePool := pNotePool }
  let pNotePool ← S.pNotePool.clear .pool
  engineChannels.foldlM resetKeys { S with pNotePool := pNotePool }

end NoteEngine

/-! ## Runs -/

inductive NoteAction (C F : Type) where
  | launchNewNote (c : C) (itNoteOnEvent : NoteOnEvent)
  | change (id : ℕ) (value : NoteChange F)
  | addVoice (id voice : ℕ)
  | freeVoice (k voice : ℕ)
  | ignoreNote (id : ℕ)
  | freeAllInactiveKeys (c : C) (pActiveKeys : List ℕ)
  | resetKeys (c : C)
  | resetInternal (engineChannels : List C)
  /-- the engine goes on with its events -/
  | writeEvents (pEventPool : Pool (EngineEventList C))

namespace NoteEngine

variable {C F : Type} [DecidableEq C] [NoteFloat F]

def step (S : NoteEngine C F) : NoteAction C F → Option (NoteEngine C F)
  | .launchNewNote c itNoteOnEvent => some (S.launchNewNote c itNoteOnEvent).1
  | .change id value => some (S.change id value)
  | .addVoice id voice => some (S.addVoice id voice)
  | .freeVoice k voice => some (S.freeVoice k voice)
  | .ignoreNote id => some (S.ignoreNote id)
  | .freeAllInactiveKeys c pActiveKeys => some (S.freeAllInactiveKeys c pActiveKeys)
  | .resetKeys c => S.resetKeys c
  | .resetInternal engineChannels => S.resetInternal engineChannels
  | .writeEvents pEventPool => some { S with pEventPool := pEventPool }

def run (actions : List (NoteAction C F)) (S : NoteEngine C F) : Option (NoteEngine C F) :=
  actions.foldlM step S

/-- An engine that was just created: its notes are as the constructor has left
them. -/
structure Created (size : ℕ) (S : NoteEngine C F) : Prop where
  pool : S.pNotePool = .create _ size 1
  override : ∀ k, (S.note k).override = .init
  format : ∀ k, (S.note k).format = .init
  userPar : ∀ k, (S.note k).userPar = 0
  pChildNotes : ∀ k, (S.note k).pChildNotes = []
  pActiveVoices : ∀ k, (S.note k).pActiveVoices = []
  parentNoteID : ∀ k, (S.note k).parentNoteID = 0

end NoteEngine

end LinuxSampler
