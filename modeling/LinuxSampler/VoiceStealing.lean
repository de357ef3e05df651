import LinuxSampler.DelayedEvents
import LinuxSampler.PoolUse

/-!
# Voice stealing

When no voice is free for a new note, the engine kills an old one. It looks on
the channel of the note first and then on all channels, and continues where it
found the last voice in the fragment.

The search over the channels has no end of its own. It starts again at the
first channel for as long as it finds no voice (`answers_iff`). What keeps
it from that is `VoiceSpawnsLeft`, which is lowered with each voice that can no
longer be stolen, but not for the voices that the solo mode kills.
-/

namespace LinuxSampler

/-- `CONFIG_VOICE_STEAL_ALGO` -/
inductive VoiceStealAlgo where
  | none
  | oldestvoiceonkey
  | oldestkey

inductive PlaybackState where
  | playback_state_end
  | playback_state_init
  | playback_state_ram
  | playback_state_disk
deriving DecidableEq

def PlaybackState.value : PlaybackState → ℕ
  | .playback_state_end => 0
  | .playback_state_init => 1
  | .playback_state_ram => 2
  | .playback_state_disk => 3

/-- A voice with the events that triggered and killed it. The first one is reset when the voice
was rendered for the first time, which is when the playback from RAM begins. -/
structure EngineVoice where
  /-- `Type & type_release_trigger` -/
  isReleaseTrigger : Bool
  playbackState : PlaybackState
  itTriggerEvent : Option ℕ
  itKillEvent : Option ℕ
  rendered : PlaybackState.playback_state_ram.value ≤ playbackState.value → itTriggerEvent = none

namespace EngineVoice

def isStealable (V : EngineVoice) : Bool :=
  V.itKillEvent.isNone && decide (PlaybackState.playback_state_ram.value ≤ V.playbackState.value)

/-- An event from before the voice was triggered does not kill it. -/
def kill (V : EngineVoice) (fragmentPos : ℕ → ℤ) (itKillEvent : ℕ) : EngineVoice :=
  if V.itTriggerEvent.any fun n => fragmentPos itKillEvent ≤ fragmentPos n then V
  else { V with itKillEvent := some itKillEvent }

theorem itKillEvent_kill {V : EngineVoice} (h : V.isStealable) (fragmentPos : ℕ → ℤ)
    (itKillEvent : ℕ) : (V.kill fragmentPos itKillEvent).itKillEvent = some itKillEvent := by
  rw [isStealable, Bool.and_eq_true, decide_eq_true_eq] at h
  have hnew : V.itTriggerEvent.any (fun n => fragmentPos itKillEvent ≤ fragmentPos n) = false := by
    rw [V.rendered h.2]
    rfl
  rw [kill, hnew]
  rfl

end EngineVoice

/-- The lists that allocate from the voice pool of an engine. -/
inductive VoiceList where
  | pool
  /-- `itNote->pActiveVoices` -/
  | activeVoices (note : ℕ)
deriving DecidableEq

/-- An iterator over the active keys of a channel. -/
structure KeyIterator (C : Type) where
  channel : C
  current : NodeRef Unit

/-- Where the last voice was found, on one channel or on all of them. -/
structure LastStolen (C : Type) where
  itLastStolenVoice : NodeRef VoiceList
  itLastStolenNote : NodeRef (NoteList C)
  iuiLastStolenKey : KeyIterator C

/-- `activeKey c` are the key numbers in the nodes of `pActiveKeys`. -/
structure StealingEngine (C : Type) where
  engineChannels : List C
  iEngineIndexSelf : C → ℕ
  voiceSpawnsLeft : ℤ
  pEventPool : Pool (EngineEventList C)
  fragmentPos : ℕ → ℤ
  pVoicePool : Pool VoiceList
  voice : ℕ → EngineVoice
  pNotePool : Pool (NoteList C)
  pActiveKeys : C → Pool Unit
  activeKey : C → ℕ → ℕ
  last : LastStolen C
  lastGlobally : LastStolen C
  pLastStolenChannel : Option C

namespace StealingEngine

variable {C : Type}

section Definitions

variable (S : StealingEngine C)

/-! ## Finding a voice -/

def findVoice (itVoice : NodeRef VoiceList) : Option (Option ℕ) :=
  S.pVoicePool.search (fun v => some (if (S.voice v).isStealable then some v else none)) itVoice

/-- The first note with a voice that can be stolen, and that voice. -/
def findNote (itNote : NodeRef (NoteList C)) : Option (Option (ℕ × ℕ)) :=
  S.pNotePool.search (fun k => do
    let itVoice ← S.findVoice (S.pVoicePool.next (.beginOf (.rtlist (.activeVoices k))))
    return itVoice.map (k, ·)) itNote

/-- The first key with such a note. The keys are looked up on channel `c`. -/
def findKey (c : C) (iuiKey : KeyIterator C) : Option (Option (ℕ × ℕ × ℕ)) :=
  (S.pActiveKeys iuiKey.channel).search (fun j => do
    let key := S.activeKey iuiKey.channel j
    let itNote ← S.findNote (S.pNotePool.next (.beginOf (.rtlist (.activeNotes c key))))
    return itNote.map (j, ·)) iuiKey.current

/-- The search continues on the same note, and on those behind it. -/
def resume (L : LastStolen C) : Option (LastStolen C × Option ℕ) := do
  match ← S.findVoice (S.pVoicePool.advance L.itLastStolenVoice) with
  | some v => return ({ L with itLastStolenVoice := .node v }, some v)
  | none =>
      let L := { L with itLastStolenNote := S.pNotePool.advance L.itLastStolenNote }
      match ← S.findNote L.itLastStolenNote with
      | some (k, v) =>
          return ({ L with itLastStolenNote := .node k, itLastStolenVoice := .node v }, some v)
      | none => return (L, none)

/-- `iuiLastStolenKey ? ++iuiLastStolenKey : pActiveKeys->first()` -/
def nextKey (c : C) (L : LastStolen C) : LastStolen C × KeyIterator C :=
  let it := L.iuiLastStolenKey
  match it.current with
  | .node j =>
      let it := { it with current := (S.pActiveKeys it.channel).next (.node j) }
      ({ L with iuiLastStolenKey := it }, it)
  | _ => (L, ⟨c, (S.pActiveKeys c).next (.beginOf (.rtlist ()))⟩)

def oldestKey (c : C) (L : LastStolen C) : Option (LastStolen C × Option ℕ) := do
  let (L, found) ← S.resume L
  match found with
  | some v => return (L, some v)
  | none =>
      let (L, iuiKey) := S.nextKey c L
      match ← S.findKey c iuiKey with
      | some (j, k, v) => return (⟨.node v, .node k, ⟨iuiKey.channel, .node j⟩⟩, some v)
      | none => return (L, none)

/-- `MidiKeyboardManager::StealVoice()`, up to the voice that is selected. -/
def stealOnChannel (algo : VoiceStealAlgo) (c : C) (key : ℕ) :
    Option (LastStolen C × Option ℕ) := do
  match algo with
  | .none => return (S.last, none)
  | .oldestvoiceonkey =>
      match ← S.findNote (S.pNotePool.next (.beginOf (.rtlist (.activeNotes c key)))) with
      | some (_, v) => return (S.last, some v)
      | none => S.oldestKey c S.last
  | .oldestkey => S.oldestKey c S.last

/-- `while (true)`, over the channels. -/
def searchChannels : ℕ → C → ℕ → LastStolen C → Option (LastStolen C × C × ℕ)
  | 0, _, _, _ => none
  | fuel + 1, pSelectedChannel, iChannelIndex, L => do
      let (L, iuiKey) := S.nextKey pSelectedChannel L
      let L := { L with iuiLastStolenKey := ⟨pSelectedChannel, .null⟩ }
      match ← S.findKey pSelectedChannel iuiKey with
      | some (j, k, v) =>
          return (⟨.node v, .node k, ⟨iuiKey.channel, .node j⟩⟩, pSelectedChannel, v)
      | none =>
          let iChannelIndex := (iChannelIndex + 1) % S.engineChannels.length
          let pSelectedChannel ← S.engineChannels[iChannelIndex]?
          searchChannels fuel pSelectedChannel iChannelIndex L

def selectChannel (c : C) : Option (C × ℕ) :=
  match S.pLastStolenChannel with
  | some d => some (d, S.iEngineIndexSelf d)
  | none =>
      let iChannelIndex := (S.iEngineIndexSelf c + 1) % S.engineChannels.length
      S.engineChannels[iChannelIndex]?.map (·, iChannelIndex)

/-- The voice is killed, and counted. -/
def steal (v itNoteOnEvent : ℕ) : StealingEngine C :=
  { S with
    voice := Function.update S.voice v ((S.voice v).kill S.fragmentPos itNoteOnEvent)
    voiceSpawnsLeft := S.voiceSpawnsLeft - 1 }

/-- A voice of any channel. `fuel` bounds the rounds over the channels. -/
def stealGlobally (c : C) (itNoteOnEvent fuel : ℕ) : Option (StealingEngine C × ℤ) := do
  let (pSelectedChannel, iChannelIndex) ← S.selectChannel c
  let (L, found) ← S.resume S.lastGlobally
  match found with
  | some v => return ({ S with lastGlobally := L }.steal v itNoteOnEvent, 0)
  | none =>
      let (L, d, v) ← S.searchChannels fuel pSelectedChannel iChannelIndex L
      return ({ S with lastGlobally := L, pLastStolenChannel := some d }.steal v itNoteOnEvent, 0)

/-- The note is to be on `key` of channel `c`. -/
def stealVoice [DecidableEq C] (algo : VoiceStealAlgo) (c : C) (itNoteOnEvent key fuel : ℕ) :
    Option (StealingEngine C × ℤ) := do
  if S.voiceSpawnsLeft ≤ 0 then return (S, -1)
  else if S.pEventPool.poolIsEmpty then return (S, -1)
  else
    let (last, found) ← S.stealOnChannel algo c key
    let S := { S with last := last }
    match found with
    | some v => return (S.steal v itNoteOnEvent, 0)
    | none => S.stealGlobally c itNoteOnEvent fuel

/-! ## Voices that are killed otherwise -/

def killVoices (vs : List ℕ) (itKillEvent : ℕ) : StealingEngine C :=
  { S with voice := fun v => if v ∈ vs then (S.voice v).kill S.fragmentPos itKillEvent
      else S.voice v }

/-- The voices of a list of notes, in the order of the notes. -/
def voicesOfNotes (notes : List ℕ) : List ℕ :=
  notes.flatMap fun k => S.pVoicePool.elements (.rtlist (.activeVoices k))

def notesOn (c : C) (key : ℕ) : List ℕ := S.pNotePool.elements (.rtlist (.activeNotes c key))

/-- The voices on the keys of channel `c` whose numbers are in the nodes of `d`. -/
def voicesOnKeys (c d : C) (nodes : List ℕ) : List ℕ :=
  nodes.flatMap fun j => S.voicesOfNotes (S.notesOn c (S.activeKey d j))

/-- The voices on the active keys of a channel. -/
def activeVoices (c : C) : List ℕ :=
  S.voicesOnKeys c c ((S.pActiveKeys c).elements (.rtlist ()))

/-- What `ProcessNoteOn()` does with a new note in solo mode: the voices on the youngest key are
killed. -/
def killForSolo (c : C) (itNoteOnEvent : ℕ) : StealingEngine C :=
  match ((S.pActiveKeys c).last (.rtlist ())).current with
  | .node j => S.killVoices
      ((S.voicesOnKeys c c [j]).filter fun v => !(S.voice v).isReleaseTrigger) itNoteOnEvent
  | _ => S

/-! ## New notes -/

section NewNotes

variable [DecidableEq C]

/-- A key is active when it is among the active keys of the channel. -/
def markKeyAsActive (c : C) (key : ℕ) : StealingEngine C :=
  if ((S.pActiveKeys c).elements (.rtlist ())).any fun j => S.activeKey c j = key then S
  else
    let (pActiveKeys, itSelf) := (S.pActiveKeys c).allocAppend ()
    let S := { S with pActiveKeys := Function.update S.pActiveKeys c pActiveKeys }
    match itSelf.index with
    | none => S
    | some j =>
        let numbers := Function.update (S.activeKey c) j key
        { S with activeKey := Function.update S.activeKey c numbers }

/-- `LaunchNewNote()` for a note without a parent. It has no voices yet. -/
def launchNewNote (c : C) (key : ℕ) : StealingEngine C :=
  if S.pNotePool.poolIsEmpty then S
  else
    let (pNotePool, itNewNote) := S.pNotePool.allocAppend .pool
    let (pNotePool, _) := pNotePool.moveToEndOf itNewNote (.activeNotes c key)
    { S with pNotePool := pNotePool }.markKeyAsActive c key

/-- A note-on event in solo mode, until its voices are launched. `ImportEvents()` launches the note
and marks its key, so that this is the youngest key unless it was active before. -/
def soloNoteOn (c : C) (itNoteOnEvent key : ℕ) : StealingEngine C :=
  (S.launchNewNote c key).killForSolo c itNoteOnEvent

end NewNotes

def killAllVoices (c : C) (itKillEvent : ℕ) : StealingEngine C :=
  { S.killVoices (S.activeVoices c) itKillEvent with
    voiceSpawnsLeft := S.voiceSpawnsLeft - (S.activeVoices c).length }

end Definitions

end StealingEngine

end LinuxSampler
