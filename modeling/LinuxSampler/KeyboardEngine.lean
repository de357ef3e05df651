import LinuxSampler.MidiKeyboard
import LinuxSampler.StepSystem

/-!
# The keys of an engine

The keys of all engine channels of an engine, the notes on them, and how an
audio fragment changes them: the import of the events, their processing, the
rendering of stolen voices and the cleanup at the end.

What is decided by the audio data, by the format of the instrument or by the
state of a pool is part of an action: whether a pool has an element left, which
voices a note launches, which voices end.
-/

namespace LinuxSampler

/-- A note, by its ID. -/
structure NoteObject (C : Type*) where
  id : ℕ
  channel : C
  hostKey : Key
deriving DecidableEq

/-- An event of `pVoiceStealingQueue`. -/
structure StolenVoice (C : Type*) where
  channel : C
  event : KeyEvent
deriving DecidableEq

/-- `rendering` is no data of the class: it is set while an audio fragment is
processed. -/
structure Keyboards (C : Type*) where
  channel : C → KeyboardChannel
  notes : List (NoteObject C)
  voiceStealingQueue : List (StolenVoice C)
  rendering : Bool

/-- `note` and `childNote` answer `LaunchNewNote()` for a key: the ID of the next
note, zero if the pool is empty, and whether the pool of note IDs has an
element. -/
structure NotePools where
  note : Key → ℕ
  childNote : Bool

/-- What becomes of one call of `LaunchVoice()`: it ends without a voice, or
`InitNewVoice()` starts one, or there is no free voice. In the last case a voice
may be stolen, and the event may find a place in the queue. -/
inductive Launch where
  | nothing
  | started (flags : ReleaseTrigger)
  | noFreeVoice (stolen queued : Bool)
deriving DecidableEq

def Launch.isStarted : Launch → Bool
  | .started _ => true
  | _ => false

/-- A list that holds an event, and the position of the event. -/
inductive EventPlace (C : Type*) where
  | pending (c : C) (n : ℕ)
  | key (c : C) (k : Key) (n : ℕ)
  | stolen (n : ℕ)

/-- The calls of script functions that reach the keys. For a note that is ignored
`event` is the place of the event that caused it. -/
inductive ScriptCall (C : Type*) where
  | ignoreEvent (event : EventPlace C)
  | ignoreNote (id : ℕ) (event : EventPlace C)
  | scheduleNote (c : C) (pools : NotePools) (e : KeyEvent)

/-- The answers that processing an event depends on; those for the lists and
the notes are given for each key. `script` is what a script's handler for (N)RPN
events calls, it may drop the event. -/
structure KeyOutcome (C : Type*) where
  alloc : Key → Bool
  pools : NotePools
  launches : Key → List Launch
  script : List (ScriptCall C)
  dropped : Bool

namespace Keyboards

variable {C : Type*} [DecidableEq C]

def init : Keyboards C where
  channel := fun _ => .init
  notes := []
  voiceStealingQueue := []
  rendering := false

def onChannel (s : Keyboards C) (c : C) (f : KeyboardChannel → KeyboardChannel) : Keyboards C :=
  { s with channel := Function.update s.channel c (f (s.channel c)) }

def key (s : Keyboards C) (c : C) (k : Key) : MidiKey := (s.channel c).keys k

/-! ## Notes and voices -/

omit [DecidableEq C] in
def noteByID (s : Keyboards C) (id : ℕ) : Option (NoteObject C) := s.notes.find? (·.id = id)

/-- The key a new note belongs to: that of its parent, if it has one. -/
def hostKeyOf (s : Keyboards C) (pools : NotePools) (e : KeyEvent) : Option Key :=
  if e.parentNoteID = 0 then some e.key
  else
    match s.noteByID e.parentNoteID with
    | some parent => if pools.childNote then some parent.hostKey else none
    | none => none

/-- The ID is zero if no note was launched. -/
def launchNewNote (pools : NotePools) (c : C) (e : KeyEvent) (s : Keyboards C) :
    Keyboards C × ℕ :=
  let newNoteID := pools.note e.key
  if newNoteID = 0 then (s, 0)
  else
    match s.hostKeyOf pools e with
    | none => (s, 0)
    | some hostKey =>
        let s : Keyboards C := { s with notes := s.notes ++ [⟨newNoteID, c, hostKey⟩] }
        (s.onChannel c (·.markKeyAsActive hostKey), newNoteID)

/-- `LaunchVoice()`, which ends with `InitNewVoice()`. -/
def launchVoice (voiceStealing : Bool) (c : C) (e : KeyEvent) (s : Keyboards C) :
    Launch → Keyboards C
  | .nothing => s
  | .started flags =>
      s.onChannel c fun ch => (ch.markKeyAsActive e.key).modifyKey e.key fun key =>
        { key with releaseTrigger := key.releaseTrigger.or flags }
  | .noFreeVoice stolen queued =>
      if voiceStealing && stolen && queued then
        let s : Keyboards C :=
          { s with voiceStealingQueue := s.voiceStealingQueue ++ [⟨c, e⟩] }
        s.onChannel c
          (·.modifyKey e.key fun key => { key with voiceTheftsQueued := key.voiceTheftsQueued + 1 })
      else s

def triggerNewVoices (launches : List Launch) (c : C) (e : KeyEvent) (s : Keyboards C) :
    Keyboards C :=
  if (s.noteByID e.noteID).isSome then launches.foldl (launchVoice true c e) s else s

/-- Voices are not stolen for release triggered ones. -/
def triggerReleaseVoices (launches : List Launch) (c : C) (e : KeyEvent) (s : Keyboards C) :
    Keyboards C :=
  if (s.noteByID e.noteID).isSome then launches.foldl (launchVoice false c e) s else s

/-- `e` is the event at position `n` of the list of key `k`. -/
def processReleaseTrigger (o : KeyOutcome C) (c : C) (k : Key) (n : ℕ) (e : KeyEvent)
    (s : Keyboards C) : Keyboards C :=
  if (s.key c k).releaseTrigger ≠ .none ∧ (s.channel c).hasInstrument then
    let launched := s.launchNewNote o.pools c e
    let noteID := launched.2
    let s :=
      if noteID = 0 then launched.1
      else
        (launched.1.onChannel c
          (·.modifyKey k (·.modifyEvent n ({ · with noteID := noteID })))).triggerReleaseVoices
            (o.launches k) c { e with noteID := noteID }
    s.onChannel c (·.modifyKey k ({ · with releaseTrigger := .none }))
  else s

/-- If neither a voice was spawned nor postponed, then the event at position `n`
is removed from the key again. -/
def freeUnused (c : C) (k : Key) (n : ℕ) (s : Keyboards C) : Keyboards C :=
  s.onChannel c (·.modifyKey k fun key =>
    if !key.active ∧ key.voiceTheftsQueued = 0 then key.freeEvent n else key)

/-! ## Note events -/

end Keyboards

namespace KeyboardChannel

/-- The event goes to the list of its key. A real note-on presses the key. -/
def receiveNoteOn (e : KeyEvent) (ch : KeyboardChannel) : KeyboardChannel :=
  let ch := ch.append e.key e
  if e.type = .note_on then
    let ch := if ch.soloMode then { ch with soloKey := some e.key } else ch
    (ch.modifyKey e.key ({ · with keyPressed := true, velocity := e.velocity })).setKeyDown e.key true
  else ch

/-- The release of the voices on the key is cancelled if needed. -/
def cancelRelease (alloc : Bool) (e : KeyEvent) (ch : KeyboardChannel) : KeyboardChannel :=
  if (ch.keys e.key).active ∧ !ch.sustainPedal ∧ e.type = .note_on ∧ alloc then
    ch.append e.key { e with type := .cancel_release_key }
  else ch

/-- The key is released, the event goes to its list. -/
def receiveNoteOff (e : KeyEvent) (ch : KeyboardChannel) : KeyboardChannel :=
  ((ch.modifyKey e.key ({ · with keyPressed := false })).setKeyDown e.key false).append e.key e

end KeyboardChannel

namespace Keyboards

variable {C : Type*} [DecidableEq C]

/-- For `note_on` and `play_note` events. -/
def processNoteOn (o : KeyOutcome C) (c : C) (e : KeyEvent) (s : Keyboards C) : Keyboards C :=
  if (s.channel c).mute then s
  else if !(s.channel c).hasInstrument then s
  else
    let n := (s.key c e.key).events.length
    let s := s.onChannel c (·.receiveNoteOn e)
    let s := s.onChannel c (·.cancelRelease (o.alloc e.key) e)
    (s.triggerNewVoices (o.launches e.key) c e).freeUnused c e.key n

/-- Solo mode: when the solo key is released, the highest pressed key sounds
again, by a pseudo note-on. -/
def respawnSolo (o : KeyOutcome C) (c : C) (e : KeyEvent) (s : Keyboards C) :
    Keyboards C × Bool :=
  if (s.channel c).soloMode ∧ (s.channel c).hasInstrument ∧
      (s.channel c).soloKey = some e.key then
    match (s.channel c).highestPressed with
    | none => (s.onChannel c ({ · with soloKey := none }), false)
    | some i =>
        let s := s.onChannel c ({ · with soloKey := some i })
        if o.alloc i then
          let n := (s.key c i).events.length
          let pseudo := { e with type := .note_on, key := i, velocity := (s.key c i).velocity }
          let s := s.onChannel c (·.append i pseudo)
          let launched := s.launchNewNote o.pools c pseudo
          let noteID := launched.2
          let s :=
            if noteID = 0 then launched.1
            else
              (launched.1.onChannel c
                (·.modifyKey i (·.modifyEvent n ({ · with noteID := noteID })))).triggerNewVoices
                  (o.launches i) c { pseudo with noteID := noteID }
          (s.freeUnused c i n, true)
        else (s, true)
  else (s, false)

/-- The event at position `n` of its key releases the voices there. -/
def releaseKey (o : KeyOutcome C) (c : C) (n : ℕ) (e : KeyEvent) (s : Keyboards C) : Keyboards C :=
  let s := s.onChannel c (·.modifyKey e.key (·.modifyEvent n ({ · with type := .release_key })))
  if (s.key c e.key).releaseTrigger.noteoff then
    s.processReleaseTrigger o c e.key n { e with type := .release_key }
  else s

/-- A real note-off. In solo mode the voices of its key are killed instead of
released if another key is pressed. -/
def processKeyRelease (o : KeyOutcome C) (c : C) (e : KeyEvent) (s : Keyboards C) :
    Keyboards C :=
  let n := (s.key c e.key).events.length
  let s := s.onChannel c (·.receiveNoteOff e)
  let bShouldRelease := (s.key c e.key).active && (s.channel c).shouldReleaseVoice e.key
  let respawned := s.respawnSolo o c e
  let bOtherKeysPressed := respawned.2
  let killed := bOtherKeysPressed && (respawned.1.key c e.key).active
  let s := if bShouldRelease && !killed then respawned.1.releaseKey o c n e else respawned.1
  s.freeUnused c e.key n

/-- `note_off()` of a script releases the voices of one note. -/
def processStopNote (c : C) (e : KeyEvent) (s : Keyboards C) : Keyboards C :=
  let n := (s.key c e.key).events.length
  let s := s.onChannel c (·.append e.key e)
  match s.noteByID e.noteID with
  | some _ =>
      (s.onChannel c
        (·.modifyKey e.key (·.modifyEvent n ({ · with type := .release_note })))).freeUnused c e.key n
  | none => s.onChannel c (·.modifyKey e.key (·.freeEvent n))

/-- For `note_off` and `stop_note` events. -/
def processNoteOff (o : KeyOutcome C) (c : C) (e : KeyEvent) (s : Keyboards C) : Keyboards C :=
  if (s.channel c).mute then s
  else if e.type = .note_off then s.processKeyRelease o c e
  else s.processStopNote c e

/-- `ProcessKillNote()` and `ProcessNoteSynthParam()`: the event goes to the key of
the note. The note is any note of the engine, the key is one of this channel. -/
def moveToNoteKey (c : C) (e : KeyEvent) (s : Keyboards C) : Keyboards C :=
  match s.noteByID e.noteID with
  | some note => s.onChannel c (·.append note.hostKey e)
  | none => s

end Keyboards

end LinuxSampler
