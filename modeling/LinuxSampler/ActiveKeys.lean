import LinuxSampler.MidiKeyboard
import LinuxSampler.ScriptChannel

/-!
# The list of active keys

A key is active from its first note or voice on, until a fragment ends
without a note on it. The numbers of the active keys are the elements of a
pool, and each active key has the iterator of its own element. When a key
becomes inactive it leaves that list, and the script events that were kept
for its release are to be released with it.
-/

namespace LinuxSampler

/-- The pool of the active keys has no other list. A note is the list of its
active voices, by their index. -/
structure PooledKey extends MidiKey where
  itSelf : Iterator Unit
  pActiveNotes : List (List ℕ)

/-- `number` is the data of the elements of `pActiveKeys`. -/
structure ActiveKeys (L : ScriptLang) where
  pMIDIKeyInfo : Key → PooledKey
  pActiveKeys : Pool Unit
  number : ℕ → Key
  pScript : Option (ScriptChannel L)

namespace PooledKey

def init : PooledKey := { MidiKey.init with itSelf := .invalid, pActiveNotes := [] }

/-- `MidiKey::Reset()` -/
def reset (key : PooledKey) : PooledKey := { init with velocity := key.velocity }

/-- The loop over the notes of an active key: those without active voices are
freed. -/
def freeNotes (key : PooledKey) : PooledKey :=
  { key with pActiveNotes := key.pActiveNotes.filter fun pActiveVoices => !pActiveVoices.isEmpty }

/-- What `FreeKey()` writes to the key. -/
def release (key : PooledKey) : PooledKey :=
  { key with
    active := false
    itSelf := .invalid
    releaseTrigger := .none
    events := []
    past := [] }

end PooledKey

namespace ActiveKeys

variable {L : ScriptLang}

def modifyKey (S : ActiveKeys L) (k : Key) (f : PooledKey → PooledKey) : ActiveKeys L :=
  { S with pMIDIKeyInfo := Function.update S.pMIDIKeyInfo k (f (S.pMIDIKeyInfo k)) }

/-- What is done to the script of the channel, if it has one. -/
def onScript (S : ActiveKeys L) (f : ScriptChannel L → Option (ScriptChannel L)) :
    Option (ActiveKeys L) :=
  match S.pScript with
  | none => some S
  | some channel => (f channel).map fun channel => { S with pScript := some channel }

def markKeyAsActive (S : ActiveKeys L) (k : Key) : Option (ActiveKeys L) :=
  if (S.pMIDIKeyInfo k).active then some S
  else
    let (pActiveKeys, itSelf) := S.pActiveKeys.allocAppend ()
    let S := S.modifyKey k ({ · with active := true, itSelf := itSelf })
    itSelf.index.map fun i =>
      { S with pActiveKeys := pActiveKeys, number := Function.update S.number i k }

/-- `pKeyEvents` is indexed by the iterator itself, which converts to
`bool`. -/
def freeKey (S : ActiveKeys L) (k : Key) : Option (ActiveKeys L) :=
  let key := S.pMIDIKeyInfo k
  if key.pActiveNotes.isEmpty then do
    let S ← S.onScript (·.freeKey key.itSelf.hasData)
    let (pActiveKeys, _) := S.pActiveKeys.free key.itSelf
    return { S.modifyKey k PooledKey.release with pActiveKeys := pActiveKeys }
  else some S

/-- The body of the loop of `FreeAllInactiveKeys()`. -/
def freeIfInactive (S : ActiveKeys L) (k : Key) : Option (ActiveKeys L) :=
  let S := S.modifyKey k PooledKey.freeNotes
  if (S.pMIDIKeyInfo k).pActiveNotes.isEmpty then S.freeKey k else some S

/-- The loop of `FreeAllInactiveKeys()`. The iterator has left an element
before its key is freed. -/
def freeInactiveFrom : ℕ → ActiveKeys L → Iterator Unit → Option (ActiveKeys L)
  | 0, _, _ => none
  | fuel + 1, S, iuiKey =>
      if iuiKey.current = .endOf (.rtlist ()) then some S
      else do
        let i ← iuiKey.index
        let k := S.number i
        let iuiKey := S.pActiveKeys.increment iuiKey
        let S ← S.freeIfInactive k
        freeInactiveFrom fuel S iuiKey

def freeAllInactiveKeys (S : ActiveKeys L) : Option (ActiveKeys L) :=
  freeInactiveFrom (S.pActiveKeys.poolsize + 1) S (S.pActiveKeys.first (.rtlist ()))

/-- `MidiKeyboardManager::Reset()` -/
def reset (S : ActiveKeys L) : Option (ActiveKeys L) := do
  let S ← S.onScript (·.clearKeys)
  let pActiveKeys ← S.pActiveKeys.clear ()
  return { S with
    pMIDIKeyInfo := fun k => (S.pMIDIKeyInfo k).reset
    pActiveKeys := pActiveKeys }

/-! ## What is kept -/

/-- The script events that are kept for a key. -/
def kept (S : ActiveKeys L) (k : Key) : List ℕ := S.pScript.elim [] (·.keyEvents k)

/-- The key was active, and is no longer. -/
def Freed (S S' : ActiveKeys L) (k : Key) : Prop :=
  (S.pMIDIKeyInfo k).active = true ∧ (S'.pMIDIKeyInfo k).active = false

/-- The keys that were freed have released their script events, and no others
were released. -/
structure ReleasesOwn (S S' : ActiveKeys L) : Prop where
  freed : ∀ k, S.Freed S' k → S'.kept k = []
  others : ∀ k, ¬ S.Freed S' k → S'.kept k = S.kept k

def OnlyActiveKept (S : ActiveKeys L) : Prop :=
  ∀ k, (S.pMIDIKeyInfo k).active = false → S.kept k = []

/-- An active key without an active voice. -/
def Frees (S : ActiveKeys L) (k : Key) : Prop :=
  (S.pMIDIKeyInfo k).active = true ∧ ∀ voices ∈ (S.pMIDIKeyInfo k).pActiveNotes, voices = []

/-- The list that is cleared is that of key 1, so nothing is kept for the other
keys to be freed, nor for key 1 if it is not among them. -/
def SparesKept (S : ActiveKeys L) : Prop :=
  (∀ k, S.Frees k → k ≠ 1 → S.kept k = []) ∧ ((∃ k, S.Frees k) → S.Frees 1 ∨ S.kept 1 = [])

instance (S : ActiveKeys L) : DecidablePred S.Frees := fun _ =>
  inferInstanceAs (Decidable (_ ∧ _))

instance (S : ActiveKeys L) : Decidable S.SparesKept := inferInstanceAs (Decidable (_ ∧ _))

end ActiveKeys

/-! ## Runs -/

inductive ActiveKeysAction where
  /-- a voice is launched on the key -/
  | markKeyAsActive (k : Key)
  /-- a note is launched on the key -/
  | launchNewNote (k : Key)
  /-- voices of a note are launched or end -/
  | setVoices (k : Key) (note : ℕ) (voices : List ℕ)
  | script (action : ChannelAction)
  /-- the end of a fragment -/
  | freeAllInactiveKeys
  | reset

namespace ActiveKeys

variable {L : ScriptLang} (script : InstrumentScript L)

/-- The script is between two executions. -/
def scriptIdle (S : ActiveKeys L) : Bool :=
  S.pScript.all fun channel => channel.control.cursor.isNone && channel.control.execution.isNone

/-- Keys are freed and reset by the keyboard manager alone. -/
def step (S : ActiveKeys L) : ActiveKeysAction → Option (ActiveKeys L)
  | .markKeyAsActive k => S.markKeyAsActive k
  | .launchNewNote k =>
      (S.modifyKey k fun key =>
        { key with pActiveNotes := key.pActiveNotes ++ [[]] }).markKeyAsActive k
  | .setVoices k note voices =>
      some (S.modifyKey k fun key =>
        { key with pActiveNotes := key.pActiveNotes.modify note fun _ => voices })
  | .script (.freeKey _) | .script .resetKeys => none
  | .script action => S.onScript (·.step script action)
  | .freeAllInactiveKeys => if S.scriptIdle then S.freeAllInactiveKeys else none
  | .reset => if S.scriptIdle then S.reset else none

def run (actions : List ActiveKeysAction) (S : ActiveKeys L) : Option (ActiveKeys L) :=
  actions.foldlM (step script) S

/-- No key is active, and the script was just loaded if there is one. -/
structure Created (sizes : PolyphonicSizes) (size : ℕ) (S : ActiveKeys L) : Prop where
  keys : ∀ k, S.pMIDIKeyInfo k = .init
  pool : S.pActiveKeys = .create Unit 128 0
  script : ∀ channel ∈ S.pScript, channel.Loaded script sizes size

end ActiveKeys

end LinuxSampler
