import LinuxSampler.StreamOrder
import LinuxSampler.VoiceStealing

/-!
# Suspending a region

Before an instrument editor modifies a region, the engine kills the voices
that play it and remembers that the region is not to be used. The voices of a
key are killed all together or not at all, on what the first voice of the
first note of the key plays.

What a traversal makes of its elements does not depend on the disk thread that
it hands through, which `Gives` says.
-/

namespace LinuxSampler

/-! ## Traversals -/

section Traversals

universe u

variable {α : Type*} {β γ σ : Type u}

/-- The result of a computation does not depend on the state it starts from. -/
def Gives (f : StateT σ Option β) (r : Option β) : Prop := ∀ s, (f s).map Prod.fst = r

namespace Gives

theorem pure (b : β) : Gives (Pure.pure b : StateT σ Option β) (some b) := fun _ => rfl

theorem lift (r : Option β) : Gives (liftM r : StateT σ Option β) r := by
  intro s
  cases r with
  | none => rfl
  | some b => rfl

theorem bind {f : StateT σ Option β} {g : β → StateT σ Option γ} {r : Option β}
    {r' : β → Option γ} (hf : Gives f r) (hg : ∀ b, Gives (g b) (r' b)) :
    Gives (f >>= g) (r.bind r') := by
  intro s
  rw [← hf s]
  change ((f s).bind fun p => g p.1 p.2).map Prod.fst = _
  cases f s with
  | none => rfl
  | some p => exact hg p.1 p.2

theorem mapM {f : α → StateT σ Option β} {r : α → Option β} (h : ∀ a, Gives (f a) (r a))
    (as : List α) : Gives (as.mapM f) (as.mapM r) := by
  induction as with
  | nil => exact pure []
  | cons a as ih =>
    rw [List.mapM_cons, List.mapM_cons]
    exact (h a).bind fun b => ih.bind fun bs => pure (b :: bs)

end Gives

/-- A traversal is a map exactly if each element is mapped. -/
theorem mapM_eq_some_map {f : α → Option β} {g : α → β} {as : List α} :
    as.mapM f = some (as.map g) ↔ ∀ a ∈ as, f a = some (g a) := by
  induction as with
  | nil => simp
  | cons a as ih =>
    rw [List.mapM_cons, List.forall_mem_cons, ← ih]
    cases f a with
    | none => simp
    | some b =>
      cases as.mapM f with
      | none => simp
      | some bs => simp

end Traversals

/-! ## Voices -/

/-- A voice of the given region. `kills` is no data of the class: the calls of
`KillImmediately()`. -/
structure RegionVoice (R : Type) where
  pRegion : R
  diskVoice : Bool
  diskStreamRef : StreamReference
  playbackState : PlaybackState
  itTriggerEvent : Option ℕ
  itKillEvent : Option ℕ
  kills : ℕ
deriving DecidableEq

structure DeleteCommand where
  pStream : Option ℕ
  hStream : ℕ
  orderID : ℕ
  bNotify : Bool

/-- What the audio thread has ordered to be deleted, and how much the queue can
still hold. -/
structure DeletionQueue where
  commands : List DeleteCommand
  writeSpace : ℕ

/-- An order for which the queue has no space is lost. -/
def DeletionQueue.orderDeletionOfStream (ref : StreamReference) (bRequestNotification : Bool)
    (q : DeletionQueue) : DeletionQueue :=
  if q.writeSpace < 1 then q
  else
    { commands := q.commands ++ [⟨ref.pStream, ref.hStream, ref.orderID, bRequestNotification⟩]
      writeSpace := q.writeSpace - 1 }

namespace RegionVoice

variable {R : Type}

def reset (v : RegionVoice R) : RegionVoice R :=
  { v with
    diskStreamRef := .unused
    playbackState := .playback_state_end
    itTriggerEvent := none
    itKillEvent := none }

def kill (v : RegionVoice R) : RegionVoice R := { v.reset with kills := v.kills + 1 }

/-- The handle of the stream that is to be deleted, or 0. -/
def killImmediately (bRequestNotification : Bool) (v : RegionVoice R) :
    StateM DeletionQueue (RegionVoice R × ℕ) := do
  if v.diskVoice ∧ v.diskStreamRef.state ≠ .unused then
    modify (DeletionQueue.orderDeletionOfStream v.diskStreamRef bRequestNotification)
    return (v.kill, v.diskStreamRef.hStream)
  else return (v.kill, 0)

end RegionVoice

/-! ## The handler -/

/-- A key is given by the voices of its notes. -/
abbrev KeyVoices (R : Type) : Type := List (List (RegionVoice R))

structure VoiceHandler (σ R : Type) where
  /-- `none`: a null pointer was followed. -/
  processKey : KeyVoices R → Option Bool
  processVoice : RegionVoice R → StateM σ (RegionVoice R)

namespace VoiceHandler

variable {σ R : Type} (handler : VoiceHandler σ R)

def process (key : KeyVoices R) : StateT σ Option (KeyVoices R) := do
  if ← handler.processKey key then
    key.mapM (·.mapM fun v s => some (handler.processVoice v s))
  else return key

/-- The active keys of a channel are visited one by one. -/
def processActiveVoices (keys : List (KeyVoices R)) : StateT σ Option (List (KeyVoices R)) :=
  keys.mapM handler.process

end VoiceHandler

structure SuspensionState where
  pendingStreamDeletions : ℕ
  deletionQueue : DeletionQueue

section Handler

variable {R RR : Type} [DecidableEq RR] (getParent : R → RR) (pPendingRegionSuspension : RR)

def suspensionVoiceHandler : VoiceHandler SuspensionState R where
  processKey
    | (v :: _) :: _ => some (getParent v.pRegion = pPendingRegionSuspension)
    | _ => none
  processVoice v := fun s =>
    let ((v, hStream), deletionQueue) := v.killImmediately true s.deletionQueue
    let pendingStreamDeletions :=
      if hStream ≠ 0 then s.pendingStreamDeletions + 1 else s.pendingStreamDeletions
    (v, { pendingStreamDeletions, deletionQueue })

/-- Each channel has a handler of its own, whose count is added. -/
def suspendChannel (keys : List (KeyVoices R)) :
    StateT SuspensionState Option (List (KeyVoices R)) := fun s => do
  let handler := suspensionVoiceHandler getParent pPendingRegionSuspension
  let (keys, handled) ← handler.processActiveVoices keys { s with pendingStreamDeletions := 0 }
  return (keys, { handled with
    pendingStreamDeletions := s.pendingStreamDeletions + handled.pendingStreamDeletions })

end Handler

/-! ## The engine -/

/-- `SuspendedRegions`, a pool of 128 elements. -/
structure SuspendedRegions (RR : Type) where
  regions : List RR
  nodup : regions.Nodup
  length_le : regions.length ≤ 128

namespace SuspendedRegions

variable {RR : Type} [DecidableEq RR] (S : SuspendedRegions RR) (r : RR)

/-- A region for which there is no element is not put on the list. -/
def suspend : SuspendedRegions RR :=
  if hmem : r ∈ S.regions then S
  else if hroom : S.regions.length < 128 then
    { regions := S.regions ++ [r]
      nodup := List.nodup_append.mpr ⟨S.nodup, List.nodup_singleton r, fun _ hq _ hr heq =>
        hmem (List.mem_singleton.mp hr ▸ heq ▸ hq)⟩
      length_le := by rwa [List.length_append, List.length_singleton] }
  else S

def resume : SuspendedRegions RR where
  regions := S.regions.erase r
  nodup := S.nodup.erase r
  length_le := (List.length_erase_le).trans S.length_le

end SuspendedRegions

/-- A mutex lets in one caller at a time, so there is one request at most. -/
structure SuspensionEngine (R RR : Type) where
  engineChannels : List (List (KeyVoices R))
  suspendedRegions : SuspendedRegions RR
  iPendingStreamDeletions : ℕ
  deletionQueue : DeletionQueue
  pPendingRegionSuspension : Option RR
  pPendingRegionResumption : Option RR
  suspensionChangeOngoing : Bool
  exclusive : pPendingRegionSuspension = none ∨ pPendingRegionResumption = none

namespace SuspensionEngine

variable {R RR : Type} [DecidableEq RR] {getParent : R → RR} {s s' : SuspensionEngine R RR} {r : RR}

def processSuspension (getParent : R → RR) (r : RR) (s : SuspensionEngine R RR) :
    Option (SuspensionEngine R RR) := do
  let (engineChannels, st) ← (s.engineChannels.mapM (suspendChannel getParent r)).run
    ⟨s.iPendingStreamDeletions, s.deletionQueue⟩
  return { s with
    engineChannels
    suspendedRegions := s.suspendedRegions.suspend r
    iPendingStreamDeletions := st.pendingStreamDeletions
    deletionQueue := st.deletionQueue
    pPendingRegionSuspension := none
    suspensionChangeOngoing :=
      if st.pendingStreamDeletions = 0 then false else s.suspensionChangeOngoing
    exclusive := .inl rfl }

def processResumption (r : RR) (s : SuspensionEngine R RR) : SuspensionEngine R RR :=
  { s with
    suspendedRegions := s.suspendedRegions.resume r
    pPendingRegionResumption := none
    suspensionChangeOngoing := false
    exclusive := .inr rfl }

/-- `none`: a null pointer was followed. -/
def processSuspensionsChanges (getParent : R → RR) (s : SuspensionEngine R RR) :
    Option (SuspensionEngine R RR) := do
  let s ← match s.pPendingRegionSuspension with
    | some r => s.processSuspension getParent r
    | none => some s
  return match s.pPendingRegionResumption with
    | some r => s.processResumption r
    | none => s

/-! ## What a suspension is for -/

/-- A voice is killed if it plays the region. -/
def killIn (getParent : R → RR) (r : RR) (v : RegionVoice R) : RegionVoice R :=
  if getParent v.pRegion = r then v.kill else v

/-- Exactly the voices of the region are killed, and the region is put on the list once. -/
structure Suspends (getParent : R → RR) (s s' : SuspensionEngine R RR) (r : RR) : Prop where
  voices : s'.engineChannels =
    s.engineChannels.map (List.map (List.map (List.map (killIn getParent r))))
  once : s'.suspendedRegions.regions.count r = 1
  others : ∀ q, q ≠ r → (q ∈ s'.suspendedRegions.regions ↔ q ∈ s.suspendedRegions.regions)

/-- The first note has a voice, and what it plays the other voices of the key play as well. -/
def PlaysOnly (getParent : R → RR) (r : RR) (key : KeyVoices R) : Prop :=
  ∃ v voices notes, key = (v :: voices) :: notes ∧ ∀ voices ∈ key, ∀ w ∈ voices,
    getParent w.pRegion = r ↔ getParent v.pRegion = r

structure Uniform (getParent : R → RR) (s : SuspensionEngine R RR) (r : RR) : Prop where
  keys : ∀ ch ∈ s.engineChannels, ∀ key ∈ ch, PlaysOnly getParent r key
  room : r ∈ s.suspendedRegions.regions ∨ s.suspendedRegions.regions.length < 128

/-! ## When it does that -/

omit [DecidableEq RR] in
theorem gives_process {σ : Type} {handler : VoiceHandler σ R}
    {f : RegionVoice R → RegionVoice R} (hf : ∀ v s, (handler.processVoice v s).1 = f v)
    (key : KeyVoices R) : Gives (handler.process key) ((handler.processKey key).bind fun b =>
      if b then some (key.map (List.map f)) else some key) := by
  refine (Gives.lift _).bind fun b => ?_
  cases b with
  | false => exact .pure key
  | true =>
      have hvoices (voices : List (RegionVoice R)) :
          Gives (voices.mapM fun v (s : σ) => some (handler.processVoice v s))
            (some (voices.map f)) := by
        have hmap := Gives.mapM (f := fun v (s : σ) => some (handler.processVoice v s))
          (r := fun v => some (f v)) (fun v s => congrArg some (hf v s)) voices
        rwa [mapM_eq_some_map.mpr fun _ _ => rfl] at hmap
      have hkey := Gives.mapM hvoices key
      rwa [mapM_eq_some_map.mpr fun voices _ => rfl] at hkey

theorem processVoice_suspensionVoiceHandler (getParent : R → RR) (r : RR) (v : RegionVoice R)
    (s : SuspensionState) :
    ((suspensionVoiceHandler getParent r).processVoice v s).1 = v.kill := by
  rw [suspensionVoiceHandler]
  dsimp only
  rw [RegionVoice.killImmediately]
  by_cases hstream : v.diskVoice ∧ v.diskStreamRef.state ≠ .unused
  · rw [if_pos hstream]
    rfl
  · rw [if_neg hstream]
    rfl

/-- What becomes of a key. -/
def suspendKey (getParent : R → RR) (r : RR) : KeyVoices R → Option (KeyVoices R)
  | (v :: voices) :: notes =>
      if getParent v.pRegion = r then some (((v :: voices) :: notes).map (List.map .kill))
      else some ((v :: voices) :: notes)
  | _ => none

theorem gives_suspendChannel (getParent : R → RR) (r : RR) (keys : List (KeyVoices R)) :
    Gives (suspendChannel getParent r keys) (keys.mapM (suspendKey getParent r)) := by
  have hkeys : Gives ((suspensionVoiceHandler getParent r).processActiveVoices keys)
      (keys.mapM (suspendKey getParent r)) := by
    refine Gives.mapM (fun key => ?_) keys
    have hprocess := gives_process (processVoice_suspensionVoiceHandler getParent r) key
    suffices hkey : suspendKey getParent r key = _ by
      rw [hkey]
      exact hprocess
    rw [suspensionVoiceHandler]
    match key with
    | (v :: voices) :: notes =>
        rw [suspendKey, Option.bind_some]
        simp only [decide_eq_true_eq]
    | [] => rfl
    | [] :: notes => rfl
  intro s
  rw [← hkeys { s with pendingStreamDeletions := 0 }]
  rw [suspendChannel]
  dsimp only
  cases (suspensionVoiceHandler getParent r).processActiveVoices keys
    { s with pendingStreamDeletions := 0 } with
  | none => rfl
  | some p => rfl

/-- A killed voice is not as before. -/
theorem kill_ne (v : RegionVoice R) : v.kill ≠ v := by
  intro heq
  exact absurd (congrArg RegionVoice.kills heq) (Nat.succ_ne_self _)

theorem suspendKey_eq_some {key : KeyVoices R} :
    suspendKey getParent r key = some (key.map (List.map (killIn getParent r))) ↔
      PlaysOnly getParent r key := by
  have hmap {f : RegionVoice R → RegionVoice R} : key.map (List.map f) =
      key.map (List.map (killIn getParent r)) ↔
        ∀ voices ∈ key, ∀ w ∈ voices, f w = killIn getParent r w := by
    simp only [List.map_inj_left]
  match key with
  | (v :: voices) :: notes =>
      have honly : PlaysOnly getParent r ((v :: voices) :: notes) ↔
          ∀ voices' ∈ (v :: voices) :: notes, ∀ w ∈ voices',
            getParent w.pRegion = r ↔ getParent v.pRegion = r := by
        constructor
        · rintro ⟨v', voices', notes', heq, hall⟩
          obtain ⟨hhead, -⟩ := List.cons.inj heq
          cases hhead
          exact hall
        · exact fun hall => ⟨v, voices, notes, rfl, hall⟩
      rw [honly, suspendKey]
      by_cases hv : getParent v.pRegion = r
      · rw [if_pos hv, Option.some_inj, hmap]
        refine forall₂_congr fun voices' _ => forall₂_congr fun w _ => ?_
        rw [iff_true_right hv, killIn]
        by_cases hw : getParent w.pRegion = r
        · rw [if_pos hw]
          exact iff_of_true rfl hw
        · rw [if_neg hw]
          exact iff_of_false (kill_ne w) hw
      · have hid := hmap (f := id)
        rw [if_neg hv, Option.some_inj]
        rw [List.map_id_fun, List.map_id] at hid
        rw [hid]
        refine forall₂_congr fun voices' _ => forall₂_congr fun w _ => ?_
        rw [iff_false_right hv, killIn]
        by_cases hw : getParent w.pRegion = r
        · rw [if_pos hw]
          exact iff_of_false (kill_ne w).symm (not_not_intro hw)
        · rw [if_neg hw]
          exact iff_of_true rfl hw
  | [] =>
      refine iff_of_false nofun ?_
      rintro ⟨v, voices, notes, heq, -⟩
      cases heq
  | [] :: notes =>
      refine iff_of_false nofun ?_
      rintro ⟨v, voices, notes', heq, -⟩
      cases heq

theorem suspend_regions (S : SuspendedRegions RR) :
    (S.suspend r).regions.count r = 1 ↔ r ∈ S.regions ∨ S.regions.length < 128 := by
  rw [SuspendedRegions.suspend]
  split
  · next hmem => exact iff_of_true (List.count_eq_one_of_mem S.nodup hmem) (.inl hmem)
  · next hmem =>
    split
    · next hroom =>
      refine iff_of_true ?_ (.inr hroom)
      rw [List.count_append, List.count_eq_zero_of_not_mem hmem, List.count_singleton_self]
    · next hroom =>
      refine iff_of_false ?_ (not_or.mpr ⟨hmem, hroom⟩)
      rw [List.count_eq_zero_of_not_mem hmem]
      exact Nat.zero_ne_one

theorem mem_suspend_of_ne {S : SuspendedRegions RR} {q : RR} (hq : q ≠ r) :
    q ∈ (S.suspend r).regions ↔ q ∈ S.regions := by
  rw [SuspendedRegions.suspend]
  split
  · rfl
  · split
    · simp [hq]
    · rfl

/-- Exactly the voices of the region are killed and the region is put on the list once, and
no null pointer is followed, exactly if on each key the voices play it all or not at all. -/
theorem suspends_iff_uniform (h : s.pPendingRegionSuspension = some r) :
    (∃ s', s.processSuspensionsChanges getParent = some s' ∧ s.Suspends getParent s' r) ↔
      s.Uniform getParent r := by
  have hresumption : s.pPendingRegionResumption = none := by
    rcases s.exclusive with hnone | hnone
    · rw [h] at hnone
      cases hnone
    · exact hnone
  have hchannels := Gives.mapM (gives_suspendChannel getParent r) s.engineChannels
    ⟨s.iPendingStreamDeletions, s.deletionQueue⟩
  have hkeys : s.engineChannels.mapM (·.mapM (suspendKey getParent r)) =
      some (s.engineChannels.map (List.map (List.map (List.map (killIn getParent r))))) ↔
        ∀ ch ∈ s.engineChannels, ∀ key ∈ ch, PlaysOnly getParent r key := by
    rw [mapM_eq_some_map]
    simp only [mapM_eq_some_map, suspendKey_eq_some]
  rw [processSuspensionsChanges, h]
  dsimp only
  rw [processSuspension, StateT.run]
  cases hrun : s.engineChannels.mapM (suspendChannel getParent r)
    ⟨s.iPendingStreamDeletions, s.deletionQueue⟩ with
  | none =>
      rw [hrun] at hchannels
      refine iff_of_false (fun ⟨s', hs', _⟩ => nomatch hs') fun huniform => ?_
      have hall := hkeys.mpr huniform.keys
      rw [← hchannels] at hall
      cases hall
  | some p =>
      obtain ⟨engineChannels, st⟩ := p
      rw [hrun] at hchannels
      rw [← hchannels] at hkeys
      simp only [Option.bind_eq_bind, Option.bind_some, Option.pure_def, hresumption,
        Option.some.injEq, exists_eq_left']
      constructor
      · rintro ⟨hvoices, honce, -⟩
        exact ⟨hkeys.mp (congrArg some hvoices), (suspend_regions _).mp honce⟩
      · rintro ⟨hall, hroom⟩
        exact ⟨Option.some.inj (hkeys.mpr hall), (suspend_regions _).mpr hroom,
          fun _ => mem_suspend_of_ne⟩

/-! ## Layered voices -/

/-- A voice that plays from RAM. -/
def playing (pRegion : ℕ) : RegionVoice ℕ where
  pRegion := pRegion
  diskVoice := false
  diskStreamRef := .unused
  playbackState := .playback_state_ram
  itTriggerEvent := none
  itKillEvent := none
  kills := 0

/-- Region 0 is to be suspended on one channel. -/
def suspending (keys : List (KeyVoices ℕ)) : SuspensionEngine ℕ ℕ where
  engineChannels := [keys]
  suspendedRegions := ⟨[], List.nodup_nil, Nat.zero_le _⟩
  iPendingStreamDeletions := 0
  deletionQueue := ⟨[], 1⟩
  pPendingRegionSuspension := some 0
  pPendingRegionResumption := none
  suspensionChangeOngoing := true
  exclusive := .inr rfl

theorem suspends_iff_uniform_playing :
    ∃ s', (suspending [[[playing 0]], [[playing 1], [playing 1]]]).processSuspensionsChanges id =
        some s' ∧ (suspending [[[playing 0]], [[playing 1], [playing 1]]]).Suspends id s' 0 := by
  refine (suspends_iff_uniform rfl).mpr ⟨fun ch hch key hkey => ?_, .inr (Nat.succ_pos 127)⟩
  obtain rfl := List.mem_singleton.mp hch
  rcases List.mem_pair.mp hkey with rfl | rfl
  · exact ⟨playing 0, [], [], rfl, by decide⟩
  · exact ⟨playing 1, [], [[playing 1]], rfl, by decide⟩

/-- A voice of the region in a second layer is not killed, one of another region is, and the
first voice of a note without voices is read. -/
theorem not_suspends_layered :
    (¬ ∃ s', (suspending [[[playing 1, playing 0]]]).processSuspensionsChanges id = some s' ∧
      (suspending [[[playing 1, playing 0]]]).Suspends id s' 0) ∧
    (¬ ∃ s', (suspending [[[playing 0], [playing 1]]]).processSuspensionsChanges id = some s' ∧
      (suspending [[[playing 0], [playing 1]]]).Suspends id s' 0) ∧
    (suspending [[[], [playing 0]]]).processSuspensionsChanges id = none := by
  refine ⟨?_, ?_, rfl⟩
  · rintro ⟨s', hs', hsuspends⟩
    cases hs'
    exact absurd hsuspends.voices (by decide)
  · rintro ⟨s', hs', hsuspends⟩
    cases hs'
    exact absurd hsuspends.voices (by decide)

end SuspensionEngine

end LinuxSampler
