import LinuxSampler.VoiceStealingSearch

/-!
# Whether voice stealing returns

It does if there is a voice to be stolen where it looks, or if it gives up
before it looks. Otherwise the loop over the channels does not end.

The engine counts on `VoiceSpawnsLeft`: no more voices are to be spawned or
stolen in a fragment than are free or can be stolen. When a key is played again in
solo mode there may be fewer (`not_answers_solo`).
-/

namespace LinuxSampler

namespace StealingEngine

variable {C : Type}

/-- The voices that are looked at, if none of them can be stolen. -/
def voicesSearched (S : StealingEngine C) (algo : VoiceStealAlgo) (c : C) (key : ℕ) : List ℕ :=
  S.voicesOnChannel algo c key ++ S.voicesGlobally c

/-- An engine with a channel `c`. The last voice of all channels is at any position in the
pools. -/
structure Ready (S : StealingEngine C) (c : C) : Prop where
  sound : S.Sound
  lastGlobally : S.InPools S.lastGlobally
  mem : c ∈ S.engineChannels

section Definitions

variable [DecidableEq C]

/-- The call returns. It returns zero only with a voice that could be stolen and is killed now,
and an error if there was none. -/
def Answers (S : StealingEngine C) (algo : VoiceStealAlgo) (c : C) (itNoteOnEvent key : ℕ) :
    Prop :=
  ∃ fuel S' result, S.stealVoice algo c itNoteOnEvent key fuel = some (S', result) ∧
    (result = 0 → ∃ v < S.pVoicePool.poolsize,
      S.stealable v = true ∧ (S'.voice v).itKillEvent = some itNoteOnEvent) ∧
    ((∀ v < S.pVoicePool.poolsize, S.stealable v = false) → result < 0)

/-- The call gives up before it looks at a voice. -/
def GivesUp (S : StealingEngine C) : Prop :=
  S.voiceSpawnsLeft ≤ 0 ∨ S.pEventPool.poolIsEmpty = true

end Definitions

variable {S : StealingEngine C} {c d : C} {key v itNoteOnEvent : ℕ} {L : LastStolen C}
  {algo : VoiceStealAlgo}

theorem itKillEvent_steal (hv : S.stealable v = true) (itNoteOnEvent : ℕ) :
    ((S.steal v itNoteOnEvent).voice v).itKillEvent = some itNoteOnEvent := by
  have hvoice : (S.steal v itNoteOnEvent).voice v =
      (S.voice v).kill S.fragmentPos itNoteOnEvent := Function.update_self ..
  rw [hvoice]
  exact EngineVoice.itKillEvent_kill hv _ _

theorem Sound.lt_of_mem_voicesBehind (h : S.Sound) (hL : S.InPools L)
    (hv : v ∈ S.voicesBehind L) : v < S.pVoicePool.poolsize := by
  obtain ⟨n, r, lists, hV⟩ := h.voices
  rcases List.mem_append.mp hv with hv | hv
  · exact hV.sized.poolsize ▸ hV.behind_lt (hV.sized.poolsize ▸ hL.voice) hv
  · exact h.lt_of_mem_voicesOfNotes hv

theorem Sound.lt_of_mem_voicesOnChannel (h : S.Sound) (hL : S.InPools S.last)
    (hv : v ∈ S.voicesOnChannel algo c key) : v < S.pVoicePool.poolsize := by
  have holdest : v ∈ S.voicesBehind S.last ++ S.voicesNext c S.last →
      v < S.pVoicePool.poolsize := fun hv =>
    (List.mem_append.mp hv).elim (h.lt_of_mem_voicesBehind hL) h.lt_of_mem_voicesNext
  cases algo with
  | none => cases hv
  | oldestkey => exact holdest hv
  | oldestvoiceonkey =>
      rcases List.mem_append.mp hv with hv | hv
      · exact h.lt_of_mem_voicesOfNotes hv
      · exact holdest hv

theorem exists_mod_eq {n t : ℕ} (ht : t < n) (i : ℕ) : ∃ d, (i + d) % n = t := by
  refine ⟨n * i - i + t, ?_⟩
  have hle : i ≤ n * i := Nat.le_mul_of_pos_left i (Nat.zero_lt_of_lt ht)
  rw [← Nat.add_assoc, Nat.add_sub_cancel' hle, Nat.mul_add_mod, Nat.mod_eq_of_lt ht]

theorem Ready.selectChannel (h : S.Ready c) : ∃ d i, S.selectChannel c = some (d, i) := by
  rw [StealingEngine.selectChannel]
  cases S.pLastStolenChannel with
  | some d => exact ⟨_, _, rfl⟩
  | none =>
      have hlt := Nat.mod_lt (S.iEngineIndexSelf c + 1) (List.length_pos_of_mem h.mem)
      dsimp only
      rw [List.getElem?_eq_getElem hlt]
      exact ⟨_, _, rfl⟩

/-- The channel of a voice is reached from any other. -/
theorem Ready.searchChannels_of_mem (h : S.Ready c) (hkey : S.KeyInPool L.iuiLastStolenKey)
    (hd : d ∈ S.engineChannels) (hv : v ∈ S.activeVoices d) (hsteal : S.stealable v = true)
    (d' : C) (i : ℕ) :
    ∃ fuel L' d'' v', S.searchChannels fuel d' i L = some (L', d'', v') ∧
      S.stealable v' = true ∧ v' < S.pVoicePool.poolsize := by
  obtain ⟨t, ht, hdt⟩ := List.getElem_of_mem hd
  obtain ⟨n, hn⟩ := exists_mod_eq ht (i + 1)
  refine h.sound.searchChannels_at hkey (n := n) ?_ hv hsteal
  rw [hn, List.getElem?_eq_getElem ht, hdt]

/-- The voice is marked and counted, and the call ends with zero. -/
def Steals (S : StealingEngine C) (itNoteOnEvent : ℕ) (call : Option (StealingEngine C × ℤ)) :
    Prop :=
  ∃ S' v, call = some (S', 0) ∧ v < S.pVoicePool.poolsize ∧ S.stealable v = true ∧
    (S'.voice v).itKillEvent = some itNoteOnEvent

theorem steals_of_eq {S₁ : StealingEngine C} {call : Option (StealingEngine C × ℤ)}
    (hcall : call = some (S₁.steal v itNoteOnEvent, 0)) (hvoice : S₁.voice = S.voice)
    (hlt : v < S.pVoicePool.poolsize) (hsteal : S.stealable v = true) :
    S.Steals itNoteOnEvent call := by
  refine ⟨_, v, hcall, hlt, hsteal, itKillEvent_steal ?_ _⟩
  rw [stealable, hvoice]
  exact hsteal

/-- The search on the channel of the note leaves its positions behind. -/
theorem Ready.setLast (h : S.Ready c) (last : LastStolen C) : Ready { S with last := last } c where
  sound := ⟨h.sound.voices, h.sound.notes, h.sound.keys⟩
  lastGlobally := ⟨h.lastGlobally.voice, h.lastGlobally.note, h.lastGlobally.key⟩
  mem := h.mem

theorem Ready.stealGlobally_of_mem (h : S.Ready c) (hv : v ∈ S.voicesGlobally c)
    (hsteal : S.stealable v = true) :
    ∃ fuel, S.Steals itNoteOnEvent (S.stealGlobally c itNoteOnEvent fuel) := by
  obtain ⟨d, i, hselect⟩ := h.selectChannel
  obtain ⟨L, hresume, hkey⟩ := h.sound.resume_spec h.lastGlobally
  have hkeyL : S.KeyInPool L.iuiLastStolenKey := hkey ▸ h.lastGlobally.key
  cases hbehind : (S.voicesBehind S.lastGlobally).find? S.stealable with
  | some v' =>
      have hcall : S.stealGlobally c itNoteOnEvent 0 =
          some ({ S with lastGlobally := L }.steal v' itNoteOnEvent, 0) := by
        rw [stealGlobally, hselect, hresume, hbehind]
        rfl
      have hmem := List.mem_of_find?_eq_some hbehind
      exact ⟨0, steals_of_eq hcall rfl (h.sound.lt_of_mem_voicesBehind h.lastGlobally hmem)
        (List.find?_some hbehind)⟩
  | none =>
      have hfound : ∃ fuel L' d' v', S.searchChannels fuel d i L = some (L', d', v') ∧
          S.stealable v' = true ∧ v' < S.pVoicePool.poolsize := by
        rw [voicesGlobally, hselect, List.append_assoc] at hv
        rcases List.mem_append.mp hv with hv | hv
        · rw [List.find?_eq_none] at hbehind
          exact absurd hsteal (hbehind v hv)
        rcases List.mem_append.mp hv with hv | hv
        · rcases h.sound.searchChannels_succ hkeyL d i with ⟨L', v', hfound, hrun⟩ | ⟨hnone, -⟩
          · exact ⟨1, L', d, v', hrun 0, List.find?_some hfound,
              h.sound.lt_of_mem_voicesNext (List.mem_of_find?_eq_some hfound)⟩
          · rw [voicesNext_congr hkey, List.find?_eq_none] at hnone
            exact absurd hsteal (hnone v hv)
        · obtain ⟨e, he, hv⟩ := List.mem_flatMap.mp hv
          exact h.searchChannels_of_mem hkeyL he hv hsteal d i
      obtain ⟨fuel, L', d', v', hrun, hsteal', hlt⟩ := hfound
      have hcall : S.stealGlobally c itNoteOnEvent fuel =
          some ({ S with lastGlobally := L', pLastStolenChannel := some d' }.steal v'
            itNoteOnEvent, 0) := by
        rw [stealGlobally, hselect, hresume, hbehind]
        simp only [Option.bind_eq_bind, Option.bind_some, hrun]
        rfl
      exact ⟨fuel, steals_of_eq hcall rfl hlt hsteal'⟩

theorem Ready.stealGlobally_eq_none (h : S.Ready c)
    (hnone : ∀ v ∈ S.voicesGlobally c, S.stealable v = false) (fuel : ℕ) :
    S.stealGlobally c itNoteOnEvent fuel = none := by
  obtain ⟨d, i, hselect⟩ := h.selectChannel
  obtain ⟨L, hresume, hkey⟩ := h.sound.resume_spec h.lastGlobally
  rw [voicesGlobally, hselect] at hnone
  have hbehind : (S.voicesBehind S.lastGlobally).find? S.stealable = none :=
    List.find?_eq_none.mpr fun v hv => by simp [hnone v (by simp [hv])]
  have hrun : S.searchChannels fuel d i L = none := by
    refine h.sound.searchChannels_eq_none (hkey ▸ h.lastGlobally.key) (fun v hv => ?_)
      (fun e he v hv => ?_) i fuel
    · rw [voicesNext_congr hkey] at hv
      exact hnone v (by simp [hv])
    · exact hnone v (List.mem_append_right _ (List.mem_flatMap.mpr ⟨e, he, hv⟩))
  rw [stealGlobally, hselect, hresume, hbehind]
  simp only [Option.bind_eq_bind, Option.bind_some, hrun]
  rfl

section Calls

variable [DecidableEq C]

theorem Ready.stealVoice_of_mem (h : S.Ready c) (hlast : S.InPools S.last)
    (hgives : ¬ S.GivesUp) (hv : v ∈ S.voicesSearched algo c key)
    (hsteal : S.stealable v = true) :
    ∃ fuel, S.Steals itNoteOnEvent (S.stealVoice algo c itNoteOnEvent key fuel) := by
  rw [GivesUp, not_or] at hgives
  obtain ⟨last, hchannel⟩ := h.sound.stealOnChannel_spec hlast algo c key
  cases hfind : (S.voicesOnChannel algo c key).find? S.stealable with
  | some v' =>
      have hcall : S.stealVoice algo c itNoteOnEvent key 0 =
          some ({ S with last := last }.steal v' itNoteOnEvent, 0) := by
        rw [stealVoice, if_neg hgives.1, if_neg hgives.2, hchannel, hfind]
        rfl
      have hmem := List.mem_of_find?_eq_some hfind
      exact ⟨0, steals_of_eq hcall rfl (h.sound.lt_of_mem_voicesOnChannel hlast hmem)
        (List.find?_some hfind)⟩
  | none =>
      have hv' : v ∈ S.voicesGlobally c := by
        rcases List.mem_append.mp hv with hv | hv
        · exact absurd hsteal (List.find?_eq_none.mp hfind v hv)
        · exact hv
      obtain ⟨fuel, hcall⟩ := (h.setLast last).stealGlobally_of_mem hv' hsteal
      refine ⟨fuel, ?_⟩
      rw [stealVoice, if_neg hgives.1, if_neg hgives.2, hchannel, hfind]
      exact hcall

theorem Ready.stealVoice_eq_none (h : S.Ready c) (hlast : S.InPools S.last)
    (hgives : ¬ S.GivesUp) (hnone : ∀ v ∈ S.voicesSearched algo c key, S.stealable v = false)
    (fuel : ℕ) : S.stealVoice algo c itNoteOnEvent key fuel = none := by
  rw [GivesUp, not_or] at hgives
  obtain ⟨last, hchannel⟩ := h.sound.stealOnChannel_spec hlast algo c key
  have hfind : (S.voicesOnChannel algo c key).find? S.stealable = none :=
    List.find?_eq_none.mpr fun v hv => by simp [hnone v (List.mem_append_left _ hv)]
  rw [stealVoice, if_neg hgives.1, if_neg hgives.2, hchannel, hfind]
  exact (h.setLast last).stealGlobally_eq_none
    (fun v hv => hnone v (List.mem_append_right _ hv)) fuel

theorem stealVoice_of_givesUp (h : S.GivesUp) (algo : VoiceStealAlgo) (c : C)
    (itNoteOnEvent key fuel : ℕ) :
    S.stealVoice algo c itNoteOnEvent key fuel = some (S, -1) := by
  rw [stealVoice]
  rcases h with h | h
  · rw [if_pos h]
    rfl
  · rw [if_pos h]
    split <;> rfl

theorem answers_of_givesUp (h : S.GivesUp) (algo : VoiceStealAlgo) (c : C)
    (itNoteOnEvent key : ℕ) : S.Answers algo c itNoteOnEvent key :=
  ⟨0, S, -1, stealVoice_of_givesUp h algo c itNoteOnEvent key 0, nofun, fun _ => by omega⟩

theorem Ready.answers_of_mem (h : S.Ready c) (hlast : S.InPools S.last)
    (hv : v ∈ S.voicesSearched algo c key) (hsteal : S.stealable v = true) :
    S.Answers algo c itNoteOnEvent key := by
  by_cases hgives : S.GivesUp
  · exact answers_of_givesUp hgives algo c itNoteOnEvent key
  · obtain ⟨fuel, S', v', hcall, hlt, hsteal', hkilled⟩ :
        ∃ fuel, S.Steals itNoteOnEvent (S.stealVoice algo c itNoteOnEvent key fuel) :=
      h.stealVoice_of_mem hlast hgives hv hsteal
    refine ⟨fuel, S', 0, hcall, fun _ => ⟨v', hlt, hsteal', hkilled⟩, fun hall => ?_⟩
    rw [hall v' hlt] at hsteal'
    cases hsteal'

/-- The call returns just if it gives up before it looks at a voice, or one of those that it looks at
can be stolen. -/
theorem Ready.answers_iff (h : S.Ready c) (hlast : S.InPools S.last) :
    S.Answers algo c itNoteOnEvent key ↔
      S.GivesUp ∨ ∃ v ∈ S.voicesSearched algo c key, S.stealable v = true := by
  constructor
  · rintro ⟨fuel, S', result, hcall, -, -⟩
    by_contra hnot
    rw [not_or, not_exists] at hnot
    rw [h.stealVoice_eq_none hlast hnot.1 fun v hv => by simpa [hv] using hnot.2 v] at hcall
    cases hcall
  · rintro (hgives | ⟨v, hv, hsteal⟩)
    · exact answers_of_givesUp hgives algo c itNoteOnEvent key
    · exact h.answers_of_mem hlast hv hsteal

end Calls

/-! ## New notes -/

theorem exists_inUse_allocAppend {ι : Type*} [DecidableEq ι] {P : Pool ι}
    {lists : Lists ι} {n r : ℕ} (h : P.InUse n r lists) (list : ι) :
    ∃ n' r' lists', Pool.InUse n' r' (P.allocAppend list).1 lists' := by
  rcases h.allocAppend_cases list with ⟨-, -, hpool⟩ | ⟨-, i, -, -, hP⟩
  · rw [hpool]
    exact ⟨n, r, lists, h⟩
  · exact ⟨n, r, _, hP⟩

section NewNotes

variable [DecidableEq C]

theorem Sound.markKeyAsActive (h : S.Sound) (c : C) (key : ℕ) :
    (S.markKeyAsActive c key).Sound := by
  unfold StealingEngine.markKeyAsActive
  split
  · exact h
  · have hkeys : ∀ d, ∃ n r lists, Pool.InUse n r
        (Function.update S.pActiveKeys c ((S.pActiveKeys c).allocAppend ()).1 d) lists := by
      intro d
      by_cases hd : d = c
      · subst hd
        obtain ⟨n, r, lists, hK⟩ := h.keys d
        rw [Function.update_self]
        exact exists_inUse_allocAppend hK ()
      · rw [Function.update_of_ne hd]
        exact h.keys d
    dsimp only
    split
    · exact ⟨h.voices, h.notes, hkeys⟩
    · exact ⟨h.voices, h.notes, hkeys⟩

/-- The lists stay linked until the voices of a new note are launched. -/
theorem Sound.soloNoteOn (h : S.Sound) (c : C) (itNoteOnEvent key : ℕ) :
    (S.soloNoteOn c itNoteOnEvent key).Sound := by
  have hlaunch : (S.launchNewNote c key).Sound := by
    unfold launchNewNote
    split
    · exact h
    · next hfree =>
      obtain ⟨n, r, lists, hN⟩ := h.notes
      rcases hN.allocAppend_cases .pool with ⟨hempty, -⟩ | ⟨-, i, hindex, -, -⟩
      · exact absurd hempty hfree
      · have hmoved : Sound { S with pNotePool := ((S.pNotePool.allocAppend .pool).1.moveToEndOf
            (S.pNotePool.allocAppend .pool).2 (.activeNotes c key)).1 } :=
          ⟨h.voices, ⟨n, r, _, hN.allocAppend_moveToEndOf hindex _⟩, h.keys⟩
        exact hmoved.markKeyAsActive c key
  unfold StealingEngine.soloNoteOn killForSolo
  split
  · exact ⟨hlaunch.voices, hlaunch.notes, hlaunch.keys⟩
  · exact hlaunch

end NewNotes

/-! ## Engines to run -/

/-- A channel with one note, on key 60. It has the only voice of the engine, which was spawned
in an earlier fragment. -/
def oneVoice : StealingEngine Unit where
  engineChannels := [()]
  iEngineIndexSelf _ := 0
  voiceSpawnsLeft := 1
  pEventPool := .create _ 2 1
  fragmentPos _ := 0
  pVoicePool := ((Pool.create VoiceList 1 0).allocAppend (.activeVoices 0)).1
  voice _ := ⟨false, .playback_state_ram, none, none, fun _ => rfl⟩
  pNotePool := ((Pool.create (NoteList Unit) 2 1).allocAppend (.activeNotes () 60)).1
  pActiveKeys _ := ((Pool.create Unit 1 0).allocAppend ()).1
  activeKey _ _ := 60
  last := ⟨.null, .null, ⟨(), .null⟩⟩
  lastGlobally := ⟨.null, .null, ⟨(), .null⟩⟩
  pLastStolenChannel := none

theorem inPools_null (S : StealingEngine Unit) :
    S.InPools ⟨.null, .null, ⟨(), .null⟩⟩ :=
  ⟨nofun, nofun, nofun⟩

theorem oneVoice_ready : oneVoice.Ready () where
  sound := ⟨exists_inUse_allocAppend (Pool.create_inUse 1 0) _,
    exists_inUse_allocAppend (Pool.create_inUse 2 1) _,
    fun _ => exists_inUse_allocAppend (Pool.create_inUse 1 0) _⟩
  lastGlobally := inPools_null _
  mem := List.mem_singleton_self ()

theorem answers_iff_oneVoice : oneVoice.Answers .oldestvoiceonkey () 0 62 ↔
    oneVoice.GivesUp ∨
      ∃ v ∈ oneVoice.voicesSearched .oldestvoiceonkey () 62, oneVoice.stealable v = true :=
  oneVoice_ready.answers_iff (inPools_null _)

/-- Key 60 is played again in solo mode, which kills the voice. The new note is to have another
one. -/
theorem not_answers_solo : ¬ ∀ (S : StealingEngine Unit) (algo : VoiceStealAlgo) (c : Unit)
    (itNoteOnEvent key : ℕ), S.Ready c → S.InPools S.last →
      S.Answers algo c itNoteOnEvent key := by
  intro hall
  have hready : (oneVoice.soloNoteOn () 0 60).Ready () :=
    ⟨oneVoice_ready.sound.soloNoteOn () 0 60, inPools_null _, List.mem_singleton_self ()⟩
  obtain ⟨fuel, S', result, hcall, -⟩ :=
    hall (oneVoice.soloNoteOn () 0 60) .oldestvoiceonkey () 0 60 hready (inPools_null _)
  have hnone : ∀ v ∈ (oneVoice.soloNoteOn () 0 60).voicesSearched .oldestvoiceonkey () 60,
      (oneVoice.soloNoteOn () 0 60).stealable v = false := by decide +kernel
  have hgives : ¬ (oneVoice.soloNoteOn () 0 60).GivesUp := by
    rw [GivesUp]
    decide +kernel
  rw [hready.stealVoice_eq_none (inPools_null _) hgives hnone] at hcall
  cases hcall

end StealingEngine

end LinuxSampler
