import LinuxSampler.VoiceStealing

/-!
# Which voice is stolen

Each loop of the search takes the first voice that can be stolen among those it
looks at. The list of these voices is that of the voices of the notes of the
keys, from where the loop begins.
-/

namespace LinuxSampler

namespace StealingEngine

variable {C : Type}

section Lists

variable (S : StealingEngine C)

def stealable (v : ℕ) : Bool := (S.voice v).isStealable

/-- The voices that `resume` looks at. -/
def voicesBehind (L : LastStolen C) : List ℕ :=
  S.pVoicePool.behind L.itLastStolenVoice ++
    S.voicesOfNotes (S.pNotePool.behind L.itLastStolenNote)

/-- The voices on the keys behind the last one, or on all active keys. -/
def voicesNext (c : C) (L : LastStolen C) : List ℕ :=
  match L.iuiLastStolenKey.current with
  | .node j => S.voicesOnKeys c L.iuiLastStolenKey.channel
      ((S.pActiveKeys L.iuiLastStolenKey.channel).behind (.node j))
  | _ => S.activeVoices c

/-- The voices that the search on one channel looks at. -/
def voicesOnChannel (algo : VoiceStealAlgo) (c : C) (key : ℕ) : List ℕ :=
  match algo with
  | .none => []
  | .oldestvoiceonkey =>
      S.voicesOfNotes (S.notesOn c key) ++ (S.voicesBehind S.last ++ S.voicesNext c S.last)
  | .oldestkey => S.voicesBehind S.last ++ S.voicesNext c S.last

/-- The voices that the search over the channels looks at. -/
def voicesGlobally (c : C) : List ℕ :=
  S.voicesBehind S.lastGlobally ++
    ((S.selectChannel c).elim [] fun (d, _) => S.voicesNext d S.lastGlobally) ++
    S.engineChannels.flatMap S.activeVoices

end Lists

def KeyInPool (S : StealingEngine C) (it : KeyIterator C) : Prop :=
  ∀ j, it.current = .node j → j < (S.pActiveKeys it.channel).poolsize

/-- The positions are in the pools. -/
structure InPools (S : StealingEngine C) (L : LastStolen C) : Prop where
  voice : ∀ v, L.itLastStolenVoice = .node v → v < S.pVoicePool.poolsize
  note : ∀ k, L.itLastStolenNote = .node k → k < S.pNotePool.poolsize
  key : S.KeyInPool L.iuiLastStolenKey

/-- The lists of the pools are linked. -/
structure Sound (S : StealingEngine C) : Prop where
  voices : ∃ n r lists, Pool.InUse n r S.pVoicePool lists
  notes : ∃ n r lists, Pool.InUse n r S.pNotePool lists
  keys : ∀ c, ∃ n r lists, Pool.InUse n r (S.pActiveKeys c) lists

variable {S : StealingEngine C} {c d : C} {key v : ℕ} {L L' : LastStolen C}

/-! ## The loops -/

theorem findSome?_stealable (vs : List ℕ) :
    vs.findSome? (fun v => if (S.voice v).isStealable then some v else none) =
      vs.find? S.stealable := by
  induction vs with
  | nil => rfl
  | cons v vs ih =>
      rw [List.findSome?_cons, List.find?_cons, ih, stealable]
      cases (S.voice v).isStealable <;> rfl

theorem Sound.findVoice_first (h : S.Sound) (k : ℕ) :
    S.findVoice (S.pVoicePool.next (.beginOf (.rtlist (.activeVoices k)))) =
      some ((S.pVoicePool.elements (.rtlist (.activeVoices k))).find? S.stealable) := by
  obtain ⟨n, r, lists, hV⟩ := h.voices
  rw [findVoice, hV.search_first _ fun _ _ => rfl, findSome?_stealable]

theorem Sound.findVoice_behind (h : S.Sound) (hL : S.InPools L) :
    S.findVoice (S.pVoicePool.advance L.itLastStolenVoice) =
      some ((S.pVoicePool.behind L.itLastStolenVoice).find? S.stealable) := by
  obtain ⟨n, r, lists, hV⟩ := h.voices
  rw [findVoice, hV.search_advance (hV.sized.poolsize ▸ hL.voice) fun _ _ => rfl,
    findSome?_stealable]

theorem snd_findSome? {f : ℕ → List ℕ} (ks : List ℕ) :
    (ks.findSome? fun k => ((f k).find? S.stealable).map (k, ·)).map Prod.snd =
      (ks.flatMap f).find? S.stealable := by
  rw [List.map_findSome?, List.find?_flatMap]
  congr 1
  funext k
  simp [Function.comp_def]

theorem Sound.noteBody (h : S.Sound) (k : ℕ) :
    (do
      let itVoice ← S.findVoice (S.pVoicePool.next (.beginOf (.rtlist (.activeVoices k))))
      return itVoice.map (k, ·)) =
      some (((S.pVoicePool.elements (.rtlist (.activeVoices k))).find? S.stealable).map
        (k, ·)) := by
  rw [h.findVoice_first]
  rfl

theorem Sound.findNote_first (h : S.Sound) (c : C) (key : ℕ) :
    ∃ found, S.findNote (S.pNotePool.next (.beginOf (.rtlist (.activeNotes c key)))) = some found ∧
      found.map Prod.snd = (S.voicesOfNotes (S.notesOn c key)).find? S.stealable := by
  obtain ⟨n, r, lists, hN⟩ := h.notes
  exact ⟨_, hN.search_first _ fun k _ => h.noteBody k, snd_findSome? _⟩

theorem Sound.findNote_behind (h : S.Sound) (hL : S.InPools L) :
    ∃ found, S.findNote (S.pNotePool.advance L.itLastStolenNote) = some found ∧
      found.map Prod.snd =
        (S.voicesOfNotes (S.pNotePool.behind L.itLastStolenNote)).find? S.stealable := by
  obtain ⟨n, r, lists, hN⟩ := h.notes
  exact ⟨_, hN.search_advance (hN.sized.poolsize ▸ hL.note) fun k _ => h.noteBody k,
    snd_findSome? _⟩

/-- The first key of the nodes with a voice, as `findNote` finds it. -/
theorem Sound.findKey_nodes (h : S.Sound) {it : KeyIterator C} {nodes : List ℕ}
    (hsearch : ∀ (body : ℕ → Option (Option (ℕ × ℕ × ℕ))) (f : ℕ → Option (ℕ × ℕ × ℕ)),
      (∀ j ∈ nodes, body j = some (f j)) →
        (S.pActiveKeys it.channel).search body it.current = some (nodes.findSome? f)) :
    ∃ found, S.findKey c it = some found ∧
      found.map (·.2.2) = (S.voicesOnKeys c it.channel nodes).find? S.stealable := by
  choose g hg hfirst using fun j => h.findNote_first c (S.activeKey it.channel j)
  refine ⟨_, hsearch _ (fun j => (g j).map (j, ·)) fun j _ => ?_, ?_⟩
  · dsimp only
    rw [hg]
    rfl
  · rw [List.map_findSome?, voicesOnKeys, List.find?_flatMap]
    congr 1
    funext j
    rw [← hfirst]
    simp [Function.comp_def]

theorem Sound.findKey_next (h : S.Sound) (hkey : S.KeyInPool L.iuiLastStolenKey) (c : C) :
    ∃ found, S.findKey c (S.nextKey c L).2 = some found ∧
      found.map (·.2.2) = (S.voicesNext c L).find? S.stealable := by
  have hfirst : ∃ found, S.findKey c ⟨c, (S.pActiveKeys c).next (.beginOf (.rtlist ()))⟩ =
      some found ∧ found.map (·.2.2) = (S.activeVoices c).find? S.stealable := by
    obtain ⟨n, r, lists, hK⟩ := h.keys c
    exact h.findKey_nodes fun body f hbody => hK.search_first _ hbody
  unfold nextKey voicesNext
  dsimp only
  cases hcur : L.iuiLastStolenKey.current with
  | node j =>
      obtain ⟨n, r, lists, hK⟩ := h.keys L.iuiLastStolenKey.channel
      rw [KeyInPool, hcur] at hkey
      exact h.findKey_nodes fun body f hbody =>
        hK.search_advance (hK.sized.poolsize ▸ hkey) hbody
  | null => exact hfirst
  | beginOf l => exact hfirst
  | endOf l => exact hfirst

/-! ## The search on one channel -/

theorem Sound.resume_spec (h : S.Sound) (hL : S.InPools L) :
    ∃ L', S.resume L = some (L', (S.voicesBehind L).find? S.stealable) ∧
      L'.iuiLastStolenKey = L.iuiLastStolenKey := by
  obtain ⟨found, hnote, hfound⟩ := h.findNote_behind hL
  rw [resume, h.findVoice_behind hL, voicesBehind, List.find?_append, ← hfound]
  cases (S.pVoicePool.behind L.itLastStolenVoice).find? S.stealable with
  | some v => exact ⟨_, rfl, rfl⟩
  | none =>
      simp only [Option.bind_eq_bind, Option.bind_some, hnote]
      cases found with
      | none => exact ⟨_, rfl, rfl⟩
      | some note => exact ⟨_, rfl, rfl⟩

theorem voicesNext_congr (hkey : L'.iuiLastStolenKey = L.iuiLastStolenKey) (c : C) :
    S.voicesNext c L' = S.voicesNext c L := by
  rw [voicesNext, voicesNext, hkey]

theorem Sound.oldestKey_spec (h : S.Sound) (hL : S.InPools L) (c : C) :
    ∃ L', S.oldestKey c L =
      some (L', (S.voicesBehind L ++ S.voicesNext c L).find? S.stealable) := by
  obtain ⟨L₁, hresume, hkey⟩ := h.resume_spec hL
  obtain ⟨found, hnext, hfound⟩ := h.findKey_next (L := L₁) (hkey ▸ hL.key) c
  rw [oldestKey, hresume, List.find?_append, ← voicesNext_congr hkey, ← hfound]
  simp only [Option.bind_eq_bind, Option.bind_some]
  cases (S.voicesBehind L).find? S.stealable with
  | some v => exact ⟨_, rfl⟩
  | none =>
      simp only [hnext]
      cases found with
      | none => exact ⟨_, rfl⟩
      | some key => exact ⟨_, rfl⟩

theorem Sound.stealOnChannel_spec (h : S.Sound) (hlast : S.InPools S.last)
    (algo : VoiceStealAlgo) (c : C) (key : ℕ) :
    ∃ L', S.stealOnChannel algo c key =
      some (L', (S.voicesOnChannel algo c key).find? S.stealable) := by
  obtain ⟨L', holdest⟩ := h.oldestKey_spec hlast c
  unfold stealOnChannel voicesOnChannel
  cases algo with
  | none => exact ⟨_, rfl⟩
  | oldestkey => exact ⟨L', holdest⟩
  | oldestvoiceonkey =>
      obtain ⟨found, hnote, hfound⟩ := h.findNote_first c key
      simp only [Option.bind_eq_bind, hnote, Option.bind_some]
      rw [List.find?_append, ← hfound]
      cases found with
      | none => exact ⟨L', holdest⟩
      | some note => exact ⟨_, rfl⟩

/-! ## The search over the channels -/

/-- A round over a channel: a voice of the channel, or the next round. -/
theorem Sound.searchChannels_succ (h : S.Sound) (hkey : S.KeyInPool L.iuiLastStolenKey) (d : C)
    (i : ℕ) :
    (∃ L' v, (S.voicesNext d L).find? S.stealable = some v ∧
        ∀ fuel, S.searchChannels (fuel + 1) d i L = some (L', d, v)) ∨
      ((S.voicesNext d L).find? S.stealable = none ∧
        ∃ L', L'.iuiLastStolenKey.current = .null ∧ ∀ fuel, S.searchChannels (fuel + 1) d i L =
          S.engineChannels[(i + 1) % S.engineChannels.length]?.bind fun d' =>
            S.searchChannels fuel d' ((i + 1) % S.engineChannels.length) L') := by
  obtain ⟨found, hnext, hfound⟩ := h.findKey_next hkey d
  rw [← hfound]
  cases found with
  | some key =>
      obtain ⟨j, k, v⟩ := key
      refine .inl ⟨⟨.node v, .node k, ⟨(S.nextKey d L).2.channel, .node j⟩⟩, v, rfl,
        fun fuel => ?_⟩
      rw [searchChannels]
      dsimp only
      rw [hnext]
      rfl
  | none =>
      refine .inr ⟨rfl, { (S.nextKey d L).1 with iuiLastStolenKey := ⟨d, .null⟩ }, rfl,
        fun fuel => ?_⟩
      rw [searchChannels]
      dsimp only
      rw [hnext]
      rfl

theorem voicesNext_null (hL : L.iuiLastStolenKey.current = .null) (d : C) :
    S.voicesNext d L = S.activeVoices d := by
  rw [voicesNext, hL]

theorem keyInPool_null {it : KeyIterator C} (hit : it.current = .null) : S.KeyInPool it := by
  intro j hj
  rw [hit] at hj
  cases hj

/-- No round finds a voice, and the search goes on. -/
theorem Sound.searchChannels_eq_none (h : S.Sound) (hkey : S.KeyInPool L.iuiLastStolenKey)
    (hfirst : ∀ v ∈ S.voicesNext d L, S.stealable v = false)
    (hnone : ∀ c ∈ S.engineChannels, ∀ v ∈ S.activeVoices c, S.stealable v = false)
    (i fuel : ℕ) : S.searchChannels fuel d i L = none := by
  induction fuel generalizing d i L with
  | zero => rfl
  | succ fuel ih =>
      rcases h.searchChannels_succ hkey d i with ⟨L', v, hfound, -⟩ | ⟨-, L', hL', hrun⟩
      · have hv := hfirst v (List.mem_of_find?_eq_some hfound)
        rw [List.find?_some hfound] at hv
        cases hv
      · rw [hrun fuel]
        cases hd : S.engineChannels[(i + 1) % S.engineChannels.length]? with
        | none => rfl
        | some d' =>
            refine ih (keyInPool_null hL') (fun v hv => ?_) _
            rw [voicesNext_null hL'] at hv
            exact hnone d' (List.mem_of_getElem? hd) v hv

theorem Sound.lt_of_mem_voicesOfNotes (h : S.Sound) {notes : List ℕ}
    (hv : v ∈ S.voicesOfNotes notes) : v < S.pVoicePool.poolsize := by
  obtain ⟨n, r, lists, hV⟩ := h.voices
  obtain ⟨k, -, hv⟩ := List.mem_flatMap.mp hv
  rw [hV.holds.elements_eq] at hv
  exact hV.sized.poolsize ▸ hV.lt hv

theorem Sound.lt_of_mem_voicesOnKeys (h : S.Sound) {nodes : List ℕ}
    (hv : v ∈ S.voicesOnKeys c d nodes) : v < S.pVoicePool.poolsize := by
  obtain ⟨j, -, hv⟩ := List.mem_flatMap.mp hv
  exact h.lt_of_mem_voicesOfNotes hv

theorem Sound.lt_of_mem_voicesNext (h : S.Sound) (hv : v ∈ S.voicesNext d L) :
    v < S.pVoicePool.poolsize := by
  rw [voicesNext] at hv
  split at hv
  · exact h.lt_of_mem_voicesOnKeys hv
  · exact h.lt_of_mem_voicesOnKeys hv

/-- A channel with a voice is reached. `n` is its distance from the current one. -/
theorem Sound.searchChannels_at (h : S.Sound) (hkey : S.KeyInPool L.iuiLastStolenKey) {i n : ℕ}
    (hc : S.engineChannels[(i + 1 + n) % S.engineChannels.length]? = some c)
    (hv : v ∈ S.activeVoices c) (hsteal : S.stealable v) :
    ∃ fuel L' d' v', S.searchChannels fuel d i L = some (L', d', v') ∧ S.stealable v' ∧
      v' < S.pVoicePool.poolsize := by
  induction n generalizing d i L with
  | zero =>
      rcases h.searchChannels_succ hkey d i with ⟨L', v', hfound, hrun⟩ | ⟨-, L', hL', hrun⟩
      · exact ⟨1, L', d, v', hrun 0, List.find?_some hfound,
          h.lt_of_mem_voicesNext (List.mem_of_find?_eq_some hfound)⟩
      · rw [Nat.add_zero] at hc
        rcases h.searchChannels_succ (keyInPool_null hL') c
            ((i + 1) % S.engineChannels.length) with ⟨L'', v', hfound, hrun'⟩ | ⟨hnone, -⟩
        · refine ⟨2, L'', c, v', ?_, List.find?_some hfound,
            h.lt_of_mem_voicesNext (List.mem_of_find?_eq_some hfound)⟩
          rw [hrun, hc, Option.bind_some, hrun']
        · rw [voicesNext_null hL', List.find?_eq_none] at hnone
          exact absurd hsteal (hnone v hv)
  | succ n ih =>
      have hlen : 0 < S.engineChannels.length := by
        by_contra hlen
        rw [List.length_eq_zero_iff.mp (Nat.eq_zero_of_not_pos hlen)] at hc
        cases hc
      have hnext : ((i + 1) % S.engineChannels.length + 1 + n) % S.engineChannels.length =
          (i + 1 + (n + 1)) % S.engineChannels.length := by
        rw [Nat.add_assoc, Nat.mod_add_mod]
        congr 1
        omega
      rcases h.searchChannels_succ hkey d i with ⟨L', v', hfound, hrun⟩ | ⟨-, L', hL', hrun⟩
      · exact ⟨1, L', d, v', hrun 0, List.find?_some hfound,
          h.lt_of_mem_voicesNext (List.mem_of_find?_eq_some hfound)⟩
      · obtain ⟨d', hd⟩ : ∃ d', S.engineChannels[(i + 1) % S.engineChannels.length]? = some d' :=
          ⟨_, List.getElem?_eq_getElem (Nat.mod_lt _ hlen)⟩
        obtain ⟨fuel, L'', d'', v', hrest, hfound⟩ :=
          ih (d := d') (keyInPool_null hL') (hnext ▸ hc)
        refine ⟨fuel + 1, L'', d'', v', ?_, hfound⟩
        rw [hrun, hd, Option.bind_some, hrest]

end StealingEngine

end LinuxSampler
