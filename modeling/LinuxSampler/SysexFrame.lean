import LinuxSampler.SysexMessage

/-!
# What a message leaves alone

No message touches the bytes of the messages behind it, or the events that
were imported already. The queue of the events that were not imported is
emptied by a reset.
-/

namespace LinuxSampler

open SysexMap

variable {π : Type} {P : Prop}

/-- The queues after a step; `P` says that it may be a reset. -/
structure Engine.KeepsQueues (P : Prop) (e e' : Engine π) : Prop where
  sysexBuffer_eq : e'.sysexBuffer = e.sysexBuffer
  globalEvents_eq : e'.globalEvents = e.globalEvents
  eventQueue_eq : e'.eventQueue = e.eventQueue ∨ P ∧ e'.eventQueue = e.eventQueue.init

namespace Engine.KeepsQueues

variable {e e' e'' : Engine π}

theorem refl (e : Engine π) : e.KeepsQueues P e := ⟨rfl, rfl, .inl rfl⟩

theorem trans (h : e.KeepsQueues P e') (h' : e'.KeepsQueues P e'') : e.KeepsQueues P e'' := by
  refine ⟨h'.sysexBuffer_eq.trans h.sysexBuffer_eq, h'.globalEvents_eq.trans h.globalEvents_eq, ?_⟩
  rcases h.eventQueue_eq with heq | ⟨hP, heq⟩ <;> rcases h'.eventQueue_eq with heq' | ⟨hP', heq'⟩
  · exact .inl (heq'.trans heq)
  · exact .inr ⟨hP', by rw [heq', heq]⟩
  · exact .inr ⟨hP, heq'.trans heq⟩
  · exact .inr ⟨hP, by rw [heq', heq]; rfl⟩

theorem mono {P' : Prop} (h : e.KeepsQueues P e') (hP : P → P') : e.KeepsQueues P' e' :=
  ⟨h.sysexBuffer_eq, h.globalEvents_eq, h.eventQueue_eq.imp_right fun hq => ⟨hP hq.1, hq.2⟩⟩

end Engine.KeepsQueues

/-! ## Steps of the handlers -/

namespace SysexMap

theorem forEach_queues (f : EngineChannel π → EngineChannel π) (cache : List ℕ)
    (me : SysexMap π) : me.engine.KeepsQueues P (me.forEach f cache).engine := by
  show me.engine.KeepsQueues P (cache.foldl (Engine.modifyChannel f) me.engine)
  generalize me.engine = e
  induction cache generalizing e with
  | nil => exact .refl e
  | cons i cache ih =>
      have hone : e.KeepsQueues P (e.modifyChannel f i) := ⟨rfl, rfl, .inl rfl⟩
      exact hone.trans (ih (e.modifyChannel f i))

theorem filterChannels_engine [DecidableEq π] {me me' : SysexMap π} {p : ℕ} {cache : List ℕ}
    (h : me.filterChannels p = .ok (cache, me')) : me'.engine = me.engine := by
  simp only [filterChannels, bind, Except.bind] at h
  split at h
  · split at h
    · cases h
    · cases h
      rfl
  · split at h
    · cases h
      rfl
    · cases h

end SysexMap

theorem Engine.resetMidiMode_queues [DecidableEq π] {mode : MidiMode} {e e' : Engine π}
    (h : e.resetMidiMode mode = .ok e') (hP : P) : e.KeepsQueues P e' := by
  simp only [Engine.resetMidiMode, bind, Except.bind] at h
  split at h
  · cases h
  · cases h
    exact ⟨rfl, rfl, .inr ⟨hP, rfl⟩⟩

namespace GSSysexMap

theorem patchParam_queues (cache : List ℕ) (index : ℕ) (lead : UInt8) (me : SysexMap π) :
    me.engine.KeepsQueues P (patchParam cache index lead me).engine := by
  unfold patchParam
  split <;> first
    | exact .refl me.engine
    | exact forEach_queues _ cache me

theorem efx88Param_queues (cache : List ℕ) (index : ℕ) (lead : UInt8) (me : SysexMap π) :
    me.engine.KeepsQueues P (efx88Param cache index lead me).engine := by
  unfold efx88Param
  split <;> first
    | exact .refl me.engine
    | exact forEach_queues _ cache me

end GSSysexMap

namespace XGSysexMap

theorem partParam_queues {index : ℕ} {f : UInt8 → List ℕ → SysexMap π → SysexMap π}
    (hf : partParam index = some f) (b : UInt8) (cache : List ℕ) (me : SysexMap π) :
    me.engine.KeepsQueues P (f b cache me).engine := by
  unfold partParam at hf
  split at hf <;> cases hf <;> first
    | exact forEach_queues _ cache me
    | skip
  -- The key assignment has three values.
  dsimp only
  split <;> first
    | exact .refl me.engine
    | exact forEach_queues _ cache me

theorem partLoop_queues {cache : List ℕ} {count : ℕ} {buffer : List (Option UInt8)}
    {n j : ℕ} {me me' : SysexMap π} {go : Bool} {j' : ℕ}
    (h : partLoop cache count buffer n j me = .ok (go, j', me')) :
    me.engine.KeepsQueues P me'.engine := by
  induction n generalizing j me with
  | zero =>
      cases h
      exact .refl _
  | succ n ih =>
      rw [partLoop] at h
      split at h
      · split at h
        · cases h
          exact .refl _
        · simp only [bind, Except.bind] at h
          split at h
          · cases h
          · split at h <;> cases h
      · split at h
        · exact ih h
        · rename_i f hf
          simp only [bind, Except.bind] at h
          split at h
          · cases h
          · exact (partParam_queues hf _ cache me).trans (ih h)

end XGSysexMap

/-! ## Where the reader stands -/

section Reads

variable {a k : ℕ} {data : List UInt8} {me me' : SysexMap π} {s s' : SysexReader} {go : Bool}

/-- The reader has the data of the message from `k` on. At the end, its
address does not matter. -/
def Reads (a : ℕ) (data : List UInt8) (k : ℕ) (s : SysexReader) : Prop :=
  ∃ a', s.Has a' (data.drop k) ∧ (data.drop k ≠ [] → a' = a + k)

theorem Reads.of_has (h : s.Has (a + k) (data.drop k)) : Reads a data k s := ⟨_, h, fun _ => rfl⟩

theorem Reads.has (h : Reads a data k s) (hdata : s.toBool = true) :
    s.Has (a + k) (data.drop k) ∧ k < data.length := by
  obtain ⟨a', h', haddr⟩ := h
  have hne : data.drop k ≠ [] := by
    rw [h'.toBool_eq] at hdata
    exact of_decide_eq_true hdata
  rw [haddr hne] at h'
  refine ⟨h', ?_⟩
  by_contra hlen
  exact hne (List.drop_of_length_le (not_lt.mp hlen))

/-- A reader that went on within what was left. -/
theorem Reads.of_drop {a' n : ℕ} (h : s.Has a' ((data.drop k).drop n))
    (haddr : (data.drop k).drop n ≠ [] → a' = a + k + n) : Reads a data (k + n) s := by
  rw [List.drop_drop] at h haddr
  exact ⟨a', h, fun hne => by rw [haddr hne, Nat.add_assoc]⟩

theorem loop_queues {guard : ℕ → Bool} {body : ℕ → SysexHandler π} {I : ℕ → Prop}
    (hbody : ∀ me s k go me' s', I k → k < data.length → s.Has (a + k) (data.drop k) →
      guard ((a + k) % 128) = true → body ((a + k) % 128) me s = .ok (go, me', s') →
      me.engine.KeepsQueues P me'.engine ∧ (go = true → ∃ k', I k' ∧ Reads a data k' s'))
    (hI : I k) (h : Reads a data k s) (hrun : loop guard body me s = .ok (go, me', s')) :
    me.engine.KeepsQueues P me'.engine ∧ (go = true → ∃ k', Reads a data k' s') := by
  rw [loop] at hrun
  generalize s.left.toNat + 1 = fuel at hrun
  induction fuel generalizing me s k with
  | zero => cases hrun
  | succ fuel ih =>
      rw [whileIndex] at hrun
      split at hrun
      · rename_i hguard
        obtain ⟨h', hlt⟩ := h.has hguard.1
        rw [h'.index_eq] at hrun hguard
        cases hstep : body ((a + k) % 128) me s with
        | error e =>
            rw [hstep] at hrun
            cases hrun
        | ok r =>
            obtain ⟨go₁, me₁, s₁⟩ := r
            obtain ⟨hkeeps, hnext⟩ := hbody me s k go₁ me₁ s₁ hI hlt h' hguard.2 hstep
            rw [hstep] at hrun
            cases go₁ with
            | false =>
                cases hrun
                exact ⟨hkeeps, fun hgo => by cases hgo⟩
            | true =>
                obtain ⟨k₁, hI₁, h₁⟩ := hnext rfl
                obtain ⟨hkeeps', hend⟩ := ih hI₁ h₁ hrun
                exact ⟨hkeeps.trans hkeeps', hend⟩
      · cases hrun
        exact ⟨.refl _, fun _ => ⟨k, h⟩⟩

/-- A handler that is entered within its block. -/
def BlockKeeps (P : Prop) (a : ℕ) (data : List UInt8) (block : AddressBlock π) : Prop :=
  ∀ me s k go me' s', k < data.length → block.min ≤ a + k → a + k ≤ block.max →
    s.Has (a + k) (data.drop k) → block.handler me s = .ok (go, me', s') →
    me.engine.KeepsQueues P me'.engine ∧ (go = true → ∃ k', Reads a data k' s')

theorem dispatch_queues {map : List (AddressBlock π)}
    (hmap : ∀ block ∈ map, BlockKeeps P a data block ∧ block.min ≤ block.max)
    (h : Reads a data k s) (hrun : dispatch map me s = .ok me') :
    me.engine.KeepsQueues P me'.engine := by
  induction map generalizing me s k with
  | nil =>
      cases hrun
      exact .refl _
  | cons block map ih =>
      obtain ⟨hblock, hle⟩ := hmap block List.mem_cons_self
      have hrest := fun block hmem => hmap block (List.mem_cons_of_mem _ hmem)
      cases hdata : s.toBool with
      | false =>
          rw [dispatch, if_pos (by simp [hdata])] at hrun
          cases hrun
          exact .refl _
      | true =>
          obtain ⟨h', hlt⟩ := h.has hdata
          rcases Nat.lt_or_ge block.max (a + k) with hpast | hmax
          · rw [dispatch_past h' hpast] at hrun
            exact ih hrest h hrun
          · rcases Nat.lt_or_ge (block.min - (a + k)) (data.drop k).length with hin | hout
            · obtain ⟨s₁, h₁, hcall⟩ := dispatch_enter block map me h' hmax hin
              rw [List.length_drop] at hin
              rw [List.drop_drop, show max (a + k) block.min = a + (k + (block.min - (a + k))) by
                omega] at h₁
              rw [hcall] at hrun
              cases hstep : block.handler me s₁ with
              | error e =>
                  rw [hstep] at hrun
                  cases hrun
              | ok r =>
                  obtain ⟨go₁, me₁, s₂⟩ := r
                  obtain ⟨hkeeps, hnext⟩ := hblock me s₁ _ go₁ me₁ s₂ (by omega) (by omega)
                    (by omega) h₁ hstep
                  rw [hstep] at hrun
                  cases go₁ with
                  | false =>
                      cases hrun
                      exact hkeeps
                  | true =>
                      obtain ⟨k₂, h₂⟩ := hnext rfl
                      exact hkeeps.trans (ih hrest h₂ hrun)
            · rw [dispatch_end block map me h' hmax hout] at hrun
              cases hrun
              exact .refl _

end Reads

/-! ## The handlers -/

section Handlers

variable {a k : ℕ} {data : List UInt8} {me me' : SysexMap π} {s s' : SysexReader} {go : Bool}

/-- Nothing is done with what the loop reads. -/
theorem GSSysexMap.commonLoop_queues (h : s.Has (a + k) (data.drop k)) (hindex : (a + k) % 128 ≤ 7)
    (hrun : loop (· < 0x07) commonBody me s = .ok (go, me', s')) :
    me.engine.KeepsQueues P me'.engine ∧ (go = true → ∃ k', Reads a data k' s') := by
  rcases commonLoop_cases me h hindex with ⟨hok, -, -⟩ | ⟨n, s₁, -, -, h₁, hok⟩
  · rw [hok] at hrun
    cases hrun
    exact ⟨.refl _, fun hgo => by cases hgo⟩
  · rw [hok] at hrun
    cases hrun
    exact ⟨.refl _, fun _ => ⟨k + n, .of_drop h₁ fun _ => rfl⟩⟩

variable [DecidableEq π]

namespace GSSysexMap

/-- The message has a byte for one of the two resets. -/
def HasReset (a : ℕ) (data : List UInt8) : Prop :=
  ∃ x b, (x = SYSEX_ADDR 0x00 0x00 0x7f ∨ x = SYSEX_ADDR 0x40 0x00 0x7f) ∧ a ≤ x ∧
    data[x - a]? = some b ∧ b < 2

theorem reset_queues {block : AddressBlock π} (hblock : block.handler = handle_GsReset)
    (hone : block.min = block.max)
    (haddr : block.min = SYSEX_ADDR 0x00 0x00 0x7f ∨ block.min = SYSEX_ADDR 0x40 0x00 0x7f) :
    BlockKeeps (HasReset a data) a data block := by
  intro me s k go me' s' hk hmin hmax h hrun
  have hget : data[block.min - a]? = some data[k] := by
    rw [show block.min - a = k by omega, List.getElem?_eq_getElem hk]
  rw [List.drop_eq_getElem_cons hk] at h
  obtain ⟨s₁, hpop, h₁⟩ := h.pop
  have hreads : Reads a data (k + 1) s₁ := .of_has h₁
  rw [hblock] at hrun
  simp only [handle_GsReset, hpop, bind, Except.bind] at hrun
  split at hrun
  · rename_i hb
    simp only [SysexMap.resetMidiMode, bind, Except.bind] at hrun
    cases hmode : me.engine.resetMidiMode .GS with
    | error err =>
        rw [hmode] at hrun
        cases hrun
    | ok e =>
        rw [hmode] at hrun
        cases hrun
        exact ⟨Engine.resetMidiMode_queues hmode ⟨_, _, haddr, by omega, hget, hb⟩,
          fun _ => ⟨_, hreads⟩⟩
  · cases hrun
    exact ⟨.refl _, fun _ => ⟨_, hreads⟩⟩

omit [DecidableEq π] in
theorem common_queues {block : AddressBlock π} (hblock : block.handler = handle_GsCommon)
    (hmin : block.min = SYSEX_ADDR 0x40 0x00 0x00) (hmax : block.max = SYSEX_ADDR 0x40 0x00 0x06) :
    BlockKeeps P a data block := by
  intro me s k go me' s' _ hle hle' h hrun
  have hfrom : SYSEX_ADDR 0x40 0x00 0x00 = 1048576 := rfl
  have hto : SYSEX_ADDR 0x40 0x00 0x06 = 1048582 := rfl
  rw [hblock] at hrun
  exact commonLoop_queues h (by omega) hrun

/-- A handler that goes through the parameters of the channels of a part. -/
theorem part_queues {block : AddressBlock π} (guard : ℕ → Bool)
    (body : List ℕ → ℕ → SysexHandler π)
    (hblock : ∀ me (s : SysexReader), block.handler me s = (do
      let (cache, me) ← me.filterChannels (s.address / 128 % 16)
      if cache ≠ [] then loop guard (body cache) me s else return (true, me, s)))
    (hbody : ∀ cache me s k b go me' s', s.Has (a + k) (b :: data.drop (k + 1)) →
      body cache ((a + k) % 128) me s = .ok (go, me', s') →
      me.engine.KeepsQueues P me'.engine ∧ (go = true → ∃ k', Reads a data k' s')) :
    BlockKeeps P a data block := by
  intro me s k go me' s' _ _ _ h hrun
  rw [hblock] at hrun
  simp only [bind, Except.bind] at hrun
  split at hrun
  · cases hrun
  · rename_i r hfilter
    obtain ⟨cache, me₁⟩ := r
    rw [← filterChannels_engine hfilter]
    split at hrun
    · refine loop_queues (I := fun _ => True) (fun me s k go me' s' _ hk h _ hstep => ?_) trivial
        (.of_has h) hrun
      rw [List.drop_eq_getElem_cons hk] at h
      obtain ⟨hkeeps, hreads⟩ := hbody cache me s k _ go me' s' h hstep
      exact ⟨hkeeps, fun hgo => (hreads hgo).imp fun _ hread => ⟨trivial, hread⟩⟩
    · cases hrun
      exact ⟨.refl _, fun _ => ⟨k, .of_has h⟩⟩

theorem parts_queues {block : AddressBlock π} (hblock : block.handler = handle_GsPatchCommon) :
    BlockKeeps P a data block := by
  refine part_queues (· < 0x4c) patchCommonBody (fun me s => by rw [hblock]; rfl)
    fun cache me s k b go me' s' h hbody => ?_
  by_cases hindex : (a + k) % 128 = 0x40
  · by_cases hlen : 12 ≤ (data.drop (k + 1)).length
    · obtain ⟨s₁, h₁, hok⟩ := patchCommonBody_scale cache me h hindex hlen
      rw [hok] at hbody
      cases hbody
      rw [← List.drop_drop, List.drop_drop] at h₁
      exact ⟨⟨rfl, rfl, .inl rfl⟩, fun _ => ⟨k + 13, .of_drop h₁ fun _ => rfl⟩⟩
    · obtain ⟨s₁, -, hok⟩ := patchCommonBody_short cache me h hindex (not_le.mp hlen)
      rw [hok] at hbody
      cases hbody
      exact ⟨.refl _, fun hgo => by cases hgo⟩
  · obtain ⟨s₁, h₁, hok⟩ := patchCommonBody_byte cache me h hindex
    rw [hok] at hbody
    cases hbody
    exact ⟨patchParam_queues cache _ b me, fun _ => ⟨k + 1, .of_has h₁⟩⟩

theorem efx_queues {block : AddressBlock π} (hblock : block.handler = handle_GsEfx88) :
    BlockKeeps P a data block := by
  refine part_queues (· < 0x02) efx88Body (fun me s => by rw [hblock]; rfl)
    fun cache me s k b go me' s' h hbody => ?_
  obtain ⟨s₁, h₁, hok⟩ := efx88Body_eq cache me h
  rw [hok] at hbody
  cases hbody
  exact ⟨efx88Param_queues cache _ b me, fun _ => ⟨k + 1, .of_has h₁⟩⟩

theorem addressMap_queues (h : s.Has a data) (hrun : dispatch addressMap me s = .ok me') :
    me.engine.KeepsQueues (HasReset a data) me'.engine := by
  refine dispatch_queues (k := 0) (fun block hblock => ?_) (.of_has (by simpa using h)) hrun
  simp only [addressMap, List.mem_cons, List.not_mem_nil, or_false] at hblock
  rcases hblock with rfl | rfl | rfl | rfl | rfl
  · exact ⟨reset_queues rfl rfl (.inl rfl), le_rfl⟩
  · exact ⟨common_queues rfl rfl rfl, by dsimp only; decide⟩
  · exact ⟨reset_queues rfl rfl (.inr rfl), le_rfl⟩
  · exact ⟨parts_queues rfl, by dsimp only; decide⟩
  · exact ⟨efx_queues rfl, by dsimp only; decide⟩

end GSSysexMap

namespace XGSysexMap

omit [DecidableEq π] in
theorem system_queues {block : AddressBlock π} (hblock : block.handler = handle_XgSystem)
    (hmax : block.max = SYSEX_ADDR 0x00 0x00 0x06) : BlockKeeps P a data block := by
  intro me s k go me' s' _ _ hle h hrun
  have hto : SYSEX_ADDR 0x00 0x00 0x06 = 6 := rfl
  rw [hblock] at hrun
  exact GSSysexMap.commonLoop_queues h (by omega) hrun

theorem reset_queues {block : AddressBlock π} (hblock : block.handler = handle_XgReset)
    (hmax : block.max = SYSEX_ADDR 0x00 0x00 0x7f) :
    BlockKeeps (HasReset a data) a data block := by
  intro me s k go me' s' _ _ hle h hrun
  have hto : SYSEX_ADDR 0x00 0x00 0x7f = 127 := rfl
  rw [hblock] at hrun
  -- The loop ends at the index of the next middle byte.
  refine loop_queues (I := fun k => a + k ≤ 0x80) (fun me s k go me' s' hI hk h hguard hbody => ?_)
    (by omega) (.of_has h) hrun
  have hguard : (a + k) % 128 ≠ 0 := of_decide_eq_true hguard
  have hindex : (a + k) % 128 = a + k := Nat.mod_eq_of_lt (by omega)
  rw [List.drop_eq_getElem_cons hk] at h
  obtain ⟨s₁, h₁, hreset, hother⟩ := resetBody_eq me h
  have hreads : ∃ k', a + k' ≤ 0x80 ∧ Reads a data k' s₁ := ⟨k + 1, by omega, .of_has h₁⟩
  by_cases hresets : resets ((a + k) % 128) data[k]
  · rw [hreset hresets, SysexMap.resetMidiMode] at hbody
    cases hmode : me.engine.resetMidiMode .XG with
    | error err =>
        rw [hmode] at hbody
        cases hbody
    | ok e =>
        rw [hmode] at hbody
        cases hbody
        rw [hindex] at hresets
        refine ⟨Engine.resetMidiMode_queues hmode ⟨a + k, hresets.1, Nat.le_add_right a k, ?_⟩,
          fun _ => hreads⟩
        rw [Nat.add_sub_cancel_left, List.getElem?_eq_getElem hk, hresets.2]
  · rw [hother hresets] at hbody
    cases hbody
    exact ⟨.refl _, fun _ => hreads⟩

omit [DecidableEq π] in
theorem nothing_queues {block : AddressBlock π} (hblock : block.handler = handle_Nothing) :
    BlockKeeps P a data block := by
  intro me s k go me' s' _ _ _ h hrun
  rw [hblock] at hrun
  cases hrun
  exact ⟨.refl _, fun _ => ⟨k, .of_has h⟩⟩

theorem multipartBody_queues {index : ℕ} (hrun : multipartBody index me s = .ok (go, me', s')) :
    me.engine.KeepsQueues P me'.engine := by
  simp only [multipartBody, bind, Except.bind] at hrun
  split at hrun
  · cases hrun
  · rename_i r hfilter
    obtain ⟨cache, me₁⟩ := r
    rw [← filterChannels_engine hfilter]
    split at hrun
    · split at hrun
      · cases hrun
      · split at hrun
        · cases hrun
          exact .refl _
        · split at hrun
          · cases hrun
          · split at hrun
            · cases hrun
            · rename_i hloop
              split at hrun <;> cases hrun <;> exact partLoop_queues hloop
    · cases hrun
      exact .refl _

theorem multipart_queues {block : AddressBlock π} (hblock : block.handler = handle_Multipart) :
    BlockKeeps P a data block := by
  intro me s k go me' s' _ _ _ h hrun
  rw [hblock] at hrun
  refine loop_queues (I := fun _ => True) (fun me s k go me' s' _ hk h _ hbody => ?_) trivial
    (.of_has h) hrun
  refine ⟨multipartBody_queues hbody, fun hgo => ?_⟩
  cases hfilter : me.filterChannels ((a + k) / 128 % 128) with
  | error err =>
      rw [multipartBody, h.middle_eq, hfilter] at hbody
      cases hbody
  | ok r =>
      obtain ⟨cache, me₁⟩ := r
      rcases multipartBody_cases h hfilter with
        ⟨-, -, hunsafe⟩ | ⟨-, -, -, me₂, s₂, hok, -⟩ | ⟨-, me₂, s₂, a', hok, -, h', haddr, -⟩
      · exact absurd (Safe.of_ok hbody) hunsafe
      · rw [hok] at hbody
        cases hbody
        cases hgo
      · rw [hok] at hbody
        cases hbody
        exact ⟨_, trivial, .of_drop h' haddr⟩

theorem addressMap_queues (h : s.Has a data) (hrun : dispatch addressMap me s = .ok me') :
    me.engine.KeepsQueues (HasReset a data) me'.engine := by
  refine dispatch_queues (k := 0) (fun block hblock => ?_) (.of_has (by simpa using h)) hrun
  simp only [addressMap, List.mem_cons, List.not_mem_nil, or_false] at hblock
  rcases hblock with rfl | rfl | rfl | rfl | rfl | rfl | rfl | rfl
  · exact ⟨system_queues rfl rfl, by dsimp only; decide⟩
  · exact ⟨reset_queues rfl rfl, by dsimp only; decide⟩
  · exact ⟨nothing_queues rfl, by dsimp only; decide⟩
  · exact ⟨nothing_queues rfl, by dsimp only; decide⟩
  · exact ⟨nothing_queues rfl, by dsimp only; decide⟩
  · exact ⟨multipart_queues rfl, by dsimp only; decide⟩
  · exact ⟨nothing_queues rfl, by dsimp only; decide⟩
  · exact ⟨nothing_queues rfl, by dsimp only; decide⟩

end XGSysexMap

end Handlers

/-! ## Messages -/

/-- A message that resets the engine. -/
def Resets (message : List UInt8) : Prop :=
  gmMode message ≠ none ∨
    (∃ a data, gsData message = some (a, data) ∧ GSSysexMap.HasReset a data) ∨
    ∃ a data, xgData message = some (a, data) ∧ XGSysexMap.HasReset a data

variable [DecidableEq π]

theorem Plain.queues {message : List UInt8} {e e' : Engine π} {port : π}
    (h : Plain message e port (.ok e')) : e.KeepsQueues (gmMode message ≠ none) e' := by
  rcases h with ⟨mode, heq⟩ | ⟨value, heq⟩ | ⟨mode, hmode, heq⟩
  · cases heq
    exact ⟨rfl, rfl, .inl rfl⟩
  · cases heq
    exact ⟨rfl, rfl, .inl rfl⟩
  · exact Engine.resetMidiMode_queues heq.symm (by rw [hmode]; exact Option.some_ne_none mode)

theorem dispatchSysex_queues {e e' : Engine π} {port : π} {bytes : List UInt8} {length : ℕ}
    (hrun : dispatchSysex e port bytes length = .ok e') :
    e.KeepsQueues (Resets (bytes.take length)) e' := by
  rw [dispatchSysex_take] at hrun
  generalize bytes.drop length = rest at hrun
  generalize bytes.take length = message at hrun ⊢
  -- The data of a message are given to one of the tables.
  have hgiven : ∀ {map : List (AddressBlock π)} {mode : MidiMode} {s : SysexReader} {Q : Prop},
      (∀ me', dispatch map (create { e with renderMode := mode } port) s = .ok me' →
        e.KeepsQueues Q me'.engine) →
      dispatchSysex e port (message ++ rest) message.length =
        (dispatch map (create { e with renderMode := mode } port) s).map (·.engine) →
      e.KeepsQueues Q e' := by
    intro map mode s Q hmap heq
    rw [hrun] at heq
    cases hdispatch : dispatch map (create { e with renderMode := mode } port) s with
    | error err =>
        rw [hdispatch] at heq
        cases heq
    | ok me' =>
        rw [hdispatch] at heq
        cases heq
        exact hmap me' hdispatch
  rcases dispatchSysex_cases (π := π) message rest with
    ⟨-, hplain⟩ | ⟨a, data, hdata, -, s, hs, heq⟩ | ⟨a, data, hdata, s, hs, heq⟩
  · have hcase := hplain e port
    rw [hrun] at hcase
    exact hcase.queues.mono .inl
  · refine (hgiven (fun me' hmap => ?_) (heq e port)).mono fun h => .inr (.inl ⟨a, data, hdata, h⟩)
    have hq := GSSysexMap.addressMap_queues hs hmap
    exact ⟨hq.sysexBuffer_eq, hq.globalEvents_eq, hq.eventQueue_eq⟩
  · refine (hgiven (fun me' hmap => ?_) (heq e port)).mono fun h => .inr (.inr ⟨a, data, hdata, h⟩)
    have hq := XGSysexMap.addressMap_queues hs hmap
    exact ⟨hq.sysexBuffer_eq, hq.globalEvents_eq, hq.eventQueue_eq⟩

end LinuxSampler
