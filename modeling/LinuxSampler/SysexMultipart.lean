import LinuxSampler.SysexSafety

/-!
# The parts of Yamaha XG

A message for the parts is handled block by block: what it has of a part is
read into a buffer, and each parameter is looked up in the buffer by its
index. Here it is worked out for which blocks this is safe.
-/

namespace LinuxSampler

open SysexMap

variable {π : Type} {me : SysexMap π} {s : SysexReader} {a : ℕ} {b : UInt8} {data : List UInt8}

namespace XGSysexMap

/-! ## One block -/

/-- How much is read of a block that starts at an index, with `n` bytes
left. -/
def blockCount (i n : ℕ) : ℕ := min (0x44 - i) n

/-- A parameter lies beyond what was read, or the scale tuning is applied. -/
def Misread (i n : ℕ) : Prop :=
  ∃ x, i ≤ x ∧ x < i + blockCount i n ∧
    (x ∈ read ∧ blockCount i n ≤ x ∨ x = 0x41 ∧ 12 ≤ blockCount i n)

/-- No parameter lies in what is read of the block. -/
def Untouched (i n : ℕ) : Prop := ∀ x, i ≤ x → x < i + blockCount i n → x ∉ read

/-- The rest of the message is given up. -/
def Stops (i n : ℕ) : Prop := 0x44 < i ∨ i ≤ 0x41 ∧ 0x41 < i + blockCount i n

theorem misread_zero_iff (n : ℕ) : Misread 0 n ↔ 0x42 ≤ n := by
  constructor
  · rintro ⟨x, hx, hlt, ⟨hread, hle⟩ | ⟨rfl, hle⟩⟩
    · omega
    · simp only [blockCount] at hlt
      omega
  · intro hn
    refine ⟨0x41, by omega, ?_, .inr ⟨rfl, ?_⟩⟩ <;> simp only [blockCount] <;> omega

theorem stops_zero_iff (n : ℕ) : Stops 0 n ↔ 0x42 ≤ n := by
  simp only [Stops, blockCount]
  omega

/-! ### The buffer -/

theorem received_eq {bytes : List UInt8} (hlen : bytes.length ≤ 128) :
    ∃ buffer, received bytes = .ok buffer ∧ buffer.length = 128 ∧
      (∀ i < bytes.length, ∃ b, bufferAt buffer i = .ok b) ∧
      ∀ i, bytes.length ≤ i → i < 128 → bufferAt buffer i = .error .uninitialised := by
  refine ⟨_, by rw [received, if_neg (not_lt.mpr hlen)], ?_, ?_, ?_⟩
  · rw [List.length_append, List.length_map, List.length_replicate]
    omega
  · intro i hi
    refine ⟨bytes[i], ?_⟩
    rw [bufferAt, List.getElem?_append_left (by rwa [List.length_map]), List.getElem?_map,
      List.getElem?_eq_getElem hi]
    rfl
  · intro i hi hi'
    rw [bufferAt, List.getElem?_append_right (by rwa [List.length_map]), List.getElem?_replicate,
      if_pos (by rw [List.length_map]; omega)]

theorem foldlM_lower (index : ℕ) (l : List ℕ) (buffer : List (Option UInt8)) :
    (∃ buffer', l.foldlM (fun buffer i => lower buffer (index + i)) buffer = .ok buffer') ∨
      l.foldlM (fun buffer i => lower buffer (index + i)) buffer = .error .outOfBounds := by
  induction l generalizing buffer with
  | nil => exact .inl ⟨buffer, rfl⟩
  | cons i l ih =>
      by_cases hi : index + i < buffer.length
      · have hlower : lower buffer (index + i) =
            .ok (buffer.modify (index + i) (Option.map (· - 64))) := if_pos hi
        simp only [List.foldlM_cons, hlower, bind, Except.bind]
        exact ih _
      · have hlower : lower buffer (index + i) = .error .outOfBounds := if_neg hi
        simp only [List.foldlM_cons, hlower, bind, Except.bind]
        exact .inr trivial

/-- The scale tuning is never applied. -/
theorem scale_not_safe (buffer : List (Option UInt8)) (index : ℕ) :
    ¬ Safe (do
      let buffer ← (List.range 12).foldlM (fun buffer i => lower buffer (index + i)) buffer
      let _ ← bufferAt buffer index
      .error .dataAsAddress : Except Abort (Bool × ℕ × SysexMap π)) := by
  obtain ⟨buffer', hok⟩ | herr := foldlM_lower index (List.range 12) buffer
  · rw [hok]
    simp only [bind, Except.bind, bufferAt]
    split
    · rename_i heq
      split at heq <;> cases heq <;> exact not_safe_of_error rfl (by decide)
    · exact not_safe_of_error rfl (by decide)
  · rw [herr]
    exact not_safe_of_error rfl (by decide)

variable [DecidableEq π] {cache : List ℕ} {count : ℕ} {buffer : List (Option UInt8)}

/-- `n` parameters from index `j` on are looked up. -/
theorem partLoop_cases (cache : List ℕ) (hread : ∀ i < count, ∃ b, bufferAt buffer i = .ok b)
    (hbeyond : ∀ i, count ≤ i → i < 128 → bufferAt buffer i = .error .uninitialised)
    (n j : ℕ) (hj : j + n ≤ 0x44) (me : SysexMap π) :
    ((∃ x, j ≤ x ∧ x < j + n ∧ (x ∈ read ∧ count ≤ x ∨ x = 0x41 ∧ 12 ≤ count)) ∧
      ¬ Safe (partLoop cache count buffer n j me)) ∨
    ((¬ ∃ x, j ≤ x ∧ x < j + n ∧ (x ∈ read ∧ count ≤ x ∨ x = 0x41 ∧ 12 ≤ count)) ∧
      ∃ go j' me', partLoop cache count buffer n j me = .ok (go, j', me') ∧ me.Keeps me' ∧
        ((∀ x, j ≤ x → x < j + n → x ∉ read) → me' = me) ∧
        (go = true ∧ j' = j + n ∧ ¬ (j ≤ 0x41 ∧ 0x41 < j + n) ∨
          go = false ∧ j ≤ 0x41 ∧ 0x41 < j + n)) := by
  induction n generalizing j me with
  | zero =>
      refine .inr ⟨?_, true, j, me, rfl, Keeps.refl me, fun _ => rfl, .inl ⟨rfl, rfl, by omega⟩⟩
      rintro ⟨x, hx, hlt, _⟩
      omega
  | succ n ih =>
      by_cases hscale : j = 0x41
      · subst hscale
        by_cases hcount : count < 12
        · right
          refine ⟨?_, false, 0x41, me, ?_, Keeps.refl me, fun _ => rfl,
            .inr ⟨rfl, le_rfl, by omega⟩⟩
          · rintro ⟨x, hx, hlt, ⟨hmem, _⟩ | ⟨_, hle⟩⟩
            · simp only [read, List.mem_cons, List.not_mem_nil, or_false] at hmem
              omega
            · omega
          · rw [partLoop, if_pos rfl, if_pos hcount]
        · left
          refine ⟨⟨0x41, le_rfl, by omega, .inr ⟨rfl, not_lt.mp hcount⟩⟩, ?_⟩
          rw [partLoop, if_pos rfl, if_neg hcount]
          exact scale_not_safe buffer 0x41
      · rw [partLoop, if_neg hscale]
        -- The rest of the loop, from the next index on.
        have hnext : ∀ me₁ : SysexMap π, me.Keeps me₁ → (j ∉ read → me₁ = me) →
            ¬ (j ∈ read ∧ count ≤ j) →
            ((∃ x, j ≤ x ∧ x < j + (n + 1) ∧ (x ∈ read ∧ count ≤ x ∨ x = 0x41 ∧ 12 ≤ count)) ∧
              ¬ Safe (partLoop cache count buffer n (j + 1) me₁)) ∨
            ((¬ ∃ x, j ≤ x ∧ x < j + (n + 1) ∧
                (x ∈ read ∧ count ≤ x ∨ x = 0x41 ∧ 12 ≤ count)) ∧
              ∃ go j' me', partLoop cache count buffer n (j + 1) me₁ = .ok (go, j', me') ∧
                me.Keeps me' ∧ ((∀ x, j ≤ x → x < j + (n + 1) → x ∉ read) → me' = me) ∧
                (go = true ∧ j' = j + (n + 1) ∧ ¬ (j ≤ 0x41 ∧ 0x41 < j + (n + 1)) ∨
                  go = false ∧ j ≤ 0x41 ∧ 0x41 < j + (n + 1))) := by
          intro me₁ hkeeps hsame hj'
          rcases ih (j + 1) (by omega) me₁ with
            ⟨⟨x, hx, hlt, hbad⟩, hunsafe⟩ | ⟨hgood, go, j', me', hok, hkeeps', hquiet, hend⟩
          · exact .inl ⟨⟨x, by omega, by omega, hbad⟩, hunsafe⟩
          · refine .inr ⟨?_, go, j', me', hok, hkeeps.trans hkeeps', fun hnone => ?_, ?_⟩
            rotate_left
            · rw [hquiet fun x hx hlt => hnone x (by omega) (by omega)]
              exact hsame (hnone j le_rfl (by omega))
            rotate_left
            · rintro ⟨x, hx, hlt, hbad⟩
              by_cases hxj : x = j
              · subst hxj
                exact hbad.elim hj' fun h => hscale h.1
              · exact hgood ⟨x, by omega, by omega, hbad⟩
            · rcases hend with ⟨hgo, hj', hnot⟩ | ⟨hgo, hle, hlt⟩
              · exact .inl ⟨hgo, by omega, by omega⟩
              · exact .inr ⟨hgo, by omega, by omega⟩
        cases hparam : partParam (π := π) j with
        | none =>
            have hmem : j ∉ read := by
              rw [← partParam_isSome_iff (π := π), hparam]
              simp
            exact hnext me (Keeps.refl me) (fun _ => rfl) fun h => hmem h.1
        | some f =>
            have hmem : j ∈ read := by
              rw [← partParam_isSome_iff (π := π), hparam]
              rfl
            by_cases hlt : j < count
            · obtain ⟨b, hb⟩ := hread j hlt
              simp only [hb, bind, Except.bind]
              exact hnext _ (partParam_keeps hparam b cache me) (fun hnot => absurd hmem hnot)
                fun h => by omega
            · left
              refine ⟨⟨j, le_rfl, by omega, .inl ⟨hmem, by omega⟩⟩, ?_⟩
              rw [hbeyond j (by omega) (by omega)]
              exact not_safe_of_error rfl (by decide)

/-- One block, once the channels of its part are known. -/
theorem multipartBody_cases {me₁ : SysexMap π} (h : s.Has a data)
    (hfilter : me.filterChannels (a / 128 % 128) = .ok (cache, me₁)) :
    (cache ≠ [] ∧ Misread (a % 128) data.length ∧ ¬ Safe (multipartBody (a % 128) me s)) ∨
    (cache ≠ [] ∧ ¬ Misread (a % 128) data.length ∧ Stops (a % 128) data.length ∧
      ∃ me' s', multipartBody (a % 128) me s = .ok (false, me', s') ∧
        (Untouched (a % 128) data.length → me' = me₁)) ∨
    ((cache ≠ [] → ¬ Misread (a % 128) data.length ∧ ¬ Stops (a % 128) data.length) ∧
      ∃ me' s' a', multipartBody (a % 128) me s = .ok (true, me', s') ∧ me₁.Keeps me' ∧
        s'.Has a' (data.drop (128 - a % 128)) ∧
        (data.drop (128 - a % 128) ≠ [] → a' = a + (128 - a % 128)) ∧
        (cache = [] ∨ Untouched (a % 128) data.length → me' = me₁)) := by
  have hindex := Nat.mod_lt a (show 0 < 128 by decide)
  -- Going to the next part, from `k` bytes later on.
  have hskip : ∀ (s₁ : SysexReader) (k : ℕ), k ≤ data.length → a % 128 + k ≤ 128 →
      s₁.Has (a + k) (data.drop k) →
      ∃ a', (s₁.add (128 - (a % 128 + k))).Has a' (data.drop (128 - a % 128)) ∧
        (data.drop (128 - a % 128) ≠ [] → a' = a + (128 - a % 128)) := by
    intro s₁ k hk hk' h₁
    by_cases hover : (data.drop k).length < 128 - (a % 128 + k)
    · rw [List.length_drop] at hover
      have hnil : data.drop (128 - a % 128) = [] := List.drop_of_length_le (by omega)
      rw [hnil]
      exact ⟨_, h₁.add_over (by rwa [List.length_drop]), fun hne => absurd rfl hne⟩
    · have hadd := h₁.add (not_lt.mp hover)
      rw [List.drop_drop, show k + (128 - (a % 128 + k)) = 128 - a % 128 by omega] at hadd
      exact ⟨_, hadd, fun _ => by omega⟩
  rw [multipartBody, h.middle_eq, hfilter]
  simp only [bind, Except.bind]
  by_cases hcache : cache = []
  · right; right
    obtain ⟨a', h', ha'⟩ := hskip s 0 (Nat.zero_le _) (by omega) (by simpa using h)
    rw [if_neg (not_not.mpr hcache)]
    exact ⟨fun hne => absurd hcache hne, me₁, _, a', rfl, Keeps.refl me₁, h', ha', fun _ => rfl⟩
  · rw [if_pos hcache]
    by_cases hstart : 0x44 < a % 128
    · right; left
      have hcount : min (0x44 - ((a % 128 : ℕ) : ℤ)) s.available < 0 := by omega
      rw [h.read_short _ (.inl hcount)]
      refine ⟨hcache, ?_, .inl hstart, me₁, s, rfl, fun _ => rfl⟩
      rintro ⟨x, hx, hlt, _⟩
      simp only [blockCount] at hlt
      omega
    · have hcount : min (0x44 - ((a % 128 : ℕ) : ℤ)) s.available =
          (blockCount (a % 128) data.length : ℕ) := by
        rw [SysexReader.available, h.left_eq, blockCount]
        omega
      have hle : blockCount (a % 128) data.length ≤ data.length := Nat.min_le_right _ _
      have hsize : a % 128 + blockCount (a % 128) data.length ≤ 0x44 := by
        simp only [blockCount]
        omega
      obtain ⟨s₁, hrun, h₁⟩ := h.read hle
      obtain ⟨buffer, hreceived, -, hread, hbeyond⟩ :=
        received_eq (show (data.take (blockCount (a % 128) data.length)).length ≤ 128 by
          rw [List.length_take]; omega)
      rw [List.length_take, Nat.min_eq_left hle] at hread hbeyond
      rw [hcount, hrun]
      simp only [hreceived, Int.toNat_natCast]
      obtain ⟨hbad, hunsafe⟩ | ⟨hgood, go, j', me', hok, hkeeps, hquiet, hend⟩ :=
        partLoop_cases cache hread hbeyond (blockCount (a % 128) data.length) (a % 128)
          hsize me₁
      · left
        refine ⟨hcache, hbad, fun hsafe => hunsafe ?_⟩
        intro f hf
        refine hsafe f ?_
        rw [hf]
      · right
        rw [hok]
        rcases hend with ⟨rfl, rfl, hnot⟩ | ⟨rfl, hle', hlt'⟩
        · right
          obtain ⟨a', h', ha'⟩ := hskip s₁ _ hle (by omega) h₁
          refine ⟨fun _ => ⟨hgood, ?_⟩, me', _, a', rfl, hkeeps, h', ha', fun hnone =>
            hquiet (hnone.resolve_left hcache)⟩
          rintro (hover | hscale)
          · exact hstart hover
          · exact hnot hscale
        · left
          exact ⟨hcache, hgood, .inr ⟨hle', hlt'⟩, me', s₁, rfl, hquiet⟩

theorem multipartBody_consumes : Consumes (multipartBody (π := π)) := by
  intro me s a b data go me' s' h hrun hgo
  cases hfilter : me.filterChannels (a / 128 % 128) with
  | error e =>
      rw [multipartBody, h.middle_eq, hfilter] at hrun
      cases hrun
  | ok r =>
      obtain ⟨cache, me₁⟩ := r
      have hindex := Nat.mod_lt a (show 0 < 128 by decide)
      obtain ⟨_, _, hunsafe⟩ | ⟨_, _, _, me₂, s₂, hok, _⟩ | ⟨_, me₂, s₂, a', hok, _, h', _⟩ :=
        multipartBody_cases h hfilter
      · exact absurd (Safe.of_ok hrun) hunsafe
      · rw [hok] at hrun
        cases hrun
        cases hgo
      · rw [hok] at hrun
        cases hrun
        refine ⟨a', _, h', ?_⟩
        rw [List.length_drop, List.length_cons]
        omega

/-! ## All blocks -/

/-- Later blocks begin with the first parameter of their part. -/
theorem loop_aligned_safe_iff {q : ℕ} (hme : me.Filled q) (h : s.Has a data)
    (ha : data ≠ [] → a % 128 = 0) :
    Safe (loop (fun _ => true) multipartBody me s) ↔
      ∀ j, 128 * j < data.length →
        me.engine.assigned me.sourcePort ((a / 128 + j) % 128) ≠ [] →
        data.length - 128 * j < 0x42 := by
  obtain ⟨n, hn⟩ : ∃ n, data.length = n := ⟨_, rfl⟩
  induction n using Nat.strong_induction_on generalizing me s a data q with
  | _ n ih =>
    cases data with
    | nil =>
        rw [loop_nil h]
        exact ⟨fun _ j hj => absurd hj (Nat.not_lt_zero _), fun _ => Safe.of_ok rfl⟩
    | cons b data =>
        have hindex := ha (List.cons_ne_nil b data)
        obtain ⟨me₁, hfilter, hfilled, hengine, hport⟩ :=
          filterChannels_eq (p := a / 128 % 128) (.inr ⟨q, hme⟩)
            (.inr (by rw [hme.cache_eq]; exact Option.some_ne_none _))
        rw [loop_cons multipartBody_consumes h rfl]
        obtain ⟨hcache, hbad, hunsafe⟩ | ⟨_, hgood, hstops, _⟩ |
            ⟨hgood, me', s', a', hok, hkeeps, h', ha', _⟩ := multipartBody_cases h hfilter
        · rw [hindex, misread_zero_iff] at hbad
          refine ⟨fun hsafe => absurd hsafe.of_bind hunsafe, fun hall => ?_⟩
          have hfirst := hall 0 (by simp) (by simpa using hcache)
          omega
        · rw [hindex, misread_zero_iff] at hgood
          rw [hindex, stops_zero_iff] at hstops
          exact absurd hstops hgood
        · rw [hindex] at hgood h' ha'
          rw [misread_zero_iff] at hgood
          rw [hok]
          have hlen : ((b :: data).drop (128 - 0)).length < n := by
            rw [List.length_drop, hn]
            rw [List.length_cons] at hn
            omega
          have hnext := ih _ hlen (hkeeps.filled hfilled) h'
            (fun hne => by rw [ha' hne]; omega) rfl
          refine hnext.trans ?_
          have hassigned : ∀ p, me'.engine.assigned me'.sourcePort p =
              me.engine.assigned me.sourcePort p := fun p => by
            rw [hkeeps.assigned_eq, hengine, hport]
          simp only [hassigned, List.length_drop, Nat.sub_zero]
          constructor
          · intro hall j hj hcache
            cases j with
            | zero =>
                have hone := hgood (by simpa using hcache)
                omega
            | succ j =>
                have hne : (b :: data).drop (128 - 0) ≠ [] := by
                  rw [Ne, List.drop_eq_nil_iff]
                  omega
                have hpart : (a' / 128 + j) % 128 = (a / 128 + (j + 1)) % 128 := by
                  rw [ha' hne]
                  omega
                have := hall j (by omega) (by rwa [hpart])
                omega
          · intro hall j hj hcache
            have hne : (b :: data).drop (128 - 0) ≠ [] := by
              rw [Ne, List.drop_eq_nil_iff]
              omega
            have hpart : (a' / 128 + j) % 128 = (a / 128 + (j + 1)) % 128 := by
              rw [ha' hne]
              omega
            have := hall (j + 1) (by omega) (by rwa [hpart] at hcache)
            omega

end XGSysexMap

/-- What a message that enters the parts at an address, with `n` bytes
left, must be like. The first block may start at any index; the channels of
the seventeenth part would be those of all MIDI channels. -/
def MultipartSafe (e : Engine π) (port : π) [DecidableEq π] (a n : ℕ) : Prop :=
  a / 128 % 128 ≠ midi_chan_all ∧
    (e.assigned port (a / 128 % 128) ≠ [] → ¬ XGSysexMap.Misread (a % 128) n) ∧
    ((e.assigned port (a / 128 % 128) ≠ [] → ¬ XGSysexMap.Stops (a % 128) n) →
      ∀ j, 0 < j → 128 * j - a % 128 < n →
        e.assigned port ((a / 128 + j) % 128) ≠ [] → n + a % 128 - 128 * j < 0x42)

namespace XGSysexMap

variable [DecidableEq π]

theorem handle_Multipart_safe_iff (hchan : me.channel = midi_chan_all) (hnone : me.cache = none)
    (h : s.Has a data) (hdata : data ≠ []) :
    Safe (handle_Multipart me s) ↔
      MultipartSafe me.engine me.sourcePort a data.length := by
  have hindex := Nat.mod_lt a (show 0 < 128 by decide)
  obtain ⟨b, tail, rfl⟩ := List.exists_cons_of_ne_nil hdata
  rw [handle_Multipart, loop_cons multipartBody_consumes h rfl]
  by_cases hall : a / 128 % 128 = midi_chan_all
  · have hstale := filterChannels_stale hchan hnone
    rw [← hall] at hstale
    rw [multipartBody, h.middle_eq, hstale]
    exact ⟨fun hsafe => absurd hsafe (not_safe_of_error rfl (by decide)), fun hm =>
      absurd hall hm.1⟩
  · obtain ⟨me₁, hfilter, hfilled, hengine, hport⟩ :=
      filterChannels_eq (.inl ⟨hchan, hnone⟩) (.inl hall)
    obtain ⟨hcache, hbad, hunsafe⟩ | ⟨hcache, hgood, hstops, me', s', hok, _⟩ |
        ⟨hgood, me', s', a', hok, hkeeps, h', ha', _⟩ := multipartBody_cases h hfilter
    · exact ⟨fun hsafe => absurd hsafe.of_bind hunsafe, fun hm => absurd hbad (hm.2.1 hcache)⟩
    · rw [hok]
      exact ⟨fun _ => ⟨hall, fun _ => hgood, fun hnot => absurd hstops (hnot hcache)⟩,
        fun _ => Safe.of_ok rfl⟩
    · rw [hok]
      have hassigned : ∀ p, me'.engine.assigned me'.sourcePort p =
          me.engine.assigned me.sourcePort p := fun p => by
        rw [hkeeps.assigned_eq, hengine, hport]
      refine (loop_aligned_safe_iff (hkeeps.filled hfilled) h'
        (fun hne => by rw [ha' hne]; omega)).trans ?_
      simp only [hassigned, List.length_drop]
      have hpart : ∀ j, (b :: tail).drop (128 - a % 128) ≠ [] →
          (a' / 128 + j) % 128 = (a / 128 + (j + 1)) % 128 := by
        intro j hne
        rw [ha' hne]
        omega
      constructor
      · refine fun hrest => ⟨hall, fun hcache => (hgood hcache).1, fun _ j hj hlt hcache => ?_⟩
        obtain ⟨j, rfl⟩ : ∃ i, j = i + 1 := ⟨j - 1, by omega⟩
        have hne : (b :: tail).drop (128 - a % 128) ≠ [] := by
          rw [Ne, List.drop_eq_nil_iff]
          omega
        have := hrest j (by omega) (by rwa [hpart j hne])
        omega
      · rintro ⟨-, -, hrest⟩ j hj hcache
        have hne : (b :: tail).drop (128 - a % 128) ≠ [] := by
          rw [Ne, List.drop_eq_nil_iff]
          omega
        have := hrest (fun hcache => (hgood hcache).2) (j + 1) (by omega) (by omega)
          (by rwa [hpart j hne] at hcache)
        omega

end XGSysexMap

end LinuxSampler
