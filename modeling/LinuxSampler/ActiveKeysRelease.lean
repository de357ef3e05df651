import LinuxSampler.ActiveKeys
import LinuxSampler.PoolUse
import LinuxSampler.ScriptKept
import LinuxSampler.ScriptQueue

/-!
# The release of a key

What `FreeAllInactiveKeys()` does to the keys and to the script events that
are kept for them, in every state whose lists are linked, and in runs from
the creation of the channel. The key whose events are released is always
key 1, so that the others keep theirs.
-/

namespace LinuxSampler

open DoublyLinked

variable {L : ScriptLang}

namespace PooledKey

/-- What the loop makes of an active key. -/
def settle (key : PooledKey) : PooledKey :=
  if key.freeNotes.pActiveNotes = [] then key.freeNotes.release else key.freeNotes

theorem freeNotes_eq_nil {key : PooledKey} :
    key.freeNotes.pActiveNotes = [] ↔ ∀ voices ∈ key.pActiveNotes, voices = [] := by
  simp [freeNotes, List.filter_eq_nil_iff]

end PooledKey

namespace ActiveKeys

variable {S S' : ActiveKeys L} {lists : Lists Unit} {k k' : Key} {i : ℕ}

/-! ## Linked states -/

/-- The elements of the list of active keys and the active keys belong to each
other. -/
structure Valid (S : ActiveKeys L) (lists : Lists Unit) : Prop where
  pool : Pool.InUse 128 0 S.pActiveKeys lists
  self : ∀ k, (S.pMIDIKeyInfo k).active = true →
    ∃ i ∈ lists (.rtlist ()), (S.pMIDIKeyInfo k).itSelf.index = some i ∧ S.number i = k
  owner : ∀ i ∈ lists (.rtlist ()), (S.pMIDIKeyInfo (S.number i)).active = true ∧
    (S.pMIDIKeyInfo (S.number i)).itSelf.index = some i

/-- The lists of the keyboard manager and those of the script are linked. -/
structure Linked (S : ActiveKeys L) : Prop where
  keys : ∃ lists, S.Valid lists
  script : ∀ channel ∈ S.pScript, ∃ size lists, Pool.Holds size channel.pEvents lists

/-- Two elements stand for different keys. -/
theorem Valid.number_inj (h : S.Valid lists) {j : ℕ} (hi : i ∈ lists (.rtlist ()))
    (hj : j ∈ lists (.rtlist ())) (hij : S.number i = S.number j) : i = j := by
  have hself := (h.owner i hi).2
  rw [hij, (h.owner j hj).2] at hself
  exact (Option.some.inj hself).symm

theorem modifyKey_self (f : PooledKey → PooledKey) :
    (S.modifyKey k f).pMIDIKeyInfo k = f (S.pMIDIKeyInfo k) :=
  Function.update_self ..

theorem modifyKey_of_ne (f : PooledKey → PooledKey) (hk : k' ≠ k) :
    (S.modifyKey k f).pMIDIKeyInfo k' = S.pMIDIKeyInfo k' :=
  Function.update_of_ne hk ..

/-- Whatever a change of a key leaves alone is as before for all keys. -/
theorem modifyKey_field {β : Type*} (π : PooledKey → β) {f : PooledKey → PooledKey}
    (hf : ∀ key, π (f key) = π key) (k' : Key) :
    π ((S.modifyKey k f).pMIDIKeyInfo k') = π (S.pMIDIKeyInfo k') := by
  by_cases hk : k' = k
  · subst hk
    rw [modifyKey_self, hf]
  · rw [modifyKey_of_ne f hk]

/-- The notes of a key do not matter. -/
theorem Valid.modifyKey (h : S.Valid lists) {f : PooledKey → PooledKey}
    (hactive : ∀ key, (f key).active = key.active) (hself : ∀ key, (f key).itSelf = key.itSelf) :
    (S.modifyKey k f).Valid lists where
  pool := h.pool
  self k' hk' := by
    rw [modifyKey_field (·.active) hactive] at hk'
    rw [modifyKey_field (·.itSelf) hself]
    exact h.self k' hk'
  owner i hi := by
    have howner := h.owner i hi
    constructor
    · exact (modifyKey_field (·.active) hactive _).trans howner.1
    · exact (congrArg _ (modifyKey_field (·.itSelf) hself _)).trans howner.2

theorem Valid.congr (h : S.Valid lists) (hkeys : S'.pMIDIKeyInfo = S.pMIDIKeyInfo)
    (hpool : S'.pActiveKeys = S.pActiveKeys) (hnumber : S'.number = S.number) :
    S'.Valid lists where
  pool := hpool ▸ h.pool
  self := by
    rw [hkeys, hnumber]
    exact h.self
  owner := by
    rw [hkeys, hnumber]
    exact h.owner

/-! ## The script -/

/-- A property of scripts under which the list of key 1 can be cleared. -/
def Clears (Q : ScriptChannel L → Prop) : Prop :=
  ∀ channel, Q channel → ∃ channel', channel.freeKey true = some channel' ∧ Q channel' ∧
    ∀ k, channel'.keyEvents k = if k = 1 then [] else channel.keyEvents k

theorem clears_holds : Clears fun channel : ScriptChannel L =>
    ∃ size lists, Pool.Holds size channel.pEvents lists := by
  rintro channel ⟨size, lists, h⟩
  obtain ⟨P', hrun, -, h'⟩ := h.apply (.clear (.key 1)) trivial
  have hclear : channel.pEvents.clear (.key 1) = some P' := hrun
  refine ⟨{ channel.record (channel.freed (channel.pEvents.elements (.rtlist (.key 1)))) with
    pEvents := P' }, ?_, ⟨size, _, h'⟩, fun k => ?_⟩
  · rw [ScriptChannel.freeKey, if_pos rfl, ScriptChannel.clear, hclear]
    rfl
  · rw [ScriptChannel.keyEvents, h'.elements_eq, ScriptChannel.keyEvents, h.elements_eq,
      Pool.Op.next, Lists.putLast, Function.update_of_ne (by simp), Lists.empty]
    split
    · next hk => rw [hk, Function.update_self]
    · next hk => rw [Function.update_of_ne (by simpa using hk)]

/-- A script that is not executed keeps its invariant if no event of key 1
waits in the queue. -/
theorem clears_data (script : InstrumentScript L) (size : ℕ) :
    Clears fun channel => ∃ lists pending,
      ScriptChannel.Data script size False channel lists pending [] ∧
        channel.control = .idle ∧ ∀ n ∈ lists (.rtlist (.key 1)), n ∉ pending := by
  rintro channel ⟨lists, pending, h, hcontrol, hn⟩
  obtain ⟨channel', lists', hrun, h', hself, hother, -, -, hcontrol'⟩ := h.clear (.key 1) hn
  refine ⟨channel', hrun, ⟨lists', pending, h', hcontrol'.trans hcontrol, ?_⟩, fun k => ?_⟩
  · rw [hself]
    exact fun _ hmem => nomatch hmem
  · rw [h'.keyEvents_eq, h.keyEvents_eq]
    split
    · next hk => rw [hk, hself]
    · next hk => rw [hother _ (by simpa using hk)]

/-- The key events of the script are cleared; the keys are as before. -/
theorem onScript_freeKey {Q : ScriptChannel L → Prop} (hQ : Clears Q)
    (hscript : ∀ channel ∈ S.pScript, Q channel) :
    ∃ pScript, S.onScript (·.freeKey true) = some { S with pScript := pScript } ∧
      (∀ channel ∈ pScript, Q channel) ∧
      ∀ k, ({ S with pScript := pScript } : ActiveKeys L).kept k =
        if k = 1 then [] else S.kept k := by
  obtain ⟨keys, pool, number, pScript⟩ := S
  cases pScript with
  | none =>
      refine ⟨none, rfl, ?_, fun k => (ite_self _).symm⟩
      intro channel hmem
      cases hmem
  | some channel =>
      obtain ⟨channel', hrun, hQ', hkept⟩ := hQ channel (hscript channel rfl)
      refine ⟨some channel', ?_, fun _ hmem => Option.some.inj hmem ▸ hQ', hkept⟩
      unfold onScript
      dsimp only
      rw [hrun]
      rfl

/-! ## FreeKey -/

/-- A key without notes leaves the list, and the events of key 1 are released. -/
theorem Valid.freeKey {Q : ScriptChannel L → Prop} (hQ : Clears Q) (h : S.Valid lists)
    (hscript : ∀ channel ∈ S.pScript, Q channel) (hi : i ∈ lists (.rtlist ()))
    (hk : S.number i = k) (hnotes : (S.pMIDIKeyInfo k).pActiveNotes = []) :
    ∃ S', S.freeKey k = some S' ∧ S'.Valid (lists.moveTo .freelist i) ∧
      (∀ channel ∈ S'.pScript, Q channel) ∧ S'.number = S.number ∧
      S'.pMIDIKeyInfo = (S.modifyKey k PooledKey.release).pMIDIKeyInfo ∧
      ∀ k, S'.kept k = if k = 1 then [] else S.kept k := by
  have hself := (h.owner i hi).2
  rw [hk] at hself
  have hdata : (S.pMIDIKeyInfo k).itSelf.hasData = true := Iterator.hasData_iff.mpr ⟨i, hself⟩
  obtain ⟨pScript, hrun, hscript', hkept⟩ := onScript_freeKey hQ hscript
  have hmem {j : ℕ} : j ∈ lists.moveTo .freelist i (.rtlist ()) ↔
      j ≠ i ∧ j ∈ lists (.rtlist ()) := by
    rw [Lists.mem_moveTo (h.pool.nodup _)]
    simp
  refine ⟨{ S.modifyKey k PooledKey.release with
    pScript := pScript, pActiveKeys := (S.pActiveKeys.free (S.pMIDIKeyInfo k).itSelf).1 }, ?_,
    ⟨h.pool.free hself (h.pool.lt hi), fun k' hk' => ?_, fun j hj => ?_⟩, hscript', rfl, rfl, hkept⟩
  · unfold ActiveKeys.freeKey
    dsimp only
    rw [hnotes, hdata, hrun]
    rfl
  · change ((S.modifyKey k PooledKey.release).pMIDIKeyInfo k').active = true at hk'
    change ∃ j ∈ _, ((S.modifyKey k PooledKey.release).pMIDIKeyInfo k').itSelf.index = some j ∧ _
    have hne : k' ≠ k := by
      rintro rfl
      rw [modifyKey_self] at hk'
      cases hk'
    rw [modifyKey_of_ne _ hne] at hk' ⊢
    obtain ⟨j, hj, hjself, hjnumber⟩ := h.self k' hk'
    refine ⟨j, hmem.mpr ⟨?_, hj⟩, hjself, hjnumber⟩
    rintro rfl
    exact hne (hjnumber.symm.trans hk)
  · obtain ⟨hji, hj⟩ := hmem.mp hj
    have hne : S.number j ≠ k := fun hjk => hji (h.number_inj hj hi (hjk.trans hk.symm))
    change ((S.modifyKey k PooledKey.release).pMIDIKeyInfo (S.number j)).active = true ∧
      ((S.modifyKey k PooledKey.release).pMIDIKeyInfo (S.number j)).itSelf.index = some j
    rw [modifyKey_of_ne _ hne]
    exact h.owner j hj

/-! ## FreeAllInactiveKeys -/

/-- What the loop does with the keys of the elements in `B`. -/
structure Settles (S S' : ActiveKeys L) (B : List ℕ) : Prop where
  number : S'.number = S.number
  keys : ∀ k, S'.pMIDIKeyInfo k =
    if k ∈ B.map S.number then (S.pMIDIKeyInfo k).settle else S.pMIDIKeyInfo k
  kept : ∀ k, S'.kept k =
    if k = 1 ∧ ∃ k' ∈ B.map S.number, S.Frees k' then [] else S.kept k
  script : (∀ k ∈ B.map S.number, ¬ S.Frees k) → S'.pScript = S.pScript

/-- One key is settled, then the others are. -/
theorem Settles.cons {S₁ : ActiveKeys L} {B : List ℕ} (hnumber : S₁.number = S.number)
    (hfresh : S.number i ∉ B.map S.number)
    (hself : S₁.pMIDIKeyInfo (S.number i) = (S.pMIDIKeyInfo (S.number i)).settle)
    (hothers : ∀ k, k ≠ S.number i → S₁.pMIDIKeyInfo k = S.pMIDIKeyInfo k)
    (hkept : ∀ k, S₁.kept k = if k = 1 ∧ S.Frees (S.number i) then [] else S.kept k)
    (hscript : ¬ S.Frees (S.number i) → S₁.pScript = S.pScript)
    (h : S₁.Settles S' B) : S.Settles S' (i :: B) := by
  have hfrees : ∀ k ∈ B.map S.number, (S₁.Frees k ↔ S.Frees k) := by
    intro k hk
    have hne : k ≠ S.number i := by
      rintro rfl
      exact hfresh hk
    unfold Frees
    rw [hothers k hne]
  refine ⟨h.number.trans hnumber, fun k => ?_, fun k => ?_, fun hnone => ?_⟩
  · rw [h.keys, hnumber, List.map_cons]
    by_cases hk : k = S.number i
    · subst hk
      rw [if_neg hfresh, hself, if_pos List.mem_cons_self]
    · simp only [List.mem_cons, hk, false_or, hothers k hk]
  · rw [h.kept, hkept, hnumber, List.map_cons]
    by_cases hk : k = 1
    · simp only [hk, true_and, List.mem_cons, exists_eq_or_imp]
      have hexists : (∃ k' ∈ B.map S.number, S₁.Frees k') ↔ ∃ k' ∈ B.map S.number, S.Frees k' :=
        exists_congr fun k' => and_congr_right fun hk' => hfrees k' hk'
      simp only [hexists]
      by_cases hfirst : S.Frees (S.number i)
      · simp [hfirst]
      · simp [hfirst]
    · simp [hk]
  · rw [List.map_cons, List.forall_mem_cons] at hnone
    refine (h.script fun k hk => ?_).trans (hscript hnone.1)
    rw [hnumber] at hk
    rw [hfrees k hk]
    exact hnone.2 k hk

/-- The body of the loop for the key of one element. -/
theorem Valid.freeIfInactive {Q : ScriptChannel L → Prop} (hQ : Clears Q) (h : S.Valid lists)
    (hscript : ∀ channel ∈ S.pScript, Q channel) (hi : i ∈ lists (.rtlist ()))
    (hk : S.number i = k) :
    ∃ S' lists', S.freeIfInactive k = some S' ∧ S'.Valid lists' ∧
      (∀ channel ∈ S'.pScript, Q channel) ∧ S'.number = S.number ∧
      (lists' (.rtlist ()) = lists (.rtlist ()) ∨
        lists' (.rtlist ()) = (lists (.rtlist ())).erase i) ∧
      S'.pMIDIKeyInfo k = (S.pMIDIKeyInfo k).settle ∧
      (∀ k', k' ≠ k → S'.pMIDIKeyInfo k' = S.pMIDIKeyInfo k') ∧
      (∀ k', S'.kept k' = if k' = 1 ∧ S.Frees k then [] else S.kept k') ∧
      (¬ S.Frees k → S'.pScript = S.pScript) := by
  have h₁ : (S.modifyKey k PooledKey.freeNotes).Valid lists :=
    h.modifyKey (fun _ => rfl) fun _ => rfl
  have hkey := modifyKey_self (S := S) (k := k) PooledKey.freeNotes
  have hother {k' : Key} (hk' : k' ≠ k) := modifyKey_of_ne (S := S) PooledKey.freeNotes hk'
  have hactive := (h.owner i hi).1
  rw [hk] at hactive
  have hfrees : S.Frees k ↔ (S.pMIDIKeyInfo k).freeNotes.pActiveNotes = [] := by
    rw [PooledKey.freeNotes_eq_nil]
    exact and_iff_right hactive
  unfold ActiveKeys.freeIfInactive
  dsimp only
  rw [hkey]
  by_cases hempty : (S.pMIDIKeyInfo k).freeNotes.pActiveNotes = []
  · obtain ⟨S', hrun, hvalid, hscript', hnumber, hkeys, hkept⟩ :=
      h₁.freeKey hQ hscript hi hk (by rwa [hkey])
    refine ⟨S', _, ?_, hvalid, hscript', hnumber, .inr ?_, ?_, fun k' hk' => ?_, fun k' => ?_,
      fun hnot => absurd (hfrees.mpr hempty) hnot⟩
    · rw [if_pos (by rw [hempty]; rfl), hrun]
    · rw [Lists.moveTo, Lists.putLast, Function.update_of_ne (by simp)]
      rfl
    · rw [hkeys, modifyKey_self, hkey, PooledKey.settle, if_pos hempty]
    · rw [hkeys, modifyKey_of_ne _ hk', hother hk']
    · rw [hkept]
      simp only [hfrees.mpr hempty, and_true]
      rfl
  · have hfalse : (S.pMIDIKeyInfo k).freeNotes.pActiveNotes.isEmpty = false := by simpa using hempty
    refine ⟨_, lists, ?_, h₁, hscript, rfl, .inl rfl, ?_, fun k' hk' => hother hk', fun k' => ?_,
      fun _ => rfl⟩
    · rw [hfalse]
      rfl
    · rw [hkey, PooledKey.settle, if_neg hempty]
    · rw [if_neg fun hand => hempty (hfrees.mp hand.2)]
      rfl

/-- By induction on the elements that are left; those of `A` stayed in the list. -/
theorem Valid.freeInactiveFrom {Q : ScriptChannel L → Prop} (hQ : Clears Q) {A B : List ℕ}
    {fuel : ℕ} {it : Iterator Unit} (h : S.Valid lists)
    (hscript : ∀ channel ∈ S.pScript, Q channel) (hL : lists (.rtlist ()) = A ++ B)
    (hcur : it.current ∈ (B.map NodeRef.node ++ [NodeRef.endOf (.rtlist ())]).head?)
    (hfuel : B.length < fuel) :
    ∃ S' lists', freeInactiveFrom fuel S it = some S' ∧ S'.Valid lists' ∧
      (∀ channel ∈ S'.pScript, Q channel) ∧ S.Settles S' B := by
  induction B generalizing S lists A it fuel with
  | nil =>
      obtain ⟨fuel, rfl⟩ : ∃ f, fuel = f + 1 := ⟨fuel - 1, by simp at hfuel; omega⟩
      have hend : it.current = .endOf (.rtlist ()) := (Option.some.inj hcur).symm
      refine ⟨S, lists, ?_, h, hscript, rfl, fun k => ?_, fun k => ?_, fun _ => rfl⟩
      · rw [ActiveKeys.freeInactiveFrom, if_pos hend]
      · simp
      · simp
  | cons i B ih =>
      obtain ⟨fuel, rfl⟩ : ∃ f, fuel = f + 1 := ⟨fuel - 1, by simp at hfuel; omega⟩
      have hnode : it.current = .node i := (Option.some.inj hcur).symm
      have hindex : it.index = some i := Iterator.index_eq_some.mpr hnode
      have hi : i ∈ lists (.rtlist ()) := by simp [hL]
      have hnext := h.pool.next_node hL
      have hnodup := h.pool.nodup (.rtlist ())
      rw [hL, List.nodup_append'] at hnodup
      have hA : i ∉ A := fun hmem => hnodup.2.2 hmem List.mem_cons_self
      have hfresh : S.number i ∉ B.map S.number := by
        intro hmem
        obtain ⟨j, hj, hij⟩ := List.mem_map.mp hmem
        have hjmem : j ∈ lists (.rtlist ()) := by simp [hL, hj]
        rw [h.number_inj hjmem hi hij] at hj
        exact (List.nodup_cons.mp hnodup.2.1).1 hj
      obtain ⟨S₁, lists₁, hrun, hvalid, hscript₁, hnumber, hlists, hself, hothers, hkept, hsame⟩ :=
        h.freeIfInactive hQ hscript hi rfl
      obtain ⟨A', hL₁⟩ : ∃ A', lists₁ (.rtlist ()) = A' ++ B := by
        rcases hlists with hlists | hlists
        · exact ⟨A ++ [i], by rw [hlists, hL, List.append_assoc, List.singleton_append]⟩
        · exact ⟨A, by rw [hlists, hL, List.erase_append_right _ hA, List.erase_cons_head]⟩
      -- the iterator is at the next element already
      have hcur₁ : (S.pActiveKeys.increment it).current ∈
          (B.map NodeRef.node ++ [NodeRef.endOf (.rtlist ())]).head? := by
        rw [Pool.increment, hnode]
        exact hnext
      obtain ⟨S', lists', hloop, hvalid', hscript', hsettles⟩ :=
        ih hvalid hscript₁ hL₁ hcur₁ (by simpa using hfuel)
      refine ⟨S', lists', ?_, hvalid', hscript',
        hsettles.cons hnumber hfresh hself hothers hkept hsame⟩
      rw [ActiveKeys.freeInactiveFrom, if_neg (by rw [hnode]; simp), hindex, Option.bind_eq_bind,
        Option.bind_some]
      dsimp only
      rw [hrun]
      exact hloop

theorem Valid.mem_number (h : S.Valid lists) :
    k ∈ (lists (.rtlist ())).map S.number ↔ (S.pMIDIKeyInfo k).active = true := by
  rw [List.mem_map]
  constructor
  · rintro ⟨i, hi, rfl⟩
    exact (h.owner i hi).1
  · intro hactive
    obtain ⟨i, hi, -, hnumber⟩ := h.self k hactive
    exact ⟨i, hi, hnumber⟩

/-- All that `FreeAllInactiveKeys()` does. -/
theorem Valid.freeAllInactiveKeys {Q : ScriptChannel L → Prop} (hQ : Clears Q) (h : S.Valid lists)
    (hscript : ∀ channel ∈ S.pScript, Q channel) :
    ∃ S' lists', S.freeAllInactiveKeys = some S' ∧ S'.Valid lists' ∧
      (∀ channel ∈ S'.pScript, Q channel) ∧ (∀ k, S.Freed S' k ↔ S.Frees k) ∧
      (∀ k, (S'.pMIDIKeyInfo k).active = true → (S.pMIDIKeyInfo k).active = true) ∧
      (∀ k, S'.kept k = if k = 1 ∧ ∃ k', S.Frees k' then [] else S.kept k) ∧
      ((∀ k, ¬ S.Frees k) → S'.pScript = S.pScript) := by
  have hfuel : (lists (.rtlist ())).length < S.pActiveKeys.poolsize + 1 :=
    Nat.lt_succ_of_le (h.pool.holds.length_le _)
  obtain ⟨S', lists', hrun, hvalid, hscript', hsettles⟩ := h.freeInactiveFrom hQ hscript
    (List.nil_append _).symm (h.pool.first_current _) hfuel
  have hkeys (k : Key) : (S'.pMIDIKeyInfo k).active =
      ((S.pMIDIKeyInfo k).active && !decide (S.Frees k)) := by
    rw [hsettles.keys]
    simp only [h.mem_number]
    split
    · next hactive =>
      have hfrees : S.Frees k ↔ (S.pMIDIKeyInfo k).freeNotes.pActiveNotes = [] := by
        rw [PooledKey.freeNotes_eq_nil]
        exact and_iff_right hactive
      unfold PooledKey.settle
      split
      · next hnil => simp [hfrees.mpr hnil, PooledKey.release]
      · next hnil => simp [mt hfrees.mp hnil, PooledKey.freeNotes]
    · next hactive => simp [Bool.eq_false_iff.mpr hactive]
  refine ⟨S', lists', hrun, hvalid, hscript', fun k => ?_, fun k hk => ?_, fun k => ?_,
    fun hnone => hsettles.script fun k _ => hnone k⟩
  · unfold Freed
    rw [hkeys, Bool.and_eq_false_iff]
    constructor
    · rintro ⟨hactive, hfalse | hfrees⟩
      · rw [hactive] at hfalse
        cases hfalse
      · simpa using hfrees
    · intro hfrees
      exact ⟨hfrees.1, .inr (by simpa using hfrees)⟩
  · rw [hkeys, Bool.and_eq_true] at hk
    exact hk.1
  · have hexists : (∃ k' ∈ (lists (.rtlist ())).map S.number, S.Frees k') ↔ ∃ k', S.Frees k' :=
      exists_congr fun k' => and_iff_right_of_imp fun hfrees => h.mem_number.mpr hfrees.1
    rw [hsettles.kept]
    simp only [hexists]

theorem Linked.releasesOwn_iff (h : S.Linked) :
    ∃ S', S.freeAllInactiveKeys = some S' ∧ (S.ReleasesOwn S' ↔ S.SparesKept) := by
  obtain ⟨lists, hvalid⟩ := h.keys
  obtain ⟨S', -, hrun, -, -, hfreed, -, hkept, -⟩ :=
    hvalid.freeAllInactiveKeys clears_holds h.script
  refine ⟨S', hrun, fun howns => ⟨fun k hk hne => ?_, fun hexists => ?_⟩, fun hspares =>
    ⟨fun k hk => ?_, fun k hk => ?_⟩⟩
  · have hnil := howns.freed k ((hfreed k).mpr hk)
    rwa [hkept, if_neg fun hand => hne hand.1] at hnil
  · by_cases hone : S.Frees 1
    · exact .inl hone
    · have hsame := howns.others 1 (mt (hfreed 1).mp hone)
      rw [hkept, if_pos ⟨rfl, hexists⟩] at hsame
      exact .inr hsame.symm
  · have hfrees := (hfreed k).mp hk
    rw [hkept]
    split
    · rfl
    · next hnot => exact hspares.1 k hfrees fun hone => hnot ⟨hone, k, hfrees⟩
  · rw [hkept]
    split
    · next hand =>
      obtain ⟨rfl, hexists⟩ := hand
      rcases hspares.2 hexists with hone | hnil
      · exact absurd ((hfreed 1).mpr hone) hk
      · exact hnil.symm
    · rfl

/-! ## Steps -/

/-- Events are kept for active keys alone, and none that waits in the queue is
released or spawned once more. -/
def Spares (script : InstrumentScript L) (S : ActiveKeys L) : ActiveKeysAction → Prop
  | .script action => ∀ channel ∈ S.pScript, channel.SparesQueued action ∧
      ∀ k ∈ channel.keptFor script action, (S.pMIDIKeyInfo k).active = true
  | .freeAllInactiveKeys => S.SparesKept ∧
      ((∃ k, S.Frees k) → ∀ channel ∈ S.pScript, channel.SparesQueued (.freeKey true))
  | .reset => ∀ channel ∈ S.pScript, channel.SparesQueued .resetKeys
  | .markKeyAsActive _ | .launchNewNote _ | .setVoices _ _ _ => True

/-- The invariant of a run. -/
structure Inv (script : InstrumentScript L) (size : ℕ) (S : ActiveKeys L) : Prop where
  keys : ∃ lists, S.Valid lists
  channel : ∀ channel ∈ S.pScript,
    ∃ lists pending, ScriptChannel.Inv script size False channel lists pending
  only : S.OnlyActiveKept

variable {script : InstrumentScript L} {size : ℕ}

theorem Inv.linked (h : Inv script size S) : S.Linked := by
  refine ⟨h.keys, fun channel hmem => ?_⟩
  obtain ⟨lists, pending, hchannel⟩ := h.channel channel hmem
  unfold ScriptChannel.Inv at hchannel
  split at hchannel
  · exact ⟨size, lists, hchannel.pool⟩
  · exact ⟨size, lists, hchannel.1.pool⟩
  · exact ⟨size, lists, hchannel.1.data.pool⟩

/-- A key becomes active; the script does not matter. -/
theorem Inv.markKeyAsActive (h : Inv script size S) (hrun : S.markKeyAsActive k = some S') :
    Inv script size S' := by
  unfold ActiveKeys.markKeyAsActive at hrun
  split at hrun
  · cases hrun
    exact h
  · next hinactive =>
    obtain ⟨lists, hvalid⟩ := h.keys
    obtain ⟨i, hindex, rfl⟩ : ∃ i, (S.pActiveKeys.allocAppend ()).2.index = some i ∧ _ = S' :=
      Option.map_eq_some_iff.mp hrun
    rcases hvalid.pool.allocAppend () with ⟨hnone, -⟩ | ⟨j, hj, hfree, hpool⟩
    · rw [hindex] at hnone
      cases hnone
    obtain rfl : i = j := Option.some.inj (hindex.symm.trans hj)
    have hnot : i ∉ lists (.rtlist ()) := hvalid.pool.disjoint hfree (by simp)
    have hmem {j : ℕ} : j ∈ lists.moveTo (.rtlist ()) i (.rtlist ()) ↔
        j ≠ i ∧ j ∈ lists (.rtlist ()) ∨ j = i := by
      rw [Lists.mem_moveTo (hvalid.pool.nodup _)]
      simp
    set f : PooledKey → PooledKey := fun key =>
      { key with active := true, itSelf := (S.pActiveKeys.allocAppend ()).2 } with hf
    have hself : (S.modifyKey k f).pMIDIKeyInfo k = f (S.pMIDIKeyInfo k) := modifyKey_self f
    refine ⟨⟨_, hpool, fun k' hk' => ?_, fun j hj => ?_⟩, h.channel, fun k' hk' => ?_⟩
    · change ((S.modifyKey k f).pMIDIKeyInfo k').active = true at hk'
      change ∃ j ∈ _, ((S.modifyKey k f).pMIDIKeyInfo k').itSelf.index = some j ∧
        Function.update S.number i k j = k'
      by_cases hk : k' = k
      · subst hk
        rw [hself]
        exact ⟨i, hmem.mpr (.inr rfl), hindex, Function.update_self ..⟩
      · rw [modifyKey_of_ne f hk] at hk' ⊢
        obtain ⟨j, hj, hjself, hnumber⟩ := hvalid.self k' hk'
        have hji : j ≠ i := fun hji => hnot (hji ▸ hj)
        refine ⟨j, hmem.mpr (.inl ⟨hji, hj⟩), hjself, ?_⟩
        rw [Function.update_of_ne hji, hnumber]
    · change ((S.modifyKey k f).pMIDIKeyInfo (Function.update S.number i k j)).active = true ∧
        ((S.modifyKey k f).pMIDIKeyInfo (Function.update S.number i k j)).itSelf.index = some j
      rcases hmem.mp hj with ⟨hji, hj⟩ | rfl
      · have howner := hvalid.owner j hj
        have hne : S.number j ≠ k := fun hjk => hinactive (hjk ▸ howner.1)
        rw [Function.update_of_ne hji, modifyKey_of_ne f hne]
        exact howner
      · rw [Function.update_self, hself]
        exact ⟨rfl, hindex⟩
    · change ((S.modifyKey k f).pMIDIKeyInfo k').active = false at hk'
      have hk : k' ≠ k := by
        rintro rfl
        rw [hself] at hk'
        cases hk'
      rw [modifyKey_of_ne f hk] at hk'
      exact h.only k' hk'

theorem Inv.modifyKey (h : Inv script size S) {f : PooledKey → PooledKey}
    (hactive : ∀ key, (f key).active = key.active) (hself : ∀ key, (f key).itSelf = key.itSelf) :
    Inv script size (S.modifyKey k f) := by
  obtain ⟨lists, hvalid⟩ := h.keys
  refine ⟨⟨lists, hvalid.modifyKey hactive hself⟩, h.channel, fun k' hk' => ?_⟩
  rw [modifyKey_field (·.active) hactive] at hk'
  exact h.only k' hk'

/-- The script changes alone. -/
theorem Inv.onScript (h : Inv script size S) {f : ScriptChannel L → Option (ScriptChannel L)}
    (hf : ∀ channel ∈ S.pScript, ∀ channel' ∈ f channel,
      (∃ lists pending, ScriptChannel.Inv script size False channel' lists pending) ∧
        ∀ k, (S.pMIDIKeyInfo k).active = false → channel'.keyEvents k = [])
    (hrun : S.onScript f = some S') : Inv script size S' ∧ S'.pMIDIKeyInfo = S.pMIDIKeyInfo ∧
      S'.pActiveKeys = S.pActiveKeys ∧ S'.number = S.number := by
  obtain ⟨keys, pool, number, pScript⟩ := S
  obtain ⟨lists, hvalid⟩ := h.keys
  cases pScript with
  | none =>
      cases hrun
      exact ⟨h, rfl, rfl, rfl⟩
  | some channel =>
      obtain ⟨channel', hchannel, rfl⟩ := Option.map_eq_some_iff.mp hrun
      obtain ⟨hinv, honly⟩ := hf channel rfl channel' hchannel
      refine ⟨⟨⟨lists, hvalid.congr rfl rfl rfl⟩, ?_, honly⟩, rfl, rfl, rfl⟩
      rintro _ ⟨⟩
      exact hinv

theorem control_of_scriptIdle (h : S.scriptIdle = true) {channel : ScriptChannel L}
    (hmem : channel ∈ S.pScript) : channel.control = .idle := by
  rw [scriptIdle, Option.mem_def.mp hmem, Option.all_some, Bool.and_eq_true] at h
  cases hcontrol : channel.control with
  | idle => rfl
  | recycling itEvent it =>
      rw [hcontrol] at h
      cases h.1
  | executing x st =>
      rw [hcontrol] at h
      cases h.2

/-- A script that is not executed. -/
theorem Inv.data (h : Inv script size S) (hidle : S.scriptIdle = true) {channel : ScriptChannel L}
    (hmem : channel ∈ S.pScript) : channel.control = .idle ∧ ∃ lists pending,
      ScriptChannel.Data script size False channel lists pending [] := by
  have hcontrol := control_of_scriptIdle hidle hmem
  obtain ⟨lists, pending, hinv⟩ := h.channel channel hmem
  unfold ScriptChannel.Inv at hinv
  rw [hcontrol] at hinv
  exact ⟨hcontrol, lists, pending, hinv⟩

theorem inv_of_data {channel : ScriptChannel L} {lists : Lists EventList} {pending : List ℕ}
    (hcontrol : channel.control = .idle)
    (h : ScriptChannel.Data script size False channel lists pending []) :
    ScriptChannel.Inv script size False channel lists pending := by
  unfold ScriptChannel.Inv
  rw [hcontrol]
  exact h

theorem Inv.freeAllInactiveKeys (h : Inv script size S) (hidle : S.scriptIdle = true)
    (hspares : S.Spares script .freeAllInactiveKeys) (hrun : S.freeAllInactiveKeys = some S') :
    Inv script size S' := by
  obtain ⟨lists, hvalid⟩ := h.keys
  obtain ⟨S₁, lists₁, hrun₁, hvalid₁, -, hfreed, hactive, hkept, hsame⟩ :=
    hvalid.freeAllInactiveKeys clears_holds h.linked.script
  cases hrun₁.symm.trans hrun
  refine ⟨⟨lists₁, hvalid₁⟩, ?_, fun k hk => ?_⟩
  · by_cases hexists : ∃ k, S.Frees k
    · -- the list of key 1 is cleared
      obtain ⟨S₂, -, hrun₂, -, hscript, -⟩ := hvalid.freeAllInactiveKeys (clears_data script size)
        fun channel hmem => by
          obtain ⟨hcontrol, lists, pending, hdata⟩ := h.data hidle hmem
          exact ⟨lists, pending, hdata, hcontrol,
            hdata.keyEvents_notMem_pending (hspares.2 hexists channel hmem)⟩
      cases hrun₂.symm.trans hrun
      intro channel hmem
      obtain ⟨lists, pending, hdata, hcontrol, -⟩ := hscript channel hmem
      exact ⟨lists, pending, inv_of_data hcontrol hdata⟩
    · rw [hsame fun k hk => hexists ⟨k, hk⟩]
      exact h.channel
  · rw [hkept]
    split
    · rfl
    · next hnot =>
      by_cases hbefore : (S.pMIDIKeyInfo k).active = true
      · have hfrees := (hfreed k).mp ⟨hbefore, hk⟩
        exact hspares.1.1 k hfrees fun hone => hnot ⟨hone, k, hfrees⟩
      · exact h.only k (by simpa using hbefore)

theorem Inv.reset (h : Inv script size S) (hidle : S.scriptIdle = true)
    (hspares : S.Spares script .reset) (hrun : S.reset = some S') : Inv script size S' := by
  obtain ⟨S₁, hscript, hrun⟩ := Option.bind_eq_some_iff.mp hrun
  have hkeys : ∀ channel ∈ S.pScript, ∀ channel' ∈ channel.clearKeys,
      (∃ lists pending, ScriptChannel.Inv script size False channel' lists pending) ∧
        ∀ k, channel'.keyEvents k = [] := by
    intro channel hmem channel' hclear
    obtain ⟨hcontrol, lists, pending, hdata⟩ := h.data hidle hmem
    obtain ⟨channel₁, lists₁, hrun₁, h₁, hempty, -, -, hcontrol₁⟩ := hdata.clearKeys
      fun key => hdata.keyEvents_notMem_pending (hspares channel hmem key)
    cases hrun₁.symm.trans hclear
    refine ⟨⟨lists₁, pending, inv_of_data (hcontrol₁.trans hcontrol) h₁⟩, fun k => ?_⟩
    rw [h₁.keyEvents_eq, hempty]
  obtain ⟨h₁, -⟩ := h.onScript
    (fun channel hmem channel' hclear => (hkeys channel hmem channel' hclear).imp_right
      fun hempty k _ => hempty k) hscript
  obtain ⟨lists, hvalid⟩ := h₁.keys
  obtain ⟨P', hclear, hrun⟩ := Option.bind_eq_some_iff.mp hrun
  obtain ⟨P'', hclear', hpool⟩ := hvalid.pool.clear ()
  cases hclear'.symm.trans hclear
  cases hrun
  have hnil : (lists.empty (.rtlist ())).putLast .freelist (lists (.rtlist ())) (.rtlist ()) =
      [] := by
    rw [Lists.putLast, Function.update_of_ne (by simp), Lists.empty, Function.update_self]
  refine ⟨⟨_, hpool, fun k hk => ?_, fun i hi => ?_⟩, h₁.channel, fun k _ => ?_⟩
  · cases hk
  · rw [hnil] at hi
    cases hi
  · unfold kept
    cases hchannel : S₁.pScript with
    | none => rfl
    | some channel' =>
        obtain ⟨keys, pool, number, pScript⟩ := S
        cases pScript with
        | none =>
            rw [← Option.some.inj hscript] at hchannel
            cases hchannel
        | some channel =>
            obtain ⟨channel₁, hrun₁, rfl⟩ := Option.map_eq_some_iff.mp hscript
            obtain rfl := Option.some.inj hchannel
            exact (hkeys channel rfl channel₁ hrun₁).2 k

theorem Inv.step (h : Inv script size S) {action : ActiveKeysAction}
    (hspares : S.Spares script action) (hrun : S.step script action = some S') :
    Inv script size S' := by
  cases action with
  | markKeyAsActive k => exact h.markKeyAsActive hrun
  | launchNewNote k =>
      have hnote : Inv script size (S.modifyKey k fun key =>
          { key with pActiveNotes := key.pActiveNotes ++ [[]] }) :=
        h.modifyKey (fun _ => rfl) fun _ => rfl
      exact hnote.markKeyAsActive hrun
  | setVoices k note voices =>
      cases hrun
      exact h.modifyKey (fun _ => rfl) fun _ => rfl
  | script action =>
      have hrun : S.onScript (·.step script action) = some S' := by
        cases action <;> first | exact hrun | cases hrun
      refine (h.onScript (fun channel hmem channel' hstep => ?_) hrun).1
      obtain ⟨lists, pending, hinv⟩ := h.channel channel hmem
      obtain ⟨hqueued, hkeptFor⟩ := hspares channel hmem
      refine ⟨hinv.step hqueued False.elim hstep, fun k hk => ?_⟩
      by_contra hne
      obtain ⟨n, hn⟩ := List.exists_mem_of_ne_nil _ hne
      rcases hinv.mem_keyEvents_step hqueued hstep hn with hold | hkey
      · have hnil := h.only k hk
        rw [kept, Option.mem_def.mp hmem] at hnil
        change channel.keyEvents k = [] at hnil
        rw [hnil] at hold
        cases hold
      · rw [hkeptFor k hkey] at hk
        cases hk
  | freeAllInactiveKeys =>
      rw [ActiveKeys.step] at hrun
      split at hrun
      · next hidle => exact h.freeAllInactiveKeys hidle hspares hrun
      · cases hrun
  | reset =>
      rw [ActiveKeys.step] at hrun
      split at hrun
      · next hidle => exact h.reset hidle hspares hrun
      · cases hrun

/-! ## Runs -/

/-- Every step of a run meets the condition. -/
def RunSpares (script : InstrumentScript L) : List ActiveKeysAction → ActiveKeys L → Prop
  | [], _ => True
  | action :: actions, S =>
      S.Spares script action ∧ ∀ S' ∈ S.step script action, RunSpares script actions S'

theorem Created.inv {sizes : PolyphonicSizes} (h : S.Created script sizes size) :
    Inv script size S := by
  refine ⟨⟨Lists.putLast (fun _ => []) .freelist (List.range 128), ?_, fun k hk => ?_,
    fun i hi => ?_⟩, fun channel hmem => ?_, fun k _ => ?_⟩
  · rw [h.pool]
    exact Pool.create_inUse 128 0
  · rw [h.keys] at hk
    cases hk
  · simp [Lists.putLast] at hi
  · obtain ⟨lists, hinv⟩ := (h.script channel hmem).inv
    exact ⟨lists, [], hinv⟩
  · unfold kept
    cases hchannel : S.pScript with
    | none => rfl
    | some channel =>
        obtain ⟨lists, hpool, hempty⟩ := (h.script channel hchannel).pool
        change channel.keyEvents k = []
        rw [ScriptChannel.keyEvents, hpool.elements_eq, hempty]

theorem Inv.run {actions : List ActiveKeysAction} (h : Inv script size S)
    (hspares : RunSpares script actions S) (hrun : S.run script actions = some S') :
    Inv script size S' := by
  induction actions generalizing S with
  | nil =>
      cases hrun
      exact h
  | cons action actions ih =>
      obtain ⟨hfirst, hrest⟩ := hspares
      rw [ActiveKeys.run, List.foldlM_cons] at hrun
      obtain ⟨S₁, hstep, hrun⟩ := Option.bind_eq_some_iff.mp hrun
      exact ih (h.step hfirst hstep) (hrest S₁ hstep) hrun

/-- In every linked state the keys that are freed release their own events
exactly if the condition holds, and in runs that meet it only active keys
have kept events. -/
theorem releasesOwn_iff_sparesKept (script : InstrumentScript L) :
    (∀ S : ActiveKeys L, S.Linked →
      ∃ S', S.freeAllInactiveKeys = some S' ∧ (S.ReleasesOwn S' ↔ S.SparesKept)) ∧
    ∀ (sizes : PolyphonicSizes) (size : ℕ) (S₀ S : ActiveKeys L) (actions : List ActiveKeysAction),
      S₀.Created script sizes size → RunSpares script actions S₀ →
        S₀.run script actions = some S → S.Linked ∧ S.OnlyActiveKept := by
  refine ⟨fun S h => h.releasesOwn_iff, fun sizes size S₀ S actions h₀ hspares hrun => ?_⟩
  have hinv := h₀.inv.run hspares hrun
  exact ⟨hinv.linked, hinv.only⟩

/-! ## A channel to run -/

def freshKeys : ActiveKeys counterLang where
  pMIDIKeyInfo := fun _ => .init
  pActiveKeys := .create Unit 128 0
  number := fun _ => 0
  pScript := some (ScriptChannel.ofScript ScriptChannel.waitingReleases)

theorem freshKeys_created :
    freshKeys.Created ScriptChannel.waitingReleases ⟨0, 0, 0⟩ 2 where
  keys _ := rfl
  pool := rfl
  script := by
    rintro _ ⟨⟩
    exact ScriptChannel.loaded_ofScript _

/-- A note on middle C whose script event is kept for the release. -/
def keepMiddleC : List ActiveKeysAction :=
  [.launchNewNote 60, .setVoices 60 0 [0], .script (.event ⟨60, 5, 1⟩ .note), .script .turn,
    .script .turn, .script .turn, .script (.leave 1000 60)]

instance (S : ActiveKeys L) (script : InstrumentScript L) : DecidablePred (S.Spares script)
  | .script action => inferInstanceAs (Decidable (∀ channel ∈ S.pScript,
      channel.SparesQueued action ∧
        ∀ k ∈ channel.keptFor script action, (S.pMIDIKeyInfo k).active = true))
  | .freeAllInactiveKeys => inferInstanceAs (Decidable (S.SparesKept ∧
      ((∃ k, S.Frees k) → ∀ channel ∈ S.pScript, channel.SparesQueued (.freeKey true))))
  | .reset => inferInstanceAs
      (Decidable (∀ channel ∈ S.pScript, channel.SparesQueued .resetKeys))
  | .markKeyAsActive _ | .launchNewNote _ | .setVoices _ _ _ => isTrue trivial

instance decidableRunSpares (script : InstrumentScript L) :
    (actions : List ActiveKeysAction) → (S : ActiveKeys L) → Decidable (RunSpares script actions S)
  | [], _ => isTrue trivial
  | action :: actions, S =>
      have (S' : ActiveKeys L) : Decidable (RunSpares script actions S') :=
        decidableRunSpares script actions S'
      inferInstanceAs (Decidable (S.Spares script action ∧
        ∀ S' ∈ S.step script action, RunSpares script actions S'))

theorem releasesOwn_iff_sparesKept_middleC : ∃ S,
    freshKeys.run ScriptChannel.waitingReleases keepMiddleC = some S ∧ S.OnlyActiveKept ∧
      ∃ S', S.freeAllInactiveKeys = some S' ∧ (S.ReleasesOwn S' ↔ S.SparesKept) := by
  have hrun : (freshKeys.run ScriptChannel.waitingReleases keepMiddleC).isSome = true := by
    decide +kernel
  have hspares : RunSpares ScriptChannel.waitingReleases keepMiddleC freshKeys := by
    decide +kernel
  obtain ⟨S, hS⟩ := Option.isSome_iff_exists.mp hrun
  have hresult := releasesOwn_iff_sparesKept ScriptChannel.waitingReleases
  obtain ⟨hlinked, honly⟩ := hresult.2 _ _ _ S _ freshKeys_created hspares hS
  exact ⟨S, hS, honly, hresult.1 S hlinked⟩

/-- The voice on middle C ends: the key is freed, and its event is still kept. -/
theorem not_releasesOwn_middleC : ¬ ∀ (actions : List ActiveKeysAction)
    (S S' : ActiveKeys counterLang),
    freshKeys.run ScriptChannel.waitingReleases actions = some S →
      S.freeAllInactiveKeys = some S' → S.ReleasesOwn S' ∧ S'.OnlyActiveKept := by
  intro h
  have hrun : (freshKeys.run ScriptChannel.waitingReleases
      (keepMiddleC ++ [.setVoices 60 0 []])).map (fun S => ((S.pMIDIKeyInfo 60).active,
        S.freeAllInactiveKeys.map fun S' =>
          ((S'.pMIDIKeyInfo 60).active, (S'.kept 60).isEmpty))) =
      some (true, some (false, false)) := by
    decide +kernel
  obtain ⟨S, hS, hfree⟩ := Option.map_eq_some_iff.mp hrun
  obtain ⟨hactive, hfree⟩ := Prod.mk.inj hfree
  obtain ⟨S', hS', hkey⟩ := Option.map_eq_some_iff.mp hfree
  obtain ⟨hinactive, hkept⟩ := Prod.mk.inj hkey
  have hnil := (h _ S S' hS hS').1.freed 60 ⟨hactive, hinactive⟩
  rw [hnil] at hkept
  cases hkept

end ActiveKeys

end LinuxSampler
