import LinuxSampler.SyncConfig

/-!
# The writer's instance

While the writer switches, every reader that still has the old instance
was seen locked with the value its lock still has, or is yet to be looked
at: it is in the linked list, and the writer waits for it. A reader that
locks later gets the new instance.
-/

namespace LinuxSampler

namespace SyncConfig

/-! ## The linked list -/

section Linked

variable {ρ : Type*} {next next' : ρ → Option ρ} {o : Option ρ} {l kept rest : List ρ} {p q : ρ}

/-- The list that starts at `o` and goes on through `next` to its end. -/
def Seg (next : ρ → Option ρ) : Option ρ → List ρ → Prop
  | o, [] => o = none
  | o, p :: l => o = some p ∧ Seg next (next p) l

theorem Seg.head (h : Seg next o l) : o = l.head? := by
  cases l with
  | nil => exact h
  | cons p l => exact h.1

theorem Seg.congr (h : Seg next o l) (heq : ∀ p ∈ l, next' p = next p) : Seg next' o l := by
  induction l generalizing o with
  | nil => exact h
  | cons p l ih =>
      obtain ⟨ho, hl⟩ := h
      refine ⟨ho, ?_⟩
      rw [heq p List.mem_cons_self]
      exact ih hl fun q hq => heq q (List.mem_cons_of_mem _ hq)

theorem Seg.next_eq (h : Seg next o (kept ++ p :: rest)) : next p = rest.head? := by
  induction kept generalizing o with
  | nil => exact h.2.head
  | cons q kept ih => exact ih h.2

/-- The first node is unlinked. -/
theorem Seg.unlink_head (h : Seg next o (p :: rest)) : Seg next (next p) rest := h.2

/-- The node after `q` is unlinked. -/
theorem Seg.unlink [DecidableEq ρ] (h : Seg next o (kept ++ q :: p :: rest))
    (hn : (kept ++ q :: p :: rest).Nodup) :
    Seg (Function.update next q (next p)) o (kept ++ q :: rest) := by
  induction kept generalizing o with
  | nil =>
      obtain ⟨ho, -, hrest⟩ := h
      obtain ⟨hq, -⟩ := List.nodup_cons.mp hn
      refine ⟨ho, ?_⟩
      rw [Function.update_self]
      refine hrest.congr fun x hx => Function.update_of_ne ?_ _ _
      rintro rfl
      exact hq (List.mem_cons_of_mem _ hx)
  | cons x kept ih =>
      obtain ⟨ho, hrest⟩ := h
      obtain ⟨hx, hn⟩ := List.nodup_cons.mp hn
      refine ⟨ho, ?_⟩
      have hxq : x ≠ q := by
        rintro rfl
        exact hx (by simp)
      rw [Function.update_of_ne hxq]
      exact ih hrest hn

end Linked

variable {ρ T : Type*} [DecidableEq ρ] {readers : ReaderSet ρ} {S S' : SyncConfig ρ T} {r : ρ}
  {l iter kept rest : List ρ}

/-! ## The invariant -/

/-- The readers with the old instance are in the list, and have not unlocked
since the writer looked at them. -/
def Awaited (S : SyncConfig ρ T) (l : List ρ) : Prop :=
  ∀ r, S.reader r = .holding (!S.indexAtomic) → r ∈ l ∧ S.lock r = S.prevLock r

/-- The writer's instance is the one that the readers do not get, and none of
them has it. -/
def Owned (S : SyncConfig ρ T) : Prop :=
  S.updateIndex = !S.indexAtomic ∧ ∀ r, S.reader r ≠ .holding S.updateIndex

/-- The writer has stored the index and not finished yet. -/
structure Switching (S : SyncConfig ρ T) : Prop where
  index_eq : S.updateIndex = S.indexAtomic
  clone_eq : ∀ clone, S.clone = some clone → S.config S.updateIndex = clone

def Phase (S : SyncConfig ρ T) : Prop :=
  match S.writer with
  | .idle => S.Owned
  | .assigning clone => S.Owned ∧ S.config (!S.updateIndex) = clone
  | .scanning iter => S.Switching ∧ ∃ l, Seg S.next S.lockingReaders l ∧ (l ++ iter).Nodup ∧
      ∀ r, S.reader r = .holding (!S.indexAtomic) →
        r ∈ iter ∨ r ∈ l ∧ S.lock r = S.prevLock r
  | .testing => S.Switching ∧ ∃ l, Seg S.next S.lockingReaders l ∧ l.Nodup ∧ S.Awaited l
  | .walking prev p => S.Switching ∧ ∃ kept rest, Seg S.next S.lockingReaders (kept ++ rest) ∧
      (kept ++ rest).Nodup ∧ prev = kept.getLast? ∧ p = rest.head? ∧ S.Awaited (kept ++ rest)

structure Inv (S : SyncConfig ρ T) : Prop where
  odd : ∀ r, S.lockCount r % 2 = 1
  locked : ∀ r, S.reader r ≠ .unlocked → S.lock r = S.lockCount r
  phase : S.Phase

omit [DecidableEq ρ] in
theorem Inv.lock_ne_zero (h : S.Inv) (hr : S.reader r ≠ .unlocked) : S.lock r ≠ 0 := by
  have hodd := h.odd r
  rw [h.locked r hr]
  omega

omit [DecidableEq ρ] in
theorem init_inv (config : Bool → T) : (init config : SyncConfig ρ T).Inv where
  odd := fun _ => rfl
  locked := fun _ h => absurd rfl h
  phase := ⟨rfl, fun _ h => ReaderPc.noConfusion h⟩

/-! ## Readers -/

/-- A step of a reader does not give it the old instance, and leaves the lock
of those that have it. -/
structure ReaderStep (S S' : SyncConfig ρ T) : Prop where
  indexAtomic : S'.indexAtomic = S.indexAtomic
  updateIndex : S'.updateIndex = S.updateIndex
  config : S'.config = S.config
  prevLock : S'.prevLock = S.prevLock
  next : S'.next = S.next
  lockingReaders : S'.lockingReaders = S.lockingReaders
  clone : S'.clone = S.clone
  writer : S'.writer = S.writer
  holding : ∀ r, S'.reader r = .holding (!S.indexAtomic) →
    S.reader r = .holding (!S.indexAtomic) ∧ S'.lock r = S.lock r

omit [DecidableEq ρ] in
theorem ReaderStep.phase (h : ReaderStep S S') (hS : S.Phase) : S'.Phase := by
  have howned : S.Owned → S'.Owned := by
    rintro ⟨hindex, hnone⟩
    refine ⟨by rw [h.updateIndex, h.indexAtomic, hindex], fun r hr => ?_⟩
    rw [h.updateIndex, hindex] at hr
    exact hnone r (hindex ▸ (h.holding r hr).1)
  have hswitching : S.Switching → S'.Switching := by
    rintro ⟨hindex, hclone⟩
    refine ⟨by rw [h.updateIndex, h.indexAtomic, hindex], ?_⟩
    rw [h.clone, h.config, h.updateIndex]
    exact hclone
  have hawaited : ∀ l, S.Awaited l → S'.Awaited l := by
    intro l hl r hr
    rw [h.indexAtomic] at hr
    obtain ⟨hr, hlock⟩ := h.holding r hr
    rw [hlock, h.prevLock]
    exact hl r hr
  unfold Phase at hS ⊢
  rw [h.writer]
  cases hw : S.writer with
  | idle =>
      rw [hw] at hS
      exact howned hS
  | assigning clone =>
      rw [hw] at hS
      refine ⟨howned hS.1, ?_⟩
      rw [h.config, h.updateIndex]
      exact hS.2
  | scanning iter =>
      rw [hw] at hS
      obtain ⟨hsw, l, hseg, hn, hold⟩ := hS
      refine ⟨hswitching hsw, l, by rwa [h.next, h.lockingReaders], hn, fun r hr => ?_⟩
      rw [h.indexAtomic] at hr
      obtain ⟨hr, hlock⟩ := h.holding r hr
      rw [hlock, h.prevLock]
      exact hold r hr
  | testing =>
      rw [hw] at hS
      obtain ⟨hsw, l, hseg, hn, hold⟩ := hS
      exact ⟨hswitching hsw, l, by rwa [h.next, h.lockingReaders], hn, hawaited l hold⟩
  | walking prev p =>
      rw [hw] at hS
      obtain ⟨hsw, kept, rest, hseg, hn, hprev, hp, hold⟩ := hS
      exact ⟨hswitching hsw, kept, rest, by rwa [h.next, h.lockingReaders], hn, hprev, hp,
        hawaited _ hold⟩

theorem storeLock_step (hr : S.reader r = .unlocked) : ReaderStep S (S.storeLock r) := by
  refine ⟨rfl, rfl, rfl, rfl, rfl, rfl, rfl, rfl, fun q hq => ?_⟩
  by_cases hqr : q = r
  · subst hqr
    simp [storeLock] at hq
  · simp only [storeLock, Function.update_of_ne hqr] at hq ⊢
    exact ⟨hq, trivial⟩

theorem loadIndex_step : ReaderStep S (S.loadIndex r) := by
  refine ⟨rfl, rfl, rfl, rfl, rfl, rfl, rfl, rfl, fun q hq => ⟨?_, rfl⟩⟩
  by_cases hqr : q = r
  · subst hqr
    simp [loadIndex] at hq
  · simpa [loadIndex, Function.update_of_ne hqr] using hq

theorem unlock_step : ReaderStep S (S.unlock r) := by
  refine ⟨rfl, rfl, rfl, rfl, rfl, rfl, rfl, rfl, fun q hq => ?_⟩
  by_cases hqr : q = r
  · subst hqr
    simp [unlock] at hq
  · simp only [unlock, Function.update_of_ne hqr] at hq ⊢
    exact ⟨hq, trivial⟩

/-! ## Writer -/

omit [DecidableEq ρ] in
theorem storeIndex_phase
    (hclone : ∀ clone, S.clone = some clone → S.config S.updateIndex = clone) :
    (S.storeIndex readers).Phase :=
  ⟨⟨rfl, hclone⟩, [], rfl, readers.nodup, fun r _ => .inl (readers.complete r)⟩

omit [DecidableEq ρ] in
theorem finish_owned (h : S.Switching) (hnone : S.Awaited []) : S.finish.Owned := by
  refine ⟨congrArg (! ·) h.index_eq, fun r hr => ?_⟩
  have hr : S.reader r = .holding (!S.updateIndex) := hr
  rw [h.index_eq] at hr
  exact List.not_mem_nil (hnone r hr).1

omit [DecidableEq ρ] in
theorem finish_phase (h : S.Switching) (hnone : S.Awaited []) : S.finish.Phase := by
  have howned := finish_owned h hnone
  unfold Phase
  cases hclone : S.clone with
  | none =>
      have hw : S.finish.writer = .idle := by simp [finish, hclone]
      rw [hw]
      exact howned
  | some clone =>
      have hw : S.finish.writer = .assigning clone := by simp [finish, hclone]
      rw [hw]
      refine ⟨howned, ?_⟩
      rw [← h.clone_eq clone hclone]
      exact congrArg S.config (Bool.not_not _)

theorem scan_phase (hS : S.Inv) (hw : S.writer = .scanning (r :: iter)) :
    (S.scan r iter).Phase := by
  have hphase := hS.phase
  unfold Phase at hphase
  rw [hw] at hphase
  obtain ⟨hsw, l, hseg, hn, hold⟩ := hphase
  obtain ⟨hnl, hniter, hdisj⟩ := List.nodup_append.mp hn
  obtain ⟨hriter, hniter⟩ := List.nodup_cons.mp hniter
  have hrl : r ∉ l := fun hr => hdisj r hr r List.mem_cons_self rfl
  have hprev : ∀ q ∈ l, Function.update S.prevLock r (S.lock r) q = S.prevLock q := by
    intro q hq
    refine Function.update_of_ne ?_ _ _
    rintro rfl
    exact hrl hq
  by_cases hlock : S.lock r = 0
  · -- the reader is not locked, so it has no instance
    have hscan : S.scan r iter = { S with
        prevLock := Function.update S.prevLock r (S.lock r), writer := .scanning iter } := by
      simp [scan, hlock]
    rw [hscan]
    refine ⟨⟨hsw.1, hsw.2⟩, l, hseg, ?_, fun q hq => ?_⟩
    · exact hn.sublist (List.sublist_cons_self _ _ |>.append_left l)
    · rcases hold q hq with hq' | ⟨hq', hlock'⟩
      · rcases List.mem_cons.mp hq' with rfl | hq'
        · exact absurd hlock (hS.lock_ne_zero (by simp [show S.reader q = _ from hq]))
        · exact .inl hq'
      · exact .inr ⟨hq', hlock'.trans (hprev q hq').symm⟩
  · have hscan : S.scan r iter = { S with
        prevLock := Function.update S.prevLock r (S.lock r)
        next := Function.update S.next r S.lockingReaders
        lockingReaders := some r
        writer := .scanning iter } := by
      simp [scan, hlock]
    rw [hscan]
    refine ⟨⟨hsw.1, hsw.2⟩, r :: l, ⟨rfl, ?_⟩, ?_, fun q hq => ?_⟩
    · simp only [Function.update_self]
      refine hseg.congr fun q hq => Function.update_of_ne ?_ _ _
      rintro rfl
      exact hrl hq
    · exact List.perm_middle.nodup_iff.mp hn
    · rcases hold q hq with hq' | ⟨hq', hlock'⟩
      · rcases List.mem_cons.mp hq' with rfl | hq'
        · exact .inr ⟨List.mem_cons_self, (Function.update_self q (S.lock q) S.prevLock).symm⟩
        · exact .inl hq'
      · exact .inr ⟨List.mem_cons_of_mem _ hq', hlock'.trans (hprev q hq').symm⟩

theorem walk_phase {prev : Option ρ} {p : ρ} (hS : S.Phase)
    (hw : S.writer = .walking prev (some p)) : (S.walk prev p).Phase := by
  unfold Phase at hS
  rw [hw] at hS
  obtain ⟨hsw, kept, rest, hseg, hn, hprev, hp, hold⟩ := hS
  cases rest with
  | nil => nomatch hp
  | cons x rest =>
  obtain rfl : p = x := Option.some.inj hp
  have hnext : S.next p = rest.head? := hseg.next_eq
  by_cases hlock : S.lock p = S.prevLock p
  · -- the reader is still locked: the walk goes on behind it
    have hwalk : S.walk prev p = { S with writer := .walking (some p) (S.next p) } := by
      simp [walk, hlock]
    rw [hwalk]
    rw [← List.singleton_append, ← List.append_assoc] at hseg hn hold
    exact ⟨⟨hsw.1, hsw.2⟩, kept ++ [p], rest, hseg, hn, by simp, hnext, hold⟩
  · have hawaited : ∀ r, S.reader r = .holding (!S.indexAtomic) →
        r ∈ kept ++ rest ∧ S.lock r = S.prevLock r := by
      intro r hr
      obtain ⟨hmem, heq⟩ := hold r hr
      have hrp : r ≠ p := by
        rintro rfl
        exact hlock heq
      simp only [List.mem_append, List.mem_cons, hrp, false_or] at hmem ⊢
      exact ⟨hmem, heq⟩
    have hn' : (kept ++ rest).Nodup :=
      hn.sublist (List.sublist_cons_self _ _ |>.append_left kept)
    rcases kept.eq_nil_or_concat' with rfl | ⟨kept, q, rfl⟩
    · obtain rfl : prev = none := hprev
      have hwalk : S.walk none p =
          { S with lockingReaders := S.next p, writer := .walking none (S.next p) } := by
        simp [walk, hlock, storePrev]
      rw [hwalk]
      exact ⟨⟨hsw.1, hsw.2⟩, [], rest, hseg.unlink_head, hn', rfl, hnext, hawaited⟩
    · obtain rfl : prev = some q := by simpa using hprev
      have hpq : p ≠ q := by
        rintro rfl
        exact (List.nodup_append.mp hn).2.2 p (by simp) p List.mem_cons_self rfl
      have hwalk : S.walk (some q) p = { S with
          next := Function.update S.next q (S.next p), writer := .walking (some q) (S.next p) } := by
        simp [walk, hlock, storePrev, Function.update_of_ne hpq]
      rw [hwalk]
      refine ⟨⟨hsw.1, hsw.2⟩, kept ++ [q], rest, ?_, hn', by simp, hnext, hawaited⟩
      simp only [List.append_assoc, List.singleton_append] at hseg hn ⊢
      exact hseg.unlink hn

theorem writerStep_phase (hS : S.Inv) (h : S.writerStep = some S') : S'.Phase := by
  have hphase := hS.phase
  unfold Phase at hphase
  unfold writerStep at h
  cases hw : S.writer with
  | idle => simp [hw] at h
  | scanning iter =>
      cases iter with
      | nil =>
          obtain rfl : _ = S' := by simpa [hw] using h
          rw [hw] at hphase
          obtain ⟨hsw, l, hseg, hn, hold⟩ := hphase
          rw [List.append_nil] at hn
          refine ⟨⟨hsw.1, hsw.2⟩, l, hseg, hn, fun r hr => ?_⟩
          exact (hold r hr).resolve_left List.not_mem_nil
      | cons r iter =>
          obtain rfl : _ = S' := by simpa [hw] using h
          exact scan_phase hS hw
  | testing =>
      rw [hw] at hphase
      obtain ⟨hsw, l, hseg, hn, hold⟩ := hphase
      cases hlocking : S.lockingReaders with
      | none =>
          obtain rfl : _ = S' := by simpa [hw, hlocking] using h
          obtain rfl : l = [] := by simpa [hlocking] using hseg.head.symm
          exact finish_phase hsw hold
      | some r =>
          obtain rfl : _ = S' := by simpa [hw, hlocking] using h
          have hhead := hseg.head
          rw [hlocking] at hseg hhead
          exact ⟨⟨hsw.1, hsw.2⟩, [], l, hseg, hn, rfl, hhead, hold⟩
  | walking prev p =>
      cases p with
      | none =>
          obtain rfl : _ = S' := by simpa [hw] using h
          rw [hw] at hphase
          obtain ⟨hsw, kept, rest, hseg, hn, -, -, hold⟩ := hphase
          exact ⟨⟨hsw.1, hsw.2⟩, kept ++ rest, hseg, hn, hold⟩
      | some p =>
          obtain rfl : _ = S' := by simpa [hw] using h
          exact walk_phase hS.phase hw
  | assigning clone =>
      obtain rfl : _ = S' := by simpa [hw] using h
      rw [hw] at hphase
      exact hphase.1

/-! ## Runs -/

/-- What a step of the writer on its linked list leaves. -/
structure Frame (S S' : SyncConfig ρ T) : Prop where
  lockCount : S'.lockCount = S.lockCount
  lock : S'.lock = S.lock
  reader : S'.reader = S.reader
  config : S'.config = S.config
  clone : S'.clone = S.clone

theorem scan_frame : Frame S (S.scan r iter) := by
  simp only [scan]
  split <;> exact ⟨rfl, rfl, rfl, rfl, rfl⟩

theorem walk_frame {prev : Option ρ} {p : ρ} : Frame S (S.walk prev p) := by
  simp only [walk]
  split
  · exact ⟨rfl, rfl, rfl, rfl, rfl⟩
  · cases prev <;> exact ⟨rfl, rfl, rfl, rfl, rfl⟩

/-- A step of the writer leaves the readers' own data. -/
theorem writerStep_frame (h : S.writerStep = some S') :
    S'.lockCount = S.lockCount ∧ S'.lock = S.lock ∧ S'.reader = S.reader := by
  unfold writerStep at h
  split at h
  · nomatch h
  · cases h
    exact ⟨rfl, rfl, rfl⟩
  · cases h
    exact ⟨scan_frame.lockCount, scan_frame.lock, scan_frame.reader⟩
  · split at h <;> obtain rfl := Option.some.inj h <;> exact ⟨rfl, rfl, rfl⟩
  · cases h
    exact ⟨rfl, rfl, rfl⟩
  · cases h
    exact ⟨walk_frame.lockCount, walk_frame.lock, walk_frame.reader⟩
  · cases h
    exact ⟨rfl, rfl, rfl⟩

omit [DecidableEq ρ] in
theorem Inv.of_frame (hS : S.Inv) (hframe : S'.lockCount = S.lockCount ∧ S'.lock = S.lock ∧
    S'.reader = S.reader) (hphase : S'.Phase) : S'.Inv where
  odd := by
    rw [hframe.1]
    exact hS.odd
  locked := by
    rw [hframe.1, hframe.2.1, hframe.2.2]
    exact hS.locked
  phase := hphase

theorem storeLock_inv (hS : S.Inv) (hr : S.reader r = .unlocked) : (S.storeLock r).Inv where
  odd q := by
    have hodd := hS.odd r
    by_cases hqr : q = r
    · subst hqr
      simp only [storeLock, Function.update_self]
      omega
    · simpa only [storeLock, Function.update_of_ne hqr] using hS.odd q
  locked q hq := by
    by_cases hqr : q = r
    · subst hqr
      simp only [storeLock, Function.update_self]
    · simp only [storeLock, Function.update_of_ne hqr] at hq ⊢
      exact hS.locked q hq
  phase := (storeLock_step hr).phase hS.phase

theorem loadIndex_inv (hS : S.Inv) (hr : S.reader r = .locking) : (S.loadIndex r).Inv where
  odd := hS.odd
  locked q hq := by
    refine hS.locked q ?_
    by_cases hqr : q = r
    · simp [hqr, hr]
    · simpa only [loadIndex, Function.update_of_ne hqr] using hq
  phase := loadIndex_step.phase hS.phase

theorem unlock_inv (hS : S.Inv) : (S.unlock r).Inv where
  odd := hS.odd
  locked q hq := by
    by_cases hqr : q = r
    · subst hqr
      simp [unlock] at hq
    · simp only [unlock, Function.update_of_ne hqr] at hq ⊢
      exact hS.locked q hq
  phase := unlock_step.phase hS.phase

omit [DecidableEq ρ] in
theorem Phase.owned (hS : S.Phase) (hidle : S.isIdle = true) : S.Owned := by
  unfold Phase at hS
  unfold isIdle at hidle
  split at hidle
  · rename_i hw
    rwa [hw] at hS
  · nomatch hidle

omit [DecidableEq ρ] in
theorem Owned.phase (hS : S.Owned) (hidle : S.isIdle = true) : S.Phase := by
  unfold Phase
  unfold isIdle at hidle
  split at hidle
  · rename_i hw
    rwa [hw]
  · nomatch hidle

/-- A step of a reader or of the writer keeps the invariant. -/
theorem step_inv {action : Action ρ T} (hS : S.Inv) (h : S.step readers action = some S') :
    S'.Inv := by
  cases action with
  | lock r =>
      obtain ⟨hr, rfl⟩ := Option.ite_some_none_eq_some.mp h
      exact storeLock_inv hS hr
  | load r =>
      obtain ⟨hr, rfl⟩ := Option.ite_some_none_eq_some.mp h
      exact loadIndex_inv hS hr
  | unlock r =>
      simp only [step] at h
      split at h
      · cases h
        exact unlock_inv hS
      · nomatch h
  | update f =>
      obtain ⟨hidle, rfl⟩ := Option.ite_some_none_eq_some.mp h
      have howned : (S.update f).Owned := hS.phase.owned hidle
      exact hS.of_frame ⟨rfl, rfl, rfl⟩ (howned.phase hidle)
  | switchConfig =>
      obtain ⟨-, rfl⟩ := Option.ite_some_none_eq_some.mp h
      have hclone : ∀ clone : T, none = some clone → S.config S.updateIndex = clone := nofun
      exact hS.of_frame ⟨rfl, rfl, rfl⟩ (storeIndex_phase (S := { S with clone := none }) hclone)
  | endSync =>
      obtain ⟨-, rfl⟩ := Option.ite_some_none_eq_some.mp h
      have hclone : ∀ clone, some (S.config S.updateIndex) = some clone →
          S.config S.updateIndex = clone := fun _ => Option.some.inj
      exact hS.of_frame ⟨rfl, rfl, rfl⟩
        (storeIndex_phase (S := { S with clone := some (S.config S.updateIndex) }) hclone)
  | writer => exact hS.of_frame (writerStep_frame h) (writerStep_phase hS h)

theorem run_inv {actions : List (Action ρ T)} (hS : S.Inv)
    (h : S.run readers actions = some S') : S'.Inv := by
  induction actions generalizing S with
  | nil =>
      cases h
      exact hS
  | cons action actions ih =>
      obtain ⟨S₁, hstep, hrun⟩ := Option.bind_eq_some_iff.mp h
      exact ih (step_inv hS hstep) hrun

/-! ## endSync -/

/-- The instance that the writer has between the calls, and that the call of
`SwitchConfig()` in `endSync()` returned. -/
def writersInstance (S : SyncConfig ρ T) : Option Bool :=
  match S.writer with
  | .idle | .assigning _ => some S.updateIndex
  | _ => none

/-- The thread of the writer calls nothing. -/
def Action.inCall : Action ρ T → Bool
  | .update _ | .switchConfig | .endSync => false
  | _ => true

omit [DecidableEq ρ] in
theorem Inv.not_holding {i : Bool} (hS : S.Inv) (hi : S.writersInstance = some i) :
    S.reader r ≠ .holding i := by
  have hphase := hS.phase
  unfold Phase at hphase
  unfold writersInstance at hi
  split at hi
  case h_1 hw =>
      rw [hw] at hphase
      exact Option.some.inj hi ▸ hphase.2 r
  case h_2 hw =>
      rw [hw] at hphase
      exact Option.some.inj hi ▸ hphase.1.2 r
  case h_3 => nomatch hi

/-- `endSync()` runs or has returned, and its clone is `c`. -/
def Ending (S : SyncConfig ρ T) (c : T) : Prop :=
  match S.writer with
  | .idle => ∀ i, S.config i = c
  | .assigning clone => clone = c
  | _ => S.clone = some c

omit [DecidableEq ρ] in
theorem Ending.congr {c : T} (hS : S.Ending c) (hconfig : S'.config = S.config)
    (hclone : S'.clone = S.clone) (hwriter : S'.writer = S.writer) : S'.Ending c := by
  unfold Ending at hS ⊢
  rwa [hwriter, hconfig, hclone]

theorem writerStep_ending {c : T} (hS : S.Inv) (hc : S.Ending c)
    (h : S.writerStep = some S') : S'.Ending c := by
  have hphase := hS.phase
  unfold Phase at hphase
  unfold Ending at hc
  unfold writerStep at h
  split at h
  case h_1 => nomatch h
  case h_2 hw =>
      cases h
      rwa [hw] at hc
  case h_3 r iter hw =>
      cases h
      rw [hw] at hc
      have hscan : (S.scan r iter).writer = .scanning iter := by
        simp only [scan]
        split <;> rfl
      unfold Ending
      rw [hscan]
      exact scan_frame.clone.trans hc
  case h_4 hw =>
      rw [hw] at hc
      split at h
      · -- the other instance is returned
        cases h
        have hfinish : S.finish.writer = .assigning c := by simp [finish, show S.clone = _ from hc]
        unfold Ending
        rw [hfinish]
      · cases h
        exact hc
  case h_5 hw =>
      cases h
      rwa [hw] at hc
  case h_6 prev p hw =>
      cases h
      rw [hw] at hc
      have hwalk : ∃ prev' p', (S.walk prev p).writer = .walking prev' p' := by
        simp only [walk]
        split <;> exact ⟨_, _, rfl⟩
      obtain ⟨prev', p', hwalk⟩ := hwalk
      unfold Ending
      rw [hwalk]
      exact walk_frame.clone.trans hc
  case h_7 clone hw =>
      cases h
      rw [hw] at hc hphase
      obtain rfl : clone = c := hc
      intro i
      by_cases hi : i = S.updateIndex
      · subst hi
        exact Function.update_self _ _ _
      · rw [show i = !S.updateIndex from Bool.eq_not.mpr hi]
        exact (Function.update_of_ne (by simp) _ _).trans hphase.2

theorem step_ending {c : T} {action : Action ρ T} (hS : S.Inv) (hc : S.Ending c)
    (haction : action.inCall = true) (h : S.step readers action = some S') : S'.Ending c := by
  cases action with
  | lock r =>
      obtain ⟨-, rfl⟩ := Option.ite_some_none_eq_some.mp h
      exact hc.congr rfl rfl rfl
  | load r =>
      obtain ⟨-, rfl⟩ := Option.ite_some_none_eq_some.mp h
      exact hc.congr rfl rfl rfl
  | unlock r =>
      simp only [step] at h
      split at h
      · cases h
        exact hc.congr rfl rfl rfl
      · nomatch h
  | writer => exact writerStep_ending hS hc h
  | update f => nomatch haction
  | switchConfig => nomatch haction
  | endSync => nomatch haction

theorem run_ending {c : T} {actions : List (Action ρ T)} (hS : S.Inv) (hc : S.Ending c)
    (hactions : ∀ action ∈ actions, action.inCall = true)
    (h : S.run readers actions = some S') : S'.Ending c := by
  induction actions generalizing S with
  | nil =>
      cases h
      exact hc
  | cons action actions ih =>
      obtain ⟨S₁, hstep, hrun⟩ := Option.bind_eq_some_iff.mp h
      obtain ⟨haction, hactions⟩ := List.forall_mem_cons.mp hactions
      exact ih (step_inv hS hstep) (step_ending hS hc haction hstep) hactions hrun

omit [DecidableEq ρ] in
theorem Ending.config_eq {c : T} (hc : S.Ending c) (hidle : S.isIdle = true) (i : Bool) :
    S.config i = c := by
  unfold Ending at hc
  unfold isIdle at hidle
  split at hidle
  · rename_i hw
    rw [hw] at hc
    exact hc i
  · nomatch hidle

/-- In every interleaving no reader has the writer's instance, and when
`endSync()` returns both instances are what the writer's was at its call. -/
theorem run_safe (readers : ReaderSet ρ) (config : Bool → T) (actions : List (Action ρ T))
    (h : (init config).run readers actions = some S) :
    (∀ i, S.writersInstance = some i → ∀ r, S.reader r ≠ .holding i) ∧
    ∀ S₁ actions' S₂, S.step readers .endSync = some S₁ →
      (∀ action ∈ actions', action.inCall = true) →
      S₁.run readers actions' = some S₂ → S₂.isIdle = true →
      ∀ i, S₂.config i = S.config S.updateIndex := by
  have hS : S.Inv := run_inv (init_inv config) h
  refine ⟨fun i hi r => hS.not_holding hi, ?_⟩
  intro S₁ actions' S₂ hstep hactions hrun hidle i
  have hending : S₁.Ending (S.config S.updateIndex) := by
    obtain ⟨-, rfl⟩ := Option.ite_some_none_eq_some.mp hstep
    rfl
  exact (run_ending (step_inv hS hstep) hending hactions hrun).config_eq hidle i

/-- The reader locks, and unlocks after the writer has looked at it. -/
theorem run_safe_unlock :
    ∃ (readers : ReaderSet Unit) (S S₁ S₂ : SyncConfig Unit ℕ),
      (init fun _ => 0).run readers [.lock (), .load (), .update (· + 5)] = some S ∧
      S.reader () = .holding false ∧ S.reader () ≠ .holding true ∧
      S.step readers .endSync = some S₁ ∧
      S₁.run readers [.writer, .writer, .writer, .unlock (), .writer, .writer, .writer, .writer] =
        some S₂ ∧
      S₂.config false = 5 := by
  let readers : ReaderSet Unit := ⟨[()], List.nodup_singleton _, fun _ => List.mem_singleton.mpr rfl⟩
  have hsafe := run_safe readers (fun _ => 0) [.lock (), .load (), .update (· + 5)] rfl
  exact ⟨readers, _, _, _, rfl, rfl, hsafe.1 true rfl (), rfl, rfl,
    hsafe.2 _ [.writer, .writer, .writer, .unlock (), .writer, .writer, .writer, .writer] _ rfl
      (by decide) rfl rfl false⟩

end SyncConfig

end LinuxSampler
