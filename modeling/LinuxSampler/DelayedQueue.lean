import LinuxSampler.DelayedEvents
import LinuxSampler.PoolUse
import LinuxSampler.RtAvlRun

/-!
# What holds of the delayed events

The nodes of a channel are in its queue as long as they are in use, and
they refer one-to-one to the events that wait. What each operation on the
queue does is stated against the nodes in the queue, oldest first, and
the set of the events that wait.
-/

namespace LinuxSampler

namespace DelayedEvents

variable {C : Type} {size : ℕ} {D : DelayedEvents C} {nodes : Lists Unit} {pending : List ℕ}
  {events : Set ℕ} {m i : ℕ}

/-- The event that a node refers to. -/
def target (D : DelayedEvents C) (m : ℕ) : Option ℕ := (D.node m).itEvent.index

/-- Of the nodes in the queue, oldest first, the one that comes out next. -/
structure IsNext (D : DelayedEvents C) (pending : List ℕ) (m : ℕ) : Prop where
  mem : m ∈ pending
  lowest : ∀ y ∈ pending, D.scheduleTime m ≤ D.scheduleTime y
  first : ∃ twins, RTAVLTree.withKey D.scheduleTime (D.scheduleTime m) pending = m :: twins

/-- The nodes that are due before `fragmentEnd`. -/
def due (D : DelayedEvents C) (fragmentEnd : ℕ) (pending : List ℕ) : List ℕ :=
  pending.filter fun m => D.scheduleTime m < fragmentEnd

/-- Nothing in the queue is scheduled before the time. -/
def Since (D : DelayedEvents C) (time : ℕ) : Prop :=
  ∀ m, D.queue.tree m = true → time ≤ D.scheduleTime m

theorem mem_due {fragmentEnd : ℕ} :
    m ∈ D.due fragmentEnd pending ↔ m ∈ pending ∧ D.scheduleTime m < fragmentEnd := by
  simp [due]

/-- What comes out next is the first of the due nodes. -/
theorem IsNext.cons (h : D.IsNext pending m) (hn : pending.Nodup) {fragmentEnd : ℕ}
    (hm : D.scheduleTime m < fragmentEnd) {out : List ℕ}
    (hout : RTAVLTree.StableSorted D.scheduleTime (D.due fragmentEnd (pending.erase m)) out) :
    RTAVLTree.StableSorted D.scheduleTime (D.due fragmentEnd pending) (m :: out) := by
  obtain ⟨twins, hw⟩ := h.first
  have herase : D.due fragmentEnd (pending.erase m) = (D.due fragmentEnd pending).erase m := by
    rw [due, due, hn.erase_eq_filter, (hn.filter _).erase_eq_filter, List.filter_filter,
      List.filter_filter]
    simp only [Bool.and_comm]
  rw [herase] at hout
  have hdue : RTAVLTree.withKey D.scheduleTime (D.scheduleTime m) (D.due fragmentEnd pending) =
      m :: twins := by
    rw [← hw, RTAVLTree.withKey, RTAVLTree.withKey, due, List.filter_filter]
    refine List.filter_congr fun y _ => ?_
    by_cases hy : D.scheduleTime y = D.scheduleTime m
    · simp [hy, hm]
    · simp [hy]
  exact hout.cons (hn.filter _) hdue fun y hy => h.lowest y (mem_due.mp hy).1

structure Sound (size : ℕ) (D : DelayedEvents C) (nodes : Lists Unit) (pending : List ℕ)
    (events : Set ℕ) : Prop where
  queue : ∃ t, RTAVLTree.Holds D.scheduleTime true D.queue t pending
  pool : Pool.InUse size 0 D.schedulerNodes nodes
  inUse : ∀ m, m ∈ nodes (.rtlist ()) ↔ m ∈ pending
  paired : Set.BijOn D.target {m | m ∈ pending} (some '' events)

namespace Sound

theorem since_iff (h : Sound size D nodes pending events) {time : ℕ} :
    D.Since time ↔ ∀ m ∈ pending, time ≤ D.scheduleTime m := by
  obtain ⟨t, hT⟩ := h.queue
  exact forall_congr' fun m => by rw [hT.tree rfl]

/-- A node that is not in use is given to an event and inserted. -/
theorem schedule (h : Sound size D nodes pending events) {P : Pool Unit}
    (hm : m ∈ nodes .freelist) (hP : Pool.InUse size 0 P (nodes.moveTo (.rtlist ()) m))
    (e : ScheduledEvent C) (he : e.itEvent.index = some i) (hi : i ∉ events)
    {D' : DelayedEvents C}
    (hD' : D' = { D with schedulerNodes := P, node := Function.update D.node m e }) :
    ∃ queue, D'.queue.insert D'.scheduleTime true m = some queue ∧
      Sound size { D' with queue := queue } (nodes.moveTo (.rtlist ()) m) (pending ++ [m])
        (insert i events) ∧
      ∀ time ≤ e.scheduleTime, D.Since time → Since { D' with queue := queue } time := by
  subst hD'
  obtain ⟨t, hT⟩ := h.queue
  have hpending : m ∉ pending := by
    rw [← h.inUse m]
    exact h.pool.disjoint hm (by simp)
  have hother : ∀ x ∈ pending, Function.update D.node m e x = D.node x := by
    intro x hx
    refine Function.update_of_ne ?_ _ _
    rintro rfl
    exact hpending hx
  have hT' : RTAVLTree.Holds (fun x => (Function.update D.node m e x).scheduleTime) true D.queue t
      pending := by
    refine hT.congr_key fun x hx => ?_
    rw [hother x hx, scheduleTime]
  obtain ⟨queue, t', hinsert, hqueue⟩ := hT'.insert hpending
  refine ⟨queue, hinsert, ⟨⟨t', hqueue⟩, hP, fun x => ?_, ?_⟩, fun time htime hsince x hx => ?_⟩
  · rw [Lists.mem_moveTo (h.pool.nodup _), h.inUse x, List.mem_append, List.mem_singleton]
    constructor
    · rintro (⟨-, hx⟩ | ⟨-, hx⟩)
      · exact .inl hx
      · exact .inr hx
    · rintro (hx | hx)
      · exact .inl ⟨fun hxm => hpending (hxm ▸ hx), hx⟩
      · exact .inr ⟨rfl, hx⟩
  · have htarget : ∀ x ∈ pending,
        (Function.update D.node m e x).itEvent.index = D.target x := by
      intro x hx
      rw [hother x hx, target]
    have hnew : (Function.update D.node m e m).itEvent.index = some i := by
      rw [Function.update_self, he]
    have hpaired : Set.BijOn (fun x => (Function.update D.node m e x).itEvent.index)
        {x | x ∈ pending} (some '' events) :=
      h.paired.congr fun x hx => (htarget x hx).symm
    have hinserted := hpaired.insert (a := m) (by rw [hnew]; simpa using hi)
    rw [hnew, ← Set.image_insert_eq] at hinserted
    have hset : {x | x ∈ pending ++ [m]} = insert m {x | x ∈ pending} := by
      ext x
      simp [or_comm]
    rw [hset]
    exact hinserted
  · show time ≤ (Function.update D.node m e x).scheduleTime
    rcases List.mem_append.mp ((hqueue.tree rfl x).mp hx) with hx | hx
    · rw [hother x hx]
      exact h.since_iff.mp hsince x hx
    · rwa [List.mem_singleton.mp hx, Function.update_self]

/-- A node is taken out of the queue and given back. -/
theorem pop (h : Sound size D nodes pending events) (hm : m ∈ pending) {it : Iterator Unit}
    (hit : it.index = some m) :
    ∃ queue i, D.queue.erase true m = some queue ∧ D.target m = some i ∧ i ∈ events ∧
      Sound size { D with queue := queue, schedulerNodes := (D.schedulerNodes.free it).1 }
        (nodes.moveTo .freelist m) (pending.erase m) (events \ {i}) := by
  obtain ⟨t, hT⟩ := h.queue
  obtain ⟨queue, t', herase, hqueue⟩ := hT.erase hm
  obtain ⟨i, hi, hmi⟩ := h.paired.mapsTo hm
  have huse : m ∈ nodes (.rtlist ()) := (h.inUse m).mpr hm
  refine ⟨queue, i, herase, hmi.symm, hi, ⟨t', hqueue⟩, h.pool.free hit (h.pool.lt huse),
    fun x => ?_, ?_⟩
  · rw [Lists.mem_moveTo (h.pool.nodup _), h.inUse x, hT.nodup.mem_erase_iff]
    simp
  · have hrest := h.paired.sdiff_singleton (a := m) hm
    have hset : {x | x ∈ pending} \ {m} = {x | x ∈ pending.erase m} := by
      ext x
      simp [hT.nodup.mem_erase_iff, and_comm]
    rw [hset, ← hmi, ← Set.image_singleton,
      ← Set.image_sdiff (Option.some_injective _)] at hrest
    exact hrest

/-- The next node, if there is one. -/
theorem lowest (h : Sound size D nodes pending events) (hroot : D.queue.root ≠ none) :
    ∃ m, D.queue.lowest = some m ∧ D.IsNext pending m := by
  obtain ⟨t, hT⟩ := h.queue
  obtain ⟨root, hroot⟩ := Option.ne_none_iff_exists'.mp hroot
  obtain ⟨m, hm, hlowest, hmin⟩ := hT.lowest (List.ne_nil_of_mem (hT.root_mem hroot))
  obtain ⟨twins, hw, -⟩ := hT.ring m hm
  exact ⟨m, hlowest, hT.head_mem hm, hmin, twins, hw⟩

theorem eq_nil (h : Sound size D nodes pending events) (hroot : D.queue.root = none) :
    pending = [] := by
  obtain ⟨t, hT⟩ := h.queue
  exact hT.eq_nil hroot

theorem nodup (h : Sound size D nodes pending events) : pending.Nodup := by
  obtain ⟨t, hT⟩ := h.queue
  exact hT.nodup

theorem length_lt_fuel (h : Sound size D nodes pending events) : pending.length < D.queue.fuel := by
  obtain ⟨t, hT⟩ := h.queue
  exact hT.length_lt_fuel

/-- If nothing is due, nothing is scheduled before the end of the fragment. -/
theorem since_of_due (h : Sound size D nodes pending events) {fragmentEnd : ℕ}
    (hdue : D.due fragmentEnd pending = []) : D.Since fragmentEnd := by
  refine h.since_iff.mpr fun m hm => not_lt.mp fun htime => ?_
  have hmem := mem_due.mpr ⟨hm, htime⟩
  rw [hdue] at hmem
  cases hmem

theorem clear (h : Sound size D nodes pending events) :
    ∃ P queue nodes', D.schedulerNodes.clear () = some P ∧ D.queue.clear true = some queue ∧
      Sound size { D with schedulerNodes := P, queue := queue } nodes' [] ∅ := by
  obtain ⟨t, hT⟩ := h.queue
  obtain ⟨P, hclear, hP⟩ := h.pool.clear ()
  obtain ⟨queue, hqueue, hT'⟩ := hT.clear
  refine ⟨P, queue, _, hclear, hqueue, ⟨_, hT'⟩, hP, fun x => ?_, ?_⟩
  · simp
  · simp

end Sound

end DelayedEvents

end LinuxSampler
