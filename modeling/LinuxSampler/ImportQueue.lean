import LinuxSampler.ImportEvents
import LinuxSampler.RingBufferFifo

/-!
# What ImportEvents does with the queue

On the lists that the queue and the pool stand for, the loop handles the
due events one after another as long as there is a free element. The
event at which it finds the pool empty has been popped and is not given
back: it is the one that gets lost. The events of the virtual devices,
which come first, take elements of the same pool.
-/

namespace LinuxSampler

namespace Pool

variable {ι : Type*} [DecidableEq ι] {P : Pool ι} {L : Lists ι} {n i : ℕ} {F : List ℕ}

/-- The last free element comes to the end of the list. -/
theorem Holds.allocAppend (h : Holds n P L) (list : ι) (hfree : L .freelist = F ++ [i]) :
    (P.allocAppend list).2.current = .node i ∧ ∃ L', Holds n (P.allocAppend list).1 L' ∧
      L' (.rtlist list) = L (.rtlist list) ++ [i] ∧ L' .freelist = F := by
  have hlast : (L .freelist).getLast? = some i := by
    rw [hfree, List.getLast?_concat]
  have hn := h.linked.nodup .freelist
  rw [hfree, List.nodup_append'] at hn
  have hiF : i ∉ F := fun hi => hn.2.2 hi (List.mem_singleton_self i)
  have hil : i ∉ L (.rtlist list) := h.linked.notMem_of_freelist (List.mem_of_mem_getLast? hlast)
  obtain ⟨P', happly, -, hP'⟩ := h.apply (.allocAppend list) trivial
  cases happly
  refine ⟨?_, _, hP', ?_, ?_⟩
  · have hne : ¬ P.poolIsEmpty = true := fun he => by
      rw [h.linked.poolIsEmpty_iff.mp he] at hlast
      cases hlast
    rw [Pool.allocAppend, if_neg hne]
    exact (h.linked.alloc hlast).1
  · rw [Op.next, hlast]
    simp [Lists.putLast, Lists.remove, List.erase_of_not_mem hil]
  · rw [Op.next, hlast]
    simp [Lists.putLast, Lists.remove, hfree, List.erase_append_right _ hiF]

/-- An element that was just appended goes back to the free list. -/
theorem Holds.free_last {it : Iterator ι} (h : Holds n P L) {list : ι} {S : List ℕ}
    (hit : it.current = .node i) (hlist : L (.rtlist list) = S ++ [i]) :
    ∃ L', Holds n (P.free it).1 L' ∧ L' (.rtlist list) = S ∧ L' .freelist = L .freelist ++ [i] := by
  have hmem : i ∈ L (.rtlist list) := by simp [hlist]
  have hindex : it.index = some i := Iterator.index_eq_some.mpr hit
  have hn := h.linked.nodup (.rtlist list)
  rw [hlist, List.nodup_append'] at hn
  have hiS : i ∉ S := fun hi => hn.2.2 hi (List.mem_singleton_self i)
  have hif : i ∉ L .freelist := fun hi => h.linked.notMem_of_freelist hi hmem
  obtain ⟨P', happly, -, hP'⟩ := h.apply (.free it) ⟨i, hindex, h.allocated_iff.mpr ⟨list, hmem⟩⟩
  cases happly
  refine ⟨_, hP', ?_, ?_⟩
  · rw [Op.next, hindex]
    simp [Lists.putLast, Lists.remove, hlist, List.erase_append_right _ hiS]
  · rw [Op.next, hindex]
    simp [Lists.putLast, Lists.remove, List.erase_of_not_mem hif]

end Pool

namespace ImportState

variable {σ δ ι : Type*} [DecidableEq ι] {env : ImportEnv σ δ} {events : ι} {Samples : ℕ}
  {S S' : ImportState σ δ ι} {log : List (Event δ)} {R a n : ℕ} {L : Lists ι}

/-! ## The import on lists -/

/-- The event with its position in the fragment computed. -/
def located (env : ImportEnv σ δ) (e : Event δ) : Event δ := (e.fragmentPos env.toFragmentPos).2

/-- The event belongs to the current fragment. -/
def due (env : ImportEnv σ δ) (Samples : ℕ) (e : Event δ) : Bool :=
  (e.fragmentPos env.toFragmentPos).1 < Samples

/-- What becomes of events that are handled one after another. -/
def handleAll (env : ImportEnv σ δ) : σ → List (Event δ) → List (Outcome δ)
  | _, [] => []
  | engine, e :: es =>
      let (engine, outcome) := handle env engine (located env e)
      outcome :: handleAll env engine es

/-- The elements of the pool that an outcome takes. -/
def Outcome.taken (outcome : Outcome δ) : ℕ := outcome.event?.toList.length

/-- What the loop does with the events that are ahead: what became of them,
and what is left in the queue. -/
def importAhead (env : ImportEnv σ δ) (Samples : ℕ) :
    ℕ → σ → List (Event δ) → List (Outcome δ) × List (Event δ)
  | _, _, [] => ([], [])
  | free, engine, e :: es =>
      if due env Samples e then
        -- the event was popped already
        if free = 0 then ([], es)
        else
          let (engine, outcome) := handle env engine (located env e)
          let (outcomes, rest) :=
            importAhead env Samples (free - Outcome.taken outcome) engine es
          (outcome :: outcomes, rest)
      else ([], (located env e).resetFragmentPos :: es)

theorem filterMap_event_cons (outcome : Outcome δ) (outcomes : List (Outcome δ)) :
    (outcome :: outcomes).filterMap Outcome.event? =
      outcome.event?.toList ++ outcomes.filterMap Outcome.event? := by
  cases outcome <;> rfl

/-! ## The loop -/

/-- The events in the list of the channel. -/
def eventList (S : ImportState σ δ ι) (events : ι) : List (Event δ) :=
  (S.pool.elements (.rtlist events)).map S.data

variable (events) in
theorem importCopy_spec (h : Pool.Holds n S.pool L) (hfree : L .freelist ≠ []) (e : Event δ)
    (handled : σ × Outcome δ) :
    ∃ S' L', importCopy events S e handled = (S', handled.2) ∧
      Pool.Holds n S'.pool L' ∧ S'.queue = S.queue ∧ S'.engine = handled.1 ∧
      (L' .freelist).length = (L .freelist).length - Outcome.taken handled.2 ∧
      (L' (.rtlist events)).map S'.data =
        (L (.rtlist events)).map S.data ++ handled.2.event?.toList := by
  obtain ⟨F, i, hF⟩ := (List.eq_nil_or_concat (L .freelist)).resolve_left hfree
  rw [List.concat_eq_append] at hF
  obtain ⟨hcur, L₁, h₁, hlist, hfree₁⟩ := h.allocAppend events hF
  have hindex := Iterator.index_eq_some.mpr hcur
  have hil : i ∉ L (.rtlist events) := h.linked.notMem_of_freelist (by simp [hF])
  have hdata : ∀ x, (L (.rtlist events)).map (Function.update S.data i x) =
      (L (.rtlist events)).map S.data := by
    intro x
    refine List.map_congr_left fun j hj => Function.update_of_ne ?_ _ _
    rintro rfl
    exact hil hj
  obtain ⟨L₂, h₂, hlist₂, hfree₂⟩ := h₁.free_last hcur hlist
  obtain ⟨engine, outcome⟩ := handled
  rw [importCopy]
  simp only [hindex]
  cases outcome with
  | kept e' =>
      refine ⟨_, L₁, rfl, h₁, rfl, rfl, ?_, ?_⟩
      · rw [hfree₁, hF, List.length_append]
        rfl
      · simp [hlist, hdata, Outcome.event?]
  | outOfRange | launchFailed | executed =>
      refine ⟨_, L₂, rfl, h₂, rfl, rfl, ?_, ?_⟩
      · rw [hfree₂, hfree₁, hF]
        rfl
      · simp [hlist₂, hdata, Outcome.event?]

/-! ## The virtual devices -/

/-- What the events of the virtual devices do, as long as there are free elements. -/
def devicesAhead (env : ImportEnv σ δ) : ℕ → σ → List DevEvent → σ × List (Event δ)
  | _, engine, [] => (engine, [])
  | free, engine, devEvent :: rest =>
      if free = 0 then (engine, [])
      else
        let (engine, outcome) := handleDevEvent env engine devEvent
        let (engine, kept) := devicesAhead env (free - Outcome.taken outcome) engine rest
        (engine, outcome.event?.toList ++ kept)

theorem devicesAhead_append (free : ℕ) (engine : σ) (xs ys : List DevEvent) :
    devicesAhead env free engine (xs ++ ys) =
      let r := devicesAhead env free engine xs
      let r' := devicesAhead env (free - r.2.length) r.1 ys
      (r'.1, r.2 ++ r'.2) := by
  induction xs generalizing free engine with
  | nil => rfl
  | cons x xs ih =>
      rw [List.cons_append, devicesAhead, devicesAhead]
      split
      · next hfree =>
        subst hfree
        cases ys <;> rfl
      · simp only [ih, List.append_assoc, List.length_append, Outcome.taken, Nat.sub_sub]

/-- What was kept is in the list, and took its elements. -/
structure DevicesImported (events : ι) (S S' : ImportState σ δ ι) (n : ℕ) (L : Lists ι)
    (r : σ × List (Event δ)) : Prop where
  queue : S'.queue = S.queue
  engine : S'.engine = r.1
  pool : ∃ L', Pool.Holds n S'.pool L' ∧
    (L' .freelist).length = (L .freelist).length - r.2.length ∧
    (L' (.rtlist events)).map S'.data = (L (.rtlist events)).map S.data ++ r.2

variable (env events) in
theorem importDevice_spec (device : List DevEvent) (h : Pool.Holds n S.pool L) :
    DevicesImported events S (importDevice env events device S).1 n L
        (devicesAhead env (L .freelist).length S.engine device) ∧
      ((importDevice env events device S).2.2 = true →
        (L .freelist).length - (devicesAhead env (L .freelist).length S.engine device).2.length
          = 0) := by
  induction device generalizing S L with
  | nil => exact ⟨⟨rfl, rfl, L, h, rfl, (List.append_nil _).symm⟩, fun h => by cases h⟩
  | cons devEvent rest ih =>
      rw [importDevice, devicesAhead]
      by_cases hfree : L .freelist = []
      · rw [if_pos (h.linked.poolIsEmpty_iff.mpr hfree), if_pos (by rw [hfree]; rfl)]
        exact ⟨⟨rfl, rfl, L, h, rfl, (List.append_nil _).symm⟩, fun _ => by rw [hfree]; rfl⟩
      · have hlen : (L .freelist).length ≠ 0 := fun h => hfree (List.length_eq_zero_iff.mp h)
        rw [if_neg fun he => hfree (h.linked.poolIsEmpty_iff.mp he), if_neg hlen]
        obtain ⟨S₁, L₁, hcopy, h₁, hqueue, hengine, hfree₁, hlist⟩ :=
          importCopy_spec events h hfree env.created (handleDevEvent env S.engine devEvent)
        obtain ⟨⟨hqueue', hengine', L', h', hfree', hlist'⟩, hempty⟩ := ih h₁
        rw [hcopy]
        rw [hengine, hfree₁] at hengine' hfree' hlist' hempty
        refine ⟨⟨hqueue'.trans hqueue, hengine', L', h', ?_, ?_⟩, fun hend => ?_⟩
        · rw [hfree', List.length_append, Nat.sub_sub]
          rfl
        · rw [hlist', hlist, List.append_assoc]
        · have := hempty hend
          rw [Nat.sub_sub] at this
          simpa [Outcome.taken, List.length_append] using this

variable (env events) in
/-- The loop over the devices does what their events, one after another, do. -/
theorem importDevices_spec (devices : List (List DevEvent)) (h : Pool.Holds n S.pool L) :
    DevicesImported events S (importDevices env events devices S).1 n L
      (devicesAhead env (L .freelist).length S.engine devices.flatten) := by
  induction devices generalizing S L with
  | nil => exact ⟨rfl, rfl, L, h, rfl, (List.append_nil _).symm⟩
  | cons device devices ih =>
      obtain ⟨⟨hqueue, hengine, L₁, h₁, hfree, hlist⟩, hempty⟩ :=
        importDevice_spec env events device h
      rw [importDevices, List.flatten_cons, devicesAhead_append]
      rcases hrun : importDevice env events device S with ⟨S₁, rest, _ | _⟩ <;>
        rw [hrun] at hqueue hengine h₁ hlist hempty
      · obtain ⟨hqueue', hengine', L₂, h₂, hfree', hlist'⟩ := ih h₁
        rw [hengine, hfree] at hengine' hfree' hlist'
        refine ⟨hqueue'.trans hqueue, hengine', L₂, h₂, ?_, ?_⟩
        · rw [hfree', List.length_append, Nat.sub_sub]
        · rw [hlist', hlist, List.append_assoc]
      · -- without a free element nothing is taken from the others
        have hnone : ∀ es : List DevEvent,
            devicesAhead env 0 (devicesAhead env (L .freelist).length S.engine device).1 es =
              ((devicesAhead env (L .freelist).length S.engine device).1, []) := by
          intro es
          cases es <;> rfl
        dsimp only
        rw [hempty rfl, hnone, List.append_nil]
        exact ⟨hqueue, hengine, L₁, h₁, hfree, hlist⟩

/-! ## The loop over the queue -/

theorem importLoop_of_pop {fuel : ℕ} {reader reader' : ℤ} {e : Event δ}
    (hpop : RingBuffer.NonVolatileReader.pop S.queue reader = (reader', some e)) :
    importLoop env events Samples (fuel + 1) S reader =
      if due env Samples e then
        if S.pool.poolIsEmpty then some (S.setQueued reader (located env e), reader', [])
        else
          (importLoop env events Samples fuel
            (importEvent env events (S.setQueued reader (located env e)) (located env e)).1
            reader').map fun r => (r.1, r.2.1,
              (importEvent env events (S.setQueued reader (located env e)) (located env e)).2 ::
                r.2.2)
      else
        some ((S.setQueued reader (located env e)).setQueued reader
            (located env e).resetFragmentPos,
          RingBuffer.NonVolatileReader.dec (S.setQueued reader (located env e)).queue reader',
          []) := by
  rw [importLoop, hpop]
  dsimp only
  by_cases hdue : due env Samples e = true
  · have hpos : ¬ (e.fragmentPos env.toFragmentPos).1 ≥ Samples := by
      simpa [due] using hdue
    rw [if_neg hpos, if_pos hdue]
    by_cases hempty : S.pool.poolIsEmpty = true
    · exact (if_pos hempty).trans (if_pos hempty).symm
    · refine (if_neg hempty).trans (Eq.trans ?_ (if_neg hempty).symm)
      change (importLoop env events Samples fuel
        (importEvent env events (S.setQueued reader (located env e)) (located env e)).1
        reader' >>= _) = _
      cases importLoop env events Samples fuel _ reader' <;> rfl
  · have hpos : (e.fragmentPos env.toFragmentPos).1 ≥ Samples := by
      simpa [due] using hdue
    rw [if_pos hpos, if_neg hdue]
    rfl

variable (env events Samples) in
/-- The loop from position `a` on does to the queue and to the list what
`importAhead` says. -/
theorem importLoop_spec {rest : List (Event δ)} {fuel : ℕ} (hq : S.queue.Holds log R)
    (hp : Pool.Holds n S.pool L) (hR : R ≤ a) (ha : a ≤ log.length) (hrest : log.drop a = rest)
    (hfuel : rest.length < fuel) :
    ∃ (S' : ImportState σ δ ι) (a' : ℕ) (log' : List (Event δ)) (L' : Lists ι),
      importLoop env events Samples fuel S (a % S.queue.size) =
        some (S', (a' : ℤ) % S'.queue.size,
          (importAhead env Samples (L .freelist).length S.engine rest).1) ∧
      S'.queue.Holds log' R ∧ Pool.Holds n S'.pool L' ∧ R ≤ a' ∧ a' ≤ log'.length ∧
      log'.drop a' = (importAhead env Samples (L .freelist).length S.engine rest).2 ∧
      (L' (.rtlist events)).map S'.data = (L (.rtlist events)).map S.data ++
        (importAhead env Samples (L .freelist).length S.engine rest).1.filterMap
          Outcome.event? := by
  induction rest generalizing S log a L fuel with
  | nil =>
      obtain ⟨fuel, rfl⟩ : ∃ f, fuel = f + 1 := ⟨fuel - 1, by simp at hfuel; omega⟩
      have hend : log.length ≤ a := List.drop_eq_nil_iff.mp hrest
      refine ⟨S, a, log, L, ?_, hq, hp, hR, ha, hrest, (List.append_nil _).symm⟩
      rw [importLoop, hq.pop_end hend ha]
      rfl
  | cons e es ih =>
      obtain ⟨fuel, rfl⟩ : ∃ f, fuel = f + 1 := ⟨fuel - 1, by simp at hfuel; omega⟩
      have hx : log[a]? = some e := by
        rw [← List.head?_drop, hrest]
        rfl
      have hlt : a < log.length := (List.getElem?_eq_some_iff.mp hx).1
      have hes : log.drop (a + 1) = es := by
        rw [← List.drop_drop, hrest]
        rfl
      have hset : (S.setQueued (a % S.queue.size) (located env e)).queue.Holds
          (log.set a (located env e)) R := hq.set hR hlt (located env e)
      have hdrop : (log.set a (located env e)).drop (a + 1) = es := by
        rw [List.drop_set_of_lt (Nat.lt_succ_self a), hes]
      have hlen : (log.set a (located env e)).length = log.length := List.length_set
      rw [importLoop_of_pop (hq.pop_of_lt hR hx)]
      by_cases hdue : due env Samples e = true
      · rw [if_pos hdue, importAhead, if_pos hdue]
        by_cases hfree : L .freelist = []
        · rw [if_pos (hp.linked.poolIsEmpty_iff.mpr hfree), if_pos (by rw [hfree]; rfl)]
          exact ⟨_, a + 1, _, L, rfl, hset, hp, by omega, by omega, hdrop,
            (List.append_nil _).symm⟩
        · have hlen₀ : (L .freelist).length ≠ 0 := fun h => hfree (List.length_eq_zero_iff.mp h)
          rw [if_neg fun he => hfree (hp.linked.poolIsEmpty_iff.mp he), if_neg hlen₀]
          obtain ⟨S₁, L₁, hevent, hp₁, hqueue, hengine, hfree₁, hlist⟩ :=
            importCopy_spec events (S := S.setQueued (a % S.queue.size) (located env e)) hp hfree
              (located env e) (handle env S.engine (located env e))
          rw [← hqueue] at hset
          obtain ⟨S', a', log', L', hrun, hq', hp', hR', ha', hdrop', hlist'⟩ :=
            ih hset hp₁ (by omega : R ≤ a + 1) (by omega) hdrop (by simpa using hfuel)
          have hsize : S₁.queue.size = S.queue.size := by rw [hqueue]; rfl
          rw [hsize, hengine, hfree₁] at hrun
          rw [hengine, hfree₁] at hdrop' hlist'
          refine ⟨S', a', log', L', ?_, hq', hp', hR', ha', hdrop', ?_⟩
          · rw [show importEvent env events (S.setQueued (a % S.queue.size) (located env e))
              (located env e) = _ from hevent]
            exact congrArg (Option.map _) hrun
          · rw [hlist', hlist, List.append_assoc]
            exact congrArg _ (filterMap_event_cons _ _).symm
      · rw [if_neg hdue, importAhead, if_neg hdue]
        have hdec := hset.dec_of_lt (a := a + 1) (by omega) (by omega)
        have hreset := hset.set hR (by omega) (located env e).resetFragmentPos
        refine ⟨(S.setQueued (a % S.queue.size) (located env e)).setQueued (a % S.queue.size)
          (located env e).resetFragmentPos, a, _, L, ?_, hreset, hp, hR, ?_, ?_,
          (List.append_nil _).symm⟩
        · exact congrArg (fun r => some (_, r, _)) hdec
        · rw [List.length_set]
          omega
        · rw [List.set_set, List.drop_set, if_neg (lt_irrefl a), Nat.sub_self, hrest]
          rfl

variable (env events Samples) in
theorem importQueue_spec (hq : S.queue.Holds log R) (hp : Pool.Holds n S.pool L) :
    let r := importAhead env Samples (S.pool.elements .freelist).length S.engine S.queue.contents
    ∃ S', importQueue env events Samples S = some (S', r.1) ∧ S'.queue.contents = r.2 ∧
      eventList S' events = eventList S events ++ r.1.filterMap Outcome.event? := by
  intro r
  have hfuel : (log.drop R).length < S.queue.readSpace.toNat + 1 := by
    rw [hq.readSpace_eq, List.length_drop]
    omega
  obtain ⟨S', a', log', L', hrun, hq', hp', hR', ha', hdrop', hlist'⟩ :=
    importLoop_spec env events Samples hq hp le_rfl hq.le rfl hfuel
  have hr : r = importAhead env Samples (L .freelist).length S.engine (log.drop R) := by
    rw [← hp.elements_eq, ← hq.contents_eq]
  rw [← hq.read_eq, ← hr] at hrun
  rw [← hr] at hdrop' hlist'
  have hfree := hq'.advance hR' ha'
  refine ⟨{ S' with queue := RingBuffer.NonVolatileReader.free S'.queue (a' % S'.queue.size) },
    ?_, ?_, ?_⟩
  · rw [importQueue]
    exact congrArg (Option.bind · _) hrun
  · exact hfree.contents_eq.trans hdrop'
  · rw [eventList, eventList, hp.elements_eq]
    refine Eq.trans ?_ hlist'
    rw [← hp'.elements_eq]

/-- What the virtual devices do first: to the engine, and the events that are kept. -/
def devicesFirst (env : ImportEnv σ δ) (S : ImportState σ δ ι) : σ × List (Event δ) :=
  devicesAhead env (S.pool.elements .freelist).length S.engine S.devices.flatten

/-- The elements of the pool that the events of the virtual devices leave. -/
def freeAfterDevices (env : ImportEnv σ δ) (S : ImportState σ δ ι) : ℕ :=
  (S.pool.elements .freelist).length - (S.devicesFirst env).2.length

variable (env events Samples) in
theorem importEvents_spec (hq : S.queue.Holds log R) (hp : Pool.Holds n S.pool L) :
    let r := importAhead env Samples (S.freeAfterDevices env) (S.devicesFirst env).1
      S.queue.contents
    ∃ S', importEvents env events Samples S = some (S', r.1) ∧ S'.queue.contents = r.2 ∧
      eventList S' events = eventList S events ++ (S.devicesFirst env).2 ++
        r.1.filterMap Outcome.event? := by
  intro r
  obtain ⟨hqueue, hengine, L₁, hp₁, hfree, hlist⟩ := importDevices_spec env events S.devices hp
  rw [← hp.elements_eq] at hengine hfree hlist
  rw [← hp₁.elements_eq] at hfree
  rw [← hqueue] at hq
  obtain ⟨S', hrun, hcontents, hlist'⟩ := importQueue_spec env events Samples
    (S := { (importDevices env events S.devices S).1 with
      devices := (importDevices env events S.devices S).2 }) hq hp₁
  dsimp only at hrun hcontents hlist'
  have hr : importAhead env Samples
      ((importDevices env events S.devices S).1.pool.elements .freelist).length
      (importDevices env events S.devices S).1.engine
      (importDevices env events S.devices S).1.queue.contents = r := by
    rw [hqueue, hengine, hfree]
    rfl
  rw [hr] at hrun hcontents hlist'
  refine ⟨S', hrun, hcontents, hlist'.trans (congrArg (· ++ _) ?_)⟩
  rw [eventList, hp₁.elements_eq]
  exact hlist

/-! ## When no event is lost -/

/-- The events that left the queue are the first ones, each was handled, those
that were kept are in the list, and the others are still in the queue (their
cached position aside). -/
def NoEventLost (env : ImportEnv σ δ) (events : ι) (S S' : ImportState σ δ ι)
    (outcomes : List (Outcome δ)) : Prop :=
  outcomes = handleAll env (S.devicesFirst env).1 (S.queue.contents.take outcomes.length) ∧
    eventList S' events = eventList S events ++ (S.devicesFirst env).2 ++
      outcomes.filterMap Outcome.event? ∧
    S'.queue.contents.map Event.resetFragmentPos =
      (S.queue.contents.drop outcomes.length).map Event.resetFragmentPos

/-- When the last due event is reached, there is still a free element: fewer
of the due events before it are kept than the pool has free elements. -/
def PoolSuffices (env : ImportEnv σ δ) (Samples free : ℕ) (engine : σ) (queued : List (Event δ)) :
    Prop :=
  let dueEvents := queued.takeWhile (due env Samples)
  dueEvents = [] ∨
    ((handleAll env engine dueEvents.dropLast).filterMap Outcome.event?).length < free

theorem importAhead_outcomes (free : ℕ) (engine : σ) (es : List (Event δ)) :
    (importAhead env Samples free engine es).1 =
      handleAll env engine (es.take (importAhead env Samples free engine es).1.length) := by
  induction es generalizing free engine with
  | nil => rfl
  | cons e es ih =>
      rw [importAhead]
      split
      · split
        · rfl
        · exact congrArg (List.cons _) (ih _ _)
      · rfl

theorem reset_located (e : Event δ) :
    (located env e).resetFragmentPos.resetFragmentPos = e.resetFragmentPos := by
  rw [located, Event.fragmentPos]
  split <;> rfl

theorem importAhead_keeps_iff (free : ℕ) (engine : σ) (es : List (Event δ)) :
    (importAhead env Samples free engine es).2.map Event.resetFragmentPos =
        (es.drop (importAhead env Samples free engine es).1.length).map Event.resetFragmentPos ↔
      PoolSuffices env Samples free engine es := by
  induction es generalizing free engine with
  | nil => exact iff_of_true rfl (.inl rfl)
  | cons e es ih =>
      by_cases hdue : due env Samples e = true
      · have hX : (e :: es).takeWhile (due env Samples) =
            e :: es.takeWhile (due env Samples) := List.takeWhile_cons_of_pos hdue
        by_cases hfree : free = 0
        · -- the popped event is missing in the queue
          rw [importAhead, if_pos hdue, if_pos hfree]
          refine iff_of_false (fun h => ?_) ?_
          · have hlen := congrArg List.length h
            simp at hlen
          · rintro (h | h)
            · rw [hX] at h
              cases h
            · omega
        · rw [importAhead, if_pos hdue, if_neg hfree]
          refine (ih _ _).trans ?_
          rw [PoolSuffices, PoolSuffices, hX]
          rcases hrest : es.takeWhile (due env Samples) with _ | ⟨x, xs⟩
          · exact iff_of_true (.inl rfl) (.inr (by simpa [handleAll] using Nat.pos_of_ne_zero hfree))
          · have hcount : ((handleAll env engine (e :: x :: xs).dropLast).filterMap
                Outcome.event?).length = Outcome.taken (handle env engine (located env e)).2 +
                  ((handleAll env (handle env engine (located env e)).1
                    (x :: xs).dropLast).filterMap Outcome.event?).length := by
              rw [List.dropLast_cons_cons, handleAll, filterMap_event_cons, List.length_append]
              rfl
            simp only [reduceCtorEq, false_or]
            rw [hcount]
            omega
      · rw [importAhead, if_neg hdue]
        refine iff_of_true ?_ (.inl (List.takeWhile_cons_of_neg hdue))
        exact congrArg (· :: _) (reset_located e)

variable (env events Samples) in
theorem noEventLost_iff (hq : S.queue.Holds log R) (hp : Pool.Holds n S.pool L) :
    ∃ S' outcomes, importEvents env events Samples S = some (S', outcomes) ∧
      S'.queue.contents = (importAhead env Samples (S.freeAfterDevices env)
        (S.devicesFirst env).1 S.queue.contents).2 ∧
      (NoEventLost env events S S' outcomes ↔
        PoolSuffices env Samples (S.freeAfterDevices env) (S.devicesFirst env).1
          S.queue.contents) := by
  obtain ⟨S', hrun, hcontents, hlist⟩ := importEvents_spec env events Samples hq hp
  refine ⟨S', _, hrun, hcontents, ?_⟩
  rw [← importAhead_keeps_iff, NoEventLost, hcontents]
  exact ⟨fun h => h.2.2, fun h => ⟨importAhead_outcomes _ _ _, hlist, h⟩⟩

variable (env events Samples) in
/-- No event is lost if and only if the pool has an element for the last due
event, after the virtual devices have taken theirs. -/
theorem importEvents_keeps_iff (hq : S.queue.Holds log R) (hp : Pool.Holds n S.pool L) :
    ∃ S' outcomes, importEvents env events Samples S = some (S', outcomes) ∧
      (NoEventLost env events S S' outcomes ↔
        PoolSuffices env Samples (S.freeAfterDevices env) (S.devicesFirst env).1
          S.queue.contents) := by
  obtain ⟨S', outcomes, hrun, -, hiff⟩ := noEventLost_iff env events Samples hq hp
  exact ⟨S', outcomes, hrun, hiff⟩

/-! ## Two events -/

def noteOn : Event Unit := ⟨.note_on, 60, 0, (), 0, -1⟩

def noteEnv : ImportEnv Unit Unit where
  toFragmentPos t := t
  globalTranspose := 0
  midiChannel := none
  created := noteOn
  note _ _ := ()
  cc _ _ _ := ()
  pitch _ _ := ()
  channelPressure _ _ _ := ()
  launchNewNote engine _ := (engine, 1)
  setMidiBankMsb engine _ := engine
  setMidiBankLsb engine _ := engine
  sendProgramChange engine _ := engine

/-- Two events are due, and the event pool has `n` elements. -/
def twoEvents (devices : List (List DevEvent)) (n : ℕ) : ImportState Unit Unit Unit where
  devices := devices
  queue := ((RingBuffer.create 4 0 fun _ => noteOn).write [noteOn, noteOn]).1
  pool := Pool.create Unit n 0
  data := fun _ => noteOn
  engine := ()

variable (devices : List (List DevEvent))

theorem twoEvents_holds (n : ℕ) : (twoEvents devices n).queue.Holds [noteOn, noteOn] 0 := by
  have hstart : (RingBuffer.create 4 0 fun _ => noteOn).Holds ([] : List (Event Unit)) 0 :=
    (RingBuffer.System.start_refines (ρ := Unit) 4 0 fun _ => noteOn).holds
  have hsize : (RingBuffer.create 4 0 fun _ => noteOn).size = 4 := by
    simp [RingBuffer.create, RingBuffer.powerOfTwo]
  have hwrite := (hstart.write_spec [noteOn, noteOn]).2.1
  rwa [RingBuffer.fitting, hsize] at hwrite

theorem twoEvents_contents (n : ℕ) : (twoEvents devices n).queue.contents = [noteOn, noteOn] :=
  (twoEvents_holds devices n).contents_eq

theorem twoEvents_free (n : ℕ) : ((twoEvents devices n).pool.elements .freelist).length = n := by
  have hp : Pool.Holds n (twoEvents devices n).pool _ := Pool.create_holds n 0
  rw [hp.elements_eq]
  simp [Lists.putLast]

/-- A virtual keyboard with a note-on, and then a modulation wheel and a bank select. -/
def virtualKeyboard : List (List DevEvent) :=
  [[⟨.noteon, 60, 100⟩, ⟨.cc, 1, 64⟩, ⟨.cc, 0, 2⟩]]

/-- The virtual keyboard takes two of the four elements. -/
theorem importEvents_keeps_iff_two : ∃ S' outcomes,
    importEvents noteEnv () 16 (twoEvents virtualKeyboard 4) = some (S', outcomes) ∧
      NoEventLost noteEnv () (twoEvents virtualKeyboard 4) S' outcomes := by
  obtain ⟨S', outcomes, hrun, hiff⟩ := importEvents_keeps_iff noteEnv () 16
    (twoEvents_holds virtualKeyboard 4) (Pool.create_holds 4 0)
  refine ⟨S', outcomes, hrun, hiff.mpr ?_⟩
  rw [freeAfterDevices, devicesFirst, twoEvents_free, twoEvents_contents]
  exact .inr (by decide)

/-- With one free element the second event leaves the queue, and is not in the
list. -/
theorem importEvents_loses_second : ∃ S' outcomes,
    importEvents noteEnv () 16 (twoEvents [] 1) = some (S', outcomes) ∧ S'.queue.contents = [] ∧
      ¬ NoEventLost noteEnv () (twoEvents [] 1) S' outcomes := by
  obtain ⟨S', outcomes, hrun, hcontents, hiff⟩ := noEventLost_iff noteEnv () 16
    (twoEvents_holds [] 1) (Pool.create_holds 1 0)
  rw [freeAfterDevices, devicesFirst, twoEvents_free, twoEvents_contents] at hcontents hiff
  refine ⟨S', outcomes, hrun, ?_, fun h => ?_⟩
  · rw [hcontents]
    decide
  · rcases hiff.mp h with h | h
    · revert h
      decide
    · revert h
      decide

end ImportState

end LinuxSampler
