import LinuxSampler.DelayedIntegrity
import LinuxSampler.StableMerge

/-!
# The loop over the due events

Each round takes the next node out of the queue, and its event joins those
of the fragment at the cursor. The loop is a run of `mergeFrom`, with the
fragment positions that the events have when it ends: it gives the events of
due nodes a position when they come out, and the positions of others stay.
-/

namespace LinuxSampler

open DoublyLinked StableMerge

namespace EventEngine

variable {C δ : Type}

/-- The answer of `FragmentPos()`. -/
def pos (S : EventEngine C δ) (i : ℕ) : ℤ := (S.fragmentPos i).1

/-! ## Positions -/

variable {S S' : EventEngine C δ} {c : C} {i j m n : ℕ}

theorem pos_congr (hevent : S'.event i = S.event i)
    (hgenerator : S'.pEventGenerator = S.pEventGenerator) : S'.pos i = S.pos i := by
  rw [pos, pos, fragmentPos, fragmentPos, hevent, hgenerator]

theorem pos_eq (hi : 0 ≤ (S.event i).iFragmentPos) : S.pos i = (S.event i).iFragmentPos := by
  rw [pos, fragmentPos, Event.fragmentPos, if_pos hi]

/-- Asking for a position changes none. -/
theorem pos_fragmentPos (S : EventEngine C δ) (i j : ℕ) : (S.fragmentPos i).2.pos j = S.pos j := by
  by_cases hj : j = i
  · subst hj
    have hevent : (S.fragmentPos j).2.event j =
        ((S.event j).fragmentPos S.pEventGenerator.toFragmentPos).2 := Function.update_self ..
    have hpos : S.pos j = ((S.event j).fragmentPos S.pEventGenerator.toFragmentPos).1 := rfl
    have hnonneg := hpos
    rw [Event.fragmentPos] at hevent hnonneg
    split at hevent
    · exact pos_congr hevent rfl
    · next hneg =>
      rw [if_neg hneg] at hnonneg
      have hevent' : ((S.fragmentPos j).2.event j).iFragmentPos = S.pos j := by
        rw [hevent, hnonneg]
      have hle : 0 ≤ S.pos j := by
        rw [hnonneg]
        dsimp only
        split
        · exact le_rfl
        · omega
      rw [pos_eq (hevent' ▸ hle), hevent']
  · exact pos_congr (Function.update_of_ne hj ..) rfl

theorem toInt32_eq {z : ℤ} (hlow : -(2 ^ 31) ≤ z) (hhigh : z < 2 ^ 31) : toInt32 z = z :=
  Int.bmod_eq_of_le hlow hhigh

theorem toInt32_lt (z : ℤ) : toInt32 z < 2 ^ 31 := by
  exact Int.bmod_lt (x := z) (m := 2 ^ 32) (by simp)

/-- In a fragment that is not empty, the position is held between its ends. -/
theorem duePos_eq (G : EventGenerator) (hN : 0 < G.uiSamplesProcessed) (fragmentEnd time : ℕ) :
    G.duePos fragmentEnd time =
      max 0 (min (toInt32 (G.uiSamplesProcessed - (fragmentEnd - time)))
        (G.uiSamplesProcessed - 1)) := by
  unfold EventGenerator.duePos
  dsimp only
  have hlt := toInt32_lt (G.uiSamplesProcessed - (fragmentEnd - time))
  generalize toInt32 (G.uiSamplesProcessed - (fragmentEnd - time)) = P at hlt ⊢
  by_cases hneg : P < 0
  · rw [if_pos hneg, if_neg (by omega)]
    omega
  · rw [if_neg hneg]
    split
    · rw [toInt32_eq (by omega) (by omega)]
      omega
    · omega

/-! ## One round -/

section Round

variable [DecidableEq C] {z : EngineSizes} {lists lists' : Lists (EngineEventList C)}
  {l : ListId (EngineEventList C)} {P : Pool (EngineEventList C)}
  {it : Iterator (EngineEventList C)} {nodes : Lists Unit} {pending A B due : List ℕ}
  {fragmentEnd : ℕ}

/-- The iterator stands before the elements of `B`. -/
def StandsAt (l : ListId (EngineEventList C)) (it : Iterator (EngineEventList C))
    (B : List ℕ) : Prop :=
  it.current ∈ (B.map NodeRef.node ++ [NodeRef.endOf l]).head?

omit [DecidableEq C] in
/-- The loop stops before the first element that is past the delayed event, or behind the
last one. -/
theorem skipEarlier_spec {fuel : ℕ} (hP : Pool.InUse z.events 1 S.pEventPool lists)
    (hl : lists l = A ++ B) (hit : StandsAt l it B) (hfuel : B.length < fuel) (n : ℕ) :
    ∃ event it', skipEarlier n fuel S it = some ({ S with event := event }, it') ∧
      (∀ j, pos { S with event := event } j = S.pos j) ∧
      StandsAt l it' (B.dropWhile fun x => S.pos x ≤ S.pos n) := by
  induction fuel generalizing S it A B with
  | zero => exact absurd hfuel (Nat.not_lt_zero _)
  | succ fuel ih =>
      unfold skipEarlier
      cases B with
      | nil =>
          have hcur : it.current = .endOf l := by simpa [StandsAt] using hit.symm
          have hindex : it.index = none := by rw [Iterator.index, hcur]
          rw [hindex]
          exact ⟨S.event, it, rfl, fun _ => rfl, hit⟩
      | cons i B =>
          have hcur : it.current = .node i := by simpa [StandsAt] using hit.symm
          rw [Iterator.index_eq_some.mpr hcur]
          dsimp only
          set S₁ := ((S.fragmentPos i).2.fragmentPos n).2
          have hpos : ∀ j, S₁.pos j = S.pos j := fun j => by
            rw [pos_fragmentPos, pos_fragmentPos]
          have hi : (S.fragmentPos i).1 = S.pos i := rfl
          have hn : ((S.fragmentPos i).2.fragmentPos n).1 = S.pos n := pos_fragmentPos S i n
          rw [hi, hn]
          split
          · next hle =>
            have hnext : StandsAt l (S.pEventPool.increment it) B := by
              rw [StandsAt, Pool.increment, hcur]
              exact hP.next_node hl
            have hl' : lists l = (A ++ [i]) ++ B := by
              rw [hl, List.append_assoc, List.singleton_append]
            obtain ⟨event, it', hskip, hsame, hit'⟩ :=
              ih (S := S₁) hP hl' hnext (Nat.lt_of_succ_lt_succ hfuel)
            refine ⟨event, it', hskip, fun j => (hsame j).trans (hpos j), ?_⟩
            rw [List.dropWhile_cons_of_pos (by simpa using hle)]
            simpa only [hpos] using hit'
          · next hlt =>
            refine ⟨S₁.event, it, rfl, hpos, ?_⟩
            rw [List.dropWhile_cons_of_neg (by simpa using hlt)]
            exact hit

/-- Either nothing is due, or the node that is next leaves the queue, and its event has the
position. -/
theorem popNextScheduledEvent_spec {events : Set ℕ}
    (hD : (S.delayedEvents c).Sound z.nodes nodes pending events) (fragmentEnd : ℕ) :
    (S.popNextScheduledEvent c fragmentEnd = some (S, none) ∧
        (S.delayedEvents c).due fragmentEnd pending = []) ∨
      ∃ m i queue, (S.delayedEvents c).IsNext pending m ∧
        (S.delayedEvents c).scheduleTime m < fragmentEnd ∧
        (S.delayedEvents c).target m = some i ∧
        (S.delayedEvents c).queue.erase true m = some queue ∧
        S.popNextScheduledEvent c fragmentEnd =
          some ({ S.setDelayed c { S.delayedEvents c with queue := queue } with
            event := Function.update S.event i { S.event i with
              iFragmentPos := S.pEventGenerator.duePos fragmentEnd
                ((S.delayedEvents c).scheduleTime m) } }, some m) := by
  by_cases hroot : (S.delayedEvents c).queue.root = none
  · left
    rw [popNextScheduledEvent, if_pos hroot, hD.eq_nil hroot]
    exact ⟨rfl, rfl⟩
  · obtain ⟨m, hlowest, hm⟩ := hD.lowest hroot
    by_cases htime : (S.delayedEvents c).scheduleTime m ≥ fragmentEnd
    · left
      rw [popNextScheduledEvent, if_neg hroot, hlowest]
      simp only [Option.bind_eq_bind, Option.bind_some, if_pos htime]
      refine ⟨rfl, List.filter_eq_nil_iff.mpr fun y hy => ?_⟩
      simpa using htime.trans (hm.lowest y hy)
    · have hit : (⟨.node m, .null⟩ : Iterator Unit).index = some m := rfl
      obtain ⟨queue, i, herase, htarget, -⟩ := hD.pop hm.mem hit
      have hindex : ((S.delayedEvents c).node m).itEvent.index = some i := htarget
      refine .inr ⟨m, i, queue, hm, not_le.mp htime, htarget, herase, ?_⟩
      rw [popNextScheduledEvent, if_neg hroot, hlowest]
      simp only [Option.bind_eq_bind, Option.bind_some, if_neg htime, herase, hindex]
      rfl

/-- The lists when a delayed event joins the others. -/
theorem waiting_due (h : Pool.InUse n 1 P lists) (hi : i ∈ waiting lists c) (events : List ℕ)
    (c' : C) : waiting (Function.update (lists.remove i) (.rtlist (.events c)) events) c' =
      if c' = c then waiting lists c \ {i} else waiting lists c' := by
  have hmem : ∀ j, j ∈ waiting (Function.update (lists.remove i) (.rtlist (.events c)) events) c' ↔
      j ≠ i ∧ j ∈ waiting lists c' := by
    intro j
    unfold waiting
    rw [Set.mem_ofPred_eq, Function.update_of_ne (by simp)]
    exact Lists.mem_remove (h.nodup _)
  ext j
  rw [hmem j]
  split
  · next hc => simp [hc, and_comm]
  · next hc =>
    have hne : i ∉ waiting lists c' := h.disjoint hi (by simpa using Ne.symm hc)
    constructor
    · exact fun hj => hj.2
    · exact fun hj => ⟨fun e => hne (e ▸ hj), hj⟩

/-- What a round does in which the node `m` comes out, with its event `i`. -/
structure Round (S S' : EventEngine C δ) (lists lists' : Lists (EngineEventList C)) (c : C)
    (pending : List ℕ) (fragmentEnd m i : ℕ) : Prop where
  next : (S.delayedEvents c).IsNext pending m
  time : (S.delayedEvents c).scheduleTime m < fragmentEnd
  target : (S.delayedEvents c).target m = some i
  node : (S'.delayedEvents c).node = (S.delayedEvents c).node
  channels : ∀ c', c' ≠ c → S'.delayedEvents c' = S.delayedEvents c'
  generator : S'.pEventGenerator = S.pEventGenerator
  waits : i ∈ waiting lists c
  waiting_eq : waiting lists' c = waiting lists c \ {i}
  others : ∀ j, j ≠ i → S'.pos j = S.pos j
  placed : 0 < S.pEventGenerator.uiSamplesProcessed → S'.pos i =
    S.pEventGenerator.duePos fragmentEnd ((S.delayedEvents c).scheduleTime m)

theorem Inv.insertDueFrom_succ (h : Inv z S lists)
    (hD : (S.delayedEvents c).Sound z.nodes nodes pending (waiting lists c))
    (hl : lists (.rtlist (.events c)) = A ++ B) (hit : StandsAt (.rtlist (.events c)) it B)
    (fragmentEnd fuel : ℕ) :
    (insertDueFrom c fragmentEnd (fuel + 1) S it = some S ∧
        (S.delayedEvents c).due fragmentEnd pending = []) ∨
      ∃ m i S' lists' it', insertDueFrom c fragmentEnd (fuel + 1) S it =
          insertDueFrom c fragmentEnd fuel S' it' ∧
        Round S S' lists lists' c pending fragmentEnd m i ∧ Inv z S' lists' ∧
        (∃ nodes, (S'.delayedEvents c).Sound z.nodes nodes (pending.erase m) (waiting lists' c)) ∧
        lists' (.rtlist (.events c)) = A ++ (B.takeWhile (fun x => S'.pos x ≤ S'.pos i)) ++
          i :: B.dropWhile (fun x => S'.pos x ≤ S'.pos i) ∧
        StandsAt (.rtlist (.events c)) it' (i :: B.dropWhile fun x => S'.pos x ≤ S'.pos i) := by
  rw [EventEngine.insertDueFrom]
  rcases popNextScheduledEvent_spec hD fragmentEnd with
    ⟨hnone, hdue⟩ | ⟨m, i, queue, hm, htime, htarget, herase, hpop⟩
  · rw [hnone]
    exact .inl ⟨rfl, hdue⟩
  · right
    have hnode : ((S.delayedEvents c).schedulerNodes.iterator (.node m) .forward).index =
        some m := rfl
    obtain ⟨queue', i', herase', htarget', hi, hsound⟩ := hD.pop hm.mem hnode
    obtain rfl : queue = queue' := Option.some.inj (herase.symm.trans herase')
    obtain rfl : i = i' := Option.some.inj (htarget.symm.trans htarget')
    set D : DelayedEvents C := { S.delayedEvents c with
      queue := queue
      schedulerNodes := ((S.delayedEvents c).schedulerNodes.free
        ((S.delayedEvents c).schedulerNodes.iterator (.node m) .forward)).1 } with hDdef
    have hindex : ((S.delayedEvents c).node m).itEvent.index = some i := htarget
    set e : Event δ := { S.event i with
      iFragmentPos := S.pEventGenerator.duePos fragmentEnd ((S.delayedEvents c).scheduleTime m) }
      with he
    rw [hpop]
    simp only [Option.bind_eq_bind, Option.bind_some, EventEngine.setDelayed,
      Function.update_self, Function.update_idem, hindex]
    set S₁ : EventEngine C δ := { S with
      event := Function.update S.event i e
      delayedEvents := Function.update S.delayedEvents c D }
    obtain ⟨event, it', hskip, hpos, hit'⟩ :=
      skipEarlier_spec (S := S₁) h.events hl hit (h.events.length_lt hl) i
    have hsplit : lists (.rtlist (.events c)) = A ++ B.takeWhile (fun x => S₁.pos x ≤ S₁.pos i) ++
        B.dropWhile fun x => S₁.pos x ≤ S₁.pos i := by
      rw [hl, List.append_assoc, List.takeWhile_append_dropWhile]
    have hremove := (List.erase_of_not_mem (h.events.disjoint hi (by simp))).trans hsplit
    have hmove := h.events.moveBefore hindex (h.events.lt hi) hremove hit'
    have hwaiting := waiting_due h.events hi
      (A ++ B.takeWhile (fun x => S₁.pos x ≤ S₁.pos i) ++
        i :: B.dropWhile fun x => S₁.pos x ≤ S₁.pos i)
    have hself := hwaiting c
    rw [if_pos rfl] at hself
    rw [← hself] at hsound
    have h' := h.setDelayed event hmove ⟨_, _, hsound⟩ fun c' hc => by
      rw [hwaiting c', if_neg hc]
    rw [← Function.update_self c D S.delayedEvents] at hsound
    rw [hskip]
    set S' : EventEngine C δ := { S₁ with
      event := event, pEventPool := (S.pEventPool.moveBefore _ it').1 }
    have hpos' : ∀ j, S'.pos j = S₁.pos j := fun j => (pos_congr rfl rfl).trans (hpos j)
    refine ⟨m, i, S', _, _, rfl, ⟨hm, htime, htarget, ?_, fun c' hc => ?_, rfl, hi, hself,
      fun j hj => ?_, fun hN => ?_⟩, h', ⟨_, hsound⟩, ?_, ?_⟩
    · rw [show S'.delayedEvents = Function.update S.delayedEvents c D from rfl,
        Function.update_self]
    · exact Function.update_of_ne hc ..
    · rw [hpos' j]
      exact pos_congr (Function.update_of_ne hj ..) rfl
    · have hevent : S₁.event i = e := Function.update_self ..
      have hnonneg : 0 ≤ e.iFragmentPos := by
        rw [he, duePos_eq _ hN]
        exact le_max_left ..
      rw [hpos' i, pos_eq (hevent ▸ hnonneg), hevent]
    · simp only [hpos', Function.update_self]
    · simp only [hpos']
      exact congrArg some (Iterator.index_eq_some.mp hindex).symm

/-! ## The loop -/

/-- What the loop has done when it ends. The iterator stood before `B`. -/
structure Inserts (S S' : EventEngine C δ) (lists lists' : Lists (EngineEventList C)) (c : C)
    (pending A B : List ℕ) (fragmentEnd : ℕ) (due : List ℕ) : Prop where
  list : lists' (.rtlist (.events c)) = A ++ mergeFrom S'.pos B due
  order : ∃ out, RTAVLTree.StableSorted (S.delayedEvents c).scheduleTime
      ((S.delayedEvents c).due fragmentEnd pending) out ∧
    out.map (S.delayedEvents c).target = due.map some
  rest : (S'.delayedEvents c).Since fragmentEnd
  channels : ∀ c', c' ≠ c → S'.delayedEvents c' = S.delayedEvents c'
  generator : S'.pEventGenerator = S.pEventGenerator
  unchanged : ∀ j, j ∉ waiting lists c → S'.pos j = S.pos j
  placed : 0 < S.pEventGenerator.uiSamplesProcessed →
    ∀ m ∈ (S.delayedEvents c).due fragmentEnd pending, ∀ i ∈ (S.delayedEvents c).target m,
      S'.pos i = S.pEventGenerator.duePos fragmentEnd ((S.delayedEvents c).scheduleTime m)

omit [DecidableEq C] in
theorem Inserts.nil
    (hD : (S.delayedEvents c).Sound z.nodes nodes pending (waiting lists c))
    (hl : lists (.rtlist (.events c)) = A ++ B)
    (hdue : (S.delayedEvents c).due fragmentEnd pending = []) :
    Inserts S S lists lists c pending A B fragmentEnd [] where
  list := hl
  order := by
    rw [hdue]
    exact ⟨[], ⟨.rfl, .nil, fun _ => rfl⟩, rfl⟩
  rest := hD.since_of_due hdue
  channels _ _ := rfl
  generator := rfl
  unchanged _ _ := rfl
  placed _ m hm := by
    rw [hdue] at hm
    cases hm

omit [DecidableEq C] in
/-- The rest of the loop after a round. -/
theorem Inserts.cons {S₁ : EventEngine C δ} {lists₁ : Lists (EngineEventList C)}
    (hround : Round S S₁ lists lists₁ c pending fragmentEnd m i) (hn : pending.Nodup)
    (hB : ∀ j ∈ B, j ∉ waiting lists c)
    (h : Inserts S₁ S' lists₁ lists' c (pending.erase m)
      (A ++ B.takeWhile fun x => S₁.pos x ≤ S₁.pos i)
      (i :: B.dropWhile fun x => S₁.pos x ≤ S₁.pos i) fragmentEnd due) :
    Inserts S S' lists lists' c pending A B fragmentEnd (i :: due) := by
  have htime : (S₁.delayedEvents c).scheduleTime = (S.delayedEvents c).scheduleTime := by
    funext x
    rw [DelayedEvents.scheduleTime, DelayedEvents.scheduleTime, hround.node]
  have htarget : (S₁.delayedEvents c).target = (S.delayedEvents c).target := by
    funext x
    rw [DelayedEvents.target, DelayedEvents.target, hround.node]
  have hkeep : ∀ j, j ∉ waiting lists c ∨ j = i → S'.pos j = S₁.pos j := by
    intro j hj
    refine h.unchanged j ?_
    rw [hround.waiting_eq]
    rintro ⟨hw, hji⟩
    exact hj.elim (fun hj => hj hw) hji
  have hsplit := span_congr (l := B) (p := fun x => S'.pos x ≤ S'.pos i)
    (q := fun x => S₁.pos x ≤ S₁.pos i) fun x hx => by
      rw [hkeep x (.inl (hB x hx)), hkeep i (.inr rfl)]
  obtain ⟨out, hsorted, hout⟩ := h.order
  rw [htime] at hsorted
  rw [htarget] at hout
  have hdue : (S₁.delayedEvents c).due fragmentEnd (pending.erase m) =
      (S.delayedEvents c).due fragmentEnd (pending.erase m) := by
    rw [DelayedEvents.due, DelayedEvents.due, htime]
  rw [hdue] at hsorted
  refine ⟨?_, ⟨m :: out, hround.next.cons hn hround.time hsorted, ?_⟩, h.rest,
    fun c' hc => (h.channels c' hc).trans (hround.channels c' hc),
    h.generator.trans hround.generator, fun j hj => ?_, fun hN m' hm' j hj => ?_⟩
  · rw [h.list, mergeFrom, hsplit.1, hsplit.2, List.append_assoc]
  · rw [List.map_cons, List.map_cons, hout, hround.target]
  · rw [hkeep j (.inl hj)]
    exact hround.others j fun e => hj (e ▸ hround.waits)
  · by_cases hmm : m' = m
    · subst hmm
      obtain rfl : i = j := Option.some.inj (hround.target.symm.trans hj)
      rw [hkeep i (.inr rfl), hround.placed hN]
    · have hrest := h.placed (hround.generator ▸ hN) m' ?_ j (by rwa [htarget])
      · rw [hrest, hround.generator, htime]
      · rw [hdue, DelayedEvents.mem_due, List.mem_erase_of_ne hmm]
        exact DelayedEvents.mem_due.mp hm'

theorem Inv.insertDueFrom {fuel : ℕ} (h : Inv z S lists)
    (hD : (S.delayedEvents c).Sound z.nodes nodes pending (waiting lists c))
    (hl : lists (.rtlist (.events c)) = A ++ B) (hit : StandsAt (.rtlist (.events c)) it B)
    (hB : ∀ j ∈ B, j ∉ waiting lists c) (hfuel : pending.length < fuel) (fragmentEnd : ℕ) :
    ∃ S' lists' due, insertDueFrom c fragmentEnd fuel S it = some S' ∧ Inv z S' lists' ∧
      Inserts S S' lists lists' c pending A B fragmentEnd due := by
  induction fuel generalizing S lists it nodes pending A B with
  | zero => exact absurd hfuel (Nat.not_lt_zero _)
  | succ fuel ih =>
      rcases h.insertDueFrom_succ hD hl hit fragmentEnd fuel with
        ⟨hrun, hdue⟩ | ⟨m, i, S₁, lists₁, it', hrun, hround, h₁, ⟨nodes₁, hD₁⟩, hl₁, hit₁⟩
      · exact ⟨S, lists, [], hrun, h, .nil hD hl hdue⟩
      · have hB₁ : ∀ j ∈ i :: B.dropWhile (fun x => S₁.pos x ≤ S₁.pos i),
            j ∉ waiting lists₁ c := by
          intro j hj
          rw [hround.waiting_eq]
          rintro ⟨hw, hji⟩
          rcases List.mem_cons.mp hj with rfl | hj
          · exact hji rfl
          · exact hB j ((List.dropWhile_sublist _).subset hj) hw
        have hlen := List.length_erase_of_mem hround.next.mem
        have hpos := List.length_pos_of_mem hround.next.mem
        obtain ⟨S', lists', due, hrest, h', hinserts⟩ := ih h₁ hD₁ hl₁ hit₁ hB₁ (by omega)
        exact ⟨S', lists', i :: due, hrun.trans hrest, h', hinserts.cons hround hD.nodup hB⟩

theorem Inv.insertDueEvents_spec (h : Inv z S lists)
    (hD : (S.delayedEvents c).Sound z.nodes nodes pending (waiting lists c)) :
    ∃ S' lists' due, S.insertDueEvents c = some S' ∧ Inv z S' lists' ∧
      Inserts S S' lists lists' c pending [] (lists (.rtlist (.events c)))
        S.pEventGenerator.schedTimeAtCurrentFragmentEnd due := by
  unfold EventEngine.insertDueEvents
  dsimp only
  split
  · next hroot =>
    refine ⟨S, lists, [], rfl, h, .nil hD rfl ?_⟩
    rw [hD.eq_nil hroot]
    rfl
  · exact h.insertDueFrom hD (List.nil_append _).symm (h.events.first_current _)
      (fun j hj => notMem_waiting h.events hj (by simp) c) hD.length_lt_fuel _

theorem Inv.insertDueEvents (h : Inv z S lists) (c : C) :
    ∃ S' lists', S.insertDueEvents c = some S' ∧ Inv z S' lists' ∧
      S'.pEventGenerator = S.pEventGenerator ∧
      (S'.delayedEvents c).Since S.pEventGenerator.schedTimeAtCurrentFragmentEnd ∧
      ∀ c', c' ≠ c → S'.delayedEvents c' = S.delayedEvents c' := by
  obtain ⟨nodes, pending, hD⟩ := h.delayed c
  obtain ⟨S', lists', due, hrun, h', hinserts⟩ := h.insertDueEvents_spec hD
  exact ⟨S', lists', hrun, h', hinserts.generator, hinserts.rest, hinserts.channels⟩

end Round

end EventEngine

end LinuxSampler
