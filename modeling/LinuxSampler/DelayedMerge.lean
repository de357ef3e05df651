import LinuxSampler.ScriptPreprocess

/-!
# Delayed events join those of the fragment

`ProcessEvents()` merges the events that are due into the sorted list of the
fragment. The times of the queue have 64 bits, and the offset of an event from
the start of the fragment has 32 when it is held within the fragment. The
result is a stable merge as long as no offset wraps around past that of a
later event (`Inv.mergesStably_iff`).

The scripts of a channel run before the merge, and the queue is looked at in
every fragment. So nothing in it is late when the merge begins, and no offset
wraps around in a fragment of at most `2 ^ 31` sample points
(`mergesStably_run`). In a longer one it can.
-/

namespace LinuxSampler

open StableMerge

/-- The offset of a time from the start of the fragment, in 32 bits. -/
def EventGenerator.offset32 (G : EventGenerator) (time : ℕ) : ℤ :=
  toInt32 (time - G.uiTotalSamplesProcessed)

namespace EventEngine

section Definitions

variable {C δ : Type} [DecidableEq C]

/-- The events of the nodes that are due, in the order of their times. Those of one time are in
the order in which they were scheduled, as their nodes are in the queue. -/
def DueEvents (S : EventEngine C δ) (c : C) (due : List ℕ) : Prop :=
  ∃ t pending out,
    RTAVLTree.Holds (S.delayedEvents c).scheduleTime true (S.delayedEvents c).queue t pending ∧
    RTAVLTree.StableSorted (S.delayedEvents c).scheduleTime
      ((S.delayedEvents c).due S.pEventGenerator.schedTimeAtCurrentFragmentEnd pending) out ∧
    out.map (S.delayedEvents c).target = due.map some

/-- The loop ends, and the events of the fragment are merged with those that are due. -/
def MergesStably (S : EventEngine C δ) (c : C) : Prop :=
  ∃ S' due, S.insertDueEvents c = some S' ∧ S.DueEvents c due ∧
    IsStableMerge S'.pos (S.fragmentEvents c) due (S'.fragmentEvents c) ∧
    ∀ i ∈ due, 0 ≤ S'.pos i ∧ S'.pos i < S.pEventGenerator.uiSamplesProcessed

/-- The events of the fragment are in order. -/
def Sorted (S : EventEngine C δ) (c : C) : Prop :=
  (S.fragmentEvents c).Pairwise fun i j => S.pos i ≤ S.pos j

/-- The fragment is not empty if anything is due. Of two times that are due, the later one does
not have the lower offset, unless both are held at one sample point of the fragment. -/
def DueInOrder (S : EventEngine C δ) (c : C) : Prop :=
  ∀ m m', (S.delayedEvents c).queue.tree m = true → (S.delayedEvents c).queue.tree m' = true →
    (S.delayedEvents c).scheduleTime m ≤ (S.delayedEvents c).scheduleTime m' →
    (S.delayedEvents c).scheduleTime m' < S.pEventGenerator.schedTimeAtCurrentFragmentEnd →
      0 < S.pEventGenerator.uiSamplesProcessed ∧
      (S.pEventGenerator.offset32 ((S.delayedEvents c).scheduleTime m) ≤
          S.pEventGenerator.offset32 ((S.delayedEvents c).scheduleTime m') ∨
        S.pEventGenerator.uiSamplesProcessed = 1 ∨
        S.pEventGenerator.offset32 ((S.delayedEvents c).scheduleTime m) ≤ 0 ∨
        S.pEventGenerator.uiSamplesProcessed - 1 ≤
          S.pEventGenerator.offset32 ((S.delayedEvents c).scheduleTime m'))

end Definitions

/-! ## The events of the nodes -/

section Targets

variable {α β : Type*} {f : α → Option β} {xs : List α} {ys : List β}

theorem mem_of_map_eq (h : xs.map f = ys.map some) {y : β} :
    y ∈ ys ↔ ∃ x ∈ xs, f x = some y := by
  have hmem : some y ∈ xs.map f ↔ some y ∈ ys.map some := by rw [h]
  simpa using hmem.symm

theorem pairwise_of_map_eq (h : xs.map f = ys.map some) {R : β → β → Prop} :
    ys.Pairwise R ↔ xs.Pairwise fun x x' => ∀ y ∈ f x, ∀ y' ∈ f x', R y y' := by
  have hmap := List.pairwise_map (f := f) (l := xs)
    (R := fun o o' : Option β => ∀ y ∈ o, ∀ y' ∈ o', R y y')
  rw [← hmap, h, List.pairwise_map]
  simp

/-- In a sorted list, what has the lower key comes first. -/
theorem of_pairwise_key {key : α → ℕ} (hsorted : xs.Pairwise fun x y => key x ≤ key y)
    {R : α → α → Prop} (hR : xs.Pairwise R) {x y : α} (hx : x ∈ xs) (hy : y ∈ xs)
    (hlt : key x < key y) : R x y := by
  have hforward : xs.Pairwise fun x y => key x < key y → R x y := by
    refine hR.imp fun h _ => ?_
    exact h
  have hbackward : xs.Pairwise (flip fun x y => key x < key y → R x y) :=
    hsorted.imp fun hle hlt => absurd hle (not_le.mpr hlt)
  exact List.Pairwise.forall_of_forall_of_flip (fun x _ h => absurd h (lt_irrefl _)) hforward
    hbackward hx hy hlt

end Targets

/-! ## Positions by offsets -/

theorem duePos_fragmentEnd (G : EventGenerator) (hN : 0 < G.uiSamplesProcessed) (time : ℕ) :
    G.duePos G.schedTimeAtCurrentFragmentEnd time =
      max 0 (min (G.offset32 time) (G.uiSamplesProcessed - 1)) := by
  have hoffset : (G.uiSamplesProcessed - (G.schedTimeAtCurrentFragmentEnd - time) : ℤ) =
      time - G.uiTotalSamplesProcessed +
        (2 ^ 32 : ℕ) * (2 ^ 32 * ((G.uiTotalSamplesProcessed + G.uiSamplesProcessed) / 2 ^ 64)) := by
    rw [EventGenerator.schedTimeAtCurrentFragmentEnd]
    omega
  rw [duePos_eq G hN, hoffset, toInt32, Int.add_mul_bmod_self_left]
  rfl

theorem duePos_le_iff (G : EventGenerator) (hN : 0 < G.uiSamplesProcessed) (time time' : ℕ) :
    G.duePos G.schedTimeAtCurrentFragmentEnd time ≤
        G.duePos G.schedTimeAtCurrentFragmentEnd time' ↔
      G.offset32 time ≤ G.offset32 time' ∨ G.uiSamplesProcessed = 1 ∨ G.offset32 time ≤ 0 ∨
        G.uiSamplesProcessed - 1 ≤ G.offset32 time' := by
  rw [duePos_fragmentEnd G hN, duePos_fragmentEnd G hN]
  omega

/-! ## The condition is exact -/

section Exact

variable {C δ : Type} [DecidableEq C] {z : EngineSizes} {S : EventEngine C δ}
  {lists : Lists (EngineEventList C)} {c : C}

theorem Inv.dueInOrder (h : Inv z S lists) (hmerge : S.MergesStably c) : S.DueInOrder c := by
  obtain ⟨S', due, hrun, ⟨t, pending, out, hT, hsorted, hout⟩, hstable, hinside⟩ := hmerge
  obtain ⟨nodes, pending₀, hD⟩ := h.delayed c
  obtain ⟨t₀, hT₀⟩ := hD.queue
  obtain ⟨S'', lists', due', hrun', -, hinserts⟩ := h.insertDueEvents_spec hD
  obtain rfl : S' = S'' := Option.some.inj (hrun.symm.trans hrun')
  have hdue : ∀ m, (S.delayedEvents c).queue.tree m = true →
      (S.delayedEvents c).scheduleTime m < S.pEventGenerator.schedTimeAtCurrentFragmentEnd →
      m ∈ out ∧ ∃ i ∈ due, (S.delayedEvents c).target m = some i ∧
        (0 < S.pEventGenerator.uiSamplesProcessed → S'.pos i =
          S.pEventGenerator.duePos S.pEventGenerator.schedTimeAtCurrentFragmentEnd
            ((S.delayedEvents c).scheduleTime m)) := by
    intro m hm htime
    have hmem : m ∈ out := by
      rw [hsorted.perm.mem_iff, DelayedEvents.mem_due, ← hT.tree rfl]
      exact ⟨hm, htime⟩
    obtain ⟨i, -, hi⟩ := hD.paired.mapsTo ((hT₀.tree rfl m).mp hm)
    refine ⟨hmem, i, (mem_of_map_eq hout).mpr ⟨m, hmem, hi.symm⟩, hi.symm, fun hN => ?_⟩
    refine hinserts.placed hN m ?_ i hi.symm
    rw [DelayedEvents.mem_due, ← hT₀.tree rfl]
    exact ⟨hm, htime⟩
  intro m m' hm hm' hle htime
  obtain ⟨hmem, i, hi, htarget, hplaced⟩ := hdue m hm (hle.trans_lt htime)
  obtain ⟨hmem', i', -, htarget', hplaced'⟩ := hdue m' hm' htime
  have hN : 0 < S.pEventGenerator.uiSamplesProcessed := by
    obtain ⟨hlow, hhigh⟩ := hinside i hi
    exact_mod_cast hlow.trans_lt hhigh
  refine ⟨hN, (duePos_le_iff _ hN _ _).mp ?_⟩
  rcases hle.lt_or_eq with hlt | heq
  · have hpos := (pairwise_of_map_eq hout).mp hstable.due_sorted
    rw [← hplaced hN, ← hplaced' hN]
    exact of_pairwise_key hsorted.sorted hpos hmem hmem' hlt i htarget i' htarget'
  · rw [heq]

theorem Inv.mergesStably (h : Inv z S lists) (hformer : S.Sorted c) (horder : S.DueInOrder c) :
    S.MergesStably c := by
  obtain ⟨nodes, pending, hD⟩ := h.delayed c
  obtain ⟨t, hT⟩ := hD.queue
  obtain ⟨S', lists', due, hrun, h', hinserts⟩ := h.insertDueEvents_spec hD
  obtain ⟨out, hsorted, hout⟩ := hinserts.order
  have hnodes : ∀ m ∈ out, m ∈ (S.delayedEvents c).due
      S.pEventGenerator.schedTimeAtCurrentFragmentEnd pending :=
    fun m hm => hsorted.perm.mem_iff.mp hm
  have hordered : ∀ m ∈ out, ∀ m' ∈ out,
      (S.delayedEvents c).scheduleTime m ≤ (S.delayedEvents c).scheduleTime m' → _ :=
    fun m hm m' hm' hle => by
      obtain ⟨hp, -⟩ := DelayedEvents.mem_due.mp (hnodes m hm)
      obtain ⟨hp', htime⟩ := DelayedEvents.mem_due.mp (hnodes m' hm')
      exact horder m m' ((hT.tree rfl m).mpr hp) ((hT.tree rfl m').mpr hp') hle htime
  refine ⟨S', due, hrun, ⟨t, pending, out, hT, hsorted, hout⟩, ?_, fun i hi => ?_⟩
  · rw [h'.fragmentEvents_eq, hinserts.list, List.nil_append, h.fragmentEvents_eq]
    refine isStableMerge_mergeFrom ?_ ((pairwise_of_map_eq hout).mpr ?_)
    · rw [Sorted, h.fragmentEvents_eq] at hformer
      refine hformer.imp_of_mem fun hi hj hle => ?_
      have hkeep : ∀ j ∈ lists (.rtlist (.events c)), S'.pos j = S.pos j := fun j hj =>
        hinserts.unchanged j (notMem_waiting h.events hj (by simp) c)
      rwa [hkeep _ hi, hkeep _ hj]
    · refine hsorted.sorted.imp_of_mem fun {m m'} hm hm' hle i hi i' hi' => ?_
      obtain ⟨hN, hpos⟩ := hordered m hm m' hm' hle
      rw [← duePos_le_iff _ hN] at hpos
      rwa [hinserts.placed hN m (hnodes m hm) i hi, hinserts.placed hN m' (hnodes m' hm') i' hi']
  · obtain ⟨m, hm, htarget⟩ := (mem_of_map_eq hout).mp hi
    obtain ⟨hN, -⟩ := hordered m hm m hm le_rfl
    rw [hinserts.placed hN m (hnodes m hm) i htarget, duePos_eq _ hN]
    omega

theorem Inv.mergesStably_iff (h : Inv z S lists) (hformer : S.Sorted c) :
    S.MergesStably c ↔ S.DueInOrder c :=
  ⟨h.dueInOrder, h.mergesStably hformer⟩

end Exact

end EventEngine

/-! ## A merge in each fragment -/

section Fragments

variable {C δ : Type} [DecidableEq C]

/-- Each fragment begins where the last one ends, and an event is scheduled for a time from its
start on. No time has more than 64 bits. -/
def EngineAction.OnTime (S : EventEngine C δ) : EngineAction C δ → Prop
  | .scheduleEvent _ pEvent delay | .scheduleNote _ pEvent delay _ =>
      S.pEventGenerator.uiTotalSamplesProcessed ≤ S.pEventGenerator.timeAhead pEvent delay
  | .nextFragment G =>
      G.uiTotalSamplesProcessed =
          S.pEventGenerator.uiTotalSamplesProcessed + S.pEventGenerator.uiSamplesProcessed ∧
        G.uiTotalSamplesProcessed + G.uiSamplesProcessed < 2 ^ 64
  | _ => True

instance (S : EventEngine C δ) : DecidablePred (EngineAction.OnTime S)
  | .scheduleEvent .. | .scheduleNote .. => inferInstanceAs (Decidable (_ ≤ _))
  | .nextFragment _ => inferInstanceAs (Decidable (_ ∧ _))
  | .ignoreEvent _ | .ignoreNote _ | .ignoreEventByScriptID _ | .insertDueEvents _
  | .clearDelayed _ | .alloc .. | .free _ | .moveToEndOf .. | .clearList _ | .writeEvent ..
  | .launchNewNote .. | .writeVoices .. | .freeNote _ => inferInstanceAs (Decidable True)

/-- The events of the channel are merged in each fragment, after all that the scripts schedule
in it. `merged`: this has been done in the current one. -/
def MergesEach (c : C) : Bool → List (EngineAction C δ) → Prop
  | _, [] => True
  | merged, .scheduleEvent c' _ _ :: actions | merged, .scheduleNote c' _ _ _ :: actions =>
      (c' = c → merged = false) ∧ MergesEach c merged actions
  | merged, .insertDueEvents c' :: actions => MergesEach c (merged || c' = c) actions
  | merged, .nextFragment _ :: actions => merged = true ∧ MergesEach c false actions
  | merged, _ :: actions => MergesEach c merged actions

namespace EventEngine

/-- What is due has joined the events of the fragment, or is not late and the fragment is no
longer than `2 ^ 31` sample points. -/
structure Timely (S : EventEngine C δ) (c : C) (merged : Bool) : Prop where
  fits : S.pEventGenerator.uiTotalSamplesProcessed + S.pEventGenerator.uiSamplesProcessed < 2 ^ 64
  length : merged = false → S.pEventGenerator.uiSamplesProcessed ≤ 2 ^ 31
  since : (S.delayedEvents c).Since (S.pEventGenerator.uiTotalSamplesProcessed +
    if merged then S.pEventGenerator.uiSamplesProcessed else 0)

variable {z : EngineSizes} {S S' : EventEngine C δ} {lists : Lists (EngineEventList C)} {c : C}
  {merged : Bool} {parentNoteID : δ → ℕ} {a : EngineAction C δ} {actions : List (EngineAction C δ)}

omit [DecidableEq C] in
theorem Timely.dueInOrder (h : S.Timely c merged) : S.DueInOrder c := by
  intro m m' hm hm' hle htime
  have hfits := h.fits
  have hsince := h.since m hm
  rw [EventGenerator.schedTimeAtCurrentFragmentEnd, Nat.mod_eq_of_lt hfits] at htime
  cases merged with
  | true =>
      rw [if_pos rfl] at hsince
      omega
  | false =>
      have hlength := h.length rfl
      rw [EventGenerator.offset32, EventGenerator.offset32, toInt32_eq (by omega) (by omega),
        toInt32_eq (by omega) (by omega)]
      omega

omit [DecidableEq C] in
theorem Timely.congr (h : S.Timely c merged) (hgenerator : S'.pEventGenerator = S.pEventGenerator)
    (hdelayed : S'.delayedEvents c = S.delayedEvents c) : S'.Timely c merged where
  fits := hgenerator ▸ h.fits
  length := hgenerator ▸ h.length
  since := hgenerator ▸ hdelayed ▸ h.since

omit [DecidableEq C] in
/-- An event is scheduled before the merge. -/
theorem Timely.schedule {c' : C} {time : ℕ} (h : S.Timely c merged)
    (hscheduled : S.SchedulesFrom S' c' time)
    (htime : S.pEventGenerator.uiTotalSamplesProcessed ≤ time) (hmerged : c' = c → merged = false) :
    S'.Timely c merged := by
  by_cases hc : c' = c
  · subst hc
    obtain rfl := hmerged rfl
    refine ⟨hscheduled.generator ▸ h.fits, hscheduled.generator ▸ h.length, ?_⟩
    rw [hscheduled.generator]
    exact hscheduled.since _ (by simpa using htime) h.since
  · exact h.congr hscheduled.generator (hscheduled.others c (Ne.symm hc))

theorem ignoreEvent_frame (S : EventEngine C δ) (id : ℕ) :
    (S.ignoreEvent id).pEventGenerator = S.pEventGenerator ∧
      (S.ignoreEvent id).delayedEvents = S.delayedEvents := by
  unfold ignoreEvent
  dsimp only
  split <;> exact ⟨rfl, rfl⟩

theorem ignoreNote_frame (S : EventEngine C δ) (id : ℕ) :
    (S.ignoreNote id).pEventGenerator = S.pEventGenerator ∧
      (S.ignoreNote id).delayedEvents = S.delayedEvents := by
  unfold ignoreNote
  dsimp only
  split
  · exact ⟨rfl, rfl⟩
  · split
    · exact ⟨rfl, rfl⟩
    · split <;> exact ⟨rfl, rfl⟩

theorem Timely.step (h : S.Timely c merged) (hS : Inv z S lists) (htime : a.OnTime S)
    (hlength : ∀ G, a = .nextFragment G → G.uiSamplesProcessed ≤ 2 ^ 31)
    (hmerges : MergesEach c merged (a :: actions)) (hstep : a.step parentNoteID S = some S') :
    ∃ merged', S'.Timely c merged' ∧ MergesEach c merged' actions := by
  cases a with
  | scheduleEvent c' pEvent delay =>
      obtain ⟨S₁, id, -, hrun, -, -, hscheduled⟩ := hS.scheduleEventMicroSec c' pEvent delay
      obtain rfl : S₁ = S' := by simpa [EngineAction.step, hrun] using hstep
      exact ⟨merged, h.schedule hscheduled htime hmerges.1, hmerges.2⟩
  | scheduleNote c' pEvent delay childNoteID =>
      obtain ⟨S₁, id, -, hrun, -, hscheduled⟩ :=
        hS.scheduleNoteMicroSec parentNoteID c' pEvent delay childNoteID
      obtain rfl : S₁ = S' := by simpa [EngineAction.step, hrun] using hstep
      exact ⟨merged, h.schedule hscheduled htime hmerges.1, hmerges.2⟩
  | insertDueEvents c' =>
      obtain ⟨S₁, -, hrun, -, hgenerator, hsince, hothers⟩ := hS.insertDueEvents c'
      obtain rfl : S₁ = S' := Option.some.inj (hrun.symm.trans hstep)
      refine ⟨merged || c' = c, ?_, hmerges⟩
      by_cases hc : c' = c
      · subst hc
        rw [EventGenerator.schedTimeAtCurrentFragmentEnd, Nat.mod_eq_of_lt h.fits] at hsince
        refine ⟨hgenerator ▸ h.fits, by simp, ?_⟩
        simpa [hgenerator] using hsince
      · simpa [hc] using h.congr hgenerator (hothers c (Ne.symm hc))
  | clearDelayed c' =>
      obtain ⟨S₁, -, hrun, -, hcleared⟩ := hS.clearDelayed c'
      obtain rfl : S₁ = S' := Option.some.inj (hrun.symm.trans hstep)
      refine ⟨merged, ?_, hmerges⟩
      by_cases hc : c' = c
      · subst hc
        refine ⟨(hcleared 0).generator ▸ h.fits, (hcleared 0).generator ▸ h.length, ?_⟩
        rw [(hcleared 0).generator]
        exact (hcleared _).since _ le_rfl h.since
      · exact h.congr (hcleared 0).generator ((hcleared 0).others c (Ne.symm hc))
  | nextFragment G =>
      cases hstep
      obtain ⟨rfl, hmerges⟩ := hmerges
      refine ⟨false, ⟨htime.2, fun _ => hlength G rfl, ?_⟩, hmerges⟩
      have hsince := h.since
      rw [if_pos rfl, ← htime.1] at hsince
      exact hsince
  | ignoreEvent id =>
      cases hstep
      obtain ⟨hgenerator, hdelayed⟩ := S.ignoreEvent_frame id
      exact ⟨merged, h.congr hgenerator (congrFun hdelayed c), hmerges⟩
  | ignoreNote id =>
      cases hstep
      obtain ⟨hgenerator, hdelayed⟩ := S.ignoreNote_frame id
      exact ⟨merged, h.congr hgenerator (congrFun hdelayed c), hmerges⟩
  | ignoreEventByScriptID id =>
      cases hstep
      refine ⟨merged, ?_, hmerges⟩
      unfold ignoreEventByScriptID
      split
      · obtain ⟨hgenerator, hdelayed⟩ := S.ignoreNote_frame (id % 2 ^ 63)
        exact h.congr hgenerator (congrFun hdelayed c)
      · obtain ⟨hgenerator, hdelayed⟩ := S.ignoreEvent_frame id
        exact h.congr hgenerator (congrFun hdelayed c)
  | alloc list e =>
      refine ⟨merged, ?_, hmerges⟩
      cases hindex : (S.pEventPool.allocAppend list).2.index <;>
      · simp only [EngineAction.step, hindex, Option.elim_none, Option.elim_some,
          Option.some.injEq] at hstep
        subst hstep
        exact h.congr rfl rfl
  | clearList list =>
      obtain ⟨P, -, rfl⟩ := Option.map_eq_some_iff.mp hstep
      exact ⟨merged, h.congr rfl rfl, hmerges⟩
  | launchNewNote c' n childNoteID =>
      cases hstep
      obtain ⟨hgenerator, hdelayed⟩ := S.launchNewNote_frame parentNoteID c' n childNoteID
      exact ⟨merged, h.congr hgenerator (congrFun hdelayed c), hmerges⟩
  | free _ | moveToEndOf _ _ | writeEvent _ _ | writeVoices _ _ | freeNote _ =>
      cases hstep
      exact ⟨merged, h.congr rfl rfl, hmerges⟩

theorem Timely.run (h : S.Timely c merged) (hS : Inv z S lists)
    (hspares : RunOk parentNoteID EngineAction.Spares actions S)
    (htime : RunOk parentNoteID EngineAction.OnTime actions S)
    (hlength : ∀ G, .nextFragment G ∈ actions → G.uiSamplesProcessed ≤ 2 ^ 31)
    (hmerges : MergesEach c merged actions)
    (hrun : EventEngine.run parentNoteID actions S = some S') :
    ∃ merged', S'.Timely c merged' := by
  induction actions generalizing S lists merged with
  | nil =>
      cases hrun
      exact ⟨merged, h⟩
  | cons a actions ih =>
      obtain ⟨hvalid, hspared, hspares⟩ := hspares
      obtain ⟨-, honTime, htime⟩ := htime
      obtain ⟨S₁, lists₁, hstep, hS₁⟩ := hS.step hvalid hspared
      obtain ⟨merged₁, h₁, hmerges₁⟩ := h.step hS honTime
        (fun G hG => hlength G (hG ▸ List.mem_cons_self)) hmerges hstep
      rw [EventEngine.run, List.foldlM_cons, hstep] at hrun
      exact ih h₁ hS₁ (hspares S₁ hstep) (htime S₁ hstep)
        (fun G hG => hlength G (List.mem_cons_of_mem _ hG)) hmerges₁ hrun

theorem Created.timely (h : S.Created z) (hfits : S.pEventGenerator.uiTotalSamplesProcessed +
    S.pEventGenerator.uiSamplesProcessed < 2 ^ 64) : S.Timely c true where
  fits := hfits
  length := by simp
  since m hm := by
    have htree := (h.queue c).tree rfl m
    simp [htree] at hm

/-- Over runs in which no waiting event is dropped: the merge is stable where no offset wraps
around past that of a later event. If the channel is merged in each fragment and no fragment is
longer than `2 ^ 31` sample points, none does. -/
theorem mergesStably_run {S₀ : EventEngine C δ} (h₀ : S₀.Created z)
    (hok : RunOk parentNoteID EngineAction.Spares actions S₀) :
    ∃ S, EventEngine.run parentNoteID actions S₀ = some S ∧ ∀ c, S.Sorted c →
      (S.MergesStably c ↔ S.DueInOrder c) ∧
      (S₀.pEventGenerator.uiTotalSamplesProcessed + S₀.pEventGenerator.uiSamplesProcessed <
          2 ^ 64 → RunOk parentNoteID EngineAction.OnTime actions S₀ →
        (∀ G, .nextFragment G ∈ actions → G.uiSamplesProcessed ≤ 2 ^ 31) →
          MergesEach c true actions → S.MergesStably c) := by
  obtain ⟨S, lists, hrun, h⟩ := h₀.inv.run hok
  refine ⟨S, hrun,
    fun c hformer => ⟨h.mergesStably_iff hformer, fun hfits htime hlength hmerges => ?_⟩⟩
  obtain ⟨merged, htimely⟩ := (h₀.timely hfits).run h₀.inv hok htime hlength hmerges hrun
  exact h.mergesStably hformer htimely.dueInOrder

/-! ## Engines to run -/

/-- Of two events scheduled in a fragment, the second is 3 sample points later, as is one that
was sent for that time. -/
def tiedEvents : List (EngineAction Unit ℕ) :=
  [.nextFragment ⟨id, id, 64, 64⟩, .alloc (.events ()) { middleC with iFragmentPos := 3 },
    .scheduleEvent () middleC 0, .scheduleEvent () middleC 3]

theorem mergesStably_run_tiedEvents : ∃ S, EventEngine.run id tiedEvents freshEngine = some S ∧
    (S.MergesStably () ↔ S.DueInOrder ()) ∧ S.MergesStably () := by
  have hok : RunOk id EngineAction.Spares tiedEvents freshEngine := by decide +kernel
  have hall : ∀ S ∈ EventEngine.run id tiedEvents freshEngine,
      (S.fragmentEvents ()).Pairwise fun i j => S.pos i ≤ S.pos j := by decide +kernel
  obtain ⟨S, hrun, h⟩ := mergesStably_run freshEngine_created hok
  obtain ⟨hiff, hstable⟩ := h () (hall S hrun)
  refine ⟨S, hrun, hiff, hstable (by decide) (by decide +kernel) ?_ ?_⟩
  · simp [tiedEvents]
  · simp [tiedEvents, MergesEach]

/-- The fragment has `2 ^ 32 - 1` sample points, and the offset of the second event wraps
around. -/
def longFragment : List (EngineAction Unit ℕ) :=
  [.nextFragment ⟨id, id, 2 ^ 32 - 1, 64⟩,
    .scheduleEvent () { middleC with iFragmentPos := 5 } 0,
    .scheduleEvent () { middleC with iFragmentPos := 2 ^ 31 - 1 } 100]

theorem not_mergesStably_longFragment : ¬ ∀ actions : List (EngineAction Unit ℕ),
    RunOk id EngineAction.Spares actions freshEngine →
    RunOk id EngineAction.OnTime actions freshEngine → MergesEach () true actions →
      ∀ S ∈ EventEngine.run id actions freshEngine, S.Sorted () → S.MergesStably () := by
  intro hall
  have hok : RunOk id EngineAction.Spares longFragment freshEngine := by decide +kernel
  obtain ⟨S, lists, hrun, h⟩ := freshEngine_created.inv.run hok
  have hstate : ∀ S ∈ EventEngine.run id longFragment freshEngine,
      ((S.fragmentEvents ()).Pairwise fun i j => S.pos i ≤ S.pos j) ∧
      (S.delayedEvents ()).queue.tree 2 = true ∧ (S.delayedEvents ()).queue.tree 1 = true ∧
      (S.delayedEvents ()).scheduleTime 2 ≤ (S.delayedEvents ()).scheduleTime 1 ∧
      (S.delayedEvents ()).scheduleTime 1 <
        S.pEventGenerator.schedTimeAtCurrentFragmentEnd ∧
      S.pEventGenerator.offset32 ((S.delayedEvents ()).scheduleTime 2) = 5 ∧
      S.pEventGenerator.offset32 ((S.delayedEvents ()).scheduleTime 1) = 99 - 2 ^ 31 ∧
      S.pEventGenerator.uiSamplesProcessed = 2 ^ 32 - 1 := by decide +kernel
  obtain ⟨hsorted, hfirst, hsecond, hle, htime, hpos, hpos', hN⟩ := hstate S hrun
  have hstable := hall longFragment hok (by decide +kernel) (by simp [longFragment, MergesEach]) S
    hrun hsorted
  obtain ⟨-, hwraps⟩ := h.dueInOrder hstable 2 1 hfirst hsecond hle htime
  omega

end EventEngine

end Fragments

end LinuxSampler
