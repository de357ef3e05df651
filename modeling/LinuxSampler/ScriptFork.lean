import LinuxSampler.PoolUse
import LinuxSampler.ScriptQueue
import Mathlib.Data.List.TakeWhile

/-!
# fork()

`fork()` creates the children that its argument asks for, or none if the
limit of the event handler or of the pool does not allow them all. A child
enters `fork()` once more and gets its number.

`ScriptChannel.fork` is what it does to the channel. Here it is stated
with its result and the widths of its integers.
-/

namespace LinuxSampler

variable {L : ScriptLang}

/-- The result of `fork()`; an error terminates the script. -/
inductive ForkResult where
  | success (value : ℤ)
  | error
deriving DecidableEq

/-- A sum of type `vmint`. Signed overflow is left to the compiler, which wraps around. -/
def vmint (z : ℤ) : ℤ := z.bmod (2 ^ 64)

/-- The list of children ends inside its array. An event that was never used has no handlers. -/
def ScriptEvent.Listed {Cause : Type} (e : ScriptEvent L Cause) : Prop :=
  e.handlers ≠ [] →
    e.countChildHandlers ≤ maxForkPerScriptHandler ∧ ∀ id ∈ e.childHandlerID, id ≠ 0

namespace ScriptChannel

/-- The loop of `fork()`. -/
def execForkLoop (parent : ℕ) (execCtx : ExecContext L) (autoAbort : Bool) (now : ℕ) :
    ScriptChannel L → List ℕ → Option (ScriptChannel L × ForkResult)
  | S, [] => some (S, .success 0)
  | S, iChild :: rest => do
      let (S, itChild) ← S.forkScriptCallback parent execCtx autoAbort now
      match itChild.index with
      | none => some (S, .error)
      | some child =>
          execForkLoop parent execCtx autoAbort now
            (S.modify child fun e => { e with forkIndex := iChild + 1 }) rest

/-- `InstrumentScriptVMFunction_fork::exec()` -/
def execFork (S : ScriptChannel L) (n : ℕ) (execCtx : ExecContext L) (count : ℤ)
    (autoAbort : Bool) (now : ℕ) : Option (ScriptChannel L × ForkResult) :=
  if (S.event n).forkIndex ≠ 0 then
    some (S.modify n fun e => { e with forkIndex := 0 }, .success (S.event n).forkIndex)
  else if vmint ((S.event n).countChildHandlers + count) > maxForkPerScriptHandler then
    some (S, .success (-1))
  else if ¬ S.hasFreeScriptCallbacks count then some (S, .success (-1))
  else execForkLoop n execCtx autoAbort now S (List.range count.toNat)

variable {S S' : ScriptChannel L} {n : ℕ} {execCtx : ExecContext L} {count : ℤ}
  {autoAbort : Bool} {now : ℕ}

theorem execForkLoop_fst (children : List ℕ) :
    (execForkLoop n execCtx autoAbort now S children).map Prod.fst =
      forkLoop n execCtx autoAbort now S children := by
  induction children generalizing S with
  | nil => rfl
  | cons iChild children ih =>
      rw [execForkLoop, forkLoop]
      cases S.forkScriptCallback n execCtx autoAbort now with
      | none => rfl
      | some result =>
          obtain ⟨S₁, it⟩ := result
          simp only [Option.bind_eq_bind, Option.bind_some]
          cases it.index with
          | none => rfl
          | some child => exact ih

/-- The sum overflows only for an argument that no pool has elements for. -/
theorem vmint_sum_le_iff {c : ℕ} (hc : c ≤ maxForkPerScriptHandler) (hmin : -2 ^ 63 ≤ count)
    (hmax : count < 2 ^ 63) :
    vmint (c + count) ≤ maxForkPerScriptHandler ↔
      c + count ≤ maxForkPerScriptHandler ∨ 2 ^ 63 ≤ c + count := by
  have hc' : (c : ℤ) ≤ 8 := by exact_mod_cast hc
  have hm : (maxForkPerScriptHandler : ℤ) = 8 := rfl
  unfold vmint
  rw [hm]
  by_cases hover : (2 : ℤ) ^ 63 ≤ c + count
  · have hwrap : Int.bmod (c + count) (2 ^ 64) = c + count - 2 ^ 64 := by
      rw [Int.bmod_def]
      omega
    rw [hwrap]
    omega
  · have hsame : Int.bmod (c + count) (2 ^ 64) = c + count := by
      rw [Int.bmod_def]
      omega
    rw [hsame]
    omega

/-- Whether `fork()` returns `-1`. -/
def Exceeds (S : ScriptChannel L) (n : ℕ) (count : ℤ) : Prop :=
  (S.event n).countChildHandlers + count > maxForkPerScriptHandler ∨
    count > (S.pEvents.elements .freelist).length

instance (S : ScriptChannel L) (n : ℕ) (count : ℤ) : Decidable (S.Exceeds n count) :=
  inferInstanceAs (Decidable (_ ∨ _))

theorem execFork_eq (execCtx : ExecContext L) (autoAbort : Bool) (now : ℕ)
    (hindex : (S.event n).forkIndex = 0)
    (hlength : (S.event n).countChildHandlers ≤ maxForkPerScriptHandler)
    (hsize : (S.pEvents.elements .freelist).length < 2 ^ 62) (hmin : -2 ^ 63 ≤ count)
    (hmax : count < 2 ^ 63) :
    S.execFork n execCtx count autoAbort now =
      if S.Exceeds n count then some (S, .success (-1))
      else execForkLoop n execCtx autoAbort now S (List.range count.toNat) := by
  have hsum := vmint_sum_le_iff hlength hmin hmax
  have hm : (maxForkPerScriptHandler : ℤ) = 8 := rfl
  unfold execFork hasFreeScriptCallbacks
  rw [if_neg (not_not.mpr hindex)]
  split
  · next hover =>
    rw [if_pos]
    rw [gt_iff_lt, ← not_le, hsum] at hover
    exact .inl (not_le.mp fun h => hover (.inl h))
  · next hfits =>
    rw [gt_iff_lt, not_lt, hsum] at hfits
    split
    · next hfree =>
      rw [if_pos]
      exact .inr (by simpa using hfree)
    · next hfree =>
      rw [decide_eq_true_eq, not_not] at hfree
      rw [if_neg]
      rintro (h | h)
      · rcases hfits with hfits | hfits
        · omega
        · have hlength' : ((S.event n).countChildHandlers : ℤ) ≤ 8 := by exact_mod_cast hlength
          omega
      · omega

/-! ## The children -/

/-- The children `cs` that the event `n` has forked, with the numbers from `k + 1` on. Each one
is taken from the pool, scheduled once, and listed with the ID that leads to it. -/
structure Forked (k : ℕ) (S S' : ScriptChannel L) (n : ℕ) (execCtx : ExecContext L)
    (autoAbort : Bool) (now : ℕ) (cs : List ℕ) : Prop where
  freelist : S.pEvents.elements .freelist = S'.pEvents.elements .freelist ++ cs.reverse
  events : S'.pEvents.elements (.rtlist .events) = S.pEvents.elements (.rtlist .events) ++ cs
  keys : ∀ key, S'.keyEvents key = S.keyEvents key
  queue : ∃ pending t t', RTAVLTree.Holds S.scheduleTime true S.suspendedEvents t pending ∧
    RTAVLTree.Holds S'.scheduleTime true S'.suspendedEvents t' (pending ++ cs)
  parent : S'.event n =
    { S.event n with
      childHandlerID := (S.event n).childHandlerID ++ cs.map fun c : ℕ => S.pEvents.getID c }
  child : ∀ (i : ℕ) (hi : i < cs.length), S'.event cs[i] =
    { ({ S.event n with execCtx := execCtx }.forkTo (S.event cs[i]) autoAbort) with
      parentHandlerID := S.pEvents.getID n
      scheduleTime := now
      forkIndex := k + i + 1 }
  other : ∀ m, m ≠ n → m ∉ cs → S'.event m = S.event m
  getID : ∀ i : ℕ, S'.pEvents.getID i = S.pEvents.getID i
  control : S'.control = S.control

variable {script : InstrumentScript L} {size reserved : ℕ} {strict : Prop}
  {lists : Lists EventList} {pending : List ℕ}

theorem Forked.nil (k : ℕ) (h : InUse script size strict S lists pending n) :
    Forked k S S n execCtx autoAbort now [] where
  freelist := by simp
  events := by simp
  keys _ := rfl
  queue := by
    obtain ⟨t, hT⟩ := h.data.queue
    exact ⟨pending, t, t, hT, by simpa using hT⟩
  parent := by simp
  child i hi := absurd hi (by simp)
  other _ _ _ := rfl
  getID _ := rfl
  control := rfl

/-- No ID is zero, so that the list does not end before. -/
theorem addChildHandlerID_eq {e : ScriptEvent L (Fin 128)} {id : ℕ}
    (hlength : e.countChildHandlers < maxForkPerScriptHandler)
    (hids : ∀ id ∈ e.childHandlerID, id ≠ 0) (hid : id ≠ 0) :
    e.addChildHandlerID id = { e with childHandlerID := e.childHandlerID ++ [id] } := by
  unfold ScriptEvent.addChildHandlerID
  rw [if_neg (by omega), List.takeWhile_eq_self_iff.mpr]
  intro id' hid'
  rcases List.mem_append.mp hid' with hid' | hid'
  · simpa using hids id' hid'
  · rw [List.mem_singleton.mp hid']
    simpa using hid

/-- One child, and the children that are forked after it. -/
theorem Forked.cons {S₁ : ScriptChannel L} {lists₁ lists' : Lists EventList} {k c : ℕ} {cs : List ℕ}
    (h : InUse script size strict S lists pending n)
    (hindex : (S.pEvents.allocAppend .events).2.index = some c)
    (hforked : ForkedChild S S₁ n c execCtx autoAbort now)
    (hin : InUse script size strict S₁ lists₁ (pending ++ [c]) n)
    (hcontrol : S₁.control = S.control)
    (hparent : S₁.event n =
      { S.event n with childHandlerID := (S.event n).childHandlerID ++ [S.pEvents.getID c] })
    (hrest : Forked (k + 1) (S₁.modify c fun e => { e with forkIndex := k + 1 }) S' n execCtx
      autoAbort now cs)
    (hin' : InUse script size strict S' lists' (pending ++ c :: cs) n) :
    Forked k S S' n execCtx autoAbort now (c :: cs) := by
  set S₂ := S₁.modify c fun e => { e with forkIndex := k + 1 } with hS₂
  have hpool₁ := hin.data.pool
  have hgetID (i : ℕ) : S₁.pEvents.getID i = S.pEvents.getID i := by
    rw [hforked.pool, Pool.getID_allocAppend]
  obtain ⟨hfree₁, hevents₁, hkeys₁⟩ :=
    h.data.pool.lists_allocAppend (hforked.pool ▸ hpool₁) hindex
  have hfree := hrest.freelist
  have hevents := hrest.events
  have hE : S₂.pEvents.elements = lists₁ := hpool₁.elements_eq
  rw [hE] at hfree hevents
  -- the children after it are other elements of the free list
  have hspare : ∀ m ∈ cs, m ∈ lists₁ .freelist := by
    intro m hm
    rw [hfree]
    exact List.mem_append_right _ (List.mem_reverse.mpr hm)
  have hc : c ∉ cs := by
    intro hm
    have hmem : c ∈ lists₁ (.rtlist .events) := by
      rw [hevents₁]
      exact List.mem_append_right _ List.mem_cons_self
    exact hpool₁.linked.notMem_of_freelist (hspare c hm) hmem
  have hn : n ∉ cs := by
    intro hm
    obtain ⟨list, hlist⟩ := hin.list
    exact hpool₁.linked.notMem_of_freelist (hspare n hm) hlist
  have hparent₂ : S₂.event n = S₁.event n := Data.modify_of_ne _ hforked.ne.symm _
  have hself₂ : S₂.event c = { S₁.event c with forkIndex := k + 1 } := Data.modify_self ..
  have hother₂ {m : ℕ} (hmn : m ≠ n) (hmc : m ≠ c) : S₂.event m = S.event m := by
    rw [hS₂, Data.modify_of_ne _ hmc, hforked.other m hmn hmc]
  refine ⟨?_, ?_, fun key => ?_, ?_, ?_, fun i hi => ?_, fun m hmn hmcs => ?_, fun i => ?_,
    hrest.control.trans hcontrol⟩
  · rw [h.data.pool.elements_eq, hfree₁, hfree, List.reverse_cons, List.append_assoc]
  · rw [h.data.pool.elements_eq, hevents, hevents₁, List.append_assoc, List.singleton_append]
  · rw [hrest.keys, keyEvents, hE, hkeys₁ _ (by simp), h.data.keyEvents_eq]
  · obtain ⟨t, hT⟩ := h.data.queue
    obtain ⟨t', hT'⟩ := hin'.data.queue
    exact ⟨pending, t, t', hT, hT'⟩
  · have hmap : (cs.map fun m : ℕ => S₂.pEvents.getID m) =
        cs.map fun m : ℕ => S.pEvents.getID m :=
      List.map_congr_left fun m _ => hgetID m
    rw [hrest.parent, hparent₂, hparent, hmap]
    simp only [List.append_assoc, List.singleton_append, List.map_cons]
  · cases i with
    | zero =>
        rw [List.getElem_cons_zero, hrest.other c hforked.ne hc, hself₂, hforked.child, hgetID]
    | succ i =>
        have hi : i < cs.length := by simpa using hi
        have hmem : cs[i] ∈ cs := List.getElem_mem hi
        have hne : cs[i] ≠ n := fun he => hn (he ▸ hmem)
        have hnc : cs[i] ≠ c := fun he => hc (he ▸ hmem)
        rw [List.getElem_cons_succ, hrest.child i hi, hparent₂, hparent, hother₂ hne hnc]
        have hgetID₂ : S₂.pEvents.getID n = S.pEvents.getID n := hgetID n
        rw [hgetID₂, show k + 1 + i + 1 = k + (i + 1) + 1 by omega]
        rfl
  · rw [List.mem_cons, not_or] at hmcs
    rw [hrest.other m hmn hmcs.2, hother₂ hmn hmcs.1]
  · rw [hrest.getID]
    exact hgetID i

/-- The event that is executed can fork the children that the limits leave room for. -/
theorem InUse.execForkLoop {K : List (Frame L)} (hctx : execCtx.Sound script.handlers K)
    (hsize : size < 2 ^ 31) (m k : ℕ) (h : InUse script size strict S lists pending n)
    (hsized : Pool.Sized size reserved S.pEvents)
    (hids : ∀ id ∈ (S.event n).childHandlerID, id ≠ 0)
    (hlength : (S.event n).countChildHandlers + m ≤ maxForkPerScriptHandler)
    (hfree : m ≤ (lists .freelist).length) :
    ∃ S' cs lists', execForkLoop n execCtx autoAbort now S (List.range' k m) =
        some (S', .success 0) ∧ cs.length = m ∧ Forked k S S' n execCtx autoAbort now cs ∧
      InUse script size strict S' lists' (pending ++ cs) n ∧
      Pool.Sized size reserved S'.pEvents := by
  induction m generalizing S lists pending k with
  | zero => exact ⟨S, [], lists, rfl, rfl, .nil k h, by rwa [List.append_nil], hsized⟩
  | succ m ih =>
      rcases h.forkScriptCallback hctx autoAbort now with ⟨it, -, -, hfull | hindex⟩ |
        ⟨c, S₁, lists₁, hrun, hindex, hforked, hin, hcontrol, hunused, -, -, hkeys⟩
      · omega
      · have hempty := h.data.pool.linked.poolIsEmpty_iff.mp
          ((h.data.pool.index_allocAppend .events).mp hindex)
        rw [hempty] at hfree
        simp at hfree
      · have hpool := hin.data.pool
        rw [hforked.pool] at hpool
        obtain ⟨hfree₁, -, -⟩ := h.data.pool.lists_allocAppend hpool hindex
        have hc : c < size := (h.data.pool.cover c).mpr ⟨.freelist, by simp [hfree₁]⟩
        have hparent := hforked.parent
        have hgetID : S₁.pEvents.getID c = S.pEvents.getID c := by
          rw [hforked.pool, Pool.getID_allocAppend]
        have hid := Pool.InUse.getID_ne_zero ⟨h.data.pool, hsized⟩ hsize hc
        rw [hgetID, addChildHandlerID_eq (by omega) hids hid] at hparent
        have h₂ := hin.modify_same (m := c) (f := fun e => { e with forkIndex := k + 1 })
          rfl rfl rfl rfl
        set S₂ := S₁.modify c fun e => { e with forkIndex := k + 1 } with hS₂
        have hparent₂ : S₂.event n = S₁.event n := Data.modify_of_ne _ hforked.ne.symm _
        obtain ⟨S', cs, lists', hloop, hcs, hforked', hin', hsized'⟩ := ih (k + 1) h₂
          (by rw [show S₂.pEvents = S₁.pEvents from rfl, hforked.pool]; exact hsized.allocAppend _)
          (by
            rw [hparent₂, hparent]
            intro id hid'
            rcases List.mem_append.mp hid' with hid' | hid'
            · exact hids id hid'
            · rwa [List.mem_singleton.mp hid'])
          (by
            rw [hparent₂, hparent]
            unfold ScriptEvent.countChildHandlers at hlength ⊢
            simp only [List.length_append, List.length_singleton]
            omega)
          (by
            rw [hfree₁, List.length_append, List.length_singleton] at hfree
            omega)
        rw [List.append_assoc, List.singleton_append] at hin'
        refine ⟨S', c :: cs, lists', ?_, by simp [hcs],
          .cons h hindex hforked hin hcontrol hparent hforked' hin', hin', hsized'⟩
        rw [List.range'_succ, ScriptChannel.execForkLoop, hrun]
        simp only [Option.bind_eq_bind, Option.bind_some, hindex]
        exact hloop

/-! ## One call -/

/-- The IDs of the pool and the lists of children. -/
structure Numbered (size reserved : ℕ) (S : ScriptChannel L) : Prop where
  sized : Pool.Sized size reserved S.pEvents
  listed : ∀ m, (S.event m).Listed

theorem InUse.listed (h : InUse script size strict S lists pending n)
    (hS : Numbered size reserved S) :
    (S.event n).countChildHandlers ≤ maxForkPerScriptHandler ∧
      ∀ id ∈ (S.event n).childHandlerID, id ≠ 0 := by
  refine hS.listed n fun hnil => h.handler ?_
  rw [ScriptEvent.handler, hnil]
  rfl

theorem exceeds_iff (h : InUse script size strict S lists pending n) :
    ¬ S.Exceeds n count ↔
      (S.event n).countChildHandlers + count ≤ maxForkPerScriptHandler ∧
        count ≤ (lists .freelist).length := by
  rw [Exceeds, h.data.pool.elements_eq, not_or, gt_iff_lt, not_lt, gt_iff_lt, not_lt]

/-- All children are created unless a limit is exceeded. -/
theorem InUse.forkAll {K : List (Frame L)} (autoAbort : Bool) (now : ℕ)
    (hctx : execCtx.Sound script.handlers K) (hsize : size < 2 ^ 31)
      (h : InUse script size strict S lists pending n)
    (hS : Numbered size reserved S) (hfits : ¬ S.Exceeds n count) :
    ∃ S' cs lists', ScriptChannel.execForkLoop n execCtx autoAbort now S
        (List.range count.toNat) = some (S', .success 0) ∧ cs.length = count.toNat ∧
      Forked 0 S S' n execCtx autoAbort now cs ∧
      InUse script size strict S' lists' (pending ++ cs) n ∧
      Pool.Sized size reserved S'.pEvents := by
  obtain ⟨hlength, hfree⟩ := (exceeds_iff h).mp hfits
  obtain ⟨hcount, hids⟩ := h.listed hS
  rw [List.range_eq_range']
  exact h.execForkLoop hctx hsize count.toNat 0 hS.sized hids (by omega) (by omega)

/-- The parent and its children have the IDs that lead to them. -/
theorem Forked.fromID {cs : List ℕ} {lists' : Lists EventList} {pending' : List ℕ}
    (h : InUse script size strict S' lists' pending' n) (hsize : size < 2 ^ 31)
    (hsized : Pool.Sized size reserved S'.pEvents)
    (hforked : Forked 0 S S' n execCtx autoAbort now cs) {m : ℕ} (hm : m ∈ n :: cs) :
    (S'.pEvents.fromID (S'.pEvents.getID m)).index = some m := by
  refine Pool.InUse.fromID_getID ⟨h.data.pool, hsized⟩ hsize ?_
  rcases List.mem_cons.mp hm with rfl | hm
  · obtain ⟨list, hlist⟩ := h.list
    exact (h.data.pool.cover m).mpr ⟨_, hlist⟩
  · have hmem : m ∈ S'.pEvents.elements (.rtlist .events) := by
      rw [hforked.events]
      exact List.mem_append_right _ hm
    rw [h.data.pool.elements_eq] at hmem
    exact (h.data.pool.cover m).mpr ⟨_, hmem⟩

/-- What the call leaves alone. -/
theorem Forked.frame {T : Set ℕ} {cs : List ℕ} (h : InUse script size strict S lists pending n)
    (hsize : size < 2 ^ 31) (hS : Numbered size reserved S)
    (hsized : Pool.Sized size reserved S'.pEvents)
    (hlength : (S.event n).countChildHandlers + cs.length ≤ maxForkPerScriptHandler)
    (hforked : Forked 0 S S' n execCtx autoAbort now cs) (hT : ∀ m ∈ cs, m ∈ T) :
    Numbered size reserved S' ∧ ∀ m ∉ T, (S'.event m).forkIndex = (S.event m).forkIndex := by
  have hfree : ∀ m ∈ cs, m < size := by
    intro m hm
    have hmem : m ∈ S.pEvents.elements .freelist := by
      rw [hforked.freelist]
      exact List.mem_append_right _ (List.mem_reverse.mpr hm)
    rw [h.data.pool.elements_eq] at hmem
    exact (h.data.pool.cover m).mpr ⟨_, hmem⟩
  refine ⟨⟨hsized, fun m => ?_⟩, fun m hm => ?_⟩
  · by_cases hmcs : m ∈ cs
    · obtain ⟨i, hi, rfl⟩ := List.getElem_of_mem hmcs
      rw [hforked.child i hi]
      exact fun _ => ⟨Nat.zero_le _, fun _ hid => nomatch hid⟩
    · by_cases hmn : m = n
      · subst hmn
        rw [hforked.parent]
        intro _
        refine ⟨?_, fun id hid => ?_⟩
        · unfold ScriptEvent.countChildHandlers at hlength ⊢
          simpa using hlength
        · rcases List.mem_append.mp hid with hid | hid
          · exact (h.listed hS).2 id hid
          · obtain ⟨c, hc, rfl⟩ := List.mem_map.mp hid
            exact Pool.InUse.getID_ne_zero ⟨h.data.pool, hS.sized⟩ hsize (hfree c hc)
      · rw [hforked.other m hmn hmcs]
        exact hS.listed m
  · have hmcs : m ∉ cs := fun hmem => hm (hT m hmem)
    by_cases hmn : m = n
    · subst hmn
      rw [hforked.parent]
    · rw [hforked.other m hmn hmcs]

end ScriptChannel

end LinuxSampler
