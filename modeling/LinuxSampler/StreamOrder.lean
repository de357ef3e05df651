import LinuxSampler.DiskStream

/-!
# Ordering a disk stream

A voice orders a disk stream and later picks it up from the slot that it was
given for it. The disk threads of all engines of one type count their orders
together, while each one has its own number of slots.
-/

namespace LinuxSampler

/-- An element of `pCreatedStreams`: NULL, `SLOT_RESERVED` or a stream. -/
inductive StreamSlot where
  | null
  | reserved
  | created (stream : ℕ)
deriving DecidableEq

/-- `Stream::reference_t` -/
structure StreamReference where
  orderID : ℕ
  hStream : ℕ
  state : StreamState
  pStream : Option ℕ
deriving DecidableEq

def StreamReference.unused : StreamReference where
  orderID := 0
  hStream := 0
  state := .unused
  pStream := none

structure CreateCommand where
  orderID : ℕ
  hStream : ℕ
  pStreamRef : ℕ
deriving DecidableEq

/-- A disk thread, by what it shares with the voices. The slots are the positions from 1 to
`streams`. -/
structure DiskThread where
  streams : ℕ
  streams_lt : streams < 2 ^ 31
  pCreatedStreams : ℕ → StreamSlot
  creationQueue : List CreateCommand

namespace DiskThread

variable {d d' : DiskThread} {i id : ℕ} {counter counter' : UInt32}

/-- The constructor. -/
def create (maxStreams : Fin (2 ^ 31)) : DiskThread where
  streams := maxStreams
  streams_lt := maxStreams.isLt
  pCreatedStreams := fun _ => .null
  creationQueue := []

def setSlot (i : ℕ) (slot : StreamSlot) (d : DiskThread) : DiskThread :=
  { d with pCreatedStreams := Function.update d.pCreatedStreams i slot }

def creationWriteSpace (d : DiskThread) : ℕ :=
  2 ^ RingBuffer.powerOfTwo (4 * d.streams) 1 - 1 - d.creationQueue.length

def pushCreation (command : CreateCommand) (d : DiskThread) : DiskThread :=
  { d with creationQueue := d.creationQueue ++ [command] }

/-! ## The audio thread -/

/-- The loop of `CreateOrderID()`. `none`: the element is not one of the slots. -/
def createOrderIDFrom (d : DiskThread) : ℕ → UInt32 → Option (UInt32 × DiskThread × ℕ)
  | 0, counter => some (counter, d, 0)
  | i + 1, counter =>
      let counter := if counter.toNat = d.streams then 1 else counter + 1
      if 1 ≤ counter.toNat ∧ counter.toNat ≤ d.streams then
        if d.pCreatedStreams counter.toNat = .null then
          some (counter, d.setSlot counter.toNat .reserved, counter.toNat)
        else d.createOrderIDFrom i counter
      else none

/-- The counter is a static variable. -/
def createOrderID (counter : UInt32) (d : DiskThread) : Option (UInt32 × DiskThread × ℕ) :=
  d.createOrderIDFrom d.streams counter

/-- A stream that was created is handed out once. -/
def askForCreatedStream (streamOrderID : ℕ) (d : DiskThread) : DiskThread × Option ℕ :=
  match d.pCreatedStreams streamOrderID with
  | .created stream => (d.setSlot streamOrderID .null, some stream)
  | _ => (d, none)

/-! ## The disk thread -/

/-- A creation command is performed. `newstream` is the unused stream that was found. -/
def createStream (newstream : Option ℕ) (d : DiskThread) : DiskThread :=
  match d.creationQueue with
  | [] => d
  | command :: commands =>
      let d := { d with creationQueue := commands }
      match newstream with
      | none => d
      | some stream =>
          if d.pCreatedStreams command.orderID ≠ .reserved then d
          else d.setSlot command.orderID (.created stream)

/-- A stream that was not picked up is deleted. -/
def deleteStream (orderID : ℕ) (d : DiskThread) : DiskThread :=
  match d.pCreatedStreams orderID with
  | .created _ => d.setSlot orderID .null
  | _ => d

def reset (d : DiskThread) : DiskThread :=
  { d with
    pCreatedStreams := fun _ => .null
    creationQueue := [] }

/-! ## What an order ID is for -/

/-- A free slot is reserved, and only if there is one. -/
structure Reserves (d d' : DiskThread) (id : ℕ) : Prop where
  slot : id ≠ 0 → 1 ≤ id ∧ id ≤ d.streams ∧ d.pCreatedStreams id = .null ∧
    d' = d.setSlot id .reserved
  exhausted : id = 0 → d' = d ∧ ∀ i, 1 ≤ i → i ≤ d.streams → d.pCreatedStreams i ≠ .null

/-- How many turns of the loop it takes from `c` to `i`. -/
def turnsTo (streams c i : ℕ) : ℕ := if c < i then i - c else i + streams - c

theorem turnsTo_next {streams c c' i : ℕ} (hc : c ≤ streams)
    (hc' : c' = if c = streams then 1 else c + 1) (hpos : 1 ≤ i) (hle : i ≤ streams)
    (hi : i ≠ c') : turnsTo streams c i = turnsTo streams c' i + 1 := by
  by_cases hlast : c = streams
  · rw [if_pos hlast] at hc'
    rw [turnsTo, turnsTo, if_neg (by omega), if_pos (by omega)]
    omega
  · rw [if_neg hlast] at hc'
    rw [turnsTo, turnsTo]
    by_cases hlt : c < i
    · rw [if_pos hlt, if_pos (by omega)]
      omega
    · rw [if_neg hlt, if_neg (by omega)]
      omega

/-- The loop ends with a free slot, or it has seen a slot in each turn. -/
theorem createOrderIDFrom_cases (n : ℕ) (hstreams : d.streams ≠ 0)
    (hcounter : counter.toNat ≤ d.streams) :
    ∃ counter' d' id, d.createOrderIDFrom n counter = some (counter', d', id) ∧
      counter'.toNat ≤ d.streams ∧
      (id ≠ 0 → 1 ≤ id ∧ id ≤ d.streams ∧ d.pCreatedStreams id = .null ∧
        d' = d.setSlot id .reserved) ∧
      (id = 0 → d' = d ∧ ∀ i, 1 ≤ i → i ≤ d.streams → turnsTo d.streams counter.toNat i ≤ n →
        d.pCreatedStreams i ≠ .null) := by
  induction n generalizing counter with
  | zero =>
    refine ⟨counter, d, 0, rfl, hcounter, fun h => absurd rfl h, fun _ => ⟨rfl, ?_⟩⟩
    intro i hpos hle hturns
    rw [turnsTo] at hturns
    split at hturns
    · omega
    · omega
  | succ n ih =>
    have hlt := d.streams_lt
    set next := if counter.toNat = d.streams then 1 else counter + 1 with hnext
    have hvalue : next.toNat = if counter.toNat = d.streams then 1 else counter.toNat + 1 := by
      rw [hnext]
      split
      · rfl
      · rw [UInt32.toNat_add]
        exact Nat.mod_eq_of_lt (by simp; omega)
    have hin : 1 ≤ next.toNat ∧ next.toNat ≤ d.streams := by
      rw [hvalue]
      split
      · omega
      · omega
    rw [createOrderIDFrom, ← hnext, if_pos hin]
    by_cases hnull : d.pCreatedStreams next.toNat = .null
    · rw [if_pos hnull]
      exact ⟨next, _, _, rfl, hin.2, fun _ => ⟨hin.1, hin.2, hnull, rfl⟩, fun h => by omega⟩
    · rw [if_neg hnull]
      obtain ⟨counter', d', id, hrun, hcounter', hslot, hexhausted⟩ := ih hin.2
      refine ⟨counter', d', id, hrun, hcounter', hslot, fun hzero => ?_⟩
      refine ⟨(hexhausted hzero).1, fun i hpos hle hturns => ?_⟩
      by_cases hi : i = next.toNat
      · rwa [hi]
      · refine (hexhausted hzero).2 i hpos hle ?_
        rw [turnsTo_next hcounter hvalue hpos hle hi] at hturns
        exact Nat.le_of_succ_le_succ hturns

/-- A counter from a thread with more streams leaves the slots at once. -/
theorem createOrderIDFrom_eq_none (n : ℕ) (hcounter : d.streams < counter.toNat) :
    d.createOrderIDFrom (n + 1) counter = none := by
  rw [createOrderIDFrom, if_neg (show ¬ counter.toNat = d.streams by omega), if_neg]
  rw [UInt32.toNat_add]
  rintro ⟨hpos, hle⟩
  have hlt := counter.toNat_lt
  simp at hpos hle
  omega

/-- `CreateOrderID()` does what it is for exactly if the counter is in range. -/
theorem reserves_iff (counter : UInt32) (d : DiskThread) :
    (∃ counter' d' id, d.createOrderID counter = some (counter', d', id) ∧ d.Reserves d' id) ↔
      d.streams = 0 ∨ counter.toNat ≤ d.streams := by
  by_cases hstreams : d.streams = 0
  · refine iff_of_true
      ⟨counter, d, 0, ?_, fun h => absurd rfl h, fun _ => ⟨rfl, ?_⟩⟩ (.inl hstreams)
    · rw [createOrderID, hstreams]
      rfl
    · intro i hpos hle
      omega
  · by_cases hcounter : counter.toNat ≤ d.streams
    · obtain ⟨counter', d', id, hrun, -, hslot, hexhausted⟩ :=
        createOrderIDFrom_cases d.streams hstreams hcounter
      refine iff_of_true ⟨counter', d', id, hrun, hslot, fun hzero => ?_⟩ (.inr hcounter)
      refine ⟨(hexhausted hzero).1, fun i hpos hle => (hexhausted hzero).2 i hpos hle ?_⟩
      rw [turnsTo]
      split
      · omega
      · omega
    · refine iff_of_false ?_ (not_or.mpr ⟨hstreams, hcounter⟩)
      rintro ⟨counter', d', id, hrun, -⟩
      obtain ⟨n, hn⟩ := Nat.exists_eq_succ_of_ne_zero hstreams
      rw [createOrderID, hn] at hrun
      rw [createOrderIDFrom_eq_none n (by omega)] at hrun
      cases hrun

/-- The counter stays in the range of the slots. -/
theorem counter_le (hcounter : counter.toNat ≤ d.streams)
    (h : d.createOrderID counter = some (counter', d', id)) : counter'.toNat ≤ d.streams := by
  by_cases hstreams : d.streams = 0
  · rw [createOrderID, hstreams] at h
    cases h
    exact hcounter
  · obtain ⟨c, d₁, j, hrun, hc, -⟩ := createOrderIDFrom_cases d.streams hstreams hcounter
    rw [createOrderID, hrun] at h
    cases h
    exact hc

theorem streams_createOrderIDFrom (n : ℕ)
    (h : d.createOrderIDFrom n counter = some (counter', d', id)) : d'.streams = d.streams := by
  induction n generalizing counter with
  | zero =>
    cases h
    rfl
  | succ n ih =>
    rw [createOrderIDFrom] at h
    generalize (if counter.toNat = d.streams then 1 else counter + 1) = next at h
    split at h
    · split at h
      · cases h
        rfl
      · exact ih h
    · cases h

end DiskThread

/-! ## The disk threads of an engine type -/

/-- The static variables are shared. -/
structure StreamOrders (T : Type) where
  orderCounter : UInt32
  handleCounter : UInt32
  pDiskThread : T → Option DiskThread

/-- What engine `t` does with its disk thread, and what that thread does. -/
inductive StreamAction (T : Type) where
  | connect (t : T) (maxStreams : Fin (2 ^ 31))
  | disconnect (t : T)
  | orderNewStream (t : T) (pStreamRef : ℕ)
  | askForCreatedStream (t : T) (streamOrderID : ℕ)
  | createStream (t : T) (newstream : Option ℕ)
  | deleteStream (t : T) (orderID : ℕ)
  | reset (t : T)

namespace StreamOrders

variable {T : Type} [DecidableEq T] {s s' : StreamOrders T} {t : T} {a : StreamAction T}
  {as : List (StreamAction T)}

variable (T) in
def init : StreamOrders T where
  orderCounter := 0
  handleCounter := 1
  pDiskThread := fun _ => none

def setThread (t : T) (d : Option DiskThread) (s : StreamOrders T) : StreamOrders T :=
  { s with pDiskThread := Function.update s.pDiskThread t d }

def onThread (t : T) (f : DiskThread → DiskThread) (s : StreamOrders T) : StreamOrders T :=
  s.setThread t ((s.pDiskThread t).map f)

/-- The handle 0 is invalid. -/
def createHandle (counter : UInt32) : UInt32 :=
  if counter = 0xffffffff then 1 else counter + 1

/-- The second result is what the reference of the voice becomes; there is none if the order
failed. -/
def orderNewStream (t : T) (pStreamRef : ℕ) (s : StreamOrders T) :
    Option (StreamOrders T × Option StreamReference) :=
  match s.pDiskThread t with
  | none => some (s, none)
  | some d =>
      if d.creationWriteSpace < 1 then some (s, none)
      else do
        let (orderCounter, d, newOrder) ← d.createOrderID s.orderCounter
        let s := { s.setThread t (some d) with orderCounter }
        if newOrder = 0 then return (s, none)
        else
          let hStream := createHandle s.handleCounter
          let command : CreateCommand := ⟨newOrder, hStream.toNat, pStreamRef⟩
          return ({ s.onThread t (·.pushCreation command) with handleCounter := hStream },
            some ⟨newOrder, hStream.toNat, .active, none⟩)

/-- `none`: an element beyond the slots was accessed. -/
def step (s : StreamOrders T) : StreamAction T → Option (StreamOrders T)
  | .connect t maxStreams => some (s.setThread t (some (.create maxStreams)))
  | .disconnect t => some (s.setThread t none)
  | .orderNewStream t pStreamRef => (s.orderNewStream t pStreamRef).map Prod.fst
  | .askForCreatedStream t streamOrderID =>
      some (s.onThread t fun d => (d.askForCreatedStream streamOrderID).1)
  | .createStream t newstream => some (s.onThread t (·.createStream newstream))
  | .deleteStream t orderID => some (s.onThread t (·.deleteStream orderID))
  | .reset t => some (s.onThread t (·.reset))

def run : List (StreamAction T) → StreamOrders T → Option (StreamOrders T)
  | [], s => some s
  | a :: as, s => (s.step a).bind (run as)

/-! ## Runs -/

/-- The last order of all threads was for one of the slots of this one. -/
def InRange (s : StreamOrders T) (t : T) : Prop :=
  ∀ d ∈ s.pDiskThread t, d.streams = 0 ∨ s.orderCounter.toNat ≤ d.streams

/-- An order that is not turned down at once finds the counter in range. -/
def Meets (s : StreamOrders T) : StreamAction T → Prop
  | .orderNewStream t _ => (∃ d ∈ s.pDiskThread t, 1 ≤ d.creationWriteSpace) → s.InRange t
  | _ => True

def AllMeet : List (StreamAction T) → StreamOrders T → Prop
  | [], _ => True
  | a :: as, s => s.Meets a ∧ ∀ s' ∈ s.step a, s'.AllMeet as

theorem Meets.step_isSome (h : s.Meets a) : ∃ s', s.step a = some s' := by
  cases a with
  | orderNewStream t pStreamRef =>
      rw [step, orderNewStream]
      split
      · exact ⟨_, rfl⟩
      · next d hd =>
        split
        · exact ⟨_, rfl⟩
        · next hspace =>
          have hrange := h ⟨d, hd, by omega⟩ d hd
          obtain ⟨counter, d', id, hrun, -⟩ := (DiskThread.reserves_iff s.orderCounter d).mpr hrange
          rw [hrun]
          simp only [Option.bind_eq_bind, Option.bind_some]
          split
          · exact ⟨_, rfl⟩
          · exact ⟨_, rfl⟩
  | connect _ _ | disconnect _ | askForCreatedStream _ _ | createStream _ _ | deleteStream _ _
    | reset _ => exact ⟨_, rfl⟩

/-- In a run whose orders find the counter in range no element beyond the slots is accessed, and
in each of its states an order is for a free slot, if there is one, exactly if the counter is in
range. -/
theorem reserves_run (h : s.AllMeet as) : ∃ s', s.run as = some s' ∧
    ∀ t, (∀ d ∈ s'.pDiskThread t, ∃ counter d' id,
      d.createOrderID s'.orderCounter = some (counter, d', id) ∧ d.Reserves d' id) ↔
        s'.InRange t := by
  induction as generalizing s with
  | nil =>
    exact ⟨s, rfl, fun t => forall₂_congr fun d _ => DiskThread.reserves_iff s.orderCounter d⟩
  | cons a as ih =>
    obtain ⟨s₁, hs₁⟩ := h.1.step_isSome
    rw [run, hs₁]
    exact ih (h.2 s₁ hs₁)

/-! ## One limit for all -/

/-- All disk threads have `n` streams, and the counter is in their range. -/
structure SameLimit (n : ℕ) (s : StreamOrders T) : Prop where
  counter : s.orderCounter.toNat ≤ n
  streams : ∀ t, ∀ d ∈ s.pDiskThread t, d.streams = n

theorem SameLimit.setThread {n : ℕ} (h : s.SameLimit n) {d : Option DiskThread}
    (hd : ∀ d' ∈ d, d'.streams = n) : (s.setThread t d).SameLimit n where
  counter := h.counter
  streams t' d' hd' := by
    change Function.update s.pDiskThread t d t' = some d' at hd'
    by_cases ht : t' = t
    · subst ht
      rw [Function.update_self] at hd'
      exact hd d' hd'
    · rw [Function.update_of_ne ht] at hd'
      exact h.streams t' d' hd'

theorem SameLimit.onThread {n : ℕ} (h : s.SameLimit n) {f : DiskThread → DiskThread}
    (hf : ∀ d, (f d).streams = d.streams) : (s.onThread t f).SameLimit n := by
  refine h.setThread fun d' hd' => ?_
  obtain ⟨d, hd, rfl⟩ := Option.map_eq_some_iff.mp hd'
  exact (hf d).trans (h.streams t d hd)

theorem SameLimit.step {n : ℕ} (h : s.SameLimit n) (ha : ∀ t m, a = .connect t m → m.val = n)
    (hs' : s.step a = some s') : s'.SameLimit n := by
  cases a with
  | connect t m =>
      cases hs'
      refine h.setThread fun d' hd' => ?_
      cases hd'
      exact ha t m rfl
  | disconnect t =>
      cases hs'
      exact h.setThread fun d' hd' => nomatch hd'
  | orderNewStream t pStreamRef =>
      obtain ⟨⟨s₁, ref⟩, hs₁, rfl⟩ := Option.map_eq_some_iff.mp hs'
      rw [orderNewStream] at hs₁
      split at hs₁
      · cases hs₁
        exact h
      · next d hd =>
        split at hs₁
        · cases hs₁
          exact h
        · obtain ⟨⟨counter, d', id⟩, hrun, hs₁⟩ := Option.bind_eq_some_iff.mp hs₁
          have hd' : d'.streams = n :=
            (DiskThread.streams_createOrderIDFrom _ hrun).trans (h.streams t d hd)
          have hcounter : counter.toNat ≤ n := by
            have hle := DiskThread.counter_le (by rw [h.streams t d hd]; exact h.counter) hrun
            rwa [h.streams t d hd] at hle
          have hset : { s.setThread t (some d') with orderCounter := counter }.SameLimit n :=
            ⟨hcounter, (h.setThread fun d₁ hd₁ => Option.some.inj hd₁ ▸ hd').streams⟩
          dsimp only at hs₁
          split at hs₁
          · cases hs₁
            exact hset
          · cases hs₁
            have hpush (command : CreateCommand) :=
              hset.onThread (t := t) (f := (·.pushCreation command)) fun _ => rfl
            exact ⟨hset.counter, (hpush _).streams⟩
  | askForCreatedStream t streamOrderID =>
      cases hs'
      refine h.onThread fun d => ?_
      rw [DiskThread.askForCreatedStream]
      split
      · rfl
      · rfl
  | createStream t newstream =>
      cases hs'
      refine h.onThread fun d => ?_
      rw [DiskThread.createStream]
      split
      · rfl
      · dsimp only
        split
        · rfl
        · split
          · rfl
          · rfl
  | deleteStream t orderID =>
      cases hs'
      refine h.onThread fun d => ?_
      rw [DiskThread.deleteStream]
      split
      · rfl
      · rfl
  | reset t =>
      cases hs'
      exact h.onThread fun _ => rfl

/-- If all disk threads are created with the same number of streams, then all orders find the
counter in range. -/
theorem SameLimit.allMeet {n : ℕ} (h : s.SameLimit n)
    (has : ∀ a ∈ as, ∀ t m, a = .connect t m → m.val = n) : s.AllMeet as := by
  induction as generalizing s with
  | nil => trivial
  | cons a as ih =>
    obtain ⟨ha, has⟩ := List.forall_mem_cons.mp has
    refine ⟨?_, fun s' hs' => ih (h.step ha hs') has⟩
    cases a with
    | orderNewStream t pStreamRef =>
        intro _ d hd
        rw [h.streams t d hd]
        exact .inr h.counter
    | connect _ _ | disconnect _ | askForCreatedStream _ _ | createStream _ _ | deleteStream _ _
      | reset _ => trivial

/-! ## Different limits -/

/-- The threads of two engines have 2 streams and 1 stream. -/
def twoEngines : List (StreamAction Bool) := [.connect true 2, .connect false 1]

theorem reserves_run_oneEngine : ∃ s',
    (init Bool).run [.connect true 2, .orderNewStream true 0, .askForCreatedStream true 1] =
      some s' ∧
    ∀ t, (∀ d ∈ s'.pDiskThread t, ∃ counter d' id,
      d.createOrderID s'.orderCounter = some (counter, d', id) ∧ d.Reserves d' id) ↔
        s'.InRange t := by
  have hinit : (init Bool).SameLimit 2 := ⟨Nat.zero_le 2, fun _ _ hd => nomatch hd⟩
  refine reserves_run (hinit.allMeet fun a ha t m hconnect => ?_)
  subst hconnect
  simp only [List.mem_cons, StreamAction.connect.injEq, List.not_mem_nil, reduceCtorEq,
    or_false] at ha
  rw [ha.2]
  rfl

/-- The two streams of one engine were ordered, and the first order of the other engine is for
a slot that it does not have. -/
theorem not_reserves_twoEngines :
    ((init Bool).run (twoEngines ++ [.orderNewStream true 0, .orderNewStream true 1])).isSome =
      true ∧
    (init Bool).run (twoEngines ++ [.orderNewStream true 0, .orderNewStream true 1,
      .orderNewStream false 2]) = none :=
  ⟨by decide +kernel, Option.isNone_iff_eq_none.mp (by decide +kernel)⟩

end StreamOrders

end LinuxSampler
