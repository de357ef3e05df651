import LinuxSampler.SysexFrame

/-!
# SysEx messages and their events stay in step

The bytes of a message wait in the buffer, while its event goes from the
input queue to the list of the events of the fragment. Only their order and
the size in the event tell which bytes belong to which event.

What is stored in the buffer is what was passed with the events that wait,
one after the other, unless a step drops an event and keeps its bytes, or
the other way round.
-/

namespace LinuxSampler

/-- `write_space_to_end()` -/
def RingBuffer.writeSpaceToEnd {α : Type*} (B : RingBuffer α) : ℤ :=
  let w := B.writePtr
  let r := B.readPtr
  if r > w then r - w - 1
  else if r ≠ 0 then B.size - w
  else B.size - w - 1

namespace Engine

variable {π : Type}

/-! ## SendSysex -/

/-- The loop that copies the data to the buffer: what is left, at `pPos`. -/
def copySysex : ℕ → List UInt8 → RingBuffer UInt8 → Except Abort (RingBuffer UInt8)
  | 0, _, _ => .error .endless
  | fuel + 1, pPos, sysexBuffer =>
      if pPos.length = 0 then .ok sysexBuffer
      else
        let writeNow := (min (pPos.length : ℤ) sysexBuffer.writeSpaceToEnd).toNat
        copySysex fuel (pPos.drop writeNow) (sysexBuffer.write (pPos.take writeNow)).1

/-- The message is lost when the queue or the buffer is full. -/
def sendSysex (timeStamp : ℤ) (pData : List UInt8) (pSender : π) (e : Engine π) :
    Except Abort (Engine π) :=
  let event : Event (EventParam π) :=
    { type := .sysex
      key := 0
      noteID := 0
      param := .sysex pData.length pSender pData
      timeStamp := timeStamp
      iFragmentPos := -1 }
  if e.eventQueue.writeSpace > 0 then
    if e.sysexBuffer.writeSpace ≥ pData.length then do
      let sysexBuffer ← copySysex (pData.length + 1) pData e.sysexBuffer
      return { e with sysexBuffer := sysexBuffer, eventQueue := (e.eventQueue.push event).1 }
    else .ok e
  else .ok e

/-! ## ImportEvents -/

/-- A pointer into the queue is written through. -/
def setQueued (e : Engine π) (index : ℤ) (event : Event (EventParam π)) : Engine π :=
  { e with eventQueue :=
      { e.eventQueue with buf := Function.update e.eventQueue.buf index event } }

/-- The loop. `free` is the number of elements the pool has left; the lists
of the channels take theirs from it as well. -/
def importLoop (toFragmentPos : ℤ → ℤ) (Samples : ℕ) :
    ℕ → ℕ → Engine π → ℤ → Except Abort (Engine π × ℤ)
  | 0, _, _, _ => .error .endless
  | fuel + 1, free, e, eventQueueReader =>
      match RingBuffer.NonVolatileReader.pop e.eventQueue eventQueueReader with
      | (reader, none) => .ok (e, reader)
      | (reader, some pEvent) =>
          let (pos, event) := pEvent.fragmentPos toFragmentPos
          let e := e.setQueued eventQueueReader event
          if pos ≥ Samples then
            let reader := RingBuffer.NonVolatileReader.dec e.eventQueue reader
            .ok (e.setQueued eventQueueReader event.resetFragmentPos, reader)
          else
            match free with
            | 0 => .ok (e, reader)
            | free + 1 =>
                importLoop toFragmentPos Samples fuel free
                  { e with globalEvents := e.globalEvents ++ [event] } reader

def importEvents (toFragmentPos : ℤ → ℤ) (Samples free : ℕ) (e : Engine π) :
    Except Abort (Engine π) := do
  let (e, reader) ← importLoop toFragmentPos Samples (e.eventQueue.readSpace.toNat + 1) free e
    e.eventQueue.getNonVolatileReader
  return { e with eventQueue := RingBuffer.NonVolatileReader.free e.eventQueue reader }

/-! ## ProcessSysex -/

/-- The next event of the fragment. -/
def processSysex [DecidableEq π] (e : Engine π) : Except Abort (Engine π) :=
  match e.globalEvents with
  | [] => .ok e
  | itSysexEvent :: globalEvents =>
      match itSysexEvent.param with
      | .sysex length sourcePort _ => do
          let e ← dispatchSysex { e with globalEvents := globalEvents } sourcePort
            e.sysexBuffer.contents length
          return { e with sysexBuffer := e.sysexBuffer.incrementReadPtr length }
      | .cc _ _ _ => .ok { e with globalEvents := globalEvents }

end Engine

/-! ## Runs -/

/-- What is called, by the MIDI input and by the audio thread. -/
inductive EngineCall (π : Type) where
  | sendSysex (timeStamp : ℤ) (pData : List UInt8) (pSender : π)
  | importEvents (toFragmentPos : ℤ → ℤ) (Samples free : ℕ)
  | processSysex
  | resetInternal

variable {π : Type} [DecidableEq π]

def EngineCall.step : EngineCall π → Engine π → Except Abort (Engine π)
  | .sendSysex timeStamp pData pSender, e => e.sendSysex timeStamp pData pSender
  | .importEvents toFragmentPos Samples free, e => e.importEvents toFragmentPos Samples free
  | .processSysex, e => e.processSysex
  | .resetInternal, e => .ok (e.resetInternal false)

def EngineCall.run (calls : List (EngineCall π)) (e : Engine π) : Except Abort (Engine π) :=
  calls.foldlM (fun e call => step call e) e


/-! ## The buffer of the bytes -/

namespace RingBuffer

variable {α : Type*} {B : RingBuffer α} {log : List α} {R : ℕ}

theorem Sized.init_holds (h : B.Sized) : B.init.Holds [] 0 := by
  have hpos := h.size_pos
  refine ⟨⟨h.pow, h.mask⟩, (Int.zero_emod _).symm, (Int.zero_emod _).symm, le_rfl, ?_, ?_⟩
  · show ((0 : ℕ) : ℤ) < (0 : ℕ) + B.size
    omega
  · intro j _ hj
    exact absurd hj (Nat.not_lt_zero j)

theorem Holds.writeSpaceToEnd_pos (h : B.Holds log R) (hspace : 0 < B.writeSpace) :
    0 < B.writeSpaceToEnd := by
  obtain ⟨hr, hw⟩ := h.ptr_range
  simp only [writeSpace] at hspace
  simp only [writeSpaceToEnd]
  rcases lt_trichotomy B.writePtr B.readPtr with hlt | heq | hgt
  · rw [if_neg (by omega), if_pos hlt] at hspace
    rw [if_pos hlt]
    exact hspace
  · rw [if_neg (by omega), if_neg (by omega)] at hspace
    rw [if_neg (by omega)]
    split <;> omega
  · rw [if_pos hgt, h.sized.masked_eq, Int.emod_eq_of_lt (by omega) (by omega)] at hspace
    rw [if_neg (by omega)]
    split <;> omega

end RingBuffer

namespace Engine

open RingBuffer

variable {π : Type}

/-- The copy ends, and the bytes are stored behind those that were. -/
theorem copySysex_spec {B : RingBuffer UInt8} {log : List UInt8} {R fuel : ℕ} {pPos : List UInt8}
    (h : B.Holds log R) (hfuel : pPos.length < fuel) (hspace : (pPos.length : ℤ) ≤ B.writeSpace) :
    ∃ B', copySysex fuel pPos B = .ok B' ∧ B'.Holds (log ++ pPos) R := by
  induction fuel generalizing B log pPos with
  | zero => omega
  | succ fuel ih =>
      rw [copySysex]
      by_cases hnil : pPos.length = 0
      · rw [if_pos hnil]
        refine ⟨B, rfl, ?_⟩
        rw [List.eq_nil_of_length_eq_zero hnil, List.append_nil]
        exact h
      · rw [if_neg hnil]
        have hpos := h.writeSpaceToEnd_pos (by omega)
        obtain ⟨n, hn⟩ : ∃ n : ℕ, (min (pPos.length : ℤ) B.writeSpaceToEnd).toNat = n := ⟨_, rfl⟩
        have hone : 1 ≤ n ∧ n ≤ pPos.length := by omega
        obtain ⟨-, hwrite, hsize, -⟩ := h.write_spec (pPos.take n)
        have hle := h.le
        have hwspace := h.writeSpace_eq
        have hfit : fitting B log R (pPos.take n) = pPos.take n := by
          refine List.take_of_length_le ?_
          rw [List.length_take]
          omega
        rw [hfit] at hwrite
        have hrest := hwrite.writeSpace_eq
        rw [hsize, List.length_append, List.length_take] at hrest
        obtain ⟨B', hok, hB'⟩ : ∃ B', copySysex fuel (pPos.drop n) (B.write (pPos.take n)).1 =
            .ok B' ∧ B'.Holds (log ++ pPos.take n ++ pPos.drop n) R :=
          ih hwrite (by rw [List.length_drop]; omega) (by rw [List.length_drop]; omega)
        rw [List.append_assoc, List.take_append_drop] at hB'
        dsimp only
        rw [hn]
        exact ⟨B', hok, hB'⟩

end Engine

/-! ## The invariant -/

section InStep

open RingBuffer

variable {π : Type}

/-- What was passed with the event. -/
def EventParam.sent : EventParam π → List UInt8
  | .sysex _ _ sent => sent
  | .cc _ _ _ => []

def EventParam.Sized : EventParam π → Prop
  | .sysex Size _ sent => Size = sent.length
  | .cc _ _ _ => True

namespace Engine

/-- The events that are not processed yet. -/
def waiting (e : Engine π) : List (EventParam π) :=
  (e.globalEvents ++ e.eventQueue.contents).map (·.param)

structure InStep (e : Engine π) : Prop where
  buffer : ∃ log R, e.sysexBuffer.Holds log R
  queue : ∃ log R, e.eventQueue.Holds log R
  sized : ∀ param ∈ e.waiting, param.Sized
  contents_eq : e.sysexBuffer.contents = (e.waiting.map EventParam.sent).flatten

/-- The events in the queue that belong to the fragment. -/
def due (toFragmentPos : ℤ → ℤ) (Samples : ℕ) (events : List (Event (EventParam π))) :
    List (Event (EventParam π)) :=
  events.takeWhile fun event => (event.fragmentPos toFragmentPos).1 < Samples

end Engine

/-- A step that drops no event without its bytes, and no bytes without
their event. -/
def Careful (e : Engine π) : EngineCall π → Prop
  | .sendSysex _ _ _ => True
  | .importEvents toFragmentPos Samples free =>
      (Engine.due toFragmentPos Samples e.eventQueue.contents).length ≤ free
  | .processSysex =>
      e.eventQueue.contents = [] ∨
        ∀ event ∈ e.globalEvents.head?, ¬ Resets event.param.sent
  | .resetInternal => e.globalEvents = []

namespace Engine

variable {e e' : Engine π}

/-! ## Every step -/

theorem InStep.sendSysex (h : e.InStep) {timeStamp : ℤ} {pData : List UInt8} {pSender : π}
    (hrun : e.sendSysex timeStamp pData pSender = .ok e') : e'.InStep := by
  obtain ⟨log, R, hbuffer⟩ := h.buffer
  obtain ⟨events, Q, hqueue⟩ := h.queue
  rw [Engine.sendSysex] at hrun
  split at hrun
  · rename_i hroom
    split at hrun
    · rename_i hspace
      obtain ⟨B', hok, hB'⟩ := copySysex_spec hbuffer (Nat.lt_succ_self _) hspace
      rw [hok] at hrun
      cases hrun
      obtain ⟨-, hpush, -, -⟩ := hqueue.write_spec
        [⟨.sysex, 0, 0, .sysex pData.length pSender pData, timeStamp, -1⟩]
      have hle := hqueue.le
      have hwspace := hqueue.writeSpace_eq
      rw [fitting, List.take_of_length_le (by rw [List.length_singleton]; omega)] at hpush
      have hcontents := hqueue.contents_eq
      have hcontents' := hpush.contents_eq
      rw [List.drop_append_of_le_length hle, ← hcontents] at hcontents'
      have hwaiting : waiting { e with sysexBuffer := B', eventQueue := (e.eventQueue.push
          ⟨.sysex, 0, 0, .sysex pData.length pSender pData, timeStamp, -1⟩).1 } =
          e.waiting ++ [.sysex pData.length pSender pData] := by
        simp only [waiting]
        rw [RingBuffer.push, hcontents', ← List.append_assoc, List.map_append]
        rfl
      refine ⟨⟨_, _, hB'⟩, ⟨_, _, hpush⟩, ?_, ?_⟩
      · intro param hparam
        rw [hwaiting, List.mem_append, List.mem_singleton] at hparam
        rcases hparam with hparam | rfl
        · exact h.sized param hparam
        · exact rfl
      · rw [hwaiting, List.map_append, List.flatten_append, ← h.contents_eq, hB'.contents_eq,
          List.drop_append_of_le_length hbuffer.le, ← hbuffer.contents_eq]
        simp [EventParam.sent]
    · cases hrun
      exact h
  · cases hrun
    exact h

/-- The parameters do not depend on the position in the fragment. -/
theorem map_param_set {log : List (Event (EventParam π))} {a : ℕ} {event x : Event (EventParam π)}
    (h : log[a]? = some event) (hx : x.param = event.param) :
    (log.set a x).map (·.param) = log.map (·.param) := by
  rw [List.map_set, hx]
  refine List.ext_getElem? fun i => ?_
  rw [List.getElem?_set]
  split
  · rename_i hia
    subst hia
    split
    · rw [List.getElem?_map, h]
      rfl
    · rename_i hlen
      rw [List.getElem?_eq_none (not_lt.mp hlen)]
  · rfl

theorem fragmentPos_param (toFragmentPos : ℤ → ℤ) (event : Event (EventParam π)) :
    (event.fragmentPos toFragmentPos).2.param = event.param := by
  rw [Event.fragmentPos]
  split <;> rfl

/-- The loop gives free what it copied: nothing is lost if the pool has an
element for each event that is due. -/
theorem importLoop_spec {toFragmentPos : ℤ → ℤ} {Samples fuel free a R : ℕ}
    {log : List (Event (EventParam π))} (h : e.eventQueue.Holds log R) (hR : R ≤ a)
    (ha : a ≤ log.length) (hfuel : log.length - a < fuel)
    (hdue : (due toFragmentPos Samples (log.drop a)).length ≤ free) :
    ∃ e', ∃ a' : ℕ, ∃ log',
      importLoop toFragmentPos Samples fuel free e ((a : ℤ) % e.eventQueue.size) =
        .ok (e', (a' : ℤ) % e.eventQueue.size) ∧ e'.eventQueue.Holds log' R ∧
      e'.eventQueue.size = e.eventQueue.size ∧ R ≤ a' ∧ a' ≤ log'.length ∧
      e'.sysexBuffer = e.sysexBuffer ∧
      (e'.globalEvents ++ log'.drop a').map (·.param) =
        (e.globalEvents ++ log.drop a).map (·.param) := by
  induction fuel generalizing e log a free with
  | zero => omega
  | succ fuel ih =>
      rw [importLoop]
      cases hevent : log[a]? with
      | none =>
          have hend : log.length ≤ a := List.getElem?_eq_none_iff.mp hevent
          rw [h.pop_end hend ha]
          exact ⟨e, a, log, rfl, h, rfl, hR, ha, rfl, rfl⟩
      | some event =>
          obtain ⟨hlt, hget⟩ := List.getElem?_eq_some_iff.mp hevent
          have hdrop : log.drop a = event :: log.drop (a + 1) := by
            rw [List.drop_eq_getElem_cons hlt, hget]
          rw [h.pop_of_lt hR hevent]
          obtain ⟨pos, event', hpos⟩ : ∃ pos event', event.fragmentPos toFragmentPos = (pos, event') :=
            ⟨_, _, rfl⟩
          have hparam : event'.param = event.param := by
            have := fragmentPos_param toFragmentPos event
            rwa [hpos] at this
          have hset := h.set hR hlt event'
          have hlt' : a < (log.set a event').length := by rwa [List.length_set]
          have hget' : (log.set a event')[a]? = some event' := List.getElem?_set_self hlt
          dsimp only
          rw [hpos]
          dsimp only
          by_cases hyounger : pos ≥ (Samples : ℤ)
          · -- The event is given back.
            rw [if_pos hyounger]
            have hset' := hset.set hR hlt' event'.resetFragmentPos
            have hdec := hset.dec_of_lt (a := a + 1) (by omega) hlt'
            refine ⟨_, a, _, congrArg Except.ok (Prod.ext rfl hdec), hset', rfl, hR, ?_, rfl, ?_⟩
            · rw [List.length_set]
              exact hlt'.le
            · show (e.globalEvents ++ _).map _ = _
              rw [List.map_append, List.map_append, List.map_drop, List.map_drop,
                map_param_set hget' (x := event'.resetFragmentPos) rfl, map_param_set hevent hparam]
          · rw [if_neg hyounger]
            have hdue' : (due toFragmentPos Samples (log.drop (a + 1))).length + 1 ≤ free := by
              rw [hdrop, due, List.takeWhile_cons_of_pos, List.length_cons] at hdue
              · exact hdue
              · rw [hpos]
                exact decide_eq_true (not_le.mp hyounger)
            obtain ⟨free, rfl⟩ : ∃ n, free = n + 1 := ⟨free - 1, by omega⟩
            have hnext : (log.set a event').drop (a + 1) = log.drop (a + 1) :=
              List.drop_set_of_lt (Nat.lt_succ_self a)
            have hfree : (due toFragmentPos Samples ((log.set a event').drop (a + 1))).length ≤
                free := by
              rw [hnext]
              omega
            obtain ⟨e', a', log', hrun, hholds, hsize, hR', ha', hbytes, hparams⟩ :=
              ih (e := { e.setQueued ((a : ℤ) % e.eventQueue.size) event' with
                  globalEvents := e.globalEvents ++ [event'] }) (a := a + 1) hset (by omega) hlt'
                (by rw [List.length_set]; omega) hfree
            refine ⟨e', a', log', hrun, hholds, hsize, hR', ha', hbytes, ?_⟩
            rw [hparams, hnext, hdrop]
            show (e.globalEvents ++ [event'] ++ log.drop (a + 1)).map _ = _
            rw [List.append_assoc, List.singleton_append, List.map_append, List.map_append,
              List.map_cons, List.map_cons, hparam]

theorem InStep.importEvents (h : e.InStep) {toFragmentPos : ℤ → ℤ} {Samples free : ℕ}
    (hdue : (due toFragmentPos Samples e.eventQueue.contents).length ≤ free)
    (hrun : e.importEvents toFragmentPos Samples free = .ok e') : e'.InStep := by
  obtain ⟨log, R, hqueue⟩ := h.queue
  have hspace := hqueue.readSpace_eq
  have hle := hqueue.le
  rw [hqueue.contents_eq] at hdue
  obtain ⟨e₁, a, log', hloop, hholds, hsize, hR, ha, hbytes, hparams⟩ :=
    importLoop_spec hqueue le_rfl hle
      (show log.length - R < e.eventQueue.readSpace.toNat + 1 by omega) hdue
  rw [Engine.importEvents, getNonVolatileReader, hqueue.read_eq, hloop] at hrun
  cases hrun
  have hfree : Holds (NonVolatileReader.free e₁.eventQueue ((a : ℤ) % e.eventQueue.size)) log' a := by
    rw [← hsize]
    exact hholds.advance hR ha
  have hwaiting : waiting { e₁ with
      eventQueue := NonVolatileReader.free e₁.eventQueue ((a : ℤ) % e.eventQueue.size) } =
      e.waiting := by
    rw [waiting, waiting, hqueue.contents_eq, ← hparams]
    exact congrArg (fun l => (e₁.globalEvents ++ l).map (·.param)) hfree.contents_eq
  refine ⟨?_, ⟨_, _, hfree⟩, ?_, ?_⟩
  · show ∃ log R, e₁.sysexBuffer.Holds log R
    rw [hbytes]
    exact h.buffer
  · rw [hwaiting]
    exact h.sized
  · rw [hwaiting]
    show e₁.sysexBuffer.contents = _
    rw [hbytes]
    exact h.contents_eq

theorem InStep.resetInternal (h : e.InStep) (hevents : e.globalEvents = []) :
    (e.resetInternal false).InStep := by
  obtain ⟨log, R, hbuffer⟩ := h.buffer
  obtain ⟨events, Q, hqueue⟩ := h.queue
  have hinit := hqueue.sized.init_holds
  have hwaiting : (e.resetInternal false).waiting = [] := by
    have hcontents : e.eventQueue.init.contents = [] := hinit.contents_eq
    show (e.globalEvents ++ e.eventQueue.init.contents).map _ = []
    rw [hevents, hcontents]
    rfl
  have hbytes : (∃ log R, (e.resetInternal false).sysexBuffer.Holds log R) ∧
      (e.resetInternal false).sysexBuffer.contents = [] := by
    show (∃ log R, (if ¬ (false = true) ∧ e.sysexBuffer.readSpace ≠ 0 then e.sysexBuffer.init
      else e.sysexBuffer).Holds log R) ∧ (if ¬ (false = true) ∧ e.sysexBuffer.readSpace ≠ 0 then
        e.sysexBuffer.init else e.sysexBuffer).contents = []
    split
    · exact ⟨⟨_, _, hbuffer.sized.init_holds⟩, hbuffer.sized.init_holds.contents_eq⟩
    · rename_i hempty
      have hzero : e.sysexBuffer.readSpace = 0 := by simpa using hempty
      rw [hbuffer.readSpace_eq] at hzero
      refine ⟨⟨_, _, hbuffer⟩, ?_⟩
      rw [hbuffer.contents_eq, List.drop_eq_nil_iff]
      omega
  refine ⟨hbytes.1, ⟨_, _, hinit⟩, ?_, ?_⟩
  · rw [hwaiting]
    intro param hparam
    cases hparam
  · rw [hwaiting, hbytes.2]
    rfl

/-- The message that is dispatched is the one that was passed with its
event, whatever is stored behind it. -/
theorem InStep.head (h : e.InStep) {event : Event (EventParam π)}
    {events : List (Event (EventParam π))} (hevents : e.globalEvents = event :: events) {Size : ℕ}
    {port : π} {sent : List UInt8} (hparam : event.param = .sysex Size port sent) :
    Size = sent.length ∧ ∃ rest, e.sysexBuffer.contents = sent ++ rest ∧
      rest = (((events ++ e.eventQueue.contents).map (·.param)).map EventParam.sent).flatten := by
  have hwaiting : e.waiting = .sysex Size port sent ::
      (events ++ e.eventQueue.contents).map (·.param) := by
    rw [waiting, hevents, List.cons_append, List.map_cons, hparam]
  have hsized := h.sized (.sysex Size port sent) (by rw [hwaiting]; exact List.mem_cons_self)
  refine ⟨hsized, _, ?_, rfl⟩
  rw [h.contents_eq, hwaiting, List.map_cons, List.flatten_cons]
  rfl

theorem InStep.processSysex [DecidableEq π] (h : e.InStep)
    (hreset : e.eventQueue.contents = [] ∨
      ∀ event ∈ e.globalEvents.head?, ¬ Resets event.param.sent)
    (hrun : e.processSysex = .ok e') : e'.InStep := by
  rw [Engine.processSysex] at hrun
  split at hrun
  · cases hrun
    exact h
  · rename_i event events hevents
    split at hrun
    · rename_i Size port sent hparam
      obtain ⟨hsize, rest, hcontents, hrest⟩ := h.head hevents hparam
      simp only [bind, Except.bind] at hrun
      split at hrun
      · cases hrun
      · rename_i e₁ hdispatch
        cases hrun
        have hqueues := dispatchSysex_queues hdispatch
        rw [hcontents, hsize, List.take_left] at hqueues
        obtain ⟨log, R, hbuffer⟩ := h.buffer
        obtain ⟨elog, Q, hqueue⟩ := h.queue
        have hlog := hbuffer.contents_eq
        have hle := hbuffer.le
        rw [hcontents] at hlog
        have hlen : sent.length + rest.length = log.length - R := by
          rw [← List.length_append, hlog, List.length_drop]
        -- The bytes of the message are given free.
        have hbuffer' : (e₁.sysexBuffer.incrementReadPtr Size).Holds log (R + sent.length) := by
          have hadvance := hbuffer.advance (show R ≤ R + sent.length by omega) (by omega)
          have hptr : e.sysexBuffer.masked (e.sysexBuffer.readPtr + Size) =
              ((R + sent.length : ℕ) : ℤ) % e.sysexBuffer.size := by
            rw [hbuffer.sized.masked_eq, hbuffer.read_eq, Int.emod_add_emod, hsize]
            push_cast
            rfl
          rw [hqueues.sysexBuffer_eq]
          show Holds { e.sysexBuffer with
            readPtr := e.sysexBuffer.masked (e.sysexBuffer.readPtr + Size) } _ _
          rw [hptr]
          exact hadvance
        have hqueue' : (∃ log R, e₁.eventQueue.Holds log R) ∧
            e₁.eventQueue.contents = e.eventQueue.contents := by
          rcases hqueues.eventQueue_eq with heq | ⟨hresets, heq⟩
          · rw [heq]
            exact ⟨⟨_, _, hqueue⟩, rfl⟩
          · rw [heq]
            have hinit := hqueue.sized.init_holds
            refine ⟨⟨_, _, hinit⟩, ?_⟩
            rcases hreset with hempty | hreset
            · show e.eventQueue.init.contents = _
              rw [hempty, hinit.contents_eq]
              rfl
            · refine absurd hresets ?_
              have := hreset event (by rw [hevents]; rfl)
              rwa [hparam] at this
        have hwaiting : waiting { e₁ with
            sysexBuffer := e₁.sysexBuffer.incrementReadPtr Size } =
            (events ++ e.eventQueue.contents).map (·.param) := by
          have hglobal : e₁.globalEvents = events := hqueues.globalEvents_eq
          show (e₁.globalEvents ++ e₁.eventQueue.contents).map _ = _
          rw [hglobal, hqueue'.2]
        refine ⟨⟨_, _, hbuffer'⟩, hqueue'.1, ?_, ?_⟩
        · rw [hwaiting]
          intro param hmem
          refine h.sized param ?_
          rw [waiting, hevents, List.cons_append, List.map_cons]
          exact List.mem_cons_of_mem _ hmem
        · rw [hwaiting, ← hrest]
          show (e₁.sysexBuffer.incrementReadPtr Size).contents = rest
          rw [hbuffer'.contents_eq, ← List.drop_drop, ← hlog, List.drop_left]
    · rename_i hparam
      cases hrun
      have hwaiting : e.waiting = event.param ::
          waiting { e with globalEvents := events } := by
        rw [waiting, waiting, hevents, List.cons_append, List.map_cons]
      refine ⟨h.buffer, h.queue, fun param hmem => h.sized param ?_, ?_⟩
      · rw [hwaiting]
        exact List.mem_cons_of_mem _ hmem
      · have hcontents := h.contents_eq
        rw [hwaiting, List.map_cons, List.flatten_cons, hparam] at hcontents
        exact hcontents

/-! ## Runs -/

theorem InStep.step [DecidableEq π] (h : e.InStep) (call : EngineCall π) (hcareful : Careful e call)
    (hrun : call.step e = .ok e') : e'.InStep := by
  cases call with
  | sendSysex timeStamp pData pSender => exact h.sendSysex hrun
  | importEvents toFragmentPos Samples free => exact h.importEvents hcareful hrun
  | processSysex => exact h.processSysex hcareful hrun
  | resetInternal =>
      cases hrun
      exact h.resetInternal hcareful

/-- Nothing was sent to the engine yet. -/
structure Fresh (e : Engine π) : Prop where
  sysexBuffer_holds : e.sysexBuffer.Holds [] 0
  eventQueue_holds : e.eventQueue.Holds [] 0
  globalEvents_eq : e.globalEvents = []

theorem Fresh.inStep (h : e.Fresh) : e.InStep := by
  have hwaiting : e.waiting = [] := by
    rw [waiting, h.globalEvents_eq, h.eventQueue_holds.contents_eq]
    rfl
  refine ⟨⟨_, _, h.sysexBuffer_holds⟩, ⟨_, _, h.eventQueue_holds⟩, ?_, ?_⟩
  · rw [hwaiting]
    intro param hparam
    cases hparam
  · rw [hwaiting]
    exact h.sysexBuffer_holds.contents_eq

/-- The bytes that the dispatcher gets for the next event. -/
def nextMessage (e : Engine π) : Option (List UInt8) :=
  match e.globalEvents with
  | [] => none
  | event :: _ =>
      match event.param with
      | .sysex Size _ _ => some (e.sysexBuffer.contents.take Size)
      | .cc _ _ _ => none

/-- The bytes that were passed with it. -/
def nextSent (e : Engine π) : Option (List UInt8) :=
  match e.globalEvents with
  | [] => none
  | event :: _ =>
      match event.param with
      | .sysex _ _ sent => some sent
      | .cc _ _ _ => none

theorem InStep.nextMessage_eq (h : e.InStep) : e.nextMessage = e.nextSent := by
  rw [nextMessage, nextSent]
  cases hevents : e.globalEvents with
  | nil => rfl
  | cons event events =>
      dsimp only
      cases hparam : event.param with
      | sysex Size port sent =>
          obtain ⟨hsize, rest, hcontents, -⟩ := h.head hevents hparam
          dsimp only
          rw [hsize, hcontents, List.take_left]
      | cc Controller Value Channel => rfl

end Engine

/-- A run of careful steps, and the state it reached. A run ends where a
step throws an exception. -/
inductive CarefulRun [DecidableEq π] (e : Engine π) : Engine π → Prop where
  | start : CarefulRun e e
  | step {e₁ e₂ : Engine π} (call : EngineCall π) (hrun : CarefulRun e e₁)
      (hcareful : Careful e₁ call) (hstep : call.step e₁ = .ok e₂) : CarefulRun e e₂

namespace CarefulRun

theorem inStep [DecidableEq π] {e₀ e : Engine π} (h : CarefulRun e₀ e) (hstart : e₀.InStep) :
    e.InStep := by
  induction h with
  | start => exact hstart
  | step call _ hcareful hstep ih => exact ih.step call hcareful hstep

/-- What is dispatched is what was sent. -/
theorem nextMessage_eq_nextSent [DecidableEq π] {e₀ e : Engine π} (hstart : e₀.Fresh)
    (hrun : CarefulRun e₀ e) : e.InStep ∧ e.nextMessage = e.nextSent :=
  ⟨hrun.inStep hstart.inStep, (hrun.inStep hstart.inStep).nextMessage_eq⟩

end CarefulRun

end InStep

/-! ### Runs that are not careful -/

theorem onePart_fresh : onePart.Fresh := by
  refine ⟨⟨⟨⟨6, rfl⟩, rfl⟩, rfl, rfl, le_rfl, by decide, ?_⟩,
    ⟨⟨⟨3, rfl⟩, rfl⟩, rfl, rfl, le_rfl, by decide, ?_⟩, rfl⟩
  · intro j _ hj
    exact absurd hj (Nat.not_lt_zero j)
  · intro j _ hj
    exact absurd hj (Nat.not_lt_zero j)

/-- The GM reset. -/
def gmReset : List UInt8 := [0xf0, 0x7e, 0x7f, 0x09, 0x01, 0xf7]

/-- A message is sent and imported. -/
theorem CarefulRun.nextMessage_eq_nextSent_gmReset :
    ∃ e : Engine Unit, e.nextMessage = some gmReset ∧ e.InStep ∧ e.nextMessage = e.nextSent := by
  obtain ⟨e₁, h₁⟩ : ∃ e₁, (EngineCall.sendSysex 0 gmReset ()).step onePart = .ok e₁ := ⟨_, rfl⟩
  have hsent : CarefulRun onePart e₁ := CarefulRun.start.step (.sendSysex 0 gmReset ()) trivial h₁
  obtain ⟨e₂, h₂, hdue, hnext⟩ : ∃ e₂, (EngineCall.importEvents id 64 1).step e₁ = .ok e₂ ∧
      Careful e₁ (.importEvents id 64 1) ∧ e₂.nextMessage = some gmReset := by
    cases h₁
    exact ⟨_, rfl, by simp only [Careful]; decide +kernel, by decide +kernel⟩
  exact ⟨e₂, hnext, nextMessage_eq_nextSent onePart_fresh (hsent.step _ hdue h₂)⟩

/-- A second message is sent before the reset is processed. -/
def resetRun : List (EngineCall Unit) :=
  [.sendSysex 0 gmReset (), .importEvents id 64 8,
    .sendSysex 1 [0xf0, 0x7f, 0x7f, 0x04, 0x01, 0x00, 0x40, 0xf7] (), .processSysex,
    .sendSysex 2 [0xf0, 0x7f, 0x7f, 0x04, 0x01, 0x00, 0x7f, 0xf7] (), .importEvents id 64 8]

/-- The reset drops the event of the second message and keeps its bytes, so
that they are taken for those of the third one. -/
theorem not_nextMessage_eq_nextSent : ¬ ∀ (e₀ e : Engine Unit) (calls : List (EngineCall Unit)),
    e₀.Fresh → EngineCall.run calls e₀ = .ok e → e.nextMessage = e.nextSent := by
  intro hall
  have hrun : ((EngineCall.run resetRun onePart).map fun e =>
      decide (e.nextMessage = e.nextSent)).toOption = some false := by
    decide +kernel
  cases hcalls : EngineCall.run resetRun onePart with
  | error f =>
      rw [hcalls] at hrun
      cases hrun
  | ok e =>
      have heq := hall onePart e resetRun onePart_fresh hcalls
      rw [hcalls] at hrun
      have hfalse := Option.some.inj hrun
      beta_reduce at hfalse
      rw [decide_eq_true heq] at hfalse
      cases hfalse

end LinuxSampler
