import LinuxSampler.StepSystem

/-!
# Threads that wait for jobs

The loop of `WorkerThread`, which is that of `InstrumentManagerThread` too. A caller queues a
job, makes sure that the thread runs and sets the condition; the thread takes jobs until the queue
is empty, and then it waits for the condition.

The model has one thread, which is at the start of its loop at first. What callers do before the
thread runs are the steps before its first one. `StartThread()` gives up its mutex while it waits
for the new thread, so that another first call which comes then creates a second thread: that is
left out.

The mutex of the condition is not recursive. The thread has it when it resets the condition, so
that the lock in `Set()` fails and the unlock there gives the mutex back; the unlock that follows
fails. No error is looked at.

Each job is run once and in order. Of themselves the thread and the calls take only so many steps,
and when there is none left, all jobs were run.
-/

namespace LinuxSampler

/-- Where the thread is. `waiting` is `pthread_cond_wait()`, after which `WaitIf()` returns with
the mutex. -/
inductive LoopState (J : Type*) where
  | fetching
  | running (pJob : J)
  | idle
  | waiting (signalled : Bool)
  | woken
  | reset

/-- The steps to the next sleep, and to the one after it if the condition is set until then. -/
def LoopState.distance {J : Type*} (conditionJobsLeft : Bool) : LoopState J → ℕ
  | .waiting true => 5
  | .woken => 4
  | .running _ | .reset => 3 + 5 * conditionJobsLeft.toNat
  | .fetching => 2 + 5 * conditionJobsLeft.toNat
  | .idle => 1 + 5 * conditionJobsLeft.toNat
  | .waiting false => 5 * conditionJobsLeft.toNat

/-- `starting` and `setting` count the calls that have queued their job, and have still to return
from `StartThread()` or to set the condition. `done` is no data of the class: the jobs that were
run. -/
structure WorkerThread (J : Type*) where
  queue : List J
  conditionJobsLeft : Bool
  ownsCondition : Bool
  state : LoopState J
  starting : ℕ
  setting : ℕ
  done : List J

inductive WorkerAction (J : Type*) where
  | execute (pJob : J)
  | startThread
  | set
  | fetch
  | finish
  | waitIf
  /-- wakeups may be spurious -/
  | wake
  | reset
  | unlock

namespace WorkerThread

variable {J : Type*}

def create : WorkerThread J where
  queue := []
  conditionJobsLeft := false
  ownsCondition := false
  state := .fetching
  starting := 0
  setting := 0
  done := []

def step (s : WorkerThread J) : WorkerAction J → WorkerThread J
  | .execute pJob => { s with queue := s.queue ++ [pJob], starting := s.starting + 1 }
  | .startThread => { s with starting := s.starting - 1, setting := s.setting + 1 }
  | .set =>
      -- who waits is only woken up by a change
      { s with
        setting := s.setting - 1
        conditionJobsLeft := true
        state :=
          match s.state with
          | .waiting signalled => .waiting (signalled || !s.conditionJobsLeft)
          | state => state }
  | .fetch =>
      match s.queue with
      | [] => { s with state := .idle }
      | pJob :: queue => { s with queue := queue, state := .running pJob }
  | .finish =>
      match s.state with
      | .running pJob => { s with done := s.done ++ [pJob], state := .fetching }
      | _ => s
  | .waitIf =>
      if s.conditionJobsLeft then { s with ownsCondition := true, state := .woken }
      else { s with state := .waiting false }
  | .wake => { s with ownsCondition := true, state := .woken }
  | .reset => { s with conditionJobsLeft := false, ownsCondition := false, state := .reset }
  | .unlock => { s with state := .fetching }

/-- A caller gets the mutex of the condition when the thread does not have it. -/
def Enabled (s : WorkerThread J) : WorkerAction J → Prop
  | .execute _ => True
  | .startThread => 0 < s.starting
  | .set => 0 < s.setting ∧ s.ownsCondition = false
  | .fetch => s.state = .fetching
  | .finish => ∃ pJob, s.state = .running pJob
  | .waitIf => s.state = .idle
  | .wake => ∃ signalled, s.state = .waiting signalled
  | .reset => s.state = .woken
  | .unlock => s.state = .reset

/-- The steps that the thread and the calls take of themselves. -/
def Progresses (s : WorkerThread J) : WorkerAction J → Prop
  | .execute _ => False
  | .wake => s.state = .waiting true
  | _ => True

def system : StepSystem (WorkerThread J) (WorkerAction J) := ⟨create, Enabled, step⟩

def ordered : List (WorkerAction J) → List J
  | [] => []
  | .execute pJob :: as => pJob :: ordered as
  | _ :: as => ordered as

/-! ## Jobs -/

variable {s : WorkerThread J} {a : WorkerAction J} {as bs : List (WorkerAction J)}

def current (s : WorkerThread J) : List J :=
  match s.state with
  | .running pJob => [pJob]
  | _ => []

/-- The jobs that were run, the one that is, and those that will be. -/
def jobs (s : WorkerThread J) : List J := s.done ++ s.current ++ s.queue

theorem jobs_step (henabled : s.Enabled a) : (s.step a).jobs = s.jobs ++ ordered [a] := by
  obtain ⟨queue, conditionJobsLeft, ownsCondition, state, starting, setting, done⟩ := s
  cases a with
  | execute pJob => simp [step, jobs, current, ordered]
  | startThread => simp [step, jobs, current, ordered]
  | set => cases state <;> simp [step, jobs, current, ordered]
  | fetch =>
    obtain rfl : state = .fetching := henabled
    cases queue <;> simp [step, jobs, current, ordered]
  | finish =>
    obtain ⟨pJob, rfl⟩ : ∃ pJob, state = .running pJob := henabled
    simp [step, jobs, current, ordered]
  | waitIf =>
    obtain rfl : state = .idle := henabled
    cases conditionJobsLeft <;> simp [step, jobs, current, ordered]
  | wake =>
    obtain ⟨signalled, rfl⟩ : ∃ signalled, state = .waiting signalled := henabled
    simp [step, jobs, current, ordered]
  | reset | unlock =>
    obtain rfl : state = _ := henabled
    simp [step, jobs, current, ordered]

theorem ordered_cons : ordered (a :: as) = ordered [a] ++ ordered as := by
  cases a <;> rfl

theorem jobs_exec {ok : WorkerThread J → WorkerAction J → Prop} (hrun : system.RunFrom ok s as) :
    (system.exec s as).jobs = s.jobs ++ ordered as := by
  induction as generalizing s with
  | nil => simp [StepSystem.exec, ordered]
  | cons a as ih =>
    obtain ⟨henabled, -, hrest⟩ := hrun
    calc (system.exec s (a :: as)).jobs
      _ = (s.step a).jobs ++ ordered as := ih hrest
      _ = s.jobs ++ ordered (a :: as) := by
        rw [jobs_step henabled, List.append_assoc, ← ordered_cons]

/-! ## No wakeup is lost -/

/-- Before it sleeps the thread sees each job, or a call that has queued one. -/
structure Inv (s : WorkerThread J) : Prop where
  owns : s.ownsCondition = true ↔ s.state = .woken
  idle : s.state = .idle →
    s.queue = [] ∨ s.conditionJobsLeft = true ∨ 0 < s.starting ∨ 0 < s.setting
  asleep : s.state = .waiting false →
    s.conditionJobsLeft = false ∧ (s.queue = [] ∨ 0 < s.starting ∨ 0 < s.setting)

theorem inv_create : (create : WorkerThread J).Inv := by
  constructor <;> simp [create]

theorem Inv.step (h : s.Inv) (henabled : s.Enabled a) : (s.step a).Inv := by
  obtain ⟨queue, conditionJobsLeft, ownsCondition, state, starting, setting, done⟩ := s
  obtain ⟨howns, hidle, hasleep⟩ := h
  cases a with
  | execute pJob => constructor <;> simp_all [WorkerThread.step]
  | startThread => constructor <;> simp_all [WorkerThread.step]
  | set =>
    obtain ⟨-, hfree⟩ : 0 < setting ∧ ownsCondition = false := henabled
    cases state <;> constructor <;> simp_all [WorkerThread.step]
  | fetch =>
    obtain rfl : state = .fetching := henabled
    cases queue <;> constructor <;> simp_all [WorkerThread.step]
  | finish =>
    obtain ⟨pJob, rfl⟩ : ∃ pJob, state = .running pJob := henabled
    constructor <;> simp_all [WorkerThread.step]
  | waitIf =>
    obtain rfl : state = .idle := henabled
    cases conditionJobsLeft <;> constructor <;> simp_all [WorkerThread.step]
  | wake =>
    obtain ⟨signalled, rfl⟩ : ∃ signalled, state = .waiting signalled := henabled
    constructor <;> simp [WorkerThread.step]
  | reset => constructor <;> simp [WorkerThread.step]
  | unlock =>
    obtain rfl : state = .reset := henabled
    constructor <;> simp_all [WorkerThread.step]

/-! ## Progress -/

/-- The steps that are left, at most. -/
def weight (s : WorkerThread J) : ℕ :=
  9 * s.starting + 6 * s.setting + 2 * s.queue.length + s.state.distance s.conditionJobsLeft

theorem Inv.weight_lt (h : s.Inv) (henabled : s.Enabled a) (hprogress : s.Progresses a) :
    (s.step a).weight < s.weight := by
  obtain ⟨queue, conditionJobsLeft, ownsCondition, state, starting, setting, done⟩ := s
  obtain ⟨howns, hidle, hasleep⟩ := h
  cases a with
  | execute pJob => cases hprogress
  | startThread =>
    have hpos : 0 < starting := henabled
    simp only [WorkerThread.step, weight]
    omega
  | set =>
    obtain ⟨hpos, hfree⟩ : 0 < setting ∧ ownsCondition = false := henabled
    cases state <;> cases conditionJobsLeft <;>
      simp_all [WorkerThread.step, weight, LoopState.distance]
    all_goals omega
  | fetch =>
    obtain rfl : state = .fetching := henabled
    cases queue <;> simp [WorkerThread.step, weight, LoopState.distance]
    omega
  | finish =>
    obtain ⟨pJob, rfl⟩ : ∃ pJob, state = .running pJob := henabled
    simp [WorkerThread.step, weight, LoopState.distance]
  | waitIf =>
    obtain rfl : state = .idle := henabled
    cases conditionJobsLeft <;> simp [WorkerThread.step, weight, LoopState.distance]
  | wake =>
    obtain rfl : state = _ := hprogress
    simp [WorkerThread.step, weight, LoopState.distance]
  | reset | unlock =>
    obtain rfl : state = _ := henabled
    simp [WorkerThread.step, weight, LoopState.distance]

/-- The thread sleeps when it cannot go on, and has run all jobs. -/
theorem Inv.jobs_eq_done (h : s.Inv) (hrest : ∀ a, s.Enabled a → ¬ s.Progresses a) :
    s.jobs = s.done := by
  obtain ⟨queue, conditionJobsLeft, ownsCondition, state, starting, setting, done⟩ := s
  obtain ⟨howns, hidle, hasleep⟩ := h
  have hstarting : starting = 0 := Nat.eq_zero_of_not_pos fun hpos =>
    hrest .startThread hpos trivial
  have hsetting : ownsCondition = false → setting = 0 := fun hfree =>
    Nat.eq_zero_of_not_pos fun hpos => hrest .set ⟨hpos, hfree⟩ trivial
  cases state with
  | fetching => exact absurd trivial (hrest .fetch rfl)
  | running pJob => exact absurd trivial (hrest .finish ⟨pJob, rfl⟩)
  | idle => exact absurd trivial (hrest .waitIf rfl)
  | waiting signalled =>
    cases signalled with
    | true => exact absurd rfl (hrest .wake ⟨true, rfl⟩)
    | false => simp_all [jobs, current]
  | woken => exact absurd trivial (hrest .reset rfl)
  | reset => exact absurd trivial (hrest .unlock rfl)

theorem inv_run (hrun : system.RunFrom (fun _ _ => True) (create : WorkerThread J) as) :
    (system.exec create as).Inv :=
  hrun.invariant (fun _ _ h henabled _ => h.step henabled) inv_create

theorem ordered_of_progresses (hrun : system.RunFrom Progresses s bs) : ordered bs = [] := by
  induction bs generalizing s with
  | nil => rfl
  | cons b bs ih =>
    obtain ⟨-, hprogress, hrest⟩ := hrun
    cases b with
    | execute pJob => cases hprogress
    | _ => exact ih hrest

/-- After any run, the thread and the calls come to an end of themselves, and all jobs were run
then, each one once and in order. -/
theorem done_run (as bs : List (WorkerAction J))
    (hrun : system.RunFrom (fun _ _ => True) (create : WorkerThread J) as)
    (hprogress : system.RunFrom Progresses (system.exec create as) bs) :
    bs.length ≤ (system.exec create as).weight ∧
      ((∀ a, (system.exec create (as ++ bs)).Enabled a →
        ¬ (system.exec create (as ++ bs)).Progresses a) →
        (system.exec create (as ++ bs)).done = ordered as) := by
  have h := hprogress.invariant (fun _ _ h henabled _ => h.step henabled) (inv_run hrun)
  refine ⟨hprogress.length_le (fun _ _ h henabled hprogress =>
    ⟨h.step henabled, h.weight_lt henabled hprogress⟩) (inv_run hrun), fun hrest => ?_⟩
  rw [StepSystem.exec_append] at hrest ⊢
  calc (system.exec (system.exec create as) bs).done
    _ = (system.exec (system.exec create as) bs).jobs := (h.jobs_eq_done hrest).symm
    _ = (create.jobs ++ ordered as) ++ ordered bs := by
      rw [jobs_exec hprogress, jobs_exec hrun]
    _ = ordered as := by
      rw [ordered_of_progresses hprogress, List.append_nil]
      exact List.nil_append _

/-- The second call comes while the thread runs the job of the first one. -/
theorem done_run_two : (system.exec create [.execute 1, .startThread, .fetch, .execute 2,
    .startThread, .set, .finish, .fetch, .finish, .set, .fetch, .waitIf, .reset, .unlock, .fetch,
    .waitIf]).done = [1, 2] := by
  refine (done_run [.execute 1, .startThread, .fetch, .execute 2] [.startThread, .set, .finish,
    .fetch, .finish, .set, .fetch, .waitIf, .reset, .unlock, .fetch, .waitIf]
    ⟨trivial, trivial, Nat.one_pos, trivial, rfl, trivial, trivial, trivial, trivial⟩ ⟨Nat.one_pos,
    trivial, ⟨Nat.two_pos, rfl⟩, trivial, ⟨1, rfl⟩, trivial, rfl, trivial, ⟨2, rfl⟩, trivial,
    ⟨Nat.one_pos, rfl⟩, trivial, rfl, trivial, rfl, trivial, rfl, trivial, rfl, trivial, rfl,
    trivial, rfl, trivial, trivial⟩).2 fun a henabled hprogress => ?_
  -- the thread sleeps
  cases a with
  | execute pJob => exact hprogress
  | startThread => exact Nat.lt_irrefl 0 henabled
  | set => exact Nat.lt_irrefl 0 henabled.1
  | finish =>
    obtain ⟨pJob, hstate⟩ := henabled
    cases hstate
  | wake => exact Bool.false_ne_true (LoopState.waiting.inj hprogress)
  | fetch | waitIf | reset | unlock => cases henabled

end WorkerThread

end LinuxSampler
