import LinuxSampler.SfzLookup

/-!
# The copy-on-write arrays of the sfz engine

The arrays of a definition are copied into every region below it, and
`sfz::Array` shares the 128 elements until one of its copies changes one of
them. The abstract arrays here are their elements, and an assignment copies
these.

No write is seen through another array (`values_of_run`). The counts of the
buffers are right unless an assignment meets an array that holds a buffer
already: it does not let go of that one, which is then never deleted. A new
array that is destroyed before anything was written to it dereferences its
null pointer (`run_correct_iff`).
-/

namespace LinuxSampler

namespace Sfz

namespace CopyOnWrite

open Function (update)

/-! ## Counting the names that are mapped to a value -/

section Count

variable {ι β : Type} [Fintype ι] [DecidableEq β]

def countOf (f : ι → β) (b : β) : ℕ :=
  (Finset.univ.filter (f · = b)).card

theorem countOf_pos_iff (f : ι → β) (b : β) : 0 < countOf f b ↔ ∃ x, f x = b := by
  simp [countOf, Finset.card_pos, Finset.filter_nonempty_iff]

theorem exists_ne_of_one_lt_countOf {f : ι → β} {b : β} (h : 1 < countOf f b) (x : ι) :
    ∃ y, y ≠ x ∧ f y = b := by
  obtain ⟨y, hy, hne⟩ := Finset.exists_mem_ne h x
  exact ⟨y, hne, (Finset.mem_filter.mp hy).2⟩

variable [DecidableEq ι]

/-- The names other than `x`, and `x`. -/
theorem countOf_eq (f : ι → β) (b : β) (x : ι) :
    countOf f b =
      (((Finset.univ.erase x).filter (f · = b)).card + if f x = b then 1 else 0) := by
  conv_lhs => rw [countOf, ← Finset.insert_erase (Finset.mem_univ x), Finset.filter_insert]
  by_cases h : f x = b
  · rw [if_pos h, if_pos h, Finset.card_insert_of_notMem (by simp)]
  · rw [if_neg h, if_neg h, Nat.add_zero]

theorem countOf_update (f : ι → β) (b c : β) (x : ι) :
    countOf (update f x c) b + (if f x = b then 1 else 0) =
      countOf f b + if c = b then 1 else 0 := by
  have hrest : (Finset.univ.erase x).filter (update f x c · = b) =
      (Finset.univ.erase x).filter (f · = b) := by
    refine Finset.filter_congr fun y hy => ?_
    rw [Function.update_of_ne (Finset.ne_of_mem_erase hy)]
  rw [countOf_eq (update f x c) b x, countOf_eq f b x, hrest, Function.update_self]
  omega

end Count

/-! ## The arrays -/

/-- `Array::Rep`, a buffer and how many arrays refer to it. -/
structure Rep (α : Type) where
  refcount : ℤ
  a : Fin 128 → α

/-- The pointers of the arrays, and the buffers that have not been deleted. Buffers get
their addresses in the order in which they are made. -/
structure State (ι α : Type) where
  ptr : ι → Option ℕ := fun _ => none
  heap : ℕ → Option (Rep α) := fun _ => none
  next : ℕ := 0

/-- What a program does with arrays. The first write to an array makes a buffer, the other
elements of which are whatever `new Rep` finds there. -/
inductive Op (ι α : Type) where
  | construct (x : ι)
  | assign (x y : ι)
  | set (x : ι) (i : Fin 128) (v : α) (fresh : Fin 128 → α)
  | destroy (x : ι)

namespace State

variable {ι α : Type}

/-- The elements that an array refers to. -/
def elements (s : State ι α) (x : ι) : Option (Fin 128 → α) := do
  let p ← s.ptr x
  let r ← s.heap p
  some r.a

/-- `Array::operator[]()` -/
def read (s : State ι α) (x : ι) (i : Fin 128) : Option α :=
  (s.elements x).map (· i)

/-- How many arrays refer to a buffer. -/
def refs [Fintype ι] (s : State ι α) (p : ℕ) : ℕ :=
  countOf s.ptr (some p)

variable [DecidableEq ι]

/-- `ptr = new Rep` -/
def new (s : State ι α) (x : ι) (rep : Rep α) : State ι α where
  ptr := update s.ptr x (some s.next)
  heap := update s.heap s.next (some rep)
  next := s.next + 1

/-- `Rep::release()`. There is no result for a null pointer. -/
def release (s : State ι α) (rep : Option ℕ) : Option (State ι α) := do
  let p ← rep
  let r ← s.heap p
  let refcount := r.refcount - 1
  some { s with heap := update s.heap p (if refcount = 0 then none else some { r with refcount }) }

/-- `~Array()` -/
def letGo (s : State ι α) (x : ι) : Option (State ι α) := do
  let s ← s.release (s.ptr x)
  some { s with ptr := update s.ptr x none }

/-- `Array::operator=()`. An overflow of the count has no result. -/
def assign (s : State ι α) (x y : ι) : Option (State ι α) :=
  if x = y then some s
  else
    match s.ptr y with
    | none => some { s with ptr := update s.ptr x none }
    | some p => do
        let r ← s.heap p
        if r.refcount = intMax then none
        else
          some { s with
            ptr := update s.ptr x (some p)
            heap := update s.heap p (some { r with refcount := r.refcount + 1 }) }

/-- `Array::set()` up to its last statement: a buffer to write to. -/
def own [BEq α] (s : State ι α) (x : ι) (i : Fin 128) (v : α) (fresh : Fin 128 → α) :
    Option (State ι α) :=
  match s.ptr x with
  | none => some (s.new x ⟨1, fresh⟩)
  | some p => do
      let r ← s.heap p
      if 1 < r.refcount ∧ r.a i != v then
        let s ← s.letGo x
        some (s.new x { r with refcount := 1 })
      else some s

/-- `ptr->a[i] = v` -/
def store (s : State ι α) (x : ι) (i : Fin 128) (v : α) : Option (State ι α) := do
  let p ← s.ptr x
  let r ← s.heap p
  some { s with heap := update s.heap p (some { r with a := update r.a i v }) }

/-- `Array::set()` -/
def set [BEq α] (s : State ι α) (x : ι) (i : Fin 128) (v : α) (fresh : Fin 128 → α) :
    Option (State ι α) := do
  let s ← s.own x i v fresh
  s.store x i v

/-- There is no result if the behaviour is undefined. -/
def step [BEq α] (s : State ι α) : Op ι α → Option (State ι α)
  | .construct x => some { s with ptr := update s.ptr x none }
  | .assign x y => s.assign x y
  | .set x i v fresh => s.set x i v fresh
  | .destroy x => s.letGo x

end State

/-! ## Arrays as values -/

/-- The arrays that live, each with its own elements once something was written to it. -/
abbrev Values (ι α : Type) : Type :=
  ι → Option (Option (Fin 128 → α))

namespace Values

variable {ι α : Type}

def read (m : Values ι α) (x : ι) (i : Fin 128) : Option α :=
  (m x).join.map (· i)

variable [DecidableEq ι]

/-- There is no result if the program uses an array that does not live. -/
def step (m : Values ι α) : Op ι α → Option (Values ι α)
  | .construct x => if (m x).isNone then some (update m x (some none)) else none
  | .assign x y => do
      let _ ← m x
      let a ← m y
      some (update m x (some a))
  | .set x i v fresh => do
      let a ← m x
      some (update m x (some (some (update (a.getD fresh) i v))))
  | .destroy x => do
      let _ ← m x
      some (update m x none)

end Values

section Program

variable {ι α : Type} [DecidableEq ι] [BEq α]

/-- Reads give the values, the counts are right, and a buffer is there as long as an array
refers to it. -/
structure Correct [Fintype ι] (s : State ι α) (m : Values ι α) : Prop where
  value : ∀ x i, s.read x i = m.read x i
  counted : ∀ p r, s.heap p = some r → r.refcount = s.refs p
  freed : ∀ p, s.heap p = none ↔ s.refs p = 0

/-- The state is correct before and after every operation of the program. -/
def Right [Fintype ι] (s : State ι α) (m : Values ι α) : List (Op ι α) → Prop
  | [] => Correct s m
  | op :: ops =>
      Correct s m ∧ ∀ m', m.step op = some m' → ∃ s', s.step op = some s' ∧ Right s' m' ops

/-- What has to hold before an operation. A value that equals an element and is not the
same is a zero of the other sign. -/
def Sound (s : State ι α) : Op ι α → Prop
  | .construct _ => True
  | .assign x y => x = y ∨
      s.ptr x = none ∧ ∀ p r, s.ptr y = some p → s.heap p = some r → r.refcount ≠ intMax
  | .set x i v _ => ∀ p r, s.ptr x = some p → s.heap p = some r → 1 < r.refcount →
      (r.a i == v) = true → r.a i = v
  | .destroy x => s.ptr x ≠ none

/-- Every operation of the program that uses only living arrays is sound where it comes. -/
def Fine (s : State ι α) (m : Values ι α) : List (Op ι α) → Prop
  | [] => True
  | op :: ops => ∀ m', m.step op = some m' →
      Sound s op ∧ ∀ s', s.step op = some s' → Fine s' m' ops

end Program

/-! ## What the operations keep -/

section References

variable {ι α : Type} {s s' : State ι α} {x y : ι} {p : ℕ} {r : Rep α}

theorem elements_of_ptr (hx : s.ptr x = some p) (hp : s.heap p = some r) :
    s.elements x = some r.a := by
  simp [State.elements, hx, hp]

theorem store_eq {i : Fin 128} {v : α} (hx : s.ptr x = some p) (hr : s.heap p = some r) :
    s.store x i v =
      some { s with heap := update s.heap p (some { r with a := update r.a i v }) } := by
  simp [State.store, hx, hr]

theorem elements_of_null (hx : s.ptr x = none) : s.elements x = none := by
  simp [State.elements, hx]

variable [Fintype ι]

theorem one_lt_refs (hx : s.ptr x = some p) (hy : s.ptr y = some p) (hne : y ≠ x) :
    1 < s.refs p := by
  refine Finset.one_lt_card.mpr ⟨y, ?_, x, ?_, hne⟩
  · exact Finset.mem_filter.mpr ⟨Finset.mem_univ y, hy⟩
  · exact Finset.mem_filter.mpr ⟨Finset.mem_univ x, hx⟩

theorem refs_update [DecidableEq ι] {c : Option ℕ} (hptr : s'.ptr = update s.ptr x c) :
    s'.refs p + (if s.ptr x = some p then 1 else 0) = s.refs p + if c = some p then 1 else 0 := by
  rw [State.refs, State.refs, hptr, countOf_update]

end References

section New

variable {ι α : Type} [DecidableEq ι] (s : State ι α) (x : ι) (rep : Rep α)

theorem new_ptr : (s.new x rep).ptr = update s.ptr x (some s.next) :=
  rfl

theorem new_ptr_self : (s.new x rep).ptr x = some s.next :=
  Function.update_self ..

theorem new_heap_self : (s.new x rep).heap s.next = some rep :=
  Function.update_self ..

theorem new_heap_of_ne {q : ℕ} (hq : q ≠ s.next) : (s.new x rep).heap q = s.heap q :=
  Function.update_of_ne hq ..

end New

section Cases

variable {ι α : Type} [DecidableEq ι] {s s' : State ι α} {x y : ι}

/-- What `~Array()` did. -/
structure LetGo (s s' : State ι α) (x : ι) (p : ℕ) (r : Rep α) : Prop where
  was : s.ptr x = some p
  rep : s.heap p = some r
  ptr : s'.ptr = update s.ptr x none
  next : s'.next = s.next
  other : ∀ q, q ≠ p → s'.heap q = s.heap q
  heap : s'.heap p =
    if r.refcount - 1 = 0 then none else some { r with refcount := r.refcount - 1 }

theorem letGo_of_letGo (hgo : s.letGo x = some s') : ∃ p r, LetGo s s' x p r := by
  cases hp : s.ptr x with
  | none => simp [State.letGo, State.release, hp] at hgo
  | some p =>
      cases hr : s.heap p with
      | none => simp [State.letGo, State.release, hp, hr] at hgo
      | some r =>
          simp only [State.letGo, State.release, hp, hr, Option.bind_eq_bind, Option.bind_some,
            Option.some.injEq] at hgo
          subst hgo
          exact ⟨p, r, hp, hr, rfl, rfl, fun q hq => Function.update_of_ne hq ..,
            Function.update_self ..⟩

/-- What an assignment of an array that refers to a buffer did. -/
structure Shared (s s' : State ι α) (x : ι) (p : ℕ) (r : Rep α) : Prop where
  rep : s.heap p = some r
  ptr : s'.ptr = update s.ptr x (some p)
  next : s'.next = s.next
  heap : s'.heap = update s.heap p (some { r with refcount := r.refcount + 1 })

theorem assign_cases (hne : x ≠ y) (hassign : s.assign x y = some s') :
    s.ptr y = none ∧ s' = { s with ptr := update s.ptr x none } ∨
      ∃ p r, s.ptr y = some p ∧ r.refcount ≠ intMax ∧ Shared s s' x p r := by
  rw [State.assign, if_neg hne] at hassign
  cases hp : s.ptr y with
  | none =>
      rw [hp] at hassign
      exact .inl ⟨rfl, (Option.some.inj hassign).symm⟩
  | some p =>
      cases hr : s.heap p with
      | none => simp [hp, hr] at hassign
      | some r =>
          simp only [hp, hr, Option.bind_eq_bind, Option.bind_some] at hassign
          split at hassign
          · cases hassign
          · next hmax =>
              cases hassign
              exact .inr ⟨p, r, rfl, hmax, hr, rfl, rfl, rfl⟩

end Cases

section Keeps

variable {ι α : Type} [Fintype ι] {s s' : State ι α} {m m' : Values ι α} {x y : ι} {p : ℕ}
  {r : Rep α}

/-- The arrays have their values, also while buffers leak: a count is never too low. -/
structure Holds (s : State ι α) (m : Values ι α) : Prop where
  elements : ∀ x, s.elements x = (m x).join
  valid : ∀ x p, s.ptr x = some p → ∃ r, s.heap p = some r
  atLeast : ∀ p r, s.heap p = some r → (s.refs p : ℤ) ≤ r.refcount
  unused : ∀ p, s.next ≤ p → s.heap p = none

/-- The counts are right, and every buffer has an array that refers to it. -/
def Exact (s : State ι α) : Prop :=
  ∀ p r, s.heap p = some r → r.refcount = s.refs p ∧ s.refs p ≠ 0

theorem holds_init : Holds ({} : State ι α) fun _ => none where
  elements _ := rfl
  valid _ _ h := nomatch h
  atLeast _ _ h := nomatch h
  unused _ _ := rfl

theorem exact_init : Exact ({} : State ι α) :=
  fun _ _ h => nomatch h

theorem Holds.refs_eq_zero (h : Holds s m) (hp : s.heap p = none) : s.refs p = 0 := by
  by_contra hne
  obtain ⟨y, hy⟩ := (countOf_pos_iff _ _).mp (Nat.pos_of_ne_zero hne)
  obtain ⟨r, hr⟩ := h.valid y p hy
  rw [hp] at hr
  cases hr

theorem Holds.correct (h : Holds s m) (he : Exact s) : Correct s m where
  value x i := by rw [State.read, Values.read, h.elements]
  counted p r hr := (he p r hr).1
  freed p := by
    refine ⟨h.refs_eq_zero, fun hzero => ?_⟩
    cases hp : s.heap p with
    | none => rfl
    | some r => exact absurd hzero (he p r hp).2

/-- An operation that changes one array and keeps the elements that the others refer to. -/
theorem Holds.change (h : Holds s m) {c : Option (Fin 128 → α)}
    (hptr : ∀ y, y ≠ x → s'.ptr y = s.ptr y)
    (hkeep : ∀ y p r, y ≠ x → s.ptr y = some p → s.heap p = some r →
      ∃ r', s'.heap p = some r' ∧ r'.a = r.a)
    (hx : s'.elements x = c) (hvalid : ∀ p, s'.ptr x = some p → ∃ r, s'.heap p = some r)
    (hleast : ∀ p r, s'.heap p = some r → (s'.refs p : ℤ) ≤ r.refcount)
    (hunused : ∀ p, s'.next ≤ p → s'.heap p = none)
    (hm : (m' x).join = c) (hm' : ∀ y, y ≠ x → m' y = m y) : Holds s' m' where
  elements y := by
    rcases eq_or_ne y x with rfl | hne
    · rw [hx, hm]
    · rw [hm' y hne, ← h.elements y]
      cases hy : s.ptr y with
      | none => rw [elements_of_null hy, elements_of_null ((hptr y hne).trans hy)]
      | some p =>
          obtain ⟨r, hr⟩ := h.valid y p hy
          obtain ⟨r', hr', ha⟩ := hkeep y p r hne hy hr
          rw [elements_of_ptr hy hr, elements_of_ptr ((hptr y hne).trans hy) hr', ha]
  valid y p hy := by
    rcases eq_or_ne y x with rfl | hne
    · exact hvalid p hy
    · rw [hptr y hne] at hy
      obtain ⟨r, hr⟩ := h.valid y p hy
      obtain ⟨r', hr', -⟩ := hkeep y p r hne hy hr
      exact ⟨r', hr'⟩
  atLeast := hleast
  unused := hunused

theorem Holds.ptr_eq_none (h : Holds s m) (hx : (m x).join = none) : s.ptr x = none := by
  cases hp : s.ptr x with
  | none => rfl
  | some p =>
      obtain ⟨r, hr⟩ := h.valid x p hp
      have helements := h.elements x
      rw [elements_of_ptr hp hr, hx] at helements
      cases helements

theorem Exact.store (he : Exact s) {i : Fin 128} {v : α} (hr : s.heap p = some r) :
    Exact { s with heap := update s.heap p (some { r with a := update r.a i v }) } := by
  intro q r' hr'
  rcases eq_or_ne q p with rfl | hq
  · have hr' : update s.heap q _ q = some r' := hr'
    rw [Function.update_self, Option.some.injEq] at hr'
    rw [← hr']
    exact he q r hr
  · exact he q r' ((Function.update_of_ne hq _ _).symm.trans hr')

section Store

variable {i : Fin 128} {v : α} (hx : s.ptr x = some p) (hr : s.heap p = some r)
include hx hr

theorem Holds.store (h : Holds s m) (hm : (m' x).join = some (update r.a i v))
    (hm' : ∀ y, y ≠ x → m' y = m y) (halone : r.refcount ≤ 1 ∨ r.a i = v) :
    Holds { s with heap := update s.heap p (some { r with a := update r.a i v }) } m' := by
  refine h.change (fun _ _ => rfl) ?_ (elements_of_ptr hx (Function.update_self ..)) ?_ ?_ ?_ hm hm'
  · intro y q r' hne hy hr'
    rcases eq_or_ne q p with rfl | hq
    · rw [hr, Option.some.injEq] at hr'
      refine ⟨_, Function.update_self .., ?_⟩
      rcases halone with halone | hsame
      · -- nothing else refers to the buffer
        have htwo := one_lt_refs hx hy hne
        have hleast := h.atLeast q r hr
        omega
      · rw [← hr', ← hsame, Function.update_eq_self]
    · exact ⟨r', (Function.update_of_ne hq _ _).trans hr', rfl⟩
  · intro q hq
    rw [hx, Option.some.injEq] at hq
    subst hq
    exact ⟨_, Function.update_self ..⟩
  · intro q r' hr'
    rcases eq_or_ne q p with rfl | hq
    · have hr' : update s.heap q _ q = some r' := hr'
      rw [Function.update_self, Option.some.injEq] at hr'
      rw [← hr']
      exact h.atLeast q r hr
    · exact h.atLeast q r' ((Function.update_of_ne hq _ _).symm.trans hr')
  · intro q hq
    have hne : q ≠ p := by
      rintro rfl
      rw [h.unused q hq] at hr
      cases hr
    exact (Function.update_of_ne hne _ _).trans (h.unused q hq)

end Store

variable [DecidableEq ι]

/-- The pointer of an array becomes null, as that of a new one is. -/
theorem Holds.null (h : Holds s m) (hm : (m' x).join = none) (hm' : ∀ y, y ≠ x → m' y = m y) :
    Holds { s with ptr := update s.ptr x none } m' := by
  refine h.change (fun y hne => Function.update_of_ne hne _ _) (fun _ _ r _ _ hr => ⟨r, hr, rfl⟩)
    (elements_of_null (Function.update_self ..)) ?_ ?_ h.unused hm hm'
  · intro p hp
    have hp : update s.ptr x none x = some p := hp
    rw [Function.update_self] at hp
    cases hp
  · intro p r hr
    have hrefs : State.refs { s with ptr := update s.ptr x none } p + _ = _ := refs_update rfl
    have hleast := h.atLeast p r hr
    rw [if_neg (c := none = some p) nofun] at hrefs
    omega

theorem Exact.null (he : Exact s) (hx : s.ptr x = none) :
    Exact { s with ptr := update s.ptr x none } := by
  rw [← hx, Function.update_eq_self]
  exact he

section New

variable (h : Holds s m) (hx : s.ptr x = none) (a : Fin 128 → α)
include h hx

theorem Holds.refs_new (q : ℕ) (r : Rep α) (hr : (s.new x ⟨1, a⟩).heap q = some r) :
    q = s.next ∧ r.refcount = 1 ∧ (s.new x ⟨1, a⟩).refs q = 1 ∨
      s.heap q = some r ∧ (s.new x ⟨1, a⟩).refs q = s.refs q := by
  have hrefs := refs_update (p := q) (new_ptr s x ⟨1, a⟩)
  rw [if_neg (by rw [hx]; nofun)] at hrefs
  rcases eq_or_ne q s.next with rfl | hne
  · rw [new_heap_self, Option.some.injEq] at hr
    rw [if_pos rfl, h.refs_eq_zero (h.unused _ le_rfl)] at hrefs
    exact .inl ⟨rfl, hr ▸ rfl, by omega⟩
  · rw [new_heap_of_ne _ _ _ hne] at hr
    rw [if_neg (by simpa using hne.symm)] at hrefs
    exact .inr ⟨hr, by omega⟩

theorem Holds.new : Holds (s.new x ⟨1, a⟩) (update m x (some (some a))) := by
  refine h.change (x := x) (c := some a) (fun y hne => Function.update_of_ne hne _ _) ?_ ?_ ?_ ?_ ?_
    ?_ (fun y hne => Function.update_of_ne hne _ _)
  · intro y p r hne hy hr
    have hne : p ≠ s.next := by
      rintro rfl
      rw [h.unused _ le_rfl] at hr
      cases hr
    exact ⟨r, (new_heap_of_ne _ _ _ hne).trans hr, rfl⟩
  · exact elements_of_ptr (new_ptr_self ..) (new_heap_self ..)
  · intro p hp
    rw [new_ptr_self, Option.some.injEq] at hp
    exact ⟨_, hp ▸ new_heap_self ..⟩
  · intro q r hr
    rcases h.refs_new hx a q r hr with ⟨-, hone, hrefs⟩ | ⟨hr, hrefs⟩
    · omega
    · rw [hrefs]
      exact h.atLeast q r hr
  · intro q hq
    have hlt : s.next < q := hq
    exact (new_heap_of_ne _ _ _ hlt.ne').trans (h.unused q hlt.le)
  · rw [Function.update_self]
    rfl

theorem Holds.exact_new (he : Exact s) : Exact (s.new x ⟨1, a⟩) := by
  intro q r hr
  rcases h.refs_new hx a q r hr with ⟨-, hone, hrefs⟩ | ⟨hr, hrefs⟩
  · omega
  · rw [hrefs]
    exact he q r hr

end New

/-- An array lets go of its buffer exactly if it refers to one. -/
theorem Holds.exists_letGo (h : Holds s m) (hx : s.ptr x ≠ none) : ∃ s', s.letGo x = some s' := by
  obtain ⟨p, hp⟩ := Option.ne_none_iff_exists'.mp hx
  obtain ⟨r, hr⟩ := h.valid x p hp
  exact ⟨_, by simp only [State.letGo, State.release, hp, hr, Option.bind_eq_bind,
    Option.bind_some]; rfl⟩

section LetGo

variable (hgo : LetGo s s' x p r)
include hgo

theorem LetGo.refs (q : ℕ) (r' : Rep α) (hr' : s'.heap q = some r') :
    q = p ∧ r'.a = r.a ∧ r.refcount = r'.refcount + 1 ∧ r'.refcount ≠ 0 ∧
        s.refs p = s'.refs p + 1 ∨
      q ≠ p ∧ s.heap q = some r' ∧ s'.refs q = s.refs q := by
  have hrefs := refs_update (p := q) hgo.ptr
  rw [if_neg (c := none = some q) nofun, hgo.was] at hrefs
  rcases eq_or_ne q p with rfl | hne
  · rw [if_pos rfl] at hrefs
    rw [hgo.heap] at hr'
    split at hr'
    · cases hr'
    · next hzero =>
        cases hr'
        exact .inl ⟨rfl, rfl, by simp, hzero, by omega⟩
  · rw [if_neg (by simpa using hne.symm)] at hrefs
    exact .inr ⟨hne, hgo.other q hne ▸ hr', by omega⟩

theorem LetGo.holds (h : Holds s m) (hc : (m' x).join = none)
    (hm' : ∀ y, y ≠ x → m' y = m y) : Holds s' m' := by
  have hnull : s'.ptr x = none := by rw [hgo.ptr, Function.update_self]
  refine h.change (c := none) (fun y hne => by rw [hgo.ptr, Function.update_of_ne hne]) ?_
    (elements_of_null hnull) (fun q hq => by rw [hnull] at hq; cases hq) ?_ ?_ hc hm'
  · intro y q r' hne hy hr'
    rcases eq_or_ne q p with rfl | hq
    · -- another array refers to the buffer, so the count does not reach 0
      rw [hgo.rep, Option.some.injEq] at hr'
      have htwo := one_lt_refs hgo.was hy hne
      have hleast := h.atLeast q r hgo.rep
      rw [hgo.heap, if_neg (by omega)]
      exact ⟨_, rfl, by rw [← hr']⟩
    · exact ⟨r', (hgo.other q hq).trans hr', rfl⟩
  · intro q r' hr'
    rcases hgo.refs q r' hr' with ⟨rfl, -, hcount, -, hrefs⟩ | ⟨-, hr, hrefs⟩
    · have := h.atLeast q r hgo.rep
      omega
    · rw [hrefs]
      exact h.atLeast q r' hr
  · intro q hq
    rw [hgo.next] at hq
    have hne : q ≠ p := by
      rintro rfl
      have hr := h.unused q hq
      rw [hgo.rep] at hr
      cases hr
    rw [hgo.other q hne, h.unused q hq]

theorem LetGo.exact (he : Exact s) : Exact s' := by
  intro q r' hr'
  rcases hgo.refs q r' hr' with ⟨rfl, -, hcount, hzero, hrefs⟩ | ⟨-, hr, hrefs⟩
  · have := (he q r hgo.rep).1
    omega
  · rw [hrefs]
    exact he q r' hr

end LetGo

/-! Assignments -/

section Shared

variable (hsh : Shared s s' x p r)
include hsh

theorem Shared.refs (q : ℕ) (r' : Rep α) (hr' : s'.heap q = some r') :
    (q = p ∧ r' = { r with refcount := r.refcount + 1 } ∨ q ≠ p ∧ s.heap q = some r') ∧
      s'.refs q + (if s.ptr x = some q then 1 else 0) = s.refs q + if q = p then 1 else 0 := by
  have hrefs := refs_update (p := q) hsh.ptr
  simp only [Option.some.injEq, eq_comm (a := p)] at hrefs
  refine ⟨?_, hrefs⟩
  rw [hsh.heap] at hr'
  rcases eq_or_ne q p with rfl | hne
  · rw [Function.update_self, Option.some.injEq] at hr'
    exact .inl ⟨rfl, hr'.symm⟩
  · rw [Function.update_of_ne hne] at hr'
    exact .inr ⟨hne, hr'⟩

theorem Shared.holds (h : Holds s m) (hm : (m' x).join = some r.a)
    (hm' : ∀ y, y ≠ x → m' y = m y) : Holds s' m' := by
  have hx : s'.ptr x = some p := by rw [hsh.ptr, Function.update_self]
  have hhere : s'.heap p = some { r with refcount := r.refcount + 1 } := by
    rw [hsh.heap, Function.update_self]
  refine h.change (fun y hne => by rw [hsh.ptr, Function.update_of_ne hne]) ?_
    (elements_of_ptr hx hhere) ?_ ?_ ?_ hm hm'
  · intro y q r' _ _ hr'
    rcases eq_or_ne q p with rfl | hne
    · rw [hsh.rep, Option.some.injEq] at hr'
      exact ⟨_, hhere, by rw [← hr']⟩
    · exact ⟨r', by rw [hsh.heap, Function.update_of_ne hne, hr'], rfl⟩
  · intro q hq
    rw [hx, Option.some.injEq] at hq
    exact ⟨_, hq ▸ hhere⟩
  · intro q r' hr'
    obtain ⟨hcases, hrefs⟩ := hsh.refs q r' hr'
    rcases hcases with ⟨rfl, rfl⟩ | ⟨hne, hr⟩
    · have := h.atLeast q r hsh.rep
      rw [if_pos rfl] at hrefs
      push_cast
      omega
    · have := h.atLeast q r' hr
      rw [if_neg hne] at hrefs
      omega
  · intro q hq
    rw [hsh.next] at hq
    have hne : q ≠ p := by
      rintro rfl
      have hr := h.unused q hq
      rw [hsh.rep] at hr
      cases hr
    rw [hsh.heap, Function.update_of_ne hne, h.unused q hq]

theorem Shared.exact (he : Exact s) (hx : s.ptr x = none) : Exact s' := by
  intro q r' hr'
  obtain ⟨hcases, hrefs⟩ := hsh.refs q r' hr'
  rw [hx, if_neg nofun] at hrefs
  rcases hcases with ⟨rfl, rfl⟩ | ⟨hne, hr⟩
  · have := (he q r hsh.rep).1
    rw [if_pos rfl] at hrefs
    exact ⟨by push_cast [← hrefs]; omega, by omega⟩
  · have := he q r' hr
    rw [if_neg hne] at hrefs
    exact ⟨by omega, by omega⟩

end Shared

theorem Holds.assign (h : Holds s m) {c : Option (Fin 128 → α)} (hy : m y = some c)
    (hassign : s.assign x y = some s') : Holds s' (update m x (some c)) := by
  have hm' : ∀ z, z ≠ x → update m x (some c) z = m z := fun z hne => Function.update_of_ne hne _ _
  have hvalue : (update m x (some c) x).join = s.elements y := by
    rw [Function.update_self, h.elements y, hy]
  rcases eq_or_ne x y with rfl | hne
  · rw [State.assign, if_pos rfl, Option.some.injEq] at hassign
    rwa [← hassign, ← hy, Function.update_eq_self]
  · rcases assign_cases hne hassign with ⟨hnull, rfl⟩ | ⟨p, r, hp, -, hsh⟩
    · exact h.null (by rw [hvalue, elements_of_null hnull]) hm'
    · exact hsh.holds h (by rw [hvalue, elements_of_ptr hp hsh.rep]) hm'

theorem Exact.assign (he : Exact s) (hx : x = y ∨ s.ptr x = none)
    (hassign : s.assign x y = some s') : Exact s' := by
  rcases eq_or_ne x y with rfl | hne
  · rw [State.assign, if_pos rfl, Option.some.injEq] at hassign
    rwa [← hassign]
  · have hx := hx.resolve_left hne
    rcases assign_cases hne hassign with ⟨-, rfl⟩ | ⟨p, r, -, -, hsh⟩
    · exact he.null hx
    · exact hsh.exact he hx

theorem Holds.exists_assign (h : Holds s m)
    (hmax : ∀ p r, s.ptr y = some p → s.heap p = some r → r.refcount ≠ intMax) :
    ∃ s', s.assign x y = some s' := by
  rw [State.assign]
  split
  · exact ⟨s, rfl⟩
  · split
    · exact ⟨_, rfl⟩
    · next p hp =>
        obtain ⟨r, hr⟩ := h.valid y p hp
        simp [hr, hmax p r hp hr]

/-! Writes -/

section Set

variable [BEq α] {c : Option (Fin 128 → α)} {i : Fin 128} {v : α} {fresh : Fin 128 → α}

variable (i v fresh) in
/-- The array has a buffer then, with the same elements. It is its own one unless the
write changes nothing. -/
theorem Holds.own (h : Holds s m) (hx : m x = some c) :
    ∃ s' p r, s.own x i v fresh = some s' ∧
      Holds s' (update m x (some (some (c.getD fresh)))) ∧ (Exact s → Exact s') ∧
      s'.ptr x = some p ∧ s'.heap p = some r ∧ r.a = c.getD fresh ∧
      (r.refcount ≤ 1 ∨ s' = s ∧ 1 < r.refcount ∧ (r.a i == v) = true) := by
  have helements := h.elements x
  rw [hx] at helements
  cases hp : s.ptr x with
  | none =>
      have hc : c = none := helements.symm.trans (elements_of_null hp)
      subst hc
      refine ⟨s.new x ⟨1, fresh⟩, s.next, _, by simp [State.own, hp], h.new hp fresh,
        h.exact_new hp fresh, new_ptr_self .., new_heap_self .., rfl, .inl le_rfl⟩
  | some p =>
      obtain ⟨r, hr⟩ := h.valid x p hp
      have hc : c = some r.a := helements.symm.trans (elements_of_ptr hp hr)
      subst hc
      by_cases hcopy : 1 < r.refcount ∧ r.a i != v
      · obtain ⟨s₁, hs₁⟩ := h.exists_letGo (x := x) (by rw [hp]; nofun)
        obtain ⟨p', r', hgo⟩ := letGo_of_letGo hs₁
        have hnull : s₁.ptr x = none := by rw [hgo.ptr, Function.update_self]
        have h₁ : Holds s₁ (update m x (some none)) :=
          hgo.holds h (by rw [Function.update_self]; rfl) fun y hne => Function.update_of_ne hne _ _
        refine ⟨s₁.new x ⟨1, r.a⟩, s₁.next, _, by simp [State.own, hp, hr, hcopy, hs₁], ?_,
          fun he => h₁.exact_new hnull r.a (hgo.exact he), new_ptr_self .., new_heap_self .., rfl,
          .inl le_rfl⟩
        have hnew := h₁.new hnull r.a
        rwa [Function.update_idem] at hnew
      · refine ⟨s, p, r, by simp only [State.own, hp, hr, Option.bind_eq_bind, Option.bind_some,
          if_neg hcopy], ?_, id, hp, hr, rfl, ?_⟩
        · rwa [Option.getD_some, ← hx, Function.update_eq_self]
        · rcases le_or_gt r.refcount 1 with hle | hlt
          · exact .inl hle
          · refine .inr ⟨rfl, hlt, ?_⟩
            by_contra hne
            exact hcopy ⟨hlt, by simpa [bne] using hne⟩

theorem Holds.set (h : Holds s m) (hx : m x = some c) (hset : Sound s (.set x i v fresh)) :
    ∃ s', s.set x i v fresh = some s' ∧
      Holds s' (update m x (some (some (update (c.getD fresh) i v)))) ∧ (Exact s → Exact s') := by
  obtain ⟨s₁, p, r, hown, h₁, hexact, hp, hr, ha, halone⟩ := h.own i v fresh hx
  have halone : r.refcount ≤ 1 ∨ r.a i = v := by
    refine halone.imp_right ?_
    rintro ⟨rfl, hlt, heq⟩
    exact hset p r hp hr hlt heq
  refine ⟨_, by rw [State.set, hown]; exact store_eq hp hr, ?_,
    fun he => (hexact he).store hr⟩
  refine h₁.store hp hr (by rw [Function.update_self, ha]; rfl) (fun y hne => ?_) halone
  rw [Function.update_of_ne hne, Function.update_of_ne hne]

end Set

/-! ## Programs -/

/-- An assignment does not let go of the buffer that the array had before. -/
theorem Exact.not_correct_assign (he : Exact s) (h : Holds s m) (hne : x ≠ y)
    (hx : s.ptr x = some p) (hassign : s.assign x y = some s') : ¬ Correct s' m' := by
  intro hc
  obtain ⟨r, hr⟩ := h.valid x p hx
  have hcount := (he p r hr).1
  rcases assign_cases hne hassign with ⟨-, rfl⟩ | ⟨q, r', -, -, hsh⟩
  · have hrefs : State.refs { s with ptr := update s.ptr x none } p + _ = _ := refs_update rfl
    rw [hx, if_pos rfl, if_neg nofun] at hrefs
    have := hc.counted p r hr
    omega
  · rcases eq_or_ne p q with rfl | hpq
    · have hhere : s'.heap p = some { r' with refcount := r'.refcount + 1 } := by
        rw [hsh.heap, Function.update_self]
      have hrefs := (hsh.refs p _ hhere).2
      have hafter : r'.refcount + 1 = s'.refs p := hc.counted p _ hhere
      rw [hx, if_pos rfl, if_pos rfl] at hrefs
      rw [hsh.rep, Option.some.injEq] at hr
      subst hr
      omega
    · have hhere : s'.heap p = some r := by rw [hsh.heap, Function.update_of_ne hpq, hr]
      have hrefs := (hsh.refs p _ hhere).2
      have hafter := hc.counted p _ hhere
      rw [hx, if_pos rfl, if_neg hpq] at hrefs
      omega

section Program

variable [BEq α] {op : Op ι α}

/-- What one operation keeps, whether or not a buffer leaks. -/
theorem Holds.step (h : Holds s m) (hset : ∀ x i v fresh, op = .set x i v fresh → Sound s op)
    (hm : m.step op = some m') (hs : s.step op = some s') : Holds s' m' := by
  cases op with
  | construct x =>
      have hm : (if (m x).isNone then some (update m x (some none)) else none) = some m' := hm
      split at hm
      · cases hm
        cases hs
        exact h.null (by rw [Function.update_self]; rfl) fun y hne => Function.update_of_ne hne _ _
      · cases hm
  | assign x y =>
      obtain ⟨-, -, hm⟩ := Option.bind_eq_some_iff.mp hm
      obtain ⟨c, hy, hm⟩ := Option.bind_eq_some_iff.mp hm
      cases hm
      exact h.assign hy hs
  | set x i v fresh =>
      obtain ⟨c, hx, hm⟩ := Option.bind_eq_some_iff.mp hm
      cases hm
      obtain ⟨s₁, hs₁, hholds, -⟩ := h.set hx (hset x i v fresh rfl)
      cases hs₁.symm.trans hs
      exact hholds
  | destroy x =>
      obtain ⟨-, -, hm⟩ := Option.bind_eq_some_iff.mp hm
      cases hm
      obtain ⟨p, r, hgo⟩ := letGo_of_letGo hs
      exact hgo.holds h (by rw [Function.update_self]; rfl) fun y hne =>
        Function.update_of_ne hne _ _

theorem Exact.step (h : Holds s m) (he : Exact s) (hsound : Sound s op)
    (hm : m.step op = some m') (hs : s.step op = some s') : Exact s' := by
  cases op with
  | construct x =>
      have hm : (if (m x).isNone then some (update m x (some none)) else none) = some m' := hm
      split at hm
      · next hx =>
          cases hs
          exact he.null (h.ptr_eq_none (by rw [Option.isNone_iff_eq_none.mp hx]; rfl))
      · cases hm
  | assign x y => exact he.assign (hsound.imp_right And.left) hs
  | set x i v fresh =>
      obtain ⟨c, hx, -⟩ := Option.bind_eq_some_iff.mp hm
      obtain ⟨s₁, hs₁, -, hexact⟩ := h.set hx hsound
      cases hs₁.symm.trans hs
      exact hexact he
  | destroy x =>
      obtain ⟨p, r, hgo⟩ := letGo_of_letGo hs
      exact hgo.exact he

theorem Holds.exists_step (h : Holds s m) (hsound : Sound s op) (hm : m.step op = some m') :
    ∃ s', s.step op = some s' := by
  cases op with
  | construct x => exact ⟨_, rfl⟩
  | assign x y =>
      rcases hsound with rfl | ⟨-, hmax⟩
      · exact ⟨s, by rw [State.step, State.assign, if_pos rfl]⟩
      · exact h.exists_assign hmax
  | set x i v fresh =>
      obtain ⟨c, hx, -⟩ := Option.bind_eq_some_iff.mp hm
      obtain ⟨s', hs', -⟩ := h.set hx hsound
      exact ⟨s', hs'⟩
  | destroy x => exact h.exists_letGo hsound

theorem Exact.sound_of_correct (he : Exact s) (h : Holds s m) (hm : m.step op = some m')
    (hs : s.step op = some s') (hc : Correct s' m') : Sound s op := by
  cases op with
  | construct x => trivial
  | assign x y =>
      by_cases hne : x = y
      · exact .inl hne
      · refine .inr ⟨?_, fun p r hp hr => ?_⟩
        · cases hp : s.ptr x with
          | none => rfl
          | some p => exact absurd hc (he.not_correct_assign h hne hp hs)
        · rcases assign_cases hne hs with ⟨hnull, -⟩ | ⟨q, r', hq, hmax, hsh⟩
          · rw [hnull] at hp
            cases hp
          · cases hp.symm.trans hq
            cases hr.symm.trans hsh.rep
            exact hmax
  | set x i v fresh =>
      intro p r hp hr hlt heq
      obtain ⟨c, hx, hm⟩ := Option.bind_eq_some_iff.mp hm
      cases hm
      have hown : s.own x i v fresh = some s := by
        simp [State.own, hp, hr, heq, bne]
      rw [State.step, State.set, hown, Option.bind_eq_bind, Option.bind_some, store_eq hp hr] at hs
      cases hs
      -- another array reads the element that was written
      have htwo : 1 < s.refs p := by
        have := (he p r hr).1
        omega
      obtain ⟨y, hne, hy⟩ := exists_ne_of_one_lt_countOf htwo x
      have hread := hc.value y i
      have hnow := elements_of_ptr
        (s := { s with heap := update s.heap p (some { r with a := update r.a i v }) }) hy
        (Function.update_self ..)
      rw [State.read, hnow, Values.read, Function.update_of_ne hne, ← h.elements y,
        elements_of_ptr hy hr] at hread
      simpa using hread.symm
  | destroy x =>
      obtain ⟨p, r, hgo⟩ := letGo_of_letGo hs
      rw [Sound, hgo.was]
      nofun

theorem Right.correct {ops : List (Op ι α)} (h : Right s m ops) : Correct s m := by
  cases ops with
  | nil => exact h
  | cons op ops => exact h.1

theorem right_iff_fine (h : Holds s m) (he : Exact s) (ops : List (Op ι α)) :
    Right s m ops ↔ Fine s m ops := by
  induction ops generalizing s m with
  | nil => exact iff_of_true (h.correct he) trivial
  | cons op ops ih =>
      have hkeeps : ∀ {s' m'}, Sound s op → m.step op = some m' → s.step op = some s' →
          Holds s' m' ∧ Exact s' := fun hsound hm hs =>
        ⟨h.step (fun _ _ _ _ _ => hsound) hm hs, he.step h hsound hm hs⟩
      constructor
      · rintro ⟨-, hright⟩ m' hm
        obtain ⟨s', hs, hright⟩ := hright m' hm
        have hsound := he.sound_of_correct h hm hs hright.correct
        refine ⟨hsound, fun s'' hs'' => ?_⟩
        cases hs.symm.trans hs''
        obtain ⟨h', he'⟩ := hkeeps hsound hm hs
        exact (ih h' he').mp hright
      · refine fun hfine => ⟨h.correct he, fun m' hm => ?_⟩
        obtain ⟨hsound, hfine⟩ := hfine m' hm
        obtain ⟨s', hs⟩ := h.exists_step hsound hm
        obtain ⟨h', he'⟩ := hkeeps hsound hm hs
        exact ⟨s', hs, (ih h' he').mpr (hfine s' hs)⟩

/-- Whether or not buffers leak, each array has the elements that copies of whole arrays
would have given it. -/
theorem values_of_run [LawfulBEq α] {ops : List (Op ι α)}
    (hm : ops.foldlM Values.step (fun _ => none) = some m)
    (hs : ops.foldlM State.step {} = some s) (x : ι) (i : Fin 128) : s.read x i = m.read x i := by
  have hrun : ∀ {s₀ m₀}, Holds s₀ m₀ → ops.foldlM Values.step m₀ = some m →
      ops.foldlM State.step s₀ = some s → Holds s m := by
    clear hm hs
    induction ops with
    | nil =>
        intro s₀ m₀ h hm hs
        cases hm
        cases hs
        exact h
    | cons op ops ih =>
        intro s₀ m₀ h hm hs
        obtain ⟨m₁, hm₁, hm⟩ := Option.bind_eq_some_iff.mp hm
        obtain ⟨s₁, hs₁, hs⟩ := Option.bind_eq_some_iff.mp hs
        refine ih (h.step ?_ hm₁ hs₁) hm hs
        rintro x i v fresh rfl p r - - - heq
        exact eq_of_beq heq
  rw [State.read, Values.read, (hrun holds_init hm hs).elements]

/-- In a program that uses arrays while they live, reads give the values, every count is the
number of arrays that refer to the buffer, and a buffer is deleted with the last of them,
exactly if no assignment is to an array that holds a buffer, or overflows a count, no array
is destroyed before something was written to it, and no shared zero becomes one of the other
sign. -/
theorem run_correct_iff (ops : List (Op ι α)) :
    Right {} (fun _ => none) ops ↔ Fine {} (fun _ => none) ops :=
  right_iff_fine holds_init exact_init ops

end Program

end Keeps

/-- Two arrays with elements of their own, the second of which is assigned to the first. -/
def overwritten : List (Op (Fin 2) ℤ) :=
  [.construct 0, .construct 1, .set 0 0 1 fun _ => 0, .set 1 0 2 fun _ => 0, .assign 0 1]

theorem values_of_overwritten : ∃ s m, overwritten.foldlM State.step {} = some s ∧
    overwritten.foldlM Values.step (fun _ => none) = some m ∧ ∀ x i, s.read x i = m.read x i :=
  ⟨_, _, rfl, rfl, values_of_run (show overwritten.foldlM _ _ = _ from rfl) rfl⟩

theorem not_right_overwritten : ¬ Right {} (fun _ => none) overwritten := by
  intro hright
  have hfine := (right_iff_fine holds_init exact_init _).mp hright
  have hset := (((hfine _ rfl).2 _ rfl _ rfl).2 _ rfl _ rfl).2 _ rfl _ rfl
  rcases (hset.2 _ rfl _ rfl).1 with hsame | ⟨hnull, -⟩
  · cases hsame
  · cases hnull

end CopyOnWrite

end Sfz

end LinuxSampler
