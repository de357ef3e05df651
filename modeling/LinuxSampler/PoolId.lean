import LinuxSampler.PoolRun
import Mathlib.Data.Nat.Size
import Mathlib.Tactic.Ring

/-!
# Element IDs of a pool

An ID packs the index of an element and the number of its releases into
one word. The counter has as many bits as the pool size and the reserved
bits leave, but its mask is computed with an `int`: from 32 bits on the
shift count is taken modulo 32 and the counter wraps too early. The same
holds for the mask of the index.
-/

namespace LinuxSampler

variable {ι : Type*} [DecidableEq ι] {P P' : Pool ι} {L : Lists ι} {i j n r : ℕ}

namespace Pool

/-! ## Bit widths -/

theorem size_shiftRight_two {m : ℕ} (h : m > 1) : Nat.size (m >>> 2) + 2 = Nat.size m := by
  rw [Nat.shiftRight_eq_div_pow]
  have hlt := Nat.lt_size_self (m / 2 ^ 2)
  apply le_antisymm
  · by_cases h0 : m / 2 ^ 2 = 0
    · rw [h0, Nat.size_zero]
      exact Nat.lt_size.mpr h
    · have hpos : 0 < Nat.size (m / 2 ^ 2) := Nat.size_pos.mpr (Nat.pos_of_ne_zero h0)
      obtain ⟨s, hs⟩ : ∃ s, Nat.size (m / 2 ^ 2) = s + 1 := ⟨_, (Nat.succ_pred_eq_of_pos hpos).symm⟩
      have hle : 2 ^ s ≤ m / 2 ^ 2 := Nat.lt_size.mp (by omega)
      rw [hs]
      refine Nat.lt_size.mpr ?_
      rw [pow_add]
      omega
  · refine Nat.size_le.mpr ?_
    rw [pow_add]
    omega

theorem countBits_eq (bits size : ℕ) : countBits bits size = bits + Nat.size size := by
  induction bits, size using countBits.induct with
  | case1 bits size h ih =>
      rw [countBits, if_pos h, ih, ← size_shiftRight_two h]
      ring
  | case2 bits size h =>
      rw [countBits, if_neg h]
      obtain rfl | rfl : size = 0 ∨ size = 1 := by omega
      · rfl
      · rw [Nat.size_one]

/-- The bits of a pool of `n` elements are those of the number `n`. -/
theorem bitsForSize_eq (n : ℕ) : bitsForSize (n + 1) = Nat.size n := by
  rw [bitsForSize, if_neg n.succ_ne_zero, countBits_eq, zero_add, Nat.add_sub_cancel]

theorem intMask_lt (bits : ℕ) : intMask bits < 2 ^ (bits % 32) :=
  Nat.sub_lt (Nat.two_pow_pos _) one_pos

theorem and_intMask (x bits : ℕ) : x &&& intMask bits = x % 2 ^ (bits % 32) :=
  Nat.and_two_pow_sub_one_eq_mod x _

/-- The bits that the counter really has. -/
def counterBits (bits : ℕ) : ℕ := bits % 32

theorem counterBits_lt (bits : ℕ) : counterBits bits < 32 := Nat.mod_lt _ (by decide)

theorem two_pow_counterBits_le (bits : ℕ) : 2 ^ counterBits bits ≤ 2 ^ 31 :=
  Nat.pow_le_pow_right two_pos (Nat.le_of_lt_succ (counterBits_lt bits))

omit [DecidableEq ι] in
theorem bumped_eq (P : Pool ι) (i : ℕ) : P.bumped i =
    (P.reincarnation (.node i) + 1) % 2 ^ counterBits P.reincarnationbits := by
  rw [bumped, and_intMask]
  refine Nat.mod_mod_of_dvd _ (Nat.pow_dvd_pow 2 ?_)
  exact (counterBits_lt _).le.trans (by decide)

/-! ## Packing -/

/-- A pool of `n` elements whose sizes are those of its construction and
whose counters fit into their bits. -/
structure Sized (n r : ℕ) (P : Pool ι) : Prop where
  poolsize : P.poolsize = n
  poolsizebits : P.poolsizebits = bitsForSize (n + 1)
  reincarnationbits : P.reincarnationbits = reincarnationBits (bitsForSize (n + 1)) r
  reincarnation : ∀ i, P.reincarnation (.node i) < 2 ^ counterBits P.reincarnationbits

omit [DecidableEq ι] in
theorem Sized.lt_two_pow (h : Sized n r P) (hi : i < n) : i + 1 < 2 ^ P.poolsizebits := by
  rw [h.poolsizebits, bitsForSize_eq]
  exact (Nat.succ_le_of_lt hi).trans_lt (Nat.lt_size_self n)

omit [DecidableEq ι] in
private theorem Sized.packed_lt (h : Sized n r P) (hp : P.poolsizebits < 32) (hi : i < n) :
    P.reincarnation (.node i) * 2 ^ P.poolsizebits + i + 1 < 2 ^ 63 := by
  have hr : P.reincarnation (.node i) + 1 ≤ 2 ^ 31 :=
    (Nat.succ_le_of_lt (h.reincarnation i)).trans (two_pow_counterBits_le _)
  have hi' := h.lt_two_pow hi
  calc P.reincarnation (.node i) * 2 ^ P.poolsizebits + i + 1
      < P.reincarnation (.node i) * 2 ^ P.poolsizebits + 2 ^ P.poolsizebits := by omega
    _ = (P.reincarnation (.node i) + 1) * 2 ^ P.poolsizebits := by ring
    _ ≤ 2 ^ 31 * 2 ^ 31 :=
        Nat.mul_le_mul hr (Nat.pow_le_pow_right two_pos (Nat.le_of_lt_succ hp))
    _ ≤ 2 ^ 63 := by decide

omit [DecidableEq ι] in
theorem Sized.getID_eq (h : Sized n r P) (hp : P.poolsizebits < 32) (hi : i < n) :
    P.getID i = P.reincarnation (.node i) * 2 ^ P.poolsizebits + i + 1 := by
  have hlt := h.packed_lt hp hi
  have hi' : i < 2 ^ P.poolsizebits := (Nat.lt_succ_self i).trans (h.lt_two_pow hi)
  have hn : ¬ P.poolsize = 0 := by
    rw [h.poolsize]
    omega
  have hrange : ¬ ((i : ℤ) < 0 ∨ (i : ℤ) ≥ P.poolsize) := by
    rw [h.poolsize]
    omega
  have hshift : P.reincarnation (.node i) <<< P.poolsizebits % 2 ^ 64 =
      P.reincarnation (.node i) <<< P.poolsizebits := by
    rw [Nat.shiftLeft_eq]
    exact Nat.mod_eq_of_lt (by omega)
  rw [getID, if_neg hn, if_neg hrange, Int.toNat_natCast, hshift,
    ← Nat.shiftLeft_add_eq_or_of_lt hi', Nat.shiftLeft_eq]
  exact Nat.mod_eq_of_lt (by omega)

omit [DecidableEq ι] in
/-- The ID of an element leads to it as long as its counter is the same. -/
theorem Sized.fromID_getID (h : Sized n r P) (h' : Sized n r P') (hp : P.poolsizebits < 32)
    (hi : i < n) : (P'.fromID (P.getID i)).current =
      if P'.reincarnation (.node i) = P.reincarnation (.node i) then .node i else .null := by
  have hlt := h.packed_lt hp hi
  have hi' : i < 2 ^ P.poolsizebits := (Nat.lt_succ_self i).trans (h.lt_two_pow hi)
  have hbits : P'.poolsizebits = P.poolsizebits := by
    rw [h.poolsizebits, h'.poolsizebits]
  have hindex : P.reincarnation (.node i) * 2 ^ P.poolsizebits + i &&& intMask P.poolsizebits =
      i := by
    rw [and_intMask, Nat.mod_eq_of_lt hp, Nat.mul_add_mod_self_right, Nat.mod_eq_of_lt hi']
  have hcount : (P.reincarnation (.node i) * 2 ^ P.poolsizebits + i) >>> P.poolsizebits =
      P.reincarnation (.node i) := by
    rw [Nat.shiftRight_eq_div_pow, mul_comm, Nat.mul_add_div (Nat.two_pow_pos _),
      Nat.div_eq_of_lt hi', add_zero]
  have hvalid : ¬ (P.reincarnation (.node i) * 2 ^ P.poolsizebits + i + 1 = 0 ∨
      P.reincarnation (.node i) * 2 ^ P.poolsizebits + i + 1 = 2 ^ 64 - 1) := by
    omega
  have hsize : ¬ i ≥ P'.poolsize := by
    rw [h'.poolsize]
    omega
  rw [h.getID_eq hp hi, fromID, if_neg hvalid]
  simp only [hbits, Nat.add_sub_cancel, hindex, hcount]
  rw [if_neg hsize]
  by_cases hr : P'.reincarnation (.node i) = P.reincarnation (.node i)
  · rw [if_neg (not_not.mpr hr.symm), if_pos hr]
    rfl
  · rw [if_pos (Ne.symm hr), if_neg hr]
    rfl

/-! ## Counting releases -/

/-- How often the element is released in a run. -/
def frees (i : ℕ) : List (Op ι) → Pool ι → ℕ
  | [], _ => 0
  | op :: ops, P => (op.freed P.elements).count i + (op.apply P).elim 0 (frees i ops)

theorem create_sized (n r : ℕ) : Sized n r (create ι n r) := by
  obtain ⟨next, prev, hfields⟩ := create_fields (ι := ι) n r
  rw [hfields]
  exact ⟨rfl, rfl, rfl, fun _ => Nat.two_pow_pos _⟩

theorem create_reincarnation (n r i : ℕ) : (create ι n r).reincarnation (.node i) = 0 := by
  obtain ⟨next, prev, hfields⟩ := create_fields (ι := ι) n r
  rw [hfields]
  rfl

omit [DecidableEq ι] in
theorem Op.freed_nodup (h : P.Linked L) (op : Op ι) : (op.freed L).Nodup := by
  cases op with
  | free it =>
      rw [Op.freed]
      cases it.index <;> simp
  | clear list => exact h.nodup _
  | _ => exact List.nodup_nil

theorem Op.Spec.count {op : Op ι} (hspec : op.Spec P L P') (h : P.Linked L) (hP : Sized n r P)
    (i : ℕ) : P'.reincarnation (.node i) =
      (P.reincarnation (.node i) + (op.freed L).count i) % 2 ^ counterBits P.reincarnationbits := by
  rw [hspec.reincarnation]
  by_cases hi : i ∈ op.freed L
  · rw [if_pos hi, bumped_eq, List.count_eq_one_of_mem (op.freed_nodup h) hi]
  · rw [if_neg hi, List.count_eq_zero_of_not_mem hi, add_zero,
      Nat.mod_eq_of_lt (hP.reincarnation i)]

theorem Op.Spec.sized {op : Op ι} (hspec : op.Spec P L P') (h : P.Linked L) (hP : Sized n r P) :
    Sized n r P' where
  poolsize := hspec.poolsize.trans hP.poolsize
  poolsizebits := hspec.poolsizebits.trans hP.poolsizebits
  reincarnationbits := hspec.reincarnationbits.trans hP.reincarnationbits
  reincarnation i := by
    rw [hspec.count h hP, hspec.reincarnationbits]
    exact Nat.mod_lt _ (Nat.two_pow_pos _)

/-- Over a run the counter of an element counts its releases, modulo the
bits that it really has. -/
theorem Holds.count_frees {ops : List (Op ι)} (h : Holds n P L) (hP : Sized n r P)
    (hops : ValidRun ops P) (hrun : Pool.run ops P = some P') :
    Sized n r P' ∧ (∃ L', Holds n P' L') ∧ ∀ i, P'.reincarnation (.node i) =
      (P.reincarnation (.node i) + frees i ops P) % 2 ^ counterBits P.reincarnationbits := by
  induction ops generalizing P L with
  | nil =>
      cases hrun
      exact ⟨hP, ⟨L, h⟩, fun i => (Nat.mod_eq_of_lt (hP.reincarnation i)).symm⟩
  | cons op ops ih =>
      obtain ⟨hop, hops⟩ := hops
      obtain ⟨P₁, happly, hspec, h₁⟩ := h.apply op hop
      have hP₁ := hspec.sized h.linked hP
      rw [Pool.run, happly] at hrun
      obtain ⟨hsized, hholds, hcount⟩ := ih h₁ hP₁ (hops P₁ happly) hrun
      refine ⟨hsized, hholds, fun i => ?_⟩
      rw [hcount i, hspec.reincarnationbits, hspec.count h.linked hP, frees, happly, h.elements_eq,
        Nat.mod_add_mod, Option.elim_some, add_assoc]

/-! ## When the IDs are unambiguous -/

variable (ι) in
/-- In every state reached by a valid run, an element in use has an ID other
than zero and than that of any other element in use; the ID leads to the
element until it is released, and then to none until its counter has gone
through all values of its bits. -/
def UniqueIds (n r : ℕ) : Prop :=
  ∀ ops P, ValidRun ops (create ι n r) → run ops (create ι n r) = some P →
    ∀ i, P.Allocated i → P.getID i ≠ 0 ∧
      (∀ j, P.Allocated j → j ≠ i → P.getID j ≠ P.getID i) ∧
      ∀ ops' P', ValidRun ops' P → run ops' P = some P' →
        (frees i ops' P = 0 → (P'.fromID (P.getID i)).current = .node i) ∧
        (0 < frees i ops' P → frees i ops' P < 2 ^ P.reincarnationbits →
          (P'.fromID (P.getID i)).current = .null)

omit [DecidableEq ι] in
theorem Holds.lt_of_allocated (h : Holds n P L) (hi : P.Allocated i) : i < n := by
  obtain ⟨l, hl⟩ := h.allocated_iff.mp hi
  exact (h.cover i).mpr ⟨_, hl⟩

omit [DecidableEq ι] in
theorem Sized.getID_injective (h : Sized n r P) (hp : P.poolsizebits < 32) (hi : i < n)
    (hj : j < n) (heq : P.getID j = P.getID i) : j = i := by
  have hself := h.fromID_getID h hp hi
  rw [← heq, h.fromID_getID h hp hj, if_pos rfl, if_pos rfl] at hself
  injection hself

/-- Fewer steps than there are values do not lead back to the same value. -/
theorem add_mod_ne {m a k : ℕ} (ha : a < m) (hk : 0 < k) (hkm : k < m) : (a + k) % m ≠ a := by
  rcases Nat.lt_or_ge (a + k) m with h | h
  · rw [Nat.mod_eq_of_lt h]
    omega
  · rw [Nat.mod_eq_sub_mod h, Nat.mod_eq_of_lt (by omega)]
    omega

theorem uniqueIds_of_lt (hp : bitsForSize (n + 1) < 32)
    (hr : reincarnationBits (bitsForSize (n + 1)) r < 32) : UniqueIds ι n r := by
  intro ops P hops hrun i hi
  obtain ⟨hP, ⟨L, h⟩, -⟩ := (create_holds n r).count_frees (create_sized n r) hops hrun
  have hi := h.lt_of_allocated hi
  rw [← hP.poolsizebits] at hp
  rw [← hP.reincarnationbits] at hr
  refine ⟨?_, fun j hj hne heq => ?_, fun ops' P' hops' hrun' => ?_⟩
  · rw [hP.getID_eq hp hi]
    exact Nat.succ_ne_zero _
  · exact hne (hP.getID_injective hp hi (h.lt_of_allocated hj) heq)
  obtain ⟨hP', -, hcount⟩ := h.count_frees hP hops' hrun'
  have hlt := hP.reincarnation i
  have hbits : counterBits P.reincarnationbits = P.reincarnationbits := Nat.mod_eq_of_lt hr
  rw [hP.fromID_getID hP' hp hi, hcount i]
  refine ⟨fun hzero => ?_, fun hpos hwrap => ?_⟩
  · rw [hzero, add_zero, if_pos (Nat.mod_eq_of_lt hlt)]
  · rw [hbits] at hlt ⊢
    exact if_neg (add_mod_ne hlt hpos hwrap)

/-- A pool with one list in which its last element is allocated. -/
def allocated (d : ι) (n r : ℕ) : Pool ι := ((create ι n r).allocAppend d).1

theorem allocated_spec (d : ι) (hn : 0 < n) (r : ℕ) :
    ∃ L, Holds n (allocated d n r) L ∧ Sized n r (allocated d n r) ∧
      (∀ i, (allocated d n r).reincarnation (.node i) = 0) ∧ n - 1 ∈ L (.rtlist d) := by
  obtain ⟨P, hrun, hspec, hP⟩ := (create_holds n r).apply (.allocAppend d) trivial
  cases hrun
  refine ⟨_, hP, hspec.sized (create_holds n r).linked (create_sized n r), fun i => ?_, ?_⟩
  · exact (hspec.reincarnation i).trans (create_reincarnation n r i)
  · obtain ⟨m, rfl⟩ : ∃ m, n = m + 1 := ⟨n - 1, by omega⟩
    simp [Op.next, Lists.putLast, List.range_succ]

/-- An element is released and allocated again, `k` times. -/
def releases (d : ι) (i : ℕ) : ℕ → List (Op ι)
  | 0 => []
  | k + 1 => .free ⟨.node i, .null⟩ :: .allocAppend d :: releases d i k

theorem Holds.releases {d : ι} (h : Holds n P L) (hi : i ∈ L (.rtlist d)) (k : ℕ) :
    ∃ P', Pool.run (releases d i k) P = some P' ∧ ValidRun (Pool.releases d i k) P ∧
      frees i (Pool.releases d i k) P = k := by
  induction k generalizing P L with
  | zero => exact ⟨P, rfl, trivial, rfl⟩
  | succ k ih =>
      have hvalid : (Op.free ⟨.node i, .null⟩).Valid P := ⟨i, rfl, h.allocated_iff.mpr ⟨d, hi⟩⟩
      obtain ⟨P₁, happly, -, h₁⟩ := h.apply _ hvalid
      obtain ⟨P₂, happly', -, h₂⟩ := h₁.apply (.allocAppend d) trivial
      -- the free list is used from its end: the same element comes back
      have hi₂ : i ∈ (Op.allocAppend d).next ((Op.free ⟨.node i, .null⟩).next L) (.rtlist d) := by
        simp [Op.next, Iterator.index, Lists.putLast]
      obtain ⟨P', hrun, hops, hfrees⟩ := ih h₂ hi₂
      refine ⟨P', ?_, ⟨hvalid, fun P hP => ⟨trivial, fun P' hP' => ?_⟩⟩, ?_⟩
      · rw [Pool.releases, Pool.run, happly]
        refine Eq.trans ?_ hrun
        exact congrArg (Option.bind · _) happly'
      · obtain rfl := Option.mem_unique happly hP
        obtain rfl := Option.mem_unique happly' hP'
        exact hops
      · rw [Pool.releases, frees, happly, Option.elim_some, frees, happly', Option.elim_some, hfrees]
        simp [Op.freed, Iterator.index, Nat.add_comm]

/-- A counter with a mask of fewer bits than reserved comes back to its value
too early. -/
theorem not_uniqueIds_of_le (d : ι) (hn : 0 < n) (hp : bitsForSize (n + 1) < 32)
    (hr : 32 ≤ reincarnationBits (bitsForSize (n + 1)) r) : ¬ UniqueIds ι n r := by
  intro hunique
  obtain ⟨L, h, hP, hzero, hi⟩ := allocated_spec d hn r
  have hrun : run [.allocAppend d] (create ι n r) = some (allocated d n r) := rfl
  rw [← hP.poolsizebits] at hp
  rw [← hP.reincarnationbits] at hr
  have hlt : n - 1 < n := by omega
  obtain ⟨P', hrun', hops', hfrees⟩ :=
    h.releases hi (2 ^ counterBits (allocated d n r).reincarnationbits)
  obtain ⟨-, -, hid⟩ := hunique [.allocAppend d] _ ⟨trivial, fun _ _ => trivial⟩ hrun (n - 1)
    (h.allocated_iff.mpr ⟨d, hi⟩)
  obtain ⟨-, hnull⟩ := hid _ P' hops' hrun'
  obtain ⟨hP', -, hcount⟩ := h.count_frees hP hops' hrun'
  have hbits := (counterBits_lt (allocated d n r).reincarnationbits).trans_le hr
  rw [hfrees] at hnull
  have hsame := hnull (Nat.two_pow_pos _) (Nat.pow_lt_pow_right one_lt_two hbits)
  rw [hP.fromID_getID hP' hp hlt, hcount, hfrees, hzero, zero_add, Nat.mod_self, if_pos rfl] at hsame
  cases hsame

omit [DecidableEq ι] in
theorem lt_of_fromID {id : ℕ} (h : (P.fromID id).current = .node i) :
    i < 2 ^ (P.poolsizebits % 32) := by
  have hmask : (id - 1) &&& intMask P.poolsizebits < 2 ^ (P.poolsizebits % 32) :=
    Nat.and_le_right.trans_lt (intMask_lt _)
  rw [fromID] at h
  split_ifs at h
  · cases h
  · dsimp only at h
    split_ifs at h
    · cases h
    · cases h
    · injection h with h
      exact h ▸ hmask

/-- A mask of fewer bits than the pool size needs loses the index. -/
theorem not_uniqueIds_of_large (d : ι) (hp : 32 ≤ bitsForSize (n + 1)) : ¬ UniqueIds ι n r := by
  intro hunique
  rw [bitsForSize_eq] at hp
  have hn : 2 ^ 31 ≤ n := Nat.lt_size.mp hp
  obtain ⟨L, h, hP, hzero, hi⟩ := allocated_spec d (Nat.lt_of_lt_of_le (Nat.two_pow_pos 31) hn) r
  have hrun : run [.allocAppend d] (create ι n r) = some (allocated d n r) := rfl
  obtain ⟨-, -, hid⟩ := hunique [.allocAppend d] _ ⟨trivial, fun _ _ => trivial⟩ hrun (n - 1)
    (h.allocated_iff.mpr ⟨d, hi⟩)
  obtain ⟨hnode, -⟩ := hid [] _ trivial rfl
  have hcur := hnode rfl
  have hindex := lt_of_fromID hcur
  rw [hP.poolsizebits, bitsForSize_eq] at hindex
  have hmask : 2 ^ (n.size % 32) ≤ 2 ^ 31 :=
    Nat.pow_le_pow_right two_pos (Nat.le_of_lt_succ (Nat.mod_lt _ (by decide)))
  rcases hp.eq_or_lt with hp | hp
  · rw [← hp, Nat.mod_self, pow_zero] at hindex
    omega
  · have hn' : 2 ^ 32 ≤ n := Nat.lt_size.mp hp
    omega

/-- The IDs tell the elements of a pool and their reincarnations apart just if there is none, or both
numbers of bits are below the width of an `int`. -/
theorem uniqueIds_iff [Inhabited ι] (n r : ℕ) : UniqueIds ι n r ↔
    n = 0 ∨ bitsForSize (n + 1) < 32 ∧ reincarnationBits (bitsForSize (n + 1)) r < 32 := by
  constructor
  · intro hunique
    by_contra hcond
    obtain ⟨hn, hbits⟩ := not_or.mp hcond
    by_cases hp : bitsForSize (n + 1) < 32
    · exact not_uniqueIds_of_le default (Nat.pos_of_ne_zero hn) hp
        (not_lt.mp fun hr => hbits ⟨hp, hr⟩) hunique
    · exact not_uniqueIds_of_large default (not_lt.mp hp) hunique
  · rintro (rfl | ⟨hp, hr⟩)
    · intro ops P hops hrun i hi
      obtain ⟨-, ⟨L, h⟩, -⟩ := (create_holds 0 r).count_frees (create_sized 0 r) hops hrun
      exact absurd (h.lt_of_allocated hi) (Nat.not_lt_zero i)
    · exact uniqueIds_of_lt hp hr

/-- The event pool with its default size and its reserved bit: 20 of 52 bits
are used. -/
theorem not_uniqueIds_events : ¬ UniqueIds Unit 1024 1 := by
  refine not_uniqueIds_of_le () (by decide) ?_ ?_
  · simp [bitsForSize, countBits]
  · simp [bitsForSize, countBits, reincarnationBits]

end Pool

end LinuxSampler
