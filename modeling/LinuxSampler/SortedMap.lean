import Mathlib.Data.List.Pairwise
import Mathlib.Order.Lattice

/-!
# Sorted maps

A map from keys to values as the list of its pairs in the order of the keys,
as an iterator visits them. What an operation does is stated through `find`.
-/

namespace LinuxSampler

structure SortedMap (κ V : Type*) [LinearOrder κ] where
  entries : List (κ × V)
  sorted : entries.Pairwise fun a b => a.1 < b.1

namespace SortedMap

variable {κ V : Type*} [LinearOrder κ] {m : SortedMap κ V} {k j : κ} {v w : V} {p : V → Bool}

def empty : SortedMap κ V where
  entries := []
  sorted := List.Pairwise.nil

def find (m : SortedMap κ V) (k : κ) : Option V :=
  (m.entries.find? fun a => a.1 = k).map (·.2)

def erase (m : SortedMap κ V) (k : κ) : SortedMap κ V where
  entries := m.entries.filter fun a => a.1 ≠ k
  sorted := m.sorted.filter _

def insert (m : SortedMap κ V) (k : κ) (v : V) : SortedMap κ V where
  entries := m.entries.filter (·.1 < k) ++ (k, v) :: m.entries.filter (k < ·.1)
  sorted := by
    refine List.pairwise_append.mpr ⟨m.sorted.filter _, ?_, ?_⟩
    · refine List.pairwise_cons.mpr ⟨?_, m.sorted.filter _⟩
      intro a ha
      exact of_decide_eq_true (List.mem_filter.mp ha).2
    · intro a ha b hb
      have hak : a.1 < k := of_decide_eq_true (List.mem_filter.mp ha).2
      rcases List.mem_cons.mp hb with rfl | hb
      · exact hak
      · exact hak.trans (of_decide_eq_true (List.mem_filter.mp hb).2)

/-- The first pair, in the order of the keys, with a value that satisfies `p`. -/
def first (m : SortedMap κ V) (p : V → Bool) : Option (κ × V) :=
  m.entries.find? fun a => p a.2

theorem value_unique (hv : (k, v) ∈ m.entries) (hw : (k, w) ∈ m.entries) : v = w := by
  have hkeys : m.entries.Pairwise fun a b => a.1 ≠ b.1 := m.sorted.imp ne_of_lt
  have hsymm : Std.Symm fun a b : κ × V => a.1 ≠ b.1 := ⟨fun _ _ h => h.symm⟩
  by_contra hne
  exact hkeys.forall hv hw (fun h => hne (Prod.ext_iff.mp h).2) rfl

theorem find_eq_some_iff : m.find k = some v ↔ (k, v) ∈ m.entries := by
  have hmem : ∀ a, (m.entries.find? fun a => a.1 = k) = some a → a.1 = k ∧ a ∈ m.entries := by
    intro a ha
    have hk := List.find?_some ha
    exact ⟨of_decide_eq_true hk, List.mem_of_find?_eq_some ha⟩
  constructor
  · intro h
    obtain ⟨a, ha, rfl⟩ := Option.map_eq_some_iff.mp h
    obtain ⟨rfl, hentry⟩ := hmem a ha
    exact hentry
  · intro h
    unfold find
    cases ha : m.entries.find? fun a => a.1 = k with
    | none => exact absurd (List.find?_eq_none.mp ha _ h) (by simp)
    | some a =>
        obtain ⟨rfl, hentry⟩ := hmem a ha
        exact congrArg some (value_unique hentry h)

@[simp] theorem find_empty : (empty : SortedMap κ V).find k = none := rfl

theorem find_erase : (m.erase k).find j = if j = k then none else m.find j := by
  ext v
  rw [find_eq_some_iff]
  by_cases hjk : j = k
  · simp [erase, hjk]
  · simp [erase, hjk, find_eq_some_iff]

theorem find_insert : (m.insert k v).find j = if j = k then some v else m.find j := by
  ext w
  rw [find_eq_some_iff]
  by_cases hjk : j = k
  · subst hjk
    simp [insert, eq_comm]
  · have hlt : j < k ∨ k < j := lt_or_gt_of_ne hjk
    simp [insert, hjk, find_eq_some_iff, ← and_or_left, hlt]

@[simp] theorem find_insert_self : (m.insert k v).find k = some v := by
  rw [find_insert, if_pos rfl]

@[simp] theorem find_erase_self : (m.erase k).find k = none := by
  rw [find_erase, if_pos rfl]

theorem find_insert_of_ne (h : j ≠ k) : (m.insert k v).find j = m.find j := by
  rw [find_insert, if_neg h]

theorem find_erase_of_ne (h : j ≠ k) : (m.erase k).find j = m.find j := by
  rw [find_erase, if_neg h]

theorem first_eq_some (h : m.first p = some (k, v)) : m.find k = some v ∧ p v = true := by
  have hp := List.find?_some h
  exact ⟨find_eq_some_iff.mpr (List.mem_of_find?_eq_some h), hp⟩

theorem first_eq_none (h : m.first p = none) (hv : m.find k = some v) : p v = false := by
  have hp := List.find?_eq_none.mp h _ (find_eq_some_iff.mp hv)
  exact Bool.eq_false_iff.mpr hp

/-- No key is above that of the last pair. -/
theorem le_last {a b : κ × V} (ha : m.entries.getLast? = some a) (hb : b ∈ m.entries) :
    b.1 ≤ a.1 := by
  obtain ⟨l, hl⟩ := List.getLast?_eq_some_iff.mp ha
  have hsorted := m.sorted
  rw [hl] at hsorted hb
  rcases List.mem_append.mp hb with hb | hb
  · exact ((List.pairwise_append.mp hsorted).2.2 b hb a (List.mem_singleton.mpr rfl)).le
  · exact (congrArg Prod.fst (List.mem_singleton.mp hb)).le

end SortedMap

end LinuxSampler
