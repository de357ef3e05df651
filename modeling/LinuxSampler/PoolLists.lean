import LinuxSampler.Pool
import Mathlib.Data.List.Perm.Subperm

/-!
# The lists of a pool

What the links of a pool stand for: a list of node indices for the free
list and for each list bound to the pool, with no index in two of them.
Each list operation of the source is a change of these lists.
-/

namespace LinuxSampler

open DoublyLinked

/-- What is in the lists of a pool. -/
abbrev Lists (ι : Type*) := ListId ι → List ℕ

namespace Lists

variable {ι : Type*} [DecidableEq ι]

def putLast (L : Lists ι) (l : ListId ι) (S : List ℕ) : Lists ι :=
  Function.update L l (L l ++ S)

def putFirst (L : Lists ι) (l : ListId ι) (i : ℕ) : Lists ι :=
  Function.update L l (i :: L l)

def remove (L : Lists ι) (i : ℕ) : Lists ι := fun l => (L l).erase i

def empty (L : Lists ι) (l : ListId ι) : Lists ι := Function.update L l []

@[simp] theorem mem_putLast {L : Lists ι} {l l' : ListId ι} {S : List ℕ} {i : ℕ} :
    i ∈ L.putLast l S l' ↔ i ∈ L l' ∨ l' = l ∧ i ∈ S := by
  by_cases h : l' = l
  · subst h
    simp [putLast]
  · simp [putLast, h]

@[simp] theorem mem_putFirst {L : Lists ι} {l l' : ListId ι} {i j : ℕ} :
    j ∈ L.putFirst l i l' ↔ j ∈ L l' ∨ l' = l ∧ j = i := by
  by_cases h : l' = l
  · subst h
    simp [putFirst, or_comm]
  · simp [putFirst, h]

@[simp] theorem mem_empty {L : Lists ι} {l l' : ListId ι} {i : ℕ} :
    i ∈ L.empty l l' ↔ i ∈ L l' ∧ l' ≠ l := by
  by_cases h : l' = l
  · subst h
    simp [empty]
  · simp [empty, h]

omit [DecidableEq ι] in
theorem mem_remove {L : Lists ι} {l : ListId ι} {i j : ℕ} (hn : (L l).Nodup) :
    j ∈ L.remove i l ↔ j ≠ i ∧ j ∈ L l :=
  hn.mem_erase_iff

/-- A move leaves every element in some list. -/
theorem exists_mem_moveLast {L : Lists ι} {l : ListId ι} {i j : ℕ} (hn : ∀ l, (L l).Nodup)
    (hi : ∃ l, i ∈ L l) : (∃ l', j ∈ (L.remove i).putLast l [i] l') ↔ ∃ l', j ∈ L l' := by
  simp only [mem_putLast, mem_remove (hn _), List.mem_singleton]
  by_cases hj : j = i
  · subst hj
    exact iff_of_true ⟨l, .inr ⟨rfl, rfl⟩⟩ hi
  · simp [hj]

theorem exists_mem_moveFirst {L : Lists ι} {l : ListId ι} {i j : ℕ} (hn : ∀ l, (L l).Nodup)
    (hi : ∃ l, i ∈ L l) : (∃ l', j ∈ (L.remove i).putFirst l i l') ↔ ∃ l', j ∈ L l' := by
  simp only [mem_putFirst, mem_remove (hn _)]
  by_cases hj : j = i
  · subst hj
    exact iff_of_true ⟨l, .inr ⟨rfl, rfl⟩⟩ hi
  · simp [hj]

end Lists

namespace Pool

variable {ι : Type*} {P : Pool ι} {L : Lists ι} {l l' : ListId ι} {i j : ℕ}
  {A B S : List ℕ} {x y : NodeRef ι}

/-! ## Links -/

/-- The links of the pool stand for the lists. -/
def Linked (P : Pool ι) (L : Lists ι) : Prop :=
  P.toDoublyLinked.Represents .beginOf .endOf fun l => (L l).map .node

theorem Linked.congr {P' : Pool ι} (h : P.Linked L)
    (heq : P'.toDoublyLinked = P.toDoublyLinked) : P'.Linked L := by
  rw [Linked, heq]
  exact h

theorem node_mem_whole : NodeRef.node i ∈
    whole NodeRef.beginOf NodeRef.endOf (fun l => (L l).map NodeRef.node) l ↔ i ∈ L l := by
  simp [whole]

theorem Linked.eq_of_mem (h : P.Linked L) (hi : i ∈ L l) (hi' : i ∈ L l') : l = l' :=
  Represents.eq_of_mem h (node_mem_whole.mpr hi) (node_mem_whole.mpr hi')

theorem Linked.notMem_of_freelist {list : ι} (h : P.Linked L) (hi : i ∈ L .freelist) :
    i ∉ L (.rtlist list) :=
  fun hi' => nomatch h.eq_of_mem hi hi'

theorem Linked.nodup (h : P.Linked L) (l : ListId ι) : (L l).Nodup :=
  List.Nodup.of_map _ (h.nodup_list l)

theorem Linked.next_begin (h : P.Linked L) (l : ListId ι) :
    P.next (.beginOf l) ∈ ((L l).map NodeRef.node ++ [NodeRef.endOf l]).head? := by
  have hne : (L l).map NodeRef.node ++ [NodeRef.endOf l] ≠ [] := by simp
  have hhead := List.head?_eq_some_head hne
  have hm : P.next (.beginOf l) = _ :=
    (h.mutual (i := l) (A := []) (List.nil_append _).symm rfl hhead).1
  rw [hm]
  exact hhead

theorem Linked.prev_end (h : P.Linked L) (l : ListId ι) :
    P.prev (.endOf l) ∈ (NodeRef.beginOf l :: (L l).map NodeRef.node).getLast? := by
  have hne : NodeRef.beginOf l :: (L l).map NodeRef.node ≠ [] := List.cons_ne_nil _ _
  have hlast := List.getLast?_eq_some_getLast hne
  have hm := (h.mutual (i := l) (B := []) (List.append_nil _).symm hlast rfl).2
  rw [hm]
  exact hlast

theorem Linked.notMem_remove (h : P.Linked L) (i : ℕ) (l : ListId ι) : i ∉ L.remove i l :=
  (h.nodup l).not_mem_erase

/-! ## Iteration -/

theorem nodesFrom_eq {fuel : ℕ} (h : P.Path (x :: (S.map .node ++ [.endOf l])))
    (hfuel : S.length ≤ fuel) : P.nodesFrom fuel (P.next x) = S := by
  induction S generalizing x fuel with
  | nil =>
      rw [show P.next x = .endOf l from Path.next_eq h]
      cases fuel <;> rfl
  | cons i S ih =>
      obtain ⟨fuel, rfl⟩ : ∃ f, fuel = f + 1 := ⟨fuel - 1, by simp at hfuel; omega⟩
      rw [show P.next x = .node i from Path.next_eq h, nodesFrom, ih]
      · exact List.IsChain.tail h
      · simpa using hfuel

theorem Linked.elements_eq (h : P.Linked L) (hlen : (L l).length ≤ P.poolsize) :
    P.elements l = L l :=
  nodesFrom_eq (h.path l) hlen

/-! ## Edits -/

variable [DecidableEq ι]

theorem append_eq_appendRange : P.append l x = P.appendRange l x x := rfl

theorem detach_eq_detachRange : P.detach x = P.detachRange x x := rfl

theorem appendRange_toDoublyLinked : (P.appendRange l x y).toDoublyLinked =
    (P.toDoublyLinked.link (P.prev (.endOf l)) x).link y (.endOf l) := rfl

theorem prepend_toDoublyLinked : (P.prepend l x).toDoublyLinked =
    (P.toDoublyLinked.link (.beginOf l) x).link x (P.next (.beginOf l)) := rfl

theorem prependBefore_toDoublyLinked (hne : x ≠ y) : (P.prependBefore x y).toDoublyLinked =
    (P.toDoublyLinked.link (P.prev y) x).link x y := by
  simp only [prependBefore, setNext, setPrev, link]
  rw [Function.update_comm hne.symm]

private theorem map_update : (fun l' => (Function.update L l S l').map NodeRef.node) =
    Function.update (fun l' => (L l').map (NodeRef.node (ι := ι))) l (S.map .node) := by
  funext l'
  by_cases h : l' = l
  · subst h
    simp
  · simp [h]

theorem Linked.detachRange (h : P.Linked L) (hl : L l = A ++ (S ++ B)) (hs : i ∈ S.head?)
    (ht : j ∈ S.getLast?) :
    (P.detachRange (.node i) (.node j)).Linked (Function.update L l (A ++ B)) ∧
      (P.detachRange (.node i) (.node j)).Path (S.map .node) := by
  have hcut := Represents.cut h (i := l) (A := A.map .node) (S := S.map .node) (B := B.map .node)
    (s := .node i) (t := .node j) (by simp [hl])
    (by rw [List.head?_map]; exact Option.mem_map_of_mem _ hs)
    (by rw [List.getLast?_map]; exact Option.mem_map_of_mem _ ht)
  rw [Linked, map_update, List.map_append]
  exact hcut

theorem Linked.appendRange (h : P.Linked L) (hS : P.Path (S.map .node)) (hn : S.Nodup)
    (hfresh : ∀ x ∈ S, ∀ l, x ∉ L l) (hs : i ∈ S.head?) (ht : j ∈ S.getLast?) :
    (P.appendRange l (.node i) (.node j)).Linked (L.putLast l S) := by
  have hjoin := Represents.join h (i := l) (A := (L l).map .node) (B := []) (S := S.map .node)
    (List.append_nil _).symm hS (hn.map fun _ _ h => by injection h)
    (fun x hx l' hx' => ?_) (h.prev_end l) rfl
    (by rw [List.head?_map]; exact Option.mem_map_of_mem _ hs)
    (by rw [List.getLast?_map]; exact Option.mem_map_of_mem _ ht)
  · rw [Linked, Lists.putLast, map_update, List.map_append, appendRange_toDoublyLinked]
    simpa using hjoin
  · obtain ⟨y, hy, rfl⟩ := List.mem_map.mp hx
    exact hfresh y hy l' (node_mem_whole.mp hx')

theorem Linked.append (h : P.Linked L) (hfresh : ∀ l, i ∉ L l) :
    (P.append l (.node i)).Linked (L.putLast l [i]) := by
  rw [append_eq_appendRange]
  refine h.appendRange (List.isChain_singleton _) (List.nodup_singleton i) ?_ rfl rfl
  intro x hx
  rw [List.mem_singleton.mp hx]
  exact hfresh

theorem Linked.prepend (h : P.Linked L) (hfresh : ∀ l, i ∉ L l) :
    (P.prepend l (.node i)).Linked (L.putFirst l i) := by
  have hjoin := Represents.join h (i := l) (A := []) (B := (L l).map .node) (S := [.node i])
    (s := .node i) (t := .node i) (List.nil_append _).symm (List.isChain_singleton _)
    (List.nodup_singleton _) (fun x hx l' hx' => ?_) rfl (h.next_begin l) rfl rfl
  · rw [Linked, Lists.putFirst, map_update, prepend_toDoublyLinked]
    exact hjoin
  · rw [List.mem_singleton.mp hx] at hx'
    exact hfresh l' (node_mem_whole.mp hx')

theorem Linked.prependBefore (h : P.Linked L) (hl : L l = A ++ B) (hfresh : ∀ l, i ∉ L l)
    (hdst : y ∈ (B.map NodeRef.node ++ [NodeRef.endOf l]).head?) :
    (P.prependBefore (.node i) y).Linked (Function.update L l (A ++ i :: B)) := by
  have hne : NodeRef.node i ≠ y := by
    rintro rfl
    cases B with
    | nil => cases hdst
    | cons j B =>
        obtain rfl : j = i := by simpa using hdst
        exact hfresh l (by simp [hl])
  have hmap : (L l).map (NodeRef.node (ι := ι)) = A.map .node ++ B.map .node := by
    rw [hl, List.map_append]
  have hlast : (NodeRef.beginOf l :: A.map NodeRef.node).getLast (List.cons_ne_nil _ _) ∈
      (NodeRef.beginOf l :: A.map NodeRef.node).getLast? :=
    List.getLast?_eq_some_getLast _
  have hprev := (Represents.mutual h (i := l) hmap hlast hdst).2
  have hjoin := Represents.join h (i := l) (A := A.map .node) (B := B.map .node) (S := [.node i])
    (s := .node i) (t := .node i) hmap (List.isChain_singleton _)
    (List.nodup_singleton _) (fun x hx l' hx' => ?_) hlast hdst rfl rfl
  · rw [Linked, map_update, prependBefore_toDoublyLinked hne, hprev]
    simpa using hjoin
  · rw [List.mem_singleton.mp hx] at hx'
    exact hfresh l' (node_mem_whole.mp hx')

/-- To take a node out of its list is to take it out of all lists. -/
theorem Linked.remove_eq (h : P.Linked L) (hl : L l = A ++ i :: B) :
    L.remove i = Function.update L l (A ++ B) := by
  have hi : i ∈ L l := by simp [hl]
  funext l'
  by_cases hl' : l' = l
  · subst hl'
    have hn := h.nodup l'
    rw [hl, List.nodup_append'] at hn
    have hiA : i ∉ A := fun hA => hn.2.2 hA List.mem_cons_self
    rw [Lists.remove, hl, List.erase_append_right _ hiA, List.erase_cons_head,
      Function.update_self]
  · rw [Function.update_of_ne hl']
    exact List.erase_of_not_mem fun hi' => hl' (h.eq_of_mem hi' hi)

theorem Linked.detach (h : P.Linked L) (hi : i ∈ L l) : (P.detach (.node i)).Linked (L.remove i) := by
  obtain ⟨A, B, hl⟩ := List.append_of_mem hi
  rw [h.remove_eq hl, detach_eq_detachRange]
  exact (h.detachRange (S := [i]) hl rfl rfl).1

theorem Linked.isEmpty_iff (h : P.Linked L) : P.isEmpty l = true ↔ L l = [] := by
  have hnext := h.next_begin l
  rw [isEmpty, beq_iff_eq]
  cases hl : L l with
  | nil =>
      rw [hl] at hnext
      exact iff_of_true (Option.some.inj hnext).symm rfl
  | cons i S =>
      rw [hl] at hnext
      obtain hi : NodeRef.node i = P.next (.beginOf l) := Option.some.inj hnext
      simp [← hi]

end Pool

end LinuxSampler
