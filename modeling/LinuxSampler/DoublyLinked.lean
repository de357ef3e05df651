import Mathlib.Data.List.Chain
import Mathlib.Data.List.Nodup

/-!
# Doubly linked lists

Nodes with a next and a previous node. A path is a list of nodes in
which neighbours point to each other. All changes of intrusive lists are
made of one edit, `link x y`: let `x` and `y` point to each other. A
family of lists, each between two boundary nodes of its own, keeps its
paths when a segment is cut out of one of them or put into one of them.
-/

namespace LinuxSampler

structure DoublyLinked (ν : Type*) where
  next : ν → ν
  prev : ν → ν

namespace DoublyLinked

variable {ν ι : Type*} {K : DoublyLinked ν} {x y p n s t : ν} {l P S Q A B : List ν}

def Mutual (K : DoublyLinked ν) (x y : ν) : Prop := K.next x = y ∧ K.prev y = x

instance [DecidableEq ν] (K : DoublyLinked ν) : DecidableRel K.Mutual :=
  fun x y => inferInstanceAs (Decidable (K.next x = y ∧ K.prev y = x))

def Path (K : DoublyLinked ν) (l : List ν) : Prop := l.IsChain K.Mutual

theorem path_append :
    K.Path (P ++ Q) ↔ K.Path P ∧ K.Path Q ∧ ∀ p ∈ P.getLast?, ∀ q ∈ Q.head?, K.Mutual p q :=
  List.isChain_append

theorem Path.mutual_of_append (h : K.Path (P ++ Q)) (hp : p ∈ P.getLast?) (hn : n ∈ Q.head?) :
    K.Mutual p n :=
  (path_append.mp h).2.2 p hp n hn

theorem Path.next_eq (h : K.Path (x :: y :: l)) : K.next x = y :=
  (List.isChain_cons_cons.mp h).1.1

section Edit

variable [DecidableEq ν]

/-- `x` and `y` point to each other. -/
def link (K : DoublyLinked ν) (x y : ν) : DoublyLinked ν where
  next := Function.update K.next x y
  prev := Function.update K.prev y x

theorem link_mutual : (K.link x y).Mutual x y := by
  simp [link, Mutual]

theorem link_mutual_of_ne {u v : ν} (h : K.Mutual u v) (hu : u ≠ x) (hv : v ≠ y) :
    (K.link x y).Mutual u v := by
  obtain ⟨h₁, h₂⟩ := h
  refine ⟨?_, ?_⟩
  · exact (Function.update_of_ne hu _ _).trans h₁
  · exact (Function.update_of_ne hv _ _).trans h₂

/-- A path keeps its links when only its last node gets a new next node
and only its first node a new previous one. -/
theorem Path.link (h : K.Path l) (hl : l.Nodup) (hx : x ∈ l → x ∈ l.getLast?)
    (hy : y ∈ l → y ∈ l.head?) : (K.link x y).Path l := by
  induction l with
  | nil => exact List.isChain_nil
  | cons a l ih =>
      cases l with
      | nil => exact List.isChain_singleton a
      | cons b l =>
          obtain ⟨hab, hrest⟩ := List.isChain_cons_cons.mp h
          obtain ⟨ha, hl⟩ := List.nodup_cons.mp hl
          have hax : a ≠ x := by
            rintro rfl
            have hlast := hx List.mem_cons_self
            rw [List.getLast?_cons_cons] at hlast
            exact ha (List.mem_of_mem_getLast? hlast)
          have hby : ∀ z ∈ b :: l, z ≠ y := by
            rintro z hz rfl
            cases hy (List.mem_cons_of_mem _ hz)
            exact ha hz
          refine List.isChain_cons_cons.mpr ⟨link_mutual_of_ne hab hax (hby b (by simp)), ?_⟩
          refine ih hrest hl (fun hxl => ?_) fun hyl => absurd rfl (hby y hyl)
          have hlast := hx (List.mem_cons_of_mem _ hxl)
          rwa [List.getLast?_cons_cons] at hlast

theorem Path.link_of_notMem (h : K.Path l) (hl : l.Nodup) (hx : x ∉ l) (hy : y ∉ l) :
    (K.link x y).Path l :=
  h.link hl (fun h => absurd h hx) fun h => absurd h hy

/-- The segment `S` is cut out between `p` and `n`. -/
theorem Path.cut (h : K.Path (P ++ (S ++ Q))) (hn : (P ++ (S ++ Q)).Nodup) (hp : p ∈ P.getLast?)
    (hq : n ∈ Q.head?) : (K.link p n).Path (P ++ Q) ∧ (K.link p n).Path S := by
  obtain ⟨hP, hSQ, -⟩ := path_append.mp h
  obtain ⟨hS, hQ, -⟩ := path_append.mp hSQ
  obtain ⟨nP, nSQ, dP⟩ := List.nodup_append'.mp hn
  obtain ⟨nS, nQ, dS⟩ := List.nodup_append'.mp nSQ
  have mp := List.mem_of_mem_getLast? hp
  have mn := List.mem_of_mem_head? hq
  refine ⟨path_append.mpr ⟨?_, ?_, fun p' hp' n' hn' => ?_⟩, ?_⟩
  · exact hP.link nP (fun _ => hp) fun h => (dP h (List.mem_append_right _ mn)).elim
  · exact hQ.link nQ (fun h => (dP mp (List.mem_append_right _ h)).elim) fun _ => hq
  · obtain rfl := Option.mem_unique hp hp'
    obtain rfl := Option.mem_unique hq hn'
    exact link_mutual
  · exact hS.link_of_notMem nS (fun h => dP mp (List.mem_append_left _ h)) fun h => dS h mn

/-- The segment `S`, from `s` to `t`, is put between `p` and `n`. -/
theorem Path.join (h : K.Path (P ++ Q)) (hS : K.Path S) (hn : (P ++ (S ++ Q)).Nodup)
    (hp : p ∈ P.getLast?) (hq : n ∈ Q.head?) (hs : s ∈ S.head?) (ht : t ∈ S.getLast?) :
    ((K.link p s).link t n).Path (P ++ (S ++ Q)) := by
  obtain ⟨hP, hQ, -⟩ := path_append.mp h
  obtain ⟨nP, nSQ, dP⟩ := List.nodup_append'.mp hn
  obtain ⟨nS, nQ, dS⟩ := List.nodup_append'.mp nSQ
  have mp := List.mem_of_mem_getLast? hp
  have mn := List.mem_of_mem_head? hq
  have ms := List.mem_of_mem_head? hs
  have mt := List.mem_of_mem_getLast? ht
  have kP : ((K.link p s).link t n).Path P := by
    refine (hP.link nP (fun _ => hp) fun h => ?_).link_of_notMem nP (fun h => ?_) fun h => ?_
    · exact (dP h (List.mem_append_left _ ms)).elim
    · exact dP h (List.mem_append_left _ mt)
    · exact dP h (List.mem_append_right _ mn)
  have kS : ((K.link p s).link t n).Path S := by
    refine (hS.link nS (fun h => ?_) fun _ => hs).link nS (fun _ => ht) fun h => ?_
    · exact (dP mp (List.mem_append_left _ h)).elim
    · exact (dS h mn).elim
  have kQ : ((K.link p s).link t n).Path Q := by
    refine (hQ.link_of_notMem nQ (fun h => ?_) fun h => ?_).link nQ (fun h => ?_) fun _ => hq
    · exact dP mp (List.mem_append_right _ h)
    · exact dS ms h
    · exact (dS mt h).elim
  have hps : ((K.link p s).link t n).Mutual p s := by
    refine link_mutual_of_ne link_mutual ?_ ?_
    · rintro rfl
      exact dP mp (List.mem_append_left _ mt)
    · rintro rfl
      exact dS ms mn
  refine path_append.mpr ⟨kP, path_append.mpr ⟨kS, kQ, fun t' ht' n' hn' => ?_⟩, ?_⟩
  · obtain rfl := Option.mem_unique ht ht'
    obtain rfl := Option.mem_unique hq hn'
    exact link_mutual
  · intro p' hp' s' hs'
    obtain rfl := Option.mem_unique hp hp'
    rw [List.head?_append_of_ne_nil _ (List.ne_nil_of_mem ms)] at hs'
    obtain rfl := Option.mem_unique hs hs'
    exact hps

end Edit

/-! ## Families of lists -/

/-- The list `i` with its boundary nodes. -/
def whole (b e : ι → ν) (L : ι → List ν) (i : ι) : List ν := b i :: (L i ++ [e i])

/-- The nodes between the boundaries `b i` and `e i` are those of `L i`,
and no node is in two lists or twice in one. -/
structure Represents (K : DoublyLinked ν) (b e : ι → ν) (L : ι → List ν) : Prop where
  path : ∀ i, K.Path (whole b e L i)
  nodup : ∀ i, (whole b e L i).Nodup
  disjoint : ∀ i j, i ≠ j → (whole b e L i).Disjoint (whole b e L j)

variable {b e : ι → ν} {L : ι → List ν} {i j : ι}

theorem mem_whole_of_mem (h : x ∈ L i) : x ∈ whole b e L i := by
  simp [whole, h]

theorem Represents.eq_of_mem (h : K.Represents b e L) (hi : x ∈ whole b e L i)
    (hj : x ∈ whole b e L j) : i = j := by
  by_contra hij
  exact h.disjoint i j hij hi hj

theorem Represents.nodup_list (h : K.Represents b e L) (i : ι) : (L i).Nodup := by
  have hn := h.nodup i
  rw [whole, List.nodup_cons, List.nodup_append'] at hn
  exact hn.2.1

theorem Represents.mutual (h : K.Represents b e L) (hl : L i = A ++ B)
    (hp : p ∈ (b i :: A).getLast?) (hn : n ∈ (B ++ [e i]).head?) : K.Mutual p n := by
  have hpath := h.path i
  rw [whole, hl, List.append_assoc, ← List.cons_append] at hpath
  exact hpath.mutual_of_append hp hn

section Update

variable [DecidableEq ι]

private theorem whole_update_self : whole b e (Function.update L i l) i = b i :: (l ++ [e i]) := by
  simp [whole]

private theorem whole_update_of_ne (h : j ≠ i) :
    whole b e (Function.update L i l) j = whole b e L j := by
  simp [whole, h]

/-- An edit of one list that touches only nodes of this list or of none
keeps the others. -/
theorem Represents.update {K' : DoublyLinked ν} (h : K.Represents b e L)
    (hpath : K'.Path (b i :: (l ++ [e i]))) (hnodup : (b i :: (l ++ [e i])).Nodup)
    (hfresh : ∀ x ∈ l, ∀ j, j ≠ i → x ∉ whole b e L j)
    (hothers : ∀ j, j ≠ i → K'.Path (whole b e L j)) :
    K'.Represents b e (Function.update L i l) := by
  have hdis : ∀ j, j ≠ i → (b i :: (l ++ [e i])).Disjoint (whole b e L j) := by
    intro j hj x hx hxj
    rcases List.mem_cons.mp hx with rfl | hx
    · exact h.disjoint i j hj.symm (by simp [whole]) hxj
    · rcases List.mem_append.mp hx with hx | hx
      · exact hfresh x hx j hj hxj
      · rw [List.mem_singleton.mp hx] at hxj
        exact h.disjoint i j hj.symm (by simp [whole]) hxj
  refine ⟨fun j => ?_, fun j => ?_, fun j k hjk => ?_⟩
  · by_cases hj : j = i
    · rw [hj, whole_update_self]
      exact hpath
    · rw [whole_update_of_ne hj]
      exact hothers j hj
  · by_cases hj : j = i
    · rw [hj, whole_update_self]
      exact hnodup
    · rw [whole_update_of_ne hj]
      exact h.nodup j
  · by_cases hj : j = i
    · subst hj
      rw [whole_update_self, whole_update_of_ne hjk.symm]
      exact hdis k hjk.symm
    · by_cases hk : k = i
      · subst hk
        rw [whole_update_self, whole_update_of_ne hj]
        exact fun x hx hx' => hdis j hj hx' hx
      · rw [whole_update_of_ne hj, whole_update_of_ne hk]
        exact h.disjoint j k hjk

variable [DecidableEq ν]

/-- A segment leaves its list. -/
theorem Represents.cut (h : K.Represents b e L) (hl : L i = A ++ (S ++ B))
    (hs : s ∈ S.head?) (ht : t ∈ S.getLast?) :
    (K.link (K.prev s) (K.next t)).Represents b e (Function.update L i (A ++ B)) ∧
      (K.link (K.prev s) (K.next t)).Path S := by
  have hne : b i :: A ≠ [] := List.cons_ne_nil _ _
  have hne' : B ++ [e i] ≠ [] := by simp
  have hp := List.getLast?_eq_some_getLast hne
  have hn := List.head?_eq_some_head hne'
  have hw : whole b e L i = (b i :: A) ++ (S ++ (B ++ [e i])) := by
    simp [whole, hl]
  have hwhole := h.path i
  have hnodup := h.nodup i
  rw [hw] at hwhole hnodup
  have hprev : K.prev s = (b i :: A).getLast hne := by
    refine (hwhole.mutual_of_append hp ?_).2
    rwa [List.head?_append_of_ne_nil _ (List.ne_nil_of_mem (List.mem_of_mem_head? hs))]
  have hnext : K.next t = (B ++ [e i]).head hne' := by
    rw [← List.append_assoc] at hwhole
    refine (hwhole.mutual_of_append ?_ hn).1
    rwa [List.getLast?_append_of_ne_nil _ (List.ne_nil_of_mem (List.mem_of_mem_getLast? ht))]
  rw [hprev, hnext]
  obtain ⟨hrest, hS⟩ := hwhole.cut hnodup hp hn
  have hmem : (b i :: A).getLast hne ∈ whole b e L i := by
    rw [hw]
    exact List.mem_append_left _ (List.getLast_mem hne)
  have hmem' : (B ++ [e i]).head hne' ∈ whole b e L i := by
    rw [hw]
    exact List.mem_append_right _ (List.mem_append_right _ (List.head_mem hne'))
  refine ⟨h.update ?_ ?_ (fun x hx j hj hxj => ?_) fun j hj => ?_, hS⟩
  · simpa using hrest
  · have hsub : (b i :: ((A ++ B) ++ [e i])).Sublist ((b i :: A) ++ (S ++ (B ++ [e i]))) := by
      rw [List.append_assoc, ← List.cons_append]
      exact (List.Sublist.refl _).append (List.sublist_append_right _ _)
    exact hnodup.sublist hsub
  · refine hj (h.eq_of_mem hxj (mem_whole_of_mem ?_))
    rw [hl]
    rcases List.mem_append.mp hx with hx | hx
    · exact List.mem_append_left _ hx
    · exact List.mem_append_right _ (List.mem_append_right _ hx)
  · exact (h.path j).link_of_notMem (h.nodup j)
      (fun hx => hj (h.eq_of_mem hx hmem)) fun hx => hj (h.eq_of_mem hx hmem')

/-- A segment that is in no list enters one. -/
theorem Represents.join (h : K.Represents b e L) (hl : L i = A ++ B) (hS : K.Path S)
    (hnodup : S.Nodup) (hfresh : ∀ x ∈ S, ∀ j, x ∉ whole b e L j)
    (hp : p ∈ (b i :: A).getLast?) (hn : n ∈ (B ++ [e i]).head?) (hs : s ∈ S.head?)
    (ht : t ∈ S.getLast?) :
    ((K.link p s).link t n).Represents b e (Function.update L i (A ++ (S ++ B))) := by
  have hw : whole b e L i = (b i :: A) ++ (B ++ [e i]) := by
    simp [whole, hl]
  have hw' : b i :: ((A ++ (S ++ B)) ++ [e i]) = (b i :: A) ++ (S ++ (B ++ [e i])) := by
    simp
  have hwhole := h.path i
  have hwn := h.nodup i
  rw [hw] at hwhole hwn
  have hdis : ∀ x ∈ S, x ∉ (b i :: A) ++ (B ++ [e i]) := fun x hx => hw ▸ hfresh x hx i
  have hnew : ((b i :: A) ++ (S ++ (B ++ [e i]))).Nodup := by
    obtain ⟨n₁, n₂, d₁₂⟩ := List.nodup_append'.mp hwn
    refine List.nodup_append'.mpr ⟨n₁, List.nodup_append'.mpr ⟨hnodup, n₂, ?_⟩, ?_⟩
    · exact fun x hx hx' => hdis x hx (List.mem_append_right _ hx')
    · intro x hx hx'
      rcases List.mem_append.mp hx' with hx' | hx'
      · exact hdis x hx' (List.mem_append_left _ hx)
      · exact d₁₂ hx hx'
  have mp : p ∈ whole b e L i := hw ▸ List.mem_append_left _ (List.mem_of_mem_getLast? hp)
  have mn : n ∈ whole b e L i := hw ▸ List.mem_append_right _ (List.mem_of_mem_head? hn)
  refine h.update ?_ ?_ (fun x hx j hj hxj => ?_) fun j hj => ?_
  · rw [hw']
    exact hwhole.join hS hnew hp hn hs ht
  · rw [hw']
    exact hnew
  · rcases List.mem_append.mp hx with hx | hx
    · exact hj (h.eq_of_mem hxj (mem_whole_of_mem (hl ▸ List.mem_append_left _ hx)))
    · rcases List.mem_append.mp hx with hx | hx
      · exact hfresh x hx j hxj
      · exact hj (h.eq_of_mem hxj (mem_whole_of_mem (hl ▸ List.mem_append_right _ hx)))
  · refine ((h.path j).link_of_notMem (h.nodup j) ?_ ?_).link_of_notMem (h.nodup j) ?_ ?_
    · exact fun hx => hj (h.eq_of_mem hx mp)
    · exact hfresh s (List.mem_of_mem_head? hs) j
    · exact hfresh t (List.mem_of_mem_getLast? ht) j
    · exact fun hx => hj (h.eq_of_mem hx mn)

end Update

end DoublyLinked

end LinuxSampler
