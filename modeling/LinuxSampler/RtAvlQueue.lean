import LinuxSampler.RtAvlRing
import Mathlib.Data.List.Perm.Subperm

/-!
# RTAVLTree as a stable priority queue

The tree against the list of the nodes that have been inserted and not
erased, oldest first. The heads are a balanced search tree, and the ring
of a head is the part of the list that has its key, in that order. Each
operation keeps this.
-/

namespace LinuxSampler

open AvlTree

namespace RTAVLTree

variable {ν κ : Type*} [DecidableEq ν] [LinearOrder κ]

/-- The nodes of one key, oldest first. -/
def withKey (key : ν → κ) (k : κ) (pending : List ν) : List ν :=
  pending.filter fun x => key x = k

omit [DecidableEq ν] in
theorem mem_withKey {key : ν → κ} {k : κ} {pending : List ν} {x : ν} :
    x ∈ withKey key k pending ↔ x ∈ pending ∧ key x = k := by
  simp [withKey]

/-- The tree `t` of the heads and the rings below the list `pending`. -/
structure Holds (key : ν → κ) (tSafe : Bool) (T : RTAVLTree ν) (t : BinaryTree ν)
    (pending : List ν) : Prop where
  represents : Represents T t
  balanced : Balanced t
  search : SearchTree key t
  ring : ∀ h ∈ walk .left t, ∃ twins, withKey key (key h) pending = h :: twins ∧ Ring T h twins
  cover : ∀ x ∈ pending, ∃ h ∈ walk .left t, key h = key x
  nodup : pending.Nodup
  count : T.nodesCount = pending.length
  tree : tSafe → ∀ x, T.tree x = true ↔ x ∈ pending

variable {key : ν → κ} {tSafe : Bool} {T T' : RTAVLTree ν} {t : BinaryTree ν}
  {pending : List ν} {item : ν}

omit [DecidableEq ν] in
theorem Holds.empty (hroot : T.root = none) (hcount : T.nodesCount = 0)
    (htree : tSafe → ∀ x, T.tree x = false) : Holds key tSafe T .nil [] where
  represents := ⟨hroot, trivial, List.nodup_nil⟩
  balanced := trivial
  search := trivial
  ring h hh := (List.not_mem_nil hh).elim
  cover x hx := (List.not_mem_nil hx).elim
  nodup := List.nodup_nil
  count := by simp [hcount]
  tree hs x := by simp [htree hs x]

omit [DecidableEq ν] in
theorem Holds.head_mem (hT : Holds key tSafe T t pending) {h : ν} (hh : h ∈ walk .left t) :
    h ∈ pending := by
  obtain ⟨twins, hw, -⟩ := hT.ring h hh
  have : h ∈ withKey key (key h) pending := by
    rw [hw]
    exact List.mem_cons_self
  exact (mem_withKey.mp this).1

omit [DecidableEq ν] in
theorem Holds.length_le (hT : Holds key tSafe T t pending) :
    ((walk .left t).length : ℤ) ≤ T.nodesCount := by
  have h := (List.subperm_of_subset hT.represents.nodup fun x hx => hT.head_mem hx).length_le
  rw [hT.count]
  exact_mod_cast h

omit [DecidableEq ν] in
/-- Only the keys of the nodes in the tree matter. -/
theorem Holds.congr_key {key' : ν → κ} (hT : Holds key tSafe T t pending)
    (hkey : ∀ x ∈ pending, key' x = key x) : Holds key' tSafe T t pending := by
  have hhead : ∀ h ∈ walk .left t, key' h = key h := fun h hh => hkey h (hT.head_mem hh)
  refine ⟨hT.represents, hT.balanced, ?_, fun h hh => ?_, fun x hx => ?_, hT.nodup, hT.count,
    hT.tree⟩
  · rw [searchTree_iff]
    refine (searchTree_iff.mp hT.search).imp_of_mem fun ha hb hlt => ?_
    rw [hhead _ ha, hhead _ hb]
    exact hlt
  · obtain ⟨twins, hw, hring⟩ := hT.ring h hh
    refine ⟨twins, ?_, hring⟩
    rw [← hw, hhead h hh]
    exact List.filter_congr fun x hx => by rw [hkey x hx]
  · obtain ⟨h, hh, hk⟩ := hT.cover x hx
    exact ⟨h, hh, by rw [hhead h hh, hkey x hx, hk]⟩

/-! ## insert() -/

theorem Holds.insert (hT : Holds key tSafe T t pending) (hitem : item ∉ pending) :
    ∃ T' t', T.insert key tSafe item = some T' ∧
      Holds key tSafe T' t' (pending ++ [item]) := by
  have hsafe : ¬ (tSafe ∧ T.tree item) := by
    rintro ⟨hs, ht⟩
    exact hitem ((hT.tree hs item).mp ht)
  have hnodup : (pending ++ [item]).Nodup := by
    rw [List.nodup_append']
    exact ⟨hT.nodup, by simp, by simpa using hitem⟩
  have hitem' : item ∉ walk .left t := fun h => hitem (hT.head_mem h)
  have hmem : ∀ x, x ∈ pending → x ≠ item := fun x hx e => hitem (e ▸ hx)
  by_cases htwin : ∃ y ∈ walk .left t, key y = key item
  · obtain ⟨y, hy, hkey⟩ := htwin
    obtain ⟨twins, hw, hring⟩ := hT.ring y hy
    have hsub : ∀ x ∈ y :: twins, x ∈ pending ∧ key x = key y := by
      intro x hx
      rw [← hw] at hx
      exact mem_withKey.mp hx
    have hne : y ≠ item := hmem y (hT.head_mem hy)
    have hfields := insertTwin_fields (T := T) tSafe hne
    obtain ⟨-, hroot, hcount⟩ := insertTwin_links (T := T) tSafe y hne
    refine ⟨_, t, insert_twin hT.represents hT.search hitem' hy hkey hsafe hT.length_le, ?_⟩
    refine ⟨?_, hT.balanced, hT.search, ?_, ?_, hnodup, ?_, ?_⟩
    · refine hT.represents.congr hroot fun x hx => (insertTwin_links tSafe y ?_).1
      exact hmem x (hT.head_mem hx)
    · intro h hh
      by_cases hhy : h = y
      · subst hhy
        refine ⟨twins ++ [item], ?_, ?_⟩
        · unfold withKey at hw ⊢
          rw [List.filter_append, hw]
          simp [hkey]
        · refine insertTwin_ring hring ?_ ?_
          · rw [← hw]
            exact hT.nodup.filter _
          · exact fun hm => hitem (hsub item hm).1
      · have hk : key h ≠ key item := by
          intro e
          exact hhy (hT.search.key_inj hh hy (e.trans hkey.symm))
        obtain ⟨ts, hw', hring'⟩ := hT.ring h hh
        refine ⟨ts, ?_, ?_⟩
        · unfold withKey at hw' ⊢
          rw [List.filter_append, hw']
          simp [Ne.symm hk]
        · have hoff : ∀ x ∈ h :: ts, x ≠ item ∧ x ≠ y ∧ x ≠ T.prevTwin y := by
            intro x hx
            rw [← hw'] at hx
            obtain ⟨hxp, hxk⟩ := mem_withKey.mp hx
            refine ⟨hmem x hxp, ?_, ?_⟩
            · rintro rfl
              exact hk (hxk.symm.trans hkey)
            · rintro rfl
              exact hk (hxk.symm.trans ((hsub _ hring.chain.prevTwin_mem).2.trans hkey))
          refine hring'.congr (fun x hx => ?_) (fun x hx => ?_) (fun x hx => ?_)
          · rw [(hfields x).1, if_neg (hoff x hx).1, if_neg (hoff x hx).2.2]
          · rw [(hfields x).2.1, if_neg (hoff x hx).2.1, if_neg (hoff x hx).1]
          · rw [(hfields x).2.2.1, if_neg (hoff x hx).1]
    · intro x hx
      rcases List.mem_append.mp hx with hx | hx
      · exact hT.cover x hx
      · rw [List.mem_singleton.mp hx]
        exact ⟨y, hy, hkey⟩
    · rw [hcount, hT.count]
      simp
    · intro hs x
      rw [(hfields x).2.2.2 hs]
      split
      · next h => simp [h]
      · next h => simp [hT.tree hs x, h]
  · have hnew : ∀ y ∈ walk .left t, key y ≠ key item := fun y hy e => htwin ⟨y, hy, e⟩
    obtain ⟨T', t', A, B, hrun, hrep, hbal, hw', hw, hA, hB, hrf⟩ :=
      insert_new hT.represents hT.balanced hT.search hitem' hnew hsafe hT.length_le
    obtain ⟨hcount, hin, hip, hih, hit, hother⟩ := ringFields_new hrf
    refine ⟨T', t', hrun, hrep, hbal, ?_, ?_, ?_, hnodup, ?_, ?_⟩
    · rw [searchTree_iff, hw']
      have hp := searchTree_iff.mp hT.search
      rw [hw, List.pairwise_append] at hp
      refine List.pairwise_append.mpr ⟨hp.1, List.pairwise_cons.mpr ⟨hB, hp.2.1⟩, ?_⟩
      intro a ha b hb
      rcases List.mem_cons.mp hb with rfl | hb
      · exact hA a ha
      · exact hp.2.2 a ha b hb
    · intro h hh
      rw [hw', List.mem_append, List.mem_cons] at hh
      by_cases hhi : h = item
      · subst hhi
        refine ⟨[], ?_, ⟨⟨hin, hip⟩, hih, by simp⟩⟩
        have hnone : withKey key (key h) pending = [] := by
          refine List.filter_eq_nil_iff.mpr fun x hx hk => ?_
          obtain ⟨y, hy, hky⟩ := hT.cover x hx
          exact hnew y hy (hky.trans (of_decide_eq_true hk))
        unfold withKey at hnone ⊢
        rw [List.filter_append, hnone]
        simp
      · have hht : h ∈ walk .left t := by
          rw [hw, List.mem_append]
          rcases hh with hh | rfl | hh
          · exact .inl hh
          · exact (hhi rfl).elim
          · exact .inr hh
        obtain ⟨ts, hwk, hring⟩ := hT.ring h hht
        have hoff : ∀ x ∈ h :: ts, x ≠ item := by
          intro x hx
          rw [← hwk] at hx
          exact hmem x (mem_withKey.mp hx).1
        refine ⟨ts, ?_, hring.congr (fun x hx => (hother x (hoff x hx)).1)
          (fun x hx => (hother x (hoff x hx)).2.1) (fun x hx => (hother x (hoff x hx)).2.2.1)⟩
        unfold withKey at hwk ⊢
        rw [List.filter_append, hwk]
        simp [Ne.symm (hnew h hht)]
    · intro x hx
      rcases List.mem_append.mp hx with hx | hx
      · obtain ⟨h, hh, hk⟩ := hT.cover x hx
        refine ⟨h, ?_, hk⟩
        rw [hw, List.mem_append] at hh
        rw [hw', List.mem_append, List.mem_cons]
        tauto
      · rw [List.mem_singleton.mp hx]
        exact ⟨item, by simp [hw'], rfl⟩
    · rw [hcount, hT.count]
      simp
    · intro hs x
      by_cases hx : x = item
      · simp [hx, hit hs]
      · simp [(hother x hx).2.2.2, hT.tree hs x, hx]

/-! ## erase() -/

theorem withKey_erase (hn : pending.Nodup) (k : κ) :
    withKey key k (pending.erase item) = (withKey key k pending).erase item := by
  unfold withKey
  rw [hn.erase_eq_filter, (hn.filter _).erase_eq_filter, List.filter_filter, List.filter_filter]
  congr 1
  funext x
  exact Bool.and_comm ..

theorem withKey_erase_of_ne {k : κ} (hn : pending.Nodup) (hk : key item ≠ k) :
    withKey key k (pending.erase item) = withKey key k pending := by
  rw [withKey_erase hn]
  exact List.erase_of_not_mem fun h => hk (mem_withKey.mp h).2

/-- The ring of another key is not touched. -/
theorem Holds.other_ring (hT : Holds key tSafe T t pending) {h : ν} (hh : h ∈ walk .left t)
    (hk : key h ≠ key item)
    (hsame : ∀ x, key x ≠ key item → T'.nextTwin x = T.nextTwin x ∧ T'.prevTwin x = T.prevTwin x ∧
      T'.twinHead x = T.twinHead x) :
    ∃ twins, withKey key (key h) (pending.erase item) = h :: twins ∧ Ring T' h twins := by
  obtain ⟨twins, hw, hring⟩ := hT.ring h hh
  have hoff : ∀ x ∈ h :: twins, key x ≠ key item := by
    intro x hx
    rw [← hw] at hx
    rw [(mem_withKey.mp hx).2]
    exact hk
  refine ⟨twins, by rw [withKey_erase_of_ne hT.nodup (Ne.symm hk), hw], ?_⟩
  exact hring.congr (fun x hx => (hsame x (hoff x hx)).1) (fun x hx => (hsame x (hoff x hx)).2.1)
    fun x hx => (hsame x (hoff x hx)).2.2

theorem Holds.length_erase (hT : Holds key tSafe T t pending) (hitem : item ∈ pending) :
    ((pending.erase item).length : ℤ) = T.nodesCount - 1 := by
  have h := List.length_erase_of_mem hitem
  have h' := List.length_pos_of_mem hitem
  rw [hT.count]
  omega

omit [DecidableEq ν] in
/-- The nodes of one ring, and those of other rings. -/
theorem Holds.ring_mem (hT : Holds key tSafe T t pending) {head : ν} {twins : List ν}
    (hw : withKey key (key head) pending = head :: twins) :
    (head :: twins).Nodup ∧ ∀ x ∈ head :: twins, x ∈ pending ∧ key x = key head := by
  rw [← hw]
  exact ⟨hT.nodup.filter _, fun x hx => mem_withKey.mp hx⟩

theorem Holds.eraseTwin (hT : Holds key tSafe T t pending) {head : ν} {twins : List ν}
    (hhead : head ∈ walk .left t) (hw : withKey key (key head) pending = head :: twins)
    (hring : Ring T head twins) (hitem : item ∈ twins) :
    Holds key tSafe (T.eraseTwin item) t (pending.erase item) := by
  obtain ⟨hn, hsub⟩ := hT.ring_mem hw
  have hmem : item ∈ head :: twins := List.mem_cons_of_mem _ hitem
  obtain ⟨hip, hik⟩ := hsub item hmem
  have hhi : head ≠ item := by
    rintro rfl
    exact (List.nodup_cons.mp hn).1 hitem
  have hwalk : ∀ x ∈ walk .left t, x ≠ item := by
    rintro x hx rfl
    exact hhi (hT.search.key_inj hhead hx hik.symm)
  have hprev := hring.chain.prevTwin_ne hn hitem
  obtain ⟨hnm, hpm⟩ := hring.neighbours hmem
  have hfields := fun x (hx : x ≠ item) => eraseTwin_fields hprev hx
  refine ⟨?_, hT.balanced, hT.search, ?_, ?_, hT.nodup.erase _, ?_, ?_⟩
  · exact hT.represents.congr rfl fun x hx => (eraseTwin_links (hwalk x hx)).1
  · intro h hh
    by_cases hhh : h = head
    · subst hhh
      refine ⟨twins.erase item, ?_, eraseTwin_ring hring hn hitem⟩
      rw [withKey_erase hT.nodup, hw, List.erase_cons_tail (by simpa using hhi)]
    · have hk : key h ≠ key item := by
        intro e
        exact hhh (hT.search.key_inj hh hhead (e.trans hik))
      refine hT.other_ring hh hk fun x hx => ?_
      have hoff : ∀ y ∈ head :: twins, x ≠ y := by
        rintro y hy rfl
        exact hx ((hsub x hy).2.trans hik.symm)
      obtain ⟨h₁, h₂, h₃, -⟩ := hfields x (hoff item hmem)
      rw [h₁, h₂, h₃, if_neg (hoff _ hpm), if_neg (hoff _ hnm)]
      exact ⟨rfl, rfl, rfl⟩
  · exact fun x hx => hT.cover x (List.mem_of_mem_erase hx)
  · rw [hT.length_erase hip]
    exact (eraseTwin_links hhi).2.2
  · intro hs x
    by_cases hx : x = item
    · subst hx
      simp [RTAVLTree.eraseTwin, reset, hT.nodup.not_mem_erase]
    · rw [(hfields x hx).2.2.2, hT.tree hs x, List.mem_erase_of_ne hx]

theorem Holds.eraseHead (hT : Holds key tSafe T t pending) {n : ν} {twins : List ν}
    (hitem : item ∈ walk .left t) (hw : withKey key (key item) pending = item :: n :: twins)
    (hring : Ring T item (n :: twins)) :
    Holds key tSafe (T.eraseHead item) (t.map (relabel item n)) (pending.erase item) := by
  obtain ⟨hn, hsub⟩ := hT.ring_mem hw
  have hnk : key n = key item := (hsub n (by simp)).2
  have hni : n ≠ item := by
    rintro rfl
    simp at hn
  have hin : T.nextTwin item = n := hring.chain.1
  have hnwalk : T.nextTwin item ∉ walk .left t := by
    rw [hin]
    exact fun hm => hni (hT.search.key_inj hm hitem hnk)
  have hpm := (hring.neighbours List.mem_cons_self).2
  have hfields := fun x (hx : x ≠ item) => eraseHead_fields hin hx
  have hkey : ∀ x, key (relabel item n x) = key x := by
    intro x
    unfold relabel
    split
    · next h => rw [h, hnk]
    · rfl
  refine ⟨?_, (balanced_map _).mpr hT.balanced, ?_, ?_, ?_, hT.nodup.erase _, ?_, ?_⟩
  · rw [← hin]
    exact eraseHead_represents hT.represents hitem hnwalk
  · rw [searchTree_iff, walk_map, List.pairwise_map]
    simpa only [hkey] using searchTree_iff.mp hT.search
  · intro h' hh'
    rw [walk_map, List.mem_map] at hh'
    obtain ⟨h, hh, rfl⟩ := hh'
    by_cases hhi : h = item
    · subst hhi
      rw [relabel_self]
      refine ⟨twins, ?_, eraseHead_ring hring hn⟩
      rw [withKey_erase hT.nodup, hnk, hw, List.erase_cons_head]
    · rw [relabel_of_ne hhi]
      have hk : key h ≠ key item := fun e => hhi (hT.search.key_inj hh hitem e)
      refine hT.other_ring hh hk fun x hx => ?_
      have hoff : ∀ y ∈ item :: n :: twins, x ≠ y := by
        rintro y hy rfl
        exact hx (hsub x hy).2
      obtain ⟨h₁, h₂, h₃, -⟩ := hfields x (hoff item (by simp))
      rw [h₁, h₂, h₃, if_neg (hoff _ hpm), if_neg (hoff n (by simp)), if_neg (hoff n (by simp))]
      exact ⟨rfl, rfl, rfl⟩
  · intro x hx
    obtain ⟨h, hh, hk⟩ := hT.cover x (List.mem_of_mem_erase hx)
    exact ⟨_, by rw [walk_map]; exact List.mem_map_of_mem hh, (hkey h).trans hk⟩
  · rw [hT.length_erase (hT.head_mem hitem)]
    exact (hfields n hni).2.2.2.2
  · intro hs x
    by_cases hx : x = item
    · subst hx
      simp [RTAVLTree.eraseHead, reset, hT.nodup.not_mem_erase]
    · rw [(hfields x hx).2.2.2.1, hT.tree hs x, List.mem_erase_of_ne hx]

theorem Holds.eraseUnique (hT : Holds key tSafe T t pending) (hitem : item ∈ walk .left t)
    (hw : withKey key (key item) pending = [item]) :
    ∃ T' t', T.eraseUnique item = some T' ∧ Holds key tSafe T' t' (pending.erase item) := by
  obtain ⟨T', t', hrun, hrep, hbal, hwalk, hrf⟩ :=
    eraseUnique_spec hT.represents hT.balanced hitem hT.length_le
  have hip := hT.head_mem hitem
  have hmem : ∀ h, h ∈ walk .left t' ↔ h ≠ item ∧ h ∈ walk .left t := by
    intro h
    rw [hwalk]
    exact hT.represents.nodup.mem_erase_iff
  have hkne : ∀ h ∈ walk .left t', key h ≠ key item := by
    intro h hh e
    obtain ⟨hne, hht⟩ := (hmem h).mp hh
    exact hne (hT.search.key_inj hht hitem e)
  have hcover : ∀ x ∈ pending.erase item, ∃ h ∈ walk .left t', key h = key x := by
    intro x hx
    obtain ⟨hxi, hxp⟩ := hT.nodup.mem_erase_iff.mp hx
    obtain ⟨h, hh, hk⟩ := hT.cover x hxp
    refine ⟨h, (hmem h).mpr ⟨?_, hh⟩, hk⟩
    rintro rfl
    have : x ∈ withKey key (key h) pending := mem_withKey.mpr ⟨hxp, hk.symm⟩
    rw [hw] at this
    exact hxi (List.mem_singleton.mp this)
  obtain ⟨m, hm, hlen⟩ : ∃ m : ℤ, T'.ringFields = ({ T with nodesCount := m }.reset item).ringFields ∧
      m = (pending.erase item).length := by
    rcases hrf with hrf | ⟨rfl, hrf⟩
    · exact ⟨_, hrf, (hT.length_erase hip).symm⟩
    · refine ⟨_, hrf, ?_⟩
      have : pending.erase item = [] := by
        rw [List.eq_nil_iff_forall_not_mem]
        intro x hx
        obtain ⟨h, hh, -⟩ := hcover x hx
        exact List.not_mem_nil hh
      rw [this]
      rfl
  obtain ⟨hcount, htree, hother⟩ := ringFields_reset hm
  refine ⟨T', t', hrun, hrep, hbal, ?_, ?_, hcover, hT.nodup.erase _, hcount.trans hlen, ?_⟩
  · rw [searchTree_iff, hwalk]
    exact (searchTree_iff.mp hT.search).sublist List.erase_sublist
  · intro h hh
    refine hT.other_ring ((hmem h).mp hh).2 (hkne h hh) fun x hx => ?_
    have hxi : x ≠ item := fun e => hx (congrArg key e)
    obtain ⟨h₁, h₂, h₃, -⟩ := hother x hxi
    exact ⟨h₁, h₂, h₃⟩
  · intro hs x
    by_cases hx : x = item
    · subst hx
      simp [htree, hT.nodup.not_mem_erase]
    · rw [(hother x hx).2.2.2, hT.tree hs x, List.mem_erase_of_ne hx]

theorem Holds.erase (hT : Holds key tSafe T t pending) (hitem : item ∈ pending) :
    ∃ T' t', T.erase tSafe item = some T' ∧ Holds key tSafe T' t' (pending.erase item) := by
  have hsafe : ¬ (tSafe ∧ ¬ T.tree item) := by
    rintro ⟨hs, ht⟩
    exact ht ((hT.tree hs item).mpr hitem)
  obtain ⟨head, hhead, hkey⟩ := hT.cover item hitem
  obtain ⟨twins, hw, hring⟩ := hT.ring head hhead
  have hn : (head :: twins).Nodup := by
    rw [← hw]
    exact hT.nodup.filter _
  have hroot : T.root ≠ none := by
    rw [hT.represents.root]
    intro h
    rw [top_eq_none.mp h] at hhead
    cases hhead
  have hmem : item ∈ head :: twins := by
    rw [← hw]
    exact mem_withKey.mpr ⟨hitem, hkey.symm⟩
  unfold RTAVLTree.erase
  rw [if_neg hsafe, if_neg hroot]
  rcases List.mem_cons.mp hmem with rfl | htwin
  · rw [if_neg (by simp [hring.head_eq])]
    cases twins with
    | nil =>
        rw [if_neg (by simpa using (hring.nextTwin_eq hn).mpr rfl)]
        exact hT.eraseUnique hhead hw
    | cons n twins =>
        have hne : T.nextTwin item ≠ item := by
          intro h
          cases (hring.nextTwin_eq hn).mp h
        rw [if_pos hne]
        exact ⟨_, _, rfl, hT.eraseHead hhead hw hring⟩
  · rw [if_pos (by simp [hring.twins_eq item htwin])]
    exact ⟨_, _, rfl, hT.eraseTwin hhead hw hring htwin⟩

/-! ## clear(), lowest() -/

omit [DecidableEq ν] in
theorem Holds.eq_nil (hT : Holds key tSafe T t pending) (hroot : T.root = none) :
    pending = [] := by
  rw [hT.represents.root] at hroot
  obtain rfl := top_eq_none.mp hroot
  rw [List.eq_nil_iff_forall_not_mem]
  intro x hx
  obtain ⟨h, hh, -⟩ := hT.cover x hx
  exact List.not_mem_nil hh

omit [DecidableEq ν] in
theorem Holds.root_mem (hT : Holds key tSafe T t pending) {x : ν} (hroot : T.root = some x) :
    x ∈ pending := by
  rw [hT.represents.root] at hroot
  exact hT.head_mem (top_mem hroot)

theorem eraseAll_spec : ∀ {n : ℕ} {T : RTAVLTree ν} {t : BinaryTree ν} {pending : List ν},
    Holds key true T t pending → pending.length < n →
    ∃ T', eraseAll n T = some T' ∧ ∀ x, T'.tree x = false
  | fuel + 1, T, t, pending, hT, hfuel => by
      unfold eraseAll
      cases hroot : T.root with
      | none =>
          refine ⟨T, rfl, fun x => ?_⟩
          have h := hT.tree rfl x
          rw [hT.eq_nil hroot] at h
          simpa using h
      | some root =>
          have hmem := hT.root_mem hroot
          obtain ⟨T₁, t₁, hrun, hT₁⟩ := hT.erase hmem
          have hlen := List.length_erase_of_mem hmem
          have hpos := List.length_pos_of_mem hmem
          obtain ⟨T', hall, htree⟩ := eraseAll_spec (n := fuel) hT₁ (by omega)
          refine ⟨T', ?_, htree⟩
          simp only [hrun, Option.bind_eq_bind, Option.bind_some, hall]

omit [DecidableEq ν] in
theorem Holds.length_lt_fuel (hT : Holds key tSafe T t pending) : pending.length < T.fuel := by
  have := hT.count
  unfold fuel
  omega

theorem Holds.clear (hT : Holds key tSafe T t pending) :
    ∃ T', T.clear tSafe = some T' ∧ Holds key tSafe T' .nil [] := by
  unfold RTAVLTree.clear
  cases tSafe with
  | false =>
      refine ⟨_, rfl, Holds.empty rfl rfl ?_⟩
      intro h
      cases h
  | true =>
      obtain ⟨T', hall, htree⟩ := eraseAll_spec hT hT.length_lt_fuel
      refine ⟨{ T' with root := none, nodesCount := 0 }, ?_, Holds.empty rfl rfl fun _ => htree⟩
      simp only [if_true, hall, Option.bind_eq_bind, Option.bind_some]
      rfl

omit [DecidableEq ν] in
/-- The end of the walk in direction `dir`. -/
theorem Holds.walkDown (hT : Holds key tSafe T t pending) {root : ν} (dir : Dir)
    (hroot : T.root = some root) :
    ∃ x, T.walkDown dir T.fuel root = some x ∧ (walk dir t).head? = some x := by
  have hlen := hT.length_le
  have hheight := height_le_length .left t
  exact walkDown_head dir hT.represents.links (hT.represents.root ▸ hroot) (by unfold fuel; omega)

omit [DecidableEq ν] in
theorem Holds.lowest (hT : Holds key tSafe T t pending) (hne : pending ≠ []) :
    ∃ x ∈ walk .left t, T.lowest = some x ∧ ∀ y ∈ pending, key x ≤ key y := by
  obtain ⟨root, hroot⟩ : ∃ root, T.root = some root :=
    Option.ne_none_iff_exists'.mp fun h => hne (hT.eq_nil h)
  obtain ⟨x, hw, hx⟩ := hT.walkDown .left hroot
  obtain ⟨l, hl⟩ := List.head?_eq_some_iff.mp hx
  refine ⟨x, by simp [hl], ?_, fun y hy => ?_⟩
  · unfold RTAVLTree.lowest
    rw [hroot]
    exact hw
  · obtain ⟨h, hh, hk⟩ := hT.cover y hy
    have hp := searchTree_iff.mp hT.search
    rw [hl] at hp hh
    rw [← hk]
    rcases List.mem_cons.mp hh with rfl | hh
    · exact le_rfl
    · exact ((List.pairwise_cons.mp hp).1 h hh).le

end RTAVLTree

end LinuxSampler
