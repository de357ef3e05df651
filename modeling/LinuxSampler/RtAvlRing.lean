import LinuxSampler.RtAvlUpdate

/-!
# Twin rings

The nodes of one key, linked from the head through the twins in the
order of their arrival and back to the head. All three changes of a ring
(a twin joins at the end, a twin leaves, the head leaves) turn the end
of a chain to another node.
-/

namespace LinuxSampler

namespace RTAVLTree

variable {ν : Type*} {T T' : RTAVLTree ν}

/-- From `a` through the nodes of the list to `b`, and back. -/
def Chain (T : RTAVLTree ν) : ν → List ν → ν → Prop
  | a, [], b => T.nextTwin a = b ∧ T.prevTwin b = a
  | a, x :: l, b => T.nextTwin a = x ∧ T.prevTwin x = a ∧ Chain T x l b

theorem chain_append {a b x : ν} {l₁ l₂ : List ν} :
    Chain T a (l₁ ++ x :: l₂) b ↔ Chain T a l₁ x ∧ Chain T x l₂ b := by
  induction l₁ generalizing a with
  | nil => simp [Chain, and_assoc]
  | cons y l₁ ih => simp [Chain, ih, and_assoc]

theorem Chain.prevTwin_mem {a b : ν} {l : List ν} (h : Chain T a l b) :
    T.prevTwin b ∈ a :: l := by
  induction l generalizing a with
  | nil => exact List.mem_singleton.mpr h.2
  | cons x l ih => exact List.mem_cons_of_mem _ (ih h.2.2)

theorem Chain.congr {a b : ν} {l : List ν} (h : Chain T a l b)
    (hnext : ∀ x ∈ a :: l, T'.nextTwin x = T.nextTwin x)
    (hprev : ∀ x ∈ l ++ [b], T'.prevTwin x = T.prevTwin x) : Chain T' a l b := by
  induction l generalizing a with
  | nil => exact ⟨(hnext a (by simp)).trans h.1, (hprev b (by simp)).trans h.2⟩
  | cons x l ih =>
      obtain ⟨h₁, h₂, h₃⟩ := h
      refine ⟨(hnext a (by simp)).trans h₁, (hprev x (by simp)).trans h₂, ih h₃ ?_ ?_⟩
      · exact fun y hy => hnext y (List.mem_cons_of_mem _ hy)
      · exact fun y hy => hprev y (List.mem_cons_of_mem _ hy)

/-- The last node is linked to `b'` instead of `b`. -/
theorem Chain.redirect [DecidableEq ν] {a b b' : ν} {l : List ν} (h : Chain T a l b)
    (hn : (a :: l).Nodup)
    (hnext : ∀ x ∈ a :: l, T'.nextTwin x = if x = T.prevTwin b then b' else T.nextTwin x)
    (hprev : ∀ x ∈ l, T'.prevTwin x = T.prevTwin x) (hend : T'.prevTwin b' = T.prevTwin b) :
    Chain T' a l b' := by
  induction l generalizing a with
  | nil =>
      obtain ⟨-, h₂⟩ := h
      have ha := hnext a (by simp)
      rw [h₂, if_pos rfl] at ha
      exact ⟨ha, hend.trans h₂⟩
  | cons x l ih =>
      obtain ⟨h₁, h₂, h₃⟩ := h
      obtain ⟨hax, hn⟩ := List.nodup_cons.mp hn
      have ha := hnext a (by simp)
      have hne : a ≠ T.prevTwin b := fun e => hax (e.symm ▸ h₃.prevTwin_mem)
      rw [if_neg hne] at ha
      refine ⟨ha.trans h₁, (hprev x (by simp)).trans h₂, ih h₃ hn ?_ ?_⟩
      · exact fun y hy => hnext y (List.mem_cons_of_mem _ hy)
      · exact fun y hy => hprev y (List.mem_cons_of_mem _ hy)

theorem Chain.mem_of_prevTwin {a b x : ν} {l : List ν} (h : Chain T a l b) (hx : x ∈ l ++ [b]) :
    T.prevTwin x ∈ a :: l := by
  induction l generalizing a with
  | nil =>
      rw [List.mem_singleton.mp hx]
      exact h.prevTwin_mem
  | cons y l ih =>
      obtain ⟨-, h₂, h₃⟩ := h
      rcases List.mem_cons.mp hx with rfl | hx
      · rw [h₂]
        exact List.mem_cons_self
      · exact List.mem_cons_of_mem _ (ih h₃ hx)

theorem Chain.mem_of_nextTwin {a b x : ν} {l : List ν} (h : Chain T a l b) (hx : x ∈ a :: l) :
    T.nextTwin x ∈ l ++ [b] := by
  induction l generalizing a with
  | nil =>
      rw [List.mem_singleton.mp hx, h.1]
      exact List.mem_singleton.mpr rfl
  | cons y l ih =>
      obtain ⟨h₁, -, h₃⟩ := h
      rcases List.mem_cons.mp hx with rfl | hx
      · rw [h₁]
        exact List.mem_cons_self
      · exact List.mem_cons_of_mem _ (ih h₃ hx)

theorem Chain.prevTwin_ne {a b x : ν} {l : List ν} (h : Chain T a l b) (hn : (a :: l).Nodup)
    (hx : x ∈ l) : T.prevTwin x ≠ x := by
  induction l generalizing a with
  | nil => cases hx
  | cons y l ih =>
      obtain ⟨-, h₂, h₃⟩ := h
      obtain ⟨hay, hn⟩ := List.nodup_cons.mp hn
      rcases List.mem_cons.mp hx with rfl | hx
      · rw [h₂]
        rintro rfl
        exact hay List.mem_cons_self
      · exact ih h₃ hn hx

/-- A head and its twins. -/
structure Ring (T : RTAVLTree ν) (head : ν) (twins : List ν) : Prop where
  chain : Chain T head twins head
  head_eq : T.twinHead head = true
  twins_eq : ∀ x ∈ twins, T.twinHead x = false

variable {head item : ν} {twins : List ν}

theorem Ring.congr (h : Ring T head twins)
    (hnext : ∀ x ∈ head :: twins, T'.nextTwin x = T.nextTwin x)
    (hprev : ∀ x ∈ head :: twins, T'.prevTwin x = T.prevTwin x)
    (htwin : ∀ x ∈ head :: twins, T'.twinHead x = T.twinHead x) : Ring T' head twins := by
  refine ⟨h.chain.congr hnext fun x hx => hprev x ?_, ?_, fun x hx => ?_⟩
  · simp only [List.mem_append, List.mem_cons, List.not_mem_nil, or_false] at hx ⊢
    exact hx.symm
  · rw [htwin head (by simp), h.head_eq]
  · rw [htwin x (List.mem_cons_of_mem _ hx), h.twins_eq x hx]

theorem Ring.neighbours (h : Ring T head twins) {x : ν} (hx : x ∈ head :: twins) :
    T.nextTwin x ∈ head :: twins ∧ T.prevTwin x ∈ head :: twins := by
  have hcomm : ∀ {y}, y ∈ twins ++ [head] ↔ y ∈ head :: twins := by
    intro y
    simp only [List.mem_append, List.mem_cons, List.not_mem_nil, or_false]
    exact or_comm
  exact ⟨hcomm.mp (h.chain.mem_of_nextTwin hx), h.chain.mem_of_prevTwin (hcomm.mpr hx)⟩

/-- The head has itself as its next twin only if it is alone. -/
theorem Ring.nextTwin_eq (h : Ring T head twins) (hn : (head :: twins).Nodup) :
    T.nextTwin head = head ↔ twins = [] := by
  obtain ⟨hc, -, -⟩ := h
  cases twins with
  | nil => exact ⟨fun _ => rfl, fun _ => hc.1⟩
  | cons x l =>
      obtain ⟨h₁, -⟩ := hc
      rw [h₁]
      constructor
      · rintro rfl
        simp at hn
      · intro h
        cases h

variable [DecidableEq ν]

/-- What `resetInTree()` and the new count leave in the fields of the
rings. -/
theorem ringFields_new {tSafe : Bool} {n : ℤ}
    (h : T'.ringFields = { T.resetInTree tSafe item with nodesCount := n }.ringFields) :
    T'.nodesCount = n ∧ T'.nextTwin item = item ∧ T'.prevTwin item = item ∧
      T'.twinHead item = true ∧ (tSafe → T'.tree item = true) ∧
      ∀ x, x ≠ item → T'.nextTwin x = T.nextTwin x ∧ T'.prevTwin x = T.prevTwin x ∧
        T'.twinHead x = T.twinHead x ∧ T'.tree x = T.tree x := by
  simp only [ringFields, Prod.mk.injEq] at h
  obtain ⟨h₁, h₂, h₃, h₄, h₅⟩ := h
  rw [h₁, h₂, h₃, h₄, h₅]
  unfold resetInTree reset
  cases tSafe <;> simp +contextual

/-- What `reset()` and the new count leave in them. -/
theorem ringFields_reset {n : ℤ}
    (h : T'.ringFields = ({ T with nodesCount := n }.reset item).ringFields) :
    T'.nodesCount = n ∧ T'.tree item = false ∧
      ∀ x, x ≠ item → T'.nextTwin x = T.nextTwin x ∧ T'.prevTwin x = T.prevTwin x ∧
        T'.twinHead x = T.twinHead x ∧ T'.tree x = T.tree x := by
  simp only [ringFields, Prod.mk.injEq] at h
  obtain ⟨h₁, h₂, h₃, h₄, h₅⟩ := h
  rw [h₁, h₂, h₃, h₄, h₅]
  simp +contextual [reset]

theorem insertTwin_fields (tSafe : Bool) (hhead : head ≠ item) (x : ν) :
    (T.insertTwin tSafe head item).nextTwin x = (if x = item then head
      else if x = T.prevTwin head then item else T.nextTwin x) ∧
    (T.insertTwin tSafe head item).prevTwin x = (if x = head then item
      else if x = item then T.prevTwin head else T.prevTwin x) ∧
    (T.insertTwin tSafe head item).twinHead x = (if x = item then false else T.twinHead x) ∧
    (tSafe → (T.insertTwin tSafe head item).tree x = if x = item then true else T.tree x) := by
  unfold insertTwin resetInTree reset
  cases tSafe <;>
    simp +contextual [setNextTwin, setPrevTwin, setTwinHead, Function.update_apply, hhead]

theorem insertTwin_links (tSafe : Bool) (head : ν) {x : ν} (hx : x ≠ item) :
    SameLinks T (T.insertTwin tSafe head item) x ∧
      (T.insertTwin tSafe head item).root = T.root ∧
      (T.insertTwin tSafe head item).nodesCount = T.nodesCount + 1 := by
  have h := resetInTree_sameLinks (T := T) tSafe hx
  refine ⟨h, ?_, ?_⟩ <;> unfold insertTwin resetInTree reset <;> cases tSafe <;> rfl

theorem insertTwin_ring {tSafe : Bool} (h : Ring T head twins)
    (hn : (head :: twins).Nodup) (hitem : item ∉ head :: twins) :
    Ring (T.insertTwin tSafe head item) head (twins ++ [item]) := by
  obtain ⟨hc, hh, ht⟩ := h
  have hne : ∀ x ∈ head :: twins, x ≠ item := fun x hx e => hitem (e ▸ hx)
  have hhead : head ≠ item := hne head (by simp)
  have hfields := insertTwin_fields (T := T) tSafe hhead
  refine ⟨chain_append.mpr ⟨?_, ?_, ?_⟩, ?_, ?_⟩
  · refine hc.redirect hn (fun x hx => ?_) (fun x hx => ?_) ?_
    · rw [(hfields x).1, if_neg (hne x hx)]
    · have hxh : x ≠ head := by
        rintro rfl
        exact (List.nodup_cons.mp hn).1 hx
      rw [(hfields x).2.1, if_neg hxh, if_neg (hne x (List.mem_cons_of_mem _ hx))]
    · rw [(hfields item).2.1, if_neg hhead.symm, if_pos rfl]
  · rw [(hfields item).1, if_pos rfl]
  · rw [(hfields head).2.1, if_pos rfl]
  · rw [(hfields head).2.2.1, if_neg hhead, hh]
  · intro x hx
    rw [(hfields x).2.2.1]
    rcases List.mem_append.mp hx with hx | hx
    · rw [if_neg (hne x (List.mem_cons_of_mem _ hx)), ht x hx]
    · rw [if_pos (List.mem_singleton.mp hx)]

theorem eraseTwin_fields {x : ν} (hprev : T.prevTwin item ≠ item) (hx : x ≠ item) :
    (T.eraseTwin item).nextTwin x =
      (if x = T.prevTwin item then T.nextTwin item else T.nextTwin x) ∧
    (T.eraseTwin item).prevTwin x =
      (if x = T.nextTwin item then T.prevTwin item else T.prevTwin x) ∧
    (T.eraseTwin item).twinHead x = T.twinHead x ∧ (T.eraseTwin item).tree x = T.tree x := by
  unfold eraseTwin reset
  simp [setNextTwin, setPrevTwin, Function.update_apply, hx, hprev.symm]

theorem eraseTwin_ring (h : Ring T head twins) (hn : (head :: twins).Nodup)
    (hitem : item ∈ twins) : Ring (T.eraseTwin item) head (twins.erase item) := by
  obtain ⟨hc, hh, ht⟩ := h
  obtain ⟨l₁, l₂, rfl⟩ := List.append_of_mem hitem
  obtain ⟨hc₁, hc₂⟩ := chain_append.mp hc
  have hn' : (head :: l₁).Nodup := hn.sublist (by simp)
  simp only [List.nodup_cons, List.mem_append, List.mem_cons, not_or, List.nodup_append',
    List.disjoint_cons_right] at hn
  obtain ⟨⟨hhl₁, hhi, hhl₂⟩, -, ⟨hil₂, hnl₂⟩, hil₁, hdisj⟩ := hn
  have hpm := hc₁.prevTwin_mem
  have hpi : T.prevTwin item ≠ item := by
    intro e
    rw [e, List.mem_cons] at hpm
    exact hpm.elim (fun e => hhi e.symm) hil₁
  have hfields := fun x (hx : x ≠ item) => eraseTwin_fields hpi hx
  have hne₁ : ∀ x ∈ head :: l₁, x ≠ item := by
    rintro x hx rfl
    exact (List.mem_cons.mp hx).elim (fun e => hhi e.symm) hil₁
  have hne₂ : ∀ x ∈ l₂, x ≠ item := by
    rintro x hx rfl
    exact hil₂ hx
  rw [List.erase_append_right _ hil₁, List.erase_cons_head]
  refine ⟨?_, ?_, fun x hx => ?_⟩
  · cases l₂ with
    | nil =>
        obtain ⟨hin, -⟩ := hc₂
        rw [List.append_nil]
        refine hc₁.redirect hn' (fun x hx => ?_) (fun x hx => ?_) ?_
        · rw [(hfields x (hne₁ x hx)).1, hin]
        · rw [(hfields x (hne₁ x (List.mem_cons_of_mem _ hx))).2.1, hin, if_neg]
          rintro rfl
          exact hhl₁ hx
        · rw [(hfields head (hne₁ head (by simp))).2.1, hin, if_pos rfl]
    | cons n l₃ =>
        obtain ⟨hin, -, hc₃⟩ := hc₂
        simp only [List.mem_cons, not_or] at hhl₂
        have hnl₁ : n ∉ l₁ := fun hm => hdisj hm (by simp)
        refine chain_append.mpr ⟨?_, ?_⟩
        · refine hc₁.redirect hn' (fun x hx => ?_) (fun x hx => ?_) ?_
          · rw [(hfields x (hne₁ x hx)).1, hin]
          · rw [(hfields x (hne₁ x (List.mem_cons_of_mem _ hx))).2.1, hin, if_neg]
            rintro rfl
            exact hnl₁ hx
          · rw [(hfields n (hne₂ n (by simp))).2.1, hin, if_pos rfl]
        · refine hc₃.congr (fun x hx => ?_) (fun x hx => ?_)
          · rw [(hfields x (hne₂ x hx)).1, if_neg]
            rintro rfl
            rcases List.mem_cons.mp hpm with e | hm
            · rw [e] at hx
              exact (List.mem_cons.mp hx).elim hhl₂.1 hhl₂.2
            · exact hdisj hm hx
          · rcases List.mem_append.mp hx with hx | hx
            · rw [(hfields x (hne₂ x (List.mem_cons_of_mem _ hx))).2.1, hin, if_neg]
              rintro rfl
              exact (List.nodup_cons.mp hnl₂).1 hx
            · rw [List.mem_singleton.mp hx, (hfields head (hne₁ head (by simp))).2.1, hin,
                if_neg hhl₂.1]
  · rw [(hfields head (hne₁ head (by simp))).2.2.1, hh]
  · have hx' : x ∈ l₁ ++ item :: l₂ := by
      simp only [List.mem_append, List.mem_cons] at hx ⊢
      tauto
    have hxi : x ≠ item := by
      rcases List.mem_append.mp hx with hx | hx
      · exact hne₁ x (List.mem_cons_of_mem _ hx)
      · exact hne₂ x hx
    rw [(hfields x hxi).2.2.1, ht x hx']

theorem eraseTwin_links {x : ν} (hx : x ≠ item) :
    SameLinks T (T.eraseTwin item) x ∧ (T.eraseTwin item).root = T.root ∧
      (T.eraseTwin item).nodesCount = T.nodesCount - 1 := by
  refine ⟨⟨?_, ?_, ?_⟩, rfl, rfl⟩ <;>
    simp [eraseTwin, reset, setNextTwin, setPrevTwin, hx]

omit [DecidableEq ν] in
theorem eq_of_ringFields (h : T'.ringFields = T.ringFields) :
    T'.nodesCount = T.nodesCount ∧ T'.prevTwin = T.prevTwin ∧ T'.nextTwin = T.nextTwin ∧
      T'.twinHead = T.twinHead ∧ T'.tree = T.tree := by
  simpa only [ringFields, Prod.mk.injEq] using h

theorem eraseHead_fields {x n : ν} (hn : T.nextTwin item = n) (hx : x ≠ item) :
    (T.eraseHead item).nextTwin x = (if x = T.prevTwin item then n else T.nextTwin x) ∧
    (T.eraseHead item).prevTwin x = (if x = n then T.prevTwin item else T.prevTwin x) ∧
    (T.eraseHead item).twinHead x = (if x = n then true else T.twinHead x) ∧
    (T.eraseHead item).tree x = T.tree x ∧
    (T.eraseHead item).nodesCount = T.nodesCount - 1 := by
  have hparentOf := fun (T : RTAVLTree ν) (v p : Option ν) =>
    eq_of_ringFields (setParentOf_ringFields T p v)
  have hdownLink := fun (T : RTAVLTree ν) (y : ν) (v : Option ν) =>
    eq_of_ringFields (setDownLink_ringFields T y v)
  unfold eraseHead reset
  simp [hdownLink, hparentOf, setTwinHead, setNextTwin, setPrevTwin, setParent, setChild,
    setBalance, Function.update_apply, hx, hn]

theorem eraseHead_ring {n : ν} (h : Ring T item (n :: twins)) (hn : (item :: n :: twins).Nodup) :
    Ring (T.eraseHead item) n twins := by
  obtain ⟨⟨hin, -, hc⟩, hh, ht⟩ := h
  have hne : ∀ x ∈ n :: twins, x ≠ item := by
    rintro x hx rfl
    exact (List.nodup_cons.mp hn).1 hx
  have hfields := fun x (hx : x ∈ n :: twins) => eraseHead_fields hin (hne x hx)
  have hn' := (List.nodup_cons.mp hn).2
  refine ⟨hc.redirect hn' (fun x hx => (hfields x hx).1) (fun x hx => ?_) ?_, ?_, fun x hx => ?_⟩
  · rw [(hfields x (List.mem_cons_of_mem _ hx)).2.1, if_neg]
    rintro rfl
    exact (List.nodup_cons.mp hn').1 hx
  · rw [(hfields n (by simp)).2.1, if_pos rfl]
  · rw [(hfields n (by simp)).2.2.1, if_pos rfl]
  · rw [(hfields x (List.mem_cons_of_mem _ hx)).2.2.1, if_neg]
    · exact ht x (List.mem_cons_of_mem _ hx)
    · rintro rfl
      exact (List.nodup_cons.mp hn').1 hx

end RTAVLTree

end LinuxSampler
