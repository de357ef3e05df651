import LinuxSampler.RtAvlRotate

/-!
# The walks upwards

`insert()` and `erase()` walk from the place of their change towards the
root and correct the balance factors. On the way the frames record a
height that differs from the height of the subtree by at most one, by
`increase` or `decrease`, and the walk ends where it does not differ.
-/

namespace LinuxSampler

open AvlTree

namespace RTAVLTree

variable {ν : Type*} [DecidableEq ν] {T : RTAVLTree ν} {c : List (Frame ν)} {h : ℕ}
  {f : Frame ν} {t : BinaryTree ν}

/-! ## One frame -/

theorem relationToParent_eq {x : ν} (hT : At T (f :: c) t h) (hx : top t = some x) :
    T.parent x = some f.head ∧ T.uplinkDir f.head x = f.dir ∧
      (T.relationToParent x).toInt = f.dir.sign := by
  obtain ⟨hctx, hlinks, -, -, hdisj⟩ := hT
  rw [hx] at hctx
  have hxc : x ∉ ctxNodes (f :: c) := fun hm => hdisj hm (top_mem hx)
  have hdir := uplinkDir_eq hctx hxc
  have hp : T.parent x = some f.head := by
    cases t with
    | nil => cases hx
    | node y l r =>
        cases hx
        exact hlinks.1
  refine ⟨hp, hdir, ?_⟩
  unfold relationToParent
  rw [hp]
  simp only [hdir]
  cases f.dir <;> rfl

omit [DecidableEq ν] in
theorem balance_eq (hT : At T (f :: c) t h) :
    T.balance f.head = f.dir.sign * ((h : ℤ) - f.sibling.height) :=
  hT.ctx.2.2.2.1

/-- The frame's node, with its balance corrected, is the top of a larger
subtree. -/
theorem At.up {b : ℤ} (hT : At T (f :: c) t h)
    (hb : b = f.dir.sign * ((t.height : ℤ) - f.sibling.height)) :
    At (T.setBalance f.head b) c (f.fill t) (max h f.sibling.height + 1) := by
  obtain ⟨⟨hp, hd, ho, -, hls, hctx⟩, hlinks, hn, hcn, hdisj⟩ := hT
  have hnodup : (walk .left (plug c (f.fill t))).Nodup :=
    nodup_plug (c := f :: c).mpr ⟨hcn, hn, hdisj⟩
  obtain ⟨hn₁, hn₂, hn₃⟩ := nodup_plug.mp hnodup
  have hsame : ∀ x ≠ f.head, SameLinks T (T.setBalance f.head b) x := by
    intro x hx
    exact ⟨rfl, rfl, by simp [hx]⟩
  simp only [ctxNodes, List.cons_append, List.nodup_cons, List.mem_append, not_or] at hcn
  refine ⟨?_, ?_, hn₂, hn₁, hn₃⟩
  · rw [Frame.fill, top_branch]
    refine hctx.congr rfl fun x hx => hsame x ?_
    rintro rfl
    exact hcn.1.2 hx
  · rw [Frame.fill, links_branch]
    refine ⟨hp, hd, ho, by simp [hb], hlinks.congr fun x hx => hsame x ?_,
      hls.congr fun x hx => hsame x ?_⟩
    · rintro rfl
      exact hdisj (by simp [ctxNodes]) hx
    · rintro rfl
      exact hcn.1.1 hx

omit [DecidableEq ν] in
theorem walk_plug_congr {t' : BinaryTree ν} (e : walk .left t' = walk .left t) :
    walk .left (plug c t') = walk .left (plug c t) := by
  rw [walk_plug, walk_plug, e]

/-! ## insert() -/

theorem insertRebalance_spec : ∀ {c : List (Frame ν)} {T : RTAVLTree ν} {t : BinaryTree ν}
    {h fuel : ℕ} {x : ν} {i : ℤ}, At T c t h → top t = some x → CtxBalanced c h → Balanced t →
    (t.height : ℤ) = h + i → i = 0 ∨ i = 1 → c.length < fuel →
    ∃ T' t', insertRebalance fuel T x i = some T' ∧ Represents T' t' ∧ Balanced t' ∧
      walk .left t' = walk .left (plug c t) ∧ T'.ringFields = T.ringFields
  | [], T, t, h, fuel + 1, x, i, hT, hx, _, ht, _, _, _ => by
      have hp : T.parent x = none := by
        cases t with
        | nil => cases hx
        | node y l r =>
            cases hx
            exact hT.links.1
      unfold insertRebalance
      rw [hp]
      exact ⟨T, t, rfl, ⟨hT.ctx, hT.links, hT.nodup⟩, ht, rfl, rfl⟩
  | f :: c, T, t, h, fuel + 1, x, i, hT, hx, hc, ht, hh, hi, hfuel => by
      obtain ⟨hp, -, hrel⟩ := relationToParent_eq hT hx
      have hbal := balance_eq hT
      obtain ⟨hc₁, hc₂, hs, hc'⟩ := id hc
      unfold insertRebalance
      rw [hp]
      simp only
      rcases hi with rfl | rfl
      · rw [if_pos rfl]
        obtain rfl : t.height = h := by omega
        exact ⟨T, _, rfl, represents_plug.mpr hT, (balanced_plug ..).mpr ⟨ht, hc⟩, rfl, rfl⟩
      · rw [if_neg (by decide), hrel, hbal]
        have hup := hT.up (b := f.dir.sign * ((h : ℤ) - f.sibling.height) + 1 * f.dir.sign)
          (by rw [hh]; ring)
        generalize hT₁ : T.setBalance f.head _ = T₁ at hup
        have hring : T₁.ringFields = T.ringFields := by
          rw [← hT₁]
          rfl
        have hb₁ : T₁.balance f.head = f.dir.sign * ((t.height : ℤ) - f.sibling.height) := by
          rw [← hT₁, setBalance_balance, if_pos rfl, hh]
          ring
        have hlen : c.length < fuel := by
          simp only [List.length_cons] at hfuel
          omega
        rw [hb₁]
        by_cases hz : t.height = f.sibling.height
        · -- the subtree has only caught up with its sibling
          rw [if_pos (by rw [hz]; ring)]
          have hheight : ((f.fill t).height : ℤ) = ↑(max h f.sibling.height + 1) + 0 := by
            rw [Frame.fill, height_branch]
            omega
          obtain ⟨T', t', h₁, h₂, h₃, h₄, h₅⟩ := insertRebalance_spec hup (top_branch ..) hc'
            (balanced_fill ht hs (by omega) (by omega)) hheight (.inl rfl) hlen
          exact ⟨T', t', h₁, h₂, h₃, h₄, h₅.trans hring⟩
        · rw [if_neg]
          · obtain ⟨T₂, y, k, t₂, hreb, hR⟩ := rebalance_spec hup ht hs (by omega) (by omega)
            have hheight := hR.height_eq
            rw [Frame.fill, height_branch] at hheight
            obtain ⟨T', t', h₁, h₂, h₃, h₄, h₅⟩ := insertRebalance_spec (i := 1 - k) hR.at_ctx
              hR.top_eq hc' hR.balanced (by omega) (by have := hR.change; omega) hlen
            rw [hreb]
            refine ⟨T', t', h₁, h₂, h₃, ?_, h₅.trans (hR.ringFields.trans hring)⟩
            exact h₄.trans (walk_plug_congr hR.walk_eq)
          · cases f.dir <;> simp only [Dir.sign] <;> omega

/-! ## erase() -/

/-- One frame of the walk, where the subtree has become lower. -/
theorem settle_spec (hT : At T (f :: c) t h) (hc : CtxBalanced (f :: c) h) (ht : Balanced t)
    (hh : (t.height : ℤ) = h - 1) :
    ∃ T' y k t', (T.setBalance f.head (T.balance f.head - f.dir.sign)).settle f.head =
        some (T', y, k) ∧
      Rebalanced T c (f.fill t) (max h f.sibling.height + 1) (max h f.sibling.height + 1)
        T' y k t' := by
  obtain ⟨hc₁, hc₂, hs, hc'⟩ := hc
  have hup := hT.up (b := T.balance f.head - f.dir.sign) (by rw [balance_eq hT, hh]; ring)
  have hb₁ : T.balance f.head - f.dir.sign =
      f.dir.sign * ((t.height : ℤ) - f.sibling.height) := by
    rw [balance_eq hT, hh]
    ring
  unfold settle
  rw [setBalance_balance, if_pos rfl]
  generalize hT₁ : T.setBalance f.head _ = T₁ at hup
  have hring : T₁.ringFields = T.ringFields := by
    rw [← hT₁]
    rfl
  by_cases hz : t.height = f.sibling.height
  · rw [if_neg (by rw [hb₁, hz]; simp)]
    refine ⟨T₁, f.head, 1, f.fill t, rfl, top_branch .., hup,
      balanced_fill ht hs (by omega) (by omega), rfl, ?_, .inr rfl, hring⟩
    rw [Frame.fill, height_branch]
    omega
  · rw [if_pos]
    · obtain ⟨T₂, y, k, t₂, hreb, hR⟩ := rebalance_spec hup ht hs (by omega) (by omega)
      refine ⟨T₂, y, k, t₂, hreb, ?_⟩
      have hheight := hR.height_eq
      rw [Frame.fill, height_branch] at hheight
      exact ⟨hR.top_eq, hR.at_ctx, hR.balanced, hR.walk_eq, by omega, hR.change,
        hR.ringFields.trans hring⟩
    · rw [hb₁]
      cases f.dir <;> simp only [Dir.sign] <;> omega

theorem eraseRebalance_spec : ∀ {c : List (Frame ν)} {T : RTAVLTree ν} {t : BinaryTree ν}
    {h n : ℕ} {x : ν} {i : ℤ}, At T c t h → top t = some x → CtxBalanced c h → Balanced t →
    (t.height : ℤ) = h - i → i = 0 ∨ i = 1 → c.length < n →
    ∃ T' t', eraseRebalance n T x i = some T' ∧ Represents T' t' ∧ Balanced t' ∧
      walk .left t' = walk .left (plug c t) ∧ T'.ringFields = T.ringFields
  | [], T, t, h, fuel + 1, x, i, hT, hx, _, ht, _, _, _ => by
      have hp : T.parent x = none := by
        cases t with
        | nil => cases hx
        | node y l r =>
            cases hx
            exact hT.links.1
      unfold eraseRebalance
      rw [hp]
      exact ⟨T, t, rfl, ⟨hT.ctx, hT.links, hT.nodup⟩, ht, rfl, rfl⟩
  | f :: c, T, t, h, fuel + 1, x, i, hT, hx, hc, ht, hh, hi, hfuel => by
      obtain ⟨hp, -, hrel⟩ := relationToParent_eq hT hx
      unfold eraseRebalance
      rw [hp]
      simp only
      rcases hi with rfl | rfl
      · rw [if_pos rfl]
        obtain rfl : t.height = h := by omega
        exact ⟨T, _, rfl, represents_plug.mpr hT, (balanced_plug ..).mpr ⟨ht, hc⟩, rfl, rfl⟩
      · obtain ⟨T₂, y, k, t₂, hset, hR⟩ := settle_spec hT hc ht hh
        rw [if_neg (by decide), hrel, one_mul, hset]
        obtain ⟨T', t', h₁, h₂, h₃, h₄, h₅⟩ := eraseRebalance_spec (i := k) (n := fuel)
          hR.at_ctx hR.top_eq hc.2.2.2 hR.balanced hR.height_eq hR.change
          (by simp only [List.length_cons] at hfuel; omega)
        refine ⟨T', t', h₁, h₂, h₃, ?_, h₅.trans hR.ringFields⟩
        exact h₄.trans (walk_plug_congr hR.walk_eq)

omit [DecidableEq ν] in
theorem parent_top {x : ν} (hT : At T c t h) (hx : top t = some x) : T.parent x = above c := by
  cases t with
  | nil => cases hx
  | node y l r =>
      cases hx
      exact hT.links.1

/-- One frame of the spine, where the subtree may have its height already. -/
theorem spine_spec {i : ℤ} (hT : At T (f :: c) t h) (hc : CtxBalanced (f :: c) h)
    (ht : Balanced t) (hh : (t.height : ℤ) = h - i) (hi : i = 0 ∨ i = 1) :
    ∃ T' y k t', (T.setBalance f.head (T.balance f.head - i * f.dir.sign)).settleIf f.head
        (i * f.dir.sign) = some (T', y, k) ∧
      Rebalanced T c (f.fill t) (max h f.sibling.height + 1) (max h f.sibling.height + 1)
        T' y k t' := by
  unfold settleIf
  rcases hi with rfl | rfl
  · rw [sub_zero, Nat.cast_inj] at hh
    subst hh
    have hup := hT.up (b := T.balance f.head - 0 * f.dir.sign) (by rw [balance_eq hT]; ring)
    rw [if_neg (by simp), zero_mul]
    obtain ⟨hc₁, hc₂, hs, -⟩ := hc
    exact ⟨_, f.head, 0, f.fill t, rfl, top_branch .., by simpa using hup,
      balanced_fill ht hs (by omega) (by omega), rfl, by simp [Frame.fill], .inl rfl, rfl⟩
  · rw [if_pos (by cases f.dir <;> decide), one_mul]
    exact settle_spec hT hc ht hh

/-- From the place the dangling node has left, below left frames, up to
the frame of the dangling node itself. -/
theorem eraseSpine_spec {dangling : ν} {l : BinaryTree ν} {c : List (Frame ν)} :
    ∀ {spine : List (Frame ν)} {T : RTAVLTree ν} {t : BinaryTree ν} {h n : ℕ} {i : ℤ} {x : ν},
    (∀ g ∈ spine, g.dir = .left) → At T (spine ++ ⟨.right, dangling, l⟩ :: c) t h →
    above (spine ++ ⟨.right, dangling, l⟩ :: c) = some x →
    CtxBalanced (spine ++ ⟨.right, dangling, l⟩ :: c) h → Balanced t →
    (t.height : ℤ) = h - i → i = 0 ∨ i = 1 → spine.length < n →
    ∃ T' y k t' h', eraseSpine dangling n T x i = some (T', y, k) ∧ CtxBalanced c h' ∧
      Rebalanced T c (plug (spine ++ [⟨.right, dangling, l⟩]) t) h' h' T' y k t'
  | [], T, t, h, fuel + 1, i, x, _, hT, hx, hc, ht, hh, hi, _ => by
      cases hx
      obtain ⟨T', y, k, t', hstep, hR⟩ := spine_spec hT hc ht hh hi
      refine ⟨T', y, k, t', _, ?_, hc.2.2.2, hR⟩
      unfold eraseSpine
      simp only [if_true, Relation.toInt, Dir.sign] at hstep ⊢
      rw [hstep]
      rfl
  | g :: spine, T, t, h, fuel + 1, i, x, hg, hT, hx, hc, ht, hh, hi, hfuel => by
      cases hx
      obtain ⟨T₁, y, k, t₁, hstep, hR⟩ := spine_spec hT hc ht hh hi
      have hgl : g.dir = .left := hg g List.mem_cons_self
      have hne : g.head ≠ dangling := by
        rintro rfl
        have := hT.ctxNodup
        simp only [List.cons_append, ctxNodes, List.nodup_cons] at this
        refine this.1 (List.mem_append_right _ ?_)
        rw [ctxNodes_append]
        simp [ctxNodes]
      obtain ⟨x', hx'⟩ : ∃ x', above (spine ++ ⟨.right, dangling, l⟩ :: c) = some x' := by
        cases spine with
        | nil => exact ⟨_, rfl⟩
        | cons g' spine => exact ⟨_, rfl⟩
      have hpar : T₁.parent y = some x' := (parent_top hR.at_ctx hR.top_eq).trans hx'
      obtain ⟨T', y', k', t', h', hrun, hc', hR'⟩ := eraseSpine_spec (n := fuel)
        (fun g' hg' => hg g' (List.mem_cons_of_mem _ hg')) hR.at_ctx hx' hc.2.2.2 hR.balanced
        hR.height_eq hR.change (by simp only [List.length_cons] at hfuel; omega)
      refine ⟨T', y', k', t', h', ?_, hc', hR'.top_eq, hR'.at_ctx, hR'.balanced, ?_,
        hR'.height_eq, hR'.change, hR'.ringFields.trans hR.ringFields⟩
      · unfold eraseSpine
        simp only [hgl, Dir.sign] at hstep
        simp only [if_neg hne, Relation.toInt]
        rw [hstep]
        simp only [Option.bind_eq_bind, Option.bind_some, hpar, hrun]
      · rw [hR'.walk_eq]
        exact walk_plug_congr hR.walk_eq

end RTAVLTree

end LinuxSampler
