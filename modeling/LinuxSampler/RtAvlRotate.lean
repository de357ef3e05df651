import LinuxSampler.RtAvlLinks

/-!
# Rotations

`rotateOnce()` and `rotateTwice()` on a subtree whose top is out of
balance, both directions at once, and `rebalance()` from the two: it
keeps the walk, restores the balance and answers by how much the subtree
has become lower.
-/

namespace LinuxSampler

open AvlTree

namespace RTAVLTree

variable {ν : Type*} [DecidableEq ν] {T : RTAVLTree ν} {c : List (Frame ν)} {h : ℕ}

/-- `x` is too high in direction `o`, and its child `y` there is not
higher in the other direction. -/
theorem rotateOnce_spec {o : Dir} {a b s : BinaryTree ν} {x y : ν}
    (hT : At T c (branch o (branch o a y b) x s) h)
    (hxs : (branch o a y b).height = s.height + 2) (hab : b.height ≤ a.height)
    (hbal : a.height ≤ b.height + 1) :
    ∃ T', T.rotateOnce x o.opposite = some (T', y, if a.height = b.height then 0 else 1) ∧
      At T' c (branch o a y (branch o b x s)) h ∧ T'.ringFields = T.ringFields := by
  obtain ⟨hctx, hlinks, hnodup, hcn, hdisj⟩ := id hT
  rw [top_branch] at hctx
  rw [links_branch] at hlinks
  obtain ⟨hxp, hxo, hxd, hxb, hly, hls⟩ := hlinks
  rw [links_branch] at hly
  obtain ⟨hyp, hyo, hyd, hyb, hla, hlb⟩ := hly
  rw [top_branch] at hxo
  simp only [nodup_branch, mem_walk_branch, not_or, List.disjoint_left] at hnodup
  obtain ⟨⟨hxy, hxa, hxb'⟩, hxs', ⟨hya, hyb', hna, hnb, hdab⟩, hns, hdys⟩ := hnodup
  simp only [List.disjoint_left, mem_walk_branch] at hdisj
  have hxy' : y ≠ x := fun e => hxy e.symm
  have hxc : x ∉ ctxNodes c := fun hm => hdisj hm (by simp)
  have hyc : y ∉ ctxNodes c := fun hm => hdisj hm (by simp)
  have hys : y ∉ walk .left s := fun hm => hdys (by simp) hm
  have hctx' := setDownLink_ctx (v := some y) hctx hxp hcn hxc
  have hb0 : T.balance y = 0 ↔ a.height = b.height := by
    cases o <;> simp only [Dir.sign] at hyb <;> omega
  have hchange : (if T.balance y = 0 then (0 : ℤ) else 1) =
      if a.height = b.height then 0 else 1 := by simp only [hb0]
  unfold rotateOnce
  simp only [Dir.opposite_opposite, hxo, Option.bind_eq_bind, Option.bind_some, hchange]
  refine ⟨_, rfl, ?_, by simp⟩
  generalize hT' : RTAVLTree.setBalance _ x _ = T'
  -- the downlink belongs to a node of the frames, everything else is at `x`, `y` and `top b`
  have hpz : ∀ z, z ∉ ctxNodes c → T.parent x ≠ some z := by
    intro z hz e
    exact hz (above_mem (hxp ▸ e))
  have hcz : ∀ z, z ∉ ctxNodes c → (T.setDownLink x (some y)).children z = T.children z :=
    fun z hz => setDownLink_children_of_ne _ (hpz z hz)
  have hbn : ∀ z, z ∉ walk .left b → top b ≠ some z := fun z hz e => hz (top_mem e)
  have hbx := hbn x hxb'
  have hby := hbn y hyb'
  have hframe : ∀ z, z ≠ x → z ≠ y → top b ≠ some z →
      SameLinks (T.setDownLink x (some y)) T' z := by
    intro z hzx hzy hzb
    subst hT'
    refine ⟨?_, ?_, ?_⟩
    · simp [hzx, hzy, hyd, hcz y hyc, hzb]
    · funext e
      simp [hzx, hzy]
    · simp [hzx, hzy]
  have hinner : ∀ z, z ∉ ctxNodes c → z ≠ x → z ≠ y → top b ≠ some z → SameLinks T T' z := by
    intro z hzc hzx hzy hzb
    have := hframe z hzx hzy hzb
    exact SameLinks.trans ⟨by simp, hcz z hzc, by simp⟩ this
  have hout : ∀ {z}, (z = x ∨ (z = y ∨ z ∈ walk .left a ∨ z ∈ walk .left b) ∨ z ∈ walk .left s) →
      z ∉ ctxNodes c := fun hz hc => hdisj hc hz
  refine ⟨?_, ?_, ?_, hcn, ?_⟩
  · rw [top_branch]
    refine hctx'.congr (by subst hT'; simp) fun z hz => ?_
    refine hframe z (by rintro rfl; exact hxc hz) (by rintro rfl; exact hyc hz) ?_
    exact fun e => hdisj hz (by simp [top_mem e])
  · rw [links_branch, links_branch]
    simp only [height_branch] at hyb hxb hxs ⊢
    refine ⟨?_, ?_, ?_, ?_, ?_, ?_, ?_, ?_, ?_, ?_, ?_⟩
    · subst hT'
      simp [hxy', hby, hyd, hcz y hyc, hxp]
    · subst hT'
      simp [hxy', hcz y hyc, hyo]
    · subst hT'
      simp
    · subst hT'
      cases o <;> simp [hxy', Dir.opposite, Dir.sign] at hyb hxs ⊢ <;> omega
    · refine hla.congr fun z hz => hinner z (hout (by simp [hz])) ?_ ?_ ?_
      · rintro rfl
        exact hxa hz
      · rintro rfl
        exact hya hz
      · exact fun e => hdab hz (top_mem e)
    · subst hT'
      simp
    · subst hT'
      simp [hxy, hcz y hyc, hyd]
    · subst hT'
      simp [hxy, hcz x hxc, hxd]
    · subst hT'
      cases o <;> simp [Dir.opposite, Dir.sign] at hyb hxs ⊢ <;> omega
    · refine hlb.move hnb fun z hz => ?_
      have hzx : z ≠ x := by
        rintro rfl
        exact hxb' hz
      have hzy : z ≠ y := by
        rintro rfl
        exact hyb' hz
      subst hT'
      refine ⟨?_, ?_, ?_⟩
      · simp [hzx, hzy, hcz y hyc, hyd]
      · funext e
        simp [hzx, hzy, hcz z (hout (by simp [hz]))]
      · simp [hzx, hzy]
    · refine hls.congr fun z hz => hinner z (hout (by simp [hz])) ?_ ?_ ?_
      · rintro rfl
        exact hxs' hz
      · rintro rfl
        exact hys hz
      · exact fun e => hdys (by simp [top_mem e]) hz
  · rw [walk_rotateOnce]
    exact hT.nodup
  · rw [walk_rotateOnce]
    exact hT.disjoint

/-- The new balances, by direction. -/
theorem balanceTwice_spec {o : Dir} {x y z : ν} (hz : T.children y o = some z)
    (hx : T.children y o.opposite = some x) (hzy : z ≠ y) (hxy : x ≠ y) (hxz : x ≠ z) :
    ∃ T', T.balanceTwice y = some T' ∧ T'.root = T.root ∧ T'.parent = T.parent ∧
      T'.children = T.children ∧ T'.ringFields = T.ringFields ∧ T'.balance y = 0 ∧
      T'.balance z = -o.sign * min (o.sign * T.balance y) 0 ∧
      T'.balance x = o.sign * min (-o.sign * T.balance y) 0 ∧
      ∀ w, w ≠ x → w ≠ y → w ≠ z → T'.balance w = T.balance w := by
  unfold balanceTwice
  have hyz : y ≠ z := fun e => hzy e.symm
  have hyx : y ≠ x := fun e => hxy e.symm
  have hzx : z ≠ x := fun e => hxz e.symm
  cases o
  · simp only [Dir.opposite] at hx
    simp only [hz, Option.bind_eq_bind, Option.bind_some, setBalance_children, hx,
      Option.pure_def]
    refine ⟨_, rfl, rfl, rfl, rfl, rfl, by simp, ?_, ?_, ?_⟩
    · simp only [setBalance_balance, if_neg hzy, if_neg hzx, Dir.sign]
      simp
      omega
    · simp [hxy, hyz, Dir.sign]
    · intro w hwx hwy hwz
      simp [hwx, hwy, hwz]
  · simp only [Dir.opposite] at hx
    simp only [hx, Option.bind_eq_bind, Option.bind_some, setBalance_children, hz,
      Option.pure_def]
    refine ⟨_, rfl, rfl, rfl, rfl, rfl, by simp, ?_, ?_, ?_⟩
    · simp [hzy, hyx, Dir.sign]
    · simp only [setBalance_balance, if_neg hxy, if_neg hxz, Dir.sign]
      simp
      omega
    · intro w hwx hwy hwz
      simp [hwx, hwy, hwz]

/-- `x` is too high in direction `o`, and its child `z` there is higher in
the other direction, below `y`. -/
theorem rotateTwice_spec {o : Dir} {a b b' s : BinaryTree ν} {x y z : ν}
    (hT : At T c (branch o (branch o a z (branch o b y b')) x s) h)
    (hxs : (branch o a z (branch o b y b')).height = s.height + 2)
    (hzs : (branch o b y b').height = a.height + 1) :
    ∃ T', T.rotateTwice x o.opposite = some (T', y, 1) ∧
      At T' c (branch o (branch o a z b) y (branch o b' x s)) h ∧
        T'.ringFields = T.ringFields := by
  obtain ⟨hctx, hlinks, hnodup, hcn, hdisj⟩ := id hT
  rw [top_branch] at hctx
  rw [links_branch] at hlinks
  obtain ⟨hxp, hxo, hxd, hxb, hlz, hls⟩ := hlinks
  rw [links_branch] at hlz
  obtain ⟨hzp, hzo, hzd, hzb, hla, hly⟩ := hlz
  rw [links_branch] at hly
  obtain ⟨hyp, hyo, hyd, hyb, hlb, hlb'⟩ := hly
  rw [top_branch] at hxo hzd
  simp only [nodup_branch, mem_walk_branch, not_or, List.disjoint_left] at hnodup
  obtain ⟨⟨hxz, hxa, hxy, hxb₀, hxb'⟩, hxs₀, ⟨hza, ⟨hzy, hzb₀, hzb'⟩, hna,
    ⟨hyb₀, hyb', hnb, hnb', hdbb'⟩, hda⟩, hns, hds⟩ := hnodup
  simp only [List.disjoint_left, mem_walk_branch] at hdisj
  have hout : ∀ {w}, (w = x ∨ (w = z ∨ w ∈ walk .left a ∨
      (w = y ∨ w ∈ walk .left b ∨ w ∈ walk .left b')) ∨ w ∈ walk .left s) →
      w ∉ ctxNodes c := fun hw hc => hdisj hc hw
  have hxc : x ∉ ctxNodes c := hout (by simp)
  have hyc : y ∉ ctxNodes c := hout (by simp)
  have hzc : z ∉ ctxNodes c := hout (by simp)
  have hzx : z ≠ x := fun e => hxz e.symm
  have hyx : y ≠ x := fun e => hxy e.symm
  have hyz : y ≠ z := fun e => hzy e.symm
  have hys : y ∉ walk .left s := fun hm => hds (by simp) hm
  have hzs₀ : z ∉ walk .left s := fun hm => hds (by simp) hm
  have hya : y ∉ walk .left a := fun hm => (hda hm).1 rfl
  have hctx' := setDownLink_ctx (v := some y) hctx hxp hcn hxc
  have hpz : ∀ w, w ∉ ctxNodes c → T.parent x ≠ some w := by
    intro w hw e
    exact hw (above_mem (hxp ▸ e))
  have hcz : ∀ w, w ∉ ctxNodes c → (T.setDownLink x (some y)).children w = T.children w :=
    fun w hw => setDownLink_children_of_ne _ (hpz w hw)
  have htop : ∀ {w} {t : BinaryTree ν}, w ∉ walk .left t → top t ≠ some w :=
    fun hw e => hw (top_mem e)
  unfold rotateTwice
  simp only [Dir.opposite_opposite, hxo, hzd, Option.bind_eq_bind, Option.bind_some]
  generalize hT₂ : RTAVLTree.setParent _ z (some y) = T₂
  have hframe : ∀ w, w ≠ x → w ≠ y → w ≠ z → top b ≠ some w → top b' ≠ some w →
      SameLinks (T.setDownLink x (some y)) T₂ w := by
    intro w hwx hwy hwz hwb hwb'
    subst hT₂
    refine ⟨?_, ?_, ?_⟩
    · simp [hwx, hwy, hwz, hyd, hyo, hcz y hyc, hwb, hwb', hyx]
    · funext e
      simp [hwx, hwy, hwz]
    · simp
  have hyo₂ : T₂.children y o = some z := by
    subst hT₂
    simp
  have hyd₂ : T₂.children y o.opposite = some x := by
    subst hT₂
    simp [hyz, hyx]
  have hbal₂ : T₂.balance = T.balance := by
    subst hT₂
    simp
  obtain ⟨T', hT', hroot, hparent, hchildren, hring, hb_y, hb_z, hb_x, hb_w⟩ :=
    balanceTwice_spec hyo₂ hyd₂ hzy hxy hxz
  rw [hT']
  refine ⟨T', rfl, ?_, by rw [hring, ← hT₂]; simp⟩
  have hframe' : ∀ w, w ≠ x → w ≠ y → w ≠ z → top b ≠ some w → top b' ≠ some w →
      SameLinks (T.setDownLink x (some y)) T' w := by
    intro w hwx hwy hwz hwb hwb'
    refine (hframe w hwx hwy hwz hwb hwb').trans ⟨?_, ?_, ?_⟩
    · rw [hparent]
    · rw [hchildren]
    · exact hb_w w hwx hwy hwz
  have hinner : ∀ w, w ∉ ctxNodes c → w ≠ x → w ≠ y → w ≠ z → top b ≠ some w →
      top b' ≠ some w → SameLinks T T' w := by
    intro w hwc hwx hwy hwz hwb hwb'
    exact SameLinks.trans ⟨by simp, hcz w hwc, by simp⟩ (hframe' w hwx hwy hwz hwb hwb')
  have hstay : ∀ {p t}, Links T p t → (∀ w ∈ walk .left t, w ∉ ctxNodes c ∧ w ≠ x ∧ w ≠ y ∧
      w ≠ z ∧ top b ≠ some w ∧ top b' ≠ some w) → Links T' p t := by
    intro p t hl ht
    refine hl.congr fun w hw => ?_
    obtain ⟨h₁, h₂, h₃, h₄, h₅, h₆⟩ := ht w hw
    exact hinner w h₁ h₂ h₃ h₄ h₅ h₆
  have hmoved : ∀ {q} w, w ∉ ctxNodes c → w ≠ x → w ≠ y → w ≠ z →
      (if top b = some w then some z else if top b' = some w then some x else T.parent w) = q →
      T'.parent w = q ∧ T'.children w = T.children w ∧ T'.balance w = T.balance w := by
    intro q w hwc hwx hwy hwz hq
    refine ⟨?_, ?_, ?_⟩
    · rw [hparent, ← hT₂]
      simp [hwx, hwy, hwz, hcz y hyc, hyo, hyd, hyx, hq]
    · rw [hchildren, ← hT₂]
      funext e
      simp [hwx, hwy, hwz, hcz w hwc]
    · rw [hb_w w hwx hwy hwz, hbal₂]
  refine ⟨?_, ?_, ?_, hcn, ?_⟩
  · rw [top_branch]
    refine hctx'.congr (by rw [hroot, ← hT₂]; simp) fun w hw => ?_
    refine hframe' w ?_ ?_ ?_ ?_ ?_
    · rintro rfl
      exact hxc hw
    · rintro rfl
      exact hyc hw
    · rintro rfl
      exact hzc hw
    · exact fun e => hdisj hw (by simp [top_mem e])
    · exact fun e => hdisj hw (by simp [top_mem e])
  · rw [links_branch, links_branch, links_branch]
    simp only [height_branch] at hxs hzs hyb hzb hxb ⊢
    have hbz := htop hzb₀
    have hbx := htop hxb₀
    have hby := htop hyb₀
    have hb'x := htop hxb'
    have hb'y := htop hyb'
    have hb'z := htop hzb'
    rw [hparent, hchildren, hb_y, hb_z, hb_x, hbal₂]
    refine ⟨?_, ?_, ?_, ?_, ⟨?_, ?_, ?_, ?_, ?_, ?_⟩, ?_, ?_, ?_, ?_, ?_, ?_⟩
    · subst hT₂
      simp [hyx, hyz, hcz y hyc, hyo, hyd, hby, hb'y, hxp]
    · rw [hyo₂, top_branch]
    · rw [hyd₂, top_branch]
    · cases o <;> simp only [Dir.sign] at hyb ⊢ <;> omega
    · subst hT₂
      simp
    · subst hT₂
      simp [hzx, hzy, hcz z hzc, hzo]
    · subst hT₂
      simp [hyx, hcz y hyc, hyo]
    · cases o <;> simp only [Dir.sign] at hyb ⊢ <;> omega
    · refine hstay hla fun w hw => ⟨hout (by simp [hw]), ?_⟩
      obtain ⟨hwy, hwb, hwb'⟩ := hda hw
      refine ⟨?_, hwy, ?_, htop hwb, htop hwb'⟩
      · rintro rfl
        exact hxa hw
      · rintro rfl
        exact hza hw
    · refine hlb.move hnb fun w hw => ?_
      have hne : w ≠ x ∧ w ≠ y ∧ w ≠ z := by
        refine ⟨?_, ?_, ?_⟩ <;> rintro rfl
        · exact hxb₀ hw
        · exact hyb₀ hw
        · exact hzb₀ hw
      refine hmoved w (hout (by simp [hw])) hne.1 hne.2.1 hne.2.2 ?_
      rw [if_neg (htop (hdbb' hw))]
    · subst hT₂
      simp [hxz, hyx, hcz y hyc, hyo, hbx]
    · subst hT₂
      simp [hxz, hxy, hyx, hcz y hyc, hyd]
    · subst hT₂
      simp [hxz, hxy, hcz x hxc, hxd]
    · cases o <;> simp only [Dir.sign] at hyb ⊢ <;> omega
    · refine hlb'.move hnb' fun w hw => ?_
      have hne : w ≠ x ∧ w ≠ y ∧ w ≠ z := by
        refine ⟨?_, ?_, ?_⟩ <;> rintro rfl
        · exact hxb' hw
        · exact hyb' hw
        · exact hzb' hw
      refine hmoved w (hout (by simp [hw])) hne.1 hne.2.1 hne.2.2 ?_
      rw [if_neg (htop fun hb => hdbb' hb hw)]
    · refine hstay hls fun w hw => ⟨hout (by simp [hw]), ?_⟩
      refine ⟨?_, ?_, ?_, fun e => hds (by simp [top_mem e]) hw,
        fun e => hds (by simp [top_mem e]) hw⟩ <;> rintro rfl
      · exact hxs₀ hw
      · exact hys hw
      · exact hzs₀ hw
  · rw [walk_rotateTwice]
    exact hT.nodup
  · rw [walk_rotateTwice]
    exact hT.disjoint

/-! ## rebalance() -/

/-- What has become of the subtree `t`: the node on top is `y`, and the
height is `k` less than `m`. -/
structure Rebalanced (T : RTAVLTree ν) (c : List (Frame ν)) (t : BinaryTree ν) (h m : ℕ)
    (T' : RTAVLTree ν) (y : ν) (k : ℤ) (t' : BinaryTree ν) : Prop where
  top_eq : top t' = some y
  at_ctx : At T' c t' h
  balanced : Balanced t'
  walk_eq : walk .left t' = walk .left t
  height_eq : (t'.height : ℤ) = m - k
  change : k = 0 ∨ k = 1
  ringFields : T'.ringFields = T.ringFields

theorem rotate_spec {o : Dir} {t s : BinaryTree ν} {x y : ν} (hT : At T c (branch o t x s) h)
    (ht : Balanced t) (hs : Balanced s) (hts : t.height = s.height + 2)
    (hy : T.children x o = some y) :
    ∃ T' z k t', (if T.balance y = -o.sign then T.rotateTwice x o.opposite
        else T.rotateOnce x o.opposite) = some (T', z, k) ∧
      Rebalanced T c (branch o t x s) h (branch o t x s).height T' z k t' := by
  have hlinks := links_branch.mp hT.links
  rw [hy] at hlinks
  obtain ⟨-, htop, -, -, hlt, -⟩ := hlinks
  obtain ⟨y', l, r, rfl⟩ : ∃ y' l r, t = .node y' l r := by
    cases t with
    | nil => cases htop
    | node y' l r => exact ⟨y', l, r, rfl⟩
  obtain rfl : y = y' := Option.some.inj htop
  obtain ⟨a, b, hab⟩ := exists_branch o y l r
  rw [hab] at hT ht hts hlt ⊢
  obtain ⟨-, -, -, hyb, -, -⟩ := links_branch.mp hlt
  obtain ⟨hba₁, hba₂, ha, hb⟩ := (balanced_branch ..).mp ht
  rw [height_branch] at hts
  split
  · next hbal =>
    -- the child leans the other way, so its inner subtree is not empty
    have hb_h : b.height = a.height + 1 := by
      cases o <;> simp only [Dir.sign] at * <;> omega
    obtain ⟨z, l', r', rfl⟩ : ∃ z l' r', b = .node z l' r' := by
      cases b with
      | nil => simp at hb_h
      | node z l' r' => exact ⟨z, l', r', rfl⟩
    obtain ⟨b₁, b₂, hb₁₂⟩ := exists_branch o z l' r'
    rw [hb₁₂] at hT hb hb_h hts ⊢
    obtain ⟨hbb₁, hbb₂, hb₁, hb₂⟩ := (balanced_branch ..).mp hb
    obtain ⟨T', hrot, hat, hring⟩ := rotateTwice_spec hT (by rw [height_branch]; exact hts) hb_h
    refine ⟨T', z, 1, _, hrot, top_branch .., hat, ?_, walk_rotateTwice .., ?_, .inr rfl, hring⟩
    · rw [height_branch] at hb_h hts
      simp only [balanced_branch, height_branch]
      cases o <;> simp only [Dir.sign] at * <;>
        exact ⟨by omega, by omega, ⟨by omega, by omega, ha, hb₁⟩, by omega, by omega, hb₂, hs⟩
    · simp only [height_branch] at *
      omega
  · next hbal =>
    have hb_h : b.height ≤ a.height := by
      cases o <;> simp only [Dir.sign] at * <;> omega
    have ha_h : a.height ≤ b.height + 1 := by
      cases o <;> simp only [Dir.sign] at * <;> omega
    obtain ⟨T', hrot, hat, hring⟩ :=
      rotateOnce_spec hT (by rw [height_branch]; exact hts) hb_h ha_h
    refine ⟨T', y, _, _, hrot, top_branch .., hat, ?_, walk_rotateOnce .., ?_, ?_, hring⟩
    · simp only [balanced_branch, height_branch]
      cases o <;> simp only [Dir.sign] at * <;>
        exact ⟨by omega, by omega, ha, by omega, by omega, hb, hs⟩
    · simp only [height_branch]
      split <;> omega
    · split
      · exact .inl rfl
      · exact .inr rfl

theorem rebalance_node {x : ν} {l r : BinaryTree ν} (hT : At T c (.node x l r) h)
    (hl : Balanced l) (hr : Balanced r) (hlo : l.height ≤ r.height + 2)
    (hhi : r.height ≤ l.height + 2) :
    ∃ T' y k t', T.rebalance x = some (T', y, k) ∧
      Rebalanced T c (.node x l r) h (BinaryTree.node x l r).height T' y k t' := by
  obtain ⟨-, hxl, hxr, hxb, -, -⟩ := hT.links
  unfold rebalance
  rw [hxb]
  by_cases hleft : l.height = r.height + 2
  · obtain ⟨y, ly, ry, rfl⟩ : ∃ y ly ry, l = .node y ly ry := by
      cases l with
      | nil => simp at hleft
      | node y ly ry => exact ⟨y, ly, ry, rfl⟩
    rw [top_node] at hxl
    rw [if_pos (by omega), hxl]
    exact rotate_spec (o := .left) hT hl hr hleft hxl
  · by_cases hright : r.height = l.height + 2
    · obtain ⟨y, ly, ry, rfl⟩ : ∃ y ly ry, r = .node y ly ry := by
        cases r with
        | nil => simp at hright
        | node y ly ry => exact ⟨y, ly, ry, rfl⟩
      rw [top_node] at hxr
      rw [if_neg (by omega), if_pos (by omega), hxr]
      exact rotate_spec (o := .right) hT hr hl hright hxr
    · rw [if_neg (by omega), if_neg (by omega)]
      refine ⟨T, x, 0, _, rfl, rfl, hT, ⟨by omega, by omega, hl, hr⟩, rfl, ?_, .inl rfl, rfl⟩
      omega

theorem rebalance_spec {f : Frame ν} {t : BinaryTree ν} (hT : At T c (f.fill t) h)
    (ht : Balanced t) (hs : Balanced f.sibling) (hlo : t.height ≤ f.sibling.height + 2)
    (hhi : f.sibling.height ≤ t.height + 2) :
    ∃ T' y k t', T.rebalance f.head = some (T', y, k) ∧
      Rebalanced T c (f.fill t) h (f.fill t).height T' y k t' := by
  obtain ⟨d, x, s⟩ := f
  cases d
  · exact rebalance_node hT ht hs hlo hhi
  · exact rebalance_node hT hs ht hhi hlo

end RTAVLTree

end LinuxSampler
