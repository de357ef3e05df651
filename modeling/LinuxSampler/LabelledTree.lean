/-!
# Trees with names

Nodes that have children with names, and contents. Two nodes are alike if the
same paths lead from them, to the same contents. Whoever copies a tree
shows this node by node (`Alike.intro`), and that what he has copied stays
as it is while he goes on (`alike_of_frame`).
-/

namespace LinuxSampler

namespace LabelledTree

variable {ν μ ξ κ γ : Type}

/-- Children have names `κ`, and the nodes hold contents `γ`. -/
structure Forest (ν κ γ : Type) where
  child : ν → κ → ν → Prop
  holds : ν → γ → Prop

inductive Walk (F : Forest ν κ γ) : ν → List κ → ν → Prop
  | here (x : ν) : Walk F x [] x
  | child {x y z : ν} {k : κ} {ks : List κ} (h : F.child x k y) (hpath : Walk F y ks z) :
      Walk F x (k :: ks) z

namespace Walk

variable {F : Forest ν κ γ} {x y z : ν} {k : κ} {ks ks' : List κ}

theorem append (h : Walk F x ks y) (h' : Walk F y ks' z) : Walk F x (ks ++ ks') z := by
  induction h with
  | here x => exact h'
  | child hchild _ ih => exact .child hchild (ih h')

theorem single (h : F.child x k y) : Walk F x [k] y := .child h (.here y)

theorem eq_of_nil (h : Walk F x [] y) : x = y := by
  cases h with
  | here => rfl

theorem cons_inv (h : Walk F x (k :: ks) z) : ∃ y, F.child x k y ∧ Walk F y ks z := by
  cases h with
  | child hchild hpath => exact ⟨_, hchild, hpath⟩

end Walk

/-- The same paths lead from both nodes, to the same contents. -/
structure Alike (F : Forest ν κ γ) (x : ν) (G : Forest μ κ γ) (y : μ) : Prop where
  paths : ∀ ks, (∃ z, Walk F x ks z) ↔ ∃ z, Walk G y ks z
  contents : ∀ ks c, (∃ z, Walk F x ks z ∧ F.holds z c) ↔ ∃ z, Walk G y ks z ∧ G.holds z c

namespace Alike

variable {F : Forest ν κ γ} {G : Forest μ κ γ} {H : Forest ξ κ γ} {x : ν} {y : μ} {z : ξ}

theorem symm (h : Alike F x G y) : Alike G y F x :=
  ⟨fun ks => (h.paths ks).symm, fun ks c => (h.contents ks c).symm⟩

theorem trans (h : Alike F x G y) (h' : Alike G y H z) : Alike F x H z :=
  ⟨fun ks => (h.paths ks).trans (h'.paths ks),
    fun ks c => (h.contents ks c).trans (h'.contents ks c)⟩

/-- One half of `Alike.intro`. -/
private theorem extend (hholds : ∀ c, F.holds x c → G.holds y c)
    (hchild : ∀ k x', F.child x k x' → ∃ y', G.child y k y' ∧ Alike F x' G y') :
    (∀ ks, (∃ z, Walk F x ks z) → ∃ z, Walk G y ks z) ∧
      ∀ ks c, (∃ z, Walk F x ks z ∧ F.holds z c) → ∃ z, Walk G y ks z ∧ G.holds z c := by
  constructor
  · rintro ks ⟨z, hpath⟩
    cases hpath with
    | here => exact ⟨y, .here y⟩
    | child hx hpath =>
        obtain ⟨y', hy, halike⟩ := hchild _ _ hx
        obtain ⟨z', hpath'⟩ := (halike.paths _).mp ⟨z, hpath⟩
        exact ⟨z', .child hy hpath'⟩
  · rintro ks c ⟨z, hpath, hc⟩
    cases hpath with
    | here => exact ⟨y, .here y, hholds c hc⟩
    | child hx hpath =>
        obtain ⟨y', hy, halike⟩ := hchild _ _ hx
        obtain ⟨z', hpath', hc'⟩ := (halike.contents _ c).mp ⟨z, hpath, hc⟩
        exact ⟨z', .child hy hpath', hc'⟩

/-- Nodes are alike if they hold the same, and have children of the same names that are alike. -/
theorem intro (hholds : ∀ c, F.holds x c ↔ G.holds y c)
    (hforth : ∀ k x', F.child x k x' → ∃ y', G.child y k y' ∧ Alike F x' G y')
    (hback : ∀ k y', G.child y k y' → ∃ x', F.child x k x' ∧ Alike F x' G y') :
    Alike F x G y := by
  have hxy := extend (fun c => (hholds c).mp) hforth
  have hyx : _ ∧ _ := extend (fun c => (hholds c).mpr) fun k y' hy =>
    let ⟨x', hx, halike⟩ := hback k y' hy
    ⟨x', hx, halike.symm⟩
  exact ⟨fun ks => ⟨hxy.1 ks, hyx.1 ks⟩, fun ks c => ⟨hxy.2 ks c, hyx.2 ks c⟩⟩

end Alike

section

variable {F G : Forest ν κ γ} {S : ν → Prop} {x z : ν} {ks : List κ}

/-- A path along nodes that have the same children is a path. -/
theorem Walk.mono (hS : ∀ x k y, S x → F.child x k y → G.child x k y ∧ S y) (hx : S x)
    (h : Walk F x ks z) : Walk G x ks z ∧ S z := by
  induction h with
  | here x => exact ⟨.here x, hx⟩
  | child hchild _ ih =>
      obtain ⟨hchild, hy⟩ := hS _ _ _ hx hchild
      exact ⟨.child hchild (ih hy).1, (ih hy).2⟩

/-- What is outside of the nodes that change stays alike. -/
theorem alike_of_frame (hS : ∀ x k y, S x → F.child x k y → S y)
    (hchild : ∀ x k y, S x → (F.child x k y ↔ G.child x k y))
    (hholds : ∀ x c, S x → (F.holds x c ↔ G.holds x c)) (hx : S x) : Alike F x G x := by
  have hFG : ∀ {ks z}, Walk F x ks z → Walk G x ks z ∧ S z :=
    Walk.mono (fun x k y hx h => ⟨(hchild x k y hx).mp h, hS x k y hx h⟩) hx
  have hGF : ∀ {ks z}, Walk G x ks z → Walk F x ks z ∧ S z := by
    refine Walk.mono (fun x k y hx h => ?_) hx
    have h := (hchild x k y hx).mpr h
    exact ⟨h, hS x k y hx h⟩
  refine ⟨fun ks => ⟨?_, ?_⟩, fun ks c => ⟨?_, ?_⟩⟩
  · exact fun ⟨z, h⟩ => ⟨z, (hFG h).1⟩
  · exact fun ⟨z, h⟩ => ⟨z, (hGF h).1⟩
  · rintro ⟨z, h, hc⟩
    exact ⟨z, (hFG h).1, (hholds z c (hFG h).2).mp hc⟩
  · rintro ⟨z, h, hc⟩
    exact ⟨z, (hGF h).1, (hholds z c (hGF h).2).mpr hc⟩

end

end LabelledTree

end LinuxSampler
