import Mathlib.Data.List.Sort

/-!
# Stable merges

One list is merged into another by a cursor that only moves forward. It
skips the elements that are not past the next one to insert, the insertion
is in front of the cursor, and the cursor moves back onto the element that
was inserted.

With both lists in order this is `List.merge`. What is inserted out of order
does not come before what was inserted already, so the result is out of
order then.
-/

namespace LinuxSampler

namespace StableMerge

variable {α κ : Type*} [LinearOrder κ] {pos : α → κ}

/-- The cursor stands before the first list. -/
def mergeFrom (pos : α → κ) : List α → List α → List α
  | B, [] => B
  | B, d :: D =>
      B.takeWhile (fun x => pos x ≤ pos d) ++
        mergeFrom pos (d :: B.dropWhile fun x => pos x ≤ pos d) D

/-- `out` has the elements of both lists, in order and without a change to the
order in either, and of equal elements those of `former` come first. -/
structure IsStableMerge (pos : α → κ) (former due out : List α) : Prop where
  perm : out.Perm (former ++ due)
  sorted : out.Pairwise fun x y => pos x ≤ pos y
  former_sublist : former.Sublist out
  due_sublist : due.Sublist out
  before : ∀ x ∈ former, ∀ y ∈ due, pos x = pos y → [x, y].Sublist out

theorem span_congr {p q : α → Bool} {l : List α} (h : ∀ x ∈ l, p x = q x) :
    l.takeWhile p = l.takeWhile q ∧ l.dropWhile p = l.dropWhile q := by
  induction l with
  | nil => exact ⟨rfl, rfl⟩
  | cons x l ih =>
      obtain ⟨htake, hdrop⟩ := ih fun y hy => h y (List.mem_cons_of_mem _ hy)
      rw [List.takeWhile_cons, List.takeWhile_cons, List.dropWhile_cons, List.dropWhile_cons,
        h x List.mem_cons_self, htake, hdrop]
      exact ⟨rfl, rfl⟩

/-- The cursor skips the element. -/
theorem mergeFrom_cons {x : α} {D : List α} (h : ∀ d ∈ D.head?, pos x ≤ pos d) (B : List α) :
    mergeFrom pos (x :: B) D = x :: mergeFrom pos B D := by
  cases D with
  | nil => rfl
  | cons d D =>
      have hx : pos x ≤ pos d := h d rfl
      simp [mergeFrom, hx]

/-- The cursor stops in front of the element. -/
theorem mergeFrom_cons_of_lt {x d : α} (h : pos d < pos x) (B D : List α) :
    mergeFrom pos (x :: B) (d :: D) = mergeFrom pos (d :: x :: B) D := by
  simp [mergeFrom, h]

theorem head_le {d : α} {D : List α} (hD : (d :: D).Pairwise fun x y => pos x ≤ pos y) :
    ∀ d' ∈ D.head?, pos d ≤ pos d' :=
  fun _ hd' => (List.pairwise_cons.mp hD).1 _ (List.mem_of_mem_head? hd')

theorem mergeFrom_eq_merge {B D : List α} (hD : D.Pairwise fun x y => pos x ≤ pos y) :
    mergeFrom pos B D = List.merge B D fun x y => pos x ≤ pos y := by
  induction D generalizing B with
  | nil => rw [mergeFrom, List.merge_right]
  | cons d D ihD =>
      have hhead := head_le hD
      have hD' := (List.pairwise_cons.mp hD).2
      induction B with
      | nil =>
          have hend : mergeFrom pos [] (d :: D) = mergeFrom pos [d] D := rfl
          rw [hend, mergeFrom_cons hhead, ihD hD', List.nil_merge, List.nil_merge]
      | cons x B ihB =>
          by_cases hx : pos x ≤ pos d
          · rw [mergeFrom_cons (by simpa using hx), ihB, List.cons_merge_cons_pos]
            simpa using hx
          · rw [mergeFrom_cons_of_lt (not_le.mp hx), mergeFrom_cons hhead, ihD hD',
              List.cons_merge_cons_neg]
            simpa using hx

/-! ## What List.merge keeps -/

theorem sublist_merge (le : α → α → Bool) (xs ys : List α) :
    xs.Sublist (List.merge xs ys le) ∧ ys.Sublist (List.merge xs ys le) := by
  induction xs generalizing ys with
  | nil => simp
  | cons x xs ihx =>
      induction ys with
      | nil => simp
      | cons y ys ihy =>
          rw [List.cons_merge_cons]
          split
          · obtain ⟨hx, hy⟩ := ihx (y :: ys)
            exact ⟨hx.cons_cons x, hy.cons x⟩
          · obtain ⟨hx, hy⟩ := ihy
            exact ⟨hx.cons y, hy.cons_cons y⟩

theorem pair_sublist_merge {xs ys : List α} (hxs : xs.Pairwise fun x y => pos x ≤ pos y)
    {x y : α} (hx : x ∈ xs) (hy : y ∈ ys) (hxy : pos x ≤ pos y) :
    [x, y].Sublist (List.merge xs ys fun x y => pos x ≤ pos y) := by
  induction xs generalizing ys with
  | nil => cases hx
  | cons a xs ihx =>
      induction ys with
      | nil => cases hy
      | cons b ys ihy =>
          rw [List.cons_merge_cons]
          obtain ⟨ha, hxs'⟩ := List.pairwise_cons.mp hxs
          split
          · rcases List.mem_cons.mp hx with rfl | hx
            · have hrest := (List.singleton_sublist.mpr hy).trans
                (sublist_merge (fun x y => pos x ≤ pos y) xs (b :: ys)).2
              exact hrest.cons_cons x
            · exact (ihx hxs' hx hy).cons a
          · next hab =>
            rcases List.mem_cons.mp hy with rfl | hy
            · -- the head of `xs` is past `y`, so no element of `xs` is before it
              have hle : pos a ≤ pos x := by
                rcases List.mem_cons.mp hx with rfl | hx
                · exact le_rfl
                · exact ha x hx
              exact absurd (hle.trans hxy) (by simpa using hab)
            · exact (ihy hy).cons b

theorem isStableMerge_merge {xs ys : List α} (hxs : xs.Pairwise fun x y => pos x ≤ pos y)
    (hys : ys.Pairwise fun x y => pos x ≤ pos y) :
    IsStableMerge pos xs ys (List.merge xs ys fun x y => pos x ≤ pos y) where
  perm := List.merge_perm_append _
  sorted := by
    have : Std.Total fun x y : α => pos x ≤ pos y := ⟨fun x y => le_total (pos x) (pos y)⟩
    have : IsTrans α fun x y => pos x ≤ pos y := ⟨fun _ _ _ => le_trans⟩
    exact hxs.merge hys
  former_sublist := (sublist_merge _ xs ys).1
  due_sublist := (sublist_merge _ xs ys).2
  before _ hx _ hy hxy := pair_sublist_merge hxs hx hy hxy.le

/-! ## The cursor merges -/

theorem isStableMerge_mergeFrom {B D : List α} (hB : B.Pairwise fun x y => pos x ≤ pos y)
    (hD : D.Pairwise fun x y => pos x ≤ pos y) : IsStableMerge pos B D (mergeFrom pos B D) := by
  rw [mergeFrom_eq_merge hD]
  exact isStableMerge_merge hB hD

theorem IsStableMerge.due_sorted {former due out : List α}
    (h : IsStableMerge pos former due out) : due.Pairwise fun x y => pos x ≤ pos y :=
  h.sorted.sublist h.due_sublist

end StableMerge

end LinuxSampler
