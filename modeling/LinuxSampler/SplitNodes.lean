import Mathlib.Data.List.Basic

/-!
# Lists of nodes with a separator

A list of nodes is written with the separator before each node, and read
by splitting at separators, where any number of them in a row counts as
one. Nodes that are not empty and do not contain the separator are read
as they were written (`split_join`).

`escape` replaces every occurrence of one symbol by a text.
-/

namespace SplitNodes

variable {α : Type} [DecidableEq α] (sep : α)

def join (nodes : List (List α)) : List α := nodes.flatMap fun node => sep :: node

theorem length_dropWhile_node {l : List α} (h : l.dropWhile (· = sep) ≠ []) :
    ((l.dropWhile (· = sep)).dropWhile (· ≠ sep)).length < l.length := by
  cases hl : l.dropWhile (· = sep) with
  | nil => exact absurd hl h
  | cons a rest =>
      have ha : a ≠ sep := by
        have hhead := List.head?_dropWhile_not (fun x => decide (x = sep)) l
        rw [hl] at hhead
        simpa using hhead
      have hdrop : (a :: rest).dropWhile (· ≠ sep) = rest.dropWhile (· ≠ sep) := by
        simp [ha]
      have hle : (a :: rest).length ≤ l.length := by
        rw [← hl]
        exact (List.dropWhile_sublist _).length_le
      have hrest := (List.dropWhile_sublist (fun x => decide (x ≠ sep)) (l := rest)).length_le
      rw [hdrop]
      rw [List.length_cons] at hle
      omega

/-- The nodes between separators. -/
def split (l : List α) : List (List α) :=
  if l.dropWhile (· = sep) = [] then []
  else
    (l.dropWhile (· = sep)).takeWhile (· ≠ sep) ::
      split ((l.dropWhile (· = sep)).dropWhile (· ≠ sep))
termination_by l.length
decreasing_by exact length_dropWhile_node sep (by assumption)

def escape (c : α) (text : List α) (l : List α) : List α :=
  l.flatMap fun a => if a = c then text else [a]

variable {sep}

theorem split_nil : split sep [] = [] := by
  rw [split]
  rfl

theorem split_sep_cons (l : List α) : split sep (sep :: l) = split sep l := by
  rw [split, split.eq_def sep l]
  simp

theorem split_append {node l : List α} (hne : node ≠ []) (hnode : sep ∉ node)
    (hl : l.takeWhile (· ≠ sep) = []) : split sep (node ++ l) = node :: split sep l := by
  have hall : ∀ a ∈ node, (decide (a ≠ sep)) = true := fun a ha =>
    decide_eq_true fun heq => hnode (heq ▸ ha)
  have hdrop : (node ++ l).dropWhile (· = sep) = node ++ l := by
    cases node with
    | nil => exact absurd rfl hne
    | cons a node =>
        have ha : a ≠ sep := of_decide_eq_true (hall a List.mem_cons_self)
        simp [ha]
  have htake : (node ++ l).takeWhile (· ≠ sep) = node := by
    rw [List.takeWhile_append_of_pos hall, hl, List.append_nil]
  have hrest : (node ++ l).dropWhile (· ≠ sep) = l := by
    rw [List.dropWhile_append_of_pos hall]
    cases l with
    | nil => rfl
    | cons a l =>
        have ha : a = sep := by
          by_contra ha
          simp [ha] at hl
        simp [ha]
  rw [split, hdrop, if_neg (by simp [hne]), htake, hrest]

/-- Splitting gives back the nodes that were joined. -/
theorem split_join {nodes : List (List α)} (h : ∀ node ∈ nodes, node ≠ [] ∧ sep ∉ node) :
    split sep (join sep nodes) = nodes := by
  induction nodes with
  | nil => exact split_nil
  | cons node nodes ih =>
      obtain ⟨hne, hnode⟩ := h node List.mem_cons_self
      have htake : (join sep nodes).takeWhile (· ≠ sep) = [] := by
        cases nodes with
        | nil => rfl
        | cons node' nodes => simp [join]
      show split sep (sep :: node ++ join sep nodes) = node :: nodes
      rw [List.cons_append, split_sep_cons, split_append hne hnode htake,
        ih fun node hnode => h node (List.mem_cons_of_mem _ hnode)]

/-! ## Escaped symbols -/

@[simp] theorem escape_nil (c : α) (text : List α) : escape c text [] = [] := rfl

theorem escape_cons (c : α) (text : List α) (a : α) (l : List α) :
    escape c text (a :: l) = (if a = c then text else [a]) ++ escape c text l := rfl

theorem escape_append (c : α) (text l l' : List α) :
    escape c text (l ++ l') = escape c text l ++ escape c text l' :=
  List.flatMap_append ..

theorem not_mem_escape {c : α} {text : List α} (htext : c ∉ text) (l : List α) :
    c ∉ escape c text l := by
  intro hc
  obtain ⟨a, -, ha⟩ := List.mem_flatMap.mp hc
  split_ifs at ha with hac
  · exact htext ha
  · exact hac (List.mem_singleton.mp ha).symm

theorem escape_ne_nil {c : α} {text l : List α} (htext : text ≠ []) (hl : l ≠ []) :
    escape c text l ≠ [] := by
  cases l with
  | nil => exact absurd rfl hl
  | cons a l =>
      rw [escape_cons]
      split_ifs
      · exact List.append_ne_nil_of_left_ne_nil htext _
      · exact List.append_ne_nil_of_left_ne_nil (List.cons_ne_nil _ _) _

end SplitNodes
