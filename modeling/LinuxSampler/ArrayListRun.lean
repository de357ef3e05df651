import LinuxSampler.ArrayList

/-!
# Programs with lists

A program with any number of lists does to them what the same operations do to
sequences, as long as no `resize()` makes a list longer that has an array.
-/

namespace LinuxSampler

open ArrayMemory (NULL)

namespace ArrayList

variable {T : Type} {unset : ℕ → ℕ → T} {ys : List T}

/-! ## Names and operations -/

/-- A list is always used by its own name; a name under which none was made yet is that of
an empty list. -/
structure World (T : Type) where
  objects : ℕ → ArrayList
  memory : ArrayMemory T

/-- What a program does with lists. `clear()` is also all that the destructor does. -/
inductive Op (T : Type) where
  | construct (o : ℕ)
  | copyConstruct (o list : ℕ) (ne : o ≠ list)
  | add (o : ℕ) (element : T)
  | remove (o : ℕ) (iPosition : ℤ)
  | removeElement (o : ℕ) (element : T)
  | resize (o : ℕ) (cnt : ℤ)
  | clear (o : ℕ)
  | assign (o list : ℕ)
  | copyFlatFrom (o list : ℕ)

namespace World

def start : World T := ⟨fun _ => init, ArrayMemory.empty⟩

/-- A call for the list of a name. -/
def call (w : World T) (o : ℕ) (c : Call T) : World T × Except Thrown Unit :=
  (⟨Function.update w.objects o c.list, c.memory⟩, c.result)

variable (unset) in
def step [BEq T] (w : World T) : Op T → World T × Except Thrown Unit
  | .construct o => w.call o { list := init, memory := w.memory }
  | .copyConstruct o list _ => w.call o ((w.objects list).copy unset w.memory)
  | .add o element => w.call o ((w.objects o).add unset element w.memory)
  | .remove o iPosition => w.call o ((w.objects o).remove unset iPosition w.memory)
  | .removeElement o element => w.call o ((w.objects o).removeElement unset element w.memory)
  | .resize o cnt => w.call o ((w.objects o).resize unset cnt w.memory)
  | .clear o => w.call o ((w.objects o).clear w.memory)
  | .assign o list =>
      if o = list then (w, .ok ())
      else w.call o ((w.objects o).assign unset (w.objects list) w.memory)
  | .copyFlatFrom o list =>
      w.call o ((w.objects o).copyFlatFrom unset (w.objects list) w.memory)

/-- The elements of the lists. -/
def lists (w : World T) (o : ℕ) : List T := w.memory.elements (w.objects o).pData

/-! ## Lists as sequences -/

variable [BEq T]

/-- The operations on sequences, with what the program gets of them. -/
def Performs (s : ℕ → List T) (op : Op T) (r : Except Thrown Unit) (s' : ℕ → List T) : Prop :=
  match op with
  | .construct o | .clear o => r = .ok () ∧ s' = Function.update s o []
  | .copyConstruct o list _ | .assign o list => r = .ok () ∧ s' = Function.update s o (s list)
  | .add o element => r = .ok () ∧ s' = Function.update s o (s o ++ [element])
  | .remove o iPosition =>
      if 0 ≤ iPosition ∧ iPosition < (s o).length then
        r = .ok () ∧ s' = Function.update s o ((s o).eraseIdx iPosition.toNat)
      else (∃ e, r = .error e) ∧ s' = s
  | .removeElement o element =>
      match (s o).findIdx? (· == element) with
      | some i => r = .ok () ∧ s' = Function.update s o ((s o).eraseIdx i)
      | none => (∃ e, r = .error e) ∧ s' = s
  | .resize o cnt =>
      if cnt < 0 then (∃ e, r = .error e) ∧ s' = s
      else r = .ok () ∧ ∃ ys, ys.length = cnt.toNat ∧
        ys.take (min (s o).length cnt.toNat) = (s o).take (min (s o).length cnt.toNat) ∧
        s' = Function.update s o ys
  | .copyFlatFrom o list =>
      r = .ok () ∧
        s' = Function.update s o ((s list).take (s o).length ++ (s o).drop (s list).length)

/-- All lists tell the size of their arrays, and no array was accessed outside. -/
structure Sound (w : World T) : Prop where
  size : ∀ o, (w.objects o).iSize = (w.lists o).length
  inBounds : w.memory.InBounds

variable (unset) in
/-- Before and after each operation the lists are sound, and it does to them what it does
to sequences. -/
def Refines (w : World T) : List (Op T) → Prop
  | [] => w.Sound
  | op :: ops =>
      w.Sound ∧ Performs w.lists op (step unset w op).2 (step unset w op).1.lists ∧
        Refines (step unset w op).1 ops

/-- No `resize()` makes a list longer that has an array. -/
def Fits (w : World T) : Op T → Prop
  | .resize o cnt => (w.objects o).pData = NULL ∨ cnt ≤ (w.objects o).iSize
  | _ => True

variable (unset) in
def AllFit (w : World T) : List (Op T) → Prop
  | [] => True
  | op :: ops => w.Fits op ∧ AllFit (step unset w op).1 ops

/-! ## Runs -/

/-- Each list has its elements in an array of its own. -/
structure Inv (w : World T) : Prop where
  wellFormed : w.memory.WellFormed
  inBounds : w.memory.InBounds
  represents : ∀ o, Represents w.memory (w.objects o) (w.lists o)
  own : ∀ o o', o ≠ o' → (w.objects o).pData = (w.objects o').pData →
    (w.objects o).pData = NULL

variable {w : World T} {o : ℕ} {k : Call T}

omit [BEq T] in
theorem inv_start : Inv (start : World T) :=
  ⟨ArrayMemory.wellFormed_empty, nofun,
    fun _ => ⟨rfl, fun _ => rfl, fun hnull => absurd rfl hnull⟩, fun _ _ _ _ => rfl⟩

namespace Inv

omit [BEq T] in
theorem sound (h : Inv w) : w.Sound :=
  ⟨fun o => (h.represents o).size, h.inBounds⟩

omit [BEq T] in
/-- The array of another list is still there after a call. -/
theorem kept (h : Inv w) (heffect : Effect w.memory (w.objects o) k ys) {o' : ℕ} (ho : o' ≠ o) :
    k.memory.arrays (w.objects o').pData = w.memory.arrays (w.objects o').pData := by
  by_cases hnull : (w.objects o').pData = NULL
  · rw [hnull, heffect.wellFormed.null, h.wellFormed.null]
  · exact heffect.frame _ ((h.represents o').lt_next h.wellFormed)
      fun heq => hnull (h.own o' o ho heq)

omit [BEq T] in
theorem lists_call (h : Inv w) (heffect : Effect w.memory (w.objects o) k ys) :
    (w.call o k).1.lists = Function.update w.lists o ys := by
  funext o'
  by_cases ho : o' = o
  · subst ho
    rw [Function.update_self, lists, World.call]
    dsimp only
    rw [Function.update_self]
    by_cases hnull : k.list.pData = NULL
    · rw [hnull, ArrayMemory.elements, heffect.wellFormed.null, heffect.represents.null hnull]
      rfl
    · exact ArrayMemory.elements_of_some (heffect.represents.array hnull)
  · rw [Function.update_of_ne ho, lists, World.call]
    dsimp only
    rw [Function.update_of_ne ho, ArrayMemory.elements, h.kept heffect ho]
    rfl

omit [BEq T] in
/-- A call that leaves the elements of its list leaves those of all. -/
theorem lists_throwing (h : Inv w) (heffect : Effect w.memory (w.objects o) k (w.lists o)) :
    (w.call o k).1.lists = w.lists := by
  rw [h.lists_call heffect, Function.update_eq_self]

omit [BEq T] in
theorem call (h : Inv w) (heffect : Effect w.memory (w.objects o) k ys) :
    Inv (w.call o k).1 := by
  have hnew : ∀ o', o' ≠ o → (w.objects o').pData = k.list.pData →
      (w.objects o').pData = NULL := by
    intro o' ho heq
    rcases heffect.own with hown | hown | hown
    · exact heq.trans hown
    · exact h.own o' o ho (heq.trans hown)
    · exact absurd ((h.represents o').lt_next h.wellFormed) (heq ▸ hown).not_gt
  refine ⟨heffect.wellFormed, heffect.inBounds h.inBounds, fun o' => ?_, fun o₁ o₂ hne heq => ?_⟩
  · rw [h.lists_call heffect]
    show Represents k.memory (Function.update w.objects o k.list o') _
    by_cases ho : o' = o
    · rw [ho, Function.update_self, Function.update_self]
      exact heffect.represents
    · rw [Function.update_of_ne ho, Function.update_of_ne ho]
      have hrep := h.represents o'
      exact ⟨hrep.size, hrep.null, fun hp => (h.kept heffect ho).trans (hrep.array hp)⟩
  · have heq : (Function.update w.objects o k.list o₁).pData =
        (Function.update w.objects o k.list o₂).pData := heq
    show (Function.update w.objects o k.list o₁).pData = NULL
    by_cases h₁ : o₁ = o
    · have h₂ : o₂ ≠ o := fun h₂ => hne (h₁.trans h₂.symm)
      rw [h₁, Function.update_self, Function.update_of_ne h₂] at heq
      rw [h₁, Function.update_self, heq]
      exact hnew o₂ h₂ heq.symm
    · rw [Function.update_of_ne h₁] at heq ⊢
      by_cases h₂ : o₂ = o
      · rw [h₂, Function.update_self] at heq
        exact hnew o₁ h₁ heq
      · rw [Function.update_of_ne h₂] at heq
        exact h.own o₁ o₂ hne heq

end Inv

variable (unset) in
/-- An operation that fits does to the lists what it does to sequences. -/
theorem Inv.step (h : Inv w) (op : Op T) (hfits : w.Fits op) :
    Inv (World.step unset w op).1 ∧
      Performs w.lists op (World.step unset w op).2 (World.step unset w op).1.lists := by
  have hm := h.wellFormed
  cases op with
  | construct o =>
      have heffect : Effect w.memory (w.objects o) ⟨init, w.memory, .ok ()⟩ [] :=
        ⟨⟨rfl, fun _ => rfl, fun hnull => absurd rfl hnull⟩, hm, id, fun _ _ _ => rfl, .inl rfl⟩
      exact ⟨h.call heffect, rfl, h.lists_call heffect⟩
  | copyConstruct o list ne =>
      have heffect := effect_copy unset (l := w.objects o) hm (h.represents list)
      exact ⟨h.call heffect, result_copy, h.lists_call heffect⟩
  | add o element =>
      have heffect := effect_add unset element hm (h.represents o)
      exact ⟨h.call heffect, rfl, h.lists_call heffect⟩
  | remove o iPosition =>
      have hsize := (h.represents o).size
      by_cases hin : 0 ≤ iPosition ∧ iPosition < (w.lists o).length
      · obtain ⟨i, rfl⟩ := Int.eq_ofNat_of_zero_le hin.1
        obtain ⟨hresult, heffect⟩ :=
          effect_remove unset hm (h.represents o) (i := i) (Int.ofNat_lt.1 hin.2)
        refine ⟨h.call heffect, ?_⟩
        rw [Performs, if_pos hin]
        exact ⟨hresult, h.lists_call heffect⟩
      · have hout : iPosition < 0 ∨ iPosition ≥ (w.objects o).iSize := by omega
        have hcall := remove_of_not (m := w.memory) unset hout
        refine ⟨h.call (hcall ▸ Effect.unchanged hm (h.represents o)), ?_⟩
        rw [Performs, if_neg hin]
        exact ⟨⟨_, congrArg Call.result hcall⟩,
          h.lists_throwing (hcall ▸ Effect.unchanged hm (h.represents o))⟩
  | removeElement o element =>
      have heffect := effect_removeElement unset element hm (h.represents o)
      rw [Performs]
      rcases Option.eq_none_or_eq_some ((w.lists o).findIdx? (· == element)) with
        hnone | ⟨i, hsome⟩
      · rw [hnone] at heffect ⊢
        obtain ⟨hresult, heffect⟩ := heffect
        exact ⟨h.call heffect, hresult, h.lists_throwing heffect⟩
      · rw [hsome] at heffect ⊢
        obtain ⟨hresult, heffect⟩ := heffect
        exact ⟨h.call heffect, hresult, h.lists_call heffect⟩
  | resize o cnt =>
      rw [Performs]
      by_cases hneg : cnt < 0
      · have hcall : (w.objects o).resize unset cnt w.memory =
            { list := w.objects o, memory := w.memory, result := .error .badArrayNewLength } :=
          if_pos hneg
        rw [if_pos hneg]
        exact ⟨h.call (hcall ▸ Effect.unchanged hm (h.represents o)),
          ⟨_, congrArg Call.result hcall⟩,
          h.lists_throwing (hcall ▸ Effect.unchanged hm (h.represents o))⟩
      · have hfits : (w.objects o).pData ≠ NULL → cnt ≤ (w.objects o).iSize :=
          Or.resolve_left hfits
        obtain ⟨ys, heffect, hlen, htake⟩ :=
          effect_resize unset hm (h.represents o) (not_lt.1 hneg) hfits
        rw [if_neg hneg]
        refine ⟨h.call heffect, ?_, ys, hlen, htake, h.lists_call heffect⟩
        exact congrArg Call.result (if_neg hneg)
  | clear o =>
      have heffect := effect_clear hm (h.represents o)
      exact ⟨h.call heffect, result_clear, h.lists_call heffect⟩
  | assign o list =>
      by_cases hsame : o = list
      · rw [World.step, if_pos hsame]
        exact ⟨h, rfl, hsame ▸ (Function.update_eq_self o w.lists).symm⟩
      · have heffect := effect_assign unset hm (h.represents o) (h.represents list)
          fun heq => h.own o list hsame heq.symm
        rw [World.step, if_neg hsame]
        exact ⟨h.call heffect, result_copy, h.lists_call heffect⟩
  | copyFlatFrom o list =>
      have heffect := effect_copyFlatFrom unset hm (h.represents o) (h.represents list)
      exact ⟨h.call heffect, rfl, h.lists_call heffect⟩

variable (unset) in
/-- An operation that does not fit accesses an array outside. -/
theorem Inv.not_sound_step (h : Inv w) {op : Op T} (hfits : ¬ w.Fits op) :
    ¬ (World.step unset w op).1.Sound := by
  cases op with
  | resize o cnt =>
      obtain ⟨hp, hlt⟩ := not_or.1 hfits
      intro hsound
      exact not_inBounds_resize h.wellFormed (h.represents o) hp (not_le.1 hlt) hsound.inBounds
  | _ => exact absurd trivial hfits

theorem Refines.sound {ops : List (Op T)} (h : w.Refines unset ops) : w.Sound := by
  cases ops with
  | nil => exact h
  | cons op ops => exact h.1

theorem Inv.refines_iff (h : Inv w) (ops : List (Op T)) :
    w.Refines unset ops ↔ w.AllFit unset ops := by
  induction ops generalizing w with
  | nil => exact ⟨fun _ => trivial, fun _ => h.sound⟩
  | cons op ops ih =>
      constructor
      · rintro ⟨-, -, hrest⟩
        have hfits : w.Fits op := by
          by_contra hnot
          exact h.not_sound_step unset hnot hrest.sound
        exact ⟨hfits, (ih (h.step unset op hfits).1).1 hrest⟩
      · rintro ⟨hfits, hrest⟩
        obtain ⟨hinv, hperforms⟩ := h.step unset op hfits
        exact ⟨h.sound, hperforms, (ih hinv).2 hrest⟩

variable (unset) in
/-- A program with lists is one with sequences, and accesses no array outside, exactly if
no `resize()` makes a list longer that has an array. -/
theorem refines_start_iff (ops : List (Op T)) :
    (start : World T).Refines unset ops ↔ (start : World T).AllFit unset ops :=
  inv_start.refines_iff ops

/-- With one element in a list, `resize()` to two reads a second one. -/
theorem not_refines_resize :
    ¬ (start : World ℕ).Refines (fun _ _ => 0) [.add 0 7, .resize 0 2] :=
  fun h => absurd (h.2.2.2.2.inBounds (1, 1) (by decide)) (Nat.lt_irrefl 1)

end World

end ArrayList

end LinuxSampler
