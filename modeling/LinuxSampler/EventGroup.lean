import LinuxSampler.ConstCapacityArray

/-!
# Event groups

The IDs that a script marks with `set_event_mark()` are kept in an array of a
constant capacity. `EventGroup::insert()` means to remove the IDs of events
that are gone before it adds one, but it looks the new ID up instead of the
members, so that it never removes any and a full group stays as it is.
-/

namespace LinuxSampler

/-! ## The group -/

abbrev EventGroup := ConstCapacityArray ℤ

namespace EventGroup

/-- The loop of `insert()` from member `i` on; `eventByID` tells whether
`EventByID()` finds an event. -/
def removeDead (eventByID : ℤ → Bool) (eventID : ℤ) (i : ℕ) (firstDead : Option ℕ)
    (g : EventGroup) : EventGroup :=
  if i < g.size then
    match firstDead with
    | some first =>
        if eventByID eventID then
          removeDead eventByID eventID (i + 1) none (g.remove first (i - first))
        else removeDead eventByID eventID (i + 1) firstDead g
    | none => removeDead eventByID eventID (i + 1) (if eventByID eventID then none else some i) g
  else g
termination_by g.size - i
decreasing_by
  · have := ConstCapacityArray.size_remove_le g first (i - first)
    omega
  · omega
  · omega

def insert (eventByID : ℤ → Bool) (g : EventGroup) (eventID : ℤ) : EventGroup :=
  if g.contains eventID then g
  else (removeDead eventByID eventID 0 none g).append eventID

def erase (g : EventGroup) (eventID : ℤ) : EventGroup :=
  match g.find eventID with
  | some index => g.remove index 1
  | none => g

variable {eventByID : ℤ → Bool} {g : EventGroup} {eventID : ℤ}

/-- What the loop remembers to be dead is never found alive later, as it is the same
ID that is looked up. -/
theorem removeDead_eq (i : ℕ) (firstDead : Option ℕ)
    (h : firstDead.isSome → eventByID eventID = false) :
    removeDead eventByID eventID i firstDead g = g := by
  fun_induction removeDead eventByID eventID i firstDead g with
  | case1 i g hi first halive ih => exact Bool.noConfusion ((h rfl).symm.trans halive)
  | case2 i g hi first hdead ih => exact ih h
  | case3 i g hi ih =>
      refine ih fun hsome => ?_
      by_cases halive : eventByID eventID = true
      · rw [dif_pos halive] at hsome
        cases hsome
      · exact Bool.not_eq_true _ ▸ halive
  | case4 i firstDead g hi => rfl

/-- An insertion removes nothing. -/
theorem insert_eq : insert eventByID g eventID =
    if eventID ∈ g.contents then g else g.append eventID := by
  rw [insert, removeDead_eq 0 none nofun]
  exact if_congr ConstCapacityArray.contains_iff rfl rfl

/-! ## Insertions that keep the live members -/

/-- The group has the ID and all members that are alive, none of them twice and, if
it was full and had to be cleaned, none that is dead. Only a group that is full of
live members may lack the ID. -/
structure KeepsLive (alive : ℤ → Bool) (before : EventGroup) (eventID : ℤ) (after : EventGroup) :
    Prop where
  inserted : eventID ∈ after.contents ∨
    before.size = before.capacity ∧ ∀ m ∈ before.contents, alive m = true
  keepsLive : ∀ m ∈ before.contents, alive m = true → m ∈ after.contents
  nodup : after.contents.Nodup
  cleaned : before.size = before.capacity → eventID ∉ before.contents →
    ∀ m ∈ before.contents, alive m = false → m ∉ after.contents

variable (eventByID g eventID) in
/-- An insertion keeps the live members exactly if no member is there twice, and the ID
is one of them, or there is a place left, or all members are alive. -/
theorem keepsLive_insert_iff :
    KeepsLive eventByID g eventID (insert eventByID g eventID) ↔
      g.contents.Nodup ∧ (eventID ∈ g.contents ∨ g.size < g.capacity ∨
        ∀ m ∈ g.contents, eventByID m = true) := by
  rw [insert_eq]
  by_cases hmem : eventID ∈ g.contents
  · rw [if_pos hmem]
    exact ⟨fun h => ⟨h.nodup, .inl hmem⟩,
      fun h => ⟨.inl hmem, fun _ hm _ => hm, h.1, fun _ hnot => absurd hmem hnot⟩⟩
  · rw [if_neg hmem]
    rcases g.size_le.eq_or_lt with hfull | hlt
    · rw [ConstCapacityArray.append_of_full hfull]
      constructor
      · intro h
        exact ⟨h.nodup, .inr (.inr (h.inserted.resolve_left hmem).2)⟩
      · rintro ⟨hnodup, hin | hlt | hlive⟩
        · exact absurd hin hmem
        · exact absurd hfull hlt.ne
        · refine ⟨.inr ⟨hfull, hlive⟩, fun _ hm _ => hm, hnodup, fun _ _ m hm hdead => ?_⟩
          exact Bool.noConfusion (hdead.symm.trans (hlive m hm))
    · have hcontents := ConstCapacityArray.contents_append hlt eventID
      have hnodup : (g.append eventID).contents.Nodup ↔ g.contents.Nodup := by
        rw [hcontents, List.nodup_append_comm, List.singleton_append, List.nodup_cons,
          and_iff_right hmem]
      refine ⟨fun h => ⟨hnodup.1 h.nodup, .inr (.inl hlt)⟩, fun h => ⟨.inl ?_, fun m hm _ => ?_,
        hnodup.2 h.1, fun hfull => absurd hfull hlt.ne⟩⟩
      · rw [hcontents]
        exact List.mem_append_right _ List.mem_cons_self
      · rw [hcontents]
        exact List.mem_append_left _ hm

/-- The IDs 0 to 1023 in a group of the default capacity. -/
def fullGroup : EventGroup := ⟨fun i => i, 1024, 1024, le_rfl⟩

/-- Of a full group of dead events none makes room for a new one. -/
theorem not_keepsLive_insert :
    ¬ KeepsLive (· = 1024) fullGroup 1024 (insert (· = 1024) fullGroup 1024) := by
  intro h
  have hnone : ∀ m ∈ fullGroup.contents, m < 1024 := by
    intro m hm
    obtain ⟨i, hi, rfl⟩ := ConstCapacityArray.mem_contents.1 hm
    have hi : i < 1024 := hi
    show (i : ℤ) < 1024
    omega
  have hmem : (1024 : ℤ) ∉ fullGroup.contents := fun hm => Int.lt_irrefl _ (hnone _ hm)
  have hzero : (0 : ℤ) ∈ fullGroup.contents :=
    ConstCapacityArray.mem_contents.2 ⟨0, Nat.zero_lt_succ _, rfl⟩
  refine h.cleaned rfl hmem 0 hzero rfl ?_
  rw [insert_eq, if_neg hmem, ConstCapacityArray.append_of_full rfl]
  exact hzero

end EventGroup

end LinuxSampler
