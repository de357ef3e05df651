import LinuxSampler.ResourceManager
import Mathlib.Data.Finset.Insert
import Mathlib.Data.Finset.Erase

/-!
# The life of resources

Runs of the manager, with what its callers know beside its map: for which
key a resource has been created that has not been destroyed since, and which
consumers have borrowed and not handed back. The map agrees with both; only
`SetCustomData()` can erase an entry and forget its resource.
-/

namespace LinuxSampler

open ResourceManager

/-- A call of the manager. -/
inductive ResourceOp (κ ρ γ α : Type*) where
  | borrow (key : κ) (consumer : γ) (create : Creation ρ α) (onBorrow : Option α → Option α)
  | handBack (resource : Option ρ) (consumer : γ)
  | update (resource : Option ρ) (consumer : γ) (create : Creation ρ α) (updateArg : γ → Option α)
  | availabilityMode (key : κ)
  | setAvailabilityMode (key : κ) (mode : ℤ) (create : Creation ρ α)
  | setCustomData (key : κ) (data : Option α)

variable {κ ρ γ α : Type*}

/-- `Create()` returns if it is called. -/
def ResourceOp.Succeeds : ResourceOp κ ρ γ α → Prop
  | .borrow _ _ create _ => ∃ resource, create.resource = .ok resource
  | .update _ _ create _ => ∃ resource, create.resource = .ok resource
  | .setAvailabilityMode _ _ create => ∃ resource, create.resource = .ok resource
  | _ => True

/-! ## Creation and destruction -/

namespace ResourceEvent

variable {owner owner' : ρ → Option κ} {r : ρ} {key j : κ}
  {events events' : List (ResourceEvent κ ρ γ α)}

/-- A resource that is created does not exist yet. -/
def Fresh (owner : ρ → Option κ) : ResourceEvent κ ρ γ α → Prop
  | .create _ _ resource => owner resource = none
  | _ => True

/-- A resource that is destroyed exists. -/
def Existing (owner : ρ → Option κ) : ResourceEvent κ ρ γ α → Prop
  | .destroy (some resource) _ => owner resource ≠ none
  | _ => True

/-- A notification. -/
def IsNote : ResourceEvent κ ρ γ α → Prop
  | .create _ _ _ | .destroy _ _ => False
  | _ => True

theorem existing_note (owner : ρ → Option κ) (event : ResourceEvent κ ρ γ α)
    (h : event.IsNote) : event.Existing owner := by
  cases event with
  | destroy => exact h.elim
  | _ => trivial

/-- Only what exists for `key` changes. -/
def Only (key : κ) (owner owner' : ρ → Option κ) : Prop :=
  ∀ j ≠ key, ∀ r, owner' r = some j ↔ owner r = some j

theorem Only.trans {owner'' : ρ → Option κ} (h : Only key owner owner')
    (h' : Only key owner' owner'') : Only key owner owner'' :=
  fun j hj r => (h' j hj r).trans (h j hj r)

theorem only_refl : Only key owner owner := fun _ _ _ => .rfl

variable [DecidableEq ρ]

/-- The key for which each resource has been created and not destroyed since. -/
def apply (owner : ρ → Option κ) : ResourceEvent κ ρ γ α → ρ → Option κ
  | .create key _ resource => Function.update owner resource (some key)
  | .destroy (some resource) _ => Function.update owner resource none
  | _ => owner

def applyAll (owner : ρ → Option κ) (events : List (ResourceEvent κ ρ γ α)) : ρ → Option κ :=
  events.foldl apply owner

/-- `P` of each event, and of what exists before it. -/
def Each (P : (ρ → Option κ) → ResourceEvent κ ρ γ α → Prop) (owner : ρ → Option κ) :
    List (ResourceEvent κ ρ γ α) → Prop
  | [] => True
  | event :: events => P owner event ∧ Each P (apply owner event) events

theorem applyAll_append :
    applyAll owner (events ++ events') = applyAll (applyAll owner events) events' :=
  List.foldl_append

theorem applyAll_notes (h : ∀ event ∈ events, event.IsNote) : applyAll owner events = owner := by
  induction events with
  | nil => rfl
  | cons event events ih =>
      obtain ⟨hevent, hevents⟩ := List.forall_mem_cons.mp h
      cases event with
      | create => exact hevent.elim
      | destroy => exact hevent.elim
      | onBorrow => exact ih hevents
      | resourceToBeUpdated => exact ih hevents
      | resourceUpdated => exact ih hevents

theorem each_append {P : (ρ → Option κ) → ResourceEvent κ ρ γ α → Prop} :
    Each P owner (events ++ events') ↔
      Each P owner events ∧ Each P (applyAll owner events) events' := by
  induction events generalizing owner with
  | nil => simp [Each, applyAll]
  | cons event events ih => simp [Each, applyAll, ih, and_assoc]

theorem each_notes {P : (ρ → Option κ) → ResourceEvent κ ρ γ α → Prop}
    (hP : ∀ owner event, event.IsNote → P owner event) (h : ∀ event ∈ events, event.IsNote) :
    Each P owner events := by
  induction events generalizing owner with
  | nil => trivial
  | cons event events ih =>
      obtain ⟨hevent, hevents⟩ := List.forall_mem_cons.mp h
      exact ⟨hP owner event hevent, ih hevents⟩

theorem only_update (h : owner r = none ∨ owner r = some key) {o : Option κ}
    (ho : o = none ∨ o = some key) : Only key owner (Function.update owner r o) := by
  intro j hj s
  by_cases hs : s = r
  · subst hs
    rw [Function.update_self]
    have hne : ∀ o : Option κ, o = none ∨ o = some key → o ≠ some j := by
      rintro o (rfl | rfl) <;> simp [hj.symm]
    exact iff_of_false (hne o ho) (hne _ h)
  · rw [Function.update_of_ne hs]

end ResourceEvent

open ResourceEvent hiding create destroy onBorrow

variable [LinearOrder κ] [DecidableEq ρ] [DecidableEq γ]

/-! ## The system -/

/-- The manager and the calls of the others after the call. -/
def ResourceManager.exec (M : ResourceManager κ ρ γ α) (op : ResourceOp κ ρ γ α) (bLock : Bool) :
    ResourceManager κ ρ γ α × List (ResourceEvent κ ρ γ α) :=
  match op with
  | .borrow key consumer create onBorrow =>
      let out := M.borrow key consumer create onBorrow bLock
      (out.manager, out.events)
  | .handBack resource consumer =>
      let out := M.handBack resource consumer bLock
      (out.manager, out.events)
  | .update resource consumer create updateArg =>
      let out := M.update resource consumer create updateArg bLock
      (out.manager, out.events)
  | .availabilityMode key =>
      let out := M.availabilityMode key bLock
      (out.manager, out.events)
  | .setAvailabilityMode key mode create =>
      let out := M.setAvailabilityMode key mode create bLock
      (out.manager, out.events)
  | .setCustomData key data =>
      let out := M.setCustomData key data bLock
      (out.manager, out.events)

/-- The manager, and what its callers know. -/
structure ResourceSystem (κ ρ γ α : Type*) [LinearOrder κ] where
  manager : ResourceManager κ ρ γ α
  /-- The key for which a resource exists: it has been created and not destroyed. -/
  owner : ρ → Option κ
  /-- The consumers that have borrowed with a key and not handed back. -/
  registered : κ → Finset γ
  /-- The resources whose entry `SetCustomData()` has erased. -/
  leaked : List ρ

namespace ResourceSystem

def init : ResourceSystem κ ρ γ α where
  manager := .empty
  owner := fun _ => none
  registered := fun _ => ∅
  leaked := []

/-- A consumer that hands back a resource is no longer registered for the key
whose entry refers to it. -/
def register (S : ResourceSystem κ ρ γ α) : ResourceOp κ ρ γ α → κ → Finset γ
  | .borrow key consumer _ _ =>
      Function.update S.registered key (insert consumer (S.registered key))
  | .handBack (some resource) consumer => fun key =>
      if (S.manager.find key).bind (·.resource) = some resource then
        (S.registered key).erase consumer
      else S.registered key
  | _ => S.registered

/-- The custom data of an entry is removed, and with it the entry and the
reference to its resource. -/
def leaks (S : ResourceSystem κ ρ γ α) : ResourceOp κ ρ γ α → Option ρ
  | .setCustomData key none =>
      match S.manager.find key with
      | none => none
      | some entry =>
          if entry.mode = .onDemand ∧ entry.consumers = [] then entry.resource else none
  | _ => none

/-- The calls of the others during a call of the manager. -/
def events (S : ResourceSystem κ ρ γ α) (op : ResourceOp κ ρ γ α) (bLock : Bool) :
    List (ResourceEvent κ ρ γ α) :=
  (S.manager.exec op bLock).2

def step (S : ResourceSystem κ ρ γ α) (op : ResourceOp κ ρ γ α) (bLock : Bool) :
    ResourceSystem κ ρ γ α where
  manager := (S.manager.exec op bLock).1
  owner := applyAll S.owner (S.events op bLock)
  registered := S.register op
  leaked := (S.leaks op).toList ++ S.leaked

/-- `Create()` succeeds, and what it returns does not exist yet. -/
def Valid (S : ResourceSystem κ ρ γ α) (op : ResourceOp κ ρ γ α) (bLock : Bool) : Prop :=
  op.Succeeds ∧ Each Fresh S.owner (S.events op bLock)

def run (S : ResourceSystem κ ρ γ α) :
    List (ResourceOp κ ρ γ α × Bool) → ResourceSystem κ ρ γ α
  | [] => S
  | (op, bLock) :: ops => (S.step op bLock).run ops

def ValidRun (S : ResourceSystem κ ρ γ α) : List (ResourceOp κ ρ γ α × Bool) → Prop
  | [] => True
  | (op, bLock) :: ops => S.Valid op bLock ∧ (S.step op bLock).ValidRun ops

/-! ## The invariant -/

/-- An entry agrees with what is known for its key. -/
structure EntryInv (owner : ρ → Option κ) (registered : Finset γ) (key : κ)
    (entry : ResourceEntry κ ρ γ α) : Prop where
  key_eq : entry.key = key
  owner_eq : ∀ r, entry.resource = some r → owner r = some key
  nodup : entry.consumers.Nodup
  mem_consumers : ∀ c, c ∈ entry.consumers ↔ c ∈ registered
  unused : entry.resource = none → entry.consumers = []
  used : entry.mode = .onDemand → entry.entryarg = none → entry.consumers ≠ []

/-- What is known for `key` agrees with the map. -/
structure At (S : ResourceSystem κ ρ γ α) (key : κ) : Prop where
  entry : ∀ entry, S.manager.find key = some entry → EntryInv S.owner (S.registered key) key entry
  noEntry : S.manager.find key = none → S.registered key = ∅
  full : ∀ r ∉ S.leaked, S.owner r = some key →
    (S.manager.find key).bind (·.resource) = some r

def Inv (S : ResourceSystem κ ρ γ α) : Prop := ∀ key, S.At key

variable {S : ResourceSystem κ ρ γ α} {M : ResourceManager κ ρ γ α}
  {events' : List (ResourceEvent κ ρ γ α)} {op : ResourceOp κ ρ γ α} {bLock : Bool} {key : κ}
  {entry : ResourceEntry κ ρ γ α}

omit [DecidableEq ρ] [DecidableEq γ] in
theorem init_inv : (init : ResourceSystem κ ρ γ α).Inv := by
  intro key
  exact ⟨nofun, fun _ => rfl, fun _ _ h => nomatch h⟩

theorem notMem_leaked_step {r : ρ} :
    r ∉ (S.step op bLock).leaked ↔ S.leaks op ≠ some r ∧ r ∉ S.leaked := by
  simp [step]

omit [DecidableEq ρ] [DecidableEq γ] in
theorem At.congr {S' : ResourceSystem κ ρ γ α} (h : S.At key)
    (hfind : S'.manager.find key = S.manager.find key)
    (howner : ∀ r, S'.owner r = some key ↔ S.owner r = some key)
    (hregistered : S'.registered key = S.registered key)
    (hleaked : ∀ r ∉ S'.leaked, r ∉ S.leaked) : S'.At key := by
  refine ⟨?_, ?_, ?_⟩
  · intro entry hentry
    rw [hfind] at hentry
    obtain ⟨hkey, hown, hnodup, hmem, hunused, hused⟩ := h.entry entry hentry
    rw [hregistered]
    exact ⟨hkey, fun r hr => (howner r).mpr (hown r hr), hnodup, hmem, hunused, hused⟩
  · rw [hfind, hregistered]
    exact h.noEntry
  · intro r hS' hr
    rw [hfind]
    exact h.full r (hleaked r hS') ((howner r).mp hr)

/-- A step that changes nothing but what is known for `key`. -/
theorem Inv.step_at (hS : S.Inv) (hexec : S.manager.exec op bLock = (M, events'))
    (hframe : ∀ j ≠ key, M.find j = S.manager.find j)
    (howner : Only key S.owner (applyAll S.owner events'))
    (hregister : ∀ j ≠ key, S.register op j = S.registered j)
    (hat : (S.step op bLock).At key) : (S.step op bLock).Inv := by
  intro j
  by_cases hj : j = key
  · exact hj ▸ hat
  · refine (hS j).congr ?_ ?_ (hregister j hj) fun r h => (notMem_leaked_step.mp h).2
    · simp only [step, hexec, hframe j hj]
    · intro r
      simp only [step, events, hexec]
      exact howner j hj r

theorem Inv.same (hS : S.Inv) (hexec : S.manager.exec op bLock = (M, []))
    (hfind : ∀ j, M.find j = S.manager.find j)
    (hregister : ∀ j, S.register op j = S.registered j) : (S.step op bLock).Inv := by
  intro j
  refine (hS j).congr ?_ ?_ (hregister j) fun r h => (notMem_leaked_step.mp h).2
  · simp only [step, hexec, hfind]
  · intro r
    simp only [step, events, hexec]
    rfl

theorem Inv.put (hS : S.Inv) (hexec : S.manager.exec op bLock = (M, events'))
    (hself : M.find key = some entry) (hframe : ∀ j ≠ key, M.find j = S.manager.find j)
    (howner : Only key S.owner (applyAll S.owner events'))
    (hregister : ∀ j ≠ key, S.register op j = S.registered j)
    (hentry : EntryInv (applyAll S.owner events') (S.register op key) key entry)
    (hfull : ∀ r ∉ S.leaked, applyAll S.owner events' r = some key →
      entry.resource = some r) : (S.step op bLock).Inv := by
  have hfind : (S.step op bLock).manager.find key = some entry := by
    simp only [step, hexec, hself]
  refine hS.step_at hexec hframe howner hregister ⟨?_, ?_, ?_⟩
  · intro e he
    cases hfind.symm.trans he
    simp only [step, events, hexec]
    exact hentry
  · intro h
    nomatch hfind.symm.trans h
  · intro r hleaked hr
    rw [hfind]
    simp only [step, events, hexec] at hr
    exact hfull r (notMem_leaked_step.mp hleaked).2 hr

theorem Inv.erase (hS : S.Inv) (hexec : S.manager.exec op bLock = (M, events'))
    (hself : M.find key = none) (hframe : ∀ j ≠ key, M.find j = S.manager.find j)
    (howner : Only key S.owner (applyAll S.owner events'))
    (hregister : ∀ j ≠ key, S.register op j = S.registered j)
    (hkey : S.register op key = ∅)
    (hfull : ∀ r ∉ S.leaked, S.leaks op ≠ some r → applyAll S.owner events' r ≠ some key) :
    (S.step op bLock).Inv := by
  have hfind : (S.step op bLock).manager.find key = none := by
    simp only [step, hexec, hself]
  refine hS.step_at hexec hframe howner hregister ⟨?_, fun _ => hkey, ?_⟩
  · intro e he
    nomatch hfind.symm.trans he
  · intro r hleaked hr
    obtain ⟨hleaks, hleaked⟩ := notMem_leaked_step.mp hleaked
    simp only [step, events, hexec] at hr
    exact absurd hr (hfull r hleaked hleaks)

end ResourceSystem

end LinuxSampler
