import LinuxSampler.ResourceInvariant

/-!
# Updates that fail

`Update()` destroys the old resource before it creates the new one. If `Create()`
throws, nothing catches it: the entry still refers to the resource that was
destroyed, and the mutex stays locked.
-/

namespace LinuxSampler

open ResourceManager ResourceEvent

variable {κ ρ γ α : Type*} [LinearOrder κ]

namespace ResourceSystem

/-- No entry refers to a resource that was destroyed. -/
def NoDangling (S : ResourceSystem κ ρ γ α) : Prop :=
  ∀ key entry r, S.manager.find key = some entry → entry.resource = some r → S.owner r ≠ none

variable [DecidableEq ρ] [DecidableEq γ]

/-- What is left to be used after a call that failed. -/
structure ExceptionSafe (S : ResourceSystem κ ρ γ α) (op : ResourceOp κ ρ γ α) (bLock : Bool) :
    Prop where
  noDangling : (S.step op bLock).NoDangling
  registered : ∀ key, ((S.step op bLock).manager.find key).map (·.consumers) =
    (S.manager.find key).map (·.consumers)
  released : (S.step op bLock).manager.lockCount = S.manager.lockCount
  consistent : S.Inv → (S.step op bLock).Inv

variable {S : ResourceSystem κ ρ γ α} {resource : Option ρ} {consumer : γ} {create : Creation ρ α}
  {updateArg : γ → Option α} {bLock : Bool} {key : κ} {entry : ResourceEntry κ ρ γ α} {e : String}

omit [DecidableEq ρ] [DecidableEq γ] in
/-- In a consistent state no reference dangles. -/
theorem Inv.noDangling (hS : S.Inv) : S.NoDangling := by
  intro key entry r hfind hresource
  rw [((hS key).entry entry hfind).owner_eq r hresource]
  exact Option.some_ne_none key

/-- The map keeps the entry, and the lock is kept. -/
theorem exec_update_throwing (hthrows : create.resource = .error e)
    (hcalled : S.manager.entryOf resource = some (key, entry)) :
    S.manager.exec (.update resource consumer create updateArg) bLock =
      ((S.manager.lock bLock).put key { entry with lifearg := create.lifearg },
        (entry.consumers.filter (· ≠ consumer)).map (.resourceToBeUpdated · entry.resource) ++
          [.destroy entry.resource entry.lifearg]) := by
  simp only [exec, update, entryOf_lock, hcalled, hthrows]

/-- Of what exists, the resource is destroyed. -/
theorem owner_update_throwing (hthrows : create.resource = .error e)
    (hcalled : S.manager.entryOf resource = some (key, entry)) :
    (S.step (.update resource consumer create updateArg) bLock).owner =
      apply S.owner (.destroy entry.resource entry.lifearg : ResourceEvent κ ρ γ α) := by
  let notes : List (ResourceEvent κ ρ γ α) :=
    (entry.consumers.filter (· ≠ consumer)).map (.resourceToBeUpdated · entry.resource)
  have hnotes : ∀ event ∈ notes, event.IsNote := by
    intro event hevent
    obtain ⟨c, -, rfl⟩ := List.mem_map.mp hevent
    trivial
  rw [step, events_eq (exec_update_throwing hthrows hcalled), applyAll_append,
    applyAll_notes hnotes]
  rfl

theorem find_update_throwing (hthrows : create.resource = .error e)
    (hcalled : S.manager.entryOf resource = some (key, entry)) :
    (S.step (.update resource consumer create updateArg) bLock).manager.find key =
      some { entry with lifearg := create.lifearg } := by
  rw [step, exec_update_throwing hthrows hcalled, find_put_self]

theorem find_update_throwing_of_ne (hthrows : create.resource = .error e)
    (hcalled : S.manager.entryOf resource = some (key, entry)) {j : κ} (hj : j ≠ key) :
    (S.step (.update resource consumer create updateArg) bLock).manager.find j =
      S.manager.find j := by
  rw [step, exec_update_throwing hthrows hcalled, find_put_of_ne hj, find_lock]

theorem lockCount_update_throwing (hthrows : create.resource = .error e)
    (hcalled : S.manager.entryOf resource = some (key, entry)) :
    (S.step (.update resource consumer create updateArg) bLock).manager.lockCount =
      S.manager.lockCount + bLock.toNat := by
  rw [step, exec_update_throwing hthrows hcalled]
  cases bLock <;> rfl

/-- The consumers of all entries stay registered, with or without a resource. -/
theorem consumers_update_throwing (hthrows : create.resource = .error e)
    (hcalled : S.manager.entryOf resource = some (key, entry)) (j : κ) :
    ((S.step (.update resource consumer create updateArg) bLock).manager.find j).map
        (·.consumers) = (S.manager.find j).map (·.consumers) := by
  by_cases hj : j = key
  · rw [hj, find_update_throwing hthrows hcalled, (entryOf_eq_some hcalled).1]
    rfl
  · rw [find_update_throwing_of_ne hthrows hcalled hj]

/-- The entry of a resource still refers to it when it has been destroyed. -/
theorem dangling_update_throwing {r : ρ} (hthrows : create.resource = .error e)
    (hcalled : S.manager.entryOf (some r) = some (key, entry)) :
    ¬ (S.step (.update (some r) consumer create updateArg) bLock).NoDangling := by
  intro h
  have hresource := (entryOf_eq_some hcalled).2
  refine h key _ r (find_update_throwing hthrows hcalled) hresource ?_
  rw [owner_update_throwing hthrows hcalled, hresource]
  exact Function.update_self ..

/-- Without a resource there is none to destroy. -/
theorem noDangling_update_null (hthrows : create.resource = .error e)
    (hcalled : S.manager.entryOf none = some (key, entry)) :
    (S.step (.update none consumer create updateArg) bLock).NoDangling ↔ S.NoDangling := by
  obtain ⟨hfind, hresource⟩ := entryOf_eq_some hcalled
  have howner : (S.step (.update none consumer create updateArg) bLock).owner = S.owner := by
    rw [owner_update_throwing hthrows hcalled, hresource]
    rfl
  have hsame : ∀ j, ((S.step (.update none consumer create updateArg) bLock).manager.find j).map
      (·.resource) = (S.manager.find j).map (·.resource) := by
    intro j
    by_cases hj : j = key
    · rw [hj, find_update_throwing hthrows hcalled, hfind]
      rfl
    · rw [find_update_throwing_of_ne hthrows hcalled hj]
  have hrefers : ∀ (T : ResourceSystem κ ρ γ α), T.NoDangling ↔
      ∀ j r, (T.manager.find j).map (·.resource) = some (some r) → T.owner r ≠ none := by
    intro T
    constructor
    · intro h j r hmap
      obtain ⟨entry, hfind, hresource⟩ := Option.map_eq_some_iff.1 hmap
      exact h j entry r hfind hresource
    · intro h j entry r hfind hresource
      exact h j r (by rw [hfind, Option.map_some, hresource])
  rw [hrefers, hrefers, howner]
  simp only [hsame]

/-- A consistent state stays so if there was no resource. -/
theorem Inv.update_null (hS : S.Inv) (hthrows : create.resource = .error e)
    (hcalled : S.manager.entryOf none = some (key, entry)) :
    (S.step (.update none consumer create updateArg) bLock).Inv := by
  obtain ⟨hfind, hresource⟩ := entryOf_eq_some hcalled
  intro j
  have howner : (S.step (.update none consumer create updateArg) bLock).owner = S.owner := by
    rw [owner_update_throwing hthrows hcalled, hresource]
    rfl
  have hat := hS j
  by_cases hj : j = key
  · subst hj
    obtain ⟨hkey, hown, hnodup, hmem, hunused, hused⟩ := hat.entry entry hfind
    refine ⟨fun entry' hentry' => ?_, fun hnone => ?_, fun r hleaked hr => ?_⟩
    · rw [find_update_throwing hthrows hcalled] at hentry'
      cases hentry'
      exact ⟨hkey, fun r hr => (congrFun howner r).trans (hown r hr), hnodup, hmem, hunused, hused⟩
    · rw [find_update_throwing hthrows hcalled] at hnone
      cases hnone
    · have hfull := hat.full r (notMem_leaked_step.mp hleaked).2 (howner ▸ hr)
      rw [hfind] at hfull
      rw [find_update_throwing hthrows hcalled]
      exact hfull
  · exact hat.congr (find_update_throwing_of_ne hthrows hcalled hj)
      (fun r => by rw [howner]) rfl fun r h => (notMem_leaked_step.mp h).2

/-- When `Create()` throws, an update is safe only if there was neither a resource to be
updated nor a lock to be released. -/
theorem update_exceptionSafe_iff (hthrows : create.resource = .error e)
    (hcalled : S.manager.entryOf resource = some (key, entry)) :
    S.ExceptionSafe (.update resource consumer create updateArg) bLock ↔
      resource = none ∧ bLock = false ∧ S.NoDangling := by
  constructor
  · intro h
    have hunlocked : bLock = false := by
      have hcount := h.released
      rw [lockCount_update_throwing hthrows hcalled] at hcount
      cases bLock with
      | false => rfl
      | true => exact absurd hcount (Nat.succ_ne_self _)
    cases resource with
    | none => exact ⟨rfl, hunlocked, (noDangling_update_null hthrows hcalled).1 h.noDangling⟩
    | some r => exact absurd h.noDangling (dangling_update_throwing hthrows hcalled)
  · rintro ⟨rfl, rfl, hdangling⟩
    exact ⟨(noDangling_update_null hthrows hcalled).2 hdangling,
      consumers_update_throwing hthrows hcalled, lockCount_update_throwing hthrows hcalled,
      fun hS => hS.update_null hthrows hcalled⟩

/-- An entry with custom data, which has no resource yet. -/
theorem update_exceptionSafe_customData :
    (init.run [(.setCustomData 1 (some ()), true)] : ResourceSystem ℕ ℕ ℕ Unit).ExceptionSafe
      (.update none 7 ⟨.error "no file", none⟩ fun _ => none) false := by
  have hcalled : (init.run [(.setCustomData 1 (some ()), true)] :
      ResourceSystem ℕ ℕ ℕ Unit).manager.entryOf none =
        some (1, ⟨1, none, .onDemand, [], none, some ()⟩) := rfl
  have hvalid : (init : ResourceSystem ℕ ℕ ℕ Unit).ValidRun
      [(.setCustomData 1 (some ()), true)] := ⟨⟨trivial, trivial⟩, trivial⟩
  exact (update_exceptionSafe_iff rfl hcalled).2 ⟨rfl, rfl, (run_inv init_inv hvalid).noDangling⟩

/-- After a failed update the entry of the key that consumer 7 borrowed with refers to a
resource that was destroyed. -/
theorem not_update_exceptionSafe :
    ¬ (init.run [(.borrow 1 7 ⟨.ok 100, none⟩ id, true)] :
        ResourceSystem ℕ ℕ ℕ Unit).ExceptionSafe
      (.update (some 100) 7 ⟨.error "no file", none⟩ fun _ => none) true :=
  fun h => h.noDangling 1 _ 100 rfl rfl rfl

end ResourceSystem

end LinuxSampler
