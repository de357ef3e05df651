import LinuxSampler.SortedMap

/-!
# ResourceManager

Resources that consumers borrow by a key and hand back. The map has an entry
for each key that is in use, that has custom data or a life-time strategy of
its own; the entry refers to the resource while there is one. `Create()`,
`OnBorrow()` and the consumers are methods of others: what they do is an
argument of the call, and none of them calls the manager.
-/

namespace LinuxSampler

inductive Mode where
  | onDemand
  | onDemandHold
  | persistent
deriving DecidableEq

/-- The values of `mode_t`; any other one is invalid. -/
def Mode.ofInt : ℤ → Option Mode
  | 0 => some .onDemand
  | 1 => some .onDemandHold
  | 2 => some .persistent
  | _ => none

/-- `none` is the null pointer. The set of consumers is in any order. -/
structure ResourceEntry (κ ρ γ α : Type*) where
  key : κ
  resource : Option ρ
  mode : Mode
  consumers : List γ
  lifearg : Option α
  entryarg : Option α

/-- The map, and the lock count of its recursive mutex. -/
structure ResourceManager (κ ρ γ α : Type*) [LinearOrder κ] where
  resourceEntries : SortedMap κ (ResourceEntry κ ρ γ α)
  lockCount : ℕ

/-- A call of a method of the descendant or of a consumer that returned. -/
inductive ResourceEvent (κ ρ γ α : Type*) where
  | create (key : κ) (consumer : Option γ) (resource : ρ)
  | destroy (resource : Option ρ) (lifearg : Option α)
  | onBorrow (resource : ρ) (consumer : γ)
  | resourceToBeUpdated (consumer : γ) (resource : Option ρ)
  | resourceUpdated (consumer : γ) (oldResource : Option ρ) (newResource : ρ) (updateArg : Option α)

/-- What `Create()` returns or throws, and what it leaves in `lifearg`. -/
structure Creation (ρ α : Type*) where
  resource : Except String ρ
  lifearg : Option α

namespace ResourceManager

variable {κ ρ γ α : Type*} [LinearOrder κ] [DecidableEq ρ] [DecidableEq γ]

/-- What a method of the manager leaves, calls, and returns or throws. -/
structure Out (κ ρ γ α β : Type*) [LinearOrder κ] where
  manager : ResourceManager κ ρ γ α
  events : List (ResourceEvent κ ρ γ α)
  result : Except String β

def empty : ResourceManager κ ρ γ α where
  resourceEntries := .empty
  lockCount := 0

def find (M : ResourceManager κ ρ γ α) (key : κ) : Option (ResourceEntry κ ρ γ α) :=
  M.resourceEntries.find key

def put (M : ResourceManager κ ρ γ α) (key : κ) (entry : ResourceEntry κ ρ γ α) :
    ResourceManager κ ρ γ α :=
  { M with resourceEntries := M.resourceEntries.insert key entry }

def erase (M : ResourceManager κ ρ γ α) (key : κ) : ResourceManager κ ρ γ α :=
  { M with resourceEntries := M.resourceEntries.erase key }

/-- The first entry that refers to `resource`. -/
def entryOf (M : ResourceManager κ ρ γ α) (resource : Option ρ) :
    Option (κ × ResourceEntry κ ρ γ α) :=
  M.resourceEntries.first fun entry => entry.resource = resource

def lock (M : ResourceManager κ ρ γ α) (bLock : Bool) : ResourceManager κ ρ γ α :=
  if bLock then { M with lockCount := M.lockCount + 1 } else M

def unlock (M : ResourceManager κ ρ γ α) (bLock : Bool) : ResourceManager κ ρ γ α :=
  if bLock then { M with lockCount := M.lockCount - 1 } else M

section Find

variable {M : ResourceManager κ ρ γ α} {key j : κ} {entry : ResourceEntry κ ρ γ α}
  {resource : Option ρ} {bLock : Bool}

omit [DecidableEq ρ] [DecidableEq γ]

@[simp] theorem find_empty : (empty : ResourceManager κ ρ γ α).find key = none := rfl

@[simp] theorem find_lock : (M.lock bLock).find key = M.find key := by
  cases bLock <;> rfl

@[simp] theorem find_unlock : (M.unlock bLock).find key = M.find key := by
  cases bLock <;> rfl

@[simp] theorem find_put_self : (M.put key entry).find key = some entry :=
  SortedMap.find_insert_self

theorem find_put_of_ne (h : j ≠ key) : (M.put key entry).find j = M.find j :=
  SortedMap.find_insert_of_ne h

@[simp] theorem find_erase_self : (M.erase key).find key = none :=
  SortedMap.find_erase_self

theorem find_erase_of_ne (h : j ≠ key) : (M.erase key).find j = M.find j :=
  SortedMap.find_erase_of_ne h

variable [DecidableEq ρ]

@[simp] theorem entryOf_lock : (M.lock bLock).entryOf resource = M.entryOf resource := by
  cases bLock <;> rfl

theorem entryOf_eq_some (h : M.entryOf resource = some (key, entry)) :
    M.find key = some entry ∧ entry.resource = resource := by
  obtain ⟨hfind, hresource⟩ := SortedMap.first_eq_some h
  exact ⟨hfind, of_decide_eq_true hresource⟩

theorem entryOf_eq_none (h : M.entryOf resource = none) (hfind : M.find key = some entry) :
    entry.resource ≠ resource := by
  have hp := SortedMap.first_eq_none h hfind
  exact of_decide_eq_false hp

end Find

/-- The method unlocks and returns. -/
def returns {β : Type*} (M : ResourceManager κ ρ γ α) (bLock : Bool)
    (events : List (ResourceEvent κ ρ γ α)) (value : β) : Out κ ρ γ α β :=
  ⟨M.unlock bLock, events, .ok value⟩

/-- The method unlocks and throws what was thrown to it. -/
def rethrows {β : Type*} (M : ResourceManager κ ρ γ α) (bLock : Bool) (e : String) :
    Out κ ρ γ α β :=
  ⟨M.unlock bLock, [], .error e⟩

/-- `if (resource) Destroy(resource, arg)` -/
def destroyIf (resource : Option ρ) (lifearg : Option α) : List (ResourceEvent κ ρ γ α) :=
  if resource.isSome then [.destroy resource lifearg] else []

/-- In the first branch `OnBorrow()` gets the `lifearg` of a copy of the entry. -/
def borrow (M : ResourceManager κ ρ γ α) (key : κ) (consumer : γ) (create : Creation ρ α)
    (onBorrow : Option α → Option α) (bLock : Bool) : Out κ ρ γ α ρ :=
  let M := M.lock bLock
  match M.find key with
  | none =>
      let entry : ResourceEntry κ ρ γ α :=
        { key := key, resource := none, mode := .onDemand, consumers := [consumer]
          lifearg := none, entryarg := none }
      let M := M.put key entry
      match create.resource with
      | .error e => (M.erase key).rethrows bLock e
      | .ok resource =>
          (M.put key { entry with resource := some resource, lifearg := create.lifearg }).returns
            bLock [.create key (some consumer) resource, .onBorrow resource consumer] resource
  | some entry =>
      let consumers := entry.consumers.insert consumer
      match entry.resource with
      | none =>
          match create.resource with
          | .error e =>
              (M.put key { entry with resource := none, lifearg := create.lifearg }).rethrows bLock e
          | .ok resource =>
              (M.put key
                { entry with
                  resource := some resource
                  consumers := consumers
                  lifearg := onBorrow create.lifearg }).returns
                bLock [.create key (some consumer) resource, .onBorrow resource consumer] resource
      | some resource =>
          (M.put key
            { entry with consumers := consumers, lifearg := onBorrow entry.lifearg }).returns
            bLock [.onBorrow resource consumer] resource

def handBack (M : ResourceManager κ ρ γ α) (resource : Option ρ) (consumer : γ) (bLock : Bool) :
    Out κ ρ γ α Unit :=
  let M := M.lock bLock
  match M.entryOf resource with
  | none => M.returns bLock [] ()
  | some (key, entry) =>
      let entry := { entry with consumers := entry.consumers.erase consumer }
      if entry.mode = .onDemand ∧ entry.entryarg = none ∧ entry.consumers = [] then
        (M.erase key).returns bLock (destroyIf entry.resource entry.lifearg) ()
      else (M.put key entry).returns bLock [] ()

/-- `updateArg` is what each of the consumers stores in `ResourceToBeUpdated()`.
When `Create()` throws, the entry still refers to the old resource and the
mutex is still locked. -/
def update (M : ResourceManager κ ρ γ α) (resource : Option ρ) (consumer : γ)
    (create : Creation ρ α) (updateArg : γ → Option α) (bLock : Bool) : Out κ ρ γ α Unit :=
  let M := M.lock bLock
  match M.entryOf resource with
  | none => M.returns bLock [] ()
  | some (key, entry) =>
      let others := entry.consumers.filter (· ≠ consumer)
      let events :=
        others.map (.resourceToBeUpdated · entry.resource) ++
          [.destroy entry.resource entry.lifearg]
      match create.resource with
      | .error e => ⟨M.put key { entry with lifearg := create.lifearg }, events, .error e⟩
      | .ok new =>
          (M.put key { entry with resource := some new, lifearg := create.lifearg }).returns bLock
            (events ++ .create entry.key (some consumer) new ::
              others.map fun c => .resourceUpdated c entry.resource new (updateArg c)) ()

def availabilityMode (M : ResourceManager κ ρ γ α) (key : κ) (bLock : Bool) : Out κ ρ γ α Mode :=
  let M := M.lock bLock
  match M.find key with
  | none => M.returns bLock [] .onDemand
  | some entry => M.returns bLock [] entry.mode

/-- The resource is created if the entry must have one. -/
def createIfPersistent (M : ResourceManager κ ρ γ α) (key : κ) (entry : ResourceEntry κ ρ γ α)
    (create : Creation ρ α) (bLock : Bool) : Out κ ρ γ α Unit :=
  if entry.mode = .persistent ∧ entry.resource = none then
    match create.resource with
    | .error e =>
        (M.put key { entry with resource := none, lifearg := create.lifearg }).rethrows bLock e
    | .ok resource =>
        (M.put key { entry with resource := some resource, lifearg := create.lifearg }).returns
          bLock [.create key none resource] ()
  else (M.put key entry).returns bLock [] ()

def setAvailabilityMode (M : ResourceManager κ ρ γ α) (key : κ) (mode : ℤ)
    (create : Creation ρ α) (bLock : Bool) : Out κ ρ γ α Unit :=
  match Mode.ofInt mode with
  | none => ⟨M, [], .error "ResourceManager::SetAvailabilityMode(): invalid mode"⟩
  | some mode =>
      let M := M.lock bLock
      match M.find key with
      | none =>
          if mode = .onDemand then M.returns bLock [] ()
          else
            let entry : ResourceEntry κ ρ γ α :=
              { key := key, resource := none, mode := mode, consumers := []
                lifearg := none, entryarg := none }
            M.createIfPersistent key entry create bLock
      | some entry =>
          if mode = .onDemand ∧ entry.entryarg = none ∧ entry.consumers = [] then
            (M.erase key).returns bLock (destroyIf entry.resource entry.lifearg) ()
          else M.createIfPersistent key { entry with mode := mode } create bLock

def setCustomData (M : ResourceManager κ ρ γ α) (key : κ) (data : Option α) (bLock : Bool) :
    Out κ ρ γ α Unit :=
  let M := M.lock bLock
  match data, M.find key with
  | some data, none =>
      (M.put key
        { key := key, resource := none, mode := .onDemand, consumers := []
          lifearg := none, entryarg := some data }).returns bLock [] ()
  | some data, some entry => (M.put key { entry with entryarg := some data }).returns bLock [] ()
  | none, none => M.returns bLock [] ()
  | none, some entry =>
      if entry.mode = .onDemand ∧ entry.consumers = [] then (M.erase key).returns bLock [] ()
      else (M.put key { entry with entryarg := none }).returns bLock [] ()

end ResourceManager

end LinuxSampler
