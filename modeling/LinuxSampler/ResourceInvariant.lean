import LinuxSampler.ResourceLifecycle

/-!
# Every resource has one entry

Each method keeps the invariant, destroys a resource only while it exists,
and only when it is released or recreated.
-/

namespace LinuxSampler

open ResourceManager
open ResourceEvent hiding create destroy onBorrow

namespace ResourceSystem

variable {κ ρ γ α : Type*} [LinearOrder κ] [DecidableEq ρ] [DecidableEq γ]
  {S : ResourceSystem κ ρ γ α} {M : ResourceManager κ ρ γ α} {r : ρ} {key : κ} {consumer : γ}
  {events' : List (ResourceEvent κ ρ γ α)} {op : ResourceOp κ ρ γ α} {bLock : Bool}
  {entry : ResourceEntry κ ρ γ α} {create : Creation ρ α} {onBorrow : Option α → Option α}

/-- The resource is released: its life-time strategy is `ON_DEMAND`, and
neither a consumer nor custom data is left. Or it is replaced. -/
def Destroys (S : ResourceSystem κ ρ γ α) : ResourceOp κ ρ γ α → ρ → Prop
  | .handBack resource consumer, r => resource = some r ∧
      ∃ key entry, S.manager.find key = some entry ∧ entry.resource = some r ∧
        entry.mode = .onDemand ∧ entry.entryarg = none ∧ S.registered key ⊆ {consumer}
  | .setAvailabilityMode key mode _, r => Mode.ofInt mode = some .onDemand ∧
      ∃ entry, S.manager.find key = some entry ∧ entry.resource = some r ∧
        entry.entryarg = none ∧ S.registered key = ∅
  | .update resource _ _ _, r => resource = some r ∧
      ∃ key entry, S.manager.find key = some entry ∧ entry.resource = some r
  | _, _ => False

/-- `Update(NULL)` finds an entry without a resource. -/
def DestroysNull (S : ResourceSystem κ ρ γ α) : ResourceOp κ ρ γ α → Prop
  | .update none _ _ _ => ∃ key entry, S.manager.find key = some entry ∧ entry.resource = none
  | _ => False

structure StepSpec (S : ResourceSystem κ ρ γ α) (op : ResourceOp κ ρ γ α) (bLock : Bool) : Prop where
  inv : (S.step op bLock).Inv
  existing : Each Existing S.owner (S.events op bLock)
  destroys : ∀ r, (∃ lifearg, .destroy (some r) lifearg ∈ S.events op bLock) ↔ S.Destroys op r
  null : (∃ lifearg, .destroy none lifearg ∈ S.events op bLock) → S.DestroysNull op

/-- A call reports the events, and the entry of one key is all that it changes. -/
def Changes (S : ResourceSystem κ ρ γ α) (op : ResourceOp κ ρ γ α) (bLock : Bool) (key : κ)
    (events' : List (ResourceEvent κ ρ γ α)) (entry : Option (ResourceEntry κ ρ γ α)) : Prop :=
  ∃ M', S.manager.exec op bLock = (M', events') ∧ M'.find key = entry ∧
    ∀ j ≠ key, M'.find j = S.manager.find j

theorem events_eq (h : S.manager.exec op bLock = (M, events')) : S.events op bLock = events' :=
  congrArg Prod.snd h

/-- A step without the destruction of a resource. -/
theorem StepSpec.of_creates (hinv : (S.step op bLock).Inv)
    (hexec : S.manager.exec op bLock = (M, events'))
    (hevents : ∀ resource lifearg, .destroy resource lifearg ∉ events')
    (hdestroys : ∀ r, ¬S.Destroys op r) : S.StepSpec op bLock := by
  have hexisting : ∀ (owner : ρ → Option κ) (events : List (ResourceEvent κ ρ γ α)),
      (∀ resource lifearg, .destroy resource lifearg ∉ events) → Each Existing owner events := by
    intro owner events
    induction events generalizing owner with
    | nil => exact fun _ => trivial
    | cons event events ih =>
        intro h
        refine ⟨?_, ih _ fun resource lifearg hmem => h resource lifearg (.tail _ hmem)⟩
        cases event with
        | destroy resource lifearg => exact absurd List.mem_cons_self (h resource lifearg)
        | _ => trivial
  refine ⟨hinv, ?_, fun r => ?_, ?_⟩
  · rw [events_eq hexec]
    exact hexisting _ _ hevents
  · rw [events_eq hexec]
    exact iff_of_false (fun ⟨lifearg, hmem⟩ => hevents _ lifearg hmem) (hdestroys r)
  · rw [events_eq hexec]
    exact fun ⟨lifearg, hmem⟩ => absurd hmem (hevents _ lifearg)

omit [DecidableEq γ] in
/-- Resource `r` is created for `key`. -/
theorem full_update (h : ∀ s ∉ S.leaked, S.owner s = some key → s = r) {s : ρ}
    (hleaked : s ∉ S.leaked) (hs : Function.update S.owner r (some key) s = some key) :
    some r = some s := by
  by_cases hsr : s = r
  · rw [hsr]
  · rw [Function.update_of_ne hsr] at hs
    exact congrArg some (h s hleaked hs).symm

omit [DecidableEq ρ] [DecidableEq γ] in
/-- No resource exists for an entry that refers to none. -/
theorem At.not_owner (h : S.At key) (hfind : (S.manager.find key).bind (·.resource) = none)
    (s : ρ) (hleaked : s ∉ S.leaked) : S.owner s ≠ some key := by
  intro hs
  nomatch hfind.symm.trans (h.full s hleaked hs)

omit [DecidableEq ρ] [DecidableEq γ] in
/-- Two entries do not refer to the same resource. -/
theorem Inv.unique {key' : κ} {entry' : ResourceEntry κ ρ γ α} (hS : S.Inv)
    (hfind : S.manager.find key = some entry) (hr : entry.resource = some r)
    (hfind' : S.manager.find key' = some entry') (hr' : entry'.resource = some r) :
    key' = key := by
  have howner := ((hS key).entry entry hfind).owner_eq r hr
  have howner' := ((hS key').entry entry' hfind').owner_eq r hr'
  exact Option.some.inj (howner'.symm.trans howner)

/-- The entry is erased, and its resource destroyed if it has one. -/
theorem StepSpec.of_release {lifearg : Option α} (hS : S.Inv)
    (hfind : S.manager.find key = some entry)
    (hexec : S.manager.exec op bLock = (M, destroyIf entry.resource lifearg))
    (hself : M.find key = none) (hframe : ∀ j ≠ key, M.find j = S.manager.find j)
    (hregister : ∀ j ≠ key, S.register op j = S.registered j) (hkey : S.register op key = ∅)
    (hdestroys : ∀ s, S.Destroys op s ↔ entry.resource = some s) : S.StepSpec op bLock := by
  have hat := hS key
  cases hresource : entry.resource with
  | none =>
      rw [show destroyIf entry.resource lifearg = [] by simp [destroyIf, hresource]] at hexec
      refine .of_creates ?_ hexec (by simp) fun s hs => ?_
      · refine hS.erase hexec hself hframe only_refl hregister hkey fun r hleaked _ => ?_
        exact hat.not_owner (by rw [hfind]; exact hresource) r hleaked
      · nomatch hresource.symm.trans ((hdestroys s).mp hs)
  | some r =>
      have howner : S.owner r = some key := (hat.entry entry hfind).owner_eq r hresource
      rw [show destroyIf entry.resource lifearg = [.destroy (some r) lifearg] by
        simp [destroyIf, hresource]] at hexec
      refine ⟨?_, ?_, fun s => ?_, ?_⟩
      · refine hS.erase hexec hself hframe (only_update (.inr howner) (.inl rfl)) hregister hkey ?_
        intro s hleaked _ hs
        have hsr : s ≠ r := by
          rintro rfl
          nomatch (Function.update_self _ _ _).symm.trans hs
        have hs : S.owner s = some key := (Function.update_of_ne hsr _ _).symm.trans hs
        have hfull := hat.full s hleaked hs
        rw [hfind] at hfull
        exact hsr (Option.some.inj (hfull.symm.trans hresource))
      · rw [events_eq hexec]
        exact ⟨by simp [Existing, howner], trivial⟩
      · rw [events_eq hexec, hdestroys, hresource]
        simp [eq_comm]
      · rw [events_eq hexec]
        rintro ⟨lifearg, hmem⟩
        simp at hmem

/-! ## Borrow -/

theorem borrow_spec (hS : S.Inv) (hvalid : S.Valid (.borrow key consumer create onBorrow) bLock) :
    S.StepSpec (.borrow key consumer create onBorrow) bLock := by
  obtain ⟨⟨new, hnew⟩, hfresh⟩ := hvalid
  have hregister : ∀ j ≠ key,
      S.register (.borrow key consumer create onBorrow) j = S.registered j :=
    fun j hj => Function.update_of_ne hj _ _
  have hregister_self : S.register (.borrow key consumer create onBorrow) key =
      insert consumer (S.registered key) := Function.update_self _ _ _
  have hat := hS key
  cases hfind : S.manager.find key with
  | none =>
      obtain ⟨M', hexec, hself, hframe⟩ : S.Changes (.borrow key consumer create onBorrow) bLock key
          [.create key (some consumer) new, .onBorrow new consumer]
          (some ⟨key, some new, .onDemand, [consumer], create.lifearg, none⟩) := by
        simp only [Changes, exec, borrow, find_lock, hfind, hnew, returns]
        exact ⟨_, rfl, by simp, fun j hj => by simp [find_put_of_ne hj]⟩
      rw [events_eq hexec] at hfresh
      have howner : S.owner new = none := hfresh.1
      refine .of_creates ?_ hexec (by simp) nofun
      refine hS.put hexec hself hframe (only_update (.inl howner) (.inr rfl)) hregister ?_ ?_
      · refine ⟨rfl, ?_, List.nodup_singleton _, ?_, nofun, fun _ _ => List.cons_ne_nil _ _⟩
        · rintro r ⟨⟩
          exact Function.update_self _ _ _
        · intro c
          rw [hregister_self, hat.noEntry hfind]
          simp
      · intro s hleaked hs
        have hnot := hat.not_owner (by rw [hfind]; rfl)
        exact full_update (fun s hl hs => absurd hs (hnot s hl)) hleaked hs
  | some entry =>
      obtain ⟨hkey, hown, hnodup, hmem, hunused, hused⟩ := hat.entry entry hfind
      have hconsumers : ∀ c, c ∈ entry.consumers.insert consumer ↔
          c ∈ S.register (.borrow key consumer create onBorrow) key := by
        intro c
        rw [hregister_self, List.mem_insert_iff, Finset.mem_insert, hmem]
      have hne : entry.consumers.insert consumer ≠ [] :=
        List.ne_nil_of_mem List.mem_insert_self
      cases hresource : entry.resource with
      | none =>
          obtain ⟨M', hexec, hself, hframe⟩ : S.Changes (.borrow key consumer create onBorrow)
              bLock key [.create key (some consumer) new, .onBorrow new consumer]
              (some { entry with
                resource := some new
                consumers := entry.consumers.insert consumer
                lifearg := onBorrow create.lifearg }) := by
            simp only [Changes, exec, borrow, find_lock, hfind, hresource, hnew, returns]
            exact ⟨_, rfl, by simp, fun j hj => by simp [find_put_of_ne hj]⟩
          rw [events_eq hexec] at hfresh
          have howner : S.owner new = none := hfresh.1
          refine .of_creates ?_ hexec (by simp) nofun
          refine hS.put hexec hself hframe (only_update (.inl howner) (.inr rfl)) hregister ?_ ?_
          · refine ⟨hkey, ?_, hnodup.insert, hconsumers, nofun, fun _ _ => hne⟩
            rintro r ⟨⟩
            exact Function.update_self _ _ _
          · intro s hleaked hs
            have hnot := hat.not_owner (by rw [hfind]; exact hresource)
            exact full_update (fun s hl hs => absurd hs (hnot s hl)) hleaked hs
      | some resource =>
          obtain ⟨M', hexec, hself, hframe⟩ : S.Changes (.borrow key consumer create onBorrow)
              bLock key [.onBorrow resource consumer]
              (some { entry with
                consumers := entry.consumers.insert consumer
                lifearg := onBorrow entry.lifearg }) := by
            simp only [Changes, exec, borrow, find_lock, hfind, hresource, returns]
            exact ⟨_, rfl, by simp, fun j hj => by simp [find_put_of_ne hj]⟩
          refine .of_creates ?_ hexec (by simp) nofun
          refine hS.put hexec hself hframe only_refl hregister ?_ ?_
          · refine ⟨hkey, hown, hnodup.insert, hconsumers, ?_, fun _ _ => hne⟩
            intro h
            nomatch hresource.symm.trans h
          · intro s hleaked hs
            have hfull := hat.full s hleaked hs
            rwa [hfind] at hfull

/-! ## HandBack -/

theorem handBack_unknown {resource : Option ρ} (hS : S.Inv)
    (hentryOf : S.manager.entryOf resource = none) :
    S.StepSpec (.handBack resource consumer) bLock := by
  have hexec : S.manager.exec (.handBack resource consumer) bLock =
      ((S.manager.lock bLock).unlock bLock, []) := by
    simp only [exec, handBack, entryOf_lock, hentryOf, returns]
  have hrefers : ∀ key entry, S.manager.find key = some entry → entry.resource ≠ resource :=
    fun key entry => entryOf_eq_none hentryOf
  refine .of_creates (hS.same hexec (by simp) ?_) hexec (by simp) ?_
  · intro j
    cases resource with
    | none => rfl
    | some r =>
        refine if_neg fun h => ?_
        obtain ⟨entry, hfind, hr⟩ := Option.bind_eq_some_iff.mp h
        exact hrefers j entry hfind hr
  · rintro r ⟨hr, key, entry, hfind, hresource, -⟩
    exact hrefers key entry hfind (hresource.trans hr.symm)

/-- An entry without a resource has no consumer to erase. -/
theorem handBack_null (hS : S.Inv) (hentryOf : S.manager.entryOf none = some (key, entry)) :
    S.StepSpec (.handBack none consumer) bLock := by
  obtain ⟨hfind, hresource⟩ := entryOf_eq_some hentryOf
  obtain ⟨-, -, -, -, hunused, hused⟩ := (hS key).entry entry hfind
  have hconsumers := hunused hresource
  have hkept : ¬(entry.mode = .onDemand ∧ entry.entryarg = none ∧
      entry.consumers.erase consumer = []) := fun h => hused h.1 h.2.1 hconsumers
  obtain ⟨M', hexec, hself, hframe⟩ : S.Changes (.handBack none consumer) bLock key []
      (some entry) := by
    simp only [Changes, exec, handBack, entryOf_lock, hentryOf, if_neg hkept, returns]
    refine ⟨_, rfl, ?_, fun j hj => by simp [find_put_of_ne hj]⟩
    rw [find_unlock, find_put_self, hconsumers, List.erase_nil, ← hconsumers]
  refine .of_creates (hS.same hexec (fun j => ?_) fun _ => rfl) hexec (by simp) ?_
  · by_cases hj : j = key
    · rw [hj, hself, hfind]
    · exact hframe j hj
  · rintro r ⟨h, -⟩
    nomatch h

theorem handBack_resource (hS : S.Inv)
    (hentryOf : S.manager.entryOf (some r) = some (key, entry)) :
    S.StepSpec (.handBack (some r) consumer) bLock := by
  obtain ⟨hfind, hresource⟩ := entryOf_eq_some hentryOf
  obtain ⟨hkey, hown, hnodup, hmem, hunused, hused⟩ := (hS key).entry entry hfind
  have hregister : ∀ j ≠ key, S.register (.handBack (some r) consumer) j = S.registered j := by
    intro j hj
    refine if_neg fun h => hj ?_
    obtain ⟨entry', hfind', hr⟩ := Option.bind_eq_some_iff.mp h
    exact hS.unique hfind hresource hfind' hr
  have hregister_self : S.register (.handBack (some r) consumer) key =
      (S.registered key).erase consumer := by
    refine if_pos ?_
    rw [hfind]
    exact hresource
  have hmem' : ∀ c, c ∈ entry.consumers.erase consumer ↔
      c ∈ S.register (.handBack (some r) consumer) key := by
    intro c
    rw [hregister_self, hnodup.mem_erase_iff, Finset.mem_erase, hmem]
  have hempty : entry.consumers.erase consumer = [] ↔ S.registered key ⊆ {consumer} := by
    rw [List.eq_nil_iff_forall_not_mem, Finset.subset_singleton_iff']
    refine forall_congr' fun c => ?_
    rw [hnodup.mem_erase_iff, hmem]
    tauto
  have hdestroys : ∀ s, S.Destroys (.handBack (some r) consumer) s ↔
      r = s ∧ entry.mode = .onDemand ∧ entry.entryarg = none ∧
        entry.consumers.erase consumer = [] := by
    intro s
    rw [hempty]
    constructor
    · rintro ⟨hrs, key', entry', hfind', hresource', hreleased⟩
      cases hrs
      obtain rfl := hS.unique hfind hresource hfind' hresource'
      cases hfind.symm.trans hfind'
      exact ⟨rfl, hreleased⟩
    · rintro ⟨rfl, hreleased⟩
      exact ⟨rfl, key, entry, hfind, hresource, hreleased⟩
  by_cases hrelease : entry.mode = .onDemand ∧ entry.entryarg = none ∧
      entry.consumers.erase consumer = []
  · obtain ⟨M', hexec, hself, hframe⟩ : S.Changes (.handBack (some r) consumer) bLock key
        (destroyIf entry.resource entry.lifearg) none := by
      simp only [Changes, exec, handBack, entryOf_lock, hentryOf, if_pos hrelease, returns]
      exact ⟨_, rfl, by simp, fun j hj => by simp [find_erase_of_ne hj]⟩
    refine .of_release hS hfind hexec hself hframe hregister ?_ fun s => ?_
    · refine Finset.eq_empty_of_forall_notMem fun c hc => ?_
      rw [← hmem', hrelease.2.2] at hc
      exact List.not_mem_nil hc
    · rw [hdestroys, hresource, Option.some.injEq]
      exact and_iff_left hrelease
  · obtain ⟨M', hexec, hself, hframe⟩ : S.Changes (.handBack (some r) consumer) bLock key []
        (some { entry with consumers := entry.consumers.erase consumer }) := by
      simp only [Changes, exec, handBack, entryOf_lock, hentryOf, if_neg hrelease, returns]
      exact ⟨_, rfl, by simp, fun j hj => by simp [find_put_of_ne hj]⟩
    refine .of_creates ?_ hexec (by simp) fun s hs => hrelease ((hdestroys s).mp hs).2
    refine hS.put hexec hself hframe only_refl hregister ?_ ?_
    · refine ⟨hkey, hown, hnodup.erase _, hmem', ?_, ?_⟩
      · intro h
        nomatch hresource.symm.trans h
      · exact fun hmode hentryarg hnil => hrelease ⟨hmode, hentryarg, hnil⟩
    · intro s hleaked hs
      have hfull := (hS key).full s hleaked hs
      rwa [hfind] at hfull

theorem handBack_spec {resource : Option ρ} (hS : S.Inv) :
    S.StepSpec (.handBack resource consumer) bLock := by
  cases hentryOf : S.manager.entryOf resource with
  | none => exact handBack_unknown hS hentryOf
  | some a =>
      obtain ⟨key, entry⟩ := a
      cases resource with
      | none => exact handBack_null hS hentryOf
      | some r => exact handBack_resource hS hentryOf

/-! ## Update -/

omit [DecidableEq γ] in
/-- The resource of an entry, if it has one, is destroyed. -/
theorem Inv.only_destroy {lifearg : Option α} (hS : S.Inv)
    (hfind : S.manager.find key = some entry) :
    Only key S.owner (apply S.owner
      (.destroy entry.resource lifearg : ResourceEvent κ ρ γ α)) := by
  cases hresource : entry.resource with
  | none => exact only_refl
  | some r => exact only_update (.inr (((hS key).entry entry hfind).owner_eq r hresource)) (.inl rfl)

omit [DecidableEq γ] in
/-- After that nothing exists for its key. -/
theorem Inv.not_owner_destroy {lifearg : Option α} (hS : S.Inv)
    (hfind : S.manager.find key = some entry) {s : ρ} (hleaked : s ∉ S.leaked) :
    apply S.owner (.destroy entry.resource lifearg : ResourceEvent κ ρ γ α) s ≠ some key := by
  have hfull : S.owner s = some key → entry.resource = some s := by
    intro h
    have hfull := (hS key).full s hleaked h
    rwa [hfind] at hfull
  intro hs
  cases hresource : entry.resource with
  | none =>
      rw [hresource] at hs hfull
      nomatch hfull hs
  | some r =>
      rw [hresource] at hs hfull
      by_cases hsr : s = r
      · subst hsr
        nomatch (Function.update_self _ _ _).symm.trans hs
      · exact hsr (Option.some.inj
          (hfull ((Function.update_of_ne hsr _ _).symm.trans hs)).symm)

theorem update_unknown {resource : Option ρ} {updateArg : γ → Option α} (hS : S.Inv)
    (hentryOf : S.manager.entryOf resource = none) :
    S.StepSpec (.update resource consumer create updateArg) bLock := by
  have hexec : S.manager.exec (.update resource consumer create updateArg) bLock =
      ((S.manager.lock bLock).unlock bLock, []) := by
    simp only [exec, update, entryOf_lock, hentryOf, returns]
  refine .of_creates (hS.same hexec (by simp) fun _ => rfl) hexec (by simp) ?_
  rintro r ⟨hr, key, entry, hfind, hresource⟩
  exact entryOf_eq_none hentryOf hfind (hresource.trans hr.symm)

theorem update_spec {resource : Option ρ} {updateArg : γ → Option α} (hS : S.Inv)
    (hvalid : S.Valid (.update resource consumer create updateArg) bLock) :
    S.StepSpec (.update resource consumer create updateArg) bLock := by
  cases hentryOf : S.manager.entryOf resource with
  | none => exact update_unknown hS hentryOf
  | some a =>
      obtain ⟨⟨new, hnew⟩, hfresh⟩ := hvalid
      obtain ⟨key, entry⟩ := a
      obtain ⟨hfind, rfl⟩ := entryOf_eq_some hentryOf
      obtain ⟨hkey, hown, hnodup, hmem, hunused, hused⟩ := (hS key).entry entry hfind
      -- the consumers are informed, before and after
      let others := entry.consumers.filter (· ≠ consumer)
      let before : List (ResourceEvent κ ρ γ α) :=
        others.map (.resourceToBeUpdated · entry.resource)
      let after : List (ResourceEvent κ ρ γ α) :=
        others.map fun c => .resourceUpdated c entry.resource new (updateArg c)
      have hbefore : ∀ event ∈ before, event.IsNote := by
        intro event hevent
        obtain ⟨c, -, rfl⟩ := List.mem_map.mp hevent
        trivial
      have hafter : ∀ event ∈ after, event.IsNote := by
        intro event hevent
        obtain ⟨c, -, rfl⟩ := List.mem_map.mp hevent
        trivial
      obtain ⟨M', hexec, hself, hframe⟩ :
          S.Changes (.update entry.resource consumer create updateArg) bLock key
          (before ++ [.destroy entry.resource entry.lifearg] ++
            .create key (some consumer) new :: after)
          (some { entry with resource := some new, lifearg := create.lifearg }) := by
        simp only [Changes, exec, update, entryOf_lock, hentryOf, hnew, returns, hkey]
        exact ⟨_, rfl, by simp, fun j hj => by simp [find_put_of_ne hj]⟩
      let owner' := apply S.owner
        (.destroy entry.resource entry.lifearg : ResourceEvent κ ρ γ α)
      have hdestroyed : applyAll S.owner (before ++ [.destroy entry.resource entry.lifearg]) =
          owner' := by
        rw [applyAll_append, applyAll_notes hbefore]
        rfl
      have howner : applyAll S.owner (before ++ [.destroy entry.resource entry.lifearg] ++
          .create key (some consumer) new :: after) = Function.update owner' new (some key) := by
        rw [applyAll_append, hdestroyed]
        exact applyAll_notes hafter
      have hnone : owner' new = none := by
        rw [events_eq hexec, each_append, hdestroyed] at hfresh
        exact hfresh.2.1
      refine ⟨?_, ?_, fun s => ?_, ?_⟩
      · refine hS.put hexec hself hframe ?_ (fun _ _ => rfl) ?_ ?_
        · rw [howner]
          exact (hS.only_destroy hfind).trans (only_update (.inl hnone) (.inr rfl))
        · rw [howner]
          refine ⟨hkey, ?_, hnodup, hmem, nofun, hused⟩
          rintro r ⟨⟩
          exact Function.update_self _ _ _
        · intro s hleaked hs
          rw [howner] at hs
          by_cases hsn : s = new
          · rw [hsn]
          · rw [Function.update_of_ne hsn] at hs
            exact absurd hs (hS.not_owner_destroy hfind hleaked)
      · rw [events_eq hexec, each_append, each_append, applyAll_notes hbefore]
        refine ⟨⟨each_notes existing_note hbefore, ?_, trivial⟩, trivial,
          each_notes existing_note hafter⟩
        cases hresource : entry.resource with
        | none => trivial
        | some r => simp [Existing, hown r hresource]
      · rw [events_eq hexec]
        have hdestroys : S.Destroys (.update entry.resource consumer create updateArg) s ↔
            entry.resource = some s :=
          and_iff_left_of_imp fun h => ⟨key, entry, hfind, h⟩
        rw [hdestroys]
        simp [before, after, eq_comm]
      · rw [events_eq hexec]
        rintro ⟨lifearg, hmem⟩
        obtain ⟨hnull, -⟩ : none = entry.resource ∧ lifearg = entry.lifearg := by
          simpa [before, after] using hmem
        rw [← hnull]
        exact ⟨key, entry, hfind, hnull.symm⟩

/-! ## Life-time strategies -/

theorem availabilityMode_spec (hS : S.Inv) : S.StepSpec (.availabilityMode key) bLock := by
  have hexec : S.manager.exec (.availabilityMode key) bLock =
      ((S.manager.lock bLock).unlock bLock, []) := by
    cases hfind : S.manager.find key <;>
      simp only [exec, availabilityMode, find_lock, hfind, returns]
  exact .of_creates (hS.same hexec (by simp) fun _ => rfl) hexec (by simp) nofun

/-- The entry is put in the map, with a new resource if it must have one. -/
theorem createIfPersistent_spec (hS : S.Inv) (hvalid : S.Valid op bLock) {new : ρ}
    (hnew : create.resource = .ok new)
    (hexec : S.manager.exec op bLock =
      (((S.manager.lock bLock).createIfPersistent key entry create bLock).manager,
        ((S.manager.lock bLock).createIfPersistent key entry create bLock).events))
    (hregister : ∀ j, S.register op j = S.registered j)
    (hentry : EntryInv S.owner (S.registered key) key entry)
    (hfull : ∀ r ∉ S.leaked, S.owner r = some key → entry.resource = some r)
    (hdestroys : ∀ r, ¬S.Destroys op r) : S.StepSpec op bLock := by
  obtain ⟨-, hfresh⟩ := hvalid
  obtain ⟨hkey, hown, hnodup, hmem, hunused, hused⟩ := hentry
  by_cases hcreate : entry.mode = .persistent ∧ entry.resource = none
  · obtain ⟨M', hexec, hself, hframe⟩ : S.Changes op bLock key [.create key none new]
        (some { entry with resource := some new, lifearg := create.lifearg }) := by
      rw [Changes, hexec]
      simp only [createIfPersistent, if_pos hcreate, hnew, returns]
      exact ⟨_, rfl, by simp, fun j hj => by simp [find_put_of_ne hj]⟩
    rw [events_eq hexec] at hfresh
    refine .of_creates ?_ hexec (by simp) hdestroys
    refine hS.put hexec hself hframe (only_update (.inl hfresh.1) (.inr rfl))
      (fun j _ => hregister j) ?_ ?_
    · rw [hregister]
      refine ⟨hkey, ?_, hnodup, hmem, nofun, hused⟩
      rintro r ⟨⟩
      exact Function.update_self _ _ _
    · intro s hleaked hs
      refine full_update (fun s hl hs => ?_) hleaked hs
      nomatch hcreate.2.symm.trans (hfull s hl hs)
  · obtain ⟨M', hexec, hself, hframe⟩ : S.Changes op bLock key [] (some entry) := by
      rw [Changes, hexec]
      simp only [createIfPersistent, if_neg hcreate, returns]
      exact ⟨_, rfl, by simp, fun j hj => by simp [find_put_of_ne hj]⟩
    refine .of_creates ?_ hexec (by simp) hdestroys
    refine hS.put hexec hself hframe only_refl (fun j _ => hregister j) ?_ hfull
    rw [hregister]
    exact ⟨hkey, hown, hnodup, hmem, hunused, hused⟩

theorem setAvailabilityMode_spec {mode : ℤ} (hS : S.Inv)
    (hvalid : S.Valid (.setAvailabilityMode key mode create) bLock) :
    S.StepSpec (.setAvailabilityMode key mode create) bLock := by
  have hat := hS key
  obtain ⟨new, hnew⟩ := hvalid.1
  cases hmode : Mode.ofInt mode with
  | none =>
      have hexec : S.manager.exec (.setAvailabilityMode key mode create) bLock =
          (S.manager, []) := by
        simp only [exec, setAvailabilityMode, hmode]
      refine .of_creates (hS.same hexec (fun _ => rfl) fun _ => rfl) hexec (by simp) ?_
      rintro r ⟨h, -⟩
      nomatch hmode.symm.trans h
  | some mode' =>
  cases hfind : S.manager.find key with
  | none =>
      have hdestroys : ∀ r, ¬S.Destroys (.setAvailabilityMode key mode create) r := by
        rintro r ⟨-, entry, h, -⟩
        nomatch hfind.symm.trans h
      by_cases hondemand : mode' = .onDemand
      · have hexec : S.manager.exec (.setAvailabilityMode key mode create) bLock =
            ((S.manager.lock bLock).unlock bLock, []) := by
          simp only [exec, setAvailabilityMode, hmode, find_lock, hfind, if_pos hondemand, returns]
        exact .of_creates (hS.same hexec (by simp) fun _ => rfl) hexec (by simp) hdestroys
      · let entry : ResourceEntry κ ρ γ α := ⟨key, none, mode', [], none, none⟩
        have hentry : EntryInv S.owner (S.registered key) key entry := by
          refine ⟨rfl, nofun, List.nodup_nil, ?_, fun _ => rfl, fun h => absurd h hondemand⟩
          intro c
          rw [hat.noEntry hfind]
          exact iff_of_false List.not_mem_nil (Finset.notMem_empty c)
        refine createIfPersistent_spec hS hvalid hnew ?_ (fun _ => rfl) hentry ?_ hdestroys
        · simp only [exec, setAvailabilityMode, hmode, find_lock, hfind, if_neg hondemand]
          rfl
        · intro r hleaked hr
          exact absurd hr (hat.not_owner (by rw [hfind]; rfl) r hleaked)
  | some entry =>
      have hentry := hat.entry entry hfind
      by_cases hrelease : mode' = .onDemand ∧ entry.entryarg = none ∧ entry.consumers = []
      · obtain ⟨M', hexec, hself, hframe⟩ : S.Changes (.setAvailabilityMode key mode create) bLock
            key (destroyIf entry.resource entry.lifearg) none := by
          simp only [Changes, exec, setAvailabilityMode, hmode, find_lock, hfind, if_pos hrelease,
            returns]
          exact ⟨_, rfl, by simp, fun j hj => by simp [find_erase_of_ne hj]⟩
        have hempty : S.registered key = ∅ := by
          refine Finset.eq_empty_of_forall_notMem fun c hc => ?_
          rw [← hentry.mem_consumers, hrelease.2.2] at hc
          exact List.not_mem_nil hc
        refine .of_release hS hfind hexec hself hframe (fun _ _ => rfl) hempty fun s => ?_
        constructor
        · rintro ⟨-, entry', h, hresource, -⟩
          cases hfind.symm.trans h
          exact hresource
        · intro hresource
          exact ⟨hrelease.1 ▸ hmode, entry, hfind, hresource, hrelease.2.1, hempty⟩
      · have hkept : mode' = .onDemand → entry.entryarg = none → entry.consumers ≠ [] :=
          fun h h' h'' => hrelease ⟨h, h', h''⟩
        have hentry' : EntryInv S.owner (S.registered key) key { entry with mode := mode' } :=
          ⟨hentry.key_eq, hentry.owner_eq, hentry.nodup, hentry.mem_consumers, hentry.unused, hkept⟩
        refine createIfPersistent_spec hS hvalid hnew ?_ (fun _ => rfl) hentry' ?_ ?_
        · simp only [exec, setAvailabilityMode, hmode, find_lock, hfind, if_neg hrelease]
        · intro r hleaked hr
          have hfull := hat.full r hleaked hr
          rwa [hfind] at hfull
        · rintro r ⟨hondemand, entry', h, -, hentryarg, hempty⟩
          cases hfind.symm.trans h
          cases hmode.symm.trans hondemand
          refine hkept rfl hentryarg (List.eq_nil_iff_forall_not_mem.mpr fun c hc => ?_)
          rw [hentry.mem_consumers, hempty] at hc
          exact Finset.notMem_empty c hc

/-! ## Custom data -/

theorem setCustomData_spec {data : Option α} (hS : S.Inv) :
    S.StepSpec (.setCustomData key data) bLock := by
  have hat := hS key
  cases hfind : S.manager.find key with
  | none =>
      have hnot := hat.not_owner (by rw [hfind]; rfl)
      cases data with
      | none =>
          have hexec : S.manager.exec (.setCustomData key none) bLock =
              ((S.manager.lock bLock).unlock bLock, []) := by
            simp only [exec, setCustomData, find_lock, hfind, returns]
          exact .of_creates (hS.same hexec (by simp) fun _ => rfl) hexec (by simp) nofun
      | some data =>
          obtain ⟨M', hexec, hself, hframe⟩ : S.Changes (.setCustomData key (some data)) bLock key
              [] (some ⟨key, none, .onDemand, [], none, some data⟩) := by
            simp only [Changes, exec, setCustomData, find_lock, hfind, returns]
            exact ⟨_, rfl, by simp, fun j hj => by simp [find_put_of_ne hj]⟩
          refine .of_creates ?_ hexec (by simp) nofun
          refine hS.put hexec hself hframe only_refl (fun _ _ => rfl) ?_ ?_
          · refine ⟨rfl, nofun, List.nodup_nil, ?_, fun _ => rfl, nofun⟩
            intro c
            rw [show S.register (.setCustomData key (some data)) key = ∅ from hat.noEntry hfind]
            simp
          · exact fun r hleaked hr => absurd hr (hnot r hleaked)
  | some entry =>
      obtain ⟨hkey, hown, hnodup, hmem, hunused, hused⟩ := hat.entry entry hfind
      have hfull : ∀ r ∉ S.leaked, S.owner r = some key → entry.resource = some r := by
        intro r hleaked hr
        have hfull := hat.full r hleaked hr
        rwa [hfind] at hfull
      -- the entry is kept with other custom data
      have hkept : ∀ M', S.manager.exec (.setCustomData key data) bLock = (M', []) →
          M'.find key = some { entry with entryarg := data } →
          (∀ j ≠ key, M'.find j = S.manager.find j) →
          (entry.mode = .onDemand → data = none → entry.consumers ≠ []) →
          S.StepSpec (.setCustomData key data) bLock := by
        intro M' hexec hself hframe hdata
        refine .of_creates ?_ hexec (by simp) nofun
        exact hS.put hexec hself hframe only_refl (fun _ _ => rfl)
          ⟨hkey, hown, hnodup, hmem, hunused, hdata⟩ hfull
      cases data with
      | some data =>
          obtain ⟨M', hexec, hself, hframe⟩ : S.Changes (.setCustomData key (some data)) bLock key
              [] (some { entry with entryarg := some data }) := by
            simp only [Changes, exec, setCustomData, find_lock, hfind, returns]
            exact ⟨_, rfl, by simp, fun j hj => by simp [find_put_of_ne hj]⟩
          exact hkept M' hexec hself hframe nofun
      | none =>
          by_cases herase : entry.mode = .onDemand ∧ entry.consumers = []
          · obtain ⟨M', hexec, hself, hframe⟩ : S.Changes (.setCustomData key none) bLock key []
                none := by
              simp only [Changes, exec, setCustomData, find_lock, hfind, if_pos herase, returns]
              exact ⟨_, rfl, by simp, fun j hj => by simp [find_erase_of_ne hj]⟩
            refine .of_creates ?_ hexec (by simp) nofun
            refine hS.erase hexec hself hframe only_refl (fun _ _ => rfl) ?_ ?_
            · refine Finset.eq_empty_of_forall_notMem fun c hc => ?_
              have hc : c ∈ entry.consumers := (hmem c).mpr hc
              rw [herase.2] at hc
              exact List.not_mem_nil hc
            · -- a resource that the entry refers to leaks
              intro r hleaked hleaks hr
              have hsome := hfull r hleaked hr
              simp [leaks, hfind, herase, hsome] at hleaks
          · obtain ⟨M', hexec, hself, hframe⟩ : S.Changes (.setCustomData key none) bLock key []
                (some { entry with entryarg := none }) := by
              simp only [Changes, exec, setCustomData, find_lock, hfind, if_neg herase, returns]
              exact ⟨_, rfl, by simp, fun j hj => by simp [find_put_of_ne hj]⟩
            exact hkept M' hexec hself hframe fun hmode _ hnil => herase ⟨hmode, hnil⟩

/-! ## Runs -/

theorem step_spec (hS : S.Inv) (hvalid : S.Valid op bLock) : S.StepSpec op bLock := by
  cases op with
  | borrow => exact borrow_spec hS hvalid
  | handBack => exact handBack_spec hS
  | update => exact update_spec hS hvalid
  | availabilityMode => exact availabilityMode_spec hS
  | setAvailabilityMode => exact setAvailabilityMode_spec hS hvalid
  | setCustomData => exact setCustomData_spec hS

theorem run_inv {ops : List (ResourceOp κ ρ γ α × Bool)} (hS : S.Inv) (h : S.ValidRun ops) :
    (S.run ops).Inv := by
  induction ops generalizing S with
  | nil => exact hS
  | cons op ops ih => exact ih (step_spec hS h.1).inv h.2

/-- In every run each entry refers to an existing resource and to one that no
other entry refers to, the consumers of an entry are those that have borrowed
with its key and not handed back, and each call destroys existing resources
only, those that it releases or replaces, or calls `Destroy(NULL)` where
`Update(NULL)` finds an entry without a resource. Every existing resource has an
entry unless its entry has been erased with its custom data. -/
theorem run_resources (ops : List (ResourceOp κ ρ γ α × Bool))
    (h : (init : ResourceSystem κ ρ γ α).ValidRun ops) :
    (∀ key entry r, (init.run ops).manager.find key = some entry → entry.resource = some r →
      (init.run ops).owner r ≠ none ∧
      ∀ key' entry', (init.run ops).manager.find key' = some entry' →
        entry'.resource = some r → key' = key) ∧
    (∀ r ∉ (init.run ops).leaked, (init.run ops).owner r ≠ none →
      ∃ key entry, (init.run ops).manager.find key = some entry ∧ entry.resource = some r) ∧
    (∀ key c, c ∈ (init.run ops).registered key ↔
      ∃ entry, (init.run ops).manager.find key = some entry ∧ c ∈ entry.consumers) ∧
    ∀ op bLock, (init.run ops).Valid op bLock →
      Each Existing (init.run ops).owner ((init.run ops).events op bLock) ∧
      (∀ r, (∃ lifearg, .destroy (some r) lifearg ∈ (init.run ops).events op bLock) ↔
        (init.run ops).Destroys op r) ∧
      ((∃ lifearg, .destroy none lifearg ∈ (init.run ops).events op bLock) →
        (init.run ops).DestroysNull op) := by
  have hS : (init.run ops).Inv := run_inv init_inv h
  refine ⟨?_, ?_, ?_, ?_⟩
  · intro key entry r hfind hresource
    have howner := ((hS key).entry entry hfind).owner_eq r hresource
    exact ⟨by simp [howner], fun key' entry' => hS.unique hfind hresource⟩
  · intro r hleaked hr
    obtain ⟨key, hkey⟩ := Option.ne_none_iff_exists'.mp hr
    exact ⟨key, Option.bind_eq_some_iff.mp ((hS key).full r hleaked hkey)⟩
  · intro key c
    cases hfind : (init.run ops).manager.find key with
    | none => simp [(hS key).noEntry hfind]
    | some entry => simp [((hS key).entry entry hfind).mem_consumers]
  · intro op bLock hvalid
    have hstep := step_spec hS hvalid
    exact ⟨hstep.existing, hstep.destroys, hstep.null⟩

/-- Consumer 7 borrows with key 1 and hands back resource 100. -/
theorem run_resources_handBack :
    ∃ S : ResourceSystem ℕ ℕ ℕ Unit,
      S = init.run [(.borrow 1 7 ⟨.ok 100, none⟩ id, true)] ∧
      7 ∈ S.registered 1 ∧ S.owner 100 = some 1 ∧ S.leaked = [] ∧
      (∃ entry, S.manager.find 1 = some entry ∧ 7 ∈ entry.consumers) ∧
      ∃ lifearg, .destroy (some 100) lifearg ∈ S.events (.handBack (some 100) 7) true := by
  have hvalid : (init : ResourceSystem ℕ ℕ ℕ Unit).ValidRun
      [(.borrow 1 7 ⟨.ok 100, none⟩ id, true)] := ⟨⟨⟨100, rfl⟩, rfl, trivial, trivial⟩, trivial⟩
  have hrun := run_resources _ hvalid
  have hmem : 7 ∈ ((init : ResourceSystem ℕ ℕ ℕ Unit).run
      [(.borrow 1 7 ⟨.ok 100, none⟩ id, true)]).registered 1 := Finset.mem_insert_self _ _
  refine ⟨_, rfl, hmem, rfl, rfl, (hrun.2.2.1 1 7).mp hmem, ?_⟩
  refine ((hrun.2.2.2 (.handBack (some 100) 7) true ⟨trivial, ?_⟩).2.1 100).mpr ?_
  · exact ⟨trivial, trivial⟩
  · exact ⟨rfl, 1, _, rfl, rfl, rfl, rfl, by decide⟩

/-- `Update()` destroys a resource that a consumer has borrowed. -/
theorem update_destroys_in_use :
    (init : ResourceSystem ℕ ℕ ℕ Unit).ValidRun
      [(.borrow 1 7 ⟨.ok 100, none⟩ id, true),
        (.update (some 100) 7 ⟨.ok 101, none⟩ fun _ => none, true)] ∧
    ∃ S : ResourceSystem ℕ ℕ ℕ Unit,
      S = init.run [(.borrow 1 7 ⟨.ok 100, none⟩ id, true)] ∧
      (∃ entry, S.manager.find 1 = some entry ∧ entry.resource = some 100 ∧
        entry.consumers = [7]) ∧
      .destroy (some 100) none ∈
        S.events (.update (some 100) 7 ⟨.ok 101, none⟩ fun _ => none) true := by
  refine ⟨⟨⟨⟨100, rfl⟩, rfl, trivial, trivial⟩, ⟨⟨101, rfl⟩, trivial, rfl, trivial⟩, trivial⟩,
    _, rfl, ⟨_, rfl, rfl, rfl⟩, ?_⟩
  exact List.mem_cons_self

end ResourceSystem

end LinuxSampler
