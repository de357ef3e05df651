import LinuxSampler.MidiRouting

/-!
# Consistent routing

Both sides of the routing agree after each call. A system exclusive message that
assigns the channel of a part does not tell the ports about it.
-/

namespace LinuxSampler

namespace Route

variable {P : Type*} [DecidableEq P] {r r' : Route P} {p : P} {m i : ℕ} {ps : List P}

/-- The channel is in set `m` of its ports, and nowhere else. -/
structure Wired (m : ℕ) (r : Route P) : Prop where
  nodup : r.midiInputs.Nodup
  listens : ∀ p i, r.listens p i = true ↔ i = m ∧ p ∈ r.midiInputs

structure Consistent (r : Route P) : Prop where
  wired : r.Wired r.midiChannel
  valid : r.midiChannel ≤ midi_chan_all

/-- The channel is in no set of the port. -/
def Unknown (p : P) (r : Route P) : Prop := ∀ i, r.listens p i = false

theorem isValidMidiChan_iff : isValidMidiChan m = true ↔ m ≤ midi_chan_all := by
  rw [isValidMidiChan, decide_eq_true_iff]

theorem mem_range_iff : i ∈ List.range 17 ↔ i ≤ midi_chan_all := by
  rw [List.mem_range, midi_chan_all]
  omega

/-! ## Disconnecting -/

theorem unregister_of_unknown (h : r.Unknown p) : r.unregister p = r := by
  rw [unregister]
  refine congrArg (fun listens => { r with listens := listens }) (funext fun p' => funext fun i => ?_)
  by_cases hp : p' = p
  · rw [hp, h i, Bool.and_false]
  · simp [hp]

omit [DecidableEq P] in
theorem not_found_of_unknown (h : r.Unknown p) :
    (List.range 17).any (r.listens p) = false := by
  rw [List.any_eq_false]
  intro i _
  rw [h i]
  exact Bool.false_ne_true

theorem portDisconnect_of_unknown {fuel : ℕ} (h : r.Unknown p) :
    portDisconnect p (fuel + 1) r = some r := by
  rw [portDisconnect, not_found_of_unknown h, if_neg Bool.false_ne_true, unregister_of_unknown h]

/-- The two sides without each other. -/
def detach (p : P) (r : Route P) : Route P :=
  { r with midiInputs := r.midiInputs.erase p }.unregister p

/-- The sets of the port above 16 do not exist. -/
def Bounded (r : Route P) : Prop := ∀ p i, r.listens p i = true → i ≤ midi_chan_all

omit [DecidableEq P] in
theorem Wired.bounded (h : r.Wired m) (hm : m ≤ midi_chan_all) : r.Bounded := by
  intro p i hi
  rw [((h.listens p i).mp hi).1]
  exact hm

theorem unknown_unregister (h : r.Bounded) : (r.unregister p).Unknown p := by
  intro i
  rw [unregister]
  dsimp only
  by_cases hi : i ≤ midi_chan_all
  · simp [hi]
  · rw [Bool.eq_false_iff.mpr fun hlistens => hi (h p i hlistens), Bool.and_false]

/-- The port informs a channel that it finds in its map. -/
theorem portDisconnect_of_found {fuel : ℕ} (hr : r.Bounded) (hfound : r.listens p i = true) :
    portDisconnect p (fuel + 3) r = some (r.detach p) := by
  have hany : (List.range 17).any (r.listens p) = true :=
    List.any_eq_true.mpr ⟨i, mem_range_iff.mpr (hr p i hfound), hfound⟩
  rw [portDisconnect, hany, if_pos rfl, disconnect]
  by_cases hmem : p ∈ r.midiInputs
  · have hmem' : p ∈ (r.unregister p).midiInputs := hmem
    rw [if_pos hmem']
    have hunknown : (r.detach p).Unknown p := unknown_unregister hr
    exact portDisconnect_of_unknown hunknown
  · have hmem' : p ∉ (r.unregister p).midiInputs := hmem
    rw [if_neg hmem', detach, List.erase_of_not_mem hmem]

theorem Wired.detach (h : r.Wired m) (hm : m ≤ midi_chan_all) : (r.detach p).Wired m := by
  have hkeys : (r.detach p).midiInputs = r.midiInputs.erase p := rfl
  refine ⟨h.nodup.erase p, fun p' i => ?_⟩
  have hlistens : (r.detach p).listens p' i =
      (!decide (p' = p ∧ i ≤ midi_chan_all) && r.listens p' i) := rfl
  rw [hlistens, Bool.and_eq_true, h.listens, hkeys, h.nodup.mem_erase_iff, Bool.not_eq_true',
    decide_eq_false_iff_not]
  constructor
  · rintro ⟨hother, rfl, hmem⟩
    exact ⟨rfl, fun hp => hother ⟨hp, hm⟩, hmem⟩
  · rintro ⟨rfl, hp, hmem⟩
    exact ⟨fun hother => hp hother.1, rfl, hmem⟩

omit [DecidableEq P] in
theorem Wired.unknown (h : r.Wired m) (hp : p ∉ r.midiInputs) : r.Unknown p := by
  intro i
  rw [Bool.eq_false_iff]
  exact fun hi => hp ((h.listens p i).mp hi).2

theorem detach_of_notMem (h : r.Wired m) (hp : p ∉ r.midiInputs) : r.detach p = r := by
  rw [Route.detach, List.erase_of_not_mem hp]
  exact unregister_of_unknown (h.unknown hp)

theorem portDisconnect_eq {fuel : ℕ} (h : r.Wired m) (hm : m ≤ midi_chan_all) :
    portDisconnect p (fuel + 3) r = some (r.detach p) := by
  by_cases hp : p ∈ r.midiInputs
  · exact portDisconnect_of_found (h.bounded hm) ((h.listens p m).mpr ⟨rfl, hp⟩)
  · rw [portDisconnect_of_unknown (h.unknown hp), detach_of_notMem h hp]

theorem disconnect_eq {fuel : ℕ} (h : r.Wired m) (hm : m ≤ midi_chan_all) :
    disconnect p (fuel + 4) r = some (r.detach p) := by
  rw [disconnect]
  by_cases hp : p ∈ r.midiInputs
  · rw [if_pos hp]
    have hbounded : ({ r with midiInputs := r.midiInputs.erase p } : Route P).Bounded :=
      h.bounded hm
    have hfound : ({ r with midiInputs := r.midiInputs.erase p } : Route P).listens p m = true :=
      (h.listens p m).mpr ⟨rfl, hp⟩
    rw [portDisconnect_of_found hbounded hfound, Route.detach, Route.detach]
    dsimp only
    rw [List.erase_of_not_mem (h.nodup.not_mem_erase)]
  · rw [if_neg hp, detach_of_notMem h hp]

/-- All ports lose the channel, which has forgotten them already. -/
theorem disconnectAll_eq {fuel : ℕ} (h : r.Wired m) (hm : m ≤ midi_chan_all) :
    disconnectAllMidiInputPorts (fuel + 3) r =
      some { r with midiInputs := [], listens := fun _ _ => false } := by
  have hloop : ∀ (ps : List P) (r : Route P), r.midiInputs = [] → r.Bounded →
      (∀ p i, r.listens p i = true → p ∈ ps) →
      ps.foldlM (fun r p => portDisconnect p (fuel + 3) r) r =
        some { r with listens := fun _ _ => false } := by
    intro ps
    induction ps with
    | nil =>
      intro r _ _ hknown
      have hnone : r.listens = fun _ _ => false := by
        refine funext fun p => funext fun i => ?_
        rw [Bool.eq_false_iff]
        exact fun hi => List.not_mem_nil (hknown p i hi)
      rw [← hnone]
      rfl
    | cons p ps ih =>
      intro r hinputs hbounded hknown
      have hstep : portDisconnect p (fuel + 3) r = some (r.unregister p) := by
        by_cases hfound : ∃ i, r.listens p i = true
        · rcases hfound with ⟨i, hi⟩
          rw [portDisconnect_of_found hbounded hi, Route.detach,
            hinputs, List.erase_nil, ← hinputs]
        · have hunknown : r.Unknown p := fun i => Bool.eq_false_iff.mpr fun hi => hfound ⟨i, hi⟩
          rw [portDisconnect_of_unknown hunknown, unregister_of_unknown hunknown]
      rw [List.foldlM_cons, hstep]
      refine (ih (r.unregister p) hinputs (fun p' i hi => ?_) fun p' i hi => ?_).trans rfl
      · exact hbounded p' i (Bool.and_eq_true_iff.mp hi).2
      · rcases List.mem_cons.mp (hknown p' i (Bool.and_eq_true_iff.mp hi).2) with rfl | hmem
        · rw [unknown_unregister hbounded i] at hi
          cases hi
        · exact hmem
  exact hloop r.midiInputs { r with midiInputs := [] } rfl (h.bounded hm)
    fun p i hi => ((h.listens p i).mp hi).2

/-! ## Connecting -/

/-- Both sides with each other. -/
def attach (p : P) (r : Route P) : Route P :=
  { r with midiInputs := r.midiInputs ++ [p] }.register p r.midiChannel

theorem Wired.attach (h : r.Wired r.midiChannel) (hp : p ∉ r.midiInputs) :
    (r.attach p).Wired r.midiChannel := by
  refine ⟨List.nodup_append.mpr ⟨h.nodup, List.nodup_singleton p, ?_⟩, fun p' i => ?_⟩
  · rintro p₁ hp₁ p₂ hp₂ rfl
    rw [List.mem_singleton.mp hp₂] at hp₁
    exact hp hp₁
  · have hlistens : (r.attach p).listens p' i =
        (decide (p' = p ∧ i = r.midiChannel) || r.listens p' i) := rfl
    have hinputs : (r.attach p).midiInputs = r.midiInputs ++ [p] := rfl
    rw [hlistens, Bool.or_eq_true, h.listens, decide_eq_true_iff, hinputs, List.mem_append,
      List.mem_singleton]
    tauto

theorem Consistent.attach (h : r.Consistent) (hp : p ∉ r.midiInputs) : (r.attach p).Consistent :=
  ⟨h.wired.attach hp, h.valid⟩

theorem connect_of_mem {fuel : ℕ} (hp : p ∈ r.midiInputs) :
    connect p (fuel + 1) r = some (.returned r) := by
  rw [connect, if_pos hp]

theorem connect_eq {fuel : ℕ} (h : r.Consistent) (hp : p ∉ r.midiInputs) :
    connect p (fuel + 3) r = some (.returned (r.attach p)) := by
  have hvalid : ¬ ¬ isValidMidiChan r.midiChannel = true := fun hn =>
    hn (isValidMidiChan_iff.mpr h.valid)
  have hunknown : ({ r with midiInputs := r.midiInputs ++ [p] } : Route P).Unknown p :=
    h.wired.unknown hp
  have hfree : ¬ r.listens p r.midiChannel = true := by
    rw [hunknown r.midiChannel]
    exact Bool.false_ne_true
  have hmem : p ∈ (r.attach p).midiInputs := List.mem_append_right _ List.mem_cons_self
  rw [connect, if_neg hp, portConnect, if_neg hvalid, if_neg hfree,
    portDisconnect_of_unknown hunknown, Option.bind_some]
  have hagain : connect p (fuel + 1) (r.attach p) = some (.returned (r.attach p)) :=
    connect_of_mem hmem
  rw [Route.attach] at hagain
  rw [hagain, Call.andThen]
  exact if_neg fun hne => hne rfl

/-- A call that returns, and leaves the channel consistent. -/
def ReturnsConsistent (x : Option (Call (Route P))) : Prop :=
  ∃ r', x = some (.returned r') ∧ r'.Consistent

theorem connect_consistent {fuel : ℕ} (h : r.Consistent) :
    ReturnsConsistent (connect p (fuel + 3) r) := by
  by_cases hp : p ∈ r.midiInputs
  · exact ⟨r, connect_of_mem hp, h⟩
  · exact ⟨r.attach p, connect_eq h hp, h.attach hp⟩

theorem connects_consistent {fuel : ℕ} (h : r.Consistent) :
    ReturnsConsistent (ps.foldl (fun x p => Call.andThen x (connect p (fuel + 3)))
      (some (.returned r))) := by
  induction ps generalizing r with
  | nil => exact ⟨r, rfl, h⟩
  | cons p ps ih =>
    have hconnect : ReturnsConsistent (connect p (fuel + 3) r) := connect_consistent h
    rcases hconnect with ⟨r₁, hr₁, hconsistent⟩
    rw [List.foldl_cons, Call.andThen, hr₁]
    exact ih hconsistent

/-- The channel of a route may have changed before. -/
theorem setMidiChannel_consistent {fuel mc : ℕ} (h : r.Wired m) (hm : m ≤ midi_chan_all)
    (hne : r.midiChannel ≠ mc) (hmc : mc ≤ midi_chan_all) :
    ReturnsConsistent (setMidiChannel mc (fuel + 4) r) := by
  have hvalid : ¬ ¬ isValidMidiChan mc = true := fun hn => hn (isValidMidiChan_iff.mpr hmc)
  have hwired : ({ r with midiChannel := mc, originalMidiChannel := mc } : Route P).Wired m :=
    ⟨h.nodup, h.listens⟩
  rw [setMidiChannel, if_neg hne, if_neg hvalid, disconnectAll_eq hwired hm, Option.bind_some]
  refine connects_consistent ⟨⟨List.nodup_nil, fun p i => ?_⟩, hmc⟩
  simp

/-- The port has registered the channel before it informs it. -/
theorem connect_registered {fuel : ℕ} (hvalid : r.midiChannel ≤ midi_chan_all)
    (hp : p ∉ r.midiInputs) :
    connect p (fuel + 2) (r.register p r.midiChannel) = some (.returned (r.attach p)) := by
  have hp' : p ∉ (r.register p r.midiChannel).midiInputs := hp
  have hvalid' : ¬ ¬ isValidMidiChan (r.register p r.midiChannel).midiChannel = true :=
    fun hn => hn (isValidMidiChan_iff.mpr hvalid)
  have hlistens : (r.attach p).listens p r.midiChannel = true := by
    simp [attach, register]
  rw [connect, if_neg hp', portConnect, if_neg hvalid']
  exact if_pos hlistens

/-- If the channel listens elsewhere, then it corrects the port, which makes it listen
where the port was told to in the end. -/
theorem portConnect_consistent {fuel mc : ℕ} (h : r.Consistent) (hmc : mc ≤ midi_chan_all) :
    ReturnsConsistent (portConnect p mc (fuel + 6) r) := by
  have hvalid : ¬ ¬ isValidMidiChan mc = true := fun hn => hn (isValidMidiChan_iff.mpr hmc)
  rw [portConnect, if_neg hvalid]
  by_cases hlistens : r.listens p mc = true
  · rw [if_pos hlistens]
    exact ⟨r, rfl, h⟩
  · rw [if_neg hlistens, portDisconnect_eq h.wired h.valid, Option.bind_some]
    have hdetached : (r.detach p).Consistent := ⟨h.wired.detach h.valid, h.valid⟩
    have hp : p ∉ (r.detach p).midiInputs := h.wired.nodup.not_mem_erase
    generalize r.detach p = r₀ at hdetached hp
    have hattached : (r₀.attach p).Consistent := hdetached.attach hp
    by_cases hsame : r₀.midiChannel = mc
    · have hconnect : connect p (fuel + 5) (r₀.register p mc) = some (.returned (r₀.attach p)) := by
        rw [← hsame]
        exact connect_registered hdetached.valid hp
      have hchannel : ¬ (r₀.attach p).midiChannel ≠ mc := fun hne => hne hsame
      rw [hconnect, Call.andThen, if_neg hchannel]
      exact ⟨r₀.attach p, rfl, hattached⟩
    · have hconnect : connect p (fuel + 5) (r₀.register p mc) =
          some (.returned (r₀.attach p)) := by
        have hunknown : r₀.Unknown p := hdetached.wired.unknown hp
        have hp' : p ∉ (r₀.register p mc).midiInputs := hp
        have hvalid' : ¬ ¬ isValidMidiChan r₀.midiChannel = true :=
          fun hn => hn (isValidMidiChan_iff.mpr hdetached.valid)
        generalize hr₁ : ({ r₀.register p mc with
          midiInputs := (r₀.register p mc).midiInputs ++ [p] } : Route P) = r₁
        have hchannel : (r₀.register p mc).midiChannel = r₀.midiChannel := rfl
        have hinputs : r₁.midiInputs = r₀.midiInputs ++ [p] := by rw [← hr₁]; rfl
        have hentries : ∀ p' i, r₁.listens p' i =
            (decide (p' = p ∧ i = mc) || r₀.listens p' i) := by
          intro p' i
          rw [← hr₁]
          rfl
        have hfree : ¬ r₁.listens p r₀.midiChannel = true := by
          rw [hentries, hunknown]
          simpa using hsame
        have hfound : r₁.listens p mc = true := by
          rw [hentries]
          simp
        have hbounded : r₁.Bounded := by
          intro p' i hi
          rw [hentries, Bool.or_eq_true, decide_eq_true_iff] at hi
          rcases hi with hi | hi
          · rw [hi.2]
            exact hmc
          · exact hdetached.wired.bounded hdetached.valid p' i hi
        have hback : r₁.detach p = r₀ := by
          have hlist : r₁.midiInputs.erase p = r₀.midiInputs := by
            rw [hinputs, List.erase_append_right _ hp, List.erase_cons_head, List.append_nil]
          have hlistens : ∀ p' i, (r₁.detach p).listens p' i = r₀.listens p' i := by
            intro p' i
            have hkept : (r₁.detach p).listens p' i =
                (!decide (p' = p ∧ i ≤ midi_chan_all) && r₁.listens p' i) := rfl
            rw [hkept, hentries]
            by_cases hp' : p' = p
            · rw [hp', hunknown i]
              by_cases hi : i = mc
              · simp [hi, hmc]
              · simp [hi]
            · simp [hp']
          exact Route.ext hlist (by rw [← hr₁]; rfl) (by rw [← hr₁]; rfl)
            (funext fun p' => funext (hlistens p'))
        rw [connect, if_neg hp', hr₁, hchannel, portConnect, if_neg hvalid', if_neg hfree,
          portDisconnect_of_found hbounded hfound, Option.bind_some, hback,
          connect_registered hdetached.valid hp, Call.andThen]
        exact if_neg fun hne => hne rfl
      have hchannel : (r₀.attach p).midiChannel ≠ mc := hsame
      rw [hconnect, Call.andThen, if_pos hchannel]
      exact setMidiChannel_consistent hattached.wired hattached.valid hchannel hmc

/-- A call that ends, with or without an exception, and leaves the channel
consistent. -/
def Settles (x : Option (Call (Route P))) : Prop := ∃ y, x = some y ∧ y.state.Consistent

omit [DecidableEq P] in
theorem ReturnsConsistent.settles {x : Option (Call (Route P))} (h : ReturnsConsistent x) :
    Settles x := by
  rcases h with ⟨r', hr', hconsistent⟩
  exact ⟨.returned r', hr', hconsistent⟩

theorem setMidiChannel_settles {fuel mc : ℕ} (h : r.Consistent) :
    Settles (setMidiChannel mc (fuel + 4) r) := by
  by_cases hsame : r.midiChannel = mc
  · rw [setMidiChannel, if_pos hsame]
    exact ⟨.returned r, rfl, h⟩
  · by_cases hvalid : isValidMidiChan mc = true
    · exact (setMidiChannel_consistent h.wired h.valid hsame (isValidMidiChan_iff.mp hvalid)).settles
    · rw [setMidiChannel, if_neg hsame, if_pos hvalid]
      exact ⟨.thrown r, rfl, h⟩

theorem portConnect_settles {fuel mc : ℕ} (h : r.Consistent) :
    Settles (portConnect p mc (fuel + 6) r) := by
  by_cases hvalid : isValidMidiChan mc = true
  · exact (portConnect_consistent h (isValidMidiChan_iff.mp hvalid)).settles
  · rw [portConnect, if_pos hvalid]
    exact ⟨.thrown r, rfl, h⟩

theorem connectTo_settles {fuel mc : ℕ} (h : r.Consistent) :
    Settles (connectTo p mc (fuel + 3) r) := by
  rw [connectTo]
  split
  · exact ⟨.returned r, rfl, h⟩
  · split
    · exact ⟨.thrown r, rfl, h⟩
    · rename_i hvalid
      have hwired : ({ r with midiChannel := mc } : Route P).Wired r.midiChannel :=
        ⟨h.wired.nodup, h.wired.listens⟩
      rw [disconnectAll_eq hwired h.valid, Option.bind_some, portConnect, if_neg hvalid,
        if_neg Bool.false_ne_true, portDisconnect_of_unknown fun _ => rfl, Option.bind_some,
        connect_of_mem List.mem_cons_self, Call.andThen]
      refine ⟨_, if_neg fun hne => hne rfl, ⟨List.nodup_singleton p, fun p' i => ?_⟩, ?_⟩
      · simp [Call.state, register, and_comm]
      · exact isValidMidiChan_iff.mp (not_not.mp hvalid)

theorem resetMidiMode_consistent {fuel : ℕ} (h : r.Consistent)
    (hvalid : isValidMidiChan r.originalMidiChannel = true) :
    ReturnsConsistent (resetMidiMode (fuel + 4) r) := by
  have hle := isValidMidiChan_iff.mp hvalid
  rw [resetMidiMode]
  split
  · have hwired : ({ r with midiChannel := midi_chan_none } : Route P).Wired r.midiChannel :=
      ⟨h.wired.nodup, h.wired.listens⟩
    refine setMidiChannel_consistent hwired h.valid (fun hnone => ?_) hle
    have hnone : midi_chan_none = r.originalMidiChannel := hnone
    rw [← hnone] at hle
    revert hle
    decide
  · exact ⟨r, rfl, h⟩

end Route

namespace Routing

variable {C P : Type*} [DecidableEq C] [DecidableEq P] {s : Routing C P} {c : C} {p : P}
  {a : RouteAction C P} {as : List (RouteAction C P)} {index : C → ℕ}

def Consistent (s : Routing C P) : Prop := ∀ c, (s c).Consistent

omit [DecidableEq P] in
theorem Consistent.update (h : s.Consistent) {r : Route P} (hr : r.Consistent) :
    Consistent (Function.update s c r) := by
  intro c'
  by_cases hc : c' = c
  · rw [hc, Function.update_self]
    exact hr
  · rw [Function.update_of_ne hc]
    exact h c'

/-- What is left of a call. -/
def Settles (x : Option (Call (Routing C P))) : Prop := ∃ y, x = some y ∧ y.state.Consistent

omit [DecidableEq P] in
theorem onChannel_settles {f : Route P → Option (Call (Route P))} (h : s.Consistent)
    (hf : Route.Settles (f (s c))) : Settles (s.onChannel c f) := by
  rcases hf with ⟨y, hy, hconsistent⟩
  refine ⟨y.map (Function.update s c), ?_, ?_⟩
  · rw [onChannel, hy, Option.map_some]
  · cases y with
    | returned r => exact h.update hconsistent
    | thrown r => exact h.update hconsistent

/-- A message that assigns a channel assigns the one that the parts have already, and
the parts have a valid channel to be reset to. -/
def ChannelsKept (s : Routing C P) : RouteAction C P → Prop
  | .rcvChannel cs sourcePort part value =>
      ∀ c ∈ cs, (s c).originalMidiChannel = part → sourcePort ∈ (s c).midiInputs →
        (s c).midiChannel = value
  | .resetMidiMode cs => ∀ c ∈ cs, isValidMidiChan (s c).originalMidiChannel = true
  | _ => True

instance (s : Routing C P) : ∀ a, Decidable (s.ChannelsKept a)
  | .rcvChannel cs _ _ _ => inferInstanceAs (Decidable (∀ c ∈ cs, _))
  | .resetMidiMode cs => inferInstanceAs (Decidable (∀ c ∈ cs, _))
  | .connect _ _ | .connectTo _ _ _ | .disconnect _ _ | .disconnectAllMidiInputPorts _
  | .setMidiChannel _ _ | .portConnect _ _ _ | .portDisconnect _ _ => .isTrue trivial

theorem resetMidiMode_settles {cs : List C} (h : s.Consistent) (hnodup : cs.Nodup)
    (hvalid : ∀ c ∈ cs, isValidMidiChan (s c).originalMidiChannel = true) :
    Settles (s.act (.resetMidiMode cs)) := by
  rw [act]
  induction cs generalizing s with
  | nil => exact ⟨.returned s, rfl, h⟩
  | cons c cs ih =>
    rcases List.nodup_cons.mp hnodup with ⟨hc, hcs⟩
    have hreset : Route.ReturnsConsistent (Route.resetMidiMode callDepth (s c)) :=
      Route.resetMidiMode_consistent (h c) (hvalid c List.mem_cons_self)
    rcases hreset with ⟨r, hr, hconsistent⟩
    have hfirst : s.onChannel c (Route.resetMidiMode callDepth) =
        some (.returned (Function.update s c r)) := by
      rw [onChannel, hr, Option.map_some, Call.map]
    rw [List.foldl_cons, Call.andThen, hfirst]
    refine ih (h.update hconsistent) hcs fun c' hc' => ?_
    have hne : c' ≠ c := fun heq => hc (heq ▸ hc')
    rw [Function.update_of_ne hne]
    exact hvalid c' (List.mem_cons_of_mem c hc')

theorem act_settles (h : s.Consistent) (henabled : s.Enabled a) (hkept : s.ChannelsKept a) :
    Settles (s.act a) := by
  have hreturned : ∀ {c : C} {f : Route P → Option (Route P)} {r : Route P}, f (s c) = some r →
      r.Consistent → Settles (s.onChannel c fun r => (f r).map .returned) := by
    intro c f r hr hconsistent
    refine onChannel_settles h ⟨.returned r, ?_, hconsistent⟩
    rw [hr, Option.map_some]
  have hdetach : ∀ c p, ((s c).detach p).Consistent := fun c p =>
    ⟨(h c).wired.detach (h c).valid, (h c).valid⟩
  cases a with
  | connect c p => exact onChannel_settles h (Route.connect_consistent (h c)).settles
  | connectTo c p mc => exact onChannel_settles h (Route.connectTo_settles (h c))
  | disconnect c p =>
    exact hreturned (Route.disconnect_eq (h c).wired (h c).valid) (hdetach c p)
  | disconnectAllMidiInputPorts c =>
    refine hreturned (Route.disconnectAll_eq (h c).wired (h c).valid) ?_
    exact ⟨⟨List.nodup_nil, by simp⟩, (h c).valid⟩
  | setMidiChannel c mc => exact onChannel_settles h (Route.setMidiChannel_settles (h c))
  | portConnect p c mc => exact onChannel_settles h (Route.portConnect_settles (h c))
  | portDisconnect p c =>
    exact hreturned (Route.portDisconnect_eq (h c).wired (h c).valid) (hdetach c p)
  | rcvChannel cs sourcePort part value =>
    refine ⟨_, rfl, fun c => ?_⟩
    dsimp only [Call.state]
    split
    · rename_i hpart
      rw [← hkept c hpart.1 hpart.2.1 hpart.2.2]
      exact h c
    · exact h c
  | resetMidiMode cs => exact resetMidiMode_settles h henabled hkept

omit [DecidableEq C] [DecidableEq P] in
theorem start_consistent : (start index : Routing C P).Consistent :=
  fun _ => ⟨⟨List.nodup_nil, by simp [start]⟩, le_rfl⟩

theorem Consistent.step (h : s.Consistent) (henabled : s.Enabled a) (hkept : s.ChannelsKept a) :
    (s.step a).Consistent := by
  rcases act_settles h henabled hkept with ⟨y, hy, hconsistent⟩
  rw [Routing.step, hy]
  exact hconsistent

/-- In a run in which no message changes the channel of a part, and no part is reset to
an invalid one, the channels are valid after each call, both sides agree about the
connections, and the next call ends. -/
theorem consistent_run
    (hrun : (system index : StepSystem (Routing C P) _).RunFrom ChannelsKept (start index) as) :
    (∀ c, isValidMidiChan ((system index).exec (start index : Routing C P) as c).midiChannel =
      true) ∧
    (∀ c p i, ((system index).exec (start index : Routing C P) as c).listens p i = true ↔
      p ∈ ((system index).exec (start index : Routing C P) as c).midiInputs ∧
        i = ((system index).exec (start index : Routing C P) as c).midiChannel) ∧
    ∀ a, Enabled ((system index).exec (start index : Routing C P) as) a →
      ChannelsKept ((system index).exec (start index : Routing C P) as) a →
      (act ((system index).exec (start index : Routing C P) as) a).isSome = true := by
  have h : ((system index).exec (start index : Routing C P) as).Consistent :=
    hrun.invariant (fun _ _ h henabled hkept => h.step henabled hkept) start_consistent
  refine ⟨fun c => Route.isValidMidiChan_iff.mpr (h c).valid, fun c p i => ?_, fun a he hk => ?_⟩
  · rw [(h c).wired.listens p i]
    exact and_comm
  · rcases act_settles h he hk with ⟨y, hy, -⟩
    rw [hy]
    rfl

/-! ## Rx channel -/

/-- A channel of an engine is connected to a port, then a GS message assigns it a
channel. -/
def rcvChannelRun (value : ℕ) : List (RouteAction Unit Unit) :=
  [.setMidiChannel () 3, .connect () (), .rcvChannel [()] () 3 value]

/-- The port still has the channel in the set it was in before. -/
theorem not_consistent_run :
    ¬ ∀ as : List (RouteAction Unit Unit),
      (system fun _ => 0).RunFrom (fun _ _ => True) (start fun _ => 0) as →
      ∀ c p i, ((system fun _ => 0).exec (start fun _ => 0) as c).listens p i = true ↔
        p ∈ ((system fun _ => 0).exec (start fun _ => 0) as c).midiInputs ∧
          i = ((system fun _ => 0).exec (start fun _ => 0) as c).midiChannel := by
  intro h
  have hrun := h (rcvChannelRun 5) (by decide) () () 5
  revert hrun
  decide

theorem consistent_run_same :
    ((system fun _ => 0).exec (start fun _ => 0) (rcvChannelRun 3) ()).listens () 3 = true :=
  ((consistent_run (by decide)).2.1 () () 3).mpr (by decide)

end Routing

end LinuxSampler
