import LinuxSampler.MidiRoutingSound
import LinuxSampler.SamplerChannel

/-!
# The MIDI connections of a sampler channel over a run

The ports and the MIDI channel of a sampler channel are those that the
connection and channel calls have asked for, with or without an engine.

`SetEngineType()` destroys the old engine channel before the new one is
connected. If that fails, the connections are gone. An engine channel
without an audio output device has no engine to ask when it is given
another MIDI channel.
-/

namespace LinuxSampler

namespace Route

variable {P : Type*} [DecidableEq P] {r : Route P} {ps : List P} {fuel m mc : ℕ}

/-- Different ports are connected one after another. -/
theorem connects_eq (h : r.Consistent) (hps : (r.midiInputs ++ ps).Nodup) :
    ∃ r', ps.foldl (fun x p => Call.andThen x (connect p (fuel + 3))) (some (.returned r)) =
      some (.returned r') ∧ r'.Consistent ∧ r'.midiInputs = r.midiInputs ++ ps ∧
        r'.midiChannel = r.midiChannel := by
  induction ps generalizing r with
  | nil => exact ⟨r, rfl, h, (List.append_nil _).symm, rfl⟩
  | cons p ps ih =>
      have hp : p ∉ r.midiInputs := fun hmem =>
        List.disjoint_of_nodup_append hps hmem List.mem_cons_self
      have hconnect : connect p (fuel + 3) r = some (.returned (r.attach p)) := connect_eq h hp
      have hinputs : (r.attach p).midiInputs = r.midiInputs ++ [p] := rfl
      rw [List.foldl_cons, Call.andThen, hconnect]
      have hrest : ((r.attach p).midiInputs ++ ps).Nodup := by
        rwa [hinputs, List.append_assoc]
      rcases ih (h.attach hp) hrest with ⟨r', hrun, hr', hports, hchannel⟩
      refine ⟨r', hrun, hr', ?_, hchannel⟩
      rw [hports, hinputs, List.append_assoc]
      rfl

/-- The ports are those it had before. -/
theorem setMidiChannel_eq (h : r.Wired m) (hm : m ≤ midi_chan_all) (hne : r.midiChannel ≠ mc)
    (hmc : mc ≤ midi_chan_all) :
    ∃ r', setMidiChannel mc (fuel + 4) r = some (.returned r') ∧ r'.Consistent ∧
      r'.midiInputs = r.midiInputs ∧ r'.midiChannel = mc := by
  have hvalid : ¬ ¬ isValidMidiChan mc = true := fun hn => hn (isValidMidiChan_iff.mpr hmc)
  have hwired : ({ r with midiChannel := mc, originalMidiChannel := mc } : Route P).Wired m :=
    ⟨h.nodup, h.listens⟩
  rw [setMidiChannel, if_neg hne, if_neg hvalid, disconnectAll_eq hwired hm, Option.bind_some]
  have hempty : (⟨[], mc, mc, fun _ _ => false⟩ : Route P).Consistent :=
    ⟨⟨List.nodup_nil, by simp⟩, hmc⟩
  exact connects_eq hempty h.nodup

end Route

namespace MidiDevices

variable {P D : Type} (M : MidiDevices P D)

theorem getPortForID_connection (p : P) : M.getPortForID (M.connection p) = some p := by
  unfold getPortForID connection
  rw [M.devices_id]
  exact M.ports_portNumber p

theorem connection_injective : Function.Injective M.connection := by
  intro p q hpq
  have hport := M.getPortForID_connection p
  rw [hpq, M.getPortForID_connection] at hport
  exact (Option.some.inj hport).symm

end MidiDevices

namespace SamplerChannel

variable {P D : Type} [DecidableEq P] {M : MidiDevices P D} {S : SamplerChannel P}
  {w : MidiInputs P}

/-- The channel has the connections that were asked for. -/
def Represents (M : MidiDevices P D) (S : SamplerChannel P) (w : MidiInputs P) : Prop :=
  match S.pEngineChannel with
  | some e => e.route.Consistent ∧ e.route.midiInputs = w.ports ∧
      e.route.midiChannel = w.channel ∧ S.vMidiInputs = []
  | none => S.midiChannel = w.channel ∧ w.channel ≤ midi_chan_all ∧ w.ports.Nodup ∧
      S.vMidiInputs = w.ports.map M.connection

omit [DecidableEq P] in
theorem represents_some {e : AssignedEngineChannel P} (he : S.pEngineChannel = some e) :
    S.Represents M w ↔ e.route.Consistent ∧ e.route.midiInputs = w.ports ∧
      e.route.midiChannel = w.channel ∧ S.vMidiInputs = [] := by
  unfold Represents
  rw [he]

omit [DecidableEq P] in
theorem represents_none (he : S.pEngineChannel = none) :
    S.Represents M w ↔ S.midiChannel = w.channel ∧ w.channel ≤ midi_chan_all ∧ w.ports.Nodup ∧
      S.vMidiInputs = w.ports.map M.connection := by
  unfold Represents
  rw [he]

omit [DecidableEq P] in
theorem Represents.ports (h : S.Represents M w) : S.getMidiInputPorts M = w.ports := by
  unfold getMidiInputPorts
  cases he : S.pEngineChannel with
  | some e => exact ((represents_some he).mp h).2.1
  | none =>
      rcases (represents_none he).mp h with ⟨-, -, -, hports⟩
      have hid : M.getPortForID ∘ M.connection = some := funext M.getPortForID_connection
      dsimp only
      rw [hports, List.filterMap_map, hid, List.filterMap_some]

omit [DecidableEq P] in
theorem Represents.channel (h : S.Represents M w) : S.getMidiInputChannel.1 = w.channel := by
  unfold getMidiInputChannel
  cases he : S.pEngineChannel with
  | some e => exact ((represents_some he).mp h).2.2.1
  | none => exact ((represents_none he).mp h).1

omit [DecidableEq P] in
theorem Represents.nodup (h : S.Represents M w) : w.ports.Nodup := by
  cases he : S.pEngineChannel with
  | some e =>
      rcases (represents_some he).mp h with ⟨hroute, hports, -, -⟩
      exact hports ▸ hroute.wired.nodup
  | none => exact ((represents_none he).mp h).2.2.1

omit [DecidableEq P] in
theorem Represents.valid (h : S.Represents M w) : w.channel ≤ midi_chan_all := by
  cases he : S.pEngineChannel with
  | some e =>
      rcases (represents_some he).mp h with ⟨hroute, -, hchannel, -⟩
      exact hchannel ▸ hroute.valid
  | none => exact ((represents_none he).mp h).2.1

/-- A call ends in a state with these connections. -/
def Leaves (M : MidiDevices P D) (x : Option (Call (SamplerChannel P))) (w : MidiInputs P) :
    Prop :=
  ∃ y, x = some y ∧ y.state.Represents M w

/-- A call returns, in a state with these connections. -/
def Returns (M : MidiDevices P D) (x : Option (Call (SamplerChannel P))) (w : MidiInputs P) :
    Prop :=
  ∃ S', x = some (.returned S') ∧ S'.Represents M w

omit [DecidableEq P] in
theorem Returns.leaves {x : Option (Call (SamplerChannel P))} (h : Returns M x w) :
    Leaves M x w := by
  rcases h with ⟨S', hx, hS'⟩
  exact ⟨.returned S', hx, hS'⟩

omit [DecidableEq P] in
theorem returns_onRoute {e : AssignedEngineChannel P} {f : Route P → Option (Call (Route P))}
    {r : Route P} (hf : f e.route = some (.returned r)) (hr : r.Consistent)
    (hports : r.midiInputs = w.ports) (hchannel : r.midiChannel = w.channel)
    (hnone : S.vMidiInputs = []) : Returns M (S.onRoute e f) w := by
  refine ⟨{ S with pEngineChannel := some { e with route := r } }, ?_, hr, hports, hchannel,
    hnone⟩
  unfold onRoute
  rw [hf]
  rfl

/-! ## Connections -/

theorem Represents.connect (h : S.Represents M w) (pPort : Option P) :
    Leaves M (S.connect M pPort) (w.call M (.connect pPort)) := by
  cases pPort with
  | none => exact ⟨_, rfl, h⟩
  | some p =>
      unfold SamplerChannel.connect MidiInputs.call
      dsimp only
      rw [h.ports]
      by_cases hauto : M.autonomous p = true
      · rw [if_neg (not_not.mpr hauto)]
        by_cases hp : p ∈ w.ports
        · rw [if_pos hp, if_neg fun hc => hc.2 hp]
          exact ⟨_, rfl, h⟩
        · rw [if_neg hp, if_pos ⟨hauto, hp⟩]
          cases he : S.pEngineChannel with
          | some e =>
              rcases (represents_some he).mp h with ⟨hroute, hports, hchannel, hnone⟩
              have hp' : p ∉ e.route.midiInputs := hports ▸ hp
              have hconnected : Returns M (S.onRoute e (Route.connect p Routing.callDepth))
                  { w with ports := w.ports ++ [p] } :=
                returns_onRoute (Route.connect_eq hroute hp') (hroute.attach hp')
                  (congrArg (· ++ [p]) hports) hchannel hnone
              exact hconnected.leaves
          | none =>
              rcases (represents_none he).mp h with ⟨hchannel, hvalid, hnodup, hports⟩
              refine ⟨_, rfl, (represents_none rfl).mpr ⟨hchannel, hvalid, ?_, ?_⟩⟩
              · exact List.nodup_append.mpr ⟨hnodup, List.nodup_singleton p, by
                  intro q hq q' hq' hqq
                  rw [List.mem_singleton.mp hq'] at hqq
                  exact hp (hqq ▸ hq)⟩
              · rw [List.map_append, ← hports]
                rfl
      · rw [if_pos hauto, if_neg fun hc => hauto hc.1]
        exact ⟨_, rfl, h⟩

theorem Represents.disconnect_autonomous (h : S.Represents M w) {p : P}
    (hauto : M.autonomous p = true) :
    Returns M (S.disconnect M (some p)) { w with ports := w.ports.erase p } := by
  unfold SamplerChannel.disconnect
  dsimp only
  rw [if_neg (not_not.mpr hauto)]
  cases he : S.pEngineChannel with
  | some e =>
      rcases (represents_some he).mp h with ⟨hroute, hports, hchannel, hnone⟩
      refine returns_onRoute (r := e.route.detach p) ?_
        ⟨hroute.wired.detach hroute.valid, hroute.valid⟩ (congrArg (List.erase · p) hports)
        hchannel hnone
      exact congrArg (Option.map Call.returned) (Route.disconnect_eq hroute.wired hroute.valid)
  | none =>
      rcases (represents_none he).mp h with ⟨hchannel, hvalid, hnodup, hports⟩
      refine ⟨_, rfl, (represents_none rfl).mpr ⟨hchannel, hvalid, hnodup.erase p, ?_⟩⟩
      dsimp only
      rw [hports, hnodup.erase_eq_filter, List.filter_map]
      refine congrArg (List.map M.connection) (List.filter_congr ?_)
      intro q _
      by_cases hq : q = p <;> simp [hq, M.connection_injective.eq_iff]

theorem Represents.disconnect (h : S.Represents M w) (pPort : Option P) :
    Leaves M (S.disconnect M pPort) (w.call M (.disconnect pPort)) := by
  cases pPort with
  | none => exact ⟨_, rfl, h⟩
  | some p =>
      unfold MidiInputs.call
      dsimp only
      by_cases hauto : M.autonomous p = true
      · rw [if_pos hauto]
        exact (h.disconnect_autonomous hauto).leaves
      · rw [if_neg hauto]
        exact ⟨.thrown S, if_pos hauto, h⟩

/-- The rest of the loop is skipped. -/
theorem foldl_thrown {α σ : Type} (f : α → σ → Option (Call σ)) (xs : List α) (t : σ) :
    xs.foldl (fun x a => Call.andThen x (f a)) (some (.thrown t)) = some (.thrown t) := by
  induction xs with
  | nil => rfl
  | cons a xs ih => exact ih

theorem Represents.disconnectAll (h : S.Represents M w) :
    Leaves M (S.disconnectAllMidiInputPorts M) (w.call M .disconnectAllMidiInputPorts) := by
  unfold SamplerChannel.disconnectAllMidiInputPorts MidiInputs.call
  rw [h.ports]
  rcases w with ⟨ports, channel⟩
  dsimp only
  induction ports generalizing S with
  | nil => exact ⟨_, rfl, h⟩
  | cons p ports ih =>
      by_cases hauto : M.autonomous p = true
      · rcases h.disconnect_autonomous hauto with ⟨S', hrun, hS'⟩
        rw [List.erase_cons_head] at hS'
        rw [List.foldl_cons, Call.andThen, hrun, List.dropWhile_cons_of_pos hauto]
        exact ih hS'
      · have hthrown : S.disconnect M (some p) = some (.thrown S) := if_pos hauto
        refine ⟨.thrown S, ?_, ?_⟩
        · rw [List.foldl_cons, Call.andThen, hthrown]
          exact foldl_thrown (fun p S => SamplerChannel.disconnect M S (some p)) ports S
        · rw [List.dropWhile_cons_of_neg hauto]
          exact h

/-! ## Channels -/

/-- An engine channel that is given another MIDI channel has an engine. -/
def HasEngineFor (S : SamplerChannel P) (MidiChannel : ℕ) : Prop :=
  ∀ e ∈ S.pEngineChannel, e.route.midiChannel ≠ MidiChannel → e.pEngine = true

/-- The ports stay connected. -/
theorem setMidiChannelOf_eq {e : AssignedEngineChannel P} {mc : ℕ} (h : e.route.Consistent)
    (hengine : e.route.midiChannel ≠ mc → e.pEngine = true) (hmc : mc ≤ midi_chan_all) :
    ∃ r, setMidiChannelOf e mc = some (.returned r) ∧ r.Consistent ∧
      r.midiInputs = e.route.midiInputs ∧ r.midiChannel = mc := by
  unfold setMidiChannelOf
  by_cases hsame : e.route.midiChannel = mc
  · rw [if_neg fun hc => hc.1 hsame]
    exact ⟨e.route, if_pos hsame, h, rfl, hsame⟩
  · rw [if_neg fun hc => hc.2 (hengine hsame)]
    exact Route.setMidiChannel_eq h.wired h.valid hsame hmc

theorem Represents.setMidiInputChannel (h : S.Represents M w) {mc : ℕ}
    (hengine : S.HasEngineFor mc) (hmc : isValidMidiChan mc = true) :
    Returns M (S.setMidiInputChannel mc) { w with channel := mc } := by
  have hle := Route.isValidMidiChan_iff.mp hmc
  unfold SamplerChannel.setMidiInputChannel
  rw [if_neg (not_not.mpr hmc)]
  cases he : S.pEngineChannel with
  | some e =>
      rcases (represents_some he).mp h with ⟨hroute, hports, hchannel, hnone⟩
      rcases setMidiChannelOf_eq hroute (hengine e he) hle with ⟨r, hrun, hr, hinputs, hmc⟩
      dsimp only
      unfold onRoute
      rw [hrun]
      exact ⟨_, rfl, hr, hinputs.trans hports, hmc, hnone⟩
  | none =>
      rcases (represents_none he).mp h with ⟨-, -, hnodup, hports⟩
      exact ⟨_, rfl, (represents_none rfl).mpr ⟨rfl, hle, hnodup, hports⟩⟩

theorem Represents.setMidiInputChannel_leaves (h : S.Represents M w) {mc : ℕ}
    (hengine : isValidMidiChan mc = true → S.HasEngineFor mc) :
    Leaves M (S.setMidiInputChannel mc) (w.withChannel mc) := by
  unfold MidiInputs.withChannel
  by_cases hmc : isValidMidiChan mc = true
  · rw [if_pos hmc]
    exact (h.setMidiInputChannel (hengine hmc) hmc).leaves
  · rw [if_neg hmc]
    exact ⟨.thrown S, if_pos hmc, h⟩

/-- The new port is the only one. -/
theorem Represents.setAlone (h : S.Represents M w) (pNewPort : P) (iMidiPort : ℤ) :
    Returns M (match S.pEngineChannel with
      | some e => S.onRoute e fun r =>
          (r.disconnectAllMidiInputPorts Routing.callDepth).bind
            (Route.connect pNewPort Routing.callDepth)
      | none => some (.returned { S with
          vMidiInputs := [M.connection pNewPort]
          iMidiPort := iMidiPort })) { w with ports := [pNewPort] } := by
  cases he : S.pEngineChannel with
  | some e =>
      rcases (represents_some he).mp h with ⟨hroute, hports, hchannel, hnone⟩
      have hall : e.route.disconnectAllMidiInputPorts Routing.callDepth = _ :=
        Route.disconnectAll_eq hroute.wired hroute.valid
      have hempty : ({ e.route with midiInputs := [], listens := fun _ _ => false } :
          Route P).Consistent := ⟨⟨List.nodup_nil, by simp⟩, hroute.valid⟩
      refine returns_onRoute ?_ (hempty.attach List.not_mem_nil) rfl hchannel hnone
      rw [hall, Option.bind_some]
      exact Route.connect_eq hempty List.not_mem_nil
  | none =>
      rcases (represents_none he).mp h with ⟨hchannel, hvalid, -, -⟩
      exact ⟨_, rfl, (represents_none rfl).mpr
        ⟨hchannel, hvalid, List.nodup_singleton pNewPort, rfl⟩⟩

theorem Represents.setMidiInput (h : S.Represents M w) (d : D) (iMidiPort : ℤ) {mc : ℕ}
    (hengine : isValidMidiChan mc = true → S.HasEngineFor mc) :
    Leaves M (S.setMidiInput M (some d) iMidiPort mc)
      (w.call M (.setMidiInput (some d) iMidiPort mc)) := by
  unfold SamplerChannel.setMidiInput MidiInputs.call MidiInputs.withChannel
  dsimp only
  by_cases hmc : isValidMidiChan mc = true
  · rcases h.setMidiInputChannel (hengine hmc) hmc with ⟨S', hrun, hS'⟩
    rw [hrun, Call.andThen]
    simp only [hmc, if_true, true_and]
    rw [hS'.ports]
    cases hport : (M.ports d)[(iMidiPort % 2 ^ 32).toNat]? with
    | none => exact ⟨_, rfl, hS'⟩
    | some pNewPort =>
        dsimp only
        by_cases hother : ∃ p ∈ w.ports, p ≠ pNewPort ∧ ¬ M.autonomous p = true
        · have hkept : ¬ ∀ p ∈ w.ports, p = pNewPort ∨ M.autonomous p = true := by
            push Not
            exact hother
          rw [if_pos hother, if_neg hkept]
          exact ⟨_, rfl, hS'⟩
        · have hfree : ∀ p ∈ w.ports, p = pNewPort ∨ M.autonomous p = true := by
            push Not at hother
            intro p hp
            exact or_iff_not_imp_left.mpr (hother p hp)
          rw [if_neg hother, if_pos hfree]
          exact (hS'.setAlone pNewPort iMidiPort).leaves
  · have hthrown : S.setMidiInputChannel mc = some (.thrown S) := if_pos hmc
    rw [hthrown]
    simp only [hmc]
    refine ⟨.thrown S, rfl, ?_⟩
    cases (M.ports d)[(iMidiPort % 2 ^ 32).toNat]? <;> exact h

/-! ## Engines -/

/-- A new engine channel is created. -/
def Replaces (HAVE_SF2 : Bool) (S : SamplerChannel P) (EngineType : String) : Prop :=
  ¬ S.pEngineChannel.any (fun e => equalsIgnoringCase e.format.name EngineType) = true ∧
    (EngineFormat.create HAVE_SF2 EngineType).isSome = true

/-- An old engine channel with connections is not lost, and a new one that is
given another MIDI channel has an engine. -/
def KeepsEngine (M : MidiDevices P D) (S : SamplerChannel P) (throws : Bool) : Prop :=
  if S.pAudioOutputDevice = true ∧ throws = true then
    S.pEngineChannel = none ∨ S.getMidiInputPorts M = []
  else S.pAudioOutputDevice = true ∨ S.getMidiInputChannel.1 = midi_chan_all

/-- What is left when the old engine channel is destroyed. -/
theorem Represents.destroy (h : S.Represents M w) :
    ∃ S', S.getMidiInputChannel.2.destroyEngineChannel = some S' ∧ S'.pEngineChannel = none ∧
      S'.pAudioOutputDevice = S.pAudioOutputDevice ∧ S'.midiChannel = w.channel ∧
      S'.vMidiInputs = S.vMidiInputs := by
  unfold getMidiInputChannel destroyEngineChannel
  cases he : S.pEngineChannel with
  | some e =>
      rcases (represents_some he).mp h with ⟨hroute, -, hchannel, -⟩
      have hall : e.route.disconnectAllMidiInputPorts Routing.callDepth = _ :=
        Route.disconnectAll_eq hroute.wired hroute.valid
      dsimp only
      rw [hall]
      exact ⟨_, rfl, rfl, rfl, hchannel, rfl⟩
  | none =>
      dsimp only
      rw [he]
      exact ⟨S, rfl, he, rfl, ((represents_none he).mp h).1, rfl⟩

/-- The new engine channel has the connections of the old one. -/
theorem connectNew_eq {e : AssignedEngineChannel P} {mc : ℕ} {ports : List P}
    (h : e.route.Consistent) (hempty : e.route.midiInputs = [])
    (hengine : e.route.midiChannel ≠ mc → e.pEngine = true) (hmc : mc ≤ midi_chan_all)
    (hports : ports.Nodup) :
    ∃ r, connectNew e mc ports = some (.returned r) ∧ r.Consistent ∧ r.midiInputs = ports ∧
      r.midiChannel = mc := by
  rcases setMidiChannelOf_eq h hengine hmc with ⟨r, hrun, hr, hinputs, hchannel⟩
  rw [hempty] at hinputs
  have hnodup : (r.midiInputs ++ ports).Nodup := by rwa [hinputs]
  have hconnects : ∃ r', ports.foldl (fun x p => Call.andThen x (Route.connect p
      Routing.callDepth)) (some (.returned r)) = some (.returned r') ∧ r'.Consistent ∧
        r'.midiInputs = r.midiInputs ++ ports ∧ r'.midiChannel = r.midiChannel :=
    Route.connects_eq hr hnodup
  rcases hconnects with ⟨r', hrun', hr', hports', hchannel'⟩
  refine ⟨r', ?_, hr', ?_, hchannel'.trans hchannel⟩
  · unfold connectNew
    rw [hrun]
    exact hrun'
  · rw [hports', hinputs, List.nil_append]

theorem Represents.setEngineType (h : S.Represents M w) {HAVE_SF2 : Bool} {EngineType : String}
    {throws : Bool} (hkeeps : S.Replaces HAVE_SF2 EngineType → S.KeepsEngine M throws) :
    Leaves M (S.setEngineType M HAVE_SF2 EngineType throws) w := by
  unfold SamplerChannel.setEngineType
  by_cases hsame : S.pEngineChannel.any fun e => equalsIgnoringCase e.format.name EngineType
  · rw [if_pos hsame]
    exact ⟨_, rfl, h⟩
  · rw [if_neg hsame]
    cases hformat : EngineFormat.create HAVE_SF2 EngineType with
    | none => exact ⟨_, rfl, h⟩
    | some format =>
        have hkeep : S.KeepsEngine M throws := hkeeps ⟨hsame, by rw [hformat]; rfl⟩
        rcases h.destroy with ⟨S₁, hdestroy, hengine, haudio, hchannel, hinputs⟩
        unfold KeepsEngine at hkeep
        rw [h.ports, h.channel] at hkeep
        dsimp only
        rw [hdestroy, h.ports, h.channel, Option.bind_some, haudio]
        by_cases hthrows : S.pAudioOutputDevice = true ∧ throws = true
        · rw [if_pos hthrows] at hkeep
          rw [if_pos hthrows]
          refine ⟨.thrown S₁, rfl, (represents_none hengine).mpr
            ⟨hchannel, h.valid, h.nodup, hinputs.trans ?_⟩⟩
          cases he : S.pEngineChannel with
          | none => exact ((represents_none he).mp h).2.2.2
          | some e =>
              rw [he] at hkeep
              rw [hkeep.resolve_left (by simp), ((represents_some he).mp h).2.2.2]
              rfl
        · rw [if_neg hthrows] at hkeep
          rw [if_neg hthrows]
          have hnew : (newEngineChannel format : AssignedEngineChannel P).route.Consistent :=
            ⟨⟨List.nodup_nil, by simp [newEngineChannel]⟩, le_rfl⟩
          have hneeds : midi_chan_all ≠ w.channel → S.pAudioOutputDevice = true := fun hne =>
            hkeep.resolve_right fun hall => hne hall.symm
          have hconnected : ∃ r, connectNew { newEngineChannel format with
              pEngine := S.pAudioOutputDevice } w.channel w.ports = some (.returned r) ∧
                r.Consistent ∧ r.midiInputs = w.ports ∧ r.midiChannel = w.channel :=
            connectNew_eq hnew rfl hneeds h.valid h.nodup
          rcases hconnected with ⟨r, hrun, hr, hports, hmc⟩
          rw [hrun]
          exact ⟨_, rfl, hr, hports, hmc, rfl⟩

omit [DecidableEq P] in
theorem Represents.setAudioOutputDevice (h : S.Represents M w) (throws : Bool) :
    (S.setAudioOutputDevice throws).state.Represents M w := by
  unfold SamplerChannel.setAudioOutputDevice
  cases he : S.pEngineChannel with
  | some e =>
      have hengine := (represents_some he).mp h
      cases throws <;> exact hengine
  | none => exact (represents_none rfl).mpr ((represents_none he).mp h)

/-! ## Runs -/

def Keeps (M : MidiDevices P D) (HAVE_SF2 : Bool) (S : SamplerChannel P) :
    SamplerChannelAction P D → Prop
  | .midi (.setMidiInput (some _) _ mc) | .midi (.setMidiInputChannel mc) =>
      isValidMidiChan mc = true → S.HasEngineFor mc
  | .setEngineType EngineType throws => S.Replaces HAVE_SF2 EngineType → S.KeepsEngine M throws
  | _ => True

/-- The connections that an action asks for. -/
def asked (M : MidiDevices P D) (w : MidiInputs P) (a : SamplerChannelAction P D) : MidiInputs P :=
  a.midiCall.elim w (w.call M)

theorem Represents.step {HAVE_SF2 : Bool} (h : S.Represents M w) {a : SamplerChannelAction P D}
    (hkeeps : S.Keeps M HAVE_SF2 a) :
    ∃ S', S.step M HAVE_SF2 a = some S' ∧ S'.Represents M (asked M w a) := by
  have hstate {x : Option (Call (SamplerChannel P))} {w : MidiInputs P} (hx : Leaves M x w) :
      ∃ S', x.map Call.state = some S' ∧ S'.Represents M w := by
    rcases hx with ⟨y, rfl, hy⟩
    exact ⟨y.state, rfl, hy⟩
  cases a with
  | midi call =>
      apply hstate
      cases call with
      | connect pPort => exact h.connect pPort
      | disconnect pPort => exact h.disconnect pPort
      | disconnectAllMidiInputPorts => exact h.disconnectAll
      | setMidiInput pDevice iMidiPort mc =>
          cases pDevice with
          | none => exact ⟨.thrown S, rfl, h⟩
          | some d => exact h.setMidiInput d iMidiPort hkeeps
      | setMidiInputChannel mc => exact h.setMidiInputChannel_leaves hkeeps
  | setEngineType EngineType throws => exact hstate (h.setEngineType hkeeps)
  | setAudioOutputDevice throws => exact ⟨_, rfl, h.setAudioOutputDevice throws⟩

/-- Every step of the run meets the condition. -/
def RunKeeps (M : MidiDevices P D) (HAVE_SF2 : Bool) :
    List (SamplerChannelAction P D) → SamplerChannel P → Prop
  | [], _ => True
  | a :: actions, S =>
      S.Keeps M HAVE_SF2 a ∧ ∀ S' ∈ S.step M HAVE_SF2 a, RunKeeps M HAVE_SF2 actions S'

theorem Represents.run {HAVE_SF2 : Bool} (h : S.Represents M w)
    {actions : List (SamplerChannelAction P D)} (hkeeps : RunKeeps M HAVE_SF2 actions S) :
    ∃ S', run M HAVE_SF2 actions S = some S' ∧
      S'.Represents M ((actions.filterMap SamplerChannelAction.midiCall).foldl
        (MidiInputs.call M) w) := by
  induction actions generalizing S w with
  | nil => exact ⟨S, rfl, h⟩
  | cons a actions ih =>
      rcases hkeeps with ⟨hkeep, hrest⟩
      rcases h.step hkeep with ⟨S₁, hstep, h₁⟩
      rcases ih h₁ (hrest S₁ hstep) with ⟨S', hrun, hS'⟩
      refine ⟨S', ?_, ?_⟩
      · rw [SamplerChannel.run, List.foldlM_cons, hstep]
        exact hrun
      · unfold asked at hS'
        cases hcall : a.midiCall with
        | none =>
            rw [hcall] at hS'
            rwa [List.filterMap_cons_none hcall]
        | some call =>
            rw [hcall] at hS'
            rwa [List.filterMap_cons_some hcall]

omit [DecidableEq P] in
theorem init_represents : (init : SamplerChannel P).Represents M ⟨[], midi_chan_all⟩ :=
  (represents_none rfl).mpr ⟨rfl, le_rfl, List.nodup_nil, rfl⟩

/-- Over runs of calls: the ports and the channel are those that the calls for MIDI have asked for,
whatever engine types and audio output devices are set in between. -/
theorem connections_run {HAVE_SF2 : Bool} {actions : List (SamplerChannelAction P D)}
    (hkeeps : RunKeeps M HAVE_SF2 actions init) :
    ∃ S, run M HAVE_SF2 actions init = some S ∧
      S.getMidiInputPorts M =
        (MidiInputs.after M (actions.filterMap SamplerChannelAction.midiCall)).ports ∧
      S.getMidiInputChannel.1 =
        (MidiInputs.after M (actions.filterMap SamplerChannelAction.midiCall)).channel := by
  rcases init_represents.run hkeeps with ⟨S, hrun, hS⟩
  exact ⟨S, hrun, hS.ports, hS.channel⟩

/-! ## Channels to run -/

instance (S : SamplerChannel P) (mc : ℕ) : Decidable (S.HasEngineFor mc) :=
  inferInstanceAs (Decidable (∀ e ∈ S.pEngineChannel, _))

instance (HAVE_SF2 : Bool) (S : SamplerChannel P) (EngineType : String) :
    Decidable (S.Replaces HAVE_SF2 EngineType) :=
  inferInstanceAs (Decidable (_ ∧ _))

instance (M : MidiDevices P D) (S : SamplerChannel P) (throws : Bool) :
    Decidable (S.KeepsEngine M throws) :=
  have : Decidable (S.pEngineChannel = none) := decidable_of_iff _ Option.isNone_iff_eq_none
  inferInstanceAs (Decidable (if S.pAudioOutputDevice = true ∧ throws = true then
    S.pEngineChannel = none ∨ S.getMidiInputPorts M = []
    else S.pAudioOutputDevice = true ∨ S.getMidiInputChannel.1 = midi_chan_all))

instance (M : MidiDevices P D) (HAVE_SF2 : Bool) (S : SamplerChannel P) :
    (a : SamplerChannelAction P D) → Decidable (S.Keeps M HAVE_SF2 a)
  | .midi (.setMidiInput (some _) _ mc) | .midi (.setMidiInputChannel mc) =>
      inferInstanceAs (Decidable (isValidMidiChan mc = true → S.HasEngineFor mc))
  | .setEngineType EngineType throws =>
      inferInstanceAs (Decidable (S.Replaces HAVE_SF2 EngineType → S.KeepsEngine M throws))
  | .midi (.connect _) | .midi (.disconnect _) | .midi .disconnectAllMidiInputPorts
  | .midi (.setMidiInput none _ _) | .setAudioOutputDevice _ => isTrue trivial

instance decidableRunKeeps (M : MidiDevices P D) (HAVE_SF2 : Bool) :
    (actions : List (SamplerChannelAction P D)) → (S : SamplerChannel P) →
      Decidable (RunKeeps M HAVE_SF2 actions S)
  | [], _ => isTrue trivial
  | a :: actions, S =>
      have (S' : SamplerChannel P) := decidableRunKeeps M HAVE_SF2 actions S'
      inferInstanceAs (Decidable (S.Keeps M HAVE_SF2 a ∧
        ∀ S' ∈ S.step M HAVE_SF2 a, RunKeeps M HAVE_SF2 actions S'))

/-- One device with one port. -/
def onePort : MidiDevices Unit Unit where
  device _ := ()
  portNumber _ := 0
  ports _ := [()]
  midiInputDeviceID _ := 0
  devices n := if n = 0 then some () else none
  isAutonomousDevice _ := true
  ports_portNumber _ := rfl
  devices_id _ := rfl

/-- The port is connected on channel 4 before there is an engine, and the
type of the engine is set twice. -/
def changeEngine (throws : Bool) : List (SamplerChannelAction Unit Unit) :=
  [.setAudioOutputDevice false, .midi (.setMidiInput (some ()) 0 3), .setEngineType "gig" false,
    .setEngineType "sfz" throws]

theorem connections_run_changeEngine : RunKeeps onePort true (changeEngine false) init ∧
    ∃ S, run onePort true (changeEngine false) init = some S ∧ S.getMidiInputPorts onePort = [()] ∧
      S.getMidiInputChannel.1 = 3 := by
  have hkeeps : RunKeeps onePort true (changeEngine false) init := by decide +kernel
  have hafter : MidiInputs.after onePort ((changeEngine false).filterMap
      SamplerChannelAction.midiCall) = ⟨[()], 3⟩ := by decide +kernel
  rcases connections_run hkeeps with ⟨S, hrun, hports, hchannel⟩
  rw [hafter] at hports hchannel
  exact ⟨hkeeps, S, hrun, hports, hchannel⟩

/-- The second engine channel cannot be connected to the audio output
device. -/
theorem not_connections_run : ¬ ∀ actions : List (SamplerChannelAction Unit Unit),
    ∃ S, run onePort true actions init = some S ∧
      S.getMidiInputPorts onePort =
        (MidiInputs.after onePort (actions.filterMap SamplerChannelAction.midiCall)).ports ∧
      S.getMidiInputChannel.1 =
        (MidiInputs.after onePort (actions.filterMap SamplerChannelAction.midiCall)).channel := by
  intro h
  rcases h (changeEngine true) with ⟨S, hrun, hports, -⟩
  have hlost : ∀ S ∈ run onePort true (changeEngine true) init,
      S.getMidiInputPorts onePort = [] := by decide +kernel
  have hafter : MidiInputs.after onePort ((changeEngine true).filterMap
      SamplerChannelAction.midiCall) = ⟨[()], 3⟩ := by decide +kernel
  rw [hlost S hrun, hafter] at hports
  cases hports

end SamplerChannel

end LinuxSampler
