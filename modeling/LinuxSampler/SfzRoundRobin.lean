import LinuxSampler.SfzControlChange
import LinuxSampler.SfzScan
import Mathlib.Data.Int.ModEq

/-!
# Round robin regions of the sfz engine

Every region counts the queries that find its other conditions met, in
`seq_counter`, and takes the one at which the counter is its
`seq_position`. A caller of `Query::next()` may stop at any region; the
regions behind it have not been asked then, and the counting is over the
calls of `OnKey()`.

The counter runs through `1, …, |seq_length|`, so a position outside of
these has no turn. The parser stores any two integers: with a length of 0
the first query divides by zero, and with the least `int` the counter
overflows in the end. Other instruments take turns (`takesTurns_iff`).
-/

namespace LinuxSampler

namespace Sfz

namespace RoundRobin

/-! ## Regions -/

/-- A call of `OnKey()` that got as far as the sequence. -/
structure Asked where
  id : ℤ
  q : FullQuery
  triggered : Bool

/-- The counters of the regions, and the calls so far. -/
structure Turns where
  seqCounter : ℤ → ℤ := fun _ => 1
  log : List Asked := []

/-- `Region::OnKey()`. A division by zero and an overflow of the counter have no result. -/
def onKey (r : OnKeyOpcodes) (q : FullQuery) (seqCounter : ℤ) : Option (Bool × ℤ) :=
  if r.isTriggered q ∧ (r.seqLength = 0 ∨ intMax < seqCounter.tmod r.seqLength + 1) then none
  else some (r.onKey q seqCounter)

section Search

variable (opcodes : ℤ → OnKeyOpcodes) (q : FullQuery)

def Turns.ask (r : Region) (t : Turns) : Option (Bool × Turns) := do
  let (triggered, n) ← onKey (opcodes r.id) q (t.seqCounter r.id)
  let log := if (opcodes r.id).isTriggered q then t.log ++ [⟨r.id, q, triggered⟩] else t.log
  return (triggered, { seqCounter := Function.update t.seqCounter r.id n, log })

/-- `Query::next()`. The list is the part of the region list from `regionIndex` on. -/
def next : List Region → Turns → Option (Option Region × List Region × Turns)
  | [], t => some (none, [], t)
  | r :: rs, t => do
      let (triggered, t) ← t.ask opcodes q r
      if triggered then some (some r, rs, t) else next rs t

/-- The loop of a caller, which calls `next()` so many times if it does not return 0. -/
def search : ℕ → List Region → Turns → Option Turns
  | 0, _, t => some t
  | calls + 1, rs, t => do
      match ← next opcodes q rs t with
      | (none, _, t) => some t
      | (some _, rs, t) => search calls rs t

end Search

/-- A query with the controller that it was made for, and how often `next()` is called. -/
structure Search where
  triggercc : Option (Fin 128)
  q : FullQuery
  calls : ℕ
  inRange : q.toQuery.InRange

/-- The lookup tables give each region at most once, in the order of the file. -/
structure LoadedInstrument where
  regions : List Region
  opcodes : ℤ → OnKeyOpcodes
  lookup : Option (Fin 128) → Query → List Region
  distinct : (regions.map Region.id).Nodup
  lookup_sublist : ∀ triggercc q, q.InRange → (lookup triggercc q).Sublist regions

namespace LoadedInstrument

/-- The lookup of tables that have been built. -/
def ofTables {regions : List Region} (opcodes : ℤ → OnKeyOpcodes)
    (hdistinct : (regions.map Region.id).Nodup) (hrange : ∀ r ∈ regions, r.InRange)
    {tables : Option (Fin 128) → LookupTable}
    (htables : ∀ triggercc, LookupTable.construct regions triggercc = some (tables triggercc)) :
    LoadedInstrument where
  regions := regions
  opcodes := opcodes
  lookup triggercc q := (tables triggercc).query q
  distinct := hdistinct
  lookup_sublist triggercc q hq := by
    rw [LookupTable.query_eq hrange (htables triggercc) hq]
    exact List.filter_sublist

variable (i : LoadedInstrument)

def found (s : Search) : List Region := i.lookup s.triggercc s.q.toQuery

/-- The query finds the region, and its conditions but for the sequence hold. -/
def holds (id : ℤ) (s : Search) : Bool :=
  (i.found s).any (·.id = id) && (i.opcodes id).isTriggered s.q

/-- The caller goes on until `next()` returns 0. -/
def SearchesAll (s : Search) : Prop := (i.found s).length < s.calls

def run (searches : List Search) : Option Turns :=
  searches.foldlM (fun t s => search i.opcodes s.q s.calls (i.found s) t) {}

end LoadedInstrument

namespace Turns

/-- The calls for one region. -/
def entries (t : Turns) (id : ℤ) : List Asked := t.log.filter (·.id = id)

end Turns

/-! ## Turns -/

/-- The regions of the instrument take turns in the searches. -/
structure TakesTurns (i : LoadedInstrument) (searches : List Search) (t : Turns) : Prop where
  /-- If no caller stops early, a region has been asked by each query that it takes. -/
  asked : (∀ s ∈ searches, i.SearchesAll s) → ∀ r ∈ i.regions,
    (t.entries r.id).map Asked.q = (searches.filter (i.holds r.id)).map Search.q
  triggered : ∀ r ∈ i.regions, ∀ (k : ℕ) (a : Asked), (t.entries r.id)[k]? = some a →
    (a.triggered ↔ (k + 1 : ℤ) ≡ (i.opcodes r.id).seqPosition [ZMOD (i.opcodes r.id).seqLength])
  /-- Of `n` regions with equal conditions and the positions `1, …, n`, each query triggers one. -/
  inTurn : (∀ s ∈ searches, i.SearchesAll s) → ∀ rs : List Region, (∀ r ∈ rs, r ∈ i.regions) →
    (∀ r ∈ rs, ∀ r' ∈ rs, i.holds r.id = i.holds r'.id) →
    (∀ j : Fin rs.length, (i.opcodes (rs.get j).id).seqLength = rs.length ∧
      (i.opcodes (rs.get j).id).seqPosition = j + 1) →
    ∀ (j : Fin rs.length) (k : ℕ), k < (searches.filter (i.holds (rs.get j).id)).length →
      (t.entries (rs.get j).id)[k]?.map Asked.triggered = some (decide (k % rs.length = j))

/-- The region has a turn in each round. -/
def HasTurns (o : OnKeyOpcodes) : Prop :=
  o.seqLength ≠ 0 ∧ |o.seqLength| ≤ intMax ∧ 1 ≤ o.seqPosition ∧ o.seqPosition ≤ |o.seqLength|

/-! ## The counter -/

/-- The counter after `k` queries. -/
def counterAfter (length : ℤ) (k : ℕ) : ℤ := k % |length| + 1

theorem counterAfter_succ {length : ℤ} (k : ℕ) (hlength : length ≠ 0) :
    counterAfter length (k + 1) = (counterAfter length k).tmod length + 1 := by
  have hpos : 0 < |length| := abs_pos.mpr hlength
  have hnonneg : 0 ≤ counterAfter length k :=
    Int.add_nonneg (Int.emod_nonneg _ hpos.ne') Int.one_nonneg
  rw [Int.tmod_eq_emod_of_nonneg hnonneg, ← Int.emod_abs, counterAfter, counterAfter,
    Int.emod_add_emod]
  push_cast
  rfl

theorem counterAfter_le {length : ℤ} (k : ℕ) (hlength : length ≠ 0) :
    counterAfter length k ≤ |length| :=
  Int.add_one_le_of_lt (Int.emod_lt_of_pos _ (abs_pos.mpr hlength))

theorem counterAfter_eq_iff {length position : ℤ} (hlow : 1 ≤ position)
    (hhigh : position ≤ |length|) (k : ℕ) :
    counterAfter length k = position ↔ (k + 1 : ℤ) ≡ position [ZMOD length] := by
  have hsmall : (position - 1) % |length| = position - 1 :=
    Int.emod_eq_of_lt (by omega) (by omega)
  calc counterAfter length k = position
      ↔ (k : ℤ) % |length| = (position - 1) % |length| := by
        rw [hsmall, counterAfter]
        omega
    _ ↔ (k : ℤ) ≡ position - 1 [ZMOD length] := by
        rw [Int.ModEq, Int.emod_abs, Int.emod_abs]
    _ ↔ (k + 1 : ℤ) ≡ position - 1 + 1 [ZMOD length] :=
        ⟨fun h => h.add_right 1, fun h => h.add_right_cancel' 1⟩
    _ ↔ (k + 1 : ℤ) ≡ position [ZMOD length] := by rw [Int.sub_add_cancel]

/-! ## Calls of `OnKey()` -/

section Ask

variable {opcodes : ℤ → OnKeyOpcodes} {q : FullQuery}

theorem Turns.ask_of_not_triggered {r : Region} (t : Turns)
    (h : (opcodes r.id).isTriggered q = false) : t.ask opcodes q r = some (false, t) := by
  simp [ask, onKey, OnKeyOpcodes.onKey, h]

/-- The counter and the log after a call that gets as far as the sequence. -/
def Turns.asking (opcodes : ℤ → OnKeyOpcodes) (q : FullQuery) (r : Region) (t : Turns) : Turns where
  seqCounter := Function.update t.seqCounter r.id
    ((t.seqCounter r.id).tmod (opcodes r.id).seqLength + 1)
  log := t.log ++ [⟨r.id, q, t.seqCounter r.id = (opcodes r.id).seqPosition⟩]

theorem Turns.ask_of_triggered {r : Region} (t : Turns) (h : (opcodes r.id).isTriggered q = true) :
    t.ask opcodes q r =
      if (opcodes r.id).seqLength = 0 ∨
          intMax < (t.seqCounter r.id).tmod (opcodes r.id).seqLength + 1 then none
      else some (decide (t.seqCounter r.id = (opcodes r.id).seqPosition), t.asking opcodes q r) := by
  unfold ask onKey
  simp only [h, true_and]
  split
  · rfl
  · simp [OnKeyOpcodes.onKey, h, asking]

theorem Turns.entries_asking {r : Region} (t : Turns) (id : ℤ) :
    (t.asking opcodes q r).entries id =
      t.entries id ++
        if r.id = id then [⟨r.id, q, t.seqCounter r.id = (opcodes r.id).seqPosition⟩] else [] := by
  unfold entries asking
  rw [List.filter_append, List.filter_singleton]
  by_cases h : r.id = id
  · simp [h]
  · simp [h]

/-- What the counters and the log say of each other. -/
structure Counted (opcodes : ℤ → OnKeyOpcodes) (t : Turns) : Prop where
  counter : ∀ id, t.seqCounter id = counterAfter (opcodes id).seqLength (t.entries id).length
  length : ∀ id, t.entries id ≠ [] → (opcodes id).seqLength ≠ 0
  small : ∀ id, t.seqCounter id ≤ intMax
  triggered : ∀ id (k : ℕ) (a : Asked), (t.entries id)[k]? = some a →
    (a.triggered ↔ counterAfter (opcodes id).seqLength k = (opcodes id).seqPosition)

theorem Counted.initial (opcodes : ℤ → OnKeyOpcodes) : Counted opcodes {} where
  counter id := by simp [counterAfter, Turns.entries]
  length id h := absurd rfl h
  small id := by simp [intMax]
  triggered id k a h := nomatch h

theorem Counted.ask {r : Region} {t t' : Turns} {b : Bool} (h : Counted opcodes t)
    (hask : t.ask opcodes q r = some (b, t')) : Counted opcodes t' := by
  cases htriggered : (opcodes r.id).isTriggered q with
  | false =>
      rw [t.ask_of_not_triggered htriggered] at hask
      cases hask
      exact h
  | true =>
      rw [t.ask_of_triggered htriggered] at hask
      by_cases hfault : (opcodes r.id).seqLength = 0 ∨
          intMax < (t.seqCounter r.id).tmod (opcodes r.id).seqLength + 1
      · rw [if_pos hfault] at hask
        cases hask
      rw [if_neg hfault] at hask
      cases hask
      obtain ⟨hlength, hsmall⟩ := not_or.mp hfault
      constructor
      · intro id
        rw [t.entries_asking]
        by_cases hid : r.id = id
        · subst hid
          rw [if_pos rfl, List.length_append, List.length_singleton, counterAfter_succ _ hlength,
            ← h.counter]
          exact Function.update_self ..
        · rw [if_neg hid, List.append_nil, ← h.counter]
          exact Function.update_of_ne (Ne.symm hid) ..
      · intro id hne
        by_cases hid : r.id = id
        · exact hid ▸ hlength
        · rw [t.entries_asking, if_neg hid, List.append_nil] at hne
          exact h.length id hne
      · intro id
        by_cases hid : r.id = id
        · subst hid
          exact (Function.update_self ..).trans_le (not_lt.mp hsmall)
        · have hsame : (t.asking opcodes q r).seqCounter id = t.seqCounter id :=
            Function.update_of_ne (Ne.symm hid) ..
          exact hsame.trans_le (h.small id)
      · intro id k a ha
        rw [t.entries_asking] at ha
        by_cases hid : r.id = id
        · subst hid
          rw [if_pos rfl] at ha
          rcases Nat.lt_trichotomy k (t.entries r.id).length with hk | hk | hk
          · rw [List.getElem?_append_left hk] at ha
            exact h.triggered _ k a ha
          · rw [hk, List.getElem?_concat_length] at ha
            cases ha
            rw [hk, ← h.counter]
            exact decide_eq_true_iff
          · rw [List.getElem?_eq_none (by simp; omega)] at ha
            cases ha
        · rw [if_neg hid, List.append_nil] at ha
          exact h.triggered id k a ha

/-- A region with turns never stops the search. -/
theorem Counted.ask_of_hasTurns {r : Region} {t : Turns} (h : Counted opcodes t)
    (hturns : (opcodes r.id).isTriggered q = true → HasTurns (opcodes r.id)) :
    ∃ b t', t.ask opcodes q r = some (b, t') := by
  cases htriggered : (opcodes r.id).isTriggered q with
  | false => exact ⟨false, t, t.ask_of_not_triggered htriggered⟩
  | true =>
      obtain ⟨hlength, hsmall, -, -⟩ := hturns htriggered
      have hnext := (counterAfter_le ((t.entries r.id).length + 1) hlength).trans hsmall
      rw [counterAfter_succ _ hlength, ← h.counter] at hnext
      exact ⟨_, _, (t.ask_of_triggered htriggered).trans
        (if_neg (not_or.mpr ⟨hlength, not_lt.mpr hnext⟩))⟩

/-! ## Searches -/

/-- The calls for the regions of a list, one after the other. -/
def askAll (opcodes : ℤ → OnKeyOpcodes) (q : FullQuery) (rs : List Region) (t : Turns) :
    Option Turns :=
  rs.foldlM (fun t r => (t.ask opcodes q r).map Prod.snd) t

theorem askAll_append (rs rs' : List Region) (t : Turns) :
    askAll opcodes q (rs ++ rs') t = (askAll opcodes q rs t).bind (askAll opcodes q rs') :=
  List.foldlM_append

theorem askAll_cons {r : Region} {t t' : Turns} {b : Bool} (hask : t.ask opcodes q r = some (b, t'))
    (rs : List Region) : askAll opcodes q (r :: rs) t = askAll opcodes q rs t' := by
  rw [askAll, List.foldlM_cons, hask]
  rfl

theorem ask_of_askAll_cons {r : Region} {rs : List Region} {t t' : Turns}
    (h : askAll opcodes q (r :: rs) t = some t') :
    ∃ b t₁, t.ask opcodes q r = some (b, t₁) ∧ askAll opcodes q rs t₁ = some t' := by
  obtain ⟨t₁, hmapped, hrest⟩ := Option.bind_eq_some_iff.mp h
  obtain ⟨⟨b, t₂⟩, hask, heq⟩ := Option.map_eq_some_iff.mp hmapped
  obtain rfl : t₂ = t₁ := heq
  exact ⟨b, t₂, hask, hrest⟩

/-- `next()` has asked the regions before the one where it stops. -/
theorem askAll_of_next {rs rest : List Region} {t t' : Turns} {result : Option Region}
    (h : next opcodes q rs t = some (result, rest, t')) :
    ∃ asked, rs = asked ++ rest ∧ askAll opcodes q asked t = some t' ∧
      (result = none → rest = []) ∧ (result ≠ none → asked ≠ []) := by
  induction rs generalizing t with
  | nil =>
      obtain ⟨rfl, hpair⟩ := Prod.mk.inj (Option.some.inj h)
      cases hpair
      exact ⟨[], rfl, rfl, fun _ => rfl, fun h => absurd rfl h⟩
  | cons r rs ih =>
      obtain ⟨⟨b, t₁⟩, hask, hrest⟩ := Option.bind_eq_some_iff.mp h
      cases b with
      | true =>
          obtain ⟨rfl, hpair⟩ := Prod.mk.inj (Option.some.inj hrest)
          cases hpair
          exact ⟨[r], rfl, askAll_cons hask [], (fun h => nomatch h), (fun _ h => nomatch h)⟩
      | false =>
          obtain ⟨asked, rfl, hasked, hend, -⟩ := ih hrest
          exact ⟨r :: asked, rfl, (askAll_cons hask asked).trans hasked, hend, fun _ h => nomatch h⟩

/-- A caller has asked the regions up to some place, and all if it never gave up. -/
theorem askAll_of_search {calls : ℕ} {rs : List Region} {t t' : Turns}
    (h : search opcodes q calls rs t = some t') :
    ∃ asked rest, rs = asked ++ rest ∧ askAll opcodes q asked t = some t' ∧
      (rs.length < calls → rest = []) := by
  induction calls generalizing rs t with
  | zero =>
      cases h
      exact ⟨[], rs, rfl, rfl, fun h => absurd h (Nat.not_lt_zero _)⟩
  | succ calls ih =>
      obtain ⟨⟨result, rest, t₁⟩, hnext, hrest⟩ := Option.bind_eq_some_iff.mp h
      obtain ⟨asked, rfl, hasked, hend, hsome⟩ := askAll_of_next hnext
      cases result with
      | none =>
          cases hrest
          exact ⟨asked, rest, rfl, hasked, fun _ => hend rfl⟩
      | some r =>
          obtain ⟨later, rest', rfl, hlater, hall⟩ := ih hrest
          refine ⟨asked ++ later, rest', (List.append_assoc ..).symm, ?_, fun hcalls => hall ?_⟩
          · rw [askAll_append, hasked]
            exact hlater
          · have hpos := List.length_pos_of_ne_nil (hsome fun h => nomatch h)
            rw [List.length_append] at hcalls
            omega

theorem Counted.askAll {rs : List Region} {t t' : Turns} (h : Counted opcodes t)
    (hasked : askAll opcodes q rs t = some t') : Counted opcodes t' := by
  induction rs generalizing t with
  | nil => exact Option.some.inj hasked ▸ h
  | cons r rs ih =>
      obtain ⟨b, t₁, hask, hrest⟩ := ask_of_askAll_cons hasked
      exact ih (h.ask hask) hrest

theorem Counted.search {calls : ℕ} {rs : List Region} {t t' : Turns} (h : Counted opcodes t)
    (hsearch : search opcodes q calls rs t = some t') : Counted opcodes t' := by
  obtain ⟨asked, -, -, hasked, -⟩ := askAll_of_search hsearch
  exact h.askAll hasked

theorem Counted.next_of_hasTurns {rs : List Region} {t : Turns} (h : Counted opcodes t)
    (hturns : ∀ r ∈ rs, (opcodes r.id).isTriggered q = true → HasTurns (opcodes r.id)) :
    ∃ result rest t', next opcodes q rs t = some (result, rest, t') := by
  induction rs generalizing t with
  | nil => exact ⟨none, [], t, rfl⟩
  | cons r rs ih =>
      obtain ⟨b, t₁, hask⟩ := h.ask_of_hasTurns (hturns r List.mem_cons_self)
      rw [next, hask]
      cases b with
      | true => exact ⟨_, _, _, rfl⟩
      | false => exact ih (h.ask hask) fun r hr => hturns r (List.mem_cons_of_mem _ hr)

theorem Counted.search_of_hasTurns {rs : List Region} {t : Turns} (h : Counted opcodes t)
    (hturns : ∀ r ∈ rs, (opcodes r.id).isTriggered q = true → HasTurns (opcodes r.id))
    (calls : ℕ) : ∃ t', RoundRobin.search opcodes q calls rs t = some t' := by
  induction calls generalizing rs t with
  | zero => exact ⟨t, rfl⟩
  | succ calls ih =>
      obtain ⟨result, rest, t₁, hnext⟩ := h.next_of_hasTurns hturns
      obtain ⟨asked, rfl, hasked, -, -⟩ := askAll_of_next hnext
      rw [RoundRobin.search, hnext]
      cases result with
      | none => exact ⟨t₁, rfl⟩
      | some r => exact ih (h.askAll hasked) fun r hr => hturns r (List.mem_append_right _ hr)

/-- A list without repetitions is asked once for each region whose conditions hold. -/
theorem entries_askAll {rs : List Region} (hdistinct : (rs.map Region.id).Nodup) {t t' : Turns}
    (hasked : askAll opcodes q rs t = some t') (id : ℤ) :
    (t'.entries id).map Asked.q = (t.entries id).map Asked.q ++
      if rs.any (·.id = id) && (opcodes id).isTriggered q then [q] else [] := by
  induction rs generalizing t with
  | nil =>
      cases hasked
      simp
  | cons r rs ih =>
      obtain ⟨hnot, hdistinct⟩ := List.nodup_cons.mp hdistinct
      obtain ⟨b, t₁, hask, hrest⟩ := ask_of_askAll_cons hasked
      have hlater : rs.any (·.id = r.id) = false :=
        List.any_eq_false.mpr fun r' hr' hid =>
          hnot (List.mem_map.mpr ⟨r', hr', of_decide_eq_true hid⟩)
      rw [ih hdistinct hrest]
      cases htriggered : (opcodes r.id).isTriggered q with
      | false =>
          rw [t.ask_of_not_triggered htriggered] at hask
          cases hask
          by_cases hid : r.id = id
          · subst hid
            simp [htriggered]
          · simp [hid]
      | true =>
          rw [t.ask_of_triggered htriggered] at hask
          split at hask
          · exact nomatch hask
          · cases hask
            rw [t.entries_asking]
            by_cases hid : r.id = id
            · subst hid
              simp [hlater, htriggered]
            · simp [hid]

end Ask

/-! ## Instruments -/

namespace LoadedInstrument

variable {i : LoadedInstrument}

theorem run_concat (searches : List Search) (s : Search) :
    i.run (searches ++ [s]) =
      (i.run searches).bind (search i.opcodes s.q s.calls (i.found s)) := by
  rw [run, List.foldlM_append]
  simp only [List.foldlM_cons, List.foldlM_nil, bind_pure]
  rfl

/-- What a longer run has done before its last search. -/
theorem run_of_run_concat {searches : List Search} {s : Search} {t' : Turns}
    (h : i.run (searches ++ [s]) = some t') :
    ∃ t, i.run searches = some t ∧ search i.opcodes s.q s.calls (i.found s) t = some t' := by
  rw [run_concat] at h
  exact Option.bind_eq_some_iff.mp h

theorem found_distinct (s : Search) : ((i.found s).map Region.id).Nodup :=
  i.distinct.sublist ((i.lookup_sublist _ _ s.inRange).map _)

theorem holds_of_mem {s : Search} {r : Region} (hr : r ∈ i.found s)
    (htriggered : (i.opcodes r.id).isTriggered s.q = true) : i.holds r.id s = true :=
  Bool.and_eq_true_iff.mpr ⟨List.any_eq_true.mpr ⟨r, hr, decide_eq_true rfl⟩, htriggered⟩

theorem counted_run {searches : List Search} {t : Turns} (h : i.run searches = some t) :
    Counted i.opcodes t := by
  induction searches using List.reverseRecOn generalizing t with
  | nil => exact Option.some.inj h ▸ .initial i.opcodes
  | append_singleton searches s ih =>
      obtain ⟨t₁, hbefore, hsearch⟩ := run_of_run_concat h
      exact (ih hbefore).search hsearch

theorem entries_run {searches : List Search} {t : Turns} (h : i.run searches = some t)
    (hall : ∀ s ∈ searches, i.SearchesAll s) (id : ℤ) :
    (t.entries id).map Asked.q = (searches.filter (i.holds id)).map Search.q := by
  induction searches using List.reverseRecOn generalizing t with
  | nil =>
      cases h
      rfl
  | append_singleton searches s ih =>
      obtain ⟨t₁, hbefore, hsearch⟩ := run_of_run_concat h
      obtain ⟨asked, rest, hfound, hasked, hrest⟩ := askAll_of_search hsearch
      obtain rfl := hrest (hall s (List.mem_append_right _ List.mem_cons_self))
      rw [List.append_nil] at hfound
      rw [← hfound] at hasked
      rw [entries_askAll (found_distinct s) hasked, List.filter_append, List.map_append,
        ih hbefore fun s' hs' => hall s' (List.mem_append_left _ hs')]
      congr 1
      rw [List.filter_singleton]
      show (if i.holds id s then [s.q] else []) = _
      cases i.holds id s <;> rfl

theorem length_entries_run {searches : List Search} {t : Turns} (h : i.run searches = some t)
    (hall : ∀ s ∈ searches, i.SearchesAll s) (id : ℤ) :
    (t.entries id).length = (searches.filter (i.holds id)).length := by
  simpa using congrArg List.length (entries_run h hall id)

/-- Only regions that a query takes get as far as the sequence. -/
theorem holds_of_entries {searches : List Search} {t : Turns} (h : i.run searches = some t) {id : ℤ}
    (hne : t.entries id ≠ []) : ∃ s, i.holds id s = true := by
  induction searches using List.reverseRecOn generalizing t with
  | nil =>
      cases h
      exact absurd rfl hne
  | append_singleton searches s ih =>
      obtain ⟨t₁, hbefore, hsearch⟩ := run_of_run_concat h
      by_cases hearlier : t₁.entries id = []
      · obtain ⟨asked, rest, hfound, hasked, -⟩ := askAll_of_search hsearch
        have hdistinct := found_distinct (i := i) s
        rw [hfound, List.map_append] at hdistinct
        have hentries := entries_askAll hdistinct.of_append_left hasked id
        rw [hearlier, List.map_nil, List.nil_append] at hentries
        split at hentries
        next hheld =>
          obtain ⟨hany, htriggered⟩ := Bool.and_eq_true_iff.mp hheld
          refine ⟨s, Bool.and_eq_true_iff.mpr ⟨?_, htriggered⟩⟩
          rw [hfound, List.any_append, hany, Bool.true_or]
        next => exact absurd (List.map_eq_nil_iff.mp hentries) hne
      · exact ih hbefore hearlier

/-- A run goes on for ever if the regions that it asks have turns. -/
theorem exists_run
    (h : ∀ r ∈ i.regions, (∃ s, i.holds r.id s = true) → HasTurns (i.opcodes r.id))
    (searches : List Search) : ∃ t, i.run searches = some t := by
  induction searches using List.reverseRecOn with
  | nil => exact ⟨_, rfl⟩
  | append_singleton searches s ih =>
      obtain ⟨t, hrun⟩ := ih
      have hturns : ∀ r ∈ i.found s, (i.opcodes r.id).isTriggered s.q = true →
          HasTurns (i.opcodes r.id) := fun r hr htriggered =>
        h r ((i.lookup_sublist _ _ s.inRange).subset hr) ⟨s, holds_of_mem hr htriggered⟩
      obtain ⟨t', hsearch⟩ := (counted_run hrun).search_of_hasTurns hturns s.calls
      exact ⟨t', by rw [run_concat, hrun]; exact hsearch⟩

end LoadedInstrument

theorem TakesTurns.of_hasTurns {i : LoadedInstrument}
    (h : ∀ r ∈ i.regions, (∃ s, i.holds r.id s = true) → HasTurns (i.opcodes r.id))
    {searches : List Search} {t : Turns} (hrun : i.run searches = some t) :
    TakesTurns i searches t := by
  have hcounted := LoadedInstrument.counted_run hrun
  constructor
  · exact fun hall r _ => LoadedInstrument.entries_run hrun hall r.id
  · intro r hr k a ha
    have hne : t.entries r.id ≠ [] := fun hnil => by
      rw [hnil] at ha
      exact nomatch ha
    obtain ⟨-, -, hlow, hhigh⟩ := h r hr (LoadedInstrument.holds_of_entries hrun hne)
    exact (hcounted.triggered r.id k a ha).trans (counterAfter_eq_iff hlow hhigh k)
  · intro hall rs _ _ hsequence j k hk
    obtain ⟨hlength, hposition⟩ := hsequence j
    rw [← LoadedInstrument.length_entries_run hrun hall] at hk
    have hentry := List.getElem?_eq_getElem hk
    have htriggered := hcounted.triggered _ k _ hentry
    rw [hlength, hposition, counterAfter, Nat.abs_cast] at htriggered
    rw [hentry, Option.map_some]
    refine congrArg some (Bool.eq_iff_iff.mpr (htriggered.trans ?_))
    rw [decide_eq_true_iff]
    omega

/-- Repeated queries show every region its turns. -/
theorem hasTurns_of_takesTurns {i : LoadedInstrument}
    (h : ∀ searches, ∃ t, i.run searches = some t ∧ TakesTurns i searches t) {r : Region}
    (hr : r ∈ i.regions) (hholds : ∃ s, i.holds r.id s = true) : HasTurns (i.opcodes r.id) := by
  obtain ⟨s₀, hholds⟩ := hholds
  let s : Search := { s₀ with calls := (i.found s₀).length + 1 }
  have hs : i.holds r.id s = true := hholds
  -- the counter and the entries after `n` queries
  have hrepeated (n : ℕ) : ∃ t, Counted i.opcodes t ∧
      TakesTurns i (List.replicate n s) t ∧ (t.entries r.id).length = n := by
    obtain ⟨t, hrun, hturns⟩ := h (List.replicate n s)
    refine ⟨t, LoadedInstrument.counted_run hrun, hturns, ?_⟩
    rw [LoadedInstrument.length_entries_run hrun, List.filter_replicate_of_pos hs,
      List.length_replicate]
    intro s' hs'
    rw [List.eq_of_mem_replicate hs']
    exact Nat.lt_succ_self _
  obtain ⟨t₁, hcounted₁, -, hlength₁⟩ := hrepeated 1
  have hlength : (i.opcodes r.id).seqLength ≠ 0 :=
    hcounted₁.length r.id (List.ne_nil_of_length_pos (by omega))
  have hpos : 0 < |(i.opcodes r.id).seqLength| := abs_pos.mpr hlength
  have hround : |(i.opcodes r.id).seqLength| ≤ intMax := by
    obtain ⟨t, hcounted, -, hn⟩ := hrepeated (|(i.opcodes r.id).seqLength| - 1).toNat
    have hsmall := hcounted.small r.id
    rw [hcounted.counter, hn, counterAfter, Int.emod_eq_of_lt (by omega) (by omega)] at hsmall
    omega
  obtain ⟨k, hk⟩ : ∃ k : ℕ, (k : ℤ) =
      ((i.opcodes r.id).seqPosition - 1) % |(i.opcodes r.id).seqLength| :=
    ⟨_, Int.toNat_of_nonneg (Int.emod_nonneg _ hpos.ne')⟩
  have hlaw : (k + 1 : ℤ) ≡ (i.opcodes r.id).seqPosition [ZMOD (i.opcodes r.id).seqLength] := by
    have hmod : (k : ℤ) ≡ (i.opcodes r.id).seqPosition - 1 [ZMOD (i.opcodes r.id).seqLength] := by
      rw [Int.ModEq, hk, ← Int.emod_abs, ← Int.emod_abs _ (i.opcodes r.id).seqLength,
        Int.emod_emod_of_dvd _ (dvd_refl _)]
    simpa using hmod.add_right 1
  obtain ⟨t, hcounted, hturns, hn⟩ := hrepeated (k + 1)
  have hentry := List.getElem?_eq_getElem (show k < (t.entries r.id).length by omega)
  have hcounter := (hcounted.triggered r.id k _ hentry).mp
    ((hturns.triggered r hr k _ hentry).mpr hlaw)
  refine ⟨hlength, hround, ?_, hcounter ▸ counterAfter_le k hlength⟩
  rw [← hcounter, counterAfter]
  have hnonneg := Int.emod_nonneg k hpos.ne'
  omega

/-- The regions of an instrument take turns in every sequence of queries just if each region that
queries can take has a length other than 0 and the least `int`, and a position within it. -/
theorem takesTurns_iff (i : LoadedInstrument) :
    (∀ searches, ∃ t, i.run searches = some t ∧ TakesTurns i searches t) ↔
      ∀ r ∈ i.regions, (∃ s, i.holds r.id s = true) → HasTurns (i.opcodes r.id) := by
  constructor
  · exact fun h r hr hholds => hasTurns_of_takesTurns h hr hholds
  · intro h searches
    obtain ⟨t, hrun⟩ := LoadedInstrument.exists_run h searches
    exact ⟨t, hrun, .of_hasTurns h hrun⟩

/-! ## A region without turns -/

/-- A region without opcodes for the tables. -/
def wholeKeyboard : Region := { id := 0 }

def wholeTables (triggercc : Option (Fin 128)) : LookupTable :=
  (LookupTable.construct [wholeKeyboard] triggercc).getD ⟨[], fun _ => []⟩

theorem construct_wholeKeyboard (triggercc : Option (Fin 128)) :
    LookupTable.construct [wholeKeyboard] triggercc = some (wholeTables triggercc) := by
  have hsmall : ¬ intMax < cellCount triggercc [wholeKeyboard] := by
    cases triggercc with
    | none => decide +kernel
    | some cc =>
        have hcount : cellCount (some cc) [wholeKeyboard] = 1 := by
          simp [cellCount, Selected, wholeKeyboard, axes, dims, ccs]
        rw [hcount]
        decide
  obtain ⟨table, htable⟩ := Option.ne_none_iff_exists'.mp fun hnone =>
    hsmall (LookupTable.construct_eq_none_iff.mp hnone)
  rw [wholeTables, htable]
  rfl

/-- `<region> seq_length=0` -/
def emptySequence : LoadedInstrument :=
  .ofTables (fun _ => { seqLength := 0 })
    (show ([wholeKeyboard].map Region.id).Nodup from List.nodup_singleton _)
      (List.forall_mem_singleton.mpr (by decide +kernel)) construct_wholeKeyboard

/-- A note on the first channel. -/
def noteOn : FullQuery where
  chan := 1
  key := 60
  vel := 100
  chanaft := 0
  polyaft := 0
  prog := 0
  prevSwKey := 255
  cc := fun _ => 0
  bend := 0
  bpm := 0
  rand := 0
  timer := 0
  trig := TRIGGER_ATTACK ||| TRIGGER_FIRST
  sw := fun _ => false
  lastSwKey := 255

theorem inRange_noteOn : noteOn.toQuery.InRange where
  chan := by decide
  key := by decide
  vel := by decide
  chanaft := by decide
  polyaft := by decide
  prog := by decide
  prevSwKey := .inr rfl
  cc := fun _ => (by decide : (0 : UInt8) < 128)

theorem holds_noteOn : emptySequence.holds 0 ⟨none, noteOn, 1, inRange_noteOn⟩ = true := by
  refine LoadedInstrument.holds_of_mem (r := wholeKeyboard) ?_ rfl
  show wholeKeyboard ∈ (wholeTables none).query noteOn.toQuery
  rw [LookupTable.query_eq (List.forall_mem_singleton.mpr (by decide +kernel))
    (construct_wholeKeyboard none) inRange_noteOn]
  exact List.mem_filter.mpr ⟨List.mem_cons_self, by decide +kernel⟩

theorem not_takesTurns : ¬ ∀ (i : LoadedInstrument) (searches : List Search),
    ∃ t, i.run searches = some t ∧ TakesTurns i searches t := by
  intro h
  have hturns := hasTurns_of_takesTurns (h emptySequence) List.mem_cons_self ⟨_, holds_noteOn⟩
  exact hturns.1 rfl

end RoundRobin

end Sfz

end LinuxSampler
