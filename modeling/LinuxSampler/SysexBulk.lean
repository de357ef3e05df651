import LinuxSampler.AddressRun
import LinuxSampler.SysexSafety

/-!
# The dispatcher and the bytes at their addresses

A message applies each byte at its own address if every handler does so in
its block, and if what a handler leaves of its block is quiet: the
dispatcher goes on with the next block.
-/

namespace LinuxSampler

open SysexMap AddressRun

variable {π : Type} [DecidableEq π]

section Blocks

variable (f : ℕ → UInt8 → Engine π → Except Abort (Engine π)) (I : Engine π → Prop) (port : π)
  (a : ℕ) (data : List UInt8)

/-- The map of the message. -/
structure Good (me : SysexMap π) : Prop where
  sourcePort_eq : me.sourcePort = port
  cacheOk : me.CacheOk
  inv : I me.engine

/-- The rest of the table, from a position that is not beyond a bound and
with a quiet stretch up to it. -/
def RunsFrom (map : List (AddressBlock π)) (bound : ℕ) : Prop :=
  ∀ k me s, k ≤ data.length → Good I port me → s.Has (a + k) (data.drop k) →
    a + k ≤ max a bound →
    (∀ x, a + k ≤ x → x < a + data.length → x < bound → AddressRun.Quiet f I x) →
    (dispatch map me s).map (·.engine) = run f (a + k) (data.drop k) me.engine

/-- The handler applies the bytes from where the message enters its block,
and what it leaves is quiet up to the end of the block, or to the end of
the message if it gives up. -/
def Handles (block : AddressBlock π) : Prop :=
  ∀ j me s, a + j = max a block.min → a + j ≤ block.max → j < data.length → Good I port me →
    s.Has (a + j) (data.drop j) →
    (∃ err, block.handler me s = .error err ∧
      run f (a + j) (data.drop j) me.engine = .error err) ∨
    ∃ go me' s' k, block.handler me s = .ok (go, me', s') ∧ j ≤ k ∧ k ≤ data.length ∧
      a + k ≤ block.max + 1 ∧ s'.Has (a + k) (data.drop k) ∧ me'.sourcePort = port ∧
      me'.CacheOk ∧ run f (a + j) ((data.drop j).take (k - j)) me.engine = .ok me'.engine ∧
      ∀ x, a + k ≤ x → x < a + data.length → (go = false ∨ x ≤ block.max) → AddressRun.Quiet f I x

end Blocks

variable {f : ℕ → UInt8 → Engine π → Except Abort (Engine π)} {I : Engine π → Prop} {port : π}
  {a : ℕ} {data : List UInt8} {map : List (AddressBlock π)} {block : AddressBlock π} {bound : ℕ}

theorem RunsFrom.nil (hquiet : ∀ x, bound ≤ x → AddressRun.Quiet f I x) :
    RunsFrom f I port a data [] bound := by
  intro k me s hk hme h hle hbelow
  have hrun : run f (a + k) (data.drop k) me.engine = .ok me.engine := by
    refine run_quiet hme.inv fun x hx hlt => ?_
    rw [List.length_drop] at hlt
    rcases Nat.lt_or_ge x bound with hx' | hx'
    · exact hbelow x hx (by omega) hx'
    · exact hquiet x hx'
  rw [hrun]
  rfl

theorem RunsFrom.cons (hf : Keeps f I) (hblock : Handles f I port a data block)
    (hrest : RunsFrom f I port a data map (block.max + 1)) (hbound : bound ≤ block.min)
    (hle : block.min ≤ block.max)
    (hgap : ∀ x, bound ≤ x → x < block.min → AddressRun.Quiet f I x) :
    RunsFrom f I port a data (block :: map) bound := by
  intro k me s hk hme h hak hbelow
  rcases Nat.lt_or_ge block.max (a + k) with hpast | hmax
  · rw [dispatch_past h hpast]
    refine hrest k me s hk hme h (by omega) fun x hx _ hlt => ?_
    omega
  · have hquiet : ∀ x, a + k ≤ x → x < a + data.length → x < block.min → AddressRun.Quiet f I x := by
      intro x hx hlt hmin
      rcases Nat.lt_or_ge x bound with hx' | hx'
      · exact hbelow x hx hlt hx'
      · exact hgap x hx' hmin
    rcases Nat.lt_or_ge (block.min - (a + k)) (data.drop k).length with hin | hout
    · obtain ⟨s₁, h₁, hrun⟩ := dispatch_enter block map me h hmax hin
      obtain ⟨j, hj⟩ : ∃ j, a + j = max (a + k) block.min := ⟨max (a + k) block.min - a, by omega⟩
      rw [List.length_drop] at hin
      have hkj : block.min - (a + k) = j - k := by omega
      rw [← hj, hkj, List.drop_drop, show k + (j - k) = j by omega] at h₁
      -- The stretch before the block is quiet.
      have hskip : run f (a + k) (data.drop k) me.engine =
          run f (a + j) (data.drop j) me.engine := by
        rw [run_skip hme.inv (k := j - k), List.drop_drop, show a + k + (j - k) = a + j by omega,
          show k + (j - k) = j by omega]
        · rw [List.length_drop]
          omega
        · exact fun x hx hlt => hquiet x hx (by omega) (by omega)
      rw [hskip, hrun]
      rcases hblock j me s₁ (by omega) (by omega) (by omega) hme h₁ with
        ⟨err, herr, hrunerr⟩ | ⟨go, me', s', k', hok, hjk, hk', hend, h', hport, hcache, hdone,
          hleft⟩
      · rw [herr, hrunerr]
        rfl
      · have hme' : Good I port me' := ⟨hport, hcache, run_keeps hf hme.inv hdone⟩
        have hlen : k' - j ≤ (data.drop j).length := by
          rw [List.length_drop]
          omega
        rw [hok, run_take_drop f (a + j) (k' - j) (data.drop j) hlen, hdone, List.drop_drop,
          show a + j + (k' - j) = a + k' by omega, show j + (k' - j) = k' by omega]
        cases go with
        | true =>
            exact hrest k' me' s' hk' hme' h' (by omega) fun x hx hlt hx' =>
              hleft x hx hlt (.inr (by omega))
        | false =>
            show Except.ok me'.engine = run f (a + k') (data.drop k') me'.engine
            rw [run_quiet hme'.inv fun x hx hlt => hleft x hx
              (by rw [List.length_drop] at hlt; omega) (.inl rfl)]
    · rw [dispatch_end block map me h hmax hout, run_quiet hme.inv]
      · rfl
      · intro x hx hlt
        rw [List.length_drop] at hout hlt
        exact hquiet x hx (by omega) (by omega)

/-- The handler of a block without effects. -/
theorem Handles.of_quiet
    (hrun : ∀ j me s, a + j = max a block.min → a + j ≤ block.max → s.Has (a + j) (data.drop j) →
      (block.handler me s = .ok (false, me, s) ∧ a + data.length ≤ block.max + 1) ∨
      ∃ k s', k ≤ (data.drop j).length ∧ a + j + k ≤ block.max + 1 ∧
        s'.Has (a + j + k) ((data.drop j).drop k) ∧ block.handler me s = .ok (true, me, s'))
    (hquiet : ∀ x, block.min ≤ x → x ≤ block.max → AddressRun.Quiet f I x) :
    Handles f I port a data block := by
  intro j me s hj hle hlt hme h
  right
  rcases hrun j me s hj hle h with ⟨hok, hend⟩ | ⟨k, s', hk, hak, h', hok⟩
  · refine ⟨false, me, s, j, hok, le_rfl, by omega, by omega, h, hme.sourcePort_eq, hme.cacheOk,
      ?_, fun x hx hlt' _ => hquiet x (by omega) (by omega)⟩
    rw [Nat.sub_self, List.take_zero]
    rfl
  · rw [List.length_drop] at hk
    rw [List.drop_drop, Nat.add_assoc] at h'
    refine ⟨true, me, s', j + k, hok, by omega, by omega, by omega, h', hme.sourcePort_eq,
      hme.cacheOk, ?_, fun x hx _ hx' => ?_⟩
    · refine run_quiet hme.inv fun x hx hlt' => hquiet x (by omega) ?_
      rw [List.length_take] at hlt'
      omega
    · rcases hx' with hx' | hx'
      · cases hx'
      · exact hquiet x (by omega) (by omega)

/-! ## The first state of a map -/

theorem create_good (e : Engine π) (hI : I e) : Good I port (create e port) :=
  ⟨rfl, create_cacheOk e port, hI⟩

/-- The whole message. -/
theorem RunsFrom.dispatch_eq (h : RunsFrom f I port a data map 0) {e : Engine π} (hI : I e)
    {s : SysexReader} (hs : s.Has a data) :
    (dispatch map (create e port) s).map (·.engine) = run f a data e :=
  h 0 (create e port) s (Nat.zero_le _) (create_good e hI) hs (by omega) fun x _ _ hx => by omega

end LinuxSampler
