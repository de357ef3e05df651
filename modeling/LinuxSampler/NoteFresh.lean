import LinuxSampler.NoteReset
import LinuxSampler.PoolUse

/-!
# Fresh notes

Every note in the pool is fresh, as long as no changed note is dropped and
no ID leads to a note in the pool. Then a note that is launched is fresh,
but for the parent its event asks for.

`IgnoreNote()` releases a note without `reset()`. What a script has changed
before it dropped the note is found in the next note that is launched.
-/

namespace LinuxSampler

variable {C F : Type} [DecidableEq C] [NoteFloat F]

/-- The fields of a note that was not changed, and its parent. -/
structure EngineNote.FreshWith (parent : ℕ) (note : EngineNote F) : Prop where
  override : note.override = .init
  format : note.format = .init
  userPar : note.userPar = 0
  pChildNotes : note.pChildNotes = []
  pActiveVoices : note.pActiveVoices = []
  parentNoteID : note.parentNoteID = parent

instance [DecidableEq F] (parent : ℕ) (note : EngineNote F) : Decidable (note.FreshWith parent) :=
  decidable_of_iff (note.override = .init ∧ note.format = .init ∧ note.userPar = 0 ∧
      note.pChildNotes = [] ∧ note.pActiveVoices = [] ∧ note.parentNoteID = parent)
    ⟨fun ⟨h₁, h₂, h₃, h₄, h₅, h₆⟩ => ⟨h₁, h₂, h₃, h₄, h₅, h₆⟩,
      fun ⟨h₁, h₂, h₃, h₄, h₅, h₆⟩ => ⟨h₁, h₂, h₃, h₄, h₅, h₆⟩⟩

theorem EngineNote.FreshWith.of_eq {parent : ℕ} {note note' : EngineNote F}
    (h : note.FreshWith parent) (hoverride : note'.override = note.override)
    (hformat : note'.format = note.format) (huserPar : note'.userPar = note.userPar)
    (hchild : note'.pChildNotes = note.pChildNotes)
    (hvoices : note'.pActiveVoices = note.pActiveVoices)
    (hparent : note'.parentNoteID = note.parentNoteID) : note'.FreshWith parent :=
  ⟨hoverride.trans h.override, hformat.trans h.format, huserPar.trans h.userPar,
    hchild.trans h.pChildNotes, hvoices.trans h.pActiveVoices, hparent.trans h.parentNoteID⟩

namespace NoteEngine

/-- The ID does not lead to a note that is in the pool. -/
def InUseByID (S : NoteEngine C F) (id : ℕ) : Prop :=
  ∀ k ∈ (S.pNotePool.fromID id).index, k ∉ S.pNotePool.elements .freelist

/-- The note that `ignoreNote()` drops. -/
def ignored (S : NoteEngine C F) (id : ℕ) : Option ℕ := do
  let k ← (S.pNotePool.fromID id).index
  if (S.note k).pActiveVoices ≠ [] then none
  else if (S.pEventPool.fromID (S.note k).eventID).hasData then some k
  else none

end NoteEngine

/-- The IDs of a step lead to notes in use, and a note that is dropped was not
changed. -/
def NoteAction.Spares (S : NoteEngine C F) : NoteAction C F → Prop
  | .launchNewNote _ itNoteOnEvent => S.InUseByID itNoteOnEvent.parentNoteID
  | .change id _ | .addVoice id _ => S.InUseByID id
  | .ignoreNote id => ∀ k ∈ S.ignored id, (S.note k).FreshWith 0
  | _ => True

namespace NoteEngine

variable {S : NoteEngine C F} {lists : Lists (NoteList C)} {size k : ℕ}

structure Inv (size : ℕ) (S : NoteEngine C F) (lists : Lists (NoteList C)) : Prop where
  pool : Pool.InUse size 1 S.pNotePool lists
  fresh : ∀ k ∈ lists .freelist, (S.note k).FreshWith 0

omit [DecidableEq C] [NoteFloat F] in
theorem setNote_self (S : NoteEngine C F) (k : ℕ) (note : EngineNote F) :
    (S.setNote k note).note k = note :=
  Function.update_self ..

omit [DecidableEq C] [NoteFloat F] in
theorem setNote_of_ne (S : NoteEngine C F) {j : ℕ} (hj : j ≠ k) (note : EngineNote F) :
    (S.setNote k note).note j = S.note j :=
  Function.update_of_ne hj ..

omit [DecidableEq C] in
/-- A note changes that is in use or stays fresh. -/
theorem Inv.setNote (h : Inv size S lists) {note : EngineNote F}
    (hk : k ∈ lists .freelist → note.FreshWith 0) : Inv size (S.setNote k note) lists where
  pool := h.pool
  fresh j hj := by
    by_cases hjk : j = k
    · subst hjk
      rw [setNote_self]
      exact hk hj
    · rw [setNote_of_ne S hjk]
      exact h.fresh j hj

omit [DecidableEq C] in
theorem Inv.setUsed (h : Inv size S lists) (hk : k ∉ lists .freelist) (note : EngineNote F) :
    Inv size (S.setNote k note) lists :=
  h.setNote fun hmem => absurd hmem hk

omit [DecidableEq C] in
theorem Inv.setIDs (h : Inv size S lists) (n : ℕ) : Inv size { S with noteIDPool := n } lists :=
  ⟨h.pool, h.fresh⟩

omit [DecidableEq C] in
theorem Inv.setEvents (h : Inv size S lists) (P : Pool (EngineEventList C)) :
    Inv size { S with pEventPool := P } lists :=
  ⟨h.pool, h.fresh⟩

omit [DecidableEq C] in
theorem resetNote_fresh (S : NoteEngine C F) (k : ℕ) : ((S.resetNote k).note k).FreshWith 0 := by
  unfold resetNote
  rw [setNote_self]
  exact ⟨rfl, rfl, rfl, rfl, rfl, rfl⟩

omit [DecidableEq C] in
theorem Inv.resetNote (h : Inv size S lists) (k : ℕ) : Inv size (S.resetNote k) lists :=
  (h.setIDs _).setNote fun _ => ⟨rfl, rfl, rfl, rfl, rfl, rfl⟩

theorem Inv.freeNote (h : Inv size S lists) (hk : k < size) (hfresh : (S.note k).FreshWith 0) :
    Inv size (S.freeNote k) (lists.moveTo .freelist k) where
  pool := h.pool.free rfl hk
  fresh j hj := by
    rcases (Lists.mem_moveTo (h.pool.nodup _)).mp hj with ⟨-, hj⟩ | ⟨-, rfl⟩
    · exact h.fresh j hj
    · exact hfresh

omit [DecidableEq C] in
theorem Inv.notMem_freelist (h : Inv size S lists) (hk : k ∉ S.pNotePool.elements .freelist) :
    k ∉ lists .freelist := by
  rwa [h.pool.holds.elements_eq] at hk

/-! ## Launching -/

/-- Leaving the free list, a note is in use. -/
theorem Inv.takeNote (h : Inv size S lists) {list : NoteList C} {P : Pool (NoteList C)}
    (hpool : Pool.InUse size 1 P (lists.moveTo (.rtlist list) k)) :
    Inv size { S with pNotePool := P } (lists.moveTo (.rtlist list) k) where
  pool := hpool
  fresh j hj := by
    rcases (Lists.mem_moveTo (h.pool.nodup _)).mp hj with ⟨-, hj⟩ | ⟨hlist, -⟩
    · exact h.fresh j hj
    · cases hlist

omit [DecidableEq C] in
/-- A note that is taken is linked to a parent that was in use before, or no
parent is found. -/
theorem Inv.linkParent (h : Inv size S lists) {parentNoteID : ℕ} (newNoteID : ℕ)
    (hk : k ∉ lists .freelist) (hfresh : (S.note k).FreshWith 0)
    (hparent : ∀ p ∈ (S.pNotePool.fromID parentNoteID).index, p ∉ lists .freelist ∧ p ≠ k) :
    S.linkParent k newNoteID parentNoteID = none ∨
      ∃ S', S.linkParent k newNoteID parentNoteID = some S' ∧ Inv size S' lists ∧
        S'.pNotePool = S.pNotePool ∧ (S'.note k).FreshWith parentNoteID := by
  unfold NoteEngine.linkParent
  by_cases hp0 : parentNoteID = 0
  · subst hp0
    exact .inr ⟨S, if_pos rfl, h, rfl, hfresh⟩
  · rw [if_neg hp0]
    cases hp : (S.pNotePool.fromID parentNoteID).index with
    | none => exact .inl rfl
    | some p =>
        rcases hparent p hp with ⟨hpfree, hpk⟩
        dsimp only
        by_cases hids : S.noteIDPool = 0
        · exact .inl (if_pos hids)
        · rw [if_neg hids]
          refine .inr ⟨_, rfl, ?_, rfl, ?_⟩
          · exact ((h.setIDs _).setUsed hpfree _).setUsed hk _
          · rw [setNote_self, setNote_of_ne _ (Ne.symm hpk)]
            exact ⟨hfresh.override, hfresh.format, hfresh.userPar, hfresh.pChildNotes,
              hfresh.pActiveVoices, rfl⟩

/-- A launched note goes to the list of its key, and is found by its ID. -/
theorem Inv.moveLaunched (h : Inv size S lists) (hsize : size < 2 ^ 31)
    (hk : k ∈ lists (.rtlist .pool)) {it : Iterator (NoteList C)} (hit : it.index = some k)
    {parent : ℕ} (hfresh : (S.note k).FreshWith parent) (c : C) (eventID : ℕ) :
    ∃ lists', Inv size (S.moveLaunched c it k eventID) lists' ∧
      ((S.moveLaunched c it k eventID).pNotePool.fromID (S.pNotePool.getID k)).index = some k ∧
      ((S.moveLaunched c it k eventID).note k).FreshWith parent := by
  have hnot : k ∉ lists .freelist := h.pool.disjoint hk (by simp)
  have hset := h.setUsed hnot { S.note k with eventID := eventID }
  have hpool := hset.pool.moveToEndOf hit hk
    (.activeNotes c ((S.setNote k { S.note k with eventID := eventID }).note k).hostKey)
  refine ⟨_, ⟨hpool, ?_⟩, hpool.fromID_getID hsize (h.pool.lt hk), ?_⟩
  · intro j hj
    rcases (Lists.mem_moveTo (h.pool.nodup _)).mp hj with ⟨-, hj⟩ | ⟨hlist, -⟩
    · exact hset.fresh j hj
    · cases hlist
  · unfold NoteEngine.moveLaunched
    rw [setNote_self]
    exact hfresh.of_eq rfl rfl rfl rfl rfl rfl

/-- A note is launched fresh, or no note is launched. -/
theorem Inv.launch (h : Inv size S lists) (hsize : size < 2 ^ 31) (c : C) {e : NoteOnEvent}
    (hparent : S.InUseByID e.parentNoteID) :
    ∃ lists', Inv size (S.launchNewNote c e).1 lists' ∧
      ((S.launchNewNote c e).2 ≠ 0 →
        ∃ k, ((S.launchNewNote c e).1.pNotePool.fromID (S.launchNewNote c e).2).index = some k ∧
          ((S.launchNewNote c e).1.note k).FreshWith e.parentNoteID) := by
  unfold launchNewNote
  split
  · exact ⟨lists, h, fun hid => absurd rfl hid⟩
  · dsimp only
    rcases h.pool.allocAppend .pool with ⟨hindex, hpool, -⟩ | ⟨k, hindex, hfree, hP⟩
    · rw [hindex]
      dsimp only
      rw [hpool]
      exact ⟨lists, h, fun hid => absurd rfl hid⟩
    · rw [hindex]
      dsimp only
      have hmem : k ∈ lists.moveTo (.rtlist .pool) k (.rtlist .pool) :=
        (Lists.mem_moveTo (h.pool.nodup _)).mpr (.inr ⟨rfl, rfl⟩)
      have hnot : k ∉ lists.moveTo (.rtlist .pool) k .freelist :=
        hP.disjoint hmem (by simp)
      have hfresh : EngineNote.FreshWith 0 { S.note k with hostKey := e.key } :=
        (h.fresh k hfree).of_eq rfl rfl rfl rfl rfl rfl
      have htaken := (h.takeNote hP).setUsed hnot { S.note k with hostKey := e.key }
      set T := NoteEngine.setNote { S with pNotePool := (S.pNotePool.allocAppend .pool).1 } k
        { S.note k with hostKey := e.key } with hT
      have hself : T.note k = { S.note k with hostKey := e.key } := setNote_self ..
      rw [← hself] at hfresh
      have hfound : ∀ p ∈ (T.pNotePool.fromID e.parentNoteID).index,
          p ∉ lists.moveTo (.rtlist .pool) k .freelist ∧ p ≠ k := by
        intro p hp
        have hp' : p ∈ (S.pNotePool.fromID e.parentNoteID).index := by
          rwa [← h.pool.fromID_allocAppend .pool]
        have hpfree := h.notMem_freelist (hparent p hp')
        constructor
        · intro hpmem
          rcases (Lists.mem_moveTo (h.pool.nodup _)).mp hpmem with ⟨-, hpmem⟩ | ⟨hlist, -⟩
          · exact hpfree hpmem
          · cases hlist
        · intro hpk
          subst hpk
          exact hpfree hfree
      rcases htaken.linkParent ((S.pNotePool.allocAppend .pool).1.getID k) hnot hfresh hfound with
        hnone | ⟨T', hsome, hlinked, hpool, hparentFresh⟩
      · rw [hnone]
        exact ⟨_, htaken.freeNote (htaken.pool.lt hmem) hfresh, fun hid => absurd rfl hid⟩
      · rw [hsome]
        rcases hlinked.moveLaunched hsize hmem hindex hparentFresh c
          (T'.pEventPool.getID e.index) with ⟨lists', hmoved, hid, hlaunched⟩
        rw [hpool] at hid
        exact ⟨lists', hmoved, fun _ => ⟨k, hid, hlaunched⟩⟩

/-! ## Releasing -/

theorem Inv.freeIfInactive (h : Inv size S lists) (hk : k < size) :
    ∃ lists', Inv size (S.freeIfInactive k) lists' := by
  unfold NoteEngine.freeIfInactive
  split_ifs
  · exact ⟨_, (h.resetNote k).freeNote hk (resetNote_fresh S k)⟩
  · exact ⟨lists, h⟩

theorem Inv.freeInactive (h : Inv size S lists) {notes : List ℕ} (hnotes : ∀ k ∈ notes, k < size) :
    ∃ lists', Inv size (notes.foldl NoteEngine.freeIfInactive S) lists' := by
  induction notes generalizing S lists with
  | nil => exact ⟨lists, h⟩
  | cons k notes ih =>
      rcases h.freeIfInactive (hnotes k List.mem_cons_self) with ⟨lists', h'⟩
      exact ih h' fun j hj => hnotes j (List.mem_cons_of_mem _ hj)

omit [DecidableEq C] in
theorem Inv.activeNotes_eq (h : Inv size S lists) (c : C) (key : ℕ) :
    S.activeNotes c key = lists (.rtlist (.activeNotes c key)) :=
  congrFun h.pool.holds.elements_eq _

theorem Inv.freeAllInactiveKeys (h : Inv size S lists) (c : C) (pActiveKeys : List ℕ) :
    ∃ lists', Inv size (S.freeAllInactiveKeys c pActiveKeys) lists' := by
  unfold NoteEngine.freeAllInactiveKeys
  induction pActiveKeys generalizing S lists with
  | nil => exact ⟨lists, h⟩
  | cons key pActiveKeys ih =>
      have hlt : ∀ k ∈ S.activeNotes c key, k < size := by
        intro k hk
        rw [h.activeNotes_eq] at hk
        exact h.pool.lt hk
      rcases h.freeInactive hlt with ⟨lists', h'⟩
      exact ih h'

omit [DecidableEq C] in
/-- Resetting notes leaves the pool alone, and the reset ones are fresh. -/
theorem Inv.resetNotes (h : Inv size S lists) (notes : List ℕ) :
    Inv size (notes.foldl NoteEngine.resetNote S) lists ∧
      ∀ k, k ∈ notes ∨ (S.note k).FreshWith 0 →
        ((notes.foldl NoteEngine.resetNote S).note k).FreshWith 0 := by
  induction notes generalizing S with
  | nil => exact ⟨h, fun k hk => hk.resolve_left List.not_mem_nil⟩
  | cons j notes ih =>
      rcases ih (h.resetNote j) with ⟨hInv, hfresh⟩
      refine ⟨hInv, ?_⟩
      intro k hk
      apply hfresh
      by_cases hkj : k = j
      · subst hkj
        exact .inr (resetNote_fresh S k)
      · rcases hk with hk | hk
        · exact .inl (List.mem_of_ne_of_mem hkj hk)
        · refine .inr ?_
          unfold NoteEngine.resetNote
          rw [setNote_of_ne _ hkj]
          exact hk

theorem Inv.resetKey (h : Inv size S lists) (c : C) (key : ℕ) :
    ∃ S' lists', S.resetKey c key = some S' ∧ Inv size S' lists' := by
  rcases h.resetNotes (S.activeNotes c key) with ⟨hInv, hfresh⟩
  rcases hInv.pool.clear (.activeNotes c key) with ⟨P', hclear, hP'⟩
  refine ⟨{ (S.activeNotes c key).foldl NoteEngine.resetNote S with pNotePool := P' }, _, ?_,
    hP', ?_⟩
  · unfold NoteEngine.resetKey
    dsimp only
    rw [hclear]
    rfl
  · intro k hk
    rcases Lists.mem_putLast.mp hk with hk | ⟨-, hk⟩
    · exact hInv.fresh k (Lists.mem_empty.mp hk).1
    · rw [← h.activeNotes_eq] at hk
      exact hfresh k (.inl hk)

theorem Inv.resetKeys (h : Inv size S lists) (c : C) :
    ∃ S' lists', S.resetKeys c = some S' ∧ Inv size S' lists' := by
  unfold NoteEngine.resetKeys
  generalize List.range 128 = keys
  induction keys generalizing S lists with
  | nil => exact ⟨S, lists, rfl, h⟩
  | cons key keys ih =>
      rcases h.resetKey c key with ⟨S₁, lists₁, hS₁, h₁⟩
      rcases ih h₁ with ⟨S', lists', hS', h'⟩
      refine ⟨S', lists', ?_, h'⟩
      rw [List.foldlM_cons, hS₁]
      exact hS'

theorem Inv.resetChannels (h : Inv size S lists) (engineChannels : List C) :
    ∃ S' lists', engineChannels.foldlM NoteEngine.resetKeys S = some S' ∧ Inv size S' lists' := by
  induction engineChannels generalizing S lists with
  | nil => exact ⟨S, lists, rfl, h⟩
  | cons c engineChannels ih =>
      rcases h.resetKeys c with ⟨S₁, lists₁, hS₁, h₁⟩
      rcases ih h₁ with ⟨S', lists', hS', h'⟩
      refine ⟨S', lists', ?_, h'⟩
      rw [List.foldlM_cons, hS₁]
      exact hS'

/-- The loop takes every free note; those it has taken are fresh. -/
theorem resetFree_spec {fuel : ℕ} (h : Pool.InUse size 1 S.pNotePool lists)
    (hfuel : (lists .freelist).length < fuel)
    (hfresh : ∀ k ∈ lists (.rtlist .pool), (S.note k).FreshWith 0) :
    ∃ S' lists', resetFree fuel S = some S' ∧ Pool.InUse size 1 S'.pNotePool lists' ∧
      lists' .freelist = [] ∧ ∀ k ∈ lists' (.rtlist .pool), (S'.note k).FreshWith 0 := by
  induction fuel generalizing S lists with
  | zero => exact absurd hfuel (Nat.not_lt_zero _)
  | succ fuel ih =>
      unfold resetFree
      dsimp only
      rcases h.allocAppend .pool with ⟨hindex, hpool, hnil⟩ | ⟨k, hindex, hfree, hP⟩
      · rw [hindex]
        dsimp only
        refine ⟨_, lists, rfl, ?_, hnil, hfresh⟩
        rwa [hpool]
      · rw [hindex]
        dsimp only
        refine ih (S := NoteEngine.resetNote
          { S with pNotePool := (S.pNotePool.allocAppend .pool).1 } k) hP ?_ ?_
        · have hrest : lists.moveTo (.rtlist .pool) k .freelist = (lists .freelist).erase k := by
            rw [Lists.moveTo, Lists.putLast, Function.update_of_ne (by simp)]
            rfl
          have hlen := List.length_erase_of_mem hfree
          have hpos := List.length_pos_of_mem hfree
          rw [hrest]
          omega
        · intro j hj
          by_cases hjk : j = k
          · subst hjk
            exact resetNote_fresh ..
          · unfold NoteEngine.resetNote
            rw [setNote_of_ne _ hjk]
            rcases (Lists.mem_moveTo (h.nodup _)).mp hj with ⟨-, hj⟩ | ⟨-, hjk'⟩
            · exact hfresh j hj
            · exact absurd hjk' hjk

/-- The reset does not depend on what the notes were like. -/
theorem resetInternal_spec (h : Pool.InUse size 1 S.pNotePool lists) (engineChannels : List C) :
    ∃ S' lists', S.resetInternal engineChannels = some S' ∧ Inv size S' lists' := by
  rcases h.clear .pool with ⟨P₁, hclear₁, h₁⟩
  have hlen := h₁.holds.length_le .freelist
  have hnone : ∀ k ∈ ((lists.empty (.rtlist .pool)).putLast .freelist (lists (.rtlist .pool)))
      (.rtlist .pool), (S.note k).FreshWith 0 := by
    intro k hk
    rcases Lists.mem_putLast.mp hk with hk | ⟨hlist, -⟩
    · exact absurd rfl (Lists.mem_empty.mp hk).2
    · cases hlist
  rcases resetFree_spec (S := { S with pNotePool := P₁ }) h₁ (Nat.lt_succ_of_le hlen) hnone with
    ⟨S₂, lists₂, hloop, h₂, hnil, hfresh⟩
  rcases h₂.clear .pool with ⟨P₃, hclear₃, h₃⟩
  have hInv : ∃ lists₃, Inv size { S₂ with pNotePool := P₃ } lists₃ := by
    refine ⟨_, h₃, ?_⟩
    intro k hk
    rcases Lists.mem_putLast.mp hk with hk | ⟨-, hk⟩
    · have hk := (Lists.mem_empty.mp hk).1
      rw [hnil] at hk
      cases hk
    · exact hfresh k hk
  rcases hInv with ⟨lists₃, hInv⟩
  rcases hInv.resetChannels engineChannels with ⟨S', lists', hS', h'⟩
  refine ⟨S', lists', ?_, h'⟩
  unfold resetInternal
  simp only [hclear₁, hloop, hclear₃, Option.bind_eq_bind, Option.bind_some]
  exact hS'

/-! ## Runs -/

/-- A note that was not changed is dropped. -/
theorem Inv.ignoreNote (h : Inv size S lists) {id : ℕ}
    (hignored : ∀ k ∈ S.ignored id, (S.note k).FreshWith 0) :
    ∃ lists', Inv size (S.ignoreNote id) lists' := by
  unfold NoteEngine.ignored at hignored
  unfold NoteEngine.ignoreNote
  cases hk : (S.pNotePool.fromID id).index with
  | none => exact ⟨lists, h⟩
  | some k =>
      rw [hk] at hignored
      dsimp only
      by_cases hvoices : (S.note k).pActiveVoices ≠ []
      · rw [if_pos hvoices]
        exact ⟨lists, h⟩
      · rw [if_neg hvoices]
        by_cases hdata : (S.pEventPool.fromID (S.note k).eventID).hasData
        · rw [if_pos hdata]
          have hfresh : (S.note k).FreshWith 0 := by
            apply hignored
            simp [hvoices, hdata]
          exact ⟨_, (h.freeNote (h.pool.fromID_lt hk) hfresh).setEvents _⟩
        · rw [if_neg hdata]
          exact ⟨lists, h⟩

omit [DecidableEq C] in
theorem Inv.change (h : Inv size S lists) {id : ℕ} (hid : S.InUseByID id) (value : NoteChange F) :
    Inv size (S.change id value) lists := by
  unfold NoteEngine.change
  cases hk : (S.pNotePool.fromID id).index with
  | none => exact h
  | some k =>
      have hused := h.notMem_freelist (hid k hk)
      cases value with
      | override value => exact h.setUsed hused _
      | format value => exact h.setUsed hused _
      | userPar index value => exact h.setUsed hused _

omit [DecidableEq C] in
theorem Inv.addVoice (h : Inv size S lists) {id : ℕ} (hid : S.InUseByID id) (voice : ℕ) :
    Inv size (S.addVoice id voice) lists := by
  unfold NoteEngine.addVoice
  cases hk : (S.pNotePool.fromID id).index with
  | none => exact h
  | some k => exact h.setUsed (h.notMem_freelist (hid k hk)) _

omit [DecidableEq C] in
theorem Inv.freeVoice (h : Inv size S lists) (k voice : ℕ) :
    Inv size (S.freeVoice k voice) lists := by
  apply h.setNote
  intro hk
  have hfresh := h.fresh k hk
  refine ⟨hfresh.override, hfresh.format, hfresh.userPar, hfresh.pChildNotes, ?_,
    hfresh.parentNoteID⟩
  dsimp only
  rw [hfresh.pActiveVoices]
  rfl

theorem Inv.step (h : Inv size S lists) (hsize : size < 2 ^ 31) {a : NoteAction C F}
    (hspares : a.Spares S) : ∃ S' lists', S.step a = some S' ∧ Inv size S' lists' := by
  cases a with
  | launchNewNote c itNoteOnEvent =>
      rcases h.launch hsize c hspares with ⟨lists', h', -⟩
      exact ⟨_, lists', rfl, h'⟩
  | change id value => exact ⟨_, lists, rfl, h.change hspares value⟩
  | addVoice id voice => exact ⟨_, lists, rfl, h.addVoice hspares voice⟩
  | freeVoice k voice => exact ⟨_, lists, rfl, h.freeVoice k voice⟩
  | ignoreNote id =>
      rcases h.ignoreNote hspares with ⟨lists', h'⟩
      exact ⟨_, lists', rfl, h'⟩
  | freeAllInactiveKeys c pActiveKeys =>
      rcases h.freeAllInactiveKeys c pActiveKeys with ⟨lists', h'⟩
      exact ⟨_, lists', rfl, h'⟩
  | resetKeys c => exact h.resetKeys c
  | resetInternal engineChannels => exact resetInternal_spec h.pool engineChannels
  | writeEvents pEventPool => exact ⟨_, lists, rfl, h.setEvents pEventPool⟩

theorem Created.inv (h : Created size S) : ∃ lists, Inv size S lists := by
  have hpool := Pool.create_inUse (ι := NoteList C) size 1
  rw [← h.pool] at hpool
  exact ⟨_, hpool, fun k _ => ⟨h.override k, h.format k, h.userPar k, h.pChildNotes k,
    h.pActiveVoices k, h.parentNoteID k⟩⟩

/-- Every step of the run spares the notes that are not in use. -/
def RunSpares : List (NoteAction C F) → NoteEngine C F → Prop
  | [], _ => True
  | a :: actions, S => a.Spares S ∧ ∀ S' ∈ S.step a, RunSpares actions S'

theorem Inv.run (h : Inv size S lists) (hsize : size < 2 ^ 31) {actions : List (NoteAction C F)}
    (hspares : RunSpares actions S) : ∃ S' lists', run actions S = some S' ∧ Inv size S' lists' := by
  induction actions generalizing S lists with
  | nil => exact ⟨S, lists, rfl, h⟩
  | cons a actions ih =>
      rcases hspares with ⟨hspare, hrest⟩
      rcases h.step hsize hspare with ⟨S₁, lists₁, hstep, h₁⟩
      rcases ih h₁ (hrest S₁ hstep) with ⟨S', lists', hrun, h'⟩
      refine ⟨S', lists', ?_, h'⟩
      rw [NoteEngine.run, List.foldlM_cons, hstep]
      exact hrun

/-- A note that is launched is found by its ID, and is as new but for the parent
that was asked for. -/
def LaunchesFresh (S : NoteEngine C F) (c : C) (itNoteOnEvent : NoteOnEvent) : Prop :=
  (S.launchNewNote c itNoteOnEvent).2 ≠ 0 →
    ∃ k, ((S.launchNewNote c itNoteOnEvent).1.pNotePool.fromID
        (S.launchNewNote c itNoteOnEvent).2).index = some k ∧
      ((S.launchNewNote c itNoteOnEvent).1.note k).FreshWith itNoteOnEvent.parentNoteID

/-- Over runs: a note that is launched has nothing left of the notes that had its place before. The
condition is on each launch and on the state before it. -/
theorem launchesFresh_run {S₀ : NoteEngine C F} {actions : List (NoteAction C F)}
    (hsize : size < 2 ^ 31) (hcreated : Created size S₀) (hspares : RunSpares actions S₀) :
    ∃ S, run actions S₀ = some S ∧ ∀ c e,
      (NoteAction.launchNewNote c e).Spares S → S.LaunchesFresh c e := by
  rcases hcreated.inv with ⟨lists, hInv⟩
  rcases hInv.run hsize hspares with ⟨S, lists', hrun, h⟩
  refine ⟨S, hrun, ?_⟩
  intro c e hparent
  rcases h.launch hsize c hparent with ⟨-, -, hfresh⟩
  exact hfresh

/-! ## Engines to run -/

instance decidableInUseByID (S : NoteEngine C F) (id : ℕ) : Decidable (S.InUseByID id) :=
  inferInstanceAs (Decidable (∀ k ∈ (S.pNotePool.fromID id).index,
    k ∉ S.pNotePool.elements .freelist))

instance decidableSpares [DecidableEq F] (S : NoteEngine C F) :
    (a : NoteAction C F) → Decidable (a.Spares S)
  | .launchNewNote _ e => inferInstanceAs (Decidable (S.InUseByID e.parentNoteID))
  | .change id _ | .addVoice id _ => inferInstanceAs (Decidable (S.InUseByID id))
  | .ignoreNote id =>
      inferInstanceAs (Decidable (∀ k ∈ S.ignored id, (S.note k).FreshWith 0))
  | .freeVoice .. | .freeAllInactiveKeys .. | .resetKeys _ | .resetInternal _
  | .writeEvents _ => isTrue trivial

instance decidableRunSpares [DecidableEq F] :
    (actions : List (NoteAction C F)) → (S : NoteEngine C F) → Decidable (RunSpares actions S)
  | [], _ => isTrue trivial
  | a :: actions, S =>
      haveI (S' : NoteEngine C F) := decidableRunSpares actions S'
      inferInstanceAs (Decidable (a.Spares S ∧ ∀ S' ∈ S.step a, RunSpares actions S'))

instance : NoteFloat ℚ := ⟨1, 0, 13 / 1000⟩

/-- An engine with one channel and two notes. -/
def freshNotes : NoteEngine Unit ℚ where
  pEventPool := .create _ 2 1
  pNotePool := .create _ 2 1
  note _ := ⟨0, 0, [], 0, .init, .init, 0, []⟩
  noteIDPool := 2

theorem freshNotes_created : freshNotes.Created 2 where
  pool := rfl
  override _ := rfl
  format _ := rfl
  userPar _ := rfl
  pChildNotes _ := rfl
  pActiveVoices _ := rfl
  parentNoteID _ := rfl

/-- A script changes the sample offset of the first note. -/
def changeOffset : List (NoteAction Unit ℚ) :=
  [.launchNewNote () ⟨0, 60, 0⟩,
    .change 2 (.override { NoteBase.Override.init with sampleOffset := 5 })]

theorem launchesFresh_run_changeOffset :
    RunSpares (changeOffset ++ [.freeAllInactiveKeys () [60]]) freshNotes ∧
      ∃ S, run (changeOffset ++ [.freeAllInactiveKeys () [60]]) freshNotes = some S ∧
        ∀ c e, (NoteAction.launchNewNote c e).Spares S → S.LaunchesFresh c e := by
  have hspares : RunSpares (changeOffset ++ [.freeAllInactiveKeys () [60]]) freshNotes := by
    decide +kernel
  exact ⟨hspares, launchesFresh_run (by decide) freshNotes_created hspares⟩

/-- The script ignores the note that it has changed. -/
theorem not_launchesFresh_run : ¬ ∀ actions : List (NoteAction Unit ℚ), ∃ S,
    run actions freshNotes = some S ∧ ∀ c e, S.LaunchesFresh c e := by
  intro h
  rcases h (changeOffset ++ [.ignoreNote 2]) with ⟨S, hrun, hlaunch⟩
  have hstate : ∀ S ∈ run (changeOffset ++ [.ignoreNote 2]) freshNotes,
      (S.launchNewNote () ⟨0, 60, 0⟩).2 ≠ 0 ∧
        ∀ k ∈ ((S.launchNewNote () ⟨0, 60, 0⟩).1.pNotePool.fromID
          (S.launchNewNote () ⟨0, 60, 0⟩).2).index,
          ¬ ((S.launchNewNote () ⟨0, 60, 0⟩).1.note k).FreshWith 0 := by
    decide +kernel
  rcases hstate S hrun with ⟨hid, hstale⟩
  rcases hlaunch () ⟨0, 60, 0⟩ hid with ⟨k, hk, hfresh⟩
  exact hstale k hk hfresh

end NoteEngine

end LinuxSampler
