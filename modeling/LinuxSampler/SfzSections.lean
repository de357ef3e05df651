import LinuxSampler.SfzDefinition

/-!
# Sections of sfz files

`push_header()` and `push_opcode()` of `engines/sfz/sfz.cpp` for the
headers `<global>`, `<master>`, `<group>` and `<region>` and the opcodes
that are assigned a single value. The loader has a stack of containers, a
new container or region starts as a copy of the container on top, and an
opcode assigns to what has been opened last.

`Outline` says what the sections mean: every section keeps what has been
assigned in it, a header ends the sections of its own and of lower levels,
and a region has what its sections have, the innermost first. The loader
computes that for every value but one (`regions_run`): instead of
`xfin_hivel`, a region inherits the value of `xfin_lovel`.
-/

namespace LinuxSampler

namespace Sfz

/-- `ContainerDefinition::section_type`, from the lowest level to the highest one. -/
inductive SectionType where
  | group
  | master
  | global
  deriving DecidableEq

def SectionType.level : SectionType → Nat
  | .group => 0
  | .master => 1
  | .global => 2

/-- Opcodes that are assigned one value: those named after a place, and `key`. -/
inductive Opcode where
  | place (p : Place)
  | key

/-- What is read from a file; a value is what the text of the opcode stands for. -/
inductive Token where
  | container (type : SectionType)
  | region
  | opcode (o : Opcode) (v : Value)

/-- What an opcode assigns to the current definition. -/
def assignments : Opcode → Value → List (Place × Value)
  | .key, v => [(.single .lokey, v), (.single .hikey, v), (.single .pitchKeycenter, v)]
  | .place p, v =>
      if p = .single .count then [(p, v), (.single .loopMode, .enumerator .oneShot)] else [(p, v)]

def assign {V : Type} (d : Place → V) (inject : Value → V) (as : List (Place × Value)) : Place → V :=
  as.foldl (fun d a => Function.update d a.1 (inject a.2)) d

/-! ## Loader -/

structure ContainerDefinition where
  type : SectionType
  definition : Definition

/-- Containers, the top of the stack first; regions, the newest first; and whether
`pCurDef` is the newest region or the container on top. -/
structure File where
  containers : List ContainerDefinition := [⟨.global, defaults⟩]
  regions : List Definition := []
  inRegion : Bool := false

namespace File

/-- The containers that a new one leaves on the stack. -/
def popped (type : SectionType) (containers : List ContainerDefinition) :
    List ContainerDefinition :=
  containers.dropWhile fun c => c.type.level ≤ type.level

def pushContainer (f : File) (type : SectionType) : File :=
  let left := popped type f.containers
  let definition :=
    match left with
    | [] => defaults
    | top :: _ => copyValuesToDefinition top.definition defaults
  { f with containers := ⟨type, definition⟩ :: left, inRegion := false }

/-- The values that a region has before anything is copied to it are not initialized. -/
def pushRegion (f : File) (uninitialized : Definition) : File :=
  match f.containers with
  | [] => f
  | top :: _ =>
      { f with
        regions := copyValuesToDefinition top.definition uninitialized :: f.regions
        inRegion := true }

def pushOpcode (f : File) (o : Opcode) (v : Value) : File :=
  if f.inRegion then
    match f.regions with
    | [] => f
    | r :: rs => { f with regions := assign r id (assignments o v) :: rs }
  else
    match f.containers with
    | [] => f
    | c :: cs =>
        { f with containers := ⟨c.type, assign c.definition id (assignments o v)⟩ :: cs }

def push (uninitialized : Definition) (f : File) : Token → File
  | .container type => f.pushContainer type
  | .region => f.pushRegion uninitialized
  | .opcode o v => f.pushOpcode o v

def run (uninitialized : Definition) (ts : List Token) : File :=
  ts.foldl (push uninitialized) {}

end File

/-! ## Meaning -/

/-- What has been assigned in a section. -/
abbrev Section := Place → Option Value

def noAssignments : Section := fun _ => none

/-- What a region is made of: what has been assigned in it and, before it was opened, in
the sections around it. -/
structure Heritage where
  region : Section
  group : Section
  master : Section
  global : Section

namespace Heritage

/-- What the sections around the region give. -/
def inherited (h : Heritage) (p : Place) : Value :=
  ((h.group p).orElse fun _ => (h.master p).orElse fun _ => h.global p).getD (defaults p)

def value (h : Heritage) (p : Place) : Value := (h.region p).getD (h.inherited p)

end Heritage

/-- The current sections and the regions, the newest first; `current` is the container
that is assigned to, or `none` for the newest region. -/
structure Outline where
  sections : SectionType → Section := fun _ => noAssignments
  regions : List Heritage := []
  current : Option SectionType := some .global

namespace Outline

def push (o : Outline) : Token → Outline
  | .container type =>
      { o with
        sections := fun t => if t.level ≤ type.level then noAssignments else o.sections t
        current := some type }
  | .region =>
      { o with
        regions :=
          ⟨noAssignments, o.sections .group, o.sections .master, o.sections .global⟩ :: o.regions
        current := none }
  | .opcode op v =>
      match o.current, o.regions with
      | some type, _ =>
          { o with
            sections := Function.update o.sections type
              (assign (o.sections type) some (assignments op v)) }
      | none, r :: rs =>
          { o with regions := { r with region := assign r.region some (assignments op v) } :: rs }
      | none, [] => o

def run (ts : List Token) : Outline := ts.foldl push {}

end Outline

/-! ## What the loader computes -/

/-- What the loader makes of a region. -/
def Heritage.loaded (h : Heritage) (p : Place) : Value :=
  (h.region p).getD (h.inherited (copySource p))

theorem assign_some {as : List (Place × Value)} {p : Place} {x : Value} {s : Section}
    {d : Definition} (h : d p = (s p).getD x) :
    assign d id as p = (assign s some as p).getD x := by
  induction as generalizing s d with
  | nil => exact h
  | cons a as ih =>
      refine ih ?_
      show Function.update d a.1 a.2 p = (Function.update s a.1 (some a.2) p).getD x
      by_cases hp : p = a.1
      · rw [hp, Function.update_self, Function.update_self]
        rfl
      · rw [Function.update_of_ne hp, Function.update_of_ne hp]
        exact h

theorem getD_orElse (a b : Option Value) (x : Value) :
    (a.orElse fun _ => b).getD x = a.getD (b.getD x) := by
  cases a with
  | none => rfl
  | some v => rfl

/-- What the sections above a level give. -/
def above (sections : SectionType → Section) (type : SectionType) (p : Place) : Option Value :=
  match type with
  | .group => (sections .master p).orElse fun _ => sections .global p
  | .master => sections .global p
  | .global => none

/-- What the sections from a level on give. -/
def outer (sections : SectionType → Section) (type : SectionType) (p : Place) : Option Value :=
  (sections type p).orElse fun _ => above sections type p

theorem above_congr {sections sections' : SectionType → Section} {type : SectionType}
    (h : ∀ t, type.level < t.level → sections' t = sections t) (p : Place) :
    above sections' type p = above sections type p := by
  cases type with
  | group =>
      show ((sections' .master p).orElse fun _ => sections' .global p) = _
      rw [h .master (by decide), h .global (by decide)]
      rfl
  | master =>
      show sections' .global p = _
      rw [h .global (by decide)]
      rfl
  | global => rfl

theorem outer_congr {sections sections' : SectionType → Section} {type : SectionType}
    (h : ∀ t, type.level ≤ t.level → sections' t = sections t) (p : Place) :
    outer sections' type p = outer sections type p := by
  rw [outer, outer, h type (Nat.le_refl _), above_congr fun t ht => h t (Nat.le_of_lt ht)]

/-- Sections without assignments give nothing. -/
theorem above_eq_outer {sections : SectionType → Section} {type type' : SectionType}
    (hlt : type.level < type'.level)
    (h : ∀ t, type.level < t.level → t.level < type'.level → sections t = noAssignments)
    (p : Place) : above sections type p = outer sections type' p := by
  cases type with
  | group =>
      cases type' with
      | group => exact absurd hlt (by decide)
      | master => rfl
      | global =>
          rw [above, outer, h .master (by decide) (by decide)]
          cases hglobal : sections .global p with
          | none => rfl
          | some v => rfl
  | master =>
      cases type' with
      | group => exact absurd hlt (by decide)
      | master => exact absurd hlt (by decide)
      | global =>
          rw [above, outer]
          cases hglobal : sections .global p with
          | none => rfl
          | some v => rfl
  | global =>
      cases type' with
      | group => exact absurd hlt (by decide)
      | master => exact absurd hlt (by decide)
      | global => exact absurd hlt (by decide)

theorem above_eq_none {sections : SectionType → Section} {type : SectionType}
    (h : ∀ t, type.level < t.level → sections t = noAssignments) (p : Place) :
    above sections type p = none := by
  cases type with
  | group =>
      show ((sections .master p).orElse fun _ => sections .global p) = none
      rw [h .master (by decide), h .global (by decide)]
      rfl
  | master =>
      show sections .global p = none
      rw [h .global (by decide)]
      rfl
  | global => rfl

/-- From the lowest level that has assignments on, a section gives what the group gives. -/
theorem outer_group_eq {sections : SectionType → Section} {type : SectionType}
    (h : ∀ t, t.level < type.level → sections t = noAssignments) (p : Place) :
    outer sections .group p = outer sections type p := by
  cases type with
  | group => rfl
  | master =>
      have hlt : SectionType.group.level < SectionType.master.level := by decide
      rw [outer, h .group hlt]
      exact above_eq_outer hlt (fun t _ ht => h t ht) p
  | global =>
      have hlt : SectionType.group.level < SectionType.global.level := by decide
      rw [outer, h .group hlt]
      exact above_eq_outer hlt (fun t _ ht => h t ht) p

theorem copySource_ne (p : Place) : copySource p ≠ .single .xfinHivel := by
  unfold copySource
  split_ifs with hp
  · decide
  · exact hp

/-! ## The stack -/

def Sorted (containers : List ContainerDefinition) : Prop :=
  containers.Pairwise fun c d => c.type.level < d.type.level

/-- On a sorted stack the containers of higher levels are left. -/
theorem mem_popped {type : SectionType} {containers : List ContainerDefinition}
    (h : Sorted containers) {c : ContainerDefinition} :
    c ∈ File.popped type containers ↔ c ∈ containers ∧ type.level < c.type.level := by
  induction containers with
  | nil => simp [File.popped]
  | cons d containers ih =>
      obtain ⟨hd, hrest⟩ := List.pairwise_cons.mp h
      unfold File.popped at ih ⊢
      by_cases hle : d.type.level ≤ type.level
      · rw [List.dropWhile_cons_of_pos (by simpa using hle), ih hrest]
        constructor
        · rintro ⟨hc, hlt⟩
          exact ⟨List.mem_cons_of_mem d hc, hlt⟩
        · rintro ⟨hc, hlt⟩
          rcases List.mem_cons.mp hc with rfl | hc
          · exact absurd hle (Nat.not_le_of_lt hlt)
          · exact ⟨hc, hlt⟩
      · rw [List.dropWhile_cons_of_neg (by simpa using hle)]
        refine ⟨fun hc => ⟨hc, ?_⟩, fun hc => hc.1⟩
        rcases List.mem_cons.mp hc with rfl | hc
        · omega
        · have hlt := hd c hc
          omega

theorem Sorted.popped {type : SectionType} {containers : List ContainerDefinition}
    (h : Sorted containers) : Sorted (File.popped type containers) :=
  h.sublist (List.dropWhile_sublist _)

/-- The loader has read what the outline has read. -/
structure File.Refines (f : File) (o : Outline) : Prop where
  nonempty : f.containers ≠ []
  sorted : Sorted f.containers
  containers : ∀ c ∈ f.containers, ∀ p, p ≠ .single .xfinHivel →
    c.definition p = (outer o.sections c.type p).getD (defaults p)
  ended : ∀ type, (∀ c ∈ f.containers, c.type ≠ type) → o.sections type = noAssignments
  regions : f.regions = o.regions.map Heritage.loaded
  current : f.inRegion = true ∧ o.current = none ∧ f.regions ≠ [] ∨
    f.inRegion = false ∧ ∃ top rest, f.containers = top :: rest ∧ o.current = some top.type

theorem File.Refines.initial : File.Refines {} {} where
  nonempty := List.cons_ne_nil _ _
  sorted := List.pairwise_singleton _ _
  containers := by
    intro c hc p hp
    rw [List.mem_singleton.mp hc]
    rfl
  ended := fun _ _ => rfl
  regions := rfl
  current := .inr ⟨rfl, _, _, rfl, rfl⟩

/-- Below the container on top there are no sections. -/
theorem File.Refines.lower {f : File} {o : Outline} (h : f.Refines o)
    {top : ContainerDefinition} {rest : List ContainerDefinition}
    (htop : f.containers = top :: rest) (type : SectionType)
    (hlt : type.level < top.type.level) : o.sections type = noAssignments := by
  refine h.ended type fun c hc heq => ?_
  rw [htop] at hc
  have hsorted := h.sorted
  rw [htop] at hsorted
  rcases List.mem_cons.mp hc with rfl | hc
  · rw [heq] at hlt
    exact Nat.lt_irrefl _ hlt
  · have hup := (List.pairwise_cons.mp hsorted).1 c hc
    rw [heq] at hup
    exact Nat.lt_asymm hlt hup

theorem File.Refines.pushContainer {f : File} {o : Outline} (h : f.Refines o)
    (type : SectionType) : (f.pushContainer type).Refines (o.push (.container type)) := by
  have hmem : ∀ c, c ∈ popped type f.containers ↔
      c ∈ f.containers ∧ type.level < c.type.level := fun c => mem_popped h.sorted
  have hkept : ∀ t : SectionType, type.level < t.level →
      (o.push (.container type)).sections t = o.sections t :=
    fun t ht => if_neg (Nat.not_le_of_lt ht)
  have hcleared : ∀ t : SectionType, t.level ≤ type.level →
      (o.push (.container type)).sections t = noAssignments := fun t ht => if_pos ht
  refine ⟨List.cons_ne_nil _ _, ?_, ?_, ?_, h.regions, .inr ⟨rfl, _, _, rfl, rfl⟩⟩
  · exact List.pairwise_cons.mpr ⟨fun c hc => ((hmem c).mp hc).2, h.sorted.popped⟩
  · intro c hc p hp
    rcases List.mem_cons.mp hc with rfl | hc
    · -- the new container has what is left of the sections above
      have hnew : outer (o.push (.container type)).sections type p =
          above o.sections type p := by
        rw [outer, hcleared type (Nat.le_refl _), above_congr hkept]
        rfl
      have hended : ∀ t : SectionType, type.level < t.level →
          (∀ d ∈ popped type f.containers, d.type ≠ t) → o.sections t = noAssignments := by
        intro t ht hd
        refine h.ended t fun d hmemd heq => hd d ((hmem d).mpr ⟨hmemd, ?_⟩) heq
        rw [heq]
        exact ht
      rw [hnew]
      cases hleft : popped type f.containers with
      | nil =>
          rw [hleft] at hended
          rw [above_eq_none fun t ht => hended t ht fun d hd => nomatch hd]
          rfl
      | cons top rest =>
          have htop : top ∈ f.containers ∧ type.level < top.type.level :=
            (hmem top).mp (hleft ▸ List.mem_cons_self)
          have hsorted : Sorted (top :: rest) := hleft ▸ h.sorted.popped
          have hgap : ∀ t, type.level < t.level → t.level < top.type.level →
              o.sections t = noAssignments := by
            intro t ht hlt
            refine hended t ht fun d hd heq => ?_
            rw [hleft] at hd
            rcases List.mem_cons.mp hd with rfl | hd
            · rw [heq] at hlt
              exact Nat.lt_irrefl _ hlt
            · have hup := (List.pairwise_cons.mp hsorted).1 d hd
              rw [heq] at hup
              exact Nat.lt_asymm hlt hup
          rw [above_eq_outer htop.2 hgap, ← h.containers top htop.1 p hp]
          simp [copyValuesToDefinition_eq, copySource, hp]
    · have hup := ((hmem c).mp hc).2
      rw [h.containers c ((hmem c).mp hc).1 p hp,
        outer_congr fun t ht => hkept t (Nat.lt_of_lt_of_le hup ht)]
  · intro t ht
    by_cases hle : t.level ≤ type.level
    · exact hcleared t hle
    · rw [hkept t (Nat.lt_of_not_le hle)]
      refine h.ended t fun c hc heq => ht c ?_ heq
      refine List.mem_cons_of_mem _ ((hmem c).mpr ⟨hc, ?_⟩)
      rw [heq]
      exact Nat.lt_of_not_le hle

theorem File.Refines.pushRegion {f : File} {o : Outline} (h : f.Refines o)
    (uninitialized : Definition) : (f.pushRegion uninitialized).Refines (o.push .region) := by
  obtain ⟨top, rest, htop⟩ := List.exists_cons_of_ne_nil h.nonempty
  have hregion : copyValuesToDefinition top.definition uninitialized =
      Heritage.loaded ⟨noAssignments, o.sections .group, o.sections .master,
        o.sections .global⟩ := by
    funext p
    rw [copyValuesToDefinition_eq,
      h.containers top (htop ▸ List.mem_cons_self) _ (copySource_ne p),
      ← outer_group_eq (h.lower htop)]
    rfl
  have hf : f.pushRegion uninitialized =
      { f with
        regions := copyValuesToDefinition top.definition uninitialized :: f.regions
        inRegion := true } := by
    unfold File.pushRegion
    split
    · next hnil => exact absurd hnil h.nonempty
    · next top' rest' hcons =>
      rw [hcons] at htop
      rw [(List.cons.inj htop).1]
  rw [hf]
  refine ⟨h.nonempty, h.sorted, h.containers, h.ended, ?_, .inl ⟨rfl, rfl, List.cons_ne_nil _ _⟩⟩
  show _ :: f.regions = _ :: o.regions.map Heritage.loaded
  rw [hregion, h.regions]

theorem File.Refines.pushOpcode {f : File} {o : Outline} (h : f.Refines o) (op : Opcode)
    (v : Value) : (f.pushOpcode op v).Refines (o.push (.opcode op v)) := by
  rcases h.current with ⟨hin, hcurrent, hne⟩ | ⟨hin, top, rest, htop, hcurrent⟩
  · have hregions := h.regions
    cases hr : o.regions with
    | nil =>
        rw [hr] at hregions
        exact absurd hregions hne
    | cons r rs =>
        rw [hr] at hregions
        have hassign : assign r.loaded id (assignments op v) =
            Heritage.loaded { r with region := assign r.region some (assignments op v) } := by
          funext p
          exact assign_some rfl
        have hf : f.pushOpcode op v =
            { f with
              regions := assign r.loaded id (assignments op v) ::
                List.map Heritage.loaded rs } := by
          unfold File.pushOpcode
          rw [if_pos hin, hregions]
          rfl
        have ho : o.push (.opcode op v) =
            { o with regions :=
              { r with region := assign r.region some (assignments op v) } :: rs } := by
          unfold Outline.push
          dsimp only
          rw [hcurrent, hr]
        rw [hf, ho]
        refine ⟨h.nonempty, h.sorted, h.containers, h.ended, ?_,
          .inl ⟨hin, hcurrent, List.cons_ne_nil _ _⟩⟩
        show _ :: _ = _ :: _
        rw [hassign]
  · have hf : f.pushOpcode op v =
        { f with containers :=
          ⟨top.type, assign top.definition id (assignments op v)⟩ :: rest } := by
      unfold File.pushOpcode
      rw [if_neg (by rw [hin]; decide), htop]
    have ho : o.push (.opcode op v) =
        { o with
          sections := Function.update o.sections top.type
            (assign (o.sections top.type) some (assignments op v)) } := by
      unfold Outline.push
      dsimp only
      rw [hcurrent]
    have hsorted := h.sorted
    rw [htop] at hsorted
    obtain ⟨hup, -⟩ := List.pairwise_cons.mp hsorted
    rw [hf, ho]
    refine ⟨List.cons_ne_nil _ _, ?_, ?_, ?_, h.regions, .inr ⟨hin, _, _, rfl, hcurrent⟩⟩
    · exact List.pairwise_cons.mpr (List.pairwise_cons.mp hsorted)
    · intro c hc p hp
      have hkept : ∀ t : SectionType, top.type.level < t.level →
          Function.update o.sections top.type
            (assign (o.sections top.type) some (assignments op v)) t = o.sections t := by
        intro t ht
        refine Function.update_of_ne (fun heq => ?_) ..
        rw [heq] at ht
        exact Nat.lt_irrefl _ ht
      rcases List.mem_cons.mp hc with rfl | hc
      · have hold := h.containers top (htop ▸ List.mem_cons_self) p hp
        rw [outer, getD_orElse] at hold
        dsimp only
        rw [outer, getD_orElse, Function.update_self, above_congr hkept]
        exact assign_some hold
      · rw [h.containers c (htop ▸ List.mem_cons_of_mem top hc) p hp,
          outer_congr fun t ht => hkept t (Nat.lt_of_lt_of_le (hup c hc) ht)]
    · intro t ht
      have hne : t ≠ top.type := fun heq => ht _ List.mem_cons_self heq.symm
      dsimp only
      rw [Function.update_of_ne hne]
      refine h.ended t fun c hc heq => ?_
      rw [htop] at hc
      rcases List.mem_cons.mp hc with rfl | hc
      · exact hne heq.symm
      · exact ht c (List.mem_cons_of_mem _ hc) heq

theorem File.Refines.push {f : File} {o : Outline} (h : f.Refines o) (uninitialized : Definition)
    (t : Token) : (f.push uninitialized t).Refines (o.push t) := by
  cases t with
  | container type => exact h.pushContainer type
  | region => exact h.pushRegion uninitialized
  | opcode op v => exact h.pushOpcode op v

theorem File.refines_run (uninitialized : Definition) (ts : List Token) :
    (File.run uninitialized ts).Refines (Outline.run ts) := by
  suffices hall : ∀ (ts : List Token) (f : File) (o : Outline), f.Refines o →
      (ts.foldl (File.push uninitialized) f).Refines (ts.foldl Outline.push o) from
    hall ts {} {} .initial
  intro ts
  induction ts with
  | nil => exact fun f o h => h
  | cons t ts ih => exact fun f o h => ih _ _ (h.push uninitialized t)

/-- Every region has the values that its sections give, but for the one value that is
copied from another place. -/
theorem File.regions_run (uninitialized : Definition) (ts : List Token) :
    (File.run uninitialized ts).regions = (Outline.run ts).regions.map Heritage.loaded :=
  (File.refines_run uninitialized ts).regions

/-- The values of a region are those of its sections if it has an `xfin_hivel` of its own,
or if what it inherits for `xfin_lovel` is the same. -/
theorem Heritage.loaded_eq_value (h : Heritage) :
    h.loaded = h.value ↔ h.region (.single .xfinHivel) ≠ none ∨
      h.inherited (.single .xfinLovel) = h.inherited (.single .xfinHivel) := by
  constructor
  · intro heq
    have hplace : (h.region (.single .xfinHivel)).getD (h.inherited (.single .xfinLovel)) =
        (h.region (.single .xfinHivel)).getD (h.inherited (.single .xfinHivel)) :=
      congrFun heq (.single .xfinHivel)
    cases hown : h.region (.single .xfinHivel) with
    | none =>
        rw [hown] at hplace
        exact .inr hplace
    | some v => exact .inl (Option.some_ne_none v)
  · intro hcases
    funext p
    unfold Heritage.loaded Heritage.value copySource
    split_ifs with hp
    · rcases hcases with hown | hsame
      · obtain ⟨v, hv⟩ := Option.ne_none_iff_exists'.mp hown
        rw [hp, hv]
        rfl
      · rw [hp, hsame]
    · rfl

/-- The loader gives all regions of a file what the sections mean if and only if no region
inherits an `xfin_hivel` that differs from its `xfin_lovel`. -/
theorem File.inheritance_iff (uninitialized : Definition) (ts : List Token) :
    (File.run uninitialized ts).regions = (Outline.run ts).regions.map Heritage.value ↔
      ∀ h ∈ (Outline.run ts).regions, h.region (.single .xfinHivel) ≠ none ∨
        h.inherited (.single .xfinLovel) = h.inherited (.single .xfinHivel) := by
  rw [File.regions_run, List.map_inj_left]
  exact forall₂_congr fun h _ => h.loaded_eq_value

/-- `<group> xfin_hivel=20 <region>`: the region fades in over no velocities at all. -/
theorem File.not_inheritance :
    let ts : List Token :=
      [.container .group, .opcode (.place (.single .xfinHivel)) (.number 20), .region]
    (File.run defaults ts).regions ≠ (Outline.run ts).regions.map Heritage.value ∧
      (File.run defaults ts).regions.map (· (.single .xfinHivel)) = [.number 0] ∧
      (Outline.run ts).regions.map (·.value (.single .xfinHivel)) = [.number 20] := by
  intro ts
  have hloaded : (File.run defaults ts).regions.map (· (.single .xfinHivel)) = [.number 0] := rfl
  have hvalue : (Outline.run ts).regions.map (·.value (.single .xfinHivel)) = [.number 20] := rfl
  refine ⟨fun heq => ?_, hloaded, hvalue⟩
  rw [heq, List.map_map] at hloaded
  have hsame : [Value.number 20] = [.number 0] := hvalue.symm.trans hloaded
  exact absurd hsame (by decide)

end Sfz

end LinuxSampler
