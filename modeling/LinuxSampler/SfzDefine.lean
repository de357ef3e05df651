import LinuxSampler.SfzText

/-!
# Macros of sfz files

`#define` lines and macros in opcode values, in the words of
`parseFile()` and `push_opcode()`: by positions in strings, with `npos`
where a search fails.

The expansion is a search and replace loop on the value. It takes each `$`
of the original text with the name characters behind it, and never looks at
what it has put in (`expand_eq_expansion`).

A `#define` line without a name, and one with blanks but no value behind
the name, search for what they lack and pass `npos` to `substr()`, which
throws. A name with characters other than those of names is reported and
then defined; a value of nothing but a carriage return is defined as well.
All other lines do what they should (`run_right_iff`).
-/

namespace LinuxSampler

namespace Sfz

namespace Define

open Bytes

/-! ## Strings -/

/-- A position in a string; `none` is `npos`. -/
abbrev Position := Option ℕ

/-- `find_first_of()` and the like, from a position on. -/
def findFrom (p : UInt8 → Bool) (s : Bytes) (start : ℕ) : Position :=
  ((s.drop start).findIdx? p).map (start + ·)

theorem drop_length_takeWhile (q : UInt8 → Bool) (s : Bytes) :
    s.drop (s.takeWhile q).length = s.dropWhile q := by
  conv_lhs => rw [← List.takeWhile_append_dropWhile (p := q) (l := s), List.drop_append]
  simp

theorem take_length_takeWhile (q : UInt8 → Bool) (s : Bytes) :
    s.take (s.takeWhile q).length = s.takeWhile q :=
  List.prefix_iff_eq_take.mp (List.takeWhile_prefix q) |>.symm

theorem findIdx?_eq {p q : UInt8 → Bool} (h : ∀ c, p c = !q c) (s : Bytes) :
    s.findIdx? p = if s.dropWhile q = [] then none else some (s.takeWhile q).length := by
  induction s with
  | nil => rfl
  | cons c s ih =>
      rw [List.findIdx?_cons, ih, h]
      cases hc : q c with
      | true =>
          rw [List.dropWhile_cons_of_pos hc, List.takeWhile_cons_of_pos hc, Bool.not_true,
            if_neg Bool.false_ne_true]
          split <;> rfl
      | false =>
          have hneg : ¬ q c = true := by simp [hc]
          rw [List.dropWhile_cons_of_neg hneg, List.takeWhile_cons_of_neg hneg]
          simp

/-- A search stops behind the characters that are not looked for. -/
theorem findFrom_eq {p q : UInt8 → Bool} (h : ∀ c, p c = !q c) (s : Bytes) (start : ℕ) :
    findFrom p s start =
      if (s.drop start).dropWhile q = [] then none
      else some (start + ((s.drop start).takeWhile q).length) := by
  rw [findFrom, findIdx?_eq h]
  split <;> rfl

theorem findFrom_bounds {p : UInt8 → Bool} {s : Bytes} {start i : ℕ}
    (h : findFrom p s start = some i) : start ≤ i ∧ i < s.length := by
  obtain ⟨k, hk, rfl⟩ := Option.map_eq_some_iff.mp h
  obtain ⟨hlt, -⟩ := List.findIdx?_eq_some_iff_findIdx_eq.mp hk
  rw [List.length_drop] at hlt
  omega

/-- `position + 1`, which for `npos` is 0. -/
def Position.next : Position → ℕ
  | none => 0
  | some i => i + 1

/-- `substr(start, stop - start)`. A difference below 0 or from `npos` is longer than the string;
without a start, `substr()` throws. -/
def substr (s : Bytes) : Position → Position → Option Bytes
  | none, _ => none
  | some i, none => if i ≤ s.length then some (s.drop i) else none
  | some i, some j =>
      if i ≤ s.length then some (if i ≤ j then (s.drop i).take (j - i) else s.drop i) else none

/-! ## `#define` -/

def isBlank (c : UInt8) : Bool := c = 9 ∨ c = 32

/-- The characters of `MACRO_VALUE_CHARS`. -/
def isMacroValue (c : UInt8) : Bool :=
  isMacroName c ∨ c = 46 ∨ c = 32 ∨ c = 47 ∨ c = 92

def carriageReturn : UInt8 := 13

abbrev Macros := Bytes → Option Bytes

def withoutReturn (value : Bytes) : Bytes :=
  if value.getLast? = some carriageReturn then value.dropLast else value

/-- The checks of a name and its value. Characters that a name may not have are only reported. -/
def defineMacro (macros : Macros) (varname value : Bytes) : Macros :=
  if varname = [] ∨ value = [] then macros
  else
    let value := withoutReturn value
    if varname.head? ≠ some dollar then macros
    else if value.any (!isMacroValue ·) then macros
    else Function.update macros varname (some value)

/-- The branch of `parseFile()` for a line that begins with `#define`. -/
def defineLine (macros : Macros) (line : Bytes) : Option Macros := do
  let varnameStart := findFrom (!isBlank ·) line 7
  let varnameEnd := findFrom isBlank line varnameStart.next
  let valueStart := findFrom (!isBlank ·) line varnameEnd.next
  let varname ← substr line varnameStart varnameEnd
  let value ← substr line valueStart none
  return defineMacro macros varname value

/-- The macro loop of `push_opcode()`, from the position `start` on. An undefined macro ends it
without a value. -/
def expand (macros : Macros) (value : Bytes) (start : ℕ) : Option Bytes :=
  match _h : findFrom (· = dollar) value start with
  | none => some value
  | some macroStart =>
      let macroEnd := (findFrom (!isMacroName ·) value (macroStart + 1)).getD value.length
      match macros ((value.drop macroStart).take (macroEnd - macroStart)) with
      | none => none
      | some macroValue =>
          expand macros (value.take macroStart ++ macroValue ++ value.drop macroEnd)
            (macroStart + macroValue.length)
termination_by value.length - start
decreasing_by
  obtain ⟨hstart, hlt⟩ := findFrom_bounds _h
  have hend : macroStart < macroEnd ∧ macroEnd ≤ value.length := by
    cases hname : findFrom (!isMacroName ·) value (macroStart + 1) with
    | none =>
        rw [show macroEnd = value.length by simp only [macroEnd, hname, Option.getD_none]]
        exact ⟨hlt, Nat.le_refl _⟩
    | some i =>
        obtain ⟨hlow, hhigh⟩ := findFrom_bounds hname
        rw [show macroEnd = i by simp only [macroEnd, hname, Option.getD_some]]
        exact ⟨hlow, hhigh.le⟩
  simp only [List.length_append, List.length_take, List.length_drop]
  omega

/-! ## Lines of a file -/

/-- A line that begins with `#define`, and the value of an opcode. -/
inductive Line where
  | define (rest : Bytes)
  | opcode (value : Bytes)

/-- The values are those of the opcodes that have not been ignored. -/
structure Reader where
  macros : Macros := fun _ => none
  values : List Bytes := []

/-- `"#define"` -/
def defineWord : Bytes := [35, 100, 101, 102, 105, 110, 101]

def read (r : Reader) : Line → Option Reader
  | .define rest => (defineLine r.macros (defineWord ++ rest)).map fun m => { r with macros := m }
  | .opcode value => some { r with values := r.values ++ (expand r.macros value 0).toList }

def run (lines : List Line) : Option Reader := lines.foldlM read {}

/-! ## What lines mean -/

/-- The first word behind `#define`. -/
def nameOf (rest : Bytes) : Bytes := (rest.dropWhile isBlank).takeWhile (!isBlank ·)

def behindName (rest : Bytes) : Bytes := (rest.dropWhile isBlank).dropWhile (!isBlank ·)

/-- What follows the first word and blanks behind it. -/
def valueText (rest : Bytes) : Bytes := (behindName rest).dropWhile isBlank

def WellFormed (rest : Bytes) : Prop :=
  ((nameOf rest).head? = some dollar ∧ (nameOf rest).tail.all isMacroName) ∧
    withoutReturn (valueText rest) ≠ [] ∧ (withoutReturn (valueText rest)).all isMacroValue

instance : DecidablePred WellFormed := fun _ => inferInstanceAs (Decidable (_ ∧ _))

def defined (macros : Macros) (rest : Bytes) : Macros :=
  if WellFormed rest then
    Function.update macros (nameOf rest) (some (withoutReturn (valueText rest)))
  else macros

/-- A text is made of characters, and of names with all name characters behind a `$`. -/
inductive Piece where
  | char (c : UInt8)
  | name (chars : Bytes)

def pieces : Bytes → List Piece
  | [] => []
  | c :: s =>
      if c = dollar then .name (s.takeWhile isMacroName) :: pieces (s.dropWhile isMacroName)
      else .char c :: pieces s
termination_by s => s.length
decreasing_by
  · exact Nat.lt_succ_of_le (List.dropWhile_suffix _).length_le
  · exact Nat.lt_succ_self _

def Piece.value (macros : Macros) : Piece → Option Bytes
  | .char c => some [c]
  | .name chars => macros (dollar :: chars)

/-- The text with its macros replaced, if all of them are defined. -/
def expansion (macros : Macros) (text : Bytes) : Option Bytes :=
  ((pieces text).mapM (Piece.value macros)).map List.flatten

/-- What a line should do. -/
def Right (r : Reader) : Line → Reader → Prop
  | .define rest, r' => r' = { r with macros := defined r.macros rest }
  | .opcode value, r' => r' = { r with values := r.values ++ (expansion r.macros value).toList }

/-! ## `#define` lines -/

theorem withoutReturn_line (rest : Bytes) :
    withoutReturn (defineWord ++ rest) = 35 :: withoutReturn (defineWord.tail ++ rest) := by
  have hcons : defineWord ++ rest = 35 :: (defineWord.tail ++ rest) := rfl
  have hne : defineWord.tail ++ rest ≠ [] := List.cons_ne_nil _ _
  rw [hcons, withoutReturn, withoutReturn, List.getLast?_cons_of_ne_nil hne]
  split
  · exact List.dropLast_cons_of_ne_nil hne
  · rfl

/-- The line as a value is not accepted. -/
theorem any_line (rest : Bytes) :
    (withoutReturn (defineWord ++ rest)).any (!isMacroValue ·) = true := by
  rw [withoutReturn_line]
  rfl

theorem drop_defineWord (rest : Bytes) : (defineWord ++ rest).drop 7 = rest := rfl

theorem defineMacro_line (macros : Macros) (varname rest : Bytes) :
    defineMacro macros varname (defineWord ++ rest) = macros := by
  unfold defineMacro
  simp only [any_line, if_true, ite_self]

theorem defineMacro_of_ne_nil (macros : Macros) {varname value : Bytes} (hname : varname ≠ [])
    (hvalue : value ≠ []) :
    defineMacro macros varname value =
      if varname.head? = some dollar ∧ (withoutReturn value).all isMacroValue = true then
        Function.update macros varname (some (withoutReturn value))
      else macros := by
  rw [defineMacro, if_neg (not_or.mpr ⟨hname, hvalue⟩)]
  by_cases hdollar : varname.head? = some dollar
  · cases hall : (withoutReturn value).all isMacroValue with
    | true =>
        have hany : (withoutReturn value).any (!isMacroValue ·) = false := by
          rw [← List.not_all_eq_any_not, hall]
          rfl
        simp [hdollar, hany]
    | false =>
        have hany : (withoutReturn value).any (!isMacroValue ·) = true := by
          rw [← List.not_all_eq_any_not, hall]
          rfl
        simp [hany]
  · simp [hdollar]

/-- What a `#define` line does, in the words of the line. -/
theorem defineLine_eq (macros : Macros) (rest : Bytes) :
    defineLine macros (defineWord ++ rest) =
      if nameOf rest = [] then none
      else if behindName rest = [] then some macros
      else if valueText rest = [] then none
      else some (defineMacro macros (nameOf rest) (valueText rest)) := by
  have hnot : ∀ c, (!isBlank c) = !isBlank c := fun _ => rfl
  have hblank : ∀ c, isBlank c = !(!isBlank c) := fun c => (Bool.not_not _).symm
  have hstart := findFrom_eq hnot (defineWord ++ rest) 7
  rw [drop_defineWord] at hstart
  unfold defineLine
  cases hword : rest.dropWhile isBlank with
  | nil =>
      have hname : nameOf rest = [] := by rw [nameOf, hword, List.takeWhile_nil]
      rw [hstart, hword, hname]
      rfl
  | cons c t =>
      have hc : (!isBlank c) = true := by
        have hhead := List.head?_dropWhile_not isBlank rest
        rw [hword] at hhead
        exact (Bool.not_eq_true' _).mpr hhead
      have hname : nameOf rest = c :: t.takeWhile (!isBlank ·) := by
        rw [nameOf, hword, List.takeWhile_cons_of_pos (p := (!isBlank ·)) hc]
      have hbehind : behindName rest = t.dropWhile (!isBlank ·) := by
        rw [behindName, hword, List.dropWhile_cons_of_pos (p := (!isBlank ·)) hc]
      obtain ⟨a, ha⟩ : ∃ a, a = 7 + (rest.takeWhile isBlank).length := ⟨_, rfl⟩
      rw [hword, if_neg (List.cons_ne_nil c t), ← ha] at hstart
      have hdrop : (defineWord ++ rest).drop a = c :: t := by
        rw [ha, ← List.drop_drop, drop_defineWord, drop_length_takeWhile, hword]
      have hle : a ≤ (defineWord ++ rest).length := by
        by_contra hlt
        rw [List.drop_eq_nil_of_le (by omega)] at hdrop
        exact nomatch hdrop
      have hdropNext : (defineWord ++ rest).drop (a + 1) = t := by
        rw [← List.drop_drop, hdrop]
        rfl
      have hend := findFrom_eq hblank (defineWord ++ rest) (a + 1)
      rw [hdropNext, ← hbehind] at hend
      rw [hstart, if_neg (by rw [hname]; exact List.cons_ne_nil _ _)]
      simp only [Position.next, hend]
      by_cases hnil : behindName rest = []
      · -- the search for the value begins at 0
        have hvalue : findFrom (!isBlank ·) (defineWord ++ rest) 0 = some 0 := rfl
        simp only [if_pos hnil, hvalue, substr, hle, if_true]
        simp [defineMacro_line]
      · obtain ⟨b, hb⟩ : ∃ b, b = a + 1 + (t.takeWhile (!isBlank ·)).length := ⟨_, rfl⟩
        have hdropEnd : (defineWord ++ rest).drop b = behindName rest := by
          rw [hb, ← List.drop_drop, hdropNext, drop_length_takeWhile, hbehind]
        have hvarname : substr (defineWord ++ rest) (some a) (some b) = some (nameOf rest) := by
          have hlength : b - a = (t.takeWhile (!isBlank ·)).length + 1 := by omega
          rw [substr, if_pos hle, if_pos (by omega), hdrop, hlength, List.take_succ_cons,
            take_length_takeWhile, hname]
        obtain ⟨d, u, hcons⟩ := List.exists_cons_of_ne_nil hnil
        have hd : isBlank d = true := by
          have hhead := List.head?_dropWhile_not (!isBlank ·) t
          rw [← hbehind, hcons] at hhead
          exact (Bool.not_eq_false' _).mp hhead
        have hdropValue : (defineWord ++ rest).drop (b + 1) = u := by
          rw [← List.drop_drop, hdropEnd, hcons]
          rfl
        have hvalueText : valueText rest = u.dropWhile isBlank := by
          rw [valueText, hcons, List.dropWhile_cons_of_pos hd]
        have hvalue := findFrom_eq hnot (defineWord ++ rest) (b + 1)
        rw [hdropValue, ← hvalueText] at hvalue
        simp only [if_neg hnil, ← hb, hvarname, hvalue]
        by_cases hvalueNil : valueText rest = []
        · simp only [if_pos hvalueNil]
          rfl
        · obtain ⟨e, he⟩ : ∃ e, e = b + 1 + (u.takeWhile isBlank).length := ⟨_, rfl⟩
          have hdropText : (defineWord ++ rest).drop e = valueText rest := by
            rw [he, ← List.drop_drop, hdropValue, drop_length_takeWhile, hvalueText]
          have hle : e ≤ (defineWord ++ rest).length := by
            by_contra hlt
            rw [List.drop_eq_nil_of_le (by omega)] at hdropText
            exact hvalueNil hdropText.symm
          simp only [if_neg hvalueNil, ← he, substr, if_pos hle, hdropText]
          rfl

/-! ## Macros in values -/

theorem expansion_nil (macros : Macros) : expansion macros [] = some [] := by
  rw [expansion, pieces]
  rfl

theorem expansion_cons {c : UInt8} (hc : c ≠ dollar) (macros : Macros) (s : Bytes) :
    expansion macros (c :: s) = (expansion macros s).map (c :: ·) := by
  unfold expansion
  rw [pieces, if_neg hc, List.mapM_cons]
  cases (pieces s).mapM (Piece.value macros) with
  | none => rfl
  | some values => rfl

theorem expansion_append {plain : Bytes} (h : ∀ c ∈ plain, c ≠ dollar) (macros : Macros)
    (s : Bytes) : expansion macros (plain ++ s) = (expansion macros s).map (plain ++ ·) := by
  induction plain with
  | nil => exact Option.map_id'.symm
  | cons c plain ih =>
      obtain ⟨hc, hplain⟩ := List.forall_mem_cons.mp h
      rw [List.cons_append, expansion_cons hc, ih hplain, Option.map_map]
      rfl

theorem expansion_dollar (macros : Macros) (s : Bytes) :
    expansion macros (dollar :: s) =
      (macros (dollar :: s.takeWhile isMacroName)).bind fun value =>
        (expansion macros (s.dropWhile isMacroName)).map (value ++ ·) := by
  unfold expansion
  rw [pieces, if_pos rfl, List.mapM_cons, Piece.value]
  cases macros (dollar :: s.takeWhile isMacroName) with
  | none => rfl
  | some value =>
      cases (pieces (s.dropWhile isMacroName)).mapM (Piece.value macros) with
      | none => rfl
      | some values => rfl

theorem expand_of_none {macros : Macros} {value : Bytes} {start : ℕ}
    (h : findFrom (· = dollar) value start = none) : expand macros value start = some value := by
  rw [expand]
  split
  · rfl
  next i hsome => exact nomatch h.symm.trans hsome

theorem expand_of_some {macros : Macros} {value : Bytes} {start i : ℕ}
    (h : findFrom (· = dollar) value start = some i) :
    expand macros value start =
      let macroEnd := (findFrom (!isMacroName ·) value (i + 1)).getD value.length
      (macros ((value.drop i).take (macroEnd - i))).bind fun macroValue =>
        expand macros (value.take i ++ macroValue ++ value.drop macroEnd)
          (i + macroValue.length) := by
  rw [expand]
  split
  next hnone => exact nomatch h.symm.trans hnone
  next j hsome =>
    cases h.symm.trans hsome
    dsimp only
    cases macros _ <;> rfl

/-- The end of a name, and what is before and behind it. -/
theorem name_end (before s : Bytes) :
    let value := before ++ dollar :: s
    let macroEnd := (findFrom (!isMacroName ·) value (before.length + 1)).getD value.length
    macroEnd - before.length = (s.takeWhile isMacroName).length + 1 ∧
      value.drop macroEnd = s.dropWhile isMacroName := by
  intro value macroEnd
  have hdrop : value.drop (before.length + 1) = s := by
    rw [← List.drop_drop, List.drop_left]
    rfl
  have hend : macroEnd = before.length + 1 + (s.takeWhile isMacroName).length := by
    show (findFrom _ value _).getD _ = _
    rw [findFrom_eq (q := isMacroName) (fun _ => rfl), hdrop]
    split
    next hnil =>
      have hsplit := List.takeWhile_append_dropWhile (p := isMacroName) (l := s)
      rw [hnil, List.append_nil] at hsplit
      rw [hsplit, Option.getD_none, List.length_append, List.length_cons]
      omega
    next => rfl
  constructor
  · omega
  · rw [hend, ← List.drop_drop, hdrop, drop_length_takeWhile]

/-- The loop leaves what is before its position as it is. -/
theorem expand_append (macros : Macros) (n : ℕ) : ∀ before rest : Bytes, rest.length = n →
    expand macros (before ++ rest) before.length =
      (expansion macros rest).map (before ++ ·) := by
  induction n using Nat.strong_induction_on with
  | h n ih =>
      rintro before rest rfl
      have hfind := findFrom_eq (q := fun c => decide (c ≠ dollar)) (fun c => by simp)
        (before ++ rest) before.length (p := (· = dollar))
      rw [List.drop_left] at hfind
      have hplain : ∀ c ∈ rest.takeWhile (· ≠ dollar), c ≠ dollar := fun c hc =>
        of_decide_eq_true (List.mem_takeWhile_imp (p := fun c => decide (c ≠ dollar)) hc)
      have hsplit := List.takeWhile_append_dropWhile (p := fun c => decide (c ≠ dollar)) (l := rest)
      obtain ⟨plain, hplainEq⟩ : ∃ plain, plain = rest.takeWhile (· ≠ dollar) := ⟨_, rfl⟩
      rw [← hplainEq] at hfind hplain hsplit
      cases hlater : rest.dropWhile (· ≠ dollar) with
      | nil =>
          rw [hlater, if_pos rfl] at hfind
          rw [hlater] at hsplit
          rw [expand_of_none hfind, ← hsplit, expansion_append hplain, expansion_nil]
          rfl
      | cons c s =>
          have hdollar : c = dollar := by
            have hhead := List.head?_dropWhile_not (fun c => decide (c ≠ dollar)) rest
            rw [hlater] at hhead
            simpa using hhead
          subst hdollar
          rw [hlater, if_neg (List.cons_ne_nil _ _), ← List.length_append] at hfind
          rw [hlater] at hsplit
          obtain ⟨hlength, hbehind⟩ := name_end (before ++ plain) s
          have hvalue : before ++ rest = (before ++ plain) ++ dollar :: s := by
            rw [← hsplit, List.append_assoc]
          have hname : ((before ++ rest).drop (before ++ plain).length).take
              ((s.takeWhile isMacroName).length + 1) = dollar :: s.takeWhile isMacroName := by
            rw [hvalue, List.drop_left, List.take_succ_cons, take_length_takeWhile]
          rw [expand_of_some hfind, hvalue]
          dsimp only
          rw [hlength, hbehind, ← hvalue, hname, hvalue, List.take_left, ← hsplit,
            expansion_append hplain, expansion_dollar]
          cases macros (dollar :: s.takeWhile isMacroName) with
          | none => rfl
          | some value =>
              have hshorter : (s.dropWhile isMacroName).length < rest.length := by
                have hle := (List.dropWhile_suffix isMacroName (l := s)).length_le
                rw [← hsplit, List.length_append, List.length_cons]
                omega
              rw [Option.bind_some, Option.bind_some, ← List.length_append,
                ih _ hshorter _ _ rfl, Option.map_map, Option.map_map]
              congr 1
              funext text
              simp

/-- The expansion of a value is that of the original text. -/
theorem expand_eq_expansion (macros : Macros) (value : Bytes) :
    expand macros value 0 = expansion macros value :=
  (expand_append macros _ [] value rfl).trans Option.map_id'

/-- The loader's macros are those of the loop. -/
theorem applyMacros_eq_expansion (macros : Macros) (text : Bytes) :
    applyMacros macros none text = expansion macros text ∧
      ∀ name, applyMacros macros (some name) text =
        (macros (name ++ text.takeWhile isMacroName)).bind fun value =>
          (expansion macros (text.dropWhile isMacroName)).map (value ++ ·) := by
  induction text with
  | nil =>
      refine ⟨(expansion_nil macros).symm, fun name => ?_⟩
      rw [applyMacros, List.takeWhile_nil, List.dropWhile_nil, expansion_nil, List.append_nil]
      cases macros name with
      | none => rfl
      | some value => simp
  | cons c s ih =>
      obtain ⟨hplain, hname⟩ := ih
      have hnone : applyMacros macros none (c :: s) = expansion macros (c :: s) := by
        rw [applyMacros]
        split
        next hc => rw [hc, hname, expansion_dollar]; rfl
        next hc => rw [hplain, expansion_cons hc]
      refine ⟨hnone, fun name => ?_⟩
      rw [applyMacros]
      cases hc : isMacroName c with
      | true =>
          rw [if_pos rfl, hname, List.takeWhile_cons_of_pos hc, List.dropWhile_cons_of_pos hc,
            List.append_assoc]
          rfl
      | false =>
          have hneg : ¬ isMacroName c = true := by simp [hc]
          rw [if_neg Bool.false_ne_true, List.takeWhile_cons_of_neg hneg,
            List.dropWhile_cons_of_neg hneg, List.append_nil, ← hnone, applyMacros]
          cases macros name with
          | none => rfl
          | some value =>
              simp only [Option.bind_eq_bind, Option.bind_some]
              by_cases hdollar : c = dollar
              · simp only [if_pos hdollar]
                cases applyMacros macros (some [dollar]) s <;> rfl
              · simp only [if_neg hdollar]
                cases applyMacros macros none s <;> rfl

/-! ## Sequences of lines -/

/-- The lines that the code reads as it should. -/
structure Handled (rest : Bytes) : Prop where
  named : nameOf rest ≠ []
  valued : behindName rest ≠ [] → valueText rest ≠ []
  checked : behindName rest ≠ [] → (nameOf rest).head? = some dollar →
    (withoutReturn (valueText rest)).all isMacroValue = true →
      (nameOf rest).tail.all isMacroName = true ∧ withoutReturn (valueText rest) ≠ []

/-- A line has been read and has done what it should. -/
def ReadsRight (r : Reader) (line : Line) : Prop := ∃ r', read r line = some r' ∧ Right r line r'

theorem readsRight_opcode (r : Reader) (value : Bytes) : ReadsRight r (.opcode value) :=
  ⟨_, rfl, by rw [expand_eq_expansion]; rfl⟩

theorem Handled.readsRight {rest : Bytes} (h : Handled rest) (r : Reader) :
    ReadsRight r (.define rest) := by
  have hread : defineLine r.macros (defineWord ++ rest) = some (defined r.macros rest) := by
    rw [defineLine_eq, if_neg h.named]
    by_cases hbehind : behindName rest = []
    · have hvalue : valueText rest = [] := by rw [valueText, hbehind, List.dropWhile_nil]
      rw [if_pos hbehind, defined, if_neg]
      rintro ⟨-, hne, -⟩
      rw [hvalue] at hne
      exact hne rfl
    · rw [if_neg hbehind, if_neg (h.valued hbehind),
        defineMacro_of_ne_nil _ h.named (h.valued hbehind), defined]
      refine congrArg some (if_congr ?_ rfl rfl)
      constructor
      · rintro ⟨hdollar, hall⟩
        obtain ⟨hname, hne⟩ := h.checked hbehind hdollar hall
        exact ⟨⟨hdollar, hname⟩, hne, hall⟩
      · rintro ⟨⟨hdollar, -⟩, -, hall⟩
        exact ⟨hdollar, hall⟩
  exact ⟨_, congrArg (Option.map _) hread, rfl⟩

/-- Where the names of the table are names and its values are not empty, only lines that are
handled are read right. -/
def Sound (macros : Macros) : Prop :=
  ∀ name value, macros name = some value → name.tail.all isMacroName = true ∧ value ≠ []

theorem Sound.defined {macros : Macros} (h : Sound macros) (rest : Bytes) :
    Sound (defined macros rest) := by
  intro name value hvalue
  unfold Define.defined at hvalue
  split at hvalue
  next hwell =>
    by_cases hname : name = nameOf rest
    · rw [hname, Function.update_self] at hvalue
      exact ⟨hname ▸ hwell.1.2, Option.some.inj hvalue ▸ hwell.2.1⟩
    · rw [Function.update_of_ne hname] at hvalue
      exact h name value hvalue
  next => exact h name value hvalue

theorem Sound.handled {r : Reader} (h : Sound r.macros) {rest : Bytes}
    (hright : ReadsRight r (.define rest)) : Handled rest := by
  obtain ⟨r', hread, rfl⟩ := hright
  obtain ⟨macros, hdefine, heq⟩ := Option.map_eq_some_iff.mp hread
  obtain rfl : macros = Define.defined r.macros rest := congrArg Reader.macros heq
  rw [defineLine_eq] at hdefine
  by_cases hname : nameOf rest = []
  · rw [if_pos hname] at hdefine
    exact nomatch hdefine
  rw [if_neg hname] at hdefine
  by_cases hbehind : behindName rest = []
  · exact ⟨hname, fun hne => absurd hbehind hne, fun hne => absurd hbehind hne⟩
  rw [if_neg hbehind] at hdefine
  by_cases hvalue : valueText rest = []
  · rw [if_pos hvalue] at hdefine
    exact nomatch hdefine
  rw [if_neg hvalue, defineMacro_of_ne_nil _ hname hvalue] at hdefine
  refine ⟨hname, fun _ => hvalue, fun _ hdollar hall => ?_⟩
  rw [if_pos ⟨hdollar, hall⟩] at hdefine
  -- the table has the name now, and it is a sound one
  have hstored :
      Define.defined r.macros rest (nameOf rest) = some (withoutReturn (valueText rest)) := by
    rw [← Option.some.inj hdefine, Function.update_self]
  exact h.defined rest _ _ hstored

theorem run_append (before : List Line) (line : Line) :
    run (before ++ [line]) = (run before).bind fun r => read r line := by
  rw [run, List.foldlM_append]
  simp only [List.foldlM_cons, List.foldlM_nil, bind_pure]
  rfl

/-- Every line of a sequence has been read and has done what it should. -/
def AllRight (lines : List Line) : Prop :=
  ∀ before line after, lines = before ++ line :: after →
    ∃ r, run before = some r ∧ ReadsRight r line

theorem AllRight.init {before : List Line} {line : Line} (h : AllRight (before ++ [line])) :
    AllRight before := fun b l a hsplit => h b l (a ++ [line]) (by rw [hsplit]; simp)

theorem sound_of_allRight {lines : List Line} (h : AllRight lines) {r : Reader}
    (hrun : run lines = some r) : Sound r.macros := by
  induction lines using List.reverseRecOn generalizing r with
  | nil =>
      cases hrun
      exact fun _ _ h => nomatch h
  | append_singleton before line ih =>
      obtain ⟨r₁, hbefore, r₂, hread, hright⟩ := h before line [] rfl
      rw [run_append, hbefore, Option.bind_some, hread] at hrun
      cases hrun
      have hsound := ih h.init hbefore
      cases line with
      | define rest =>
          obtain rfl := hright
          exact hsound.defined rest
      | opcode value =>
          obtain rfl := hright
          exact hsound

theorem readsRight_of_handled {line : Line} (h : ∀ rest, line = .define rest → Handled rest)
    (r : Reader) : ReadsRight r line := by
  cases line with
  | define rest => exact (h rest rfl).readsRight r
  | opcode value => exact readsRight_opcode r value

theorem run_of_handled {lines : List Line} (h : ∀ rest, .define rest ∈ lines → Handled rest) :
    ∃ r, run lines = some r := by
  induction lines using List.reverseRecOn with
  | nil => exact ⟨{}, rfl⟩
  | append_singleton before line ih =>
      obtain ⟨r, hrun⟩ := ih fun rest hrest => h rest (List.mem_append_left _ hrest)
      obtain ⟨r', hread, -⟩ := readsRight_of_handled
        (fun rest heq => h rest (List.mem_append_right _ (heq ▸ List.mem_cons_self))) r
      exact ⟨r', by rw [run_append, hrun, Option.bind_some, hread]⟩

theorem handled_of_allRight {lines : List Line} (h : AllRight lines) {rest : Bytes}
    (hrest : .define rest ∈ lines) : Handled rest := by
  induction lines using List.reverseRecOn with
  | nil => exact absurd hrest List.not_mem_nil
  | append_singleton before line ih =>
      rcases List.mem_append.mp hrest with hmem | hmem
      · exact ih h.init hmem
      · obtain rfl := List.mem_singleton.mp hmem
        obtain ⟨r, hrun, hright⟩ := h before _ [] rfl
        exact (sound_of_allRight h.init hrun).handled hright

/-- All lines of a sequence are read right just if its `#define` lines are handled: each has a
name, blanks behind a name are followed by a value, and the name of an accepted value has only name
characters and the value something but a carriage return. -/
theorem run_right_iff (lines : List Line) :
    AllRight lines ↔ ∀ rest, .define rest ∈ lines → Handled rest := by
  constructor
  · exact fun h rest hrest => handled_of_allRight h hrest
  · rintro h before line after rfl
    obtain ⟨r, hrun⟩ := run_of_handled fun rest hrest => h rest (List.mem_append_left _ hrest)
    exact ⟨r, hrun, readsRight_of_handled
      (fun rest heq => h rest (List.mem_append_right _ (heq ▸ List.mem_cons_self))) r⟩

/-- `#define $KICK ` -/
theorem not_allRight : ¬ ∀ lines, AllRight lines := by
  intro h
  have hhandled := handled_of_allRight (h [.define [32, 36, 75, 73, 67, 75, 32]]) List.mem_cons_self
  exact hhandled.valued (by decide) (by decide)

end Define

end Sfz

end LinuxSampler
