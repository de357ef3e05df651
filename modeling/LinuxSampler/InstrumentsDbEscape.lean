import LinuxSampler.FsPath
import Mathlib.Algebra.Group.Nat.Even

/-!
# Escaped texts

`toEscapedText()` and `toNonEscapedText()` of `db/InstrumentsDb.cpp`, by
which the paths of instrument files are stored. Strings are lists of bytes,
with positions without bounds.

What was escaped can be read back. The reader looks one character ahead of
a backslash without looking at the length of the text first, so that a
text that ends with half of an escape sequence makes `at()` throw.
-/

namespace LinuxSampler

namespace InstrumentsDb

def backslash : UInt8 := 92
def apostrophe : UInt8 := 39
def quotationMark : UInt8 := 34
def carriageReturn : UInt8 := 13
def lineFeed : UInt8 := 10
def letterR : UInt8 := 114
def letterN : UInt8 := 110

/-! ## Encoder and decoder -/

/-- The character that stands for another one behind a backslash. -/
def escaped (c : UInt8) : Option UInt8 :=
  if c = backslash then some backslash
  else if c = apostrophe then some apostrophe
  else if c = quotationMark then some quotationMark
  else if c = carriageReturn then some letterR
  else if c = lineFeed then some letterN
  else none

/-- The loop of `toEscapedText()`. It replaces a character in the text by two, and goes on
behind both. -/
def escapeFrom (text : Bytes) (i : Nat) : Bytes :=
  if i < text.length then
    match text[i]?.bind escaped with
    | some c => escapeFrom (text.take i ++ [backslash, c] ++ text.drop (i + 1)) (i + 2)
    | none => escapeFrom text (i + 1)
  else text
termination_by text.length - i
decreasing_by
  · simp only [List.length_append, List.length_take, List.length_drop, List.length_cons,
      List.length_nil]
    omega
  · omega

def toEscapedText (text : Bytes) : Bytes := escapeFrom text 0

/-- The character for the one behind a backslash. -/
def unescaped (c : UInt8) : Option UInt8 :=
  if c = apostrophe then some apostrophe
  else if c = quotationMark then some quotationMark
  else if c = backslash then some backslash
  else if c = letterR then some carriageReturn
  else if c = letterN then some lineFeed
  else none

/-- The loop of `toNonEscapedText()`; `none` is the exception of `at()`. Unknown escape sequences
are left out. -/
def unescapeFrom (text : Bytes) (i : Nat) (sb : Bytes) : Option Bytes :=
  if h : i < text.length then
    if text.get ⟨i, h⟩ = backslash then
      if text.length ≤ i then some sb
      else
        match text[i + 1]? with
        | none => none
        | some c => unescapeFrom text (i + 2) (sb ++ (unescaped c).toList)
    else unescapeFrom text (i + 1) (sb ++ [text.get ⟨i, h⟩])
  else some sb
termination_by text.length - i

def toNonEscapedText (text : Bytes) : Option Bytes := unescapeFrom text 0 []

/-- On POSIX. -/
def toEscapedFsPath (fsPath : Bytes) : Bytes := toEscapedText fsPath

/-- On POSIX. -/
def toNonEscapedFsPath (fsPath : Bytes) : Option Bytes := toNonEscapedText fsPath

/-! ## Without positions -/

/-- What the encoder makes of one character. -/
def escape (c : UInt8) : Bytes :=
  match escaped c with
  | some c => [backslash, c]
  | none => [c]

/-- What the decoder makes of the rest of a text. -/
def unescape : Bytes → Option Bytes
  | [] => some []
  | c :: rest =>
      if c = backslash then
        match rest with
        | [] => none
        | c :: rest => (unescape rest).map ((unescaped c).toList ++ ·)
      else (unescape rest).map (c :: ·)

theorem unescape_pair (c : UInt8) (rest : Bytes) :
    unescape (backslash :: c :: rest) = (unescape rest).map ((unescaped c).toList ++ ·) := rfl

theorem unescape_cons {c : UInt8} (hc : c ≠ backslash) (rest : Bytes) :
    unescape (c :: rest) = (unescape rest).map (c :: ·) := by
  rw [unescape.eq_def]
  exact if_neg hc

/-- The loop has escaped what is before its position. -/
theorem escapeFrom_append (before rest : Bytes) :
    escapeFrom (before ++ rest) before.length = before ++ rest.flatMap escape := by
  induction rest generalizing before with
  | nil =>
      unfold escapeFrom
      rw [if_neg (by simp)]
      rfl
  | cons c rest ih =>
      unfold escapeFrom
      have hlt : before.length < (before ++ c :: rest).length := by simp
      have hget : (before ++ c :: rest)[before.length]? = some c := by simp
      rw [if_pos hlt, hget, Option.bind_some, List.flatMap_cons, escape]
      cases hc : escaped c with
      | none =>
          have hnext := ih (before ++ [c])
          rw [List.append_assoc, List.length_append] at hnext
          exact hnext.trans (List.append_assoc _ _ _)
      | some c' =>
          have hedit : (before ++ c :: rest).take before.length ++ [backslash, c'] ++
              (before ++ c :: rest).drop (before.length + 1) =
                (before ++ [backslash, c']) ++ rest := by
            rw [List.take_left, List.drop_append]
            simp
          have hnext := ih (before ++ [backslash, c'])
          rw [List.length_append] at hnext
          dsimp only
          rw [hedit]
          exact hnext.trans (List.append_assoc _ _ _)

theorem toEscapedText_eq (text : Bytes) : toEscapedText text = text.flatMap escape :=
  escapeFrom_append [] text

/-- The loop goes on with what it has not read. -/
theorem unescapeFrom_append (before rest sb : Bytes) :
    unescapeFrom (before ++ rest) before.length sb = (unescape rest).map (sb ++ ·) := by
  induction rest using unescape.induct generalizing before sb with
  | case1 =>
      unfold unescapeFrom unescape
      rw [dif_neg (by simp)]
      simp
  | case2 =>
      unfold unescapeFrom unescape
      have hlt : before.length < (before ++ [backslash]).length := by simp
      rw [dif_pos hlt]
      simp
  | case3 c rest ih =>
      unfold unescapeFrom unescape
      have hlt : before.length < (before ++ backslash :: c :: rest).length := by simp
      have hnext := ih (before ++ [backslash, c]) (sb ++ (unescaped c).toList)
      rw [List.append_assoc, List.length_append] at hnext
      have hnot : ¬(before ++ backslash :: c :: rest).length ≤ before.length := by omega
      rw [dif_pos hlt, if_neg hnot]
      simpa [Function.comp_def] using hnext
  | case4 c rest hc ih =>
      unfold unescapeFrom unescape
      have hlt : before.length < (before ++ c :: rest).length := by simp
      have hget : (before ++ c :: rest).get ⟨before.length, hlt⟩ = c := by simp
      have hnext := ih (before ++ [c]) (sb ++ [c])
      rw [List.append_assoc, List.length_append] at hnext
      rw [dif_pos hlt, hget, if_neg hc, if_neg hc]
      simpa [Function.comp_def] using hnext

theorem toNonEscapedText_eq (text : Bytes) : toNonEscapedText text = unescape text :=
  (unescapeFrom_append [] text []).trans (by simp)

/-! ## Round trip -/

theorem escaped_eq_none {c : UInt8} (h : escaped c = none) : c ≠ backslash := by
  rintro rfl
  exact nomatch h

theorem unescaped_of_escaped {c c' : UInt8} (h : escaped c = some c') :
    unescaped c' = some c := by
  unfold escaped at h
  split_ifs at h with h₁ h₂ h₃ h₄ h₅
  all_goals
    cases h
    subst c
    rfl

theorem unescape_escape (c : UInt8) (rest : Bytes) :
    unescape (escape c ++ rest) = (unescape rest).map (c :: ·) := by
  unfold escape
  cases hc : escaped c with
  | none =>
      show unescape (c :: rest) = _
      exact unescape_cons (escaped_eq_none hc) rest
  | some c' =>
      show unescape (backslash :: c' :: rest) = _
      rw [unescape_pair, unescaped_of_escaped hc]
      rfl

theorem unescape_flatMap (text : Bytes) : unescape (text.flatMap escape) = some text := by
  induction text with
  | nil => rfl
  | cons c text ih =>
      rw [List.flatMap_cons, unescape_escape, ih]
      rfl

/-! ## Ends of texts -/

/-- The number of backslashes at the end. -/
def backslashesAtEnd (text : Bytes) : Nat := (text.reverse.takeWhile (· = backslash)).length

theorem backslashesAtEnd_cons (c : UInt8) (text : Bytes) :
    backslashesAtEnd (c :: text) =
      if c = backslash ∧ backslashesAtEnd text = text.length then backslashesAtEnd text + 1
      else backslashesAtEnd text := by
  unfold backslashesAtEnd
  rw [List.reverse_cons, List.takeWhile_append, List.length_reverse]
  by_cases hall : (text.reverse.takeWhile (· = backslash)).length = text.length
  · by_cases hc : c = backslash
    · rw [if_pos hall, if_pos ⟨hc, hall⟩]
      simp [hc, hall]
    · rw [if_pos hall, if_neg fun h => hc h.1]
      simp [hc, hall]
  · rw [if_neg hall, if_neg fun h => hall h.2]

/-- A pair that begins with a backslash does not matter. -/
theorem even_backslashesAtEnd_pair (c : UInt8) (text : Bytes) :
    Even (backslashesAtEnd (backslash :: c :: text)) ↔ Even (backslashesAtEnd text) := by
  have hle : backslashesAtEnd text ≤ text.length := by
    have hlength := (List.takeWhile_prefix (l := text.reverse) (· = backslash)).length_le
    rwa [List.length_reverse] at hlength
  rw [backslashesAtEnd_cons, backslashesAtEnd_cons c, List.length_cons]
  by_cases h : c = backslash ∧ backslashesAtEnd text = text.length
  · rw [if_pos h, if_pos ⟨rfl, by omega⟩, add_assoc, Nat.even_add]
    exact iff_true_right (by decide)
  · rw [if_neg h, if_neg fun h => absurd h.2 (by omega)]

/-- Reading fails exactly in half of an escape sequence at the end. -/
theorem isSome_unescape_iff (text : Bytes) :
    (unescape text).isSome ↔ Even (backslashesAtEnd text) := by
  induction text using unescape.induct with
  | case1 => exact iff_of_true rfl (by decide)
  | case2 => exact iff_of_false (by decide) (by decide)
  | case3 c rest ih =>
      rw [unescape_pair, Option.isSome_map, ih, even_backslashesAtEnd_pair]
  | case4 c rest hc ih =>
      rw [unescape_cons hc, Option.isSome_map, ih, backslashesAtEnd_cons, if_neg fun h => hc h.1]

/-- What is stored for a text belongs to no other text, and gives the text back. -/
structure RoundTrips (text : Bytes) : Prop where
  read : toNonEscapedText (toEscapedText text) = some text
  readFsPath : toNonEscapedFsPath (toEscapedFsPath text) = some text
  unique : ∀ text', toEscapedFsPath text' = toEscapedFsPath text → text' = text

theorem roundTrips (text : Bytes) : RoundTrips text := by
  have hback : ∀ t, toNonEscapedText (toEscapedText t) = some t := by
    intro t
    rw [toNonEscapedText_eq, toEscapedText_eq, unescape_flatMap]
  refine ⟨hback text, hback text, fun text' heq => ?_⟩
  have hsame := hback text'
  rw [show toEscapedText text' = toEscapedText text from heq, hback text] at hsame
  exact (Option.some.inj hsame).symm

/-- Any text can be stored. To read any text is safe unless it ends with an odd number of
backslashes. -/
theorem toNonEscapedText_iff (text : Bytes) :
    (RoundTrips text ∧ (toNonEscapedText text).isSome) ↔ Even (backslashesAtEnd text) := by
  rw [toNonEscapedText_eq, isSome_unescape_iff]
  exact and_iff_right (roundTrips text)

theorem not_toNonEscapedText :
    ¬ ∀ text, RoundTrips text ∧ (toNonEscapedText text).isSome := by
  intro h
  have hsome := (h [backslash]).2
  rw [toNonEscapedText_eq] at hsome
  exact nomatch hsome

end InstrumentsDb

end LinuxSampler
