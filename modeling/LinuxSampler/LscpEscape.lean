import LinuxSampler.FsPath

/-!
# Escape sequences of LSCP

The two encoders of text for a client, `_escapeLscpResponse()` of
`network/lscpserver.cpp` and `Path::toLscp()` of `common/Path.cpp`, and
the rules of `network/lscp.y` that read escaped text back. Strings are
lists of bytes, with positions without bounds.

The rules stand twice: as derivations, one constructor per alternative,
and as a reader that resolves the conflicts of the rules the way the
generated parser does, by shifting where it can. What the reader reads is
derived (`stringvalEscaped_sound`, `path_sound`).

Both encoders leave the grave accent as it is, which no rule reads. All
other bytes are read back (`escape_round_trips_iff`).
-/

namespace LinuxSampler

namespace Lscp

open Bytes

def space : UInt8 := 32
def quotationMark : UInt8 := 34
def apostrophe : UInt8 := 39
def colon : UInt8 := 58
def backslash : UInt8 := 92
def graveAccent : UInt8 := 96
def letterX : UInt8 := 120

/-! ## Encoders -/

def IsAlpha (c : UInt8) : Prop := 97 ≤ c ∧ c ≤ 122 ∨ 65 ≤ c ∧ c ≤ 90

def IsDigit (c : UInt8) : Prop := 48 ≤ c ∧ c ≤ 57

instance (c : UInt8) : Decidable (IsAlpha c) := inferInstanceAs (Decidable (_ ∨ _))
instance (c : UInt8) : Decidable (IsDigit c) := inferInstanceAs (Decidable (_ ∧ _))

/-- A digit of `%02x`. -/
def hexDigit (n : Nat) : UInt8 := UInt8.ofNat (if n < 10 then 48 + n else 97 + (n - 10))

/-- `"\\x%02x"` -/
def escapeSequence (c : UInt8) : Bytes :=
  [backslash, letterX, hexDigit (c.toNat / 16), hexDigit (c.toNat % 16)]

/-- What the encoders put for a character: letters, digits and the characters
of their lists stay as they are. -/
def escapeSpecial (plain : List UInt8) (c : UInt8) : Bytes :=
  if IsDigit c ∨ IsAlpha c ∨ c ∈ plain then [c] else escapeSequence c

def responsePlain : List UInt8 :=
  [' ', '!', '#', '$', '%', '&', '(', ')', '*', '+', ',', '-', '.', '/', ':', ';', '<', '=', '>',
    '?', '@', '[', ']', '^', '_'].map Char.toUInt8 ++
    [graveAccent] ++ ['{', '|', '}', '~'].map Char.toUInt8

/-- `_escapeLscpResponse()`. The loop goes on behind the sequence it has put in. -/
def escapeLscpResponse (txt : Bytes) : Bytes := txt.flatMap (escapeSpecial responsePlain)

def pathPlain : List UInt8 :=
  ['!', '#', '$', '%', '&', '(', ')', '*', '+', ',', '-', '.', ':', ';', '<', '=', '>', '?', '@',
    '[', ']', '^', '_'].map Char.toUInt8 ++
    [graveAccent] ++ ['{', '|', '}', '~'].map Char.toUInt8

/-- `Path::toLscp()` on POSIX -/
def toLscp (p : Path) : Bytes :=
  let result := p.elements.flatMap fun e => slash :: e.flatMap (escapeSpecial pathPlain)
  if result = [] then [slash] else result

/-! ## Rules -/

/-- `char_base`; the last case is `EXT_ASCII_CHAR`. -/
def CharBase (c : UInt8) : Prop :=
  IsAlpha c ∨ IsDigit c ∨
    c ∈ ['!', '#', '$', '%', '&', '(', ')', '*', '+', '-', '.', ',', ':', ';', '<', '=', '>', '?',
      '@', '[', ']', '^', '_', '{', '|', '}', '~'].map Char.toUInt8 ∨ 128 ≤ c

def DigitOct (c : UInt8) : Prop := 48 ≤ c ∧ c ≤ 55

def DigitHex (c : UInt8) : Prop := IsDigit c ∨ 97 ≤ c ∧ c ≤ 102 ∨ 65 ≤ c ∧ c ≤ 70

instance (c : UInt8) : Decidable (CharBase c) := inferInstanceAs (Decidable (_ ∨ _))
instance (c : UInt8) : Decidable (DigitOct c) := inferInstanceAs (Decidable (_ ∧ _))
instance (c : UInt8) : Decidable (DigitHex c) := inferInstanceAs (Decidable (_ ∨ _))

/-- The characters that stand for one character behind a backslash: quotation marks,
backslash, slash and `n`, `r`, `f`, `t`, `v`. -/
def escapeChar (c : UInt8) : Option UInt8 :=
  [(apostrophe, apostrophe), (quotationMark, quotationMark), (backslash, backslash),
    (slash, slash), (110, 10), (114, 13), (102, 12), (116, 9), (118, 11)].lookup c

/-- `octalsToNumber()`; `atoi()` of one digit. -/
def octalsToNumber (octDigit0 octDigit1 octDigit2 : UInt8) : Nat :=
  (octDigit2.toNat - 48) * 8 * 8 + (octDigit1.toNat - 48) * 8 + (octDigit0.toNat - 48)

/-- The default of the digits that are missing. -/
def zero : UInt8 := 48

inductive EscapeSeq : Bytes → UInt8 → Prop
  | char {c v : UInt8} : escapeChar c = some v → EscapeSeq [backslash, c] v
  | octal {d : UInt8} : DigitOct d →
      EscapeSeq [backslash, d] (UInt8.ofNat (octalsToNumber d zero zero))
  | octals {d e : UInt8} : DigitOct d → DigitOct e →
      EscapeSeq [backslash, d, e] (UInt8.ofNat (octalsToNumber e d zero))
  | octals' {d e f : UInt8} : DigitOct d → DigitOct e → DigitOct f →
      EscapeSeq [backslash, d, e, f] (UInt8.ofNat (octalsToNumber f e d))
  | hex {d : UInt8} : DigitHex d →
      EscapeSeq [backslash, letterX, d] (UInt8.ofNat (hexsToNumber d zero))
  | hexs {d e : UInt8} : DigitHex d → DigitHex e →
      EscapeSeq [backslash, letterX, d, e] (UInt8.ofNat (hexsToNumber e d))

inductive StringEscaped : Bytes → Bytes → Prop
  | char {c : UInt8} : CharBase c → StringEscaped [c] [c]
  | escape {e : Bytes} {c : UInt8} : EscapeSeq e c → StringEscaped e [c]
  | appendChar {t v : Bytes} {c : UInt8} : StringEscaped t v → CharBase c →
      StringEscaped (t ++ [c]) (v ++ [c])
  | appendEscape {t v e : Bytes} {c : UInt8} : StringEscaped t v → EscapeSeq e c →
      StringEscaped (t ++ e) (v ++ [c])

inductive TextEscapedBase : Bytes → Bytes → Prop
  | space : TextEscapedBase [space] [space]
  | string {t v : Bytes} : StringEscaped t v → TextEscapedBase t v
  | appendSpace {t v : Bytes} : TextEscapedBase t v →
      TextEscapedBase (t ++ [Lscp.space]) (v ++ [Lscp.space])
  | appendString {t v t' v' : Bytes} : TextEscapedBase t v → StringEscaped t' v' →
      TextEscapedBase (t ++ t') (v ++ v')

inductive TextEscaped : Bytes → Bytes → Prop
  | slash : TextEscaped [slash] [slash]
  | base {t v : Bytes} : TextEscapedBase t v → TextEscaped t v
  | appendSlash {t v : Bytes} : TextEscaped t v →
      TextEscaped (t ++ [Bytes.slash]) (v ++ [Bytes.slash])
  | appendBase {t v t' v' : Bytes} : TextEscaped t v → TextEscapedBase t' v' →
      TextEscaped (t ++ t') (v ++ v')

/-- The two quotation marks of a quoted text. -/
def IsQuote (q : UInt8) : Prop := q = apostrophe ∨ q = quotationMark

instance (q : UInt8) : Decidable (IsQuote q) := inferInstanceAs (Decidable (_ ∨ _))

inductive StringvalEscaped : Bytes → Bytes → Prop
  | quoted {q : UInt8} {t v : Bytes} : IsQuote q → TextEscaped t v →
      StringvalEscaped (q :: t ++ [q]) v

/-- `Path::setDrive()` -/
def setDrive (p : Path) (drive : UInt8) : Path := { p with drive := drive, absolute := true }

/-- `Path::operator+` -/
def addPath (p q : Path) : Path := { p with elements := p.elements ++ q.elements }

inductive PathPrefix : Bytes → Path → Prop
  | root : PathPrefix [slash] {}
  | drive {d : UInt8} : IsAlpha d → PathPrefix [d, colon, slash] (setDrive {} d)

inductive PathBody : Bytes → Path → Prop
  | empty : PathBody [] {}
  | appendSlash {t : Bytes} {p : Path} : PathBody t p → PathBody (t ++ [slash]) p
  | appendNode {t t' v : Bytes} {p : Path} : PathBody t p → TextEscapedBase t' v →
      PathBody (t ++ t') (addPath p (Path.appendNode {} v))

inductive PathBase : Bytes → Path → Prop
  | mk {t t' : Bytes} {p p' : Path} : PathPrefix t p → PathBody t' p' →
      PathBase (t ++ t') (addPath p p')

inductive PathRule : Bytes → Path → Prop
  | quoted {q : UInt8} {t : Bytes} {p : Path} : IsQuote q → PathBase t p →
      PathRule (q :: t ++ [q]) p

/-! ## Reader -/

/-- What has been shifted of an escape sequence that may go on. -/
inductive Shifted where
  | nothing
  | backslash
  | octal (d : { c : UInt8 // DigitOct c })
  | octals (d e : { c : UInt8 // DigitOct c })
  | letterX
  | hex (d : { c : UInt8 // DigitHex c })

def Shifted.chars : Shifted → Bytes
  | .nothing => []
  | .backslash => [Lscp.backslash]
  | .octal d => [Lscp.backslash, d]
  | .octals d e => [Lscp.backslash, d, e]
  | .letterX => [Lscp.backslash, Lscp.letterX]
  | .hex d => [Lscp.backslash, Lscp.letterX, d]

structure TextReader where
  text : Bytes := []
  shifted : Shifted := .nothing

namespace TextReader

def append (r : TextReader) (c : UInt8) : TextReader := { text := r.text ++ [c] }

/-- Shifts a character; `plain` are the characters that stand for themselves. -/
def shift (plain : UInt8 → Prop) [DecidablePred plain] (r : TextReader) (c : UInt8) :
    Option TextReader :=
  match r.shifted with
  | .nothing =>
      if c = backslash then some { r with shifted := .backslash }
      else if plain c then some (r.append c)
      else none
  | .backslash =>
      match escapeChar c with
      | some v => some (r.append v)
      | none =>
          if h : DigitOct c then some { r with shifted := .octal ⟨c, h⟩ }
          else if c = letterX then some { r with shifted := .letterX }
          else none
  | .octal d => if h : DigitOct c then some { r with shifted := .octals d ⟨c, h⟩ } else none
  | .octals d e =>
      if DigitOct c then some (r.append (UInt8.ofNat (octalsToNumber c e d))) else none
  | .letterX => if h : DigitHex c then some { r with shifted := .hex ⟨c, h⟩ } else none
  | .hex d => if DigitHex c then some (r.append (UInt8.ofNat (hexsToNumber c d))) else none

/-- Reduces what has been shifted to the character it stands for. -/
def reduce (r : TextReader) : Option TextReader :=
  match r.shifted with
  | .nothing => some r
  | .octal d => some (r.append (UInt8.ofNat (octalsToNumber d zero zero)))
  | .octals d e => some (r.append (UInt8.ofNat (octalsToNumber e d zero)))
  | .hex d => some (r.append (UInt8.ofNat (hexsToNumber d zero)))
  | .backslash | .letterX => none

/-- A character that can be shifted is not left for what follows a reduction. -/
def read (plain : UInt8 → Prop) [DecidablePred plain] (r : TextReader) (c : UInt8) :
    Option TextReader :=
  match r.shift plain c with
  | some r' => some r'
  | none => r.reduce.bind fun r' => r'.shift plain c

end TextReader

/-- What stands between quotation marks, read from left to right. No reader reads a
quotation mark that is not escaped, or has a value after a lone backslash. -/
def readQuoted {σ α : Type} (read : σ → UInt8 → Option σ) (value : σ → Option α) (start : σ) :
    Bytes → Option α
  | [] => none
  | q :: t =>
      if IsQuote q ∧ t.getLast? = some q then (t.dropLast.foldlM read start).bind value else none

/-- The characters of `text_escaped_base` that stand for themselves. -/
def BasePlain (c : UInt8) : Prop := c = space ∨ CharBase c

/-- The characters of `text_escaped` that stand for themselves. -/
def TextPlain (c : UInt8) : Prop := c = slash ∨ BasePlain c

instance : DecidablePred BasePlain := fun _ => inferInstanceAs (Decidable (_ ∨ _))
instance : DecidablePred TextPlain := fun _ => inferInstanceAs (Decidable (_ ∨ _))

/-- The value of a text, which has at least one character. -/
def TextReader.value (r : TextReader) : Option Bytes :=
  r.reduce.bind fun r' => if r'.text = [] then none else some r'.text

def stringvalEscaped (t : Bytes) : Option Bytes :=
  readQuoted (TextReader.read TextPlain) TextReader.value {} t

structure PathReader where
  path : Path := {}
  node : TextReader := {}

namespace PathReader

/-- Reduces the node that has been read, if one has been begun. -/
def reduce (r : PathReader) : Option Path :=
  r.node.reduce.map fun node => addPath r.path (Path.appendNode {} node.text)

/-- `path_body`: a slash that belongs to no escape sequence ends a node. -/
def read (r : PathReader) (c : UInt8) : Option PathReader :=
  match r.node.read BasePlain c with
  | some node => some { r with node := node }
  | none => if c = slash then r.reduce.map fun p => { path := p } else none

end PathReader

/-- What has been read of `path_base`: of `path_prefix`, or with the prefix
`path_body`. -/
inductive PathState where
  | start
  | drive (d : { c : UInt8 // IsAlpha c })
  | driveColon (d : { c : UInt8 // IsAlpha c })
  | body (pathPrefix : Path) (r : PathReader)

namespace PathState

def read : PathState → UInt8 → Option PathState
  | start, c =>
      if c = slash then some (body {} {})
      else if h : IsAlpha c then some (drive ⟨c, h⟩)
      else none
  | drive d, c => if c = colon then some (driveColon d) else none
  | driveColon d, c => if c = slash then some (body (setDrive {} d) {}) else none
  | body p r, c => (r.read c).map (body p)

def value : PathState → Option Path
  | body p r => r.reduce.map (addPath p)
  | _ => none

end PathState

def path (t : Bytes) : Option Path := readQuoted PathState.read PathState.value .start t

/-! ## What the readers read is derived -/

namespace TextReader

/-- The reader has read `t`: a part that `D` derives for the text read so far, and
behind it what has been shifted of an escape sequence. -/
def Reads (D : Bytes → Bytes → Prop) (t : Bytes) (r : TextReader) : Prop :=
  ∃ done, t = done ++ r.shifted.chars ∧ D done r.text

section

variable {D : Bytes → Bytes → Prop} {plain : UInt8 → Prop} [DecidablePred plain]

theorem reads_append {r : TextReader} {done e : Bytes} {c : UInt8}
    (hescape : ∀ {t v e : Bytes} {c : UInt8}, D t v → EscapeSeq e c → D (t ++ e) (v ++ [c]))
    (h : D done r.text) (he : EscapeSeq e c) : Reads D (done ++ e) (r.append c) := by
  refine ⟨done ++ e, ?_, hescape h he⟩
  simp [append, Shifted.chars]

theorem reads_shift {r r' : TextReader} {t : Bytes} {c : UInt8}
    (hplain : ∀ {t v : Bytes} {c : UInt8}, D t v → plain c → D (t ++ [c]) (v ++ [c]))
    (hescape : ∀ {t v e : Bytes} {c : UInt8}, D t v → EscapeSeq e c → D (t ++ e) (v ++ [c]))
    (h : Reads D t r) (hr : r.shift plain c = some r') : Reads D (t ++ [c]) r' := by
  rcases h with ⟨done, rfl, hD⟩
  rw [List.append_assoc]
  unfold shift at hr
  cases hs : r.shifted with
  | nothing =>
      rw [hs] at hr
      dsimp only at hr
      split_ifs at hr with hc hp
      · cases hr
        exact ⟨done, by rw [hc]; rfl, hD⟩
      · cases hr
        exact ⟨done ++ [c], by simp [append, Shifted.chars], hplain hD hp⟩
  | backslash =>
      rw [hs] at hr
      dsimp only at hr
      split at hr
      · next v hv =>
        cases hr
        exact reads_append hescape hD (.char hv)
      · split_ifs at hr with hd hx
        · cases hr
          exact ⟨done, rfl, hD⟩
        · cases hr
          exact ⟨done, by rw [hx]; rfl, hD⟩
  | octal d =>
      rw [hs] at hr
      dsimp only at hr
      split_ifs at hr with hd
      cases hr
      exact ⟨done, rfl, hD⟩
  | octals d e =>
      rw [hs] at hr
      dsimp only at hr
      split_ifs at hr with hd
      cases hr
      exact reads_append hescape hD (.octals' d.2 e.2 hd)
  | letterX =>
      rw [hs] at hr
      dsimp only at hr
      split_ifs at hr with hd
      cases hr
      exact ⟨done, rfl, hD⟩
  | hex d =>
      rw [hs] at hr
      dsimp only at hr
      split_ifs at hr with hd
      cases hr
      exact reads_append hescape hD (.hexs d.2 hd)

/-- A reduction leaves nothing of an escape sequence. -/
theorem reads_reduce {r r' : TextReader} {t : Bytes}
    (hescape : ∀ {t v e : Bytes} {c : UInt8}, D t v → EscapeSeq e c → D (t ++ e) (v ++ [c]))
    (h : Reads D t r) (hr : r.reduce = some r') : Reads D t r' ∧ D t r'.text := by
  suffices hD : r'.shifted = .nothing ∧ D t r'.text from
    ⟨⟨t, by rw [hD.1, Shifted.chars, List.append_nil], hD.2⟩, hD.2⟩
  rcases h with ⟨done, rfl, hD⟩
  unfold reduce at hr
  cases hs : r.shifted with
  | nothing =>
      rw [hs] at hr
      cases hr
      exact ⟨hs, by simpa [Shifted.chars] using hD⟩
  | octal d =>
      rw [hs] at hr
      cases hr
      exact ⟨rfl, hescape hD (.octal d.2)⟩
  | octals d e =>
      rw [hs] at hr
      cases hr
      exact ⟨rfl, hescape hD (.octals d.2 e.2)⟩
  | hex d =>
      rw [hs] at hr
      cases hr
      exact ⟨rfl, hescape hD (.hex d.2)⟩
  | backslash =>
      rw [hs] at hr
      cases hr
  | letterX =>
      rw [hs] at hr
      cases hr

theorem reads_read {r r' : TextReader} {t : Bytes} {c : UInt8}
    (hplain : ∀ {t v : Bytes} {c : UInt8}, D t v → plain c → D (t ++ [c]) (v ++ [c]))
    (hescape : ∀ {t v e : Bytes} {c : UInt8}, D t v → EscapeSeq e c → D (t ++ e) (v ++ [c]))
    (h : Reads D t r) (hr : r.read plain c = some r') : Reads D (t ++ [c]) r' := by
  unfold read at hr
  split at hr
  · next r₁ hshift =>
    cases hr
    exact reads_shift hplain hescape h hshift
  · obtain ⟨r₁, hreduce, hshift⟩ := Option.bind_eq_some_iff.mp hr
    exact reads_shift hplain hescape (reads_reduce hescape h hreduce).1 hshift

end

end TextReader

/-- What every step of a reader keeps, its run keeps. -/
theorem foldlM_keeps {σ : Type} {read : σ → UInt8 → Option σ} {I : Bytes → σ → Prop}
    (hread : ∀ {t : Bytes} {c : UInt8} {r r' : σ}, I t r → read r c = some r' → I (t ++ [c]) r')
    (u : Bytes) : ∀ {t : Bytes} {r r' : σ}, I t r → u.foldlM read r = some r' → I (t ++ u) r' := by
  induction u with
  | nil =>
      intro t r r' h hr
      cases hr
      rwa [List.append_nil]
  | cons c u ih =>
      intro t r r' h hr
      rw [List.foldlM_cons] at hr
      obtain ⟨r₁, hc, hu⟩ := Option.bind_eq_some_iff.mp hr
      rw [List.append_cons]
      exact ih (hread h hc) hu

/-- A quoted text is the text between two equal quotation marks. -/
theorem readQuoted_eq_some {σ α : Type} {read : σ → UInt8 → Option σ} {value : σ → Option α}
    {start : σ} {t : Bytes} {a : α} (h : readQuoted read value start t = some a) :
    ∃ q u, t = q :: u ++ [q] ∧ IsQuote q ∧ ∃ r, u.foldlM read start = some r ∧ value r = some a := by
  unfold readQuoted at h
  split at h
  · cases h
  · next q t =>
    split_ifs at h with hq
    rcases hq with ⟨hquote, hlast⟩
    obtain ⟨r, hr, hv⟩ := Option.bind_eq_some_iff.mp h
    refine ⟨q, t.dropLast, ?_, hquote, r, hr, hv⟩
    rw [List.cons_append, List.dropLast_append_getLast? q hlast]

theorem readQuoted_quoted {σ α : Type} (read : σ → UInt8 → Option σ) (value : σ → Option α)
    (start : σ) (t : Bytes) :
    readQuoted read value start (apostrophe :: t ++ [apostrophe]) =
      (t.foldlM read start).bind value := by
  have hlast : (t ++ [apostrophe]).getLast? = some apostrophe := by simp
  rw [List.cons_append, readQuoted, if_pos ⟨Or.inl rfl, hlast⟩, List.dropLast_concat]

/-- `text_escaped`, or nothing. -/
def TextEscaped? (t v : Bytes) : Prop := t = [] ∧ v = [] ∨ TextEscaped t v

/-- `text_escaped_base`, or nothing. -/
def TextEscapedBase? (t v : Bytes) : Prop := t = [] ∧ v = [] ∨ TextEscapedBase t v

theorem TextEscapedBase?.append {t v t' v' : Bytes} (h : TextEscapedBase? t v)
    (h' : StringEscaped t' v') : TextEscapedBase? (t ++ t') (v ++ v') := by
  rcases h with ⟨rfl, rfl⟩ | h
  · exact .inr (.string h')
  · exact .inr (.appendString h h')

theorem TextEscapedBase?.appendPlain {t v : Bytes} {c : UInt8} (h : TextEscapedBase? t v)
    (hc : BasePlain c) : TextEscapedBase? (t ++ [c]) (v ++ [c]) := by
  rcases hc with rfl | hc
  · rcases h with ⟨rfl, rfl⟩ | h
    · exact .inr .space
    · exact .inr (.appendSpace h)
  · exact h.append (.char hc)

theorem TextEscaped?.append {t v t' v' : Bytes} (h : TextEscaped? t v)
    (h' : TextEscapedBase t' v') : TextEscaped? (t ++ t') (v ++ v') := by
  rcases h with ⟨rfl, rfl⟩ | h
  · exact .inr (.base h')
  · exact .inr (.appendBase h h')

theorem TextEscaped?.appendPlain {t v : Bytes} {c : UInt8} (h : TextEscaped? t v)
    (hc : TextPlain c) : TextEscaped? (t ++ [c]) (v ++ [c]) := by
  rcases hc with rfl | rfl | hc
  · rcases h with ⟨rfl, rfl⟩ | h
    · exact .inr .slash
    · exact .inr (.appendSlash h)
  · exact h.append .space
  · exact h.append (.string (.char hc))

/-- What the reader reads is derived by the rule. -/
theorem stringvalEscaped_sound {t v : Bytes} (h : stringvalEscaped t = some v) :
    StringvalEscaped t v := by
  obtain ⟨q, u, rfl, hq, r, hr, hv⟩ := readQuoted_eq_some h
  have hescape : ∀ {t v e : Bytes} {c : UInt8}, TextEscaped? t v → EscapeSeq e c →
      TextEscaped? (t ++ e) (v ++ [c]) := fun h he => h.append (.string (.escape he))
  have hstart : TextReader.Reads TextEscaped? [] {} := ⟨[], rfl, .inl ⟨rfl, rfl⟩⟩
  have hreads : TextReader.Reads TextEscaped? u r :=
    foldlM_keeps (TextReader.reads_read TextEscaped?.appendPlain hescape) u hstart hr
  obtain ⟨r', hreduce, hv⟩ := Option.bind_eq_some_iff.mp hv
  split_ifs at hv with hnil
  cases hv
  rcases (TextReader.reads_reduce hescape hreads hreduce).2 with ⟨-, hv⟩ | htext
  · exact absurd hv hnil
  · exact .quoted hq htext

namespace PathReader

/-- The reader has read a body of a path and the beginning of a node behind it. -/
def Reads (t : Bytes) (r : PathReader) : Prop :=
  ∃ t₁ t₂, t = t₁ ++ t₂ ∧ PathBody t₁ r.path ∧ TextReader.Reads TextEscapedBase? t₂ r.node

theorem reads_reduce {t : Bytes} {r : PathReader} {p : Path} (h : Reads t r)
    (hr : r.reduce = some p) : PathBody t p := by
  rcases h with ⟨t₁, t₂, rfl, hbody, hnode⟩
  obtain ⟨node, hreduce, rfl⟩ := Option.map_eq_some_iff.mp hr
  rcases (TextReader.reads_reduce (fun h he => h.append (.escape he)) hnode hreduce).2 with
    ⟨rfl, htext⟩ | htext
  · rw [htext, List.append_nil]
    have hsame : addPath r.path (Path.appendNode {} []) = r.path := by
      show ({ r.path with elements := r.path.elements ++ [] } : Path) = r.path
      rw [List.append_nil]
    rwa [hsame]
  · exact .appendNode hbody htext

theorem reads_read {t : Bytes} {c : UInt8} {r r' : PathReader} (h : Reads t r)
    (hr : r.read c = some r') : Reads (t ++ [c]) r' := by
  unfold read at hr
  split at hr
  · next node hread =>
    cases hr
    rcases h with ⟨t₁, t₂, rfl, hbody, hnode⟩
    refine ⟨t₁, t₂ ++ [c], List.append_assoc .., hbody, ?_⟩
    exact TextReader.reads_read TextEscapedBase?.appendPlain (fun h he => h.append (.escape he))
      hnode hread
  · split_ifs at hr with hc
    obtain ⟨p, hp, rfl⟩ := Option.map_eq_some_iff.mp hr
    rw [hc]
    exact ⟨t ++ [slash], [], (List.append_nil _).symm, .appendSlash (reads_reduce h hp),
      [], rfl, .inl ⟨rfl, rfl⟩⟩

end PathReader

namespace PathState

/-- What has been read in each state. -/
def Reads (t : Bytes) : PathState → Prop
  | start => t = []
  | drive d => t = [d.1]
  | driveColon d => t = [d.1, colon]
  | body p r => ∃ t₁ t₂, t = t₁ ++ t₂ ∧ PathPrefix t₁ p ∧ r.Reads t₂

theorem reads_body {p : Path} {t : Bytes} (h : PathPrefix t p) : Reads t (body p {}) :=
  ⟨t, [], (List.append_nil _).symm, h, [], [], rfl, .empty, [], rfl, .inl ⟨rfl, rfl⟩⟩

theorem reads_read {t : Bytes} {c : UInt8} {s s' : PathState} (h : Reads t s)
    (hs : s.read c = some s') : Reads (t ++ [c]) s' := by
  cases s with
  | start =>
      cases h
      unfold read at hs
      dsimp only at hs
      split_ifs at hs with hc hd
      · cases hs
        rw [hc]
        exact reads_body .root
      · cases hs
        rfl
  | drive d =>
      cases h
      unfold read at hs
      dsimp only at hs
      split_ifs at hs with hc
      cases hs
      rw [hc]
      rfl
  | driveColon d =>
      cases h
      unfold read at hs
      dsimp only at hs
      split_ifs at hs with hc
      cases hs
      rw [hc]
      exact reads_body (.drive d.2)
  | body p r =>
      rcases h with ⟨t₁, t₂, rfl, hprefix, hbody⟩
      obtain ⟨r', hr, rfl⟩ := Option.map_eq_some_iff.mp hs
      exact ⟨t₁, t₂ ++ [c], List.append_assoc .., hprefix, PathReader.reads_read hbody hr⟩

theorem reads_value {t : Bytes} {s : PathState} {p : Path} (h : Reads t s)
    (hs : s.value = some p) : PathBase t p := by
  cases s with
  | body q r =>
      rcases h with ⟨t₁, t₂, rfl, hprefix, hbody⟩
      obtain ⟨p', hr, rfl⟩ := Option.map_eq_some_iff.mp hs
      exact .mk hprefix (PathReader.reads_reduce hbody hr)
  | start => cases hs
  | drive d => cases hs
  | driveColon d => cases hs

end PathState

/-- What the reader reads is derived by the rule. -/
theorem path_sound {t : Bytes} {p : Path} (h : path t = some p) : PathRule t p := by
  obtain ⟨q, u, rfl, hq, s, hs, hp⟩ := readQuoted_eq_some h
  have hstart : PathState.Reads [] .start := rfl
  have hreads : PathState.Reads u s := foldlM_keeps PathState.reads_read u hstart hs
  exact .quoted hq (PathState.reads_value hreads hp)

end Lscp

end LinuxSampler
