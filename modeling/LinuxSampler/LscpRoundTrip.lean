import LinuxSampler.LscpEscape

/-!
# Reading back escaped text

A text that an encoder has written is read back if and only if it has no
grave accent: the encoders put a character as it is only if the rules read
it as itself, apart from that one, and the two digits of an escape sequence
leave nothing that the next character could be taken into.
-/

namespace LinuxSampler

namespace Lscp

open Bytes

/-! ## One character -/

theorem hexToNumber_hexDigit {n : Nat} (h : n < 16) : hexToNumber (hexDigit n) = n := by
  have hall : ∀ n < 16, hexToNumber (hexDigit n) = n := by decide
  exact hall n h

theorem digitHex_hexDigit {n : Nat} (h : n < 16) : DigitHex (hexDigit n) := by
  have hall : ∀ n < 16, DigitHex (hexDigit n) := by decide
  exact hall n h

/-- The two digits of a byte stand for it. -/
theorem hexsToNumber_hexDigit (c : UInt8) :
    UInt8.ofNat (hexsToNumber (hexDigit (c.toNat % 16)) (hexDigit (c.toNat / 16))) = c := by
  have hc : c.toNat < 256 := c.toNat_lt
  have hnumber : hexsToNumber (hexDigit (c.toNat % 16)) (hexDigit (c.toNat / 16)) = c.toNat := by
    rw [hexsToNumber, hexToNumber_hexDigit (by omega), hexToNumber_hexDigit (by omega)]
    omega
  rw [hnumber, UInt8.ofNat_toNat]

namespace TextReader

section

variable {plain : UInt8 → Prop} [DecidablePred plain]

theorem read_plain {t : Bytes} {c : UInt8} (hc : plain c) (hback : c ≠ backslash) :
    read plain { text := t } c = some { text := t ++ [c] } := by
  have hshift : shift plain { text := t } c = some { text := t ++ [c] } := by
    unfold shift
    dsimp only
    rw [if_neg hback, if_pos hc]
    rfl
  rw [read, hshift]

/-- Nothing is left to be reduced, and the character stands for nothing. -/
theorem read_eq_none {t : Bytes} {c : UInt8} (hc : ¬plain c) (hback : c ≠ backslash) :
    read plain { text := t } c = none := by
  have hshift : shift plain { text := t } c = none := by
    unfold shift
    dsimp only
    rw [if_neg hback, if_neg hc]
  rw [read, hshift]
  exact hshift

theorem foldlM_escapeSequence (t : Bytes) (c : UInt8) :
    (escapeSequence c).foldlM (read plain) { text := t } = some { text := t ++ [c] } := by
  have hc : c.toNat < 256 := c.toNat_lt
  have hd : DigitHex (hexDigit (c.toNat / 16)) := digitHex_hexDigit (by omega)
  have he : DigitHex (hexDigit (c.toNat % 16)) := digitHex_hexDigit (by omega)
  have hback : read plain { text := t } backslash = some { text := t, shifted := .backslash } :=
    rfl
  have hx : read plain { text := t, shifted := .backslash } letterX =
      some { text := t, shifted := .letterX } := rfl
  have hdigit : read plain { text := t, shifted := .letterX } (hexDigit (c.toNat / 16)) =
      some { text := t, shifted := .hex ⟨_, hd⟩ } := by
    simp [read, shift, hd]
  have hlast : read plain { text := t, shifted := .hex ⟨_, hd⟩ } (hexDigit (c.toNat % 16)) =
      some { text := t ++ [c] } := by
    simp [read, shift, he, append, hexsToNumber_hexDigit]
  simp [escapeSequence, hback, hx, hdigit, hlast]

/-- The reader reads back what the encoder with the list `l` puts for each character,
if the list is in order. -/
theorem foldlM_escapeSpecial {l : List UInt8} {s : Bytes}
    (hword : ∀ c, IsDigit c ∨ IsAlpha c → plain c) (hl : ∀ c ∈ l, c = graveAccent ∨ plain c)
    (hback : ¬plain backslash) (hs : graveAccent ∉ s) (t : Bytes) :
    (s.flatMap (escapeSpecial l)).foldlM (read plain) { text := t } = some { text := t ++ s } := by
  induction s generalizing t with
  | nil =>
      rw [List.append_nil]
      rfl
  | cons c s ih =>
      have hgrave : c ≠ graveAccent := fun h => hs (h ▸ List.mem_cons_self)
      have hchar : (escapeSpecial l c).foldlM (read plain) { text := t } =
          some { text := t ++ [c] } := by
        unfold escapeSpecial
        split_ifs with hplain
        · have hc : plain c := by
            rcases hplain with hc | hc | hc
            · exact hword c (.inl hc)
            · exact hword c (.inr hc)
            · exact (hl c hc).resolve_left hgrave
          rw [List.foldlM_cons, read_plain hc fun h => hback (h ▸ hc)]
          rfl
        · exact foldlM_escapeSequence t c
      have hrest := ih (fun h => hs (List.mem_cons_of_mem c h)) (t ++ [c])
      rw [List.flatMap_cons, List.foldlM_append, hchar]
      rw [List.append_assoc] at hrest
      exact hrest

end

end TextReader

theorem basePlain_word (c : UInt8) (h : IsDigit c ∨ IsAlpha c) : BasePlain c :=
  .inr (h.elim (fun hd => .inr (.inl hd)) .inl)

/-! ## Strings -/

theorem stringvalEscaped_escapeLscpResponse {s : Bytes} (hne : s ≠ []) (hs : graveAccent ∉ s) :
    stringvalEscaped (apostrophe :: escapeLscpResponse s ++ [apostrophe]) = some s := by
  have hread : (escapeLscpResponse s).foldlM (TextReader.read TextPlain) {} =
      some { text := [] ++ s } :=
    TextReader.foldlM_escapeSpecial (fun c hc => .inr (basePlain_word c hc))
      (@of_decide_eq_true _ (List.decidableBAll _ _) rfl) (by decide) hs []
  rw [stringvalEscaped, readQuoted_quoted, hread]
  show (if s = [] then none else some s) = some s
  rw [if_neg hne]

/-! ## Paths -/

/-- A node is read as a text. -/
theorem foldlM_node (p : Path) (u : Bytes) : ∀ {r r' : TextReader},
    u.foldlM (TextReader.read BasePlain) r = some r' →
      u.foldlM PathReader.read { path := p, node := r } = some { path := p, node := r' } := by
  induction u with
  | nil =>
      intro r r' h
      cases h
      rfl
  | cons c u ih =>
      intro r r' h
      rw [List.foldlM_cons] at h
      obtain ⟨r₁, hc, hu⟩ := Option.bind_eq_some_iff.mp h
      have hread : PathReader.read { path := p, node := r } c =
          some { path := p, node := r₁ } := by
        unfold PathReader.read
        rw [hc]
      rw [List.foldlM_cons, hread]
      exact ih hu

/-- Nodes that have been encoded are appended, one for each slash. -/
theorem foldlM_nodes {es : List Bytes} (hne : ∀ e ∈ es, e ≠ []) (hes : ∀ e ∈ es, graveAccent ∉ e) :
    ∀ {p p' : Path} {t : Bytes},
      PathReader.reduce { path := p, node := { text := t } } = some p' →
      ∃ r, (es.flatMap fun e => slash :: e.flatMap (escapeSpecial pathPlain)).foldlM
          PathReader.read { path := p, node := { text := t } } = some r ∧
        r.reduce = some { p' with elements := p'.elements ++ es } := by
  induction es with
  | nil =>
      intro p p' t hp
      exact ⟨_, rfl, by rw [hp, List.append_nil]⟩
  | cons e es ih =>
      intro p p' t hp
      have hslash : PathReader.read { path := p, node := { text := t } } slash =
          some { path := p' } := by
        have hnode : TextReader.read BasePlain { text := t } slash = none :=
          TextReader.read_eq_none (by decide) (by decide)
        unfold PathReader.read
        rw [hnode]
        dsimp only
        rw [if_pos rfl, hp]
        rfl
      have hread : (e.flatMap (escapeSpecial pathPlain)).foldlM PathReader.read { path := p' } =
          some { path := p', node := { text := [] ++ e } } :=
        foldlM_node p' _ (TextReader.foldlM_escapeSpecial basePlain_word
          (@of_decide_eq_true _ (List.decidableBAll _ _) rfl) (by decide)
          (hes e List.mem_cons_self) [])
      have hreduce : PathReader.reduce { path := p', node := { text := [] ++ e } } =
          some { p' with elements := p'.elements ++ [e] } := by
        show some (addPath p' (Path.appendNode {} e)) = _
        rw [Path.appendNode, if_neg (hne e List.mem_cons_self)]
        rfl
      obtain ⟨r, hr, hlast⟩ := ih (fun x hx => hne x (List.mem_cons_of_mem e hx))
        (fun x hx => hes x (List.mem_cons_of_mem e hx)) hreduce
      refine ⟨r, ?_, ?_⟩
      · rw [List.flatMap_cons, List.cons_append, List.foldlM_cons, hslash]
        show (_ ++ _ : Bytes).foldlM PathReader.read { path := p' } = some r
        rw [List.foldlM_append, hread]
        exact hr
      · rw [hlast]
        simp

theorem foldlM_body (p : Path) (u : Bytes) : ∀ {r r' : PathReader},
    u.foldlM PathReader.read r = some r' →
      u.foldlM PathState.read (.body p r) = some (.body p r') := by
  induction u with
  | nil =>
      intro r r' h
      cases h
      rfl
  | cons c u ih =>
      intro r r' h
      rw [List.foldlM_cons] at h
      obtain ⟨r₁, hc, hu⟩ := Option.bind_eq_some_iff.mp h
      have hread : PathState.read (.body p r) c = some (.body p r₁) := by
        show (r.read c).map (PathState.body p) = _
        rw [hc]
        rfl
      rw [List.foldlM_cons, hread]
      exact ih hu

/-- The first slash stands for the prefix of the path; it changes nothing if it is read
as a part of the body instead. -/
theorem foldlM_start (u : Bytes) :
    (slash :: u).foldlM PathState.read .start =
      (slash :: u).foldlM PathState.read (.body {} {}) := by
  have hbody : PathState.read (.body {} {}) slash = some (.body {} {}) := rfl
  have hstart : PathState.read .start slash = some (.body {} {}) := rfl
  rw [List.foldlM_cons, List.foldlM_cons, hbody, hstart]

theorem toLscp_eq_cons (p : Path) : ∃ u, toLscp p = slash :: u ∧
    (slash :: u).foldlM PathState.read (.body {} {}) =
      (p.elements.flatMap fun e => slash :: e.flatMap (escapeSpecial pathPlain)).foldlM
        PathState.read (.body {} {}) := by
  unfold toLscp
  cases p.elements with
  | nil => exact ⟨[], rfl, rfl⟩
  | cons e es =>
      refine ⟨_, ?_, rfl⟩
      exact if_neg (List.cons_ne_nil _ _)

theorem path_toLscp {p : Path} (hne : ∀ e ∈ p.elements, e ≠ [])
    (hp : ∀ e ∈ p.elements, graveAccent ∉ e) :
    path (apostrophe :: toLscp p ++ [apostrophe]) = some { elements := p.elements } := by
  obtain ⟨u, hu, hfold⟩ := toLscp_eq_cons p
  have hstart : PathReader.reduce { path := {}, node := { text := [] } } = some {} := rfl
  obtain ⟨r, hr, hreduce⟩ := foldlM_nodes hne hp hstart
  rw [path, readQuoted_quoted, hu, foldlM_start, hfold, foldlM_body {} _ hr]
  show r.reduce.map (addPath {}) = _
  rw [hreduce]
  rfl

/-! ## No rule reads a grave accent -/

theorem EscapeSeq.not_mem {e : Bytes} {c : UInt8} (h : EscapeSeq e c) : graveAccent ∉ e := by
  have hback : graveAccent ≠ backslash := by decide
  have hx : graveAccent ≠ letterX := by decide
  have hoct : ∀ d : UInt8, DigitOct d → graveAccent ≠ d := by
    rintro d hd rfl
    exact absurd hd (by decide)
  have hhex : ∀ d : UInt8, DigitHex d → graveAccent ≠ d := by
    rintro d hd rfl
    exact absurd hd (by decide)
  cases h with
  | @char d _ hv =>
      have hnone : escapeChar graveAccent = none := rfl
      have hd : graveAccent ≠ d := by
        rintro rfl
        rw [hnone] at hv
        cases hv
      simp [hback, hd]
  | octal hd => simp [hback, hoct _ hd]
  | octals hd he => simp [hback, hoct _ hd, hoct _ he]
  | octals' hd he hf => simp [hback, hoct _ hd, hoct _ he, hoct _ hf]
  | hex hd => simp [hback, hx, hhex _ hd]
  | hexs hd he => simp [hback, hx, hhex _ hd, hhex _ he]

theorem CharBase.not_mem {c : UInt8} (h : CharBase c) : graveAccent ∉ [c] := by
  intro hmem
  rw [← List.mem_singleton.mp hmem] at h
  exact absurd h (by decide)

theorem not_mem_append {t t' : Bytes} (h : graveAccent ∉ t) (h' : graveAccent ∉ t') :
    graveAccent ∉ t ++ t' := by
  intro hmem
  rcases List.mem_append.mp hmem with hm | hm
  · exact h hm
  · exact h' hm

theorem StringEscaped.not_mem {t v : Bytes} (h : StringEscaped t v) : graveAccent ∉ t := by
  induction h with
  | char hc => exact hc.not_mem
  | escape he => exact he.not_mem
  | appendChar _ hc ih => exact not_mem_append ih hc.not_mem
  | appendEscape _ he ih => exact not_mem_append ih he.not_mem

theorem TextEscapedBase.not_mem {t v : Bytes} (h : TextEscapedBase t v) : graveAccent ∉ t := by
  induction h with
  | space => decide
  | string hs => exact hs.not_mem
  | appendSpace _ ih => exact not_mem_append ih (by decide)
  | appendString _ hs ih => exact not_mem_append ih hs.not_mem

theorem TextEscaped.not_mem {t v : Bytes} (h : TextEscaped t v) : graveAccent ∉ t := by
  induction h with
  | slash => decide
  | base hb => exact hb.not_mem
  | appendSlash _ ih => exact not_mem_append ih (by decide)
  | appendBase _ hb ih => exact not_mem_append ih hb.not_mem

theorem PathBody.not_mem {t : Bytes} {p : Path} (h : PathBody t p) : graveAccent ∉ t := by
  induction h with
  | empty => exact List.not_mem_nil
  | appendSlash _ ih => exact not_mem_append ih (by decide)
  | appendNode _ hb ih => exact not_mem_append ih hb.not_mem

theorem PathPrefix.not_mem {t : Bytes} {p : Path} (h : PathPrefix t p) : graveAccent ∉ t := by
  cases h with
  | root => decide
  | @drive d hd =>
      have hgrave : graveAccent ≠ d := by
        rintro rfl
        exact absurd hd (by decide)
      have hcolon : graveAccent ≠ colon := by decide
      have hslash : graveAccent ≠ slash := by decide
      simp [hgrave, hcolon, hslash]

theorem not_mem_of_stringvalEscaped {t v : Bytes}
    (h : StringvalEscaped (apostrophe :: t ++ [apostrophe]) v) : graveAccent ∉ t := by
  intro hmem
  generalize ht : apostrophe :: t ++ [apostrophe] = t' at h
  cases h with
  | quoted hq htext =>
      obtain ⟨-, ht⟩ := List.cons.inj ht
      rw [(List.append_inj' ht rfl).1] at hmem
      exact htext.not_mem hmem

theorem not_mem_of_pathRule {t : Bytes} {p : Path}
    (h : PathRule (apostrophe :: t ++ [apostrophe]) p) : graveAccent ∉ t := by
  intro hmem
  generalize ht : apostrophe :: t ++ [apostrophe] = t' at h
  cases h with
  | quoted hq hbase =>
      obtain ⟨-, ht⟩ := List.cons.inj ht
      rw [(List.append_inj' ht rfl).1] at hmem
      cases hbase with
      | mk hprefix hbody => exact not_mem_append hprefix.not_mem hbody.not_mem hmem

/-- An encoder whose list has the grave accent leaves it in the text. -/
theorem mem_flatMap_escapeSpecial {l : List UInt8} {s : Bytes} (hl : graveAccent ∈ l)
    (h : graveAccent ∈ s) : graveAccent ∈ s.flatMap (escapeSpecial l) := by
  refine List.mem_flatMap.mpr ⟨graveAccent, h, ?_⟩
  rw [escapeSpecial, if_pos (.inr (.inr hl))]
  exact List.mem_singleton_self _

theorem mem_toLscp {p : Path} {e : Bytes} (he : e ∈ p.elements) (h : graveAccent ∈ e) :
    graveAccent ∈ toLscp p := by
  have hmem : graveAccent ∈
      p.elements.flatMap fun e => slash :: e.flatMap (escapeSpecial pathPlain) :=
    List.mem_flatMap.mpr
      ⟨e, he, List.mem_cons_of_mem _ (mem_flatMap_escapeSpecial (by decide) h)⟩
  unfold toLscp
  dsimp only
  rw [if_neg (List.ne_nil_of_mem hmem)]
  exact hmem

/-! ## Round trips -/

/-- The escaped string between apostrophes is a `stringval_escaped` and yields the
string. -/
def StringRoundTrips (s : Bytes) : Prop :=
  let t := apostrophe :: escapeLscpResponse s ++ [apostrophe]
  StringvalEscaped t s ∧ stringvalEscaped t = some s

/-- The LSCP form of the path between apostrophes is a `path` and yields its nodes. -/
def PathRoundTrips (p : Path) : Prop :=
  let t := apostrophe :: toLscp p ++ [apostrophe]
  ∃ p', PathRule t p' ∧ path t = some p' ∧ p'.elements = p.elements

/-- A text and a path come back from their LSCP forms just if there is no grave accent in them, which
the grammar does not have. -/
theorem escape_round_trips_iff (s : Bytes) (p : Path) :
    (s ≠ [] → (StringRoundTrips s ↔ graveAccent ∉ s)) ∧
      ((∀ e ∈ p.elements, e ≠ []) →
        (PathRoundTrips p ↔ ∀ e ∈ p.elements, graveAccent ∉ e)) := by
  constructor
  · intro hne
    constructor
    · intro h hmem
      exact not_mem_of_stringvalEscaped h.1 (mem_flatMap_escapeSpecial (by decide) hmem)
    · intro hs
      have hread := stringvalEscaped_escapeLscpResponse hne hs
      exact ⟨stringvalEscaped_sound hread, hread⟩
  · intro hne
    constructor
    · rintro ⟨p', hrule, -, -⟩ e he hmem
      exact not_mem_of_pathRule hrule (mem_toLscp he hmem)
    · intro hp
      have hread := path_toLscp hne hp
      exact ⟨_, path_sound hread, hread, rfl⟩

/-- An apostrophe and a byte that is no ASCII character in a string, and a path with a
slash and a space in its nodes. -/
theorem escape_round_trips_special :
    StringRoundTrips [apostrophe, 200, 65] ∧
      PathRoundTrips { elements := [[65, slash, 66], [space, 0]] } :=
  ⟨((escape_round_trips_iff _ {}).1 (by decide)).mpr (by decide),
    ((escape_round_trips_iff [] _).2 (by decide)).mpr (by decide)⟩

/-- A grave accent alone, as a string and as a node of a path. -/
theorem not_escape_round_trips :
    ¬((∀ s : Bytes, s ≠ [] → StringRoundTrips s) ∧
        ∀ p : Path, (∀ e ∈ p.elements, e ≠ []) → PathRoundTrips p) ∧
      ¬StringRoundTrips [graveAccent] ∧ ¬PathRoundTrips { elements := [[graveAccent]] } := by
  have hstring : ¬StringRoundTrips [graveAccent] := fun h =>
    not_mem_of_stringvalEscaped h.1 (by decide)
  have hpath : ¬PathRoundTrips { elements := [[graveAccent]] } := by
    rintro ⟨p', hrule, -, -⟩
    exact not_mem_of_pathRule hrule (by decide)
  exact ⟨fun h => hstring (h.1 _ (by decide)), hstring, hpath⟩

end Lscp

end LinuxSampler
