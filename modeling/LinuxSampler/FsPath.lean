import LinuxSampler.SplitNodes

/-!
# Path encodings

`Path` of `common/Path.cpp`: a list of raw node names, and its encodings
as a POSIX path and as a path of the instruments database. Strings are
lists of bytes, with positions without bounds.

Whatever bytes the names of the nodes contain, decoding an encoded path
gives back the nodes (`Path.round_trip`); a database path can not tell
NUL bytes and slashes apart.
-/

namespace LinuxSampler

open SplitNodes

abbrev Bytes := List UInt8

namespace Bytes

def nul : UInt8 := 0
def percent : UInt8 := 37
def slash : UInt8 := 47
def question : UInt8 := 63

/-- `"%%"` -/
def percentSequence : Bytes := [percent, percent]

/-- `"%2f"` -/
def slashSequence : Bytes := [percent, 50, 102]

end Bytes

open Bytes

/-- `hexToNumber()`; 48, 65 and 97 are the codes of `0`, `A` and `a`. -/
def hexToNumber (hexDigit : UInt8) : Nat :=
  if 48 ≤ hexDigit ∧ hexDigit ≤ 57 then hexDigit.toNat - 48
  else if 97 ≤ hexDigit ∧ hexDigit ≤ 102 then hexDigit.toNat - 97 + 10
  else if 65 ≤ hexDigit ∧ hexDigit ≤ 70 then hexDigit.toNat - 65 + 10
  else 0

/-- `hexsToNumber()` -/
def hexsToNumber (hexDigit0 hexDigit1 : UInt8) : Nat :=
  hexToNumber hexDigit1 * 16 + hexToNumber hexDigit0

structure Path where
  elements : List Bytes := []
  drive : UInt8 := nul
  absolute : Bool := false

namespace Path

def appendNode (p : Path) (name : Bytes) : Path :=
  if name = [] then p else { p with elements := p.elements ++ [name] }

/-! ## POSIX -/

/-- The loops that encode percent characters, then slashes: each goes on behind
what it has put in. -/
def encodePosix (e : Bytes) : Bytes :=
  escape slash slashSequence (escape percent percentSequence e)

def toPosix (p : Path) : Bytes :=
  let result := join slash (p.elements.map encodePosix)
  if result = [] then [slash] else result

/-- The loop that resolves escape sequences in a node. It goes on behind the
character it has put in, or one character further if that is NUL, which
puts in nothing. -/
def decodePosix : Bytes → Bytes
  | [] => []
  | c :: s =>
      if c = percent then
        match s with
        | [] => [question]
        | d :: s =>
            if d = percent then percent :: decodePosix s
            else
              match s with
              | [] => [question]
              | e :: s =>
                  let ascii := UInt8.ofNat (hexsToNumber e d)
                  if ascii = nul then
                    match s with
                    | [] => []
                    | x :: s => x :: decodePosix s
                  else ascii :: decodePosix s
      else c :: decodePosix s

def fromPosix (path : Bytes) : Path :=
  let result := (split slash path).foldl appendNode {}
  { result with
    elements := result.elements.map decodePosix
    absolute := path.head? = some slash }

/-! ## Instruments database -/

def encodeDb (e : Bytes) : Bytes := e.map fun c => if c = slash then nul else c

def decodeDb (s : Bytes) : Bytes := s.map fun c => if c = nul then slash else c

def toDbPath (p : Path) : Bytes :=
  let result := join slash (p.elements.map encodeDb)
  if result = [] then [slash] else result

def fromDbPath (path : Bytes) : Path :=
  (split slash path).foldl (fun result s => result.appendNode (decodeDb s)) {}

/-! ## Round trips -/

theorem decodePosix_percent (s : Bytes) :
    decodePosix (percent :: percent :: s) = percent :: decodePosix s := by
  rw [decodePosix.eq_def]
  dsimp only
  rw [if_pos rfl, if_pos rfl]

theorem decodePosix_slash (s : Bytes) :
    decodePosix (slashSequence ++ s) = slash :: decodePosix s := by
  show decodePosix (percent :: 50 :: 102 :: s) = _
  rw [decodePosix.eq_def]
  dsimp only
  rw [if_pos rfl, if_neg (by decide), if_neg (by decide)]
  rfl

theorem decodePosix_cons {c : UInt8} (hc : c ≠ percent) (s : Bytes) :
    decodePosix (c :: s) = c :: decodePosix s := by
  rw [decodePosix.eq_def]
  exact if_neg hc

/-- Escape sequences are resolved to what they stand for. -/
theorem decodePosix_encodePosix (e : Bytes) : decodePosix (encodePosix e) = e := by
  induction e with
  | nil => rfl
  | cons c e ih =>
      have hcons : encodePosix (c :: e) =
          escape slash slashSequence (if c = percent then percentSequence else [c]) ++
            encodePosix e := by
        rw [encodePosix, escape_cons, escape_append, encodePosix]
      rw [hcons]
      by_cases hpercent : c = percent
      · rw [if_pos hpercent, hpercent]
        show decodePosix (percent :: percent :: encodePosix e) = _
        rw [decodePosix_percent, ih]
      · rw [if_neg hpercent, escape_cons, escape_nil, List.append_nil]
        by_cases hslash : c = slash
        · rw [if_pos hslash, decodePosix_slash, ih, hslash]
        · rw [if_neg hslash, List.singleton_append, decodePosix_cons hpercent, ih]

theorem decodeDb_encodeDb {e : Bytes} (h : nul ∉ e) : decodeDb (encodeDb e) = e := by
  unfold decodeDb encodeDb
  rw [List.map_map]
  refine (List.map_congr_left fun c hc => ?_).trans (List.map_id e)
  by_cases hslash : c = slash
  · simp [hslash]
  · have hnul : c ≠ nul := fun heq => h (heq ▸ hc)
    simp [hslash, hnul]

/-- An encoded node is a node that a path can be split into. -/
theorem encodePosix_isNode {e : Bytes} (h : e ≠ []) :
    encodePosix e ≠ [] ∧ slash ∉ encodePosix e :=
  ⟨escape_ne_nil (by decide) (escape_ne_nil (by decide) h), not_mem_escape (by decide) _⟩

theorem encodeDb_isNode {e : Bytes} (h : e ≠ []) : encodeDb e ≠ [] ∧ slash ∉ encodeDb e := by
  refine ⟨fun hnil => h (List.map_eq_nil_iff.mp hnil), fun hmem => ?_⟩
  obtain ⟨c, -, hc⟩ := List.mem_map.mp hmem
  split_ifs at hc with hslash
  · exact absurd hc (by decide)
  · exact hslash hc

/-- Splitting an encoded path gives the encoded nodes. -/
theorem split_join_encode {encode : Bytes → Bytes} {nodes : List Bytes}
    (hencode : ∀ e : Bytes, e ≠ [] → encode e ≠ [] ∧ slash ∉ encode e)
    (h : ∀ e ∈ nodes, e ≠ []) :
    let result := join slash (nodes.map encode)
    split slash (if result = [] then [slash] else result) = nodes.map encode := by
  intro result
  have hsplit : split slash result = nodes.map encode := by
    refine split_join fun node hnode => ?_
    obtain ⟨e, he, rfl⟩ := List.mem_map.mp hnode
    exact hencode e (h e he)
  split_ifs with hnil
  · rw [split_sep_cons, ← hnil, hsplit]
  · exact hsplit

theorem elements_foldl_appendNode {decode : Bytes → Bytes} {nodes : List Bytes} (p : Path)
    (h : ∀ node ∈ nodes, decode node ≠ []) :
    (nodes.foldl (fun result s => result.appendNode (decode s)) p).elements =
      p.elements ++ nodes.map decode := by
  induction nodes generalizing p with
  | nil => simp
  | cons node nodes ih =>
      rw [List.foldl_cons, ih _ fun node hnode => h node (List.mem_cons_of_mem _ hnode),
        appendNode, if_neg (h node List.mem_cons_self), List.map_cons, List.append_assoc]
      rfl

/-- Decoding an encoded path gives back its nodes. -/
theorem round_trip (p : Path) (h : ∀ e ∈ p.elements, e ≠ []) :
    (fromPosix p.toPosix).elements = p.elements ∧
      ((∀ e ∈ p.elements, nul ∉ e) → (fromDbPath p.toDbPath).elements = p.elements) := by
  constructor
  · have hsplit : split slash p.toPosix = p.elements.map encodePosix :=
      split_join_encode (fun _ => encodePosix_isNode) h
    have hnodes : ((p.elements.map encodePosix).foldl appendNode {}).elements =
        [] ++ (p.elements.map encodePosix).map id := by
      refine elements_foldl_appendNode {} fun node hnode => ?_
      obtain ⟨e, he, rfl⟩ := List.mem_map.mp hnode
      exact (encodePosix_isNode (h e he)).1
    simp only [fromPosix, hsplit]
    rw [hnodes, List.nil_append, List.map_id, List.map_map]
    exact (List.map_congr_left fun e _ => decodePosix_encodePosix e).trans (List.map_id _)
  · intro hnul
    have hsplit : split slash p.toDbPath = p.elements.map encodeDb :=
      split_join_encode (fun _ => encodeDb_isNode) h
    rw [fromDbPath, hsplit, elements_foldl_appendNode, List.nil_append, List.map_map]
    · exact (List.map_congr_left fun e he => decodeDb_encodeDb (hnul e he)).trans (List.map_id _)
    · intro node hnode
      obtain ⟨e, he, rfl⟩ := List.mem_map.mp hnode
      rw [decodeDb_encodeDb (hnul e he)]
      exact h e he

/-- The names `a/b%` and a byte that is no ASCII character. -/
theorem round_trip_names :
    let p : Path := { elements := [[97, 47, 98, 37], [200]] }
    (fromPosix p.toPosix).elements = p.elements ∧ (fromDbPath p.toDbPath).elements = p.elements := by
  intro p
  have htrip := round_trip p (by decide)
  exact ⟨htrip.1, htrip.2 (by decide)⟩

end Path

end LinuxSampler
