import LinuxSampler.LscpBison

/-!
# Push parser and Bison parser

The push parser of the LSCP shell takes the steps of `yyparse()` but for
two: it does not know the rule with the highest number where a state
reduces by default, and it looks up characters of eight bits outside of
the array of tokens (`map_yyPushParse`). So it agrees with `yyparse()` on a
character if and only if `yyparse()` comes to no such state, or fails there
as well (`pushParser_agrees`).

On a line the parsers agree as long as they agree on its characters, and
the input does not end within the line: `yyparse()` stops there, while the
push parser goes on with the states that it has.
-/

namespace LinuxSampler

namespace LscpShell

open PartialLoop

variable {t : Tables} {c : UInt8} {stack : Stack}

/-! ## Steps -/

theorem yyReduce_eq (t : Tables) (stack : Stack) (rule : Int) :
    yyReduce t stack rule = t.reduce stack rule := by
  unfold yyReduce Tables.reduce Tables.goto
  cases stack.pop (t.yyr2 rule) with
  | none => rfl
  | some s =>
      dsimp only [Option.map_some]
      by_cases h : 0 ≤ t.yypgoto (t.yyr1 rule - t.YYNTOKENS) + s.top ∧
          t.yypgoto (t.yyr1 rule - t.YYNTOKENS) + s.top ≤ t.YYLAST ∧
          t.yycheck (t.yypgoto (t.yyr1 rule - t.YYNTOKENS) + s.top) = s.top
      · rw [if_pos h, if_pos (and_assoc.mpr h)]
      · rw [if_neg h, if_neg fun hand => h (and_assoc.mp hand)]

theorem map_again (t : Tables) (stack : Stack) (rule : Int) :
    (again (yyReduce t stack rule)).map Push.verdict =
      (perform t stack (.reduce rule)).map Outcome.verdict := by
  rw [yyReduce_eq]
  unfold perform
  dsimp only
  cases t.reduce stack rule with
  | none => rfl
  | some s => rfl

theorem map_yyDefaultReduce (h : t.yydefact stack.top ≠ t.YYNRULES) :
    (yyDefaultReduce t stack).map Push.verdict =
      (perform t stack (t.defaultAction stack.top)).map Outcome.verdict := by
  obtain ⟨hpos, hle⟩ := t.defact_range stack.top
  unfold yyDefaultReduce Tables.defaultAction
  dsimp only
  by_cases hzero : t.yydefact stack.top = 0
  · rw [if_pos (.inl hzero.le), if_pos hzero]
    rfl
  · rw [if_neg (by omega), if_neg hzero]
    exact map_again t stack _

theorem yyDefaultReduce_last (h : t.yydefact stack.top = t.YYNRULES) :
    yyDefaultReduce t stack = .done (.threw 3) :=
  if_pos (.inr h.ge)

theorem translated_eq (h : c < 128) :
    translated t (char c) = some (symbol t (yylex t c)) := by
  have hlt : c.toNat < 128 := UInt8.lt_iff_toNat_lt.mp h
  have hascii := t.ascii_le
  have hchar : char c = c.toNat := if_pos h
  have hlex : yylex t c = c.toNat := if_pos h
  rw [hchar, hlex]
  unfold translated symbol YYEOF
  by_cases hzero : c.toNat = 0
  · rw [if_pos (by omega), if_pos (by omega)]
  · rw [if_neg (by omega), if_neg (by omega), if_neg (by omega), if_pos (by omega)]

theorem translated_extended (h : ¬c < 128) : translated t (char c) = none := by
  have hle : ¬c.toNat < 128 := fun hlt => h (UInt8.lt_iff_toNat_lt.mpr hlt)
  have hlt : c.toNat < 256 := c.toNat_lt
  have hchar : char c = c.toNat - 256 := if_neg h
  rw [hchar]
  unfold translated YYEOF
  rw [if_neg (by omega), if_pos (by omega)]

/-- The entries for a token mean the same. -/
theorem map_entry (t : Tables) (stack : Stack) (entry : Int) :
    Next.map Push.verdict
        (if entry = 0 ∨ entry = t.YYTABLE_NINF then .done (.threw 4)
        else if entry < 0 then again (yyReduce t stack (-entry))
        else if entry = t.YYFINAL then .done (.returned true stack)
        else .done (.returned true (stack.push entry))) =
      (perform t stack (t.entry entry)).map Outcome.verdict := by
  unfold Tables.entry
  by_cases herror : entry = 0 ∨ entry = t.YYTABLE_NINF
  · rw [if_pos herror, if_pos herror]
    rfl
  rw [if_neg herror, if_neg herror]
  by_cases hreduce : entry < 0
  · rw [if_pos hreduce, if_pos hreduce]
    exact map_again t stack _
  rw [if_neg hreduce, if_neg hreduce]
  by_cases hfinal : entry = t.YYFINAL
  · rw [if_pos hfinal, if_pos hfinal]
    rfl
  · rw [if_neg hfinal, if_neg hfinal]
    rfl

/-- A character of eight bits is looked up. -/
def ReadsOutside (t : Tables) (c : UInt8) (stack : Stack) : Prop :=
  ¬c < 128 ∧ t.yypact stack.top ≠ t.YYPACT_NINF

/-- The state reduces by default, and by the rule with the highest number. -/
def RefusesRule (t : Tables) (c : UInt8) (stack : Stack) : Prop :=
  ¬ReadsOutside t c stack ∧
    (t.yypact stack.top = t.YYPACT_NINF ∨ ¬t.HasEntry stack.top (symbol t (yylex t c))) ∧
    t.yydefact stack.top = t.YYNRULES

theorem yyPushParse_of_pact (h : t.yypact stack.top = t.YYPACT_NINF) (ch : Int) :
    yyPushParse t ch stack = yyDefaultReduce t stack := if_pos h

/-- In a state that looks at the token, the push parser does so as well. -/
theorem yyPushParse_of_translated (h : t.yypact stack.top ≠ t.YYPACT_NINF) {ch token : Int}
    (hch : translated t ch = some token) :
    yyPushParse t ch stack =
      if t.HasEntry stack.top token then
        (if t.yytable (t.yypact stack.top + token) = 0 ∨
            t.yytable (t.yypact stack.top + token) = t.YYTABLE_NINF then .done (.threw 4)
        else if t.yytable (t.yypact stack.top + token) < 0 then
          again (yyReduce t stack (-t.yytable (t.yypact stack.top + token)))
        else if t.yytable (t.yypact stack.top + token) = t.YYFINAL then
          .done (.returned true stack)
        else .done (.returned true (stack.push (t.yytable (t.yypact stack.top + token)))))
      else yyDefaultReduce t stack := by
  have hrange := (t.pact_range stack.top).resolve_left h
  unfold yyPushParse
  dsimp only
  rw [if_neg h, if_neg (not_not.mpr hrange), hch]
  dsimp only
  by_cases hentry : t.HasEntry stack.top token
  · obtain ⟨⟨hpos, hle⟩, hcheck⟩ := id hentry
    have hrange : ¬(t.yypact stack.top + token < 0 ∨ t.YYLAST < t.yypact stack.top + token ∨
        t.yycheck (t.yypact stack.top + token) ≠ token) := by
      rintro (hneg | hlt | hne)
      · omega
      · omega
      · exact hne hcheck
    rw [if_neg hrange, if_pos hentry]
  · rw [if_neg hentry, if_pos]
    by_contra hnone
    refine hentry ⟨⟨?_, ?_⟩, ?_⟩
    · exact not_lt.mp fun hneg => hnone (.inl hneg)
    · exact not_lt.mp fun hlt => hnone (.inr (.inl hlt))
    · exact not_not.mp fun hne => hnone (.inr (.inr hne))

/-- In all other states the parsers do the same. -/
theorem map_yyPushParse (houtside : ¬ReadsOutside t c stack) (hrule : ¬RefusesRule t c stack) :
    (yyPushParse t (char c) stack).map Push.verdict =
      (yyparse t (symbol t (yylex t c)) stack).map Outcome.verdict := by
  unfold yyparse Tables.action
  by_cases hpact : t.yypact stack.top = t.YYPACT_NINF
  · rw [yyPushParse_of_pact hpact, if_pos hpact]
    exact map_yyDefaultReduce fun hlast => hrule ⟨houtside, .inl hpact, hlast⟩
  · have hascii : c < 128 := not_not.mp fun h => houtside ⟨h, hpact⟩
    rw [yyPushParse_of_translated hpact (translated_eq hascii), if_neg hpact]
    by_cases hentry : t.HasEntry stack.top (symbol t (yylex t c))
    · rw [if_pos hentry, if_pos hentry]
      exact map_entry t stack _
    · rw [if_neg hentry, if_neg hentry]
      exact map_yyDefaultReduce fun hlast => hrule ⟨houtside, .inr hentry, hlast⟩

theorem yyPushParse_readsOutside (h : ReadsOutside t c stack) :
    yyPushParse t (char c) stack = .done .undefined := by
  have hrange := (t.pact_range stack.top).resolve_left h.2
  unfold yyPushParse
  dsimp only
  rw [if_neg h.2, if_neg (not_not.mpr hrange), translated_extended h.1]

theorem yyPushParse_refusesRule (h : RefusesRule t c stack) :
    yyPushParse t (char c) stack = .done (.threw 3) := by
  obtain ⟨houtside, hdefault, hlast⟩ := h
  by_cases hpact : t.yypact stack.top = t.YYPACT_NINF
  · rw [yyPushParse_of_pact hpact]
    exact yyDefaultReduce_last hlast
  · have hascii : c < 128 := not_not.mp fun h => houtside ⟨h, hpact⟩
    rw [yyPushParse_of_translated hpact (translated_eq hascii),
      if_neg (hdefault.resolve_left hpact)]
    exact yyDefaultReduce_last hlast

/-! ## Characters -/

/-- `yyparse()` comes to a state in which the push parser goes wrong, and does not fail in
the same way from there on. -/
def Trips (t : Tables) (c : UInt8) (stack : Stack) : Prop :=
  First (yyparse t (symbol t (yylex t c)))
    (fun s => ReadsOutside t c s ∨ RefusesRule t c s)
    (fun s => ReadsOutside t c s ∧ ¬Parses t c s .undefined ∨
      RefusesRule t c s ∧ ¬Parses t c s .error) stack

theorem computes_invalid :
    Computes (yyparse t (symbol t (yylex t c))) Outcome.verdict stack .invalid ↔
      Parses t c stack .error := by
  constructor
  · rintro ⟨o, hends, ho⟩
    cases o with
    | error => exact hends
    | shifted s => cases ho
    | accepted s => cases ho
    | undefined => cases ho
  · exact fun hends => ⟨.error, hends, rfl⟩

theorem computes_undefined :
    Computes (yyparse t (symbol t (yylex t c))) Outcome.verdict stack .undefined ↔
      Parses t c stack .undefined := by
  constructor
  · rintro ⟨o, hends, ho⟩
    cases o with
    | undefined => exact hends
    | shifted s => cases ho
    | accepted s => cases ho
    | error => cases ho
  · exact fun hends => ⟨.undefined, hends, rfl⟩

/-- Where the push parser goes wrong, this makes a difference if `yyparse()` does not fail. -/
theorem not_same_iff {s : Stack} (hwrong : ReadsOutside t c s ∨ RefusesRule t c s) :
    ¬Same (yyPushParse t (char c)) Push.verdict (yyparse t (symbol t (yylex t c)))
        Outcome.verdict s ↔
      ReadsOutside t c s ∧ ¬Parses t c s .undefined ∨ RefusesRule t c s ∧ ¬Parses t c s .error := by
  by_cases houtside : ReadsOutside t c s
  · have hrule : ¬RefusesRule t c s := fun h => h.1 houtside
    rw [same_iff_of_done (yyPushParse_readsOutside houtside)]
    refine (not_congr computes_undefined).trans ?_
    constructor
    · exact fun h => .inl ⟨houtside, h⟩
    · rintro (⟨-, h⟩ | ⟨h, -⟩)
      · exact h
      · exact absurd h hrule
  · have hrule := hwrong.resolve_left houtside
    rw [same_iff_of_done (yyPushParse_refusesRule hrule)]
    refine (not_congr computes_invalid).trans ?_
    constructor
    · exact fun h => .inr ⟨hrule, h⟩
    · rintro (⟨h, -⟩ | ⟨-, h⟩)
      · exact absurd h houtside
      · exact h

theorem agrees_iff (t : Tables) (c : UInt8) (stack : Stack) :
    Agrees t c stack ↔ ¬Trips t c stack := by
  have hstep : ∀ s, ¬(ReadsOutside t c s ∨ RefusesRule t c s) →
      (yyPushParse t (char c) s).map Push.verdict =
        (yyparse t (symbol t (yylex t c)) s).map Outcome.verdict :=
    fun s hs => map_yyPushParse (fun h => hs (.inl h)) fun h => hs (.inr h)
  refine (same_iff hstep).trans (not_congr ⟨?_, ?_⟩)
  · exact First.mono fun s hwrong => (not_same_iff hwrong).mp
  · exact First.mono fun s hwrong => (not_same_iff hwrong).mpr

theorem Agrees.valid (h : Agrees t c stack) {stack' : Stack} :
    YYValid t c stack (.valid stack') ↔
      Parses t c stack (.shifted stack') ∨ Parses t c stack (.accepted stack') := by
  rw [h]
  constructor
  · rintro ⟨o, hends, ho⟩
    cases o with
    | shifted s =>
        cases ho
        exact .inl hends
    | accepted s =>
        cases ho
        exact .inr hends
    | error => cases ho
    | undefined => cases ho
  · rintro (hends | hends)
    · exact ⟨_, hends, rfl⟩
    · exact ⟨_, hends, rfl⟩

theorem Agrees.invalid (h : Agrees t c stack) :
    YYValid t c stack .invalid ↔ Parses t c stack .error :=
  (h .invalid).trans computes_invalid

/-! ## Lines -/

/-- The parsers agree on the characters that `yyparse()` takes, and if it accepts within
the line, it would take no character after that. -/
def Untroubled (t : Tables) : Stack → List UInt8 → Prop
  | _, [] => True
  | stack, c :: line =>
      ¬Trips t c stack ∧
        (∀ stack', Parses t c stack (.shifted stack') → Untroubled t stack' line) ∧
        ∀ stack', Parses t c stack (.accepted stack') →
          ∀ d ∈ line.head?, ¬Trips t d stack' ∧ Parses t d stack' .error

/-- After the end of the input nothing is counted. -/
theorem yyValidCharacters_of_accepted {line : List UInt8}
    (h : ∀ d ∈ line.head?, ¬Trips t d stack ∧ Parses t d stack .error) {n : Nat} :
    YYValidCharacters t stack line n ↔ n = 0 := by
  cases line with
  | nil =>
      constructor
      · intro hn
        cases hn
        rfl
      · rintro rfl
        exact .nil
  | cons d line =>
      obtain ⟨htrips, herror⟩ := h d rfl
      have hinvalid := ((agrees_iff t d stack).mpr htrips).invalid.mpr herror
      constructor
      · intro hn
        cases hn with
        | valid hvalid _ => exact Verdict.noConfusion (hvalid.unique hinvalid)
        | invalid _ => rfl
      · rintro rfl
        exact .invalid hinvalid

theorem yyValidCharacters_iff {line : List UInt8} (h : Untroubled t stack line) {n : Nat} :
    YYValidCharacters t stack line n ↔ Consumes t stack line n := by
  induction line generalizing stack n with
  | nil =>
      constructor
      · intro hn
        cases hn
        exact .nil
      · intro hn
        cases hn
        exact .nil
  | cons c line ih =>
      obtain ⟨htrips, hshifted, haccepted⟩ := h
      have hagrees := (agrees_iff t c stack).mpr htrips
      constructor
      · intro hn
        cases hn with
        | valid hvalid hrest =>
            rcases hagrees.valid.mp hvalid with hends | hends
            · exact .shifted hends ((ih (hshifted _ hends)).mp hrest)
            · rw [(yyValidCharacters_of_accepted (haccepted _ hends)).mp hrest]
              exact .accepted hends
        | invalid hinvalid => exact .error (hagrees.invalid.mp hinvalid)
      · intro hn
        cases hn with
        | shifted hends hrest =>
            exact .valid (hagrees.valid.mpr (.inl hends)) ((ih (hshifted _ hends)).mpr hrest)
        | accepted hends =>
            exact .valid (hagrees.valid.mpr (.inr hends))
              ((yyValidCharacters_of_accepted (haccepted _ hends)).mpr rfl)
        | error hends => exact .invalid (hagrees.invalid.mpr hends)

/-- The push parser agrees with `yyparse()` on the characters on which it does not come to a
rule that it refuses or to a character of eight bits, and on the lines of such characters. -/
theorem pushParser_agrees (t : Tables) :
    (∀ c stack, Agrees t c stack ↔ ¬Trips t c stack) ∧
      ∀ stack line, Untroubled t stack line →
        ∀ n, YYValidCharacters t stack line n ↔ Consumes t stack line n :=
  ⟨agrees_iff t, fun _ _ h _ => yyValidCharacters_iff h⟩

/-- The tables of a grammar with the rules `s: a 'b'` and `a: 'a'`. -/
def letters : Tables where
  YYPACT_NINF := -6
  YYTABLE_NINF := -1
  YYLAST := 2
  YYFINAL := 4
  YYNTOKENS := 6
  YYNRULES := 3
  YYMAXUTOK := 258
  EXT_ASCII_CHAR := 258
  yypact
    | 0 => -4
    | 2 => 1
    | 3 => -3
    | _ => -6
  yydefact
    | 1 => 3
    | 4 => 1
    | 5 => 2
    | _ => 0
  yyr1
    | 1 => 6
    | 2 => 7
    | 3 => 8
    | _ => 0
  yyr2
    | 1 => 2
    | 2 => 2
    | 3 => 1
    | _ => 0
  yypgoto _ := -6
  yydefgoto
    | 1 => 2
    | 2 => 3
    | _ => 0
  yytable
    | 0 => 1
    | 1 => 4
    | 2 => 5
    | _ => 0
  yycheck
    | 0 => 4
    | 1 => 0
    | 2 => 5
    | _ => -1
  yytranslate
    | 0 => 0
    | 97 => 4
    | 98 => 5
    | 258 => 3
    | _ => 2
  pact_range := by
    intro state
    split <;> decide
  defact_range := by
    intro state
    split <;> decide
  ascii_le := by decide

/-- After the symbol `a`, the letter is shifted at once. -/
theorem pushParser_agrees_b :
    Agrees letters 98 ⟨3, [0]⟩ ∧
      ∀ n, YYValidCharacters letters ⟨3, [0]⟩ [98] n ↔ Consumes letters ⟨3, [0]⟩ [98] n := by
  have hshift : yyparse letters (symbol letters (yylex letters 98)) ⟨3, [0]⟩ =
      .done (.shifted ⟨5, [3, 0]⟩) := rfl
  have htrips : ¬Trips letters 98 ⟨3, [0]⟩ := by
    intro h
    cases h with
    | here hwrong _ =>
        rcases hwrong with ⟨hascii, -⟩ | ⟨-, hdefault, -⟩
        · exact hascii (by decide)
        · rcases hdefault with hpact | hentry
          · exact absurd hpact (by decide)
          · exact hentry (by decide)
    | more _ hmore _ =>
        rw [hshift] at hmore
        cases hmore
  have huntroubled : Untroubled letters ⟨3, [0]⟩ [98] :=
    ⟨htrips, fun _ _ => trivial, fun _ _ d hd => nomatch hd⟩
  exact ⟨((pushParser_agrees letters).1 98 ⟨3, [0]⟩).mpr htrips,
    (pushParser_agrees letters).2 _ _ huntroubled⟩

/-- After the first letter Bison reduces by the last rule, and shifts the second letter. -/
theorem not_pushParser_agrees : ¬∀ (t : Tables) (c : UInt8) (stack : Stack), Agrees t c stack := by
  intro hclaim
  have hpush : YYValid letters 98 ⟨1, [0]⟩ .invalid := ⟨.threw 3, .done rfl, rfl⟩
  have hshifted : Parses letters 98 ⟨1, [0]⟩ (.shifted ⟨5, [3, 0]⟩) :=
    Ends.of_iterate (n := 2) rfl
  obtain ⟨o, hends, ho⟩ := (hclaim letters 98 ⟨1, [0]⟩ .invalid).mp hpush
  rw [← hshifted.unique hends] at ho
  cases ho

end LscpShell

end LinuxSampler
