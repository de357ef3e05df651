import LinuxSampler.LscpServer

/-!
# Assembly and delivery of a line

Without the control codes of a shell, what a client sends is appended to
its command up to a line feed (`Session.Quiet.processInput_line`), and a
command that fits the buffer of the scanner is delivered to the parser as
far as it asks for it (`yyparse_command`). A zero byte in it is the end of
the input for the parser, so that it does not see what the C string
functions have left behind it.
-/

namespace LinuxSampler

namespace LscpServer

open Bytes

/-! ## Lines of a stream -/

/-- The lines of a stream that goes on behind `line`, and what has been received of the
next one. Carriage returns are ignored. -/
def linesFrom (line : Bytes) : Bytes → List Bytes × Bytes
  | [] => ([], line)
  | c :: t =>
      if c = lineFeed then (line :: (linesFrom [] t).1, (linesFrom [] t).2)
      else if c = carriageReturn then linesFrom line t
      else linesFrom (line ++ [c]) t

def lines (stream : Bytes) : List Bytes × Bytes := linesFrom [] stream

theorem linesFrom_append (t u : Bytes) : ∀ line : Bytes,
    linesFrom line (t ++ u) =
      ((linesFrom line t).1 ++ (linesFrom (linesFrom line t).2 u).1,
        (linesFrom (linesFrom line t).2 u).2) := by
  induction t with
  | nil => exact fun line => rfl
  | cons c t ih =>
      intro line
      rw [List.cons_append, linesFrom, linesFrom]
      by_cases hlf : c = lineFeed
      · rw [if_pos hlf, if_pos hlf, ih []]
        rfl
      · rw [if_neg hlf, if_neg hlf]
        by_cases hcr : c = carriageReturn
        · rw [if_pos hcr, if_pos hcr, ih line]
        · rw [if_neg hcr, if_neg hcr, ih (line ++ [c])]

theorem lines_append (t u : Bytes) :
    lines (t ++ u) = ((lines t).1 ++ (linesFrom (lines t).2 u).1, (linesFrom (lines t).2 u).2) :=
  linesFrom_append t u []

/-- What stays of a part of a line. -/
def strip (u : Bytes) : Bytes := u.filter (· ≠ carriageReturn)

theorem linesFrom_part {u : Bytes} (hu : lineFeed ∉ u) : ∀ line : Bytes,
    linesFrom line u = ([], line ++ strip u) := by
  induction u with
  | nil =>
      intro line
      rw [strip, List.filter_nil, List.append_nil]
      rfl
  | cons c u ih =>
      intro line
      have hlf : c ≠ lineFeed := fun h => hu (h ▸ List.mem_cons_self)
      have hrest : lineFeed ∉ u := fun h => hu (List.mem_cons_of_mem c h)
      rw [linesFrom, if_neg hlf]
      by_cases hcr : c = carriageReturn
      · rw [if_pos hcr, ih hrest line, strip, strip, List.filter_cons_of_neg (by simpa using hcr)]
      · rw [if_neg hcr, ih hrest, strip, strip, List.filter_cons_of_pos (by simpa using hcr),
          List.append_assoc]
        rfl

theorem linesFrom_line {u : Bytes} (hu : lineFeed ∉ u) (line : Bytes) :
    linesFrom line (u ++ [lineFeed]) = ([line ++ strip u], []) := by
  rw [linesFrom_append, linesFrom_part hu]
  rfl

/-! ## Assembly -/

/-- A character that is no cursor control code and no backspace. -/
def Plain (c : UInt8) : Prop := c ≠ 2 ∧ c ≠ 3 ∧ c ≠ backspace

/-- The cursor is at the end of the line, and the server leaves the line as it is. -/
def Session.Quiet (session : Session) : Prop :=
  session.iCursorOffset = 0 ∧ session.bShellAutoCorrect = false

theorem Session.Quiet.edit {session : Session} (h : session.Quiet) {c : UInt8} (hc : Plain c)
    (line : Bytes) : LscpServer.edit session line c = (session, line ++ [c]) := by
  unfold LscpServer.edit
  rw [if_neg hc.1, if_neg hc.2.1]
  dsimp only
  rw [if_neg hc.2.2, h.1, Int.add_zero, if_pos (Int.natCast_nonneg _), Int.toNat_natCast,
    List.take_length, List.drop_length]

theorem Session.Quiet.shellInteraction {session : Session} (h : session.Quiet)
    (correct : Bytes → Bytes) (line : Bytes) :
    LscpServer.shellInteraction correct session line = line := by
  simp [LscpServer.shellInteraction, h.2]

/-- A part of a line is appended to the command. -/
theorem Session.Quiet.processInput_append {session : Session} (h : session.Quiet)
    (correct : Bytes → Bytes) {u : Bytes} (hu : lineFeed ∉ u) (hplain : ∀ c ∈ u, Plain c)
    (v : Bytes) : ∀ line : Bytes,
    processInput correct session line (u ++ v) =
      processInput correct session (line ++ strip u) v := by
  induction u with
  | nil =>
      intro line
      rw [strip, List.filter_nil, List.append_nil]
      rfl
  | cons c u ih =>
      intro line
      have hlf : c ≠ lineFeed := fun heq => hu (heq ▸ List.mem_cons_self)
      have hrest := ih (fun hmem => hu (List.mem_cons_of_mem c hmem))
        (fun d hd => hplain d (List.mem_cons_of_mem c hd))
      rw [List.cons_append, processInput]
      by_cases hcr : c = carriageReturn
      · rw [if_pos hcr, hrest, strip, strip, List.filter_cons_of_neg (by simpa using hcr)]
      · rw [if_neg hcr, if_neg hlf]
        dsimp only
        rw [h.edit (hplain c List.mem_cons_self), h.shellInteraction, ite_self, hrest, strip, strip,
          List.filter_cons_of_pos (by simpa using hcr), List.append_assoc]
        rfl

theorem Session.Quiet.processInput_part {session : Session} (h : session.Quiet)
    (correct : Bytes → Bytes) {u : Bytes} (hu : lineFeed ∉ u) (hplain : ∀ c ∈ u, Plain c)
    (line : Bytes) :
    processInput correct session line u = ⟨session, line ++ strip u, false⟩ := by
  have happend := h.processInput_append correct hu hplain [] line
  rw [List.append_nil] at happend
  rw [happend]
  rfl

theorem Session.Quiet.processInput_line {session : Session} (h : session.Quiet)
    (correct : Bytes → Bytes) {u : Bytes} (hu : lineFeed ∉ u) (hplain : ∀ c ∈ u, Plain c)
    (line : Bytes) :
    processInput correct session line (u ++ [lineFeed]) =
      ⟨session, line ++ strip u ++ crlf, true⟩ := by
  rw [h.processInput_append correct hu hplain]
  unfold processInput
  rw [if_neg (by decide), if_pos rfl, h.shellInteraction]

/-- The input is a part of what has been received: up to the first line feed, or all of it. -/
theorem readInput_cases (pending : Bytes) :
    pending = (readInput pending).1 ++ (readInput pending).2 ∧
      ((∃ u, (readInput pending).1 = u ++ [lineFeed] ∧ lineFeed ∉ u) ∨
        lineFeed ∉ (readInput pending).1 ∧ (readInput pending).2 = []) := by
  induction pending with
  | nil => exact ⟨rfl, .inr ⟨List.not_mem_nil, rfl⟩⟩
  | cons c pending ih =>
      rcases ih with ⟨hsplit, hcases⟩
      unfold readInput
      by_cases hlf : c = lineFeed
      · rw [if_pos hlf]
        exact ⟨rfl, .inl ⟨[], by rw [hlf]; rfl, List.not_mem_nil⟩⟩
      · rw [if_neg hlf]
        dsimp only
        refine ⟨by rw [List.cons_append, ← hsplit], ?_⟩
        rcases hcases with ⟨u, hu, hmem⟩ | ⟨hmem, hrest⟩
        · refine .inl ⟨c :: u, by rw [hu]; rfl, ?_⟩
          exact fun h => (List.mem_cons.mp h).elim (fun heq => hlf heq.symm) hmem
        · refine .inr ⟨?_, hrest⟩
          exact fun h => (List.mem_cons.mp h).elim (fun heq => hlf heq.symm) hmem

theorem readInput_line {u : Bytes} (hu : lineFeed ∉ u) (v : Bytes) :
    readInput (u ++ lineFeed :: v) = (u ++ [lineFeed], v) := by
  induction u with
  | nil => rfl
  | cons c u ih =>
      have hlf : c ≠ lineFeed := fun h => hu (h ▸ List.mem_cons_self)
      rw [List.cons_append, readInput, if_neg hlf, ih fun h => hu (List.mem_cons_of_mem c h)]
      rfl

/-! ## Delivery -/

theorem Parser.takesFrom_stop (p : Parser) {got : Bytes} (h : p.wants got = false) (t : Bytes) :
    p.takesFrom got t = got := by
  cases t with
  | nil => rfl
  | cons c t =>
      rw [Parser.takesFrom, h]
      rfl

theorem Parser.takesFrom_cons (p : Parser) {got : Bytes} (h : p.wants got = true) (c : UInt8)
    (t : Bytes) : p.takesFrom got (c :: t) = p.takesFrom (got ++ [c]) t := by
  rw [Parser.takesFrom, if_pos h]

theorem yyparse_stop (p : Parser) {fuel : Nat} (hfuel : 0 < fuel) (scanner : Scanner)
    (command : Bytes) {got : Bytes} (h : p.wants got = false) :
    yyparse p fuel scanner command got = some (got, scanner, command) := by
  obtain ⟨n, rfl⟩ : ∃ n, fuel = n + 1 := ⟨fuel - 1, by omega⟩
  rw [yyparse, h]
  rfl

theorem getD_of_drop {buf w : Bytes} {n : Nat} {c : UInt8} (h : buf.drop n = c :: w) :
    buf.getD n nul = c ∧ buf.drop (n + 1) = w := by
  constructor
  · have hget : buf[n]? = some c := by rw [← List.head?_drop, h]; rfl
    rw [List.getD_eq_getElem?_getD, hget]
    rfl
  · rw [← List.tail_drop, h]
    rfl

/-- `yylex()` takes the next character of the buffer. -/
theorem yylex_of_lt {scanner : Scanner} {w : Bytes} {c : UInt8}
    (hlt : scanner.ptr < scanner.bytes) (hbuf : scanner.buf.drop scanner.ptr = c :: w)
    (command : Bytes) :
    yylex scanner command = (c, { scanner with ptr := scanner.ptr + 1 }, command) := by
  unfold yylex
  rw [if_neg (by omega), (getD_of_drop hbuf).1]

/-- The parser gets what it asks for of a line that stands in the buffer of the scanner.
It does not get to what is left behind a zero byte. -/
theorem yyparse_buffered (p : Parser) (command rest : Bytes) (l : Bytes) :
    ∀ {fuel : Nat} {scanner : Scanner} {got : Bytes}, l.length + 2 ≤ fuel →
      scanner.bytes = scanner.ptr + (l.length + 1) →
      scanner.buf.drop scanner.ptr = cString (l ++ [lineFeed]) ++ rest →
      ∃ scanner', yyparse p fuel scanner command got =
        some (p.takesFrom got (l ++ [lineFeed]), scanner', command) := by
  induction l with
  | nil =>
      intro fuel scanner got hfuel hbytes hbuf
      obtain ⟨n, rfl⟩ : ∃ n, fuel = n + 1 := ⟨fuel - 1, by omega⟩
      have hbuf' : scanner.buf.drop scanner.ptr = lineFeed :: nul :: rest := hbuf
      cases hw : p.wants got with
      | false => exact ⟨scanner, by rw [yyparse_stop p (by omega) _ _ hw, p.takesFrom_stop hw]⟩
      | true =>
          have hstop := p.wants_lineFeed got
          refine ⟨{ scanner with ptr := scanner.ptr + 1 }, ?_⟩
          have hlt : scanner.ptr < scanner.bytes := by rw [hbytes]; simp
          rw [yyparse, if_pos hw, yylex_of_lt hlt hbuf']
          dsimp only
          rw [List.length_nil] at hfuel
          rw [yyparse_stop p (by omega) _ _ hstop]
          rw [List.nil_append, p.takesFrom_cons hw]
          rfl
  | cons c l ih =>
      intro fuel scanner got hfuel hbytes hbuf
      rw [List.length_cons] at hfuel hbytes
      obtain ⟨n, rfl⟩ : ∃ n, fuel = n + 1 := ⟨fuel - 1, by omega⟩
      cases hw : p.wants got with
      | false => exact ⟨scanner, by rw [yyparse_stop p (by omega) _ _ hw, p.takesFrom_stop hw]⟩
      | true =>
          have hlt : scanner.ptr < scanner.bytes := by omega
          rw [List.cons_append, p.takesFrom_cons hw, yyparse, if_pos hw]
          by_cases hnul : c = nul
          · have hstop := p.wants_nul got
            have hbuf' : scanner.buf.drop scanner.ptr = nul :: rest := by
              rw [hbuf, List.cons_append, cString, if_pos hnul]
              rfl
            refine ⟨{ scanner with ptr := scanner.ptr + 1 }, ?_⟩
            rw [yylex_of_lt hlt hbuf', hnul]
            dsimp only
            rw [yyparse_stop p (by omega) _ _ hstop, p.takesFrom_stop hstop]
          · have hbuf' : scanner.buf.drop scanner.ptr =
                c :: (cString (l ++ [lineFeed]) ++ rest) := by
              rw [hbuf, List.cons_append, cString, if_neg hnul, List.cons_append]
            rw [yylex_of_lt hlt hbuf']
            have hbytes' : scanner.bytes = scanner.ptr + 1 + (l.length + 1) := by omega
            exact ih (by omega) hbytes' (getD_of_drop hbuf').2

/-- A line that fits the buffer of the scanner is fetched as a whole. -/
theorem yyparse_command (p : Parser) {fuel : Nat} (scanner : Scanner) {l : Bytes}
    (hl : l.length + 1 ≤ 1023) (hfuel : 1024 ≤ fuel) :
    ∃ scanner', yyparse p fuel scanner.restart (l ++ [lineFeed]) [] =
      some (p.takes (l ++ [lineFeed]), scanner', []) := by
  let fetched : Scanner :=
    { buf := strcpy scanner.buf (l ++ [lineFeed]), ptr := 0, bytes := l.length + 1 }
  have hlen : (l ++ [lineFeed]).length = l.length + 1 := by simp
  have hfirst : yylex scanner.restart (l ++ [lineFeed]) = yylex fetched [] := by
    have hfetch : fetchCommand scanner.restart.buf 1023 (l ++ [lineFeed]) =
        (strcpy scanner.buf (l ++ [lineFeed]), l.length + 1, []) := by
      unfold fetchCommand
      rw [if_neg (by omega), if_neg (by omega), hlen]
      rfl
    have hempty : scanner.restart.bytes ≤ scanner.restart.ptr := Nat.le_refl 0
    have hfull : ¬fetched.bytes ≤ fetched.ptr := Nat.not_succ_le_zero l.length
    rw [yylex, yylex, if_pos hempty, if_neg hfull, hfetch]
  have hsame : yyparse p fuel scanner.restart (l ++ [lineFeed]) [] =
      yyparse p fuel fetched [] [] := by
    obtain ⟨n, rfl⟩ : ∃ n, fuel = n + 1 := ⟨fuel - 1, by omega⟩
    rw [yyparse, yyparse, if_pos p.wants_nil, if_pos p.wants_nil, hfirst]
  rw [hsame]
  exact yyparse_buffered p [] _ l (by omega) (by show l.length + 1 = 0 + (l.length + 1); omega) rfl

end LscpServer

end LinuxSampler
