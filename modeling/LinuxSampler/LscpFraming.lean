import LinuxSampler.LscpLine

/-!
# One line for each call of the parser

What the parser gets in the calls for one session are the lines of the
session's client, one in each call and in order, as far as the parser asks
for characters; and what stands in the command buffer of the session is
the line that is not complete yet. This holds in every run, however the
data are split, for lines of at most 1021 bytes
(`Server.framed_run`): with its line end a longer one does not fit the
buffer of the scanner, and then it is neither delivered nor dropped.
-/

namespace LinuxSampler

namespace LscpServer

open Bytes

namespace Server

/-! ## One socket and the others -/

@[simp] theorem sessions_setSession (s : Server) (socket : Int) (conn : Option Connection) :
    (s.setSession socket conn).sessions socket = conn :=
  Function.update_self ..

@[simp] theorem bufferedCommands_setSession (s : Server) (socket : Int)
    (conn : Option Connection) :
    (s.setSession socket conn).bufferedCommands = s.bufferedCommands := rfl

@[simp] theorem bufferedCommands_setCommand (s : Server) (socket : Int) (line : Bytes) :
    (s.setCommand socket line).bufferedCommands socket = line :=
  Function.update_self ..

@[simp] theorem sessions_setCommand (s : Server) (socket : Int) (line : Bytes) :
    (s.setCommand socket line).sessions = s.sessions := rfl

@[simp] theorem sessions_closeConnection (s : Server) (socket : Int) :
    (s.closeConnection socket).sessions socket = none :=
  Function.update_self ..

@[simp] theorem bufferedCommands_closeConnection (s : Server) (socket : Int) :
    (s.closeConnection socket).bufferedCommands socket = [] :=
  Function.update_self ..

/-- Session and command of a socket are the same in both states. -/
def SameAt (k : Int) (s s' : Server) : Prop :=
  s'.sessions k = s.sessions k ∧ s'.bufferedCommands k = s.bufferedCommands k

theorem SameAt.trans {k : Int} {s₁ s₂ s₃ : Server} (h : SameAt k s₁ s₂) (h' : SameAt k s₂ s₃) :
    SameAt k s₁ s₃ :=
  ⟨h'.1.trans h.1, h'.2.trans h.2⟩

theorem sameAt_setSession {k socket : Int} (hk : k ≠ socket) (s : Server)
    (conn : Option Connection) : SameAt k s (s.setSession socket conn) :=
  ⟨Function.update_of_ne hk .., rfl⟩

theorem sameAt_setCommand {k socket : Int} (hk : k ≠ socket) (s : Server) (line : Bytes) :
    SameAt k s (s.setCommand socket line) :=
  ⟨rfl, Function.update_of_ne hk ..⟩

theorem sameAt_closeConnection {k socket : Int} (hk : k ≠ socket) (s : Server) :
    SameAt k s (s.closeConnection socket) :=
  (sameAt_setSession hk s none).trans (sameAt_setCommand hk _ [])

variable {p : Parser} {correct : Bytes → Bytes} {fuel : Nat} {k : Int}

/-- The session that goes on after a command. -/
def nextSession (p : Parser) (conn : Connection) (got : Bytes) : Connection :=
  { conn with session := { p.action got conn.session with iCursorOffset := 0 } }

theorem parseCommand_eq (s : Server) (socket : Int) (conn : Connection) {got command : Bytes}
    {scanner : Scanner}
    (hparse : yyparse p fuel s.scanner.restart (s.bufferedCommands socket) [] =
      some (got, scanner, command)) :
    ∃ s₁ : Server, s₁.sessions = s.sessions ∧ s₁.bufferedCommands = s.bufferedCommands ∧
      s.parseCommand p fuel socket conn =
        some (if p.result got = .quit
          then ((s₁.setCommand socket command).setSession socket
            (some (nextSession p conn got))).closeConnection socket
          else (s₁.setCommand socket command).setSession socket
            (some (nextSession p conn got)), got) := by
  let scanner' := if p.result got = .syntaxError then scanner.restart else scanner
  refine ⟨{ s with scanner := scanner' }, rfl, rfl, ?_⟩
  unfold parseCommand
  rw [hparse]
  rfl

theorem sameAt_parseCommand {s s' : Server} {socket : Int} {conn : Connection} {got : Bytes}
    (hk : k ≠ socket) (h : s.parseCommand p fuel socket conn = some (s', got)) :
    SameAt k s s' := by
  cases hparse : yyparse p fuel s.scanner.restart (s.bufferedCommands socket) [] with
  | none =>
      unfold parseCommand at h
      rw [hparse] at h
      cases h
  | some r =>
      obtain ⟨s₁, hsessions, hcommands, hparsed⟩ := parseCommand_eq s socket conn hparse
      rw [hparsed] at h
      cases h
      have hstart : SameAt k s s₁ := ⟨by rw [hsessions], by rw [hcommands]⟩
      have hsame := (hstart.trans (sameAt_setCommand hk s₁ r.2.2)).trans
        (sameAt_setSession hk _ (some (nextSession p conn r.1)))
      split_ifs
      · exact hsame.trans (sameAt_closeConnection hk _)
      · exact hsame

/-- A session that has ended leaves no command. -/
theorem parseCommand_closed {s s' : Server} {socket : Int} {conn : Connection} {got : Bytes}
    (h : s.parseCommand p fuel socket conn = some (s', got)) (hclosed : s'.sessions socket = none) :
    s'.bufferedCommands socket = [] := by
  cases hparse : yyparse p fuel s.scanner.restart (s.bufferedCommands socket) [] with
  | none =>
      unfold parseCommand at h
      rw [hparse] at h
      cases h
  | some r =>
      obtain ⟨s₁, -, -, hparsed⟩ := parseCommand_eq s socket conn hparse
      rw [hparsed] at h
      cases h
      split_ifs at hclosed ⊢
      · simp
      · simp at hclosed

/-- The characters that the parser has got in its calls for a socket. -/
def textsOf (k : Int) (calls : List (Int × Bytes)) : List Bytes :=
  (calls.filter fun call => call.1 = k).map Prod.snd

theorem textsOf_append (k : Int) (calls calls' : List (Int × Bytes)) :
    textsOf k (calls ++ calls') = textsOf k calls ++ textsOf k calls' := by
  rw [textsOf, List.filter_append, List.map_append]
  rfl

def Event.socket : Event → Int
  | .accept socket => socket
  | .arrive socket _ => socket
  | .hangUp socket => socket
  | .select socket => socket

/-- An event at a socket leaves the other ones alone. -/
theorem sameAt_step {s s' : Server} {e : Event} {calls : List (Int × Bytes)}
    (hk : k ≠ e.socket) (h : s.step p correct fuel e = some (s', calls)) :
    SameAt k s s' ∧ textsOf k calls = [] := by
  cases e with
  | accept socket =>
      unfold step at h
      dsimp only at h
      split at h
      · cases h
      · cases h
        exact ⟨sameAt_setSession hk _ _, rfl⟩
  | arrive socket portion =>
      unfold step at h
      dsimp only at h
      split at h
      · cases h
      · split_ifs at h
        cases h
        exact ⟨sameAt_setSession hk _ _, rfl⟩
  | hangUp socket =>
      unfold step at h
      dsimp only at h
      split at h
      · cases h
      · cases h
        exact ⟨sameAt_setSession hk _ _, rfl⟩
  | select socket =>
      unfold step at h
      dsimp only at h
      split at h
      · cases h
      · next conn hconn =>
        split_ifs at h with hidle
        unfold selected at h
        dsimp only at h
        have hsame : ∀ (line : Bytes) (conn : Connection),
            SameAt k s ((s.setCommand socket line).setSession socket (some conn)) :=
          fun line conn => (sameAt_setCommand hk s line).trans (sameAt_setSession hk _ _)
        split_ifs at h
        · obtain ⟨⟨s₁, got⟩, hparse, hcall⟩ := Option.map_eq_some_iff.mp h
          cases hcall
          refine ⟨(hsame _ _).trans (sameAt_parseCommand hk hparse), ?_⟩
          have hne : ¬socket = k := fun heq => hk heq.symm
          simp [textsOf, hne]
        · cases h
          exact ⟨(hsame _ _).trans (sameAt_closeConnection hk _), rfl⟩
        · cases h
          exact ⟨hsame _ _, rfl⟩

/-! ## Framing -/

/-- What arrives at a socket. -/
def arrived (k : Int) (es : List Event) : Bytes :=
  es.flatMap fun
    | .arrive socket portion => if socket = k then portion else []
    | _ => []

/-- The line fits the buffer of the scanner with its line end, and is no command that
switches automatic correction on. -/
def LineFits (p : Parser) (l : Bytes) : Prop :=
  l.length ≤ 1021 ∧
    ∀ session : Session, session.bShellAutoCorrect = false →
      (p.action (p.takes (l ++ crlf)) session).bShellAutoCorrect = false

/-- Of what has arrived the server has read a part. The parser has been called once for
each complete line of it, and has got that line as far as it asked for it; the rest of the
part is the command line so far. -/
def Framed (p : Parser) (k : Int) (s : Server) (stream : Bytes) (texts : List Bytes) : Prop :=
  ∃ consumed, consumed <+: stream ∧
    texts = (lines consumed).1.map (fun l => p.takes (l ++ crlf)) ∧
    ∀ conn, s.sessions k = some conn →
      stream = consumed ++ conn.pending ∧ s.bufferedCommands k = (lines consumed).2

/-- A session that is open is as it has been opened. -/
def QuietAt (k : Int) (s : Server) : Prop :=
  ∀ conn, s.sessions k = some conn → conn.session.Quiet

theorem Framed.sameAt {s s' : Server} {stream : Bytes} {texts : List Bytes}
    (h : Framed p k s stream texts) (hs : SameAt k s s') : Framed p k s' stream texts := by
  rcases h with ⟨consumed, hprefix, htexts, hopen⟩
  refine ⟨consumed, hprefix, htexts, fun conn hconn => ?_⟩
  rw [hs.1] at hconn
  rw [hs.2]
  exact hopen conn hconn

/-- A line that fits is parsed as it is, and the session goes on or ends. -/
theorem parseCommand_line (hfuel : 1024 ≤ fuel) (s : Server) (conn : Connection) {l : Bytes}
    (hcommand : s.bufferedCommands k = l ++ crlf) (hl : LineFits p l)
    (hquiet : conn.session.Quiet) :
    ∃ s', s.parseCommand p fuel k conn = some (s', p.takes (l ++ crlf)) ∧
      s'.bufferedCommands k = [] ∧
      ∀ conn', s'.sessions k = some conn' →
        conn'.pending = conn.pending ∧ conn'.session.Quiet := by
  have hcr : l ++ crlf = (l ++ [carriageReturn]) ++ [lineFeed] := by
    rw [List.append_assoc]
    rfl
  have hlen : (l ++ [carriageReturn]).length + 1 ≤ 1023 := by
    have hbound := hl.1
    simp
    omega
  obtain ⟨scanner, hparse⟩ := yyparse_command p s.scanner hlen hfuel
  rw [← hcr, ← hcommand] at hparse
  obtain ⟨s₁, -, -, hparsed⟩ := parseCommand_eq s k conn hparse
  rw [hcommand] at hparsed
  refine ⟨_, hparsed, ?_, ?_⟩
  · split_ifs
    · simp
    · simp
  · intro conn' hconn
    split_ifs at hconn
    · simp at hconn
    · rw [sessions_setSession] at hconn
      cases hconn
      exact ⟨rfl, rfl, hl.2 conn.session hquiet.2⟩

/-- The lines of what arrives first are lines of all that arrives. -/
theorem mem_lines_append {l t u : Bytes} (h : l ∈ (lines t).1) : l ∈ (lines (t ++ u)).1 := by
  rw [lines_append]
  exact List.mem_append_left _ h

/-- A selected socket: the server returns, and has read a line more, or all there is. -/
theorem Framed.selected (correct : Bytes → Bytes) (hfuel : 1024 ≤ fuel) {s : Server}
    {stream : Bytes} {texts : List Bytes} (h : Framed p k s stream texts) (hquiet : QuietAt k s)
      (hplain : ∀ c ∈ stream, Plain c)
    (hlines : ∀ l ∈ (lines stream).1, LineFits p l) {conn : Connection}
    (hconn : s.sessions k = some conn) :
    ∃ s' calls, s.selected p correct fuel k conn = some (s', calls) ∧
      Framed p k s' stream (texts ++ textsOf k calls) ∧ QuietAt k s' := by
  rcases h with ⟨consumed, hprefix, rfl, hopen⟩
  obtain ⟨rfl, hcommand⟩ := hopen conn hconn
  have hsession := hquiet conn hconn
  obtain ⟨hsplit, hcases⟩ := readInput_cases conn.pending
  have hmem : ∀ c ∈ (readInput conn.pending).1, Plain c := by
    intro c hc
    refine hplain c (List.mem_append_right _ ?_)
    rw [hsplit]
    exact List.mem_append_left _ hc
  have hread : consumed ++ conn.pending =
      (consumed ++ (readInput conn.pending).1) ++ (readInput conn.pending).2 := by
    rw [List.append_assoc, ← hsplit]
  unfold Server.selected
  dsimp only
  rw [hcommand]
  rcases hcases with ⟨u, hu, hlf⟩ | ⟨hlf, hrest⟩
  · rw [hu] at hmem hread
    have hprocess := hsession.processInput_line correct hlf
      (fun c hc => hmem c (List.mem_append_left _ hc)) (lines consumed).2
    rw [hu, hprocess, if_pos rfl]
    have hnew : lines (consumed ++ (u ++ [lineFeed])) =
        ((lines consumed).1 ++ [(lines consumed).2 ++ strip u], []) := by
      rw [lines_append, linesFrom_line hlf]
    have hfits : LineFits p ((lines consumed).2 ++ strip u) := by
      refine hlines _ ?_
      rw [hread]
      refine mem_lines_append ?_
      rw [hnew]
      exact List.mem_append_right _ (List.mem_singleton_self _)
    obtain ⟨s', hparse, hempty, hnext⟩ := parseCommand_line (k := k) hfuel
      ((s.setCommand k ((lines consumed).2 ++ strip u ++ crlf)).setSession k
        (some { conn with session := conn.session, pending := (readInput conn.pending).2 }))
      { conn with session := conn.session, pending := (readInput conn.pending).2 }
      (by simp) hfits hsession
    refine ⟨s', _, by rw [hparse]; rfl, ⟨consumed ++ (u ++ [lineFeed]), ?_, ?_, ?_⟩, ?_⟩
    · exact ⟨_, hread.symm⟩
    · rw [hnew, List.map_append]
      simp [textsOf]
    · intro conn' hconn'
      rw [hnew, (hnext conn' hconn').1]
      exact ⟨hread, hempty⟩
    · exact fun conn' hconn' => (hnext conn' hconn').2
  · rw [hrest, List.append_nil] at hread
    have hprocess := hsession.processInput_part correct hlf hmem (lines consumed).2
    rw [hprocess]
    dsimp only
    rw [if_neg Bool.false_ne_true]
    have hnew : lines (consumed ++ (readInput conn.pending).1) =
        ((lines consumed).1, (lines consumed).2 ++ strip (readInput conn.pending).1) := by
      rw [lines_append, linesFrom_part hlf, List.append_nil]
    have hframed : ∀ s' : Server,
        (∀ conn', s'.sessions k = some conn' → conn'.pending = [] ∧ conn'.session.Quiet ∧
          s'.bufferedCommands k = (lines consumed).2 ++ strip (readInput conn.pending).1) →
        Framed p k s' (consumed ++ conn.pending)
          ((lines consumed).1.map (fun l => p.takes (l ++ crlf)) ++ textsOf k []) ∧
          QuietAt k s' := by
      intro s' hs'
      refine ⟨⟨consumed ++ (readInput conn.pending).1, ?_, ?_, ?_⟩, ?_⟩
      · exact hread ▸ List.prefix_refl _
      · rw [hnew]
        exact List.append_nil _
      · intro conn' hconn'
        obtain ⟨hpending, -, hbuffered⟩ := hs' conn' hconn'
        rw [hpending, List.append_nil, hnew]
        exact ⟨hread, hbuffered⟩
      · exact fun conn' hconn' => (hs' conn' hconn').2.1
    by_cases hclosed : conn.closed = true
    · rw [if_pos hclosed]
      refine ⟨_, _, rfl, hframed _ ?_⟩
      intro conn' hconn'
      rw [sessions_closeConnection] at hconn'
      cases hconn'
    · rw [if_neg hclosed]
      refine ⟨_, _, rfl, hframed _ ?_⟩
      intro conn' hconn'
      rw [sessions_setSession] at hconn'
      cases hconn'
      exact ⟨hrest, hsession, by simp⟩

/-- One event of the server. -/
theorem Framed.step (hfuel : 1024 ≤ fuel) {s s' : Server} {stream : Bytes} {texts : List Bytes}
    (h : Framed p k s stream texts) (hquiet : QuietAt k s) {e : Event}
    {calls : List (Int × Bytes)} (hstep : s.step p correct fuel e = some (s', calls))
    (he : e ≠ .accept k) (hplain : ∀ c ∈ stream ++ arrived k [e], Plain c)
    (hlines : ∀ l ∈ (lines (stream ++ arrived k [e])).1, LineFits p l) :
    Framed p k s' (stream ++ arrived k [e]) (texts ++ textsOf k calls) ∧ QuietAt k s' := by
  by_cases hk : k = e.socket
  · subst hk
    cases e with
    | accept socket => exact absurd rfl he
    | arrive socket portion =>
        have harrived : arrived socket [.arrive socket portion] = portion := by simp [arrived]
        simp only [Event.socket] at *
        rw [harrived]
        unfold Server.step at hstep
        dsimp only at hstep
        split at hstep
        · cases hstep
        · next conn hconn =>
          split_ifs at hstep
          cases hstep
          rcases h with ⟨consumed, hprefix, rfl, hopen⟩
          obtain ⟨hstream, hcommand⟩ := hopen conn hconn
          refine ⟨⟨consumed, hprefix.trans (List.prefix_append _ _), List.append_nil _, ?_⟩, ?_⟩
          · intro conn' hconn'
            rw [sessions_setSession] at hconn'
            cases hconn'
            exact ⟨by rw [hstream, List.append_assoc], hcommand⟩
          · intro conn' hconn'
            rw [sessions_setSession] at hconn'
            cases hconn'
            exact hquiet conn hconn
    | hangUp socket =>
        have harrived : arrived socket [.hangUp socket] = [] := rfl
        simp only [Event.socket] at *
        rw [harrived, List.append_nil]
        unfold Server.step at hstep
        dsimp only at hstep
        split at hstep
        · cases hstep
        · next conn hconn =>
          cases hstep
          rcases h with ⟨consumed, hprefix, rfl, hopen⟩
          refine ⟨⟨consumed, hprefix, List.append_nil _, ?_⟩, ?_⟩
          · intro conn' hconn'
            rw [sessions_setSession] at hconn'
            cases hconn'
            exact hopen conn hconn
          · intro conn' hconn'
            rw [sessions_setSession] at hconn'
            cases hconn'
            exact hquiet conn hconn
    | select socket =>
        have harrived : arrived socket [.select socket] = [] := rfl
        simp only [Event.socket] at *
        rw [harrived, List.append_nil] at hplain hlines ⊢
        unfold Server.step at hstep
        dsimp only at hstep
        split at hstep
        · cases hstep
        · next conn hconn =>
          split_ifs at hstep with hidle
          obtain ⟨s₁, calls₁, hselected, hframed⟩ :=
            h.selected correct hfuel hquiet hplain hlines hconn
          rw [hselected] at hstep
          cases hstep
          exact hframed
  · obtain ⟨hsame, htexts⟩ := sameAt_step hk hstep
    have harrived : arrived k [e] = [] := by
      cases e with
      | arrive socket portion =>
          have hne : ¬socket = k := fun heq => hk heq.symm
          simp [arrived, hne]
      | accept socket => rfl
      | hangUp socket => rfl
      | select socket => rfl
    rw [harrived, htexts, List.append_nil, List.append_nil]
    refine ⟨h.sameAt hsame, fun conn hconn => ?_⟩
    rw [hsame.1] at hconn
    exact hquiet conn hconn

/-! ## Runs -/

theorem run_cons {s s' : Server} {e : Event} {es : List Event} {calls : List (Int × Bytes)}
    (h : s.run p correct fuel (e :: es) = some (s', calls)) :
    ∃ s₁ calls₁ calls₂, s.step p correct fuel e = some (s₁, calls₁) ∧
      s₁.run p correct fuel es = some (s', calls₂) ∧ calls = calls₁ ++ calls₂ := by
  rw [run] at h
  split at h
  · cases h
  · next s₁ calls₁ hstep =>
    split at h
    · cases h
    · next s₂ calls₂ hrun =>
      cases h
      exact ⟨s₁, calls₁, calls₂, hstep, hrun, rfl⟩

theorem arrived_cons (k : Int) (e : Event) (es : List Event) :
    arrived k (e :: es) = arrived k [e] ++ arrived k es := by
  rw [arrived, List.flatMap_cons]
  congr 1
  exact (List.flatMap_singleton ..).symm

theorem Framed.run (hfuel : 1024 ≤ fuel) {es : List Event} :
    ∀ {s s' : Server} {stream : Bytes} {texts : List Bytes} {calls : List (Int × Bytes)},
      Framed p k s stream texts → QuietAt k s → s.run p correct fuel es = some (s', calls) →
      .accept k ∉ es → (∀ c ∈ stream ++ arrived k es, Plain c) →
      (∀ l ∈ (lines (stream ++ arrived k es)).1, LineFits p l) →
      Framed p k s' (stream ++ arrived k es) (texts ++ textsOf k calls) ∧ QuietAt k s' := by
  induction es with
  | nil =>
      intro s s' stream texts calls h hquiet hrun _ _ _
      cases hrun
      have hnone : arrived k [] = [] := rfl
      rw [hnone, List.append_nil]
      exact ⟨by simpa [textsOf] using h, hquiet⟩
  | cons e es ih =>
      intro s s' stream texts calls h hquiet hrun hes hplain hlines
      obtain ⟨s₁, calls₁, calls₂, hstep, hrest, rfl⟩ := run_cons hrun
      rw [arrived_cons, ← List.append_assoc] at hplain hlines ⊢
      have he : e ≠ .accept k := fun heq => hes (heq ▸ List.mem_cons_self)
      obtain ⟨hframed, hquiet'⟩ := h.step hfuel hquiet hstep he
        (fun c hc => hplain c (List.mem_append_left _ hc))
        (fun l hl => hlines l (mem_lines_append hl))
      rw [textsOf_append, ← List.append_assoc]
      exact ih hframed hquiet' hrest (fun hmem => hes (List.mem_cons_of_mem e hmem)) hplain hlines

/-- A socket without a session has no command. -/
def NoneLeft (s : Server) : Prop := ∀ k, s.sessions k = none → s.bufferedCommands k = []

theorem NoneLeft.step {s s' : Server} (h : NoneLeft s) {e : Event} {calls : List (Int × Bytes)}
    (hstep : s.step p correct fuel e = some (s', calls)) : NoneLeft s' := by
  intro k hk
  by_cases hsocket : k = e.socket
  · subst hsocket
    cases e with
    | accept socket =>
        unfold Server.step at hstep
        dsimp only at hstep
        split at hstep
        · cases hstep
        · cases hstep
          simp [Event.socket] at hk
    | arrive socket portion =>
        unfold Server.step at hstep
        dsimp only at hstep
        split at hstep
        · cases hstep
        · split_ifs at hstep
          cases hstep
          simp [Event.socket] at hk
    | hangUp socket =>
        unfold Server.step at hstep
        dsimp only at hstep
        split at hstep
        · cases hstep
        · cases hstep
          simp [Event.socket] at hk
    | select socket =>
        simp only [Event.socket] at hk ⊢
        unfold Server.step at hstep
        dsimp only at hstep
        split at hstep
        · cases hstep
        · next conn hconn =>
          split_ifs at hstep with hidle
          unfold Server.selected at hstep
          dsimp only at hstep
          split_ifs at hstep with hcomplete hclosed
          · obtain ⟨⟨s₁, got⟩, hparse, hcall⟩ := Option.map_eq_some_iff.mp hstep
            cases hcall
            exact parseCommand_closed hparse hk
          · cases hstep
            simp
          · cases hstep
            simp at hk
  · obtain ⟨hsame, -⟩ := sameAt_step hsocket hstep
    rw [hsame.1] at hk
    rw [hsame.2]
    exact h k hk

theorem NoneLeft.run {es : List Event} : ∀ {s s' : Server} {calls : List (Int × Bytes)},
    NoneLeft s → s.run p correct fuel es = some (s', calls) → NoneLeft s' := by
  induction es with
  | nil =>
      intro s s' calls h hrun
      cases hrun
      exact h
  | cons e es ih =>
      intro s s' calls h hrun
      obtain ⟨s₁, calls₁, calls₂, hstep, hrest, -⟩ := run_cons hrun
      exact ih (h.step hstep) hrest

theorem run_concat {es : List Event} {e : Event} : ∀ {s s' : Server} {calls : List (Int × Bytes)},
    s.run p correct fuel (es ++ [e]) = some (s', calls) →
      ∃ s₁ calls₁ calls₂, s.run p correct fuel es = some (s₁, calls₁) ∧
        s₁.step p correct fuel e = some (s', calls₂) := by
  induction es with
  | nil =>
      intro s s' calls h
      obtain ⟨s₁, calls₁, calls₂, hstep, hrun, -⟩ := run_cons h
      cases hrun
      exact ⟨s, [], calls₁, rfl, hstep⟩
  | cons d es ih =>
      intro s s' calls h
      obtain ⟨s₁, calls₁, calls₂, hstep, hrun, -⟩ := run_cons h
      obtain ⟨s₂, calls₃, calls₄, hrun', hlast⟩ := ih hrun
      refine ⟨s₂, calls₁ ++ calls₃, calls₄, ?_, hlast⟩
      rw [Server.run, hstep]
      dsimp only
      rw [hrun']

/-- A session that has just been opened has got nothing. -/
theorem framed_accept {s s' : Server} {calls : List (Int × Bytes)} (h : NoneLeft s)
    (hstep : s.step p correct fuel (.accept k) = some (s', calls)) :
    Framed p k s' [] [] ∧ QuietAt k s' := by
  unfold Server.step at hstep
  dsimp only at hstep
  split at hstep
  · cases hstep
  · next hnone =>
    cases hstep
    have hconn : ∀ conn, (s.setSession k (some {})).sessions k = some conn → conn = {} := by
      intro conn hconn
      rw [sessions_setSession] at hconn
      exact (Option.some.inj hconn).symm
    refine ⟨⟨[], List.prefix_refl _, rfl, fun conn h' => ?_⟩, fun conn h' => ?_⟩
    · rw [hconn conn h']
      exact ⟨rfl, h k hnone⟩
    · rw [hconn conn h']
      exact ⟨rfl, rfl⟩

/-- From when a session has been opened, whatever happened before and whatever the other
clients send: the parser has got one line of the client in each call, the command buffer
holds the line that is not complete, and the server returns from reading on. -/
theorem framed_run (p : Parser) (correct : Bytes → Bytes) {fuel : Nat} (hfuel : 1024 ≤ fuel)
    {k : Int} {es es' : List Event} {s s' : Server} {calls calls' : List (Int × Bytes)}
    (hopen : run p correct fuel {} (es ++ [.accept k]) = some (s, calls))
    (hrun : s.run p correct fuel es' = some (s', calls')) (hsession : .accept k ∉ es')
    (hplain : ∀ c ∈ arrived k es', Plain c)
    (hlines : ∀ l ∈ (lines (arrived k es')).1, LineFits p l) :
    Framed p k s' (arrived k es') (textsOf k calls') ∧
      ∀ conn, s'.sessions k = some conn →
        ∃ r, s'.selected p correct fuel k conn = some r := by
  obtain ⟨s₁, calls₁, calls₂, hbefore, haccept⟩ := run_concat hopen
  have hnone : NoneLeft s₁ := NoneLeft.run (fun _ _ => rfl) hbefore
  obtain ⟨hframed, hquiet⟩ := framed_accept hnone haccept
  obtain ⟨hframed', hquiet'⟩ := hframed.run hfuel hquiet hrun hsession hplain hlines
  refine ⟨hframed', fun conn hconn => ?_⟩
  obtain ⟨s₂, calls₃, hselected, -⟩ :=
    hframed'.selected correct hfuel hquiet' hplain hlines hconn
  exact ⟨_, hselected⟩

/-- A parser for which every line is a comment. -/
def commentParser : Parser where
  wants := fun t => decide (lineFeed ∉ t ∧ nul ∉ t)
  result := fun t => if lineFeed ∈ t then .done else .syntaxError
  action := fun _ session => session
  wants_nil := rfl
  wants_lineFeed := fun t => by simp
  wants_nul := fun t => by simp

/-- The comment `#a` and the beginning of another one, in portions that split a line end. -/
theorem framed_run_comment :
    let portions : List Event :=
      [.arrive 0 [35, 97, carriageReturn], .select 0, .arrive 0 [lineFeed, 35], .select 0,
        .select 0]
    ∃ s s' calls, run commentParser id 1024 {} ([] ++ [.accept 0]) = some (s, []) ∧
      s.run commentParser id 1024 portions = some (s', calls) ∧
      textsOf 0 calls = [[35, 97, carriageReturn, lineFeed]] ∧
      Framed commentParser 0 s' (arrived 0 portions) (textsOf 0 calls) := by
  intro portions
  have hopen : run commentParser id 1024 {} ([] ++ [.accept 0]) =
      some (({} : Server).setSession 0 (some {}), []) := rfl
  have hlines : ∀ l ∈ (lines (arrived 0 portions)).1, LineFits commentParser l := by
    have hlength : ∀ l ∈ (lines (arrived 0 portions)).1, l.length ≤ 1021 := by decide
    exact fun l hl => ⟨hlength l hl, fun _ h => h⟩
  have hplain : ∀ c ∈ arrived 0 portions, Plain c := by
    unfold Plain
    exact @of_decide_eq_true _ (List.decidableBAll _ _) rfl
  have hsession : Event.accept 0 ∉ portions := by simp [portions]
  refine ⟨_, _, _, hopen, rfl, rfl, ?_⟩
  exact (framed_run commentParser id (Nat.le_refl 1024) hopen rfl hsession hplain hlines).1

/-! ## A line that is too long -/

/-- The scanner delivers what happens to be in its buffer; here that is the end of the
input. The command stays where it is. -/
theorem yyparse_overlong (p : Parser) {fuel : Nat} (hfuel : 2 ≤ fuel) {scanner : Scanner}
    (hbuf : scanner.buf.getD 0 nul = nul) {command : Bytes} (hlen : 1023 < command.length) :
    ∃ scanner', yyparse p fuel scanner.restart command [] = some ([nul], scanner', command) := by
  obtain ⟨n, rfl⟩ : ∃ n, fuel = n + 1 := ⟨fuel - 1, by omega⟩
  have hempty : scanner.restart.bytes ≤ scanner.restart.ptr := Nat.le_refl 0
  have hfetch : fetchCommand scanner.restart.buf 1023 command = (scanner.buf, 0, command) := by
    unfold fetchCommand
    rw [if_neg (by omega), if_pos hlen]
    rfl
  have hlex : yylex scanner.restart command =
      (nul, { buf := scanner.buf, ptr := 1, bytes := 0 }, command) := by
    rw [yylex, if_pos hempty, hfetch]
    dsimp only
    rw [hbuf]
  refine ⟨{ buf := scanner.buf, ptr := 1, bytes := 0 }, ?_⟩
  rw [yyparse, if_pos p.wants_nil, hlex]
  exact yyparse_stop p (by omega) _ _ (p.wants_nul [])

theorem takesFrom_prefix (p : Parser) (t : Bytes) : ∀ got : Bytes, got <+: p.takesFrom got t := by
  induction t with
  | nil => exact fun got => List.prefix_refl got
  | cons c t ih =>
      intro got
      rw [Parser.takesFrom]
      split_ifs
      · exact (List.prefix_append got [c]).trans (ih (got ++ [c]))
      · exact List.prefix_refl got

theorem step_select {s : Server} {conn : Connection} (hconn : s.sessions k = some conn)
    (hpending : conn.pending ≠ []) :
    s.step p correct fuel (.select k) = s.selected p correct fuel k conn := by
  unfold Server.step
  dsimp only
  rw [hconn]
  dsimp only
  rw [if_neg fun hidle => hpending hidle.1]

/-- The first portion that a server gets. -/
theorem run_portion (p : Parser) (correct : Bytes → Bytes) (fuel : Nat) {portion : Bytes}
    (h : portion ≠ []) :
    run p correct fuel {} [.accept 0, .arrive 0 portion, .select 0] =
      Server.selected p correct fuel
        ((({} : Server).setSession 0 (some {})).setSession 0 (some { pending := portion })) 0
        { pending := portion } := by
  have haccept : step p correct fuel {} (.accept 0) =
      some (({} : Server).setSession 0 (some {}), []) := rfl
  have harrive : step p correct fuel (({} : Server).setSession 0 (some {})) (.arrive 0 portion) =
      some ((({} : Server).setSession 0 (some {})).setSession 0 (some { pending := portion }), []) :=
    rfl
  rw [run, haccept]
  dsimp only
  rw [run, harrive]
  dsimp only
  rw [run, step_select (sessions_setSession ..) h]
  generalize Server.selected p correct fuel _ 0 _ = selection
  cases selection with
  | none => rfl
  | some r => exact congrArg some (Prod.ext rfl (List.append_nil r.2))

/-- A line of 1022 letters at a server that has just been started: the parser gets one
character, which is none of the line, and the line is left behind. -/
theorem not_framed_run :
    let line : Bytes := List.replicate 1022 65
    ∃ s calls, run commentParser id 1024 {}
        [.accept 0, .arrive 0 (line ++ [lineFeed]), .select 0] = some (s, calls) ∧
      textsOf 0 calls = [[nul]] ∧ s.bufferedCommands 0 = line ++ crlf ∧
      ¬Framed commentParser 0 s (line ++ [lineFeed]) (textsOf 0 calls) := by
  intro line
  have hlf : lineFeed ∉ line := by
    intro h
    exact absurd (List.eq_of_mem_replicate h) (by decide)
  have hplain : ∀ c ∈ line, Plain c := by
    intro c hc
    rw [List.eq_of_mem_replicate hc]
    exact ⟨by decide, by decide, by decide⟩
  have hstrip : strip line = line := by
    refine List.filter_eq_self.mpr fun c hc => ?_
    rw [List.eq_of_mem_replicate hc]
    rfl
  let conn : Connection := { pending := line ++ [lineFeed] }
  let s₀ : Server := ((({} : Server).setSession 0 (some {})).setSession 0 (some conn))
  have hquiet : ({} : Session).Quiet := ⟨rfl, rfl⟩
  have hprocess := hquiet.processInput_line id hlf hplain []
  rw [hstrip, List.nil_append] at hprocess
  let s₁ : Server := (s₀.setCommand 0 (line ++ crlf)).setSession 0 (some { session := {} })
  have hlen : 1023 < (line ++ crlf).length := by
    rw [List.length_append, List.length_replicate]
    decide
  have hbuf : s₁.scanner.buf.getD 0 nul = nul := rfl
  have hfuel : 2 ≤ 1024 := by decide
  obtain ⟨scanner, hparse⟩ := yyparse_overlong commentParser hfuel hbuf hlen
  obtain ⟨s₂, -, -, hparsed⟩ := parseCommand_eq s₁ 0 { session := {} } hparse
  rw [if_neg (by decide)] at hparsed
  have hselected : s₀.selected commentParser id 1024 0 conn =
      some ((s₂.setCommand 0 (line ++ crlf)).setSession 0
        (some (nextSession commentParser { session := {} } [nul])), [(0, [nul])]) := by
    unfold Server.selected
    dsimp only
    rw [readInput_line hlf]
    dsimp only
    have hnone : s₀.bufferedCommands 0 = [] := rfl
    rw [hnone, hprocess, if_pos rfl]
    dsimp only
    rw [hparsed]
    rfl
  have hrun : run commentParser id 1024 {}
      [.accept 0, .arrive 0 (line ++ [lineFeed]), .select 0] =
      some ((s₂.setCommand 0 (line ++ crlf)).setSession 0
        (some (nextSession commentParser { session := {} } [nul])), [(0, [nul])]) := by
    rw [run_portion commentParser id 1024 (List.append_ne_nil_of_right_ne_nil line
      (List.cons_ne_nil lineFeed [])), hselected]
  refine ⟨_, _, hrun, rfl, by simp, ?_⟩
  rintro ⟨consumed, -, htexts, hopen⟩
  obtain ⟨hstream, -⟩ := hopen _ (sessions_setSession ..)
  have hconsumed : consumed = line ++ [lineFeed] := by
    rw [hstream]
    exact (List.append_nil _).symm
  have hlines : lines consumed = ([line], []) := by
    rw [hconsumed, lines, linesFrom_line hlf, hstrip, List.nil_append]
  rw [hlines] at htexts
  have htakes : commentParser.takes (line ++ crlf) = [nul] := (List.cons.inj htexts).1.symm
  have hfirst : [65] <+: commentParser.takes (line ++ crlf) := by
    have hcons : line ++ crlf = 65 :: (List.replicate 1021 65 ++ crlf) := by
      rw [← List.cons_append, ← List.replicate_succ]
    rw [hcons, Parser.takes, Parser.takesFrom_cons _ commentParser.wants_nil]
    exact takesFrom_prefix commentParser _ [65]
  rw [htakes] at hfirst
  exact absurd hfirst (by decide)

end Server

end LscpServer

end LinuxSampler
