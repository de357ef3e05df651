import LinuxSampler.FsPath

/-!
# Command lines of the LSCP server

`network/lscpserver.cpp` and the scanner of `network/lscp.y`: the server
reads what the sockets of its clients have received, assembles a command
line for each client and calls the parser once for each complete line. The
parser asks the scanner for one character after another, and the scanner
fetches the line into a buffer that all clients share.

What the parser does with the characters is a parameter: after which
characters it asks for another one, how it ends and which modes of the
session the command sets. Strings are lists of bytes, with positions
without bounds. Notifications, the echo of commands and the replies for
the LSCP shell are left out; automatic corrections of a line are not.
-/

namespace LinuxSampler

namespace LscpServer

open Bytes

def backspace : UInt8 := 8
def lineFeed : UInt8 := 10
def carriageReturn : UInt8 := 13

def crlf : Bytes := [carriageReturn, lineFeed]

/-- The fields of `yyparse_param_t` that the assembly of lines reads. -/
structure Session where
  bShellInteract : Bool := false
  bShellAutoCorrect : Bool := false
  iCursorOffset : Int := 0

/-- A session and its socket: what has been received and not been read yet, and whether
the other side has closed the connection. -/
structure Connection where
  session : Session := {}
  pending : Bytes := []
  closed : Bool := false

/-! ## Scanner -/

/-- `buf`, `ptr` and `bytes` of the scanner. -/
structure Scanner where
  buf : Bytes := List.replicate 1024 nul
  ptr : Nat := 0
  bytes : Nat := 0

/-- What `c_str()` gives: the characters up to the first zero byte, which ends it. -/
def cString : Bytes → Bytes
  | [] => [nul]
  | c :: s => if c = nul then [nul] else c :: cString s

/-- `strcpy()` to the beginning of a buffer. -/
def strcpy (buf s : Bytes) : Bytes := cString s ++ buf.drop (cString s).length

/-- `GetLSCPCommand()` as the parser calls it: the buffer, the number of characters and
what is left of the command of the current socket. -/
def fetchCommand (buf : Bytes) (maxSize : Nat) (command : Bytes) : Bytes × Nat × Bytes :=
  if command.length = 0 then (strcpy buf [lineFeed], 1, command)
  else if maxSize < command.length then (buf, 0, command)
  else (strcpy buf command, command.length, [])

/-- `yylex()`, with the command of the current socket. The number of characters is never
negative. -/
def yylex (scanner : Scanner) (command : Bytes) : UInt8 × Scanner × Bytes :=
  if scanner.bytes ≤ scanner.ptr then
    let (buf, bytes, command) := fetchCommand scanner.buf 1023 command
    (buf.getD 0 nul, { buf := buf, ptr := 1, bytes := bytes }, command)
  else
    (scanner.buf.getD scanner.ptr nul, { scanner with ptr := scanner.ptr + 1 }, command)

/-- `restart()` -/
def Scanner.restart (scanner : Scanner) : Scanner := { scanner with ptr := 0, bytes := 0 }

/-! ## Parser -/

/-- `LSCP_DONE`, `LSCP_QUIT` and `LSCP_SYNTAX_ERROR`. -/
inductive Result where
  | done
  | quit
  | syntaxError
  deriving DecidableEq

/-- What `yyparse()` does after the characters it has got. It begins with a character, and
a line feed or a zero byte, which stands for the end of the input, is the last one it asks
for: the grammar has a line feed at the end of a line only, and no rule goes on behind the
end of the input. -/
structure Parser where
  wants : Bytes → Bool
  result : Bytes → Result
  action : Bytes → Session → Session
  wants_nil : wants [] = true
  wants_lineFeed : ∀ t, wants (t ++ [lineFeed]) = false
  wants_nul : ∀ t, wants (t ++ [nul]) = false

/-- The characters that the parser asks for of a text, behind those it has got. -/
def Parser.takesFrom (p : Parser) (got : Bytes) : Bytes → Bytes
  | [] => got
  | c :: t => if p.wants got then p.takesFrom (got ++ [c]) t else got

def Parser.takes (p : Parser) (t : Bytes) : Bytes := p.takesFrom [] t

/-- `yyparse()`: the characters that `yylex()` delivers, the scanner and the command of the
current socket. `none` if the parser goes on for more than `fuel` characters. -/
def yyparse (p : Parser) : (fuel : Nat) → Scanner → Bytes → Bytes →
    Option (Bytes × Scanner × Bytes)
  | 0, _, _, _ => none
  | fuel + 1, scanner, command, got =>
      if p.wants got then
        let (c, scanner, command) := yylex scanner command
        yyparse p fuel scanner command (got ++ [c])
      else some (got, scanner, command)

/-! ## Assembly of a line -/

/-- The loop that reads characters from the socket, up to a line feed: what it reads and
what it leaves. -/
def readInput : Bytes → Bytes × Bytes
  | [] => ([], [])
  | c :: pending =>
      if c = lineFeed then ([c], pending)
      else
        let (input, rest) := readInput pending
        (c :: input, rest)

/-- A character other than a carriage return and a line feed. The sum that is compared with
zero first is an unsigned one. -/
def edit (session : Session) (line : Bytes) (c : UInt8) : Session × Bytes :=
  if c = 2 then
    if session.iCursorOffset + line.length ≠ 0 then
      ({ session with iCursorOffset := session.iCursorOffset - 1 }, line)
    else (session, line)
  else if c = 3 then
    if session.iCursorOffset < 0 then
      ({ session with iCursorOffset := session.iCursorOffset + 1 }, line)
    else (session, line)
  else
    let cursorPos := line.length + session.iCursorOffset
    if c = backspace then
      if line ≠ [] ∧ 0 < cursorPos then (session, line.eraseIdx (cursorPos - 1).toNat)
      else (session, line)
    else if 0 ≤ cursorPos then
      (session, line.take cursorPos.toNat ++ c :: line.drop cursorPos.toNat)
    else (session, line ++ [c])

/-- `lscpParserProcessShellInteraction()`, where it is called: `correct` is what automatic
correction makes of a line. -/
def shellInteraction (correct : Bytes → Bytes) (session : Session) (line : Bytes) : Bytes :=
  if session.bShellInteract ∨ session.bShellAutoCorrect then
    if session.bShellAutoCorrect then correct line else line
  else line

/-- What the input makes of a session and its command line. -/
structure Assembled where
  session : Session
  line : Bytes
  complete : Bool

/-- The loop of `LSCPServer::GetLSCPCommand()` over the input. -/
def processInput (correct : Bytes → Bytes) (session : Session) (line : Bytes) : Bytes → Assembled
  | [] => ⟨session, line, false⟩
  | c :: input =>
      if c = carriageReturn then processInput correct session line input
      else if c = lineFeed then ⟨session, shellInteraction correct session line ++ crlf, true⟩
      else
        let edited := edit session line c
        let line :=
          if input = [] then shellInteraction correct edited.1 edited.2 else edited.2
        processInput correct edited.1 line input

/-! ## Server -/

structure Server where
  sessions : Int → Option Connection := fun _ => none
  bufferedCommands : Int → Bytes := fun _ => []
  scanner : Scanner := {}

namespace Server

def setSession (s : Server) (socket : Int) (conn : Option Connection) : Server :=
  { s with sessions := Function.update s.sessions socket conn }

def setCommand (s : Server) (socket : Int) (line : Bytes) : Server :=
  { s with bufferedCommands := Function.update s.bufferedCommands socket line }

/-- `LSCPServer::CloseConnection()` -/
def closeConnection (s : Server) (socket : Int) : Server :=
  (s.setSession socket none).setCommand socket []

/-- `LSCPServer::Main()` for a complete command: the characters that the parser got. -/
def parseCommand (p : Parser) (fuel : Nat) (s : Server) (socket : Int) (conn : Connection) :
    Option (Server × Bytes) :=
  match yyparse p fuel s.scanner.restart (s.bufferedCommands socket) [] with
  | none => none
  | some (got, scanner, command) =>
      -- each alternative of `input` begins a new line, and that of errors restarts the scanner
      let session := { p.action got conn.session with iCursorOffset := 0 }
      let scanner := if p.result got = .syntaxError then scanner.restart else scanner
      let s := ({ s with scanner := scanner }.setCommand socket command).setSession socket
        (some { conn with session := session })
      some (if p.result got = .quit then s.closeConnection socket else s, got)

/-- `LSCPServer::Main()` for a socket that has been selected: the calls of the parser. -/
def selected (p : Parser) (correct : Bytes → Bytes) (fuel : Nat) (s : Server) (socket : Int)
    (conn : Connection) : Option (Server × List (Int × Bytes)) :=
  let input := readInput conn.pending
  let assembled := processInput correct conn.session (s.bufferedCommands socket) input.1
  let conn := { conn with session := assembled.session, pending := input.2 }
  let s := (s.setCommand socket assembled.line).setSession socket (some conn)
  if assembled.complete then
    (s.parseCommand p fuel socket conn).map fun r => (r.1, [(socket, r.2)])
  else if conn.closed then some (s.closeConnection socket, [])
  else some (s, [])

/-- What can happen at a server: a client connects, its data arrive, it closes the
connection, or its socket has been selected. -/
inductive Event where
  | accept (socket : Int)
  | arrive (socket : Int) (portion : Bytes)
  | hangUp (socket : Int)
  | select (socket : Int)

/-- One event, with the characters that the parser has got if it has been called. `none`
if the event can not happen, or if the parser does not return. -/
def step (p : Parser) (correct : Bytes → Bytes) (fuel : Nat) (s : Server) :
    Event → Option (Server × List (Int × Bytes))
  | .accept socket =>
      match s.sessions socket with
      | some _ => none
      | none => some (s.setSession socket (some {}), [])
  | .arrive socket portion =>
      match s.sessions socket with
      | none => none
      | some conn =>
          if conn.closed then none
          else some (s.setSession socket
            (some { conn with pending := conn.pending ++ portion }), [])
  | .hangUp socket =>
      match s.sessions socket with
      | none => none
      | some conn => some (s.setSession socket (some { conn with closed := true }), [])
  | .select socket =>
      match s.sessions socket with
      | none => none
      | some conn =>
          if conn.pending = [] ∧ conn.closed = false then none
          else s.selected p correct fuel socket conn

/-- A run, with the calls of the parser. -/
def run (p : Parser) (correct : Bytes → Bytes) (fuel : Nat) (s : Server) :
    List Event → Option (Server × List (Int × Bytes))
  | [] => some (s, [])
  | e :: es =>
      match s.step p correct fuel e with
      | none => none
      | some (s, calls) =>
          match run p correct fuel s es with
          | none => none
          | some (s, calls') => some (s, calls ++ calls')

end Server

end LscpServer

end LinuxSampler
