import LinuxSampler.FsPath
import LinuxSampler.StepSystem
import LinuxSampler.StoreProgram
import Mathlib.Data.List.Nodup

/-!
# Instruments database

`db/InstrumentsDb.cpp` as far as it changes directories and instruments:
the two tables, the SQL statements, and the calls as programs of
statements and queries. The texts of exceptions and the times in the tables
are left out.

A call holds the mutex of the database from its beginning to its end. A
scan of instrument files releases it while it reads the first instrument
of a file, and locks it again only if no transaction is going on.
-/

namespace LinuxSampler

namespace InstrumentsDb

open Bytes StoreProgram Prog

/-! ## Paths -/

/-- Up to and including the last slash. -/
def upToSlash (s : Bytes) : Bytes := (s.reverse.dropWhile (· ≠ slash)).reverse

/-- `CheckPathName()`: there are no two slashes in a row. -/
def checkPathName : Bytes → Bool
  | [] => true
  | c :: s => !(c == slash && s.head? == some slash) && checkPathName s

def getParentDirectory (dir : Bytes) : Bytes :=
  if dir.length < 2 ∨ dir.head? ≠ some slash then []
  else
    let path := upToSlash (dir.take (dir.length - 1))
    if path.length = 1 then [slash] else path.dropLast

def getFileName (path : Bytes) : Bytes :=
  if path.length < 2 ∨ path.head? ≠ some slash ∨ path.getLast? = some slash then []
  else (path.reverse.takeWhile (· ≠ slash)).reverse

/-- `GetDirectoryPath()` of the path of an instrument. -/
def getDirectoryPath (file : Bytes) : Bytes :=
  if file.head? ≠ some slash then []
  else if file.length = 1 then file
  else if file.getLast? = some slash then file.dropLast
  else
    let path := upToSlash file
    if path.length = 1 then [slash] else path.dropLast

/-- `AppendNode()` -/
def appendNode (dbDir node : Bytes) : Bytes :=
  if dbDir.getLast? = some slash then dbDir ++ node else dbDir ++ slash :: node

def toDbName (abstractName : Bytes) : Bytes :=
  abstractName.map fun c => if c = nul then slash else c

def toAbstractName (dbName : Bytes) : Bytes :=
  dbName.map fun c => if c = slash then nul else c

/-- The parts between slashes. -/
def parts : Bytes → List Bytes
  | [] => [[]]
  | c :: s =>
      if c = slash then [] :: parts s
      else
        match parts s with
        | [] => [[c]]
        | part :: rest => (c :: part) :: rest

/-- The names that `GetDirectoryId()` looks up for a path: what is between slashes, where
nothing need be behind the last one. -/
def pathNames (path : Bytes) : List Bytes :=
  let names := parts path.tail
  if names.getLast? = some [] then names.dropLast else names

/-! ## Tables -/

/-- A row of `instr_dirs`. -/
structure DirRow where
  id : Int
  parent : Int
  name : Bytes
  deriving DecidableEq

/-- The columns that say something about an instrument. -/
structure Columns where
  formatFamily : Bytes
  formatVersion : Bytes
  size : Int
  description : Bytes
  isDrum : Bool
  product : Bytes
  artists : Bytes
  keywords : Bytes
  deriving DecidableEq

/-- A row of `instruments`. -/
structure InstrumentRow where
  id : Int
  dir : Int
  name : Bytes
  file : Bytes
  nr : Int
  columns : Columns
  deriving DecidableEq

/-- The tables, the last numbers that were given to their rows, and `InTransaction`. -/
structure Db where
  dirs : List DirRow := [⟨0, -2, [slash]⟩]
  instruments : List InstrumentRow := []
  lastDir : Int := 0
  lastInstrument : Int := 0
  inTransaction : Bool := false

inductive Stmt where
  | beginTransaction
  | endTransaction
  | insertDirectory (parent : Int) (name : Bytes)
  | deleteDirectory (id : Int)
  | deleteDirectories (parent : Int)
  | renameDirectory (id : Int) (name : Bytes)
  | moveDirectory (id parent : Int)
  /-- The statement of `CopyInstrument()`. -/
  | insertInstrument (dir : Int) (name file : Bytes) (nr : Int) (columns : Columns)
  /-- The statement of `AddInstrumentsFromFilePriv()`. -/
  | scanInstrument (dir : Int) (name file : Bytes) (nr : Int) (columns : Columns)
  | deleteInstrument (id : Int)
  | deleteInstruments (dir : Int)
  | renameInstrument (id : Int) (name : Bytes)
  | moveInstrument (id dir : Int)
  | setInstrumentFile (newPath oldPath : Bytes)

/-- Parameters are bound as texts that end with the first NUL byte. -/
def bindText (text : Bytes) : Bytes := text.takeWhile (· ≠ nul)

def Columns.bind (c : Columns) : Columns where
  formatFamily := bindText c.formatFamily
  formatVersion := bindText c.formatVersion
  size := c.size
  description := bindText c.description
  isDrum := c.isDrum
  product := bindText c.product
  artists := bindText c.artists
  keywords := bindText c.keywords

def UniqueDirs (dirs : List DirRow) : Prop := (dirs.map fun d => (d.parent, d.name)).Nodup

def UniqueInstruments (instruments : List InstrumentRow) : Prop :=
  (instruments.map fun i => (i.dir, i.name)).Nodup

instance : DecidablePred UniqueDirs := fun _ => List.nodupDecidable _

instance : DecidablePred UniqueInstruments := fun _ => List.nodupDecidable _

/-- Statements that violate a `UNIQUE` constraint change nothing. -/
def Db.withDirs (db : Db) (dirs : List DirRow) : Option Db :=
  if UniqueDirs dirs then some { db with dirs := dirs } else none

def Db.withInstruments (db : Db) (instruments : List InstrumentRow) : Option Db :=
  if UniqueInstruments instruments then some { db with instruments := instruments } else none

def Db.insertDir (db : Db) (parent : Int) (name : Bytes) : Option Db :=
  let row : DirRow := ⟨db.lastDir + 1, parent, name⟩
  { db with lastDir := row.id }.withDirs (db.dirs ++ [row])

def Db.insertInstrument (db : Db) (dir : Int) (name file : Bytes) (nr : Int) (columns : Columns) :
    Option Db :=
  let row : InstrumentRow := ⟨db.lastInstrument + 1, dir, name, file, nr, columns⟩
  { db with lastInstrument := row.id }.withInstruments (db.instruments ++ [row])

namespace Stmt

def exec (stmt : Stmt) (db : Db) : Option Db :=
  match stmt with
  | beginTransaction => some { db with inTransaction := true }
  | endTransaction => some { db with inTransaction := false }
  | insertDirectory parent name => db.insertDir parent (bindText name)
  | deleteDirectory id => db.withDirs (db.dirs.filter fun d => d.id ≠ id)
  | deleteDirectories parent =>
      db.withDirs (db.dirs.filter fun d => ¬(d.parent = parent ∧ d.id ≠ 0))
  | renameDirectory id name =>
      db.withDirs (db.dirs.map fun d => if d.id = id then { d with name := bindText name } else d)
  | moveDirectory id parent =>
      db.withDirs (db.dirs.map fun d => if d.id = id then { d with parent := parent } else d)
  | insertInstrument dir name file nr columns =>
      db.insertInstrument dir (bindText name) (bindText file) nr columns.bind
  | scanInstrument dir name file nr columns =>
      db.insertInstrument dir (bindText name) (bindText file) nr columns.bind
  | deleteInstrument id => db.withInstruments (db.instruments.filter fun i => i.id ≠ id)
  | deleteInstruments dir => db.withInstruments (db.instruments.filter fun i => i.dir ≠ dir)
  | renameInstrument id name =>
      db.withInstruments
        (db.instruments.map fun i => if i.id = id then { i with name := bindText name } else i)
  | moveInstrument id dir =>
      db.withInstruments (db.instruments.map fun i => if i.id = id then { i with dir := dir } else i)
  | setInstrumentFile newPath oldPath =>
      db.withInstruments (db.instruments.map fun i =>
        if i.file = bindText oldPath then { i with file := bindText newPath } else i)

end Stmt

/-! ## Queries -/

abbrev Program (α : Type) := Prog Stmt Db α

namespace Db

/-- The number in the first row, or `-1`. -/
def findDir (db : Db) (parent : Int) (name : Bytes) : Int :=
  match db.dirs.find? fun d => d.parent = parent ∧ d.name = name with
  | some d => d.id
  | none => -1

def findInstrument (db : Db) (dir : Int) (name : Bytes) : Int :=
  match db.instruments.find? fun i => i.dir = dir ∧ i.name = name with
  | some i => i.id
  | none => -1

def findParent (db : Db) (id : Int) : Int :=
  match db.dirs.find? fun d => d.id = id with
  | some d => d.parent
  | none => -1

/-- `GetDirectoryIDs()` -/
def dirIds (db : Db) (parent : Int) : List Int :=
  (db.dirs.filter fun d => d.parent = parent ∧ d.id ≠ 0).map DirRow.id

def dirNames (db : Db) (parent : Int) : List Bytes :=
  (db.dirs.filter fun d => d.parent = parent ∧ d.id ≠ 0).map fun d => toAbstractName d.name

def instrumentIds (db : Db) (dir : Int) : List Int :=
  (db.instruments.filter fun i => i.dir = dir).map InstrumentRow.id

def dirCount (db : Db) (parent : Int) : Nat := db.dirs.countP fun d => d.parent = parent

def instrumentCount (db : Db) (dir : Int) : Nat := db.instruments.countP fun i => i.dir = dir

end Db

/-- `GetDirectoryId()` of a name in a directory. -/
def getDirId (parent : Int) (name : Bytes) : Program Int :=
  select fun db => db.findDir parent (bindText (toDbName name))

def lookUp (id : Int) : List Bytes → Program Int
  | [] => ret id
  | name :: names => do
      let id ← getDirId id name
      lookUp id names

/-- `GetDirectoryId()` of a path. -/
def getDirectoryId (dir : Bytes) : Program Int := do
  require (checkPathName dir)
  if dir.head? ≠ some slash then ret (-1)
  else if dir.length = 1 then ret 0
  else lookUp 0 (pathNames dir)

/-- `GetInstrumentId()` of a name in a directory. -/
def getInstrumentId (dirId : Int) (name : Bytes) : Program Int :=
  if dirId = -1 ∨ name = [] then ret (-1)
  else select fun db => db.findInstrument dirId (bindText (toDbName name))

/-- `GetInstrumentId()` of a path. -/
def getInstrumentIdOf (instr : Bytes) : Program Int :=
  if getDirectoryPath instr = [] then ret (-1)
  else do
    let dirId ← getDirectoryId (getDirectoryPath instr)
    getInstrumentId dirId (getFileName instr)

/-! ## Calls -/

/-- From `BeginTransaction()` to `EndTransaction()`; exceptions are passed on. -/
def transaction {α : Type} (p : Program α) : Program α := do
  statement .beginTransaction
  let result ← attempt p
  statement .endTransaction
  match result with
  | some a => ret a
  | none => fail

/-- Without a slash at its end. -/
def withoutSlash (dir : Bytes) : Bytes :=
  if 1 < dir.length ∧ dir.getLast? = some slash then dir.dropLast else dir

def addDirectory (dir : Bytes) : Program Unit := do
  require (checkPathName dir)
  transaction do
    let dirName := getFileName (withoutSlash dir)
    require (getParentDirectory dir ≠ [] ∧ dirName ≠ [])
    let id ← getDirectoryId (getParentDirectory dir)
    require (id ≠ -1)
    let id2 ← getDirId id dirName
    require (id2 = -1)
    let id2 ← getInstrumentId id dirName
    require (id2 = -1)
    statement (.insertDirectory id (toDbName dirName))

/-- `IsDirectoryEmpty()`, which must be true. -/
def requireEmpty (dirId : Int) : Program Unit := do
  let dirCount ← select fun db => db.dirCount dirId
  let instrumentCount ← select fun db => db.instrumentCount dirId
  require (dirCount = 0 ∧ instrumentCount = 0)

def removeAllDirectories (dirId : Int) : Program Unit := do
  let dirIds ← select fun db => db.dirIds dirId
  forEach dirIds requireEmpty
  statement (.deleteDirectories dirId)

/-- The first argument is how many levels may still follow. -/
def removeDirectoryContent : Nat → Int → Program Unit
  | 0, _ => fail
  | levels + 1, dirId => do
      let dirIds ← select fun db => db.dirIds dirId
      forEach dirIds (removeDirectoryContent levels)
      removeAllDirectories dirId
      statement (.deleteInstruments dirId)

def removeDirectory (dir : Bytes) (force : Bool) : Program Unit :=
  transaction do
    let dirId ← getDirectoryId dir
    require (dirId ≠ -1 ∧ dirId ≠ 0 ∧ getParentDirectory dir ≠ [])
    if force then removeDirectoryContent 1001 dirId else ret ()
    let instrumentCount ← select fun db => db.instrumentCount dirId
    let dirCount ← select fun db => db.dirCount dirId
    require (instrumentCount = 0 ∧ dirCount = 0)
    statement (.deleteDirectory dirId)

def renameDirectory (dir name : Bytes) : Program Unit := do
  require (name ≠ [])
  let dbName := toDbName name
  transaction do
    let dirId ← getDirectoryId dir
    require (dirId ≠ -1)
    let parent ← select fun db => db.findParent dirId
    require (parent ≠ -1)
    let id2 ← getDirId parent dbName
    require (id2 = -1)
    let id2 ← getInstrumentId parent dbName
    require (id2 = -1)
    statement (.renameDirectory dirId dbName)

/-- The path of a directory with a slash at its end. -/
def withSlash (dir : Bytes) : Bytes := if dir.getLast? = some slash then dir else dir ++ [slash]

/-- The checks of `MoveDirectory()` and `CopyDirectory()`. The first directory gets or gives
the name, the second one is where it goes. -/
def checkTarget (dir dst : Bytes) : Program (Int × Int) := do
  let dirId ← getDirectoryId dir
  require (dirId ≠ -1)
  let dstId ← getDirectoryId dst
  require (dstId ≠ -1)
  require (dirId ≠ dstId)
  require (¬((withSlash dir).length < dst.length ∧
    withSlash dir = dst.take (withSlash dir).length))
  let dirName := getFileName (withSlash dir).dropLast
  let id2 ← getDirId dstId dirName
  require (id2 = -1)
  let id2 ← getInstrumentId dstId dirName
  require (id2 = -1)
  ret (dirId, dstId)

def moveDirectory (dir dst : Bytes) : Program Unit := do
  require (dir ≠ [slash] ∧ getParentDirectory dir ≠ [])
  transaction do
    let (dirId, dstId) ← checkTarget dir dst
    statement (.moveDirectory dirId dstId)

/-- The overload of `CopyInstrument()` that copies a row. -/
def copyInstrumentRow (instrId : Int) (name : Bytes) (dstDirId : Int) : Program Unit := do
  let id ← getInstrumentId dstDirId name
  require (id = -1)
  let id ← getDirId dstDirId name
  require (id = -1)
  let info ← select fun db => db.instruments.find? fun i => i.id = instrId
  match info with
  | none => fail
  | some i => statement (.insertInstrument dstDirId (toDbName name) i.file i.nr i.columns)

/-- `DirectoryCopier::ProcessDirectory()`; both paths end with a slash. -/
def copyContent (srcParentDir destDir path : Bytes) (dirId : Int) : Program Unit := do
  let below := srcParentDir.length < path.length
  let dir := if below then destDir ++ path.drop srcParentDir.length else destDir
  if below then addDirectory dir else ret ()
  let dstDirId ← getDirectoryId dir
  require (dstDirId ≠ -1)
  let ids ← select fun db => db.instrumentIds dirId
  forEach ids fun id => do
    let info ← select fun db => db.instruments.find? fun i => i.id = id
    let name := (info.map fun i => toAbstractName i.name).getD []
    copyInstrumentRow id name dstDirId

/-- `DirectoryTreeWalk()`; the first argument is how many levels may still follow. -/
def directoryTreeWalk (process : Bytes → Int → Program Unit) : Nat → Bytes → Int → Program Unit
  | 0, _, _ => fail
  | levels + 1, path, dirId => do
      process path dirId
      let names ← select fun db => db.dirNames dirId
      forEach names fun name => do
        let id ← getDirId dirId name
        directoryTreeWalk process levels
          (if path = [slash] then slash :: name else path ++ slash :: name) id

def copyDirectory (dir dst : Bytes) : Program Unit := do
  require (dir ≠ [slash] ∧ getParentDirectory dir ≠ [])
  transaction do
    let _ ← checkTarget dir dst
    let path := (withSlash dir).dropLast
    let dirId ← getDirectoryId path
    require (dirId ≠ -1)
    directoryTreeWalk (copyContent (withSlash (getParentDirectory dir)) (withSlash dst)) 1000
      path dirId

def removeInstrument (instr : Bytes) : Program Unit := do
  require (getDirectoryPath instr ≠ [])
  transaction do
    let instrId ← getInstrumentIdOf instr
    require (instrId ≠ -1)
    statement (.deleteInstrument instrId)

def renameInstrument (instr name : Bytes) : Program Unit := do
  require (name ≠ [])
  transaction do
    let dirId ← getDirectoryId (getDirectoryPath instr)
    require (dirId ≠ -1)
    let instrId ← getInstrumentId dirId (getFileName instr)
    require (instrId ≠ -1)
    let id ← getInstrumentId dirId name
    require (id = -1)
    let id ← getDirId dirId name
    require (id = -1)
    statement (.renameInstrument instrId (toDbName name))

/-- What `MoveInstrument()` and `CopyInstrument()` look up: the instrument, its directory and
where it goes. -/
def lookUpInstrument (instr dst : Bytes) : Program (Int × Int × Int) := do
  let dirId ← getDirectoryId (getDirectoryPath instr)
  require (dirId ≠ -1)
  let instrId ← getInstrumentId dirId (getFileName instr)
  require (instrId ≠ -1)
  let dstId ← getDirectoryId dst
  require (dstId ≠ -1)
  ret (instrId, dirId, dstId)

def moveInstrument (instr dst : Bytes) : Program Unit := do
  require (getDirectoryPath instr ≠ [])
  transaction do
    let (instrId, dirId, dstId) ← lookUpInstrument instr dst
    if dirId = dstId then ret ()
    else do
      let id ← getInstrumentId dstId (getFileName instr)
      require (id = -1)
      let id ← getDirId dstId (getFileName instr)
      require (id = -1)
      statement (.moveInstrument instrId dstId)

def copyInstrument (instr dst : Bytes) : Program Unit := do
  require (getDirectoryPath instr ≠ [])
  transaction do
    let (instrId, dirId, dstId) ← lookUpInstrument instr dst
    if dirId = dstId then ret () else copyInstrumentRow instrId (getFileName instr) dstId

/-! ## Scans -/

/-- A number in decimal. -/
def decimal (n : Nat) : Bytes := (Nat.toDigits 10 n).map fun c => c.toNat.toUInt8

/-- A name with a number in brackets. -/
def numbered (name : Bytes) (n : Nat) : Bytes := name ++ 91 :: decimal n ++ [93]

/-- The loop of `GetUniqueName()`, which asks for instruments twice. -/
def uniqueFrom (dirId : Int) (name : Bytes) : Nat → Nat → Program Bytes
  | 0, _ => fail
  | tries + 1, n => do
      let id ← getInstrumentId dirId (numbered name n)
      let id2 ← getInstrumentId dirId (numbered name n)
      if id = -1 ∧ id2 = -1 then ret (numbered name n) else uniqueFrom dirId name tries (n + 1)

def getUniqueName (dirId : Int) (name : Bytes) : Program Bytes := do
  let id ← getInstrumentId dirId name
  let id2 ← getDirId dirId name
  if id = -1 ∧ id2 = -1 then ret name else uniqueFrom dirId name 999 2

/-- What is read from a file about one of its instruments. -/
structure InstrumentInfo where
  instrumentName : Bytes
  product : Bytes := []
  artists : Bytes := []
  keywords : Bytes := []
  comments : Bytes := []
  isDrum : Bool := false

/-- What a scan finds: the path of a file as it is stored, its name without extension, and,
if it is an instrument file, its instruments. -/
structure ScanFile where
  path : Bytes
  baseName : Bytes
  instruments : Option (List InstrumentInfo)
  formatName : Bytes := []
  formatVersion : Bytes := []
  size : Int := 0

/-- What a scan stores about an instrument. -/
def ScanFile.columns (file : ScanFile) (info : InstrumentInfo) : Columns where
  formatFamily := file.formatName
  formatVersion := file.formatVersion
  size := file.size
  description := info.comments
  isDrum := info.isDrum
  product := info.product
  artists := info.artists
  keywords := info.keywords

/-- `-1` stands for all instruments of a file; `insDir` puts each file into a directory of
its own. -/
structure Scan where
  dbDir : Bytes
  insDir : Bool
  index : Int

/-- `New Directory` -/
def newDirectory : Bytes := [78, 101, 119, 32, 68, 105, 114, 101, 99, 116, 111, 114, 121]

def prepareSubdirectory (dbDir baseName : Bytes) : Program Bytes := do
  let name := if baseName = [] then newDirectory else toAbstractName baseName
  let id ← getDirectoryId dbDir
  let name ← getUniqueName id name
  let dir := appendNode dbDir name
  addDirectory dir
  ret dir

/-- The loop over the instruments of a file. -/
def insertInstruments (dirId : Int) (file : ScanFile) (index : Int) :
    List InstrumentInfo → Int → Program Unit
  | [], _ => ret ()
  | info :: infos, nr => do
      let name := if info.instrumentName = [] then file.baseName else info.instrumentName
      let name ← getUniqueName dirId name
      let count ← select fun db => db.instruments.countP fun i =>
        i.file = bindText file.path ∧ i.nr = nr
      if count = 0 then
        statement (.scanInstrument dirId name file.path nr (file.columns info))
      else ret ()
      if index = -1 then insertInstruments dirId file index infos (nr + 1) else ret ()

/-- A scan that has released the mutex to read a file. -/
structure Reading where
  scan : Scan
  dirId : Int
  file : ScanFile
  infos : List InstrumentInfo
  files : List ScanFile

/-- What the scan does with the file that it has read; exceptions are printed. -/
def Reading.insert (r : Reading) : Program (Option Unit) :=
  attempt (insertInstruments r.dirId r.file r.scan.index r.infos
    (if r.scan.index = -1 then 0 else r.scan.index))

/-- The loop over the files, up to where the mutex is released. -/
def scanFiles (scan : Scan) : List ScanFile → Program (Option Reading)
  | [] => ret none
  | file :: files => do
      let dir ← if scan.insDir then prepareSubdirectory scan.dbDir file.baseName else ret scan.dbDir
      match file.instruments with
      | none => scanFiles scan files
      | some infos => do
          let dirId ← attempt do
            let dirId ← getDirectoryId dir
            require (dirId ≠ -1)
            ret dirId
          match dirId with
          | none => scanFiles scan files
          | some dirId => do
              let r : Reading := ⟨scan, dirId, file, infos, files⟩
              let inTransaction ← select fun db => db.inTransaction
              if inTransaction then do
                let _ ← r.insert
                scanFiles scan files
              else ret (some r)

/-- `AddInstruments()` and `AddInstrumentsNonrecursive()`. A recursive scan adds directories
and scans them one after another. -/
def addInstruments (scan : Scan) (files : List ScanFile) : Program (Option Reading) := do
  let dirId ← getDirectoryId scan.dbDir
  require (dirId ≠ -1)
  scanFiles scan files

/-! ## Threads -/

inductive Call where
  | addDirectory (dir : Bytes)
  | removeDirectory (dir : Bytes) (force : Bool)
  | renameDirectory (dir name : Bytes)
  | moveDirectory (dir dst : Bytes)
  | copyDirectory (dir dst : Bytes)
  | addInstruments (scan : Scan) (files : List ScanFile)
  | removeInstrument (instr : Bytes)
  | renameInstrument (instr name : Bytes)
  | moveInstrument (instr dst : Bytes)
  | copyInstrument (instr dst : Bytes)

/-- Up to where a thread releases the mutex. -/
def Call.program : Call → Program (Option Reading)
  | addDirectory dir => (InstrumentsDb.addDirectory dir).bind fun _ => ret none
  | removeDirectory dir force => (InstrumentsDb.removeDirectory dir force).bind fun _ => ret none
  | renameDirectory dir name => (InstrumentsDb.renameDirectory dir name).bind fun _ => ret none
  | moveDirectory dir dst => (InstrumentsDb.moveDirectory dir dst).bind fun _ => ret none
  | copyDirectory dir dst => (InstrumentsDb.copyDirectory dir dst).bind fun _ => ret none
  | addInstruments scan files => InstrumentsDb.addInstruments scan files
  | removeInstrument instr => (InstrumentsDb.removeInstrument instr).bind fun _ => ret none
  | renameInstrument instr name =>
      (InstrumentsDb.renameInstrument instr name).bind fun _ => ret none
  | moveInstrument instr dst => (InstrumentsDb.moveInstrument instr dst).bind fun _ => ret none
  | copyInstrument instr dst => (InstrumentsDb.copyInstrument instr dst).bind fun _ => ret none

/-- A scan without the mutex: it reads a file, inserts without the mutex, or waits for it. -/
inductive Pending where
  | reading (r : Reading)
  | unlocked (p : Program (Option Unit)) (r : Reading)
  | waiting (r : Reading)

/-- The thread that holds the mutex, if any, has a program left to do. A scan locks the mutex
once more than it unlocks it; here it is free after that nevertheless. -/
structure System where
  db : Db := {}
  holder : Option (Program (Option Reading)) := none
  pending : List Pending := []

inductive Event where
  | call (c : Call)
  | holder
  | pending (n : Nat)

namespace System

/-- What the thread does that holds the mutex. -/
def stepHolder (sys : System) : Program (Option Reading) → System
  | ret none => { sys with holder := none }
  | ret (some r) => { sys with holder := none, pending := sys.pending ++ [.reading r] }
  | fail => { sys with holder := none }
  | p => { sys with db := (p.step Stmt.exec sys.db).2, holder := some (p.step Stmt.exec sys.db).1 }

def lock (sys : System) (n : Nat) (p : Program (Option Reading)) : System :=
  match sys.holder with
  | none => { sys with holder := some p, pending := sys.pending.eraseIdx n }
  | some _ => sys

def stepPending (sys : System) (n : Nat) : Pending → System
  | .reading r =>
      if sys.db.inTransaction then { sys with pending := sys.pending.set n (.unlocked r.insert r) }
      else sys.lock n (r.insert.bind fun _ => scanFiles r.scan r.files)
  | .unlocked (ret _) r => { sys with pending := sys.pending.set n (.waiting r) }
  | .unlocked fail r => { sys with pending := sys.pending.set n (.waiting r) }
  | .unlocked p r =>
      { sys with
        db := (p.step Stmt.exec sys.db).2
        pending := sys.pending.set n (.unlocked (p.step Stmt.exec sys.db).1 r) }
  | .waiting r => sys.lock n (scanFiles r.scan r.files)

/-- Threads that wait for the mutex do nothing. -/
def step (sys : System) : Event → System
  | .call c =>
      match sys.holder with
      | none => { sys with holder := some c.program }
      | some _ => sys
  | .holder =>
      match sys.holder with
      | some p => sys.stepHolder p
      | none => sys
  | .pending n =>
      match sys.pending[n]? with
      | some p => sys.stepPending n p
      | none => sys

end System

/-- Threads from a new database on. -/
def threads : StepSystem System Event where
  init := {}
  enabled _ _ := True
  step := System.step

/-! ## Meaning -/

/-- From the directory the root can be reached. -/
inductive Reaches (dirs : List DirRow) : Int → Prop
  | root : Reaches dirs 0
  | child {d : DirRow} (hd : d ∈ dirs) (h : Reaches dirs d.parent) : Reaches dirs d.id

/-- The names of what is in a directory. -/
def Db.childNames (db : Db) (dirId : Int) : List Bytes :=
  (db.dirs.filter fun d => d.parent = dirId).map DirRow.name ++
    (db.instruments.filter fun i => i.dir = dirId).map InstrumentRow.name

/-- The directories are a tree whose names are unique. -/
structure Tree (db : Db) : Prop where
  ids : (db.dirs.map DirRow.id).Nodup
  reaches : ∀ d ∈ db.dirs, Reaches db.dirs d.id
  placed : ∀ i ∈ db.instruments, ∃ d ∈ db.dirs, d.id = i.dir
  names : ∀ dirId, (db.childNames dirId).Nodup

end InstrumentsDb

end LinuxSampler
