import Drachma.FileHandler
import Drachma.Storage

/-!
# The wallet

The wallet file names the memory configurations, applications and task graphs a user
has added.  Every command constructs the wallet first, which loads all of them.  Adding
a file checks it, with code of its own, and appends a line to the wallet file.

YAML and the graph deserializer are not part of the simulator; what the wallet calls of
them is `Loaders`.
-/

namespace Drachma

open Machine (Pattern)

/-! ## Numbers -/

/-- The digits at the beginning of a text. -/
def leadingDigits (t : Text) : Text := t.takeWhile Char.isDigit

/-- The number that decimal digits stand for. -/
def ofDigits (digits : Text) : ℕ := digits.foldl (fun n c => 10 * n + (c.toNat - '0'.toNat)) 0

/-- What `strtol` reads, in any range: blanks, a sign, and at least one digit. -/
def readInteger (t : Text) : Option ℤ :=
  let unsigned (digits : Text) : Option ℤ :=
    if leadingDigits digits = [] then none else some (ofDigits (leadingDigits digits))
  match t.dropWhile isSpace with
  | '-' :: rest => (unsigned rest).map Neg.neg
  | '+' :: rest => unsigned rest
  | digits => unsigned digits

/-- The numbers of type `long`. -/
def FitsLong (z : ℤ) : Prop := -2 ^ 63 ≤ z ∧ z < 2 ^ 63

instance (z : ℤ) : Decidable (FitsLong z) := inferInstanceAs (Decidable (_ ∧ _))

/-- `std::stol`. -/
def stol (t : Text) : Except LoadError ℤ :=
  match readInteger t with
  | none => .error (.invalidArgument "stol")
  | some z => if FitsLong z then .ok z else .error (.outOfRange "stol")

/-- `strtol`: the bounds of `long` stand for the numbers beyond them, and zero for a text
without a number. -/
def strtol (t : Text) : ℤ := max (-2 ^ 63) (min ((readInteger t).getD 0) (2 ^ 63 - 1))

/-- `atoi`: what `strtol` returns, as an `int`. -/
def atoi (t : Text) : ℤ := (strtol t).bmod (2 ^ 32)

/-- A text from which `std::stol` reads a number. -/
def Numeric (t : Text) : Prop := ∃ z, readInteger t = some z ∧ FitsLong z

theorem stol_isOk_iff {t : Text} : (∃ z, stol t = .ok z) ↔ Numeric t := by
  unfold stol Numeric
  cases readInteger t with
  | none => simp
  | some z =>
      by_cases fits : FitsLong z
      · simp [fits]
      · simp [fits]

/-! ## Substrings -/

/-- `std::string::npos`. -/
def npos : ℕ := 2 ^ 64 - 1

/-- `line.find(":")`. -/
def findColon (line : Text) : ℕ :=
  if ':' ∈ line then (line.takeWhile (· ≠ ':')).length else npos

/-- `std::string::substr`; without a count, to the end. -/
def substr (t : Text) (pos : ℕ) (count : Option ℕ) : Except LoadError Text :=
  if t.length < pos then .error (.outOfRange "basic_string::substr")
  else
    match count with
    | some n => .ok ((t.drop pos).take n)
    | none => .ok (t.drop pos)

/-! ## Rules -/

/-- `[\w ]`. -/
def wordOrBlank (c : Char) : Bool := Pattern.isWord c || c == ' '

/-- The beginning of the patterns for cache levels: `[l][1-9]`, and a blank. -/
def levelPrefix (rest : Pattern) : Pattern :=
  .seq (.char 'l') (.seq (.one fun c => '1' ≤ c ∧ c ≤ '9') (.seq (.char ' ') rest))

/-- The end of most of them: `[:]`, a blank, and `[\w ]+`. -/
def valueSuffix : Pattern :=
  .seq (.char ':') (.seq (.char ' ') (.some wordOrBlank))

/-- A text between word boundaries. -/
def word (t : Text) : Pattern := .seq .boundary (.seq (.text t) .boundary)

/-- `memory_regex_`. -/
def memoryRegex : List Pattern :=
  [levelPrefix (.seq (word "name".toList) valueSuffix),
    levelPrefix (.seq (word "size".toList) valueSuffix),
    levelPrefix (.seq .boundary (.seq (.alt (.text "read".toList) (.text "search".toList))
      (.seq .boundary (.seq (.char ' ') (.seq (word "latency".toList) valueSuffix))))),
    levelPrefix (.text "has LUT".toList)]

/-- `memory_params_` and `memory_regex_`. -/
def memoryRules : FileRules :=
  { acceptableParams :=
      ["name".toList, "main name".toList, "main size".toList, "main read latency".toList,
        "main search latency".toList]
    regexArgs := memoryRegex }

/-- `trace_params_` and `trace_regex_`.  The `" {3}"` of the pattern asks for three
blanks, not for three repetitions of the group before it. -/
def traceRules : FileRules :=
  let digits : Pattern := .some Char.isDigit
  { acceptableParams := ["name".toList]
    regexArgs :=
      [.seq (.opt (.char 's')) (.seq digits (.seq (.seq (.char ',') digits)
        (.seq (.text "   ".toList) (.seq (.char ',') (.opt digits)))))] }

/-- `wallet_params_`. -/
def walletRules : FileRules :=
  { acceptableParams := ["name".toList, "m".toList, "a".toList, "t".toList], regexArgs := [] }

/-! ## Memory configurations -/

/-- The parameters of the main memory, as texts. -/
structure MainParams where
  mainMemSize : Text
  mainMemRead : Text
  mainMemSearch : Text

/-- One round of the loop over the parameters. -/
def MainParams.assign (p : MainParams) (next : Text × Text) : MainParams :=
  if next.1 = "main size".toList then { p with mainMemSize := next.2 }
  else if next.1 = "main read latency".toList then { p with mainMemRead := next.2 }
  else if next.1 = "main search latency".toList then { p with mainMemSearch := next.2 }
  else p

/-- The parameters of the cache levels. -/
structure LevelParams where
  levelSize : ℕ → ℤ
  levelRead : ℕ → ℤ
  levelSearch : ℕ → ℤ
  highestLevel : ℕ
  lutIndexed : ℕ → Bool

/-- One round of the loop over the data. -/
def LevelParams.assign (p : LevelParams) (line : Text) : Except LoadError LevelParams := do
  let level ← substr line 1 (some 1)
  let whichLevel := (atoi level).toNat
  let param ← substr line 3 (some ((findColon line + 2 ^ 64 - 3) % 2 ^ 64))
  let arg ← substr line ((findColon line + 2) % 2 ^ 64) none
  let p := { p with
    highestLevel := if p.highestLevel < whichLevel then whichLevel else p.highestLevel }
  if param = "name".toList then
    return p
  else if param = "size".toList then
    let size ← stol arg
    return { p with levelSize := Function.update p.levelSize whichLevel size }
  else if param = "read latency".toList then
    let latency ← stol arg
    return { p with levelRead := Function.update p.levelRead whichLevel latency }
  else if param = "search latency".toList then
    let latency ← stol arg
    return { p with levelSearch := Function.update p.levelSearch whichLevel latency }
  else if param = "has LUT".toList then
    return { p with lutIndexed := Function.update p.lutIndexed whichLevel true }
  else
    return p

/-- A level of the hierarchy, without modules. -/
def newLevel (size read search : ℤ) (lutIndexed : Bool) : StorageUnit :=
  .level
    { unitSize := (size % 2 ^ 32).toNat
      readLatency := (read % 2 ^ 16).toNat
      searchLatency := (search % 2 ^ 16).toNat
      lutIndexed := lutIndexed
      table := fun _ _ => none }

/-- `buildMemoryHierarchy`: the regions, the cache levels and the main memory.  `raw` is
what the memory held where the level parameters are not initialised. -/
def buildMemoryHierarchy (raw : LevelParams) (files : Files) (memoryFile : Text) :
    Except LoadError (List StorageUnit) := do
  let memoryReader ← FileHandler.new files memoryFile memoryRules
  if memoryReader.isValid then
    let main := memoryReader.getParams.foldl MainParams.assign ⟨[], [], []⟩
    let mainSize ← stol main.mainMemSize
    let mainRead ← stol main.mainMemRead
    let mainSearch ← stol main.mainMemSearch
    let levels ← memoryReader.getData.foldlM LevelParams.assign
      { raw with highestLevel := 0, lutIndexed := fun _ => false }
    let caches := (List.range levels.highestLevel).map fun i =>
      newLevel (levels.levelSize (i + 1)) (levels.levelRead (i + 1)) (levels.levelSearch (i + 1))
        (levels.lutIndexed (i + 1))
    return .regions .empty :: caches ++ [newLevel mainSize mainRead mainSearch true]
  else
    .error (.userError "Memory file is corrupt.")

/-! ## The wallet -/

/-- What the wallet calls of the YAML library and of the graph deserializer. -/
structure Loaders (App Graph : Type) where
  /-- `YAML::LoadFile(file).as<application>()`. -/
  loadApplication : Text → Except LoadError App
  /-- `deserializer.getGraph(input_stream)`. -/
  getGraph : Text → Except LoadError Graph

/-- `wallet`. -/
structure Wallet (App Graph : Type) where
  memories : List (List StorageUnit)
  applications : List App
  taskGraphsFiles : List (Text × Graph)

namespace Wallet

variable {App Graph : Type} (loaders : Loaders App Graph) (raw : LevelParams) (files : Files)

/-- The name of the wallet file. -/
def walletFile : Text := "wallet.wal".toList

/-- `assertEntityFileExists`: the text of the file, if it exists. -/
def assertEntityFileExists (filename : Text) (entityName : String) : Except LoadError Text :=
  match files filename with
  | some content => .ok content
  | none =>
      .error (.userError (entityName ++ " file referenced in wallet (" ++ String.ofList filename ++
        ") does not exist."))

theorem assertEntityFileExists_eq_ok {files : Files} {filename content : Text}
    {entityName : String} :
    assertEntityFileExists files filename entityName = .ok content ↔
      files filename = some content := by
  unfold assertEntityFileExists
  cases files filename with
  | none =>
      constructor
      · intro h; cases h
      · intro h; cases h
  | some content' =>
      constructor
      · intro h; cases h; rfl
      · intro h; cases h; rfl

/-- One round of the loop of the constructor. -/
def load (w : Wallet App Graph) (fileData : Text × Text) :
    Except LoadError (Wallet App Graph) :=
  match fileData.1 with
  | 'm' :: _ => do
      let _ ← assertEntityFileExists files fileData.2 "Memory"
      let newMem ← buildMemoryHierarchy raw files fileData.2
      return { w with memories := w.memories ++ [newMem] }
  | 'a' :: _ => do
      let _ ← assertEntityFileExists files fileData.2 "Application"
      let newApp ← loaders.loadApplication fileData.2
      return { w with applications := w.applications ++ [newApp] }
  | 't' :: _ => do
      let content ← assertEntityFileExists files fileData.2 "Task graph"
      let newTg ← loaders.getGraph content
      return { w with taskGraphsFiles := w.taskGraphsFiles ++ [(fileData.2, newTg)] }
  | _ => return w

/-- The constructor. -/
def new : Except LoadError (Wallet App Graph) := do
  let walletFileHandler ← FileHandler.new files walletFile walletRules
  if walletFileHandler.isValid then
    walletFileHandler.getParams.foldlM (load loaders raw files) ⟨[], [], []⟩
  else
    .error (.userError "Wallet file provided has invalid format.")

/-- The kinds of files a wallet lists. -/
inductive Kind
  | memory
  | application
  | taskGraph
deriving DecidableEq, Repr

namespace Kind

/-- The beginning of a line of the wallet file. -/
def tag : Kind → Text
  | memory => "m: ".toList
  | application => "a: ".toList
  | taskGraph => "t: ".toList

/-- What the messages of `main` call a file of the kind. -/
def description : Kind → String
  | memory => "memory configuration"
  | application => "application"
  | taskGraph => "task graph"

end Kind

/-- Whether `main` takes an existing file for one of the kind: the file handler's
`isFileValid`, or `isValidAppFile`, which catches every `std::exception`. -/
def accepts : Kind → Text → Except LoadError Bool
  | .memory, file => do
      let memoryReader ← FileHandler.new files file memoryRules
      return memoryReader.isValid
  | .application, file =>
      match loaders.loadApplication file with
      | .ok _ => .ok true
      | .error (.thrown message) => .error (.thrown message)
      | .error _ => .ok false
  | .taskGraph, file => do
      let traceReader ← FileHandler.new files file traceRules
      return traceReader.isValid

/-- The branches of `main` for `-ma`, `-aa` and `-ta`, when the wallet has been
constructed: the files after the command. -/
def add (kind : Kind) (file : Text) : Except LoadError Files := do
  if (files file).isSome then
    let valid ← accepts loaders files kind file
    if valid then
      let walletFileHandler ← FileHandler.new files walletFile walletRules
      return walletFileHandler.addToFile files (kind.tag ++ file)
    else
      .error (.userError ("The target file '" ++ String.ofList file ++ "' is not a valid " ++
        kind.description ++ " file."))
  else
    .error (.userError ("The target file '" ++ String.ofList file ++ "' does not exist."))

/-- A command that adds a file. -/
def addFile (kind : Kind) (file : Text) : Except LoadError Files := do
  let _ ← new loaders raw files
  add loaders files kind file

end Wallet

end Drachma
