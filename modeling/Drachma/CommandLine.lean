import Drachma.SimulationFate
import Drachma.WalletLookup

/-!
# The command line

Every command constructs the wallet, which loads all the files it lists, and then goes
through the switches of its first argument: `-ma`, `-aa` and `-ta` add a file to the wallet,
`-mr`, `-ar` and `-tr` remove one, `-s` simulates.  After `h` the next switch is read, so that
`-ha` adds an application.

## Main results

* `CommandLine.main_of_edit`, `CommandLine.of_main_eq_ok` — what a command does to the files.
* `CommandLine.main_of_unloadable` — where the wallet cannot be loaded, no command does
  anything.
-/

namespace Drachma

open Machine (bind_eq_ok)

/-- The texts that are printed with an error. -/
inductive Help
  | displayHelp
  | deviceHelp
  | memoryHelp
  | taskGraphHelp
  | startHelp
deriving DecidableEq, Repr

/-- What ends a command. -/
inductive Failure
  /-- An exception of the code that reads files. -/
  | load (error : LoadError)
  /-- A `userError` with a text of help. -/
  | usage (message : String) (help : Help)
  /-- A fault of the simulator. -/
  | fault (fault : Fault)
deriving DecidableEq, Repr

theorem mapError_eq_ok {ε ε' α : Type*} {f : ε → ε'} {x : Except ε α} {a : α} :
    x.mapError f = .ok a ↔ x = .ok a := by
  cases x with
  | error e => simp [Except.mapError]
  | ok b => simp [Except.mapError]

/-- What is not in the files: the libraries, and what the memory held where it is not
initialised. -/
structure Surroundings (Node : Type) where
  loaders : Loaders Application (TaskGraph Node)
  levelParams : LevelParams
  memory : Memory
  device : ∀ n, Device n Node (FcfsScheduler Node)

namespace Wallet

/-- The message when a file that is to be removed is not in the wallet. -/
def Kind.absent : Kind → Text → String
  | memory, file =>
      "Could not remove memory configuration '" ++ String.ofList file ++
        "' from the wallet. Memory configuration not present."
  | application, file =>
      "Could not remove application '" ++ String.ofList file ++
        "' from the wallet. Application was not present."
  | taskGraph, file =>
      "Could not remove task graph file '" ++ String.ofList file ++
        "' from the wallet; task graph file was not present."

/-- `-mr`, `-ar` and `-tr`, when the wallet has been constructed. -/
def remove (files : Files) (kind : Kind) (file : Text) : Except LoadError Files := do
  let walletFileHandler ← FileHandler.new files walletFile walletRules
  let removed := walletFileHandler.removeFromFile files (kind.tag ++ file)
  if removed.1 then
    return removed.2
  else
    .error (.userError (kind.absent file))

end Wallet

namespace CommandLine

open Wallet (Kind)

variable {Node : Type} [GraphNode Node] (around : Surroundings Node)

/-! ## Simulating -/

/-- The conversion of an `int` to a type of `width` bits. -/
def convert (width : ℕ) (z : ℤ) : ℕ := (z % 2 ^ width).toNat

/-- The RR table that a hierarchy begins with. -/
def hierarchyTop : List StorageUnit → ReconfigurableRegions
  | .regions table :: _ => table
  | _ => .empty

/-- A simulation of an application on a new device, up to a number of cycles. -/
def simulate (units : List StorageUnit) (app : Application) (graph : TaskGraph Node)
    (stopCcc : ℕ) : Except Failure Unit := do
  let memory := around.memory.associateHierarchy (hierarchyTop units)
    (units.tail.filterMap StorageUnit.asMemoryLevel)
  let resources ← (prepareAppResources memory app).mapError .fault
  if resources.fits then
    let (wiring, device) ←
      (simulateApplication (around.device app.rrSpecMap.size) app resources graph).mapError .fault
    let _ ← (device.simulationLoop wiring stopCcc 0).mapError .fault
    return ()
  else
    .error (.load (.userError ("Chosen application's bitstream library is too large to fit " ++
      "in the selected memory hierarchy.")))

/-- `-s`, with the three numbers and perhaps a limit. -/
def start (library : Wallet Application (TaskGraph Node)) (args : List Text) :
    Except Failure Unit :=
  let run (memoryId applicationId taskGraphId : Text) (stopCcc : ℕ) := do
    let memory ← (library.getMemory (convert 32 (atoi memoryId))).mapError .fault
    let app ← (library.getApplication (convert 32 (atoi applicationId))).mapError .fault
    let taskGraph ← (library.getTaskGraph (convert 32 (atoi taskGraphId))).mapError .fault
    simulate around memory app taskGraph stopCcc
  match args with
  | [_, memoryId, applicationId, taskGraphId] =>
      run memoryId applicationId taskGraphId (convert 64 (-1))
  | [_, memoryId, applicationId, taskGraphId, maxCcCount] =>
      run memoryId applicationId taskGraphId (convert 64 (atoi maxCcCount))
  | _ =>
      .error (.usage ("Improper switch use. The operations concerning starting the simulator " ++
        "are as follows:") .startHelp)

/-! ## The switches -/

/-- The file that is named after the switches.  Where it is missing, a string is to be made
of the null pointer. -/
def operand : List Text → Except Failure Text
  | _ :: file :: _ => .ok file
  | _ => .error (.load (.exception "basic_string: construction from null is not valid"))

/-- The error when the switches for a kind of files are not used properly.  The help for
applications is that for devices. -/
def improperUse : Kind → Failure
  | .memory =>
      .usage ("Improper switch use. The operations concerning Memory Configuration files are " ++
        "as follows:") .memoryHelp
  | .application =>
      .usage "Improper switch use. The operations concerning application files are as follows:"
        .deviceHelp
  | .taskGraph =>
      .usage "Improper switch use. The operations concerning task graph files are as follows:"
        .taskGraphHelp

/-- The branch for a kind of files: the files after the command. -/
def manage (files : Files) (args : List Text) (choices : List Char) (kind : Kind) :
    Except Failure Files :=
  match choices with
  | [_, 'a'] => do
      let file ← operand args
      (Wallet.add around.loaders files kind file).mapError .load
  | [_, 'r'] => do
      let file ← operand args
      (Wallet.remove files kind file).mapError .load
  | _ => .error (improperUse kind)

/-- The loop over the switches, from one of them on. -/
def dispatch (library : Wallet Application (TaskGraph Node)) (files : Files) (args : List Text)
    (choices : List Char) : List Char → Except Failure Files
  | [] => return files
  | 'h' :: rest => dispatch library files args choices rest
  | 'm' :: _ => manage around files args choices .memory
  | 'a' :: _ =>
      -- without a second switch, the case of `t` is next
      if choices.length = 2 then manage around files args choices .application
      else manage around files args choices .taskGraph
  | 't' :: _ => manage around files args choices .taskGraph
  | 'w' :: _ => return files
  | 's' :: _ => do
      start around library args
      return files
  | _ :: _ => .error (.usage "Invalid switch. Here's some help:" .displayHelp)

/-- `main`, on the arguments after the name of the program: the files after the command.
They are written last, so that there is nothing to say of them when it fails. -/
def main (files : Files) (args : List Text) : Except Failure Files :=
  match args with
  | ('-' :: c :: rest) :: _ => do
      let library ← (Wallet.new around.loaders around.levelParams files).mapError .load
      dispatch around library files args (c :: rest) (c :: rest)
  | _ => .error (.usage "No switches provided." .displayHelp)

/-! ## What a command does -/

/-- An entry of the wallet. -/
structure Entry where
  kind : Kind
  name : Text
deriving DecidableEq

/-- The line of an entry. -/
def Entry.line (entry : Entry) : Text := entry.kind.tag ++ entry.name

/-- A change of the wallet. -/
inductive Edit
  | add (entry : Entry)
  | remove (entry : Entry)
deriving DecidableEq

/-- The kind of files that a switch is for. -/
def kindOf : Char → Option Kind
  | 'm' => some .memory
  | 'a' => some .application
  | 't' => some .taskGraph
  | _ => none

/-- The change that a command line asks for. -/
def editOf : List Text → Option Edit
  | ['-', 'h', 'a'] :: file :: _ => some (.add ⟨.application, file⟩)
  | ['-', c, 'a'] :: file :: _ => (kindOf c).map fun kind => .add ⟨kind, file⟩
  | ['-', c, 'r'] :: file :: _ => (kindOf c).map fun kind => .remove ⟨kind, file⟩
  | _ => none

/-- What a change makes of the files. -/
def Edit.make {App Graph : Type} (loaders : Loaders App Graph) (files : Files) :
    Edit → Except LoadError Files
  | add entry => Wallet.add loaders files entry.kind entry.name
  | remove entry => Wallet.remove files entry.kind entry.name

variable {around} {library : Wallet Application (TaskGraph Node)} {files files' : Files}
  {args : List Text} {choices rest : List Char} {edit : Edit}

theorem kindOf_cases {c : Char} {kind : Kind} (h : kindOf c = some kind) :
    c = 'm' ∧ kind = .memory ∨ c = 'a' ∧ kind = .application ∨ c = 't' ∧ kind = .taskGraph := by
  unfold kindOf at h
  split at h
  · exact .inl ⟨rfl, (Option.some.inj h).symm⟩
  · exact .inr (.inl ⟨rfl, (Option.some.inj h).symm⟩)
  · exact .inr (.inr ⟨rfl, (Option.some.inj h).symm⟩)
  · cases h

/-- A command line that asks for a change constructs the wallet, and makes the change. -/
theorem main_of_edit (asks : editOf args = some edit) :
    main around files args = (do
      let _ ← (Wallet.new around.loaders around.levelParams files).mapError .load
      (edit.make around.loaders files).mapError .load) := by
  unfold editOf at asks
  split at asks
  · cases asks
    rfl
  · obtain ⟨kind, hkind, rfl⟩ := Option.map_eq_some_iff.mp asks
    rcases kindOf_cases hkind with ⟨rfl, rfl⟩ | ⟨rfl, rfl⟩ | ⟨rfl, rfl⟩
    · rfl
    · rfl
    · rfl
  · obtain ⟨kind, hkind, rfl⟩ := Option.map_eq_some_iff.mp asks
    rcases kindOf_cases hkind with ⟨rfl, rfl⟩ | ⟨rfl, rfl⟩ | ⟨rfl, rfl⟩
    · rfl
    · rfl
    · rfl
  · cases asks

omit [GraphNode Node] in
/-- The switches and the file that a branch for a kind of files asks for. -/
theorem of_manage_eq_ok {kind : Kind} (h : manage around files args choices kind = .ok files') :
    (∃ c, choices = [c, 'a'] ∨ choices = [c, 'r']) ∧ ∃ switches file more,
      args = switches :: file :: more := by
  have named : ∀ {f : Text → Except Failure Files}, (operand args >>= f) = .ok files' →
      ∃ switches file more, args = switches :: file :: more := by
    intro f h
    obtain ⟨file, hfile, -⟩ := bind_eq_ok.mp h
    unfold operand at hfile
    split at hfile
    · exact ⟨_, _, _, rfl⟩
    · cases hfile
  unfold manage at h
  split at h
  · exact ⟨⟨_, .inl rfl⟩, named h⟩
  · exact ⟨⟨_, .inr rfl⟩, named h⟩
  · cases h

/-- Without such a branch, the loop leaves the files as they are. -/
theorem dispatch_unchanged (fails : ∀ kind, manage around files args choices kind ≠ .ok files')
    (h : dispatch around library files args choices rest = .ok files') : files' = files := by
  induction rest with
  | nil => exact (Except.ok.inj h).symm
  | cons c rest ih =>
      unfold dispatch at h
      split at h
      · rename_i empty; cases empty
      · rename_i hrest
        cases hrest
        exact ih h
      · exact absurd h (fails _)
      · split at h
        · exact absurd h (fails _)
        · exact absurd h (fails _)
      · exact absurd h (fails _)
      · exact (Except.ok.inj h).symm
      · obtain ⟨-, -, h⟩ := bind_eq_ok.mp h
        exact (Except.ok.inj h).symm
      · cases h

/-- Where the first switch is for no kind of files, the second one does not matter. -/
theorem dispatch_unchanged_of_none {c second : Char} {file : Text} {more : List Text}
    (hsecond : second = 'a' ∨ second = 'r')
    (asks : editOf (['-', c, second] :: file :: more) = none)
    (h : dispatch around library files (['-', c, second] :: file :: more) [c, second] [c, second] =
      .ok files') : files' = files := by
  unfold dispatch at h
  split at h
  · rename_i empty
    cases empty
  · rename_i heq
    cases heq
    rcases hsecond with rfl | rfl
    · cases asks
    · cases h
  · rename_i heq
    cases heq
    rcases hsecond with rfl | rfl <;> cases asks
  · rename_i heq
    cases heq
    rcases hsecond with rfl | rfl <;> cases asks
  · rename_i heq
    cases heq
    rcases hsecond with rfl | rfl <;> cases asks
  · exact (Except.ok.inj h).symm
  · obtain ⟨-, -, h⟩ := bind_eq_ok.mp h
    exact (Except.ok.inj h).symm
  · cases h

/-- **What a command that succeeds has done**: it has constructed the wallet, and made the
change that it asks for, if it asks for one. -/
theorem of_main_eq_ok (h : main around files args = .ok files') :
    (∃ library, Wallet.new around.loaders around.levelParams files = .ok library) ∧
      ((editOf args = none ∧ files' = files) ∨
        ∃ edit, editOf args = some edit ∧ edit.make around.loaders files = .ok files') := by
  cases asks : editOf args with
  | some edit =>
      rw [main_of_edit asks] at h
      obtain ⟨library, loaded, made⟩ := bind_eq_ok.mp h
      exact ⟨⟨library, mapError_eq_ok.mp loaded⟩,
        .inr ⟨edit, rfl, mapError_eq_ok.mp made⟩⟩
  | none =>
      unfold main at h
      split at h
      · rename_i c rest more
        obtain ⟨library, loaded, h⟩ := bind_eq_ok.mp h
        refine ⟨⟨library, mapError_eq_ok.mp loaded⟩, .inl ⟨rfl, ?_⟩⟩
        by_cases managed : ∃ kind,
            manage around files (('-' :: c :: rest) :: more) (c :: rest) kind = .ok files'
        · obtain ⟨kind, managed⟩ := managed
          obtain ⟨⟨c', two⟩, _, file, more', hargs⟩ := of_manage_eq_ok managed
          obtain ⟨-, rfl⟩ := List.cons.inj hargs
          rcases two with two | two
          · obtain ⟨rfl, rfl⟩ := List.cons.inj two
            exact dispatch_unchanged_of_none (.inl rfl) asks h
          · obtain ⟨rfl, rfl⟩ := List.cons.inj two
            exact dispatch_unchanged_of_none (.inr rfl) asks h
        · exact dispatch_unchanged (not_exists.mp managed) h
      · cases h

/-- **Where the wallet cannot be loaded, no command can do anything**: not even one that
would remove the entry that cannot be. -/
theorem main_of_unloadable {error : LoadError}
    (unloadable : Wallet.new around.loaders around.levelParams files = .error error) :
    main around files args = .error (.load error) ∨
      main around files args = .error (.usage "No switches provided." .displayHelp) := by
  unfold main
  split
  · rw [unloadable]
    exact .inl rfl
  · exact .inr rfl

/-! ## Simulating -/

section Simulating

variable {units : List StorageUnit} {app : Application} {graph : TaskGraph Node} {stopCcc : ℕ}

/-- A simulation ends soon after the ICAP has stalled. -/
theorem fate_cycle_le {n : ℕ} (raw : Device n Node (FcfsScheduler Node))
    (resources : PreparedResources) (selector : LftFeSelector) (graph : TaskGraph Node) :
    (Device.fate raw resources selector graph).cycle ≤ max 3 (raw.icap.stallCount + 1) := by
  have early : ∀ {k}, k ≤ 3 → k ≤ max 3 (raw.icap.stallCount + 1) := le_max_of_le_left
  unfold Device.fate
  split
  · split
    · exact early (Nat.le_of_ble_eq_true rfl)
    · split
      · exact early (Nat.le_of_ble_eq_true rfl)
      · exact early le_rfl
      · exact le_rfl
  · exact early (Nat.zero_le 3)

/-- Some cycles are left when the ICAP of a device with `n` regions has stalled, whose
counter is not initialised. -/
def StallsBefore (around : Surroundings Node) (n stopCcc : ℕ) : Prop :=
  max 3 ((around.device n).icap.stallCount + 1) < min stopCcc 1000

/-- A simulation that is given the cycles for it fails. -/
theorem simulate_ne_ok (long : StallsBefore around app.rrSpecMap.size stopCcc) (u : Unit) :
    simulate around units app graph stopCcc ≠ .ok u := by
  intro ends
  obtain ⟨resources, hprepared, ends⟩ := bind_eq_ok.mp ends
  have prepared := mapError_eq_ok.mp hprepared
  by_cases fits : resources.fits = true
  · rw [if_pos fits] at ends
    obtain ⟨⟨wiring, device⟩, hbuilt, ends⟩ := bind_eq_ok.mp ends
    obtain ⟨_, hloop, -⟩ := bind_eq_ok.mp ends
    obtain ⟨selector, made⟩ :=
      LftFeSelector.exists_new (tables_of_prepareAppResources prepared).2.2
    have faults := Device.simulationLoop_eq_error made (mapError_eq_ok.mp hbuilt) prepared
      ((fate_cycle_le _ _ _ _).trans_lt long)
    cases faults.symm.trans (mapError_eq_ok.mp hloop)
  · rw [if_neg fits] at ends
    cases ends

/-- The limit that a command line sets to the cycles. -/
def limitOf : List Text → ℕ
  | [_, _, _, _, maxCcCount] => convert 64 (atoi maxCcCount)
  | _ => convert 64 (-1)

/-- A number beyond an `int` is reduced first. -/
example : limitOf ["-s".toList, "0".toList, "0".toList, "0".toList, "4294967296".toList] = 0 := by
  decide +kernel

/-- A command line chooses an application of the wallet by its number. -/
def Chooses (library : Wallet Application (TaskGraph Node)) (args : List Text)
    (app : Application) : Prop :=
  ∃ switches memoryId applicationId more,
    args = switches :: memoryId :: applicationId :: more ∧
      library.getApplication (convert 32 (atoi applicationId)) = .ok app

theorem start_ne_ok
    (long : ∀ app, Chooses library args app →
      StallsBefore around app.rrSpecMap.size (limitOf args)) (u : Unit) :
    start around library args ≠ .ok u := by
  intro ends
  unfold start at ends
  dsimp only at ends
  split at ends
  · obtain ⟨_, -, ends⟩ := bind_eq_ok.mp ends
    obtain ⟨app, happ, ends⟩ := bind_eq_ok.mp ends
    obtain ⟨_, -, ends⟩ := bind_eq_ok.mp ends
    exact simulate_ne_ok (long app ⟨_, _, _, _, rfl, mapError_eq_ok.mp happ⟩) u ends
  · obtain ⟨_, -, ends⟩ := bind_eq_ok.mp ends
    obtain ⟨app, happ, ends⟩ := bind_eq_ok.mp ends
    obtain ⟨_, -, ends⟩ := bind_eq_ok.mp ends
    exact simulate_ne_ok (long app ⟨_, _, _, _, rfl, mapError_eq_ok.mp happ⟩) u ends
  · cases ends

/-- A command line that starts a simulation: its first switch that is not `h` is `s`. -/
def Starts (args : List Text) : Prop :=
  ∃ helps more operands, (∀ c ∈ helps, c = 'h') ∧
    args = ('-' :: (helps ++ 's' :: more)) :: operands

theorem dispatch_of_helps {helps more : List Char} (onlyHelp : ∀ c ∈ helps, c = 'h') :
    dispatch around library files args choices (helps ++ 's' :: more) =
      (start around library args >>= fun _ => .ok files) := by
  induction helps with
  | nil => rfl
  | cons c helps ih =>
      obtain ⟨rfl, others⟩ := List.forall_mem_cons.mp onlyHelp
      exact ih others

/-- **No simulation that is started succeeds**, whatever the wallet holds and whichever of it
is simulated, unless the limit on its cycles comes before the ICAP has stalled. -/
theorem main_of_starts (starts : Starts args)
    (long : ∀ library app, Wallet.new around.loaders around.levelParams files = .ok library →
      Chooses library args app → StallsBefore around app.rrSpecMap.size (limitOf args)) :
    ∃ failure, main around files args = .error failure := by
  obtain ⟨helps, more, operands, onlyHelp, rfl⟩ := starts
  generalize hargs : ('-' :: (helps ++ 's' :: more)) :: operands = args at long
  have runs : main around files args =
      ((Wallet.new around.loaders around.levelParams files).mapError .load >>= fun library =>
        dispatch around library files args (helps ++ 's' :: more) (helps ++ 's' :: more)) := by
    subst hargs
    cases helps with
    | nil => rfl
    | cons c helps => rfl
  cases ends : main around files args with
  | error failure => exact ⟨failure, rfl⟩
  | ok files' =>
      rw [runs] at ends
      obtain ⟨library, loaded, ends⟩ := bind_eq_ok.mp ends
      rw [dispatch_of_helps onlyHelp] at ends
      obtain ⟨u, started, -⟩ := bind_eq_ok.mp ends
      have long' := fun app => long library app (mapError_eq_ok.mp loaded)
      exact absurd started (start_ne_ok long' u)

end Simulating

/-- A wallet with one file of each kind. -/
def oneOfEach : Files := fun name =>
  if name = Wallet.walletFile then some "m: b.mem\na: e.app\nt: f.json".toList
  else if name = "e.app".toList ∨ name = "f.json".toList then some "{}".toList
  else Wallet.addable name

/-- Every application file has one region, and every graph one task. -/
def aroundOneRegion : Surroundings LoneTask where
  loaders :=
    { loadApplication := fun _ => .ok .oneRegion
      getGraph := fun text => (Wallet.firstCharacter.getGraph text).map fun _ => oneTask }
  levelParams := Wallet.unset
  memory := oneLevelMemory
  device _ := rawDevice

/-- The wallet is loaded, the three numbers are resolved, and the simulation fails. -/
theorem main_of_starts_oneOfEach :
    ∃ library failure,
      Wallet.new aroundOneRegion.loaders aroundOneRegion.levelParams oneOfEach = .ok library ∧
        (library.memories.length, library.applications.length, library.taskGraphsFiles.length) =
          (1, 1, 1) ∧
        main aroundOneRegion oneOfEach ["-s".toList, "0".toList, "0".toList, "0".toList] =
          .error failure := by
  obtain ⟨library, loaded, counts⟩ := Machine.map_eq_ok.mp
    (show (Wallet.new aroundOneRegion.loaders aroundOneRegion.levelParams oneOfEach).map
      (fun w => (w.memories.length, w.applications.length, w.taskGraphsFiles.length)) =
        .ok (1, 1, 1) by decide +kernel)
  have starts : Starts ["-s".toList, "0".toList, "0".toList, "0".toList] :=
    ⟨[], [], _, by simp, rfl⟩
  have long : ∀ n, StallsBefore aroundOneRegion n
      (limitOf ["-s".toList, "0".toList, "0".toList, "0".toList]) := by
    intro n
    show max 3 (0 + 1) < min (limitOf ["-s".toList, "0".toList, "0".toList, "0".toList]) 1000
    decide +kernel
  obtain ⟨failure, fails⟩ : ∃ failure, main aroundOneRegion oneOfEach
      ["-s".toList, "0".toList, "0".toList, "0".toList] = .error failure :=
    main_of_starts starts fun _ _ _ _ => long _
  exact ⟨library, failure, loaded, counts, fails⟩

end CommandLine

end Drachma
