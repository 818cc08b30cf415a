import Drachma.CommandLine
import Drachma.Lib.LineStore
import Drachma.WalletEdits

/-!
# The wallet as a store

A wallet whose lines are entries, and remarks of no consequence, is a list of entries.  A
remark may be any lines that neither begin like an entry nor name a file, with comment
blocks that are closed.  The commands keep the wallet such a list: what it lists after some
commands is what the changes that were made leave of the list from before.  Only the
commands that succeed make changes, and while the wallet can be loaded, removing an entry
succeeds if there is one.

What can be added need not be loadable.  Adding a task graph ends the life of a wallet that
ends outside of comment blocks: no command that follows succeeds, and none changes a file.

## Main results

* `CommandLine.session_isStore` — the wallet after some commands.
* `CommandLine.session_after_task_graph` — the wallet after a task graph is added.
-/

namespace Drachma

open Machine (bind_eq_ok Lists)

namespace CommandLine

open Wallet (Kind PlainName walletFile)

/-! ## Lines -/

/-- Lines that leave no comment block open, do not begin like an entry, and name no file. -/
structure Remark (lines : List Text) : Prop where
  closed : blockAfter false lines = false
  untagged : ∀ kind : Kind, ∀ line ∈ lines, ¬ kind.tag <+: line
  noEntry : ∀ kind : Kind, ∀ e ∈ walletRules.params (contentLines false lines), e.1 ≠ kind.key

/-- The lines of a wallet that lists the entries of a store. -/
abbrev ListsEntries (lines : List Text) (store : List Entry) : Prop :=
  Lists Entry.line (fun entry => PlainName entry.name) Remark lines store

theorem Entry.line_injective : Function.Injective Entry.line := by
  rintro ⟨kind, name⟩ ⟨kind', name'⟩ same
  have lengths : kind.tag.length = kind'.tag.length := by
    cases kind <;> cases kind' <;> rfl
  obtain ⟨tags, rfl⟩ := List.append_inj same lengths
  have kinds : kind = kind' := by
    change kind.tag = kind'.tag at tags
    revert tags
    cases kind <;> cases kind' <;> decide
  rw [kinds]

theorem line_notMem_of_remark (entry : Entry) (lines : List Text) (remark : Remark lines) :
    entry.line ∉ lines := fun mem =>
  remark.untagged entry.kind entry.line mem (List.prefix_append ..)

/-- The parameter `name` is no entry. -/
theorem Remark.of_params {lines : List Text} (closed : blockAfter false lines = false)
    (untagged : ∀ line ∈ lines, ¬ Kind.memory.tag <+: line ∧ ¬ Kind.application.tag <+: line ∧
      ¬ Kind.taskGraph.tag <+: line)
    (params : ∀ e ∈ walletRules.params (contentLines false lines), e.1 = "name".toList) :
    Remark lines where
  closed := closed
  untagged kind line mem := by
    obtain ⟨memory, application, taskGraph⟩ := untagged line mem
    cases kind with
    | memory => exact memory
    | application => exact application
    | taskGraph => exact taskGraph
  noEntry kind e he := by
    rw [params e he]
    cases kind <;> decide

theorem remark_blank : Remark [[]] :=
  .of_params rfl (by decide) (by decide +kernel)

section Lines

variable {lines : List Text} {store : List Entry} {entry : Entry} {content : Text}

/-- What the parser reads on the line of an entry, before other lines. -/
theorem params_line_cons (plain : PlainName entry.name) (lines : List Text) :
    walletRules.params (contentLines false (entry.line :: lines)) =
      (entry.kind.key, entry.name) :: walletRules.params (contentLines false lines) := by
  have closed : blockAfter false [entry.line] = false := by
    show (classifyLine false entry.line).1 = false
    rw [Entry.line, Wallet.classifyLine_entry]
  rw [← List.singleton_append, contentLines_append, closed, Entry.line, Wallet.contentLines_entry,
    if_neg Bool.false_ne_true, FileRules.params_append, FileRules.params_singleton,
    Wallet.parseEntry_tag, plain.trimmed, if_neg plain.notEmpty]
  rfl

/-- The names that the parser reads are those of the store. -/
theorem entryNames_eq (lists : ListsEntries (getLines content) store) (kind : Kind) :
    Wallet.entryNames content kind =
      (store.filter fun entry => entry.kind = kind).map Entry.name := by
  have keys : ∀ kind' : Kind, kind'.key = kind.key ↔ kind' = kind := by
    intro kind'
    cases kind <;> cases kind' <;> decide
  let read (lines : List Text) : List Text :=
    ((walletRules.params (contentLines false lines)).filter fun e => e.1 = kind.key).map Prod.snd
  have names : read (getLines content) =
      store.flatMap fun entry => if entry.kind = kind then [entry.name] else [] := by
    apply lists.read_eq
    · rfl
    · intro entry lines plain
      dsimp only [read]
      rw [params_line_cons plain, List.filter_cons]
      by_cases same : entry.kind = kind
      · simp [same]
      · simp [keys, same]
    · intro group lines remark
      have silent : ((walletRules.params (contentLines false group)).filter
          fun e => e.1 = kind.key) = [] := by
        rw [List.filter_eq_nil_iff]
        intro e he
        simpa using remark.noEntry kind e he
      dsimp only [read]
      rw [contentLines_append, remark.closed, FileRules.params_append, List.filter_append, silent,
        List.nil_append]
  refine Eq.trans names ?_
  clear lists names
  induction store with
  | nil => rfl
  | cons entry store ih =>
      rw [List.flatMap_cons, ih, List.filter_cons]
      by_cases same : entry.kind = kind
      · rw [if_pos same, if_pos (decide_eq_true same), List.map_cons, List.singleton_append]
      · rw [if_neg same, if_neg (by simpa using same), List.nil_append]

end Lines

/-! ## Changes -/

/-- The wallet file lists the entries of a store. -/
def Keeps (files : Files) (store : List Entry) : Prop :=
  ∃ content, files walletFile = some content ∧ ListsEntries (getLines content) store

/-- What a change does to a store, if it can be made. -/
def Edit.perform (store : List Entry) : Edit → Option (List Entry)
  | add entry => some (store ++ [entry])
  | remove entry => if entry ∈ store then some (store.erase entry) else none

section Changes

variable {App Graph : Type} {loaders : Loaders App Graph} {raw : LevelParams}
  {files files' : Files} {store : List Entry} {entry : Entry}

/-- **A file that is added is the last entry.** -/
theorem Keeps.add (keeps : Keeps files store) (plain : PlainName entry.name)
    (added : Wallet.add loaders files entry.kind entry.name = .ok files') :
    Keeps files' (store ++ [entry]) := by
  obtain ⟨content, hwallet, lists⟩ := keeps
  obtain ⟨-, -, content', hwallet', rfl⟩ := Wallet.spec_of_add added
  obtain rfl := Option.some.inj (hwallet.symm.trans hwallet')
  refine ⟨_, Function.update_self .., ?_⟩
  obtain ⟨blank, hblank, hlines⟩ := getLines_append content entry.line
  change ListsEntries (getLines (content ++ '\n' :: entry.line)) _
  rw [hlines, Entry.line, Wallet.getLines_entry entry.kind plain.oneLine]
  refine lists.append ?_
  rcases hblank with rfl | rfl
  · exact .entry plain .nil
  · exact .others remark_blank (.entry plain .nil)

/-- What removing a file does to a wallet that lists the entries of a store. -/
theorem Keeps.remove (keeps : Keeps files store) :
    (entry ∈ store → ∃ files', Wallet.remove files entry.kind entry.name = .ok files' ∧
      Keeps files' (store.erase entry)) ∧
    (entry ∉ store → ∃ message,
      Wallet.remove files entry.kind entry.name = .error (.userError message)) := by
  obtain ⟨content, hwallet, lists⟩ := keeps
  obtain ⟨handler, made⟩ := FileHandler.exists_new hwallet walletRules
  have listed : entry.line ∈ getLines content ↔ entry ∈ store :=
    lists.mem_iff Entry.line_injective line_notMem_of_remark
  unfold Wallet.remove
  rw [made, Machine.ok_bind]
  constructor
  · intro present
    rw [show entry.kind.tag ++ entry.name = entry.line from rfl]
    obtain ⟨before, after, hlines, first⟩ := List.eq_append_cons_of_mem (listed.mpr present)
    obtain ⟨files', text, hremoved, htext, hlines'⟩ :=
      Wallet.exists_removed hwallet made hlines first
    refine ⟨files', ?_, text, htext, ?_⟩
    · rw [hremoved]
      rfl
    · rw [hlines']
      rw [hlines] at lists
      exact lists.erase Entry.line_injective line_notMem_of_remark first
  · intro absent
    rw [show entry.kind.tag ++ entry.name = entry.line from rfl]
    refine ⟨entry.kind.absent entry.name, ?_⟩
    have missing : entry.line ∉ handler.fileBody.map Prod.snd := by
      rw [(FileHandler.fileBody_of_new hwallet made).1]
      exact mt listed.mp absent
    rw [FileHandler.removeFromFile_of_notMem handler files missing]
    rfl

end Changes

/-! ## Commands -/

section Session

variable {Node : Type} [GraphNode Node] (around : Surroundings Node)

/-- The files after a command. -/
def execute (files : Files) (args : List Text) : Files :=
  match main around files args with
  | .ok files' => files'
  | .error _ => files

/-- The files after some commands. -/
def session (files : Files) (history : List (List Text)) : Files :=
  history.foldl (execute around) files

/-- The change a command makes. -/
def changeOf (files : Files) (args : List Text) : Option Edit :=
  if (main around files args).isOk then editOf args else none

/-- The changes that some commands make. -/
def changes (files : Files) : List (List Text) → List Edit
  | [] => []
  | args :: history =>
      (changeOf around files args).toList ++ changes (execute around files args) history

/-- **The wallet is a store**: it lists the entries; while it can be loaded, a command to
remove an entry succeeds exactly if there is one, and what is loaded of each kind is built from the
entries of the kind, in order. -/
structure IsStore (files : Files) (store : List Entry) : Prop where
  keeps : Keeps files store
  removes : (∃ library, Wallet.new around.loaders around.levelParams files = .ok library) →
    ∀ args entry, editOf args = some (.remove entry) →
      ((main around files args).isOk ↔ entry ∈ store)
  entities : ∀ library, Wallet.new around.loaders around.levelParams files = .ok library →
    ∀ kind : Kind, List.Forall₂
      (fun name entity =>
        Wallet.build around.loaders around.levelParams files kind name = .ok entity)
      ((store.filter fun entry => entry.kind = kind).map Entry.name) (library.entities kind)

variable {around} {files : Files} {store : List Entry} {args : List Text}

theorem Keeps.isStore (keeps : Keeps files store) : IsStore around files store where
  keeps := keeps
  removes := by
    rintro ⟨library, loaded⟩ args entry asks
    rw [main_of_edit asks, loaded]
    change ((Wallet.remove files entry.kind entry.name).mapError Failure.load).isOk = true ↔ _
    by_cases present : entry ∈ store
    · obtain ⟨files', removed, -⟩ := keeps.remove.1 present
      rw [removed]
      exact iff_of_true rfl present
    · obtain ⟨message, fails⟩ := keeps.remove.2 present
      rw [fails]
      exact iff_of_false Bool.false_ne_true present
  entities := by
    intro library loaded kind
    obtain ⟨content, hwallet, lists⟩ := keeps
    rw [← entryNames_eq lists]
    exact Wallet.forall₂_build hwallet loaded kind

/-- The names of the files that a command adds are plain. -/
def Plain (args : List Text) : Prop :=
  ∀ entry, editOf args = some (.add entry) → PlainName entry.name

variable (around) in
/-- One command makes its change of the store, or leaves it as it is. -/
theorem Keeps.execute (keeps : Keeps files store) (plain : Plain args) :
    ∃ store', (changeOf around files args).toList.foldlM Edit.perform store = some store' ∧
      Keeps (execute around files args) store' := by
  unfold changeOf CommandLine.execute
  cases h : main around files args with
  | error failure => exact ⟨store, rfl, keeps⟩
  | ok files' =>
      rw [if_pos (show (Except.ok files' : Except Failure Files).isOk = true from rfl)]
      obtain ⟨-, ⟨asks, rfl⟩ | ⟨edit, asks, made⟩⟩ := of_main_eq_ok h
      · rw [asks]
        exact ⟨store, rfl, keeps⟩
      · rw [asks]
        cases edit with
        | add entry =>
            exact ⟨store ++ [entry], rfl, keeps.add (plain entry asks) made⟩
        | remove entry =>
            have present : entry ∈ store := by
              by_contra absent
              obtain ⟨message, fails⟩ := keeps.remove.2 absent
              cases made.symm.trans fails
            obtain ⟨files'', removed, kept⟩ := keeps.remove.1 present
            obtain rfl := Except.ok.inj (made.symm.trans removed)
            refine ⟨store.erase entry, ?_, kept⟩
            rw [Option.toList_some, List.foldlM_cons, Edit.perform, if_pos present]
            rfl

/-- **The wallet after some commands** is the store that the changes make of the one
before. -/
theorem session_isStore (keeps : Keeps files store) {history : List (List Text)}
    (plain : ∀ args ∈ history, Plain args) :
    ∃ store', (changes around files history).foldlM Edit.perform store = some store' ∧
      IsStore around (session around files history) store' := by
  induction history generalizing files store with
  | nil => exact ⟨store, rfl, keeps.isStore⟩
  | cons args history ih =>
      obtain ⟨first, rest⟩ := List.forall_mem_cons.mp plain
      obtain ⟨store', made, keeps'⟩ := keeps.execute around first
      obtain ⟨store'', made', isStore⟩ := ih keeps' rest
      refine ⟨store'', ?_, isStore⟩
      rw [changes, List.foldlM_append, made]
      exact made'

/-- A wallet that cannot be loaded stays as it is. -/
theorem session_of_unloadable {error : LoadError}
    (unloadable : Wallet.new around.loaders around.levelParams files = .error error)
    (history : List (List Text)) : session around files history = files := by
  induction history with
  | nil => rfl
  | cons args history ih =>
      have unchanged : CommandLine.execute around files args = files := by
        unfold CommandLine.execute
        rcases main_of_unloadable unloadable with h | h
        · rw [h]
        · rw [h]
      show session around (CommandLine.execute around files args) history = files
      rw [unchanged, ih]

/-- **No command works after a task graph is added** to a wallet that ends outside of
comment blocks: what is checked when it is added is not what is loaded. -/
theorem session_after_task_graph {file : Text} {files' : Files}
    (json : ∀ text graph, around.loaders.getGraph text = .ok graph → Wallet.BeginsObject text)
    (closed : ∀ content, files walletFile = some content →
      blockAfter false (getLines content) = false)
    (plain : PlainName file) (asks : editOf args = some (.add ⟨.taskGraph, file⟩))
    (added : main around files args = .ok files') (history : List (List Text)) :
    session around files' history = files' ∧
      ∀ args', ∃ failure, main around files' args' = .error failure := by
  obtain ⟨loaded, ⟨none, -⟩ | ⟨edit, asks', made⟩⟩ := of_main_eq_ok added
  · rw [asks] at none
    cases none
  obtain rfl := Option.some.inj (asks.symm.trans asks')
  obtain ⟨⟨text, hfile⟩, -, content, hwallet, -⟩ := Wallet.spec_of_add made
  have loads := Wallet.new_added_iff_loads json hwallet (Wallet.addFile_eq_ok.mpr ⟨loaded, made⟩)
    plain (closed content hwallet) hfile
  cases unloadable : Wallet.new around.loaders around.levelParams files' with
  | ok library => exact absurd (loads.mp ⟨library, unloadable⟩) not_false
  | error error =>
      refine ⟨session_of_unloadable unloadable history, fun args' => ?_⟩
      rcases main_of_unloadable unloadable with h | h
      · exact ⟨_, h⟩
      · exact ⟨_, h⟩

end Session

/-! ## The sample wallet -/

/-- The lines of the wallet file that comes with the program. -/
def sampleLines : List Text :=
  ["/#", "  This is a Wallet file", "  ", "  The single wallet file keeps track of the",
    "  different devices, memory configurations,",
    "  and trace files that you may desire to use", "#/", "", "name: My Drachma Wallet", "",
    "# m: memory.mem", "# a: application.yaml", "# t: tasks.json", "", "# Memory Hierarchies",
    "m: realistic.mem", "m: simplified.mem", "", "# Applications", "a: random.yaml", "",
    "# Task Graphs", "t: simple0.json"].map String.toList

/-- The wallet file that comes with the program. -/
def sampleWallet : Text := sampleLines.flatMap fun line => line ++ ['\n']

/-- The files that it names, in short, and those of `addable`. -/
def sampleFiles : Files := fun name =>
  if name = walletFile then some sampleWallet
  else if name = "realistic.mem".toList ∨ name = "simplified.mem".toList then
    some "main size: 8\nmain read latency: 1\nmain search latency: 1".toList
  else if name = "random.yaml".toList ∨ name = "simple0.json".toList then some "{}".toList
  else Wallet.addable name

/-- The entries of the sample wallet. -/
def sampleEntries : List Entry :=
  [⟨.memory, "realistic.mem".toList⟩, ⟨.memory, "simplified.mem".toList⟩,
    ⟨.application, "random.yaml".toList⟩, ⟨.taskGraph, "simple0.json".toList⟩]

theorem plainName_of_sampleEntries : ∀ entry ∈ sampleEntries, PlainName entry.name := by
  have names : ∀ entry ∈ sampleEntries,
      trim entry.name = entry.name ∧ entry.name ≠ [] ∧ '\n' ∉ entry.name := by decide +kernel
  intro entry mem
  obtain ⟨trimmed, notEmpty, oneLine⟩ := names entry mem
  exact ⟨trimmed, notEmpty, oneLine⟩

/-- The remarks are what stands before the entries of each kind. -/
theorem listsEntries_sampleLines : ListsEntries sampleLines sampleEntries := by
  have memories : Remark (sampleLines.take 15) :=
    .of_params (by decide +kernel) (by decide +kernel) (by decide +kernel)
  have applications : Remark ((sampleLines.drop 17).take 2) :=
    .of_params (by decide +kernel) (by decide +kernel) (by decide +kernel)
  have taskGraphs : Remark ((sampleLines.drop 20).take 2) :=
    .of_params (by decide +kernel) (by decide +kernel) (by decide +kernel)
  have entries : ∀ {store : List Entry}, store ⊆ sampleEntries →
      ListsEntries (store.map Entry.line) store := fun subset =>
    .of_plain fun entry mem => plainName_of_sampleEntries entry (subset mem)
  have whole : sampleLines = (sampleLines.take 15 ++ (sampleEntries.take 2).map Entry.line) ++
      (((sampleLines.drop 17).take 2 ++ ((sampleEntries.drop 2).take 1).map Entry.line) ++
        ((sampleLines.drop 20).take 2 ++ (sampleEntries.drop 3).map Entry.line)) := by
    decide +kernel
  rw [whole]
  refine (Lists.others memories (entries (List.take_subset ..))).append
    ((Lists.others applications (entries ?_)).append
      (Lists.others taskGraphs (entries (List.drop_subset ..))))
  exact fun _ mem => List.mem_of_mem_drop (List.mem_of_mem_take mem)

theorem keeps_sampleWallet : Keeps sampleFiles sampleEntries := by
  refine ⟨sampleWallet, if_pos rfl, ?_⟩
  rw [show getLines sampleWallet = sampleLines by decide +kernel]
  exact listsEntries_sampleLines

/-- Some files are added and removed, one of them twice, and one that is not there is to be
removed. -/
def sampleCommands : List (List Text) :=
  ["-ma b.mem", "-aa random.yaml", "-mr c.mem", "-mr simplified.mem", "-w",
    "-ar random.yaml"].map fun command => command.toList.splitOn ' '

/-- The changes that they make of the sample wallet. -/
def sampleChanges : List Edit :=
  [.add ⟨.memory, "b.mem".toList⟩, .add ⟨.application, "random.yaml".toList⟩,
    .remove ⟨.memory, "simplified.mem".toList⟩, .remove ⟨.application, "random.yaml".toList⟩]

/-- The commands on the sample wallet, and the entries that are left. -/
theorem session_isStore_sampleWallet :
    changes aroundOneRegion sampleFiles sampleCommands = sampleChanges ∧
      IsStore aroundOneRegion (session aroundOneRegion sampleFiles sampleCommands)
        [⟨.memory, "realistic.mem".toList⟩, ⟨.taskGraph, "simple0.json".toList⟩,
          ⟨.memory, "b.mem".toList⟩, ⟨.application, "random.yaml".toList⟩] := by
  have made : changes aroundOneRegion sampleFiles sampleCommands = sampleChanges := by
    decide +kernel
  have left : sampleChanges.foldlM Edit.perform sampleEntries =
      some [⟨.memory, "realistic.mem".toList⟩, ⟨.taskGraph, "simple0.json".toList⟩,
        ⟨.memory, "b.mem".toList⟩, ⟨.application, "random.yaml".toList⟩] := by
    decide +kernel
  have plain : ∀ args ∈ sampleCommands, Plain args := by
    have edits : ∀ args ∈ sampleCommands, editOf args ∈
        [some (.add ⟨.memory, "b.mem".toList⟩), some (.add ⟨.application, "random.yaml".toList⟩),
          some (.remove ⟨.memory, "c.mem".toList⟩),
          some (.remove ⟨.memory, "simplified.mem".toList⟩),
          some (.remove ⟨.application, "random.yaml".toList⟩), none] := by
      decide +kernel
    intro args hargs entry asks
    have edit := edits args hargs
    rw [asks] at edit
    simp only [List.mem_cons, Option.some.injEq, Edit.add.injEq, reduceCtorEq, List.not_mem_nil,
      or_false] at edit
    rcases edit with rfl | rfl
    · exact ⟨by decide +kernel, by decide, by decide⟩
    · exact ⟨by decide +kernel, by decide, by decide⟩
  obtain ⟨store', performed, isStore⟩ :
      ∃ store', (changes aroundOneRegion sampleFiles sampleCommands).foldlM Edit.perform
          sampleEntries = some store' ∧
        IsStore aroundOneRegion (session aroundOneRegion sampleFiles sampleCommands) store' :=
    session_isStore keeps_sampleWallet plain
  rw [made, left] at performed
  obtain rfl := Option.some.inj performed
  exact ⟨made, isStore⟩

theorem aroundOneRegion_json :
    ∀ text graph, aroundOneRegion.loaders.getGraph text = .ok graph →
      Wallet.BeginsObject text := by
  intro text graph h
  obtain ⟨u, read, -⟩ := Machine.map_eq_ok.mp h
  exact Wallet.firstCharacter_json text u read

/-- A trace is added to the sample wallet, and then the user wants to remove it. -/
theorem session_after_task_graph_trace :
    ∃ files', main aroundOneRegion sampleFiles ["-ta".toList, "d.trc".toList] = .ok files' ∧
      session aroundOneRegion files' [["-tr".toList, "d.trc".toList]] = files' ∧
        ∀ args', ∃ failure, main aroundOneRegion files' args' = .error failure := by
  obtain ⟨files', added, -⟩ := Machine.map_eq_ok.mp
    (show (main aroundOneRegion sampleFiles ["-ta".toList, "d.trc".toList]).map (fun _ => ()) =
      .ok () by decide +kernel)
  have plain : PlainName "d.trc".toList := ⟨by decide +kernel, by decide, by decide⟩
  have closed : ∀ content, sampleFiles walletFile = some content →
      blockAfter false (getLines content) = false := by
    intro content hwallet
    obtain rfl := Option.some.inj (hwallet.symm.trans (if_pos rfl))
    decide +kernel
  exact ⟨files', added,
    session_after_task_graph aroundOneRegion_json closed plain rfl added _⟩

end CommandLine

end Drachma
