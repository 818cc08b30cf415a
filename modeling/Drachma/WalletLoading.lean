import Drachma.MemoryLoading

/-!
# Loading what was added

A file that `main` adds to the wallet is loaded by every later command.  The checks
made when it is added and the code that loads it are separate: a memory configuration
is checked line by line, and loading it converts values that no check has looked at; a
task graph is checked against the grammar of traces, and loading it parses JSON.

## Main results

* `Wallet.new_iff` — which wallets can be loaded.
* `Wallet.not_beginsObject_of_traceRules` — what is checked as a trace is no JSON
  object.
* `Wallet.added_loads_iff` — when the wallet can still be loaded after a file was
  added.
-/

namespace Drachma

open Machine (Pattern bind_eq_ok)

/-! ## Wallets -/

namespace Wallet

section Loading

variable {App Graph : Type} (loaders : Loaders App Graph)

/-- **An entry of the wallet that can be loaded.** -/
def Loadable (files : Files) (e : Text × Text) : Prop :=
  match e.1 with
  | 'm' :: _ => ∃ content, files e.2 = some content ∧ MemoryLoads content
  | 'a' :: _ => (∃ content, files e.2 = some content) ∧ ∃ app, loaders.loadApplication e.2 = .ok app
  | 't' :: _ => ∃ content, files e.2 = some content ∧ ∃ graph, loaders.getGraph content = .ok graph
  | _ => True

variable {loaders} {files : Files}

theorem exists_load_iff (raw : LevelParams) (w : Wallet App Graph) (e : Text × Text) :
    (∃ w', load loaders raw files w e = .ok w') ↔ Loadable loaders files e := by
  obtain ⟨key, filename⟩ := e
  unfold load
  dsimp only
  split
  · show _ ↔ ∃ content, files filename = some content ∧ MemoryLoads content
    simp only [bind_eq_ok, assertEntityFileExists_eq_ok]
    constructor
    · rintro ⟨w', content, hfile, mem, hmem, -⟩
      exact ⟨content, hfile, (buildMemoryHierarchy_iff hfile raw).mp ⟨mem, hmem⟩⟩
    · rintro ⟨content, hfile, loads⟩
      obtain ⟨mem, hmem⟩ := (buildMemoryHierarchy_iff hfile raw).mpr loads
      exact ⟨_, content, hfile, mem, hmem, rfl⟩
  · show _ ↔ (∃ content, files filename = some content) ∧
      ∃ app, loaders.loadApplication filename = .ok app
    simp only [bind_eq_ok, assertEntityFileExists_eq_ok]
    constructor
    · rintro ⟨w', content, hfile, app, happ, -⟩
      exact ⟨⟨content, hfile⟩, app, happ⟩
    · rintro ⟨⟨content, hfile⟩, app, happ⟩
      exact ⟨_, content, hfile, app, happ, rfl⟩
  · show _ ↔ ∃ content, files filename = some content ∧
      ∃ graph, loaders.getGraph content = .ok graph
    simp only [bind_eq_ok, assertEntityFileExists_eq_ok]
    constructor
    · rintro ⟨w', content, hfile, graph, hgraph, -⟩
      exact ⟨content, hfile, graph, hgraph⟩
    · rintro ⟨content, hfile, graph, hgraph⟩
      exact ⟨_, content, hfile, graph, hgraph, rfl⟩
  · rename_i memory application taskGraph
    refine iff_of_true ⟨w, rfl⟩ ?_
    unfold Loadable
    dsimp only
    split
    · exact absurd rfl (memory _)
    · exact absurd rfl (application _)
    · exact absurd rfl (taskGraph _)
    · trivial

/-- **Which wallets can be loaded**: the lines are parameters, and every file they name
can be loaded. -/
theorem new_iff (raw : LevelParams) :
    (∃ w, new loaders raw files = .ok w) ↔
      ∃ content, files walletFile = some content ∧
        walletRules.AcceptsAll (contentLines false (getLines content)) ∧
        ∀ e ∈ walletRules.params (contentLines false (getLines content)),
          Loadable loaders files e := by
  cases hwallet : files walletFile with
  | none =>
      constructor
      · rintro ⟨w, h⟩
        unfold new FileHandler.new at h
        rw [hwallet] at h
        cases h
      · rintro ⟨_, h, -⟩
        cases h
  | some content =>
      obtain ⟨handler, made⟩ := FileHandler.exists_new hwallet walletRules
      obtain ⟨-, hvalid, hread⟩ := FileHandler.read_of_new hwallet made
      unfold new
      rw [made, Machine.ok_bind]
      by_cases valid : handler.isValid = true
      · obtain ⟨params, -⟩ := hread valid
        rw [if_pos valid, Machine.exists_foldlM_eq_ok fun e _ w => exists_load_iff raw w e]
        constructor
        · intro all
          refine ⟨content, rfl, hvalid.mp valid, fun e he => all e ?_⟩
          rw [FileHandler.mem_getParams, params]
          exact he
        · rintro ⟨_, heq, -, all⟩ e he
          cases heq
          rw [FileHandler.mem_getParams, params] at he
          exact all e he
      · rw [if_neg valid]
        constructor
        · rintro ⟨w, h⟩
          cases h
        · rintro ⟨_, heq, accepted, -⟩
          cases heq
          exact absurd (hvalid.mpr accepted) valid

end Loading

/-! ## What a wallet cannot be -/

/-- The text begins as a JSON object does, after blanks. -/
def BeginsObject (text : Text) : Prop :=
  ∃ blanks rest, text = blanks ++ '{' :: rest ∧ ∀ c ∈ blanks, c ∈ [' ', '\t', '\n', '\r']

/-- The characters that can begin a line of content of a JSON object. -/
def objectStart : List Char := ['{', ' ', '\t', '\r']

theorem exists_contentLine_of_beginsObject {text : Text} (h : BeginsObject text) :
    ∃ c rest, c ∈ objectStart ∧ c :: rest ∈ contentLines false (getLines text) := by
  have first : ∀ c ∈ objectStart, ∀ t, ∃ line,
      c :: line ∈ contentLines false (getLines (c :: t)) := by
    intro c hc t
    simp only [objectStart, List.mem_cons, List.not_mem_nil, or_false] at hc
    have hbreak : c ≠ '\n' := by rcases hc with rfl | rfl | rfl | rfl <;> decide
    obtain ⟨line, lines, hlines⟩ := getLines_cons hbreak t
    have unknown : (classifyLine false (c :: line)).2 = .unknown := by
      rcases hc with rfl | rfl | rfl | rfl <;> rfl
    refine ⟨line, ?_⟩
    rw [hlines, contentLines, if_pos unknown]
    exact List.mem_cons_self
  obtain ⟨blanks, rest, rfl, hblanks⟩ := h
  induction blanks with
  | nil =>
      obtain ⟨line, hline⟩ := first '{' (by simp [objectStart]) rest
      exact ⟨_, line, by simp [objectStart], hline⟩
  | cons c blanks ih =>
      by_cases hc : c = '\n'
      · obtain ⟨c', line, hc', hline⟩ := ih fun c hc => hblanks c (List.mem_cons_of_mem _ hc)
        refine ⟨c', line, hc', ?_⟩
        rw [List.cons_append, getLines, if_pos hc, contentLines_blank]
        exact hline
      · have hstart : c ∈ objectStart := by
          have := hblanks c List.mem_cons_self
          simp only [List.mem_cons, List.not_mem_nil, or_false] at this
          rcases this with rfl | rfl | rfl | rfl
          · simp [objectStart]
          · simp [objectStart]
          · exact absurd rfl hc
          · simp [objectStart]
        obtain ⟨line, hline⟩ := first c hstart (blanks ++ '{' :: rest)
        exact ⟨c, line, hstart, hline⟩

/-- The lines of a wallet are parameters. -/
theorem parameter_of_walletRules {line : Text} (accepted : walletRules.Accepts line) :
    ∃ arg, line = "name".toList ++ ':' :: arg ∨ line = "m".toList ++ ':' :: arg ∨
      line = "a".toList ++ ':' :: arg ∨ line = "t".toList ++ ':' :: arg := by
  rcases accepted.cases with ⟨key, hkey, arg, heq, -⟩ | hmatch
  · refine ⟨arg, ?_⟩
    simp only [walletRules, List.mem_cons, List.not_mem_nil, or_false] at hkey
    rcases hkey with rfl | rfl | rfl | rfl
    · exact .inl heq
    · exact .inr (.inl heq)
    · exact .inr (.inr (.inl heq))
    · exact .inr (.inr (.inr heq))
  · cases hmatch

/-- The lines of a wallet begin with the letters of its parameters. -/
theorem not_beginsObject_of_walletRules {text : Text}
    (accepted : walletRules.AcceptsAll (contentLines false (getLines text))) :
    ¬ BeginsObject text := by
  intro h
  obtain ⟨c, rest, hc, hline⟩ := exists_contentLine_of_beginsObject h
  obtain ⟨arg, heq | heq | heq | heq⟩ := parameter_of_walletRules (accepted _ hline)
  all_goals
    obtain ⟨rfl, -⟩ := List.cons.inj heq
    revert hc
    decide

/-- The lines of a trace begin with a digit, with an `s` or with a parameter. -/
theorem not_beginsObject_of_traceRules {text : Text}
    (accepted : traceRules.AcceptsAll (contentLines false (getLines text))) :
    ¬ BeginsObject text := by
  intro h
  obtain ⟨c, rest, hc, hline⟩ := exists_contentLine_of_beginsObject h
  rcases (accepted _ hline).cases with ⟨key, hkey, arg, heq, -⟩ | hmatch
  · simp only [traceRules, List.mem_cons, List.not_mem_nil, or_false] at hkey
    subst hkey
    obtain ⟨rfl, -⟩ := List.cons.inj heq
    revert hc
    decide
  · simp only [traceRules, List.any_cons, List.any_nil, Bool.or_false] at hmatch
    obtain ⟨last, hends⟩ := Pattern.fullMatch_iff.mp hmatch
    obtain ⟨mid, u, hopt, hrest⟩ := Pattern.mem_ends_seq.mp hends
    rcases Pattern.mem_ends_alt.mp hopt with hs | hempty
    · obtain ⟨heq, -⟩ := Pattern.mem_ends_char.mp hs
      obtain ⟨rfl, -⟩ := List.cons.inj heq
      revert hc
      decide
    · obtain ⟨-, rfl⟩ := Pattern.mem_ends_empty.mp hempty
      obtain ⟨mid', u', hdigits, -⟩ := Pattern.mem_ends_seq.mp hrest
      obtain ⟨d, ds, heq, hd⟩ := Pattern.of_mem_ends_some hdigits
      obtain ⟨rfl, -⟩ := List.cons.inj heq
      have digit := hd c List.mem_cons_self
      simp only [objectStart, List.mem_cons, List.not_mem_nil, or_false] at hc
      rcases hc with rfl | rfl | rfl | rfl
      all_goals
        revert digit
        decide

/-- A wallet has no size of the main memory. -/
theorem not_memoryLoads_of_walletRules {text : Text}
    (accepted : walletRules.AcceptsAll (contentLines false (getLines text))) :
    ¬ MemoryLoads text := by
  intro loads
  have absent : ∀ e ∈ memoryRules.params (contentLines false (getLines text)),
      ¬ (decide (e.1 = "main size".toList) = true) := by
    intro e he hkey
    rw [decide_eq_true_eq] at hkey
    obtain ⟨-, -, arg, hline⟩ := FileRules.of_mem_params he
    rw [hkey] at hline
    obtain ⟨arg', heq | heq | heq | heq⟩ := parameter_of_walletRules (accepted _ hline)
    all_goals simp at heq
  obtain ⟨z, hz, -⟩ := (forall_mem_mainKeys.mp loads.main).1
  unfold lastValue at hz
  rw [List.filter_eq_nil_iff.mpr absent] at hz
  cases hz

/-! ## Adding a file -/

section Adding

variable {App Graph : Type} {loaders : Loaders App Graph} {raw : LevelParams}
  {files files' : Files} {kind : Kind} {file content : Text}

/-- What an accepted file makes of the wallet file. -/
theorem spec_of_add (added : add loaders files kind file = .ok files') :
    (∃ text, files file = some text) ∧ accepts loaders files kind file = .ok true ∧
      ∃ content, files walletFile = some content ∧
        files' = Function.update files walletFile
          (some (content ++ '\n' :: (kind.tag ++ file))) := by
  unfold add at added
  cases hfile : files file with
  | none =>
      rw [hfile] at added
      cases added
  | some text =>
      rw [hfile, if_pos (show (some text).isSome = true from rfl)] at added
      obtain ⟨valid, hvalid, h₁⟩ := bind_eq_ok.mp added
      cases valid with
      | false => cases h₁
      | true =>
          rw [if_pos rfl] at h₁
          obtain ⟨handler, made, h₂⟩ := bind_eq_ok.mp h₁
          obtain ⟨content, hwallet, hinput, -⟩ := FileHandler.spec_of_new made
          refine ⟨⟨text, rfl⟩, hvalid, content, hwallet, ?_⟩
          cases h₂
          unfold FileHandler.addToFile
          rw [hinput, hwallet]
          rfl

theorem addFile_eq_ok : addFile loaders raw files kind file = .ok files' ↔
    (∃ w, new loaders raw files = .ok w) ∧ add loaders files kind file = .ok files' := by
  unfold addFile
  rw [bind_eq_ok]
  exact exists_and_right

/-- Changing the wallet file changes no entry: a wallet is no memory configuration and
no task graph, and an application is loaded by its name. -/
theorem loadable_congr (json : ∀ text graph, loaders.getGraph text = .ok graph → BeginsObject text)
    (frame : ∀ name, name ≠ walletFile → files' name = files name) {content' : Text}
    (hwallet : files walletFile = some content) (hwallet' : files' walletFile = some content')
    (accepted : walletRules.AcceptsAll (contentLines false (getLines content)))
    (accepted' : walletRules.AcceptsAll (contentLines false (getLines content')))
    (e : Text × Text) : Loadable loaders files' e ↔ Loadable loaders files e := by
  obtain ⟨key, name⟩ := e
  by_cases hname : name = walletFile
  · subst hname
    have memory : ∀ {files : Files} {content : Text}, files walletFile = some content →
        walletRules.AcceptsAll (contentLines false (getLines content)) →
        ¬ ∃ text, files walletFile = some text ∧ MemoryLoads text := by
      rintro files content hwallet accepted ⟨text, htext, loads⟩
      obtain rfl := Option.some.inj (hwallet.symm.trans htext)
      exact not_memoryLoads_of_walletRules accepted loads
    have taskGraph : ∀ {files : Files} {content : Text}, files walletFile = some content →
        walletRules.AcceptsAll (contentLines false (getLines content)) →
        ¬ ∃ text, files walletFile = some text ∧ ∃ graph, loaders.getGraph text = .ok graph := by
      rintro files content hwallet accepted ⟨text, htext, graph, hgraph⟩
      obtain rfl := Option.some.inj (hwallet.symm.trans htext)
      exact not_beginsObject_of_walletRules accepted (json _ _ hgraph)
    unfold Loadable
    dsimp only
    split
    · exact iff_of_false (memory hwallet' accepted') (memory hwallet accepted)
    · exact and_congr_left' (iff_of_true ⟨_, hwallet'⟩ ⟨_, hwallet⟩)
    · exact iff_of_false (taskGraph hwallet' accepted') (taskGraph hwallet accepted)
    · exact Iff.rfl
  · unfold Loadable
    dsimp only
    rw [frame name hname]

/-- The lines of content that adding a file appends to a wallet: one, unless a comment
block is open or the name has a line break. -/
def addedLines (content : Text) (kind : Kind) (file : Text) : List Text :=
  contentLines (blockAfter false (getLines content)) (getLines (kind.tag ++ file))

theorem contentLines_added :
    contentLines false (getLines (content ++ '\n' :: (kind.tag ++ file))) =
      contentLines false (getLines content) ++ addedLines content kind file := by
  obtain ⟨blank, hblank, hlines⟩ := getLines_append content (kind.tag ++ file)
  rw [hlines, contentLines_append]
  rcases hblank with rfl | rfl
  · rfl
  · rw [List.singleton_append, contentLines_blank]
    rfl

/-- The wallet can be loaded again exactly when the appended lines are parameters and
the files they name can be loaded. -/
theorem new_added_iff
    (json : ∀ text graph, loaders.getGraph text = .ok graph → BeginsObject text)
    (hwallet : files walletFile = some content)
    (added : addFile loaders raw files kind file = .ok files') :
    (∃ w, new loaders raw files' = .ok w) ↔
      walletRules.AcceptsAll (addedLines content kind file) ∧
        ∀ e ∈ walletRules.params (addedLines content kind file), Loadable loaders files e := by
  obtain ⟨loaded, added⟩ := addFile_eq_ok.mp added
  obtain ⟨-, -, content', hcontent, rfl⟩ := spec_of_add added
  obtain rfl := Option.some.inj (hwallet.symm.trans hcontent)
  obtain ⟨content', hcontent', accepted, loadable⟩ := (new_iff raw).mp loaded
  obtain rfl := Option.some.inj (hwallet.symm.trans hcontent')
  have hadded : Function.update files walletFile (some (content ++ '\n' :: (kind.tag ++ file)))
      walletFile = some (content ++ '\n' :: (kind.tag ++ file)) := Function.update_self ..
  have frame : ∀ name, name ≠ walletFile → Function.update files walletFile
      (some (content ++ '\n' :: (kind.tag ++ file))) name = files name :=
    fun name hname => Function.update_of_ne hname ..
  have congr := fun accepted' => loadable_congr json frame hwallet hadded accepted
    (contentLines_added ▸ FileRules.acceptsAll_append.mpr ⟨accepted, accepted'⟩)
  rw [new_iff]
  constructor
  · rintro ⟨text, htext, accepted', loadable'⟩
    obtain rfl := Option.some.inj (hadded.symm.trans htext)
    rw [contentLines_added] at accepted' loadable'
    have lines := (FileRules.acceptsAll_append.mp accepted').2
    refine ⟨lines, fun e he => (congr lines e).mp (loadable' e ?_)⟩
    rw [FileRules.params_append]
    exact List.mem_append_right _ he
  · rintro ⟨lines, loadable'⟩
    refine ⟨_, hadded, ?_, ?_⟩
    · rw [contentLines_added]
      exact FileRules.acceptsAll_append.mpr ⟨accepted, lines⟩
    · rw [contentLines_added, FileRules.params_append]
      intro e he
      rcases List.mem_append.mp he with he | he
      · exact (congr lines e).mpr (loadable e he)
      · exact (congr lines e).mpr (loadable' e he)

/-! ## Plain names -/

/-- A name that is kept as it is on a line of the wallet file. -/
structure PlainName (file : Text) : Prop where
  trimmed : trim file = file
  notEmpty : file ≠ []
  oneLine : '\n' ∉ file

/-- The parameter of the wallet for files of the kind. -/
def Kind.key : Kind → Text
  | memory => "m".toList
  | application => "a".toList
  | taskGraph => "t".toList

/-- Which accepted files of a kind can be loaded. -/
def Kind.Loads : Kind → Text → Prop
  | memory, text => MemoryLoads text
  | application, _ => True
  | taskGraph, _ => False

theorem getLines_entry (kind : Kind) {file : Text} (oneLine : '\n' ∉ file) :
    getLines (kind.tag ++ file) = [kind.tag ++ file] := by
  apply getLines_of_notMem
  · rw [List.mem_append, not_or]
    refine ⟨?_, oneLine⟩
    cases kind <;> decide
  · cases kind <;> exact List.cons_ne_nil _ _

/-- The line of an entry opens no comment block and closes none. -/
theorem classifyLine_entry (block : Bool) (kind : Kind) (file : Text) :
    classifyLine block (kind.tag ++ file) = (block, if block then .comment else .unknown) := by
  cases kind with
  | memory => cases block <;> rfl
  | application => cases block <;> rfl
  | taskGraph => cases block <;> rfl

theorem contentLines_entry (block : Bool) (kind : Kind) (file : Text) :
    contentLines block [kind.tag ++ file] = if block then [] else [kind.tag ++ file] := by
  rw [contentLines, classifyLine_entry]
  cases block with
  | false => rfl
  | true => rfl

theorem addedLines_eq (oneLine : '\n' ∉ file) :
    addedLines content kind file =
      if blockAfter false (getLines content) then [] else [kind.tag ++ file] := by
  rw [addedLines, getLines_entry kind oneLine, contentLines_entry]

/-- An added line is a parameter, with the name between its blanks, unless there is
none. -/
theorem parseEntry_tag (kind : Kind) (file : Text) :
    parseEntry walletRules (kind.tag ++ file) =
      if trim file = [] then (.invalid, []) else (.parameter, [(kind.key, trim file)]) := by
  have hline : kind.tag ++ file = kind.key ++ ':' :: ' ' :: file := by
    cases kind <;> rfl
  have hkey : ':' ∉ kind.key := by
    cases kind <;> decide
  have accepted : kind.key ∈ walletRules.acceptableParams := by
    cases kind <;> simp [walletRules, Kind.key]
  have blank : trim (' ' :: file) = trim file := rfl
  rw [hline, parseEntry_colon hkey, blank, if_pos accepted]

/-- What is left to ask of an accepted file. -/
theorem loadable_iff_of_accepts
    (json : ∀ text graph, loaders.getGraph text = .ok graph → BeginsObject text)
    {text : Text} (hfile : files file = some text)
    (accepted : accepts loaders files kind file = .ok true) :
    Loadable loaders files (kind.key, file) ↔ kind.Loads text := by
  cases kind with
  | memory =>
      show (∃ content, files file = some content ∧ MemoryLoads content) ↔ MemoryLoads text
      constructor
      · rintro ⟨content, hcontent, loads⟩
        obtain rfl := Option.some.inj (hfile.symm.trans hcontent)
        exact loads
      · intro loads
        exact ⟨text, hfile, loads⟩
  | application =>
      refine iff_of_true ⟨⟨text, hfile⟩, ?_⟩ trivial
      cases hload : loaders.loadApplication file with
      | ok app => exact ⟨app, rfl⟩
      | error e =>
          simp only [accepts, hload] at accepted
          cases e <;> cases accepted
  | taskGraph =>
      refine iff_of_false ?_ not_false
      rintro ⟨content, hcontent, graph, hgraph⟩
      obtain rfl := Option.some.inj (hfile.symm.trans hcontent)
      obtain ⟨reader, made, hvalid⟩ := bind_eq_ok.mp accepted
      obtain ⟨-, valid, -⟩ := FileHandler.read_of_new hfile made
      have valid := valid.mp (Except.ok.inj hvalid)
      exact not_beginsObject_of_traceRules valid (json _ _ hgraph)

/-- Under a plain name, in a wallet without an open comment block, the appended line names
the file. -/
theorem new_added_iff_loads
    (json : ∀ text graph, loaders.getGraph text = .ok graph → BeginsObject text)
    (hwallet : files walletFile = some content)
    (added : addFile loaders raw files kind file = .ok files') (plain : PlainName file)
    (closed : blockAfter false (getLines content) = false) {text : Text}
    (hfile : files file = some text) :
    (∃ w, new loaders raw files' = .ok w) ↔ kind.Loads text := by
  have accepted := (spec_of_add (addFile_eq_ok.mp added).2).2.1
  have entry : parseEntry walletRules (kind.tag ++ file) = (.parameter, [(kind.key, file)]) := by
    rw [parseEntry_tag, plain.trimmed, if_neg plain.notEmpty]
  have line : walletRules.AcceptsAll [kind.tag ++ file] := by
    intro l hl
    obtain rfl := List.mem_singleton.mp hl
    unfold FileRules.Accepts
    rw [entry]
    exact LineType.noConfusion
  have params : walletRules.params [kind.tag ++ file] = [(kind.key, file)] := by
    rw [FileRules.params_singleton, entry]
  rw [new_added_iff json hwallet added, addedLines_eq plain.oneLine, closed,
    if_neg Bool.false_ne_true, params, List.forall_mem_singleton,
    loadable_iff_of_accepts json hfile accepted]
  exact and_iff_right line

/-- **When an added file can be loaded afterwards.**  Under a plain name, in a wallet
without an open comment block: an application always, a memory configuration if what is
to be a number is one, and a task graph never. -/
theorem added_loads_iff
    (json : ∀ text graph, loaders.getGraph text = .ok graph → BeginsObject text)
    (hwallet : files walletFile = some content)
    (added : addFile loaders raw files kind file = .ok files') :
    ((∃ w, new loaders raw files' = .ok w) ↔
      walletRules.AcceptsAll (addedLines content kind file) ∧
        ∀ e ∈ walletRules.params (addedLines content kind file), Loadable loaders files e) ∧
    (PlainName file → blockAfter false (getLines content) = false →
      ∀ text, files file = some text →
        ((∃ w, new loaders raw files' = .ok w) ↔ kind.Loads text)) := by
  refine ⟨new_added_iff json hwallet added, fun plain closed text hfile => ?_⟩
  exact new_added_iff_loads json hwallet added plain closed hfile

end Adding

/-! ## Two files that are added and not loaded -/

/-- A deserializer that looks at the first character only, and no YAML file. -/
def firstCharacter : Loaders Unit Unit where
  loadApplication _ := .error (.exception "bad file")
  getGraph text :=
    if text.head? = some '{' then .ok () else .error (.exception "parse error")

/-- What the level parameters hold. -/
def unset : LevelParams := ⟨fun _ => 0, fun _ => 0, fun _ => 0, 0, fun _ => false⟩

/-- A wallet without entries, and three files. -/
def addable : Files := fun name =>
  if name = walletFile then some "name: w".toList
  else if name = "b.mem".toList then
    some "main size: 4\nmain read latency: 1\nmain search latency: 1\nl1 size: 2".toList
  else if name = "c.mem".toList then some "name: x".toList
  else if name = "d.trc".toList then some "0,1   ,2".toList
  else none

theorem firstCharacter_json :
    ∀ text graph, firstCharacter.getGraph text = .ok graph → BeginsObject text := by
  intro text graph h
  change (if text.head? = some '{' then _ else _) = _ at h
  by_cases first : text.head? = some '{'
  · obtain ⟨rest, rfl⟩ := List.head?_eq_some_iff.mp first
    exact ⟨[], rest, rfl, by simp⟩
  · rw [if_neg first] at h
    cases h

theorem added_loads_iff_mem :
    ∃ files', addFile firstCharacter unset addable .memory "b.mem".toList = .ok files' ∧
      ((∃ w, new firstCharacter unset files' = .ok w) ↔
        MemoryLoads
          "main size: 4\nmain read latency: 1\nmain search latency: 1\nl1 size: 2".toList) := by
  obtain ⟨files', added, -⟩ := Machine.map_eq_ok.mp
    (show (addFile firstCharacter unset addable .memory "b.mem".toList).map (fun _ => ()) = .ok ()
      by decide +kernel)
  have hwallet : addable walletFile = some "name: w".toList := if_pos rfl
  have plain : PlainName "b.mem".toList := ⟨by decide +kernel, by decide, by decide⟩
  have closed : blockAfter false (getLines "name: w".toList) = false := by decide +kernel
  refine ⟨files', added, ?_⟩
  exact (added_loads_iff firstCharacter_json hwallet added).2 plain closed _ rfl

/-- **Accepted, and never loaded again**: a memory configuration without the parameters
of the main memory, and a trace. -/
theorem accepted_but_not_loaded :
    (∀ text graph, firstCharacter.getGraph text = .ok graph → BeginsObject text) ∧
      (∃ files', addFile firstCharacter unset addable .memory "c.mem".toList = .ok files' ∧
        new firstCharacter unset files' = .error (.invalidArgument "stol")) ∧
      ∃ files', addFile firstCharacter unset addable .taskGraph "d.trc".toList = .ok files' ∧
        new firstCharacter unset files' = .error (.exception "parse error") := by
  have fails : ∀ {kind : Kind} {file : Text} {e : LoadError},
      ((addFile firstCharacter unset addable kind file).map fun _ => ()) = .ok () →
      ((addFile firstCharacter unset addable kind file >>= new firstCharacter unset).map
        fun _ => ()) = .error e →
      ∃ files', addFile firstCharacter unset addable kind file = .ok files' ∧
        new firstCharacter unset files' = .error e := by
    intro kind file e hadded hnew
    obtain ⟨files', added, -⟩ := Machine.map_eq_ok.mp hadded
    rw [added, Machine.ok_bind] at hnew
    exact ⟨files', added, Machine.map_eq_error.mp hnew⟩
  exact ⟨firstCharacter_json, fails (by decide +kernel) (by decide +kernel),
    fails (by decide +kernel) (by decide +kernel)⟩

end Wallet

end Drachma
