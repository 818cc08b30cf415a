import Drachma.WalletLoading

/-!
# Looking up what a wallet holds

A user names a memory configuration, an application or a task graph by its number: its
position among the entries of its kind.  The constructor goes through a multimap by
key, which keeps the entries of one key in the order of the file, so that the numbers
are those of the lines.  Each lookup then compares the number with the size of its
vector *minus one*, which for an empty vector is the largest number there is.

## Main results

* `Wallet.forall₂_build` — the entities of a kind are built from its entries, in order.
* `Wallet.resolvesIds_iff` — when the numbers of a kind are resolved and checked.
-/

namespace Drachma

open Machine (bind_eq_ok)

namespace Wallet

/-! ## Lookups -/

section Lookup

variable {α : Type} {App Graph : Type}

/-- `size() - 1`, of type `std::size_t`. -/
def sizeMinusOne (entities : List α) : ℕ :=
  if entities.isEmpty then 2 ^ 64 - 1 else entities.length - 1

/-- The body of `getMemory`, `getApplication` and `getTaskGraph`. -/
def entityAt (entities : List α) (message : String) (id : ℕ) : Exec α :=
  if sizeMinusOne entities < id then .error (.userError message) else lookupAt entities[id]?

/-- `getMemory`. -/
def getMemory (w : Wallet App Graph) (memoryId : ℕ) : Exec (List StorageUnit) :=
  entityAt w.memories "Too large of a memory ID was specified." memoryId

/-- `getApplication`. -/
def getApplication (w : Wallet App Graph) (applicationId : ℕ) : Exec App :=
  entityAt w.applications "Too large of an application ID was specified." applicationId

/-- `getTaskGraph`. -/
def getTaskGraph (w : Wallet App Graph) (taskGraphId : ℕ) : Exec Graph := do
  let file ← entityAt w.taskGraphsFiles "Too large of a task graph ID was specified." taskGraphId
  return file.2

/-- What a lookup does with a number, by the size of the vector. -/
theorem entityAt_spec (entities : List α) (message : String) {id : ℕ} (hid : id < 2 ^ 32) :
    (entities = [] → entityAt entities message id = .error .outOfRange) ∧
      (∀ entity, entities[id]? = some entity → entityAt entities message id = .ok entity) ∧
      (entities ≠ [] → entities.length ≤ id →
        entityAt entities message id = .error (.userError message)) := by
  refine ⟨?_, fun entity hentity => ?_, fun nonempty large => ?_⟩
  · rintro rfl
    rw [entityAt, sizeMinusOne, List.isEmpty_nil, if_pos rfl, if_neg (by omega)]
    rfl
  · have hlt : id < entities.length := by
      by_contra large
      rw [List.getElem?_eq_none (not_lt.mp large)] at hentity
      cases hentity
    have nonempty : entities ≠ [] := List.ne_nil_of_length_pos (by omega)
    rw [entityAt, sizeMinusOne, if_neg (mt List.isEmpty_iff.mp nonempty), if_neg (by omega),
      hentity]
    rfl
  · have hpos := List.length_pos_of_ne_nil nonempty
    rw [entityAt, sizeMinusOne, if_neg (mt List.isEmpty_iff.mp nonempty), if_pos (by omega)]

end Lookup

/-! ## Entities -/

section Entities

variable {App Graph : Type}

/-- What a wallet holds of a kind. -/
def Kind.Entity (App Graph : Type) : Kind → Type
  | memory => List StorageUnit
  | application => App
  | taskGraph => Graph

/-- The vector of a kind. -/
def entities (w : Wallet App Graph) : (kind : Kind) → List (kind.Entity App Graph)
  | .memory => w.memories
  | .application => w.applications
  | .taskGraph => w.taskGraphsFiles.map Prod.snd

/-- The lookup of a kind. -/
def get (w : Wallet App Graph) : (kind : Kind) → ℕ → Exec (kind.Entity App Graph)
  | .memory => w.getMemory
  | .application => w.getApplication
  | .taskGraph => w.getTaskGraph

variable (loaders : Loaders App Graph) (raw : LevelParams) (files : Files)

/-- What the constructor makes of the file of an entry. -/
def build : (kind : Kind) → Text → Except LoadError (kind.Entity App Graph)
  | .memory, filename => do
      let _ ← assertEntityFileExists files filename "Memory"
      buildMemoryHierarchy raw files filename
  | .application, filename => do
      let _ ← assertEntityFileExists files filename "Application"
      loaders.loadApplication filename
  | .taskGraph, filename => do
      let content ← assertEntityFileExists files filename "Task graph"
      loaders.getGraph content

/-- The names in the entries of a kind, in the order of the lines. -/
def entryNames (content : Text) (kind : Kind) : List Text :=
  ((walletRules.params (contentLines false (getLines content))).filter fun e =>
    e.1 = kind.key).map Prod.snd

variable {loaders raw files} {w w' : Wallet App Graph} {content : Text} {kind : Kind}

/-- **One round of the constructor's loop**: the entity of the entry is added to those of
its kind. -/
theorem load_spec {key filename : Text} (hkey : key ∈ walletRules.acceptableParams)
    (loaded : load loaders raw files w (key, filename) = .ok w') (kind : Kind) :
    ∃ built, w'.entities kind = w.entities kind ++ built ∧
      List.Forall₂ (fun name entity => build loaders raw files kind name = .ok entity)
        (if key = kind.key then [filename] else []) built := by
  have other : key ≠ kind.key → w'.entities kind = w.entities kind →
      ∃ built, w'.entities kind = w.entities kind ++ built ∧
        List.Forall₂ (fun name entity => build loaders raw files kind name = .ok entity)
          (if key = kind.key then [filename] else []) built := by
    intro hne same
    refine ⟨[], same.trans (List.append_nil _).symm, ?_⟩
    rw [if_neg hne]
    exact .nil
  have own : ∀ entity, key = kind.key → w'.entities kind = w.entities kind ++ [entity] →
      build loaders raw files kind filename = .ok entity →
      ∃ built, w'.entities kind = w.entities kind ++ built ∧
        List.Forall₂ (fun name entity => build loaders raw files kind name = .ok entity)
          (if key = kind.key then [filename] else []) built := by
    intro entity heq added hbuild
    refine ⟨[entity], added, ?_⟩
    rw [if_pos heq]
    exact .cons hbuild .nil
  simp only [walletRules, List.mem_cons, List.not_mem_nil, or_false] at hkey
  rcases hkey with rfl | rfl | rfl | rfl
  · cases loaded
    refine other ?_ rfl
    cases kind with
    | memory => decide
    | application => decide
    | taskGraph => decide
  · obtain ⟨text, hfile, loaded⟩ := bind_eq_ok.mp loaded
    obtain ⟨newMem, hbuild, hw⟩ := bind_eq_ok.mp loaded
    cases hw
    cases kind with
    | memory => exact own newMem rfl rfl (bind_eq_ok.mpr ⟨text, hfile, hbuild⟩)
    | application => exact other (by decide) rfl
    | taskGraph => exact other (by decide) rfl
  · obtain ⟨text, hfile, loaded⟩ := bind_eq_ok.mp loaded
    obtain ⟨newApp, hload, hw⟩ := bind_eq_ok.mp loaded
    cases hw
    cases kind with
    | memory => exact other (by decide) rfl
    | application => exact own newApp rfl rfl (bind_eq_ok.mpr ⟨text, hfile, hload⟩)
    | taskGraph => exact other (by decide) rfl
  · obtain ⟨text, hfile, loaded⟩ := bind_eq_ok.mp loaded
    obtain ⟨newTg, hgraph, hw⟩ := bind_eq_ok.mp loaded
    cases hw
    cases kind with
    | memory => exact other (by decide) rfl
    | application => exact other (by decide) rfl
    | taskGraph => exact own newTg rfl List.map_append (bind_eq_ok.mpr ⟨text, hfile, hgraph⟩)

/-- The whole loop: the entities of the entries of a kind, in order. -/
theorem foldlM_load_spec {entries : List (Text × Text)}
    (keys : ∀ e ∈ entries, e.1 ∈ walletRules.acceptableParams)
    (loaded : entries.foldlM (load loaders raw files) w = .ok w') (kind : Kind) :
    ∃ built, w'.entities kind = w.entities kind ++ built ∧
      List.Forall₂ (fun name entity => build loaders raw files kind name = .ok entity)
        ((entries.filter fun e => e.1 = kind.key).map Prod.snd) built := by
  induction entries generalizing w with
  | nil =>
      cases loaded
      exact ⟨[], (List.append_nil _).symm, .nil⟩
  | cons e entries ih =>
      rw [List.foldlM_cons] at loaded
      obtain ⟨mid, hmid, loaded⟩ := bind_eq_ok.mp loaded
      obtain ⟨first, hfirst, hbuild⟩ := load_spec (keys e List.mem_cons_self) hmid kind
      obtain ⟨rest, hrest, hbuilds⟩ := ih (fun e' he' => keys e' (List.mem_cons_of_mem _ he')) loaded
      refine ⟨first ++ rest, ?_, ?_⟩
      · rw [hrest, hfirst, List.append_assoc]
      · rw [← List.singleton_append, List.filter_append, List.map_append]
        refine List.rel_append ?_ hbuilds
        by_cases hkey : e.1 = kind.key
        · rw [if_pos hkey] at hbuild
          simpa [hkey] using hbuild
        · rw [if_neg hkey] at hbuild
          simpa [hkey] using hbuild

/-- **The entities of a kind are built from its entries, in the order of the file.** -/
theorem forall₂_build (hwallet : files walletFile = some content)
    (loaded : new loaders raw files = .ok w) (kind : Kind) :
    List.Forall₂ (fun name entity => build loaders raw files kind name = .ok entity)
      (entryNames content kind) (w.entities kind) := by
  obtain ⟨handler, made, loaded⟩ := bind_eq_ok.mp loaded
  obtain ⟨-, -, hread⟩ := FileHandler.read_of_new hwallet made
  by_cases valid : handler.isValid = true
  · rw [if_pos valid] at loaded
    have params := (hread valid).1
    have keys : ∀ e ∈ handler.getParams, e.1 ∈ walletRules.acceptableParams := by
      intro e he
      rw [FileHandler.mem_getParams, params] at he
      exact (FileRules.of_mem_params he).1
    obtain ⟨built, hentities, hbuilt⟩ := foldlM_load_spec keys loaded kind
    have start : entities (⟨[], [], []⟩ : Wallet App Graph) kind = [] := by
      cases kind <;> rfl
    rw [FileHandler.filter_getParams, params] at hbuilt
    rw [hentities, start, List.nil_append]
    exact hbuilt
  · rw [if_neg valid] at loaded
    cases loaded

/-- What a lookup does with a number, by the number of entities of the kind. -/
theorem get_spec (w : Wallet App Graph) (kind : Kind) {id : ℕ} (hid : id < 2 ^ 32) :
    (w.entities kind = [] → w.get kind id = .error .outOfRange) ∧
      (∀ entity, (w.entities kind)[id]? = some entity → w.get kind id = .ok entity) ∧
      (w.entities kind ≠ [] → (w.entities kind).length ≤ id →
        ∃ message, w.get kind id = .error (.userError message)) := by
  cases kind with
  | memory =>
      obtain ⟨empty, inside, outside⟩ := entityAt_spec w.memories
        "Too large of a memory ID was specified." hid
      exact ⟨empty, inside, fun nonempty large => ⟨_, outside nonempty large⟩⟩
  | application =>
      obtain ⟨empty, inside, outside⟩ := entityAt_spec w.applications
        "Too large of an application ID was specified." hid
      exact ⟨empty, inside, fun nonempty large => ⟨_, outside nonempty large⟩⟩
  | taskGraph =>
      obtain ⟨empty, inside, outside⟩ := entityAt_spec w.taskGraphsFiles
        "Too large of a task graph ID was specified." hid
      refine ⟨fun none => ?_, fun entity hentity => ?_, fun nonempty large => ?_⟩
      · show w.getTaskGraph id = _
        rw [getTaskGraph, empty (List.map_eq_nil_iff.mp none)]
        rfl
      · obtain ⟨file, hfile, rfl⟩ := Option.map_eq_some_iff.mp (List.getElem?_map.symm.trans hentity)
        show w.getTaskGraph id = _
        rw [getTaskGraph, inside file hfile]
        rfl
      · refine ⟨"Too large of a task graph ID was specified.", ?_⟩
        show w.getTaskGraph id = _
        rw [getTaskGraph, outside (mt List.map_eq_nil_iff.mpr nonempty) (List.length_map _ ▸ large)]
        rfl

/-- **The numbers of a kind are resolved in the order of the file, and checked**: below
the number of its entries to the entity built from the entry, and otherwise to an error
of the user. -/
def ResolvesIds (loaders : Loaders App Graph) (raw : LevelParams) (files : Files)
    (w : Wallet App Graph) (content : Text) (kind : Kind) : Prop :=
  ∀ id < 2 ^ 32,
    (∀ name, (entryNames content kind)[id]? = some name →
      ∃ entity, build loaders raw files kind name = .ok entity ∧ w.get kind id = .ok entity) ∧
    ((entryNames content kind).length ≤ id →
      ∃ message, w.get kind id = .error (.userError message))

/-- **When the numbers of a kind are resolved and checked**: the wallet has an entry of
the kind. -/
theorem resolvesIds_iff (hwallet : files walletFile = some content)
    (loaded : new loaders raw files = .ok w) (kind : Kind) :
    ResolvesIds loaders raw files w content kind ↔ entryNames content kind ≠ [] := by
  have built := forall₂_build hwallet loaded kind
  constructor
  · intro resolves none
    rw [none, List.forall₂_nil_left_iff] at built
    obtain ⟨message, herror⟩ := (resolves 0 (by decide)).2 (none ▸ Nat.zero_le _)
    rw [(get_spec w kind (by decide)).1 built] at herror
    cases herror
  · intro nonempty id hid
    obtain ⟨-, inside, outside⟩ := get_spec w kind hid
    refine ⟨fun name hname => ?_, fun large => ?_⟩
    · obtain ⟨hlt, rfl⟩ := List.getElem?_eq_some_iff.mp hname
      have hlt' : id < (w.entities kind).length := built.length_eq ▸ hlt
      exact ⟨(w.entities kind)[id], built.get hlt hlt', inside _ (List.getElem?_eq_getElem hlt')⟩
    · refine outside ?_ (built.length_eq ▸ large)
      intro none
      rw [none, List.forall₂_nil_right_iff] at built
      exact nonempty built

end Entities

/-- Two memory configurations, one of them after a task graph. -/
def listed : Files := fun name =>
  if name = walletFile then some "m: b.mem\nt: d.trc\nm:b.mem".toList else addable name

/-- A deserializer that reads every file. -/
def anyGraph : Loaders Unit Unit := { firstCharacter with getGraph := fun _ => .ok () }

theorem resolvesIds_iff_listed :
    ∃ w, new anyGraph unset listed = .ok w ∧
      ResolvesIds anyGraph unset listed w "m: b.mem\nt: d.trc\nm:b.mem".toList .memory := by
  obtain ⟨w, loaded, -⟩ := Machine.map_eq_ok.mp
    (show (new anyGraph unset listed).map (fun _ => ()) = .ok () by decide +kernel)
  have hwallet : listed walletFile = some "m: b.mem\nt: d.trc\nm:b.mem".toList := if_pos rfl
  exact ⟨w, loaded, (resolvesIds_iff hwallet loaded .memory).mpr (by decide +kernel)⟩

/-- **Read outside of the vector**: the first memory configuration of a wallet that has
none. -/
theorem lookup_outside_of_vector :
    ∃ w, new firstCharacter unset addable = .ok w ∧ w.getMemory 0 = .error .outOfRange ∧
      ¬ ResolvesIds firstCharacter unset addable w "name: w".toList .memory := by
  obtain ⟨w, loaded, none⟩ := Machine.map_eq_ok.mp
    (show (new firstCharacter unset addable).map (fun w => w.memories.isEmpty) = .ok true by
      decide +kernel)
  have outside : w.get .memory 0 = .error .outOfRange :=
    (get_spec w .memory (by decide)).1 (List.isEmpty_iff.mp none)
  refine ⟨w, loaded, outside, fun resolves => ?_⟩
  obtain ⟨message, herror⟩ := (resolves 0 (by decide)).2 (by decide +kernel)
  rw [outside] at herror
  cases herror

end Wallet

end Drachma
