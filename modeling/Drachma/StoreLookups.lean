import Drachma.Lib.PointerTable
import Drachma.Storage

/-!
# Lookups in the storage

The memory levels and the RR table are both asked whether they have a module
(`isModulePresent`), and for the module they have (`getModule`, `getModuleFromRegion`).
The first uses `find`; the second uses `operator[]`, which leaves a null pointer where it
found nothing.  `isModulePresent` takes a null pointer for a module, in a memory level, and
dereferences it, in the RR table.

Both are `PointerTable`s: a memory level one of modules under their region and module id,
the RR table one of modules under their region.

## Main results

* `MemoryLevel.faithful_iff`, `ReconfigurableRegions.faithful_iff` — the store reports what
  was inserted, and lookups do not show, exactly when no `isModulePresent` sees a null
  pointer.
-/

namespace Drachma

open Machine (PointerTable TableCall TableAnswer)

namespace MemoryLevel

/-- The constructor. -/
def new (unitSize readLatency searchLatency : ℕ) (lutIndexed : Bool) : MemoryLevel :=
  { unitSize, readLatency, searchLatency, lutIndexed, table := fun _ _ => none }

/-- `insertModule`, of a module at an address, `isModulePresent` and `getModule`, of a
region and a module id. -/
abbrev Call := TableCall (ℕ × ℕ) ℕ (ℕ × ℕ)

/-- A call; `cells` are the module objects. -/
def perform (cells : ℕ → RrModule) (l : MemoryLevel) :
    Call → Exec (TableAnswer ℕ × MemoryLevel)
  | .insert a => .ok (.done, l.insertModule (cells a).regionId (cells a).moduleId a)
  | .query wanted => .ok (.found (l.isModulePresent wanted.1 wanted.2), l)
  | .fetch wanted =>
      let (rrModule, l) := l.getModule wanted.1 wanted.2
      .ok (.pointer rrModule, l)

/-- The ids a module is filed under. -/
def ids (cells : ℕ → RrModule) (a : ℕ) : ℕ × ℕ := ((cells a).regionId, (cells a).moduleId)

/-- A module with these ids was inserted. -/
def WasInserted (cells : ℕ → RrModule) (before : List Call) (wanted : ℕ × ℕ) : Prop :=
  ∃ a, .insert a ∈ before ∧ ids cells a = wanted

/-- The table of a level. -/
def pointers (l : MemoryLevel) : PointerTable (ℕ × ℕ) ℕ := fun k => l.table k.1 k.2

variable {cells : ℕ → RrModule}

theorem pointers_update (l : MemoryLevel) (regionId moduleId : ℕ) (p : ModulePtr) :
    pointers { l with
      table := Function.update l.table regionId
        (Function.update (l.table regionId) moduleId (some p)) } =
      Function.update l.pointers (regionId, moduleId) (some p) := by
  funext ⟨r, m⟩
  unfold pointers
  dsimp only
  by_cases hr : r = regionId
  · subst hr
    by_cases hm : m = moduleId
    · subst hm
      rw [Function.update_self, Function.update_self, Function.update_self]
    · rw [Function.update_self, Function.update_of_ne hm, Function.update_of_ne]
      simp [hm]
  · rw [Function.update_of_ne hr, Function.update_of_ne]
    simp [hr]

/-- The pointer that is read is in the table afterwards. -/
theorem getModule_pointers (l : MemoryLevel) (regionId moduleId : ℕ) :
    (l.getModule regionId moduleId).1 = (l.pointers (regionId, moduleId)).join ∧
      (l.getModule regionId moduleId).2.pointers =
        Function.update l.pointers (regionId, moduleId)
          (some (l.pointers (regionId, moduleId)).join) := by
  unfold getModule
  split
  · rename_i p found
    have entry : l.pointers (regionId, moduleId) = some p := found
    rw [entry]
    exact ⟨rfl, (PointerTable.update_of_some entry).symm⟩
  · rename_i found
    have entry : l.pointers (regionId, moduleId) = none := found
    rw [entry]
    exact ⟨rfl, pointers_update l _ _ _⟩

/-- A memory level is a table in which an entry is a module, whatever it points to. -/
theorem perform_view (l : MemoryLevel) (call : Call) :
    (perform cells l call).map (fun x => (x.1, x.2.pointers)) =
      PointerTable.perform (ids cells) id (fun _ _ => true) (.ok true) l.pointers call := by
  cases call with
  | insert a =>
      rw [PointerTable.perform_insert]
      exact congrArg (fun t => Except.ok (TableAnswer.done, t)) (pointers_update l _ _ _)
  | query wanted =>
      rw [PointerTable.perform_query]
      show Except.ok (TableAnswer.found (l.pointers wanted).isSome, l.pointers) =
        Except.map _ (PointerTable.tell _ _ wanted (l.pointers wanted))
      cases l.pointers wanted with
      | none => rfl
      | some p => cases p <;> rfl
  | fetch wanted =>
      obtain ⟨pointer, table⟩ := l.getModule_pointers wanted.1 wanted.2
      rw [PointerTable.perform_fetch]
      show Except.ok (TableAnswer.pointer (l.getModule wanted.1 wanted.2).1,
        (l.getModule wanted.1 wanted.2).2.pointers) = _
      rw [pointer, table]

/-- **When a memory level is faithful**: exactly when every `isModulePresent` that comes after
a `getModule` of the same ids comes after an insertion under them. -/
theorem faithful_iff (cells : ℕ → RrModule) (unitSize readLatency searchLatency : ℕ)
    (lutIndexed : Bool) (calls : List Call) :
    PointerTable.Faithful (perform cells) (new unitSize readLatency searchLatency lutIndexed)
        (WasInserted cells) calls ↔
      PointerTable.QueriesInserted (ids cells) id calls := by
  rw [PointerTable.Faithful.iff_of_view perform_view (fun before wanted => ?_)]
  · exact PointerTable.faithful_iff (fun h => by cases h)
  · unfold WasInserted PointerTable.Reports
    simp only [and_true, TableCall.exists_lastInserted_iff, id]

end MemoryLevel

namespace ReconfigurableRegions

/-- `insertModule`, of a module at an address, `isModulePresent`, of a region and a module
id, and `getModuleFromRegion`. -/
abbrev Call := TableCall ℕ ℕ (ℕ × ℕ)

/-- A call; `cells` are the module objects. -/
def perform (cells : ℕ → RrModule) (t : ReconfigurableRegions) :
    Call → Exec (TableAnswer ℕ × ReconfigurableRegions)
  | .insert a => .ok (.done, t.insertModule (cells a).regionId a)
  | .query wanted => do
      let isPresent ← t.isModulePresent cells wanted.1 wanted.2
      return (.found isPresent, t)
  | .fetch regionId =>
      let (rrModule, t) := t.getModuleFromRegion regionId
      .ok (.pointer rrModule, t)

/-- The last module inserted for the region has the id. -/
def LastInserted (cells : ℕ → RrModule) (before : List Call) (wanted : ℕ × ℕ) : Prop :=
  ∃ a, TableCall.lastInserted (fun a => (cells a).regionId) before wanted.1 = some a ∧
    (cells a).moduleId = wanted.2

variable {cells : ℕ → RrModule}

/-- The pointer that is read is in the table afterwards. -/
theorem getModuleFromRegion_table (t : ReconfigurableRegions) (regionId : ℕ) :
    (t.getModuleFromRegion regionId).1 = (t.table regionId).join ∧
      (t.getModuleFromRegion regionId).2.table =
        Function.update t.table regionId (some (t.table regionId).join) := by
  unfold getModuleFromRegion
  split
  · rename_i p found
    rw [found]
    exact ⟨rfl, (PointerTable.update_of_some found).symm⟩
  · rename_i found
    rw [found]
    exact ⟨rfl, rfl⟩

theorem isModulePresent_eq_tell (t : ReconfigurableRegions) (wanted : ℕ × ℕ) :
    t.isModulePresent cells wanted.1 wanted.2 =
      PointerTable.tell (fun wanted a => decide ((cells a).moduleId = wanted.2))
        (.error .nullDereference) wanted (t.table wanted.1) := by
  unfold isModulePresent
  cases t.table wanted.1 with
  | none => rfl
  | some p => cases p <;> rfl

/-- The RR table is a table in which a null pointer must not be looked at. -/
theorem perform_view (t : ReconfigurableRegions) (call : Call) :
    (perform cells t call).map (fun x => (x.1, x.2.table)) =
      PointerTable.perform (fun a => (cells a).regionId) Prod.fst
        (fun wanted a => decide ((cells a).moduleId = wanted.2)) (.error .nullDereference)
        t.table call := by
  cases call with
  | insert a => rfl
  | query wanted =>
      rw [PointerTable.perform_query, ← isModulePresent_eq_tell]
      unfold perform
      dsimp only
      cases t.isModulePresent cells wanted.1 wanted.2 <;> rfl
  | fetch regionId =>
      obtain ⟨pointer, table⟩ := t.getModuleFromRegion_table regionId
      rw [PointerTable.perform_fetch]
      show Except.ok (TableAnswer.pointer (t.getModuleFromRegion regionId).1,
        (t.getModuleFromRegion regionId).2.table) = _
      rw [pointer, table]

/-- **When the RR table is faithful**: exactly when every `isModulePresent` that comes after
a `getModuleFromRegion` of the same region comes after an insertion for it. -/
theorem faithful_iff (cells : ℕ → RrModule) (calls : List Call) :
    PointerTable.Faithful (perform cells) empty (LastInserted cells) calls ↔
      PointerTable.QueriesInserted (fun a => (cells a).regionId) Prod.fst calls := by
  rw [PointerTable.Faithful.iff_of_view perform_view (fun before wanted => ?_)]
  · exact PointerTable.faithful_iff (fun h => by cases h)
  · unfold LastInserted PointerTable.Reports
    simp only [decide_eq_true_eq]

end ReconfigurableRegions

/-- **When the storage is faithful.**  The memory levels and the RR table report what was
inserted, without a fault, and lookups change no later answer, exactly when no
`isModulePresent` comes after a lookup by `getModule` or `getModuleFromRegion` under the same
key that nothing had been inserted under by then. -/
theorem stores_faithful_iff (cells : ℕ → RrModule) (unitSize readLatency searchLatency : ℕ)
    (lutIndexed : Bool) (levelCalls : List MemoryLevel.Call)
    (regionCalls : List ReconfigurableRegions.Call) :
    (PointerTable.Faithful (MemoryLevel.perform cells)
        (MemoryLevel.new unitSize readLatency searchLatency lutIndexed)
          (MemoryLevel.WasInserted cells) levelCalls ↔
      PointerTable.QueriesInserted (MemoryLevel.ids cells) id levelCalls) ∧
    (PointerTable.Faithful (ReconfigurableRegions.perform cells) .empty
        (ReconfigurableRegions.LastInserted cells) regionCalls ↔
      PointerTable.QueriesInserted (fun a => (cells a).regionId) Prod.fst regionCalls) :=
  ⟨MemoryLevel.faithful_iff cells _ _ _ _ levelCalls,
    ReconfigurableRegions.faithful_iff cells regionCalls⟩

/-- **A lookup that finds nothing is taken for a module**, in a memory level, and for the
RR table it is the end of the run. -/
theorem lookup_leaves_null_pointer :
    ¬ PointerTable.Faithful (MemoryLevel.perform fun _ => .idleModule 0 0)
        (MemoryLevel.new 8 0 0 true) (MemoryLevel.WasInserted fun _ => .idleModule 0 0)
        [.fetch (0, 0), .query (0, 0)] ∧
      ¬ PointerTable.Faithful (ReconfigurableRegions.perform fun _ => .idleModule 0 0) .empty
        (ReconfigurableRegions.LastInserted fun _ => .idleModule 0 0)
        [.fetch 0, .query (0, 0)] := by
  constructor
  · rintro ⟨as, has, queries, -⟩
    cases has
    obtain ⟨b, hb, told⟩ := queries [.fetch (0, 0)] (0, 0) [] rfl
    cases hb
    obtain ⟨a, ha, -⟩ := told.mp rfl
    cases List.mem_singleton.mp ha
  · rintro ⟨as, has, -⟩
    cases has

end Drachma
