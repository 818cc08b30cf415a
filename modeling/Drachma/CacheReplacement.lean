import Drachma.Fault
import Drachma.FileHandler
import Drachma.Lib.EvictionLog

/-!
# Cache replacement

A replacement algorithm keeps a table of the modules that are in a cache, in the order in
which they came.  `newEntryUpdate` adds one at the end; `replace` evicts one first, which
`fifoAlg` takes from the front, and `randomAlg` from anywhere.

## Main results

* `CacheAlg.conserves` — along every sequence of calls, modules are neither lost nor
  reordered, `replace` returns the index its victim had, and under `fifoAlg` the oldest
  module goes first.
-/

namespace Drachma

open Machine (EvictionLog bind_eq_ok)

/-- A `std::uniform_int_distribution<unsigned>` with its generator: some number between the
bounds. -/
structure UniformDraw where
  draw : ℕ → ℕ → ℕ
  inRange : ∀ a b, a ≤ b → a ≤ draw a b ∧ draw a b ≤ b

/-- `replAlg`: the tag table has a weight and a module index in each entry. -/
structure ReplAlg where
  name : Text
  maxTableSize : ℕ
  tagTable : List (ℤ × ℕ)

namespace ReplAlg

/-- The constructor. -/
def new (name : Text) (maxSize : ℕ) : ReplAlg :=
  { name, maxTableSize := maxSize, tagTable := [] }

/-- The modules in the table. -/
def residents (alg : ReplAlg) : List ℕ := alg.tagTable.map Prod.snd

/-- `newEntryUpdate`, of both algorithms. -/
def newEntryUpdate (alg : ReplAlg) (moduleIndex : ℕ) : ReplAlg :=
  { alg with tagTable := alg.tagTable ++ [(-1, moduleIndex)] }

/-- `replace`, of both algorithms: the index of the victim, and the algorithm afterwards.
The entry of the victim is read, to print it. -/
def replace (evictNext : ReplAlg → ℕ) (alg : ReplAlg) (moduleIndex : ℕ) :
    Exec (ℕ × ReplAlg) :=
  let nextVictim := evictNext alg
  if nextVictim < alg.tagTable.length then
    .ok (nextVictim,
      newEntryUpdate { alg with tagTable := alg.tagTable.eraseIdx nextVictim } moduleIndex)
  else
    .error .outOfRange

end ReplAlg

namespace FifoAlg

/-- `evictNext`: the beginning of the queue. -/
def evictNext (_ : ReplAlg) : ℕ := 0

/-- `newEntryUpdate`. -/
def newEntryUpdate := ReplAlg.newEntryUpdate

/-- `replace`. -/
def replace := ReplAlg.replace evictNext

end FifoAlg

namespace RandomAlg

/-- `evictNext`: any entry.  The bound is a `size_t`, passed as an `unsigned`. -/
def evictNext (dist : UniformDraw) (alg : ReplAlg) : ℕ :=
  dist.draw 0 ((alg.tagTable.length + 2 ^ 64 - 1) % 2 ^ 64 % 2 ^ 32)

/-- `newEntryUpdate`. -/
def newEntryUpdate := ReplAlg.newEntryUpdate

/-- `replace`, with the distribution that it makes. -/
def replace (dist : UniformDraw) := ReplAlg.replace (evictNext dist)

end RandomAlg

/-! ## Sequences of calls -/

/-- The replacement algorithms. -/
inductive CacheAlg
  | fifo
  | random
deriving DecidableEq

/-- A call on a replacement algorithm.  A call of `replace` comes with what its random
numbers are. -/
inductive CacheCall
  | newEntryUpdate (moduleIndex : ℕ)
  | replace (moduleIndex : ℕ) (dist : UniformDraw)

namespace CacheCall

/-- The module that a call gives to the cache. -/
def moduleIndex : CacheCall → ℕ
  | newEntryUpdate m => m
  | replace m _ => m

def isNewEntry : CacheCall → Bool
  | newEntryUpdate _ => true
  | replace _ _ => false

end CacheCall

/-- An algorithm, and the modules it has evicted, in order. -/
structure CacheRun where
  alg : ReplAlg
  victims : List ℕ

namespace CacheAlg

/-- `newEntryUpdate` of an algorithm. -/
def newEntryUpdate : CacheAlg → ReplAlg → ℕ → ReplAlg
  | fifo => FifoAlg.newEntryUpdate
  | random => RandomAlg.newEntryUpdate

/-- `replace` of an algorithm. -/
def replace : CacheAlg → UniformDraw → ReplAlg → ℕ → Exec (ℕ × ReplAlg)
  | fifo, _ => FifoAlg.replace
  | random, dist => RandomAlg.replace dist

/-- A call.  The victim is what stood in the table at the index that is returned. -/
def call (kind : CacheAlg) (run : CacheRun) : CacheCall → Exec CacheRun
  | .newEntryUpdate m => .ok { run with alg := kind.newEntryUpdate run.alg m }
  | .replace m dist => do
      let (index, alg) ← kind.replace dist run.alg m
      return { alg, victims := run.victims ++ (run.alg.residents[index]?).toList }

/-- Some calls, from an empty table. -/
def runCalls (kind : CacheAlg) (name : Text) (maxSize : ℕ) (calls : List CacheCall) :
    Exec CacheRun :=
  calls.foldlM kind.call { alg := .new name maxSize, victims := [] }

/-- `replace` is called on non-empty tables only. -/
def ReplacesNonempty (kind : CacheAlg) (name : Text) (maxSize : ℕ) (calls : List CacheCall) :
    Prop :=
  ∀ before m dist rest, calls = before ++ .replace m dist :: rest →
    ∀ run, kind.runCalls name maxSize before = .ok run → run.alg.tagTable ≠ []

/-! ## The calls keep a log -/

variable {kind : CacheAlg} {dist : UniformDraw} {alg : ReplAlg} {name : Text} {maxSize : ℕ}
  {calls : List CacheCall}

/-- `evictNext` of an algorithm. -/
def evictNext : CacheAlg → UniformDraw → ReplAlg → ℕ
  | fifo, _ => FifoAlg.evictNext
  | random, dist => RandomAlg.evictNext dist

theorem evictNext_lt (kind : CacheAlg) (dist : UniformDraw) (nonempty : alg.tagTable ≠ []) :
    kind.evictNext dist alg < alg.tagTable.length := by
  have pos := List.length_pos_iff.mpr nonempty
  cases kind with
  | fifo => exact pos
  | random =>
      have bound := (dist.inRange 0 ((alg.tagTable.length + 2 ^ 64 - 1) % 2 ^ 64 % 2 ^ 32)
        (Nat.zero_le _)).2
      have last : (alg.tagTable.length + 2 ^ 64 - 1) % 2 ^ 64 % 2 ^ 32 ≤
          alg.tagTable.length - 1 := by omega
      show dist.draw 0 _ < _
      omega

theorem newEntryUpdate_tagTable (kind : CacheAlg) (alg : ReplAlg) (m : ℕ) :
    (kind.newEntryUpdate alg m).tagTable = alg.tagTable ++ [(-1, m)] := by
  cases kind <;> rfl

/-- `replace` of a non-empty table. -/
theorem exists_replace (kind : CacheAlg) (dist : UniformDraw) (m : ℕ)
    (nonempty : alg.tagTable ≠ []) :
    ∃ alg', kind.replace dist alg m = .ok (kind.evictNext dist alg, alg') ∧
      alg'.tagTable = alg.tagTable.eraseIdx (kind.evictNext dist alg) ++ [(-1, m)] := by
  have lt := kind.evictNext_lt dist nonempty
  cases kind with
  | fifo => exact ⟨_, if_pos lt, rfl⟩
  | random => exact ⟨_, if_pos lt, rfl⟩

/-- The run of the calls is what the log says. -/
structure Tracks (kind : CacheAlg) (calls : List CacheCall) (run : CacheRun)
    (log : EvictionLog ℕ) : Prop where
  given : log.given = calls.map CacheCall.moduleIndex
  resident : log.resident = run.alg.residents
  victims : log.victims = run.victims
  size : run.alg.tagTable.length = calls.countP CacheCall.isNewEntry
  queue : kind = .fifo → log.IsQueue

theorem ReplacesNonempty.of_append {rest : List CacheCall}
    (nonempty : kind.ReplacesNonempty name maxSize (calls ++ rest)) :
    kind.ReplacesNonempty name maxSize calls := by
  intro before m dist rest' h
  exact nonempty before m dist (rest' ++ rest) (by rw [h]; simp)

theorem residents_of_tagTable {alg' : ReplAlg} {table : List (ℤ × ℕ)} {m : ℕ}
    (h : alg'.tagTable = table ++ [(-1, m)]) :
    alg'.residents = table.map Prod.snd ++ [m] := by
  unfold ReplAlg.residents
  rw [h, List.map_append]
  rfl

/-- **A call keeps the log.** -/
theorem Tracks.call {run : CacheRun} {log : EvictionLog ℕ} (tracks : Tracks kind calls run log)
    (c : CacheCall) (nonempty : c.isNewEntry = false → run.alg.tagTable ≠ []) :
    ∃ run' log', kind.call run c = .ok run' ∧ Tracks kind (calls ++ [c]) run' log' := by
  cases c with
  | newEntryUpdate m =>
      have table := kind.newEntryUpdate_tagTable run.alg m
      refine ⟨_, log.give m, rfl, ?_, ?_, tracks.victims, ?_, fun fifo => (tracks.queue fifo).give m⟩
      · rw [List.map_append, ← tracks.given]
        rfl
      · rw [residents_of_tagTable table, ← ReplAlg.residents, ← tracks.resident]
        rfl
      · rw [table, List.length_append, List.countP_append, tracks.size]
        rfl
  | replace m dist =>
      have nonempty := nonempty rfl
      obtain ⟨alg', replaced, table⟩ := kind.exists_replace dist m nonempty
      have lt : kind.evictNext dist run.alg < log.resident.length := by
        rw [tracks.resident, ReplAlg.residents, List.length_map]
        exact kind.evictNext_lt dist nonempty
      refine ⟨_, (log.evict _ lt).give m, bind_eq_ok.mpr ⟨_, replaced, rfl⟩, ?_, ?_, ?_, ?_, ?_⟩
      · rw [List.map_append, ← tracks.given]
        rfl
      · rw [residents_of_tagTable table, ← List.eraseIdx_map, ← ReplAlg.residents,
          ← tracks.resident]
        rfl
      · show log.victims ++ [log.resident[kind.evictNext dist run.alg]] = _
        dsimp only
        rw [← tracks.resident, List.getElem?_eq_getElem lt, tracks.victims]
        rfl
      · have pos := List.length_pos_iff.mpr nonempty
        have size := tracks.size
        rw [table, List.length_append, List.countP_append,
          List.length_eraseIdx_of_lt (kind.evictNext_lt dist nonempty)]
        show run.alg.tagTable.length - 1 + 1 = calls.countP CacheCall.isNewEntry + 0
        omega
      · rintro rfl
        exact ((tracks.queue rfl).evict lt).give m

/-- **A sequence of calls keeps a log.** -/
theorem exists_tracks (nonempty : kind.ReplacesNonempty name maxSize calls) :
    ∃ run log, kind.runCalls name maxSize calls = .ok run ∧ Tracks kind calls run log := by
  induction calls using List.reverseRecOn with
  | nil => exact ⟨_, .start, rfl, rfl, rfl, rfl, rfl, fun _ => EvictionLog.isQueue_start⟩
  | append_singleton calls c ih =>
      obtain ⟨run, log, hrun, tracks⟩ := ih nonempty.of_append
      obtain ⟨run', log', hcall, tracks'⟩ := tracks.call c fun replace => by
        cases c with
        | newEntryUpdate m => cases replace
        | replace m dist => exact nonempty calls m dist [] rfl run hrun
      refine ⟨run', log', ?_, tracks'⟩
      unfold runCalls at hrun ⊢
      rw [List.foldlM_append, hrun, Machine.ok_bind, List.foldlM_cons, hcall]
      rfl

/-- **The replacement algorithms lose nothing.**  Along every sequence of calls that replaces
on non-empty tables only, whatever numbers are drawn: the size of the table is the number of
calls of `newEntryUpdate`, the modules given are the residents and the victims, the residents
stand in the order in which they were given, and `replace` returns the index its victim had.
Under `fifoAlg` the victims are the oldest, and the residents the most recent. -/
theorem conserves (kind : CacheAlg) (name : Text) (maxSize : ℕ) (calls : List CacheCall)
    (nonempty : kind.ReplacesNonempty name maxSize calls) :
    ∃ run, kind.runCalls name maxSize calls = .ok run ∧
      run.alg.tagTable.length = calls.countP CacheCall.isNewEntry ∧
      (run.alg.residents ++ run.victims).Perm (calls.map CacheCall.moduleIndex) ∧
      run.alg.residents.Sublist (calls.map CacheCall.moduleIndex) ∧
      (∀ before m dist rest, calls = before ++ .replace m dist :: rest →
        ∃ run' alg index victim, kind.runCalls name maxSize before = .ok run' ∧
          kind.replace dist run'.alg m = .ok (index, alg) ∧
          run'.alg.tagTable[index]? = some victim ∧
          alg.tagTable = run'.alg.tagTable.eraseIdx index ++ [(-1, m)] ∧
          (kind = .fifo → index = 0)) ∧
      (kind = .fifo → calls.map CacheCall.moduleIndex = run.victims ++ run.alg.residents) := by
  obtain ⟨run, log, hrun, tracks⟩ := exists_tracks nonempty
  refine ⟨run, hrun, tracks.size, ?_, ?_, ?_, fun fifo => ?_⟩
  · rw [← tracks.resident, ← tracks.victims, ← tracks.given]
    exact log.conserved
  · rw [← tracks.resident, ← tracks.given]
    exact log.sublist
  · rintro before m dist rest rfl
    obtain ⟨run', -, hrun', -⟩ := exists_tracks nonempty.of_append
    have here := nonempty before m dist rest rfl run' hrun'
    obtain ⟨alg, replaced, table⟩ := kind.exists_replace dist m here
    refine ⟨run', alg, _, _, hrun', replaced,
      List.getElem?_eq_getElem (kind.evictNext_lt dist here), table, ?_⟩
    rintro rfl
    rfl
  · rw [← tracks.resident, ← tracks.victims, ← tracks.given]
    exact tracks.queue fifo

end CacheAlg

/-- The distribution that always draws its upper bound. -/
def UniformDraw.upper : UniformDraw := ⟨fun _ b => b, fun _ b h => ⟨h, Nat.le_refl b⟩⟩

namespace CacheAlg

/-- Two modules, of which the second one is evicted. -/
theorem conserves_twoModules :
    ∃ run, random.runCalls [] 4 [.newEntryUpdate 3, .newEntryUpdate 5, .replace 7 .upper] =
        .ok run ∧ run.alg.residents = [3, 7] ∧ run.victims = [5] ∧
          (run.alg.residents ++ run.victims).Perm [3, 5, 7] := by
  obtain ⟨run, hrun, -, conserved, -⟩ := conserves .random [] 4
    [.newEntryUpdate 3, .newEntryUpdate 5, .replace 7 .upper] (by
      rintro (_ | ⟨c, _ | ⟨c', _ | ⟨c'', before⟩⟩⟩) m dist rest h run hrun
      · cases h
      · cases h
      · cases h
        cases hrun
        exact List.cons_ne_nil _ _
      · simp at h)
  cases hrun
  exact ⟨_, rfl, rfl, rfl, conserved⟩

end CacheAlg

end Drachma
