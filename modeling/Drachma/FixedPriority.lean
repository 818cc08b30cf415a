import Drachma.BitstreamChoice

/-!
# The selector as an arbiter

`getBitstreamForTask` pops regions off a copy of a queue until one is not executing, and then
looks for a bitstream in that region.  Neither the queues nor the tables change, so what is
behind the calls is a fixed ranking of the regions that can run a task type, each with its
bitstream: whatever the signals, the answer is the first entry of the ranking whose region is
not executing.

It follows that a choice stands when other regions start to execute.

## Main results

* `LftFeSelector.fixed_priority` — the ranking of a task type, and the answers by it.
* `LftFeSelector.getBitstreamForTask_of_busier` — the choice on a busier bus.
-/

namespace Drachma

open Machine (LookupMap PriorityQueue)

variable {S : Type} [LinearOrder S]

/-- The entry of a ranking that is chosen: the first one whose region is not executing. -/
def firstFree {n : ℕ} (exeBus : Bus n Bool) (ranking : List (ℕ × ModuleSpec S)) :
    Bool × ModuleSpec S :=
  match ranking.find? fun entry => exeBus.read entry.1 = .ok false with
  | some entry => (true, entry.2)
  | none => (false, ModuleSpec.default S)

omit [LinearOrder S] in
theorem firstFree_map {n : ℕ} (exeBus : Bus n Bool) (bitstream : ℕ → ModuleSpec S)
    (regions : List (ℕ × ℕ)) :
    firstFree exeBus (regions.map fun x => (x.1, bitstream x.1)) =
      match regions.find? fun x => exeBus.read x.1 = .ok false with
      | some x => (true, bitstream x.1)
      | none => (false, ModuleSpec.default S) := by
  have comp : ((fun entry : ℕ × ModuleSpec S => decide (exeBus.read entry.1 = .ok false)) ∘
      fun x : ℕ × ℕ => (x.1, bitstream x.1)) = fun x => decide (exeBus.read x.1 = .ok false) := rfl
  unfold firstFree
  rw [List.find?_map, comp]
  cases regions.find? fun x => exeBus.read x.1 = .ok false with
  | some x => rfl
  | none => rfl

/-- **A ranking for a task type**: the regions that can run it, each once, the more flexible
ones first, and a module for it in each. -/
structure RrSpecMap.Ranking (rrSpecMap : RrSpecMap S) (t : String)
    (ranking : List (ℕ × ModuleSpec S)) : Prop where
  regions : ∀ r, r ∈ ranking.map Prod.fst ↔ rrSpecMap.CanRun r t
  nodup : (ranking.map Prod.fst).Nodup
  order : ranking.Pairwise fun entry later =>
    rrSpecMap.flexibility later.1 ≤ rrSpecMap.flexibility entry.1
  modules : ∀ entry ∈ ranking, rrSpecMap.Holds entry.1 entry.2 ∧ entry.2.Runs t

namespace LftFeSelector

variable {n : ℕ} {Node : Type} [GraphNode Node] {exeBus : Bus n Bool} {queue : LfRrModuleMinPq}
  {fuel : ℕ}

/-- The loop goes through the regions in the order in which they are popped. -/
theorem firstIdleRr_eq_find? (covered : ∀ x ∈ queue.items, x.1 < n) :
    firstIdleRr exeBus fuel queue = .ok
      (match (queue.drain fuel).find? fun x => exeBus.read x.1 = .ok false with
        | some x => (true, x.1)
        | none => (false, 0)) := by
  induction fuel generalizing queue with
  | zero => rfl
  | succ fuel ih =>
      cases top : queue.top? with
      | none => rw [firstIdleRr_of_empty top, PriorityQueue.drain_of_empty top]; rfl
      | some x =>
          obtain ⟨r, f⟩ := x
          have mem := PriorityQueue.mem_of_top? isStrictWeak_minPairCompare top
          have hread : exeBus.read r = .ok (exeBus ⟨r, covered _ mem⟩) :=
            Bus.read_eq_ok.mpr ⟨covered _ mem, rfl⟩
          rw [firstIdleRr_succ_of_top top, PriorityQueue.drain_succ_of_top top, hread,
            Machine.ok_bind]
          cases busy : exeBus ⟨r, covered _ mem⟩ with
          | true =>
              rw [if_pos rfl, List.find?_cons_of_neg (by simp [hread, busy])]
              exact ih fun x hx => covered x (PriorityQueue.mem_of_mem_pop top hx)
          | false =>
              rw [if_neg Bool.false_ne_true, List.find?_cons_of_pos (by simp [hread, busy])]

variable {rrSpecMap : RrSpecMap S} {capabilities : TaskRrLookupMap} {s : LftFeSelector S}
  {t : String} {r : ℕ} {task : Node}

/-- The bitstream of a region depends on the task type only. -/
theorem exists_bitstream_of_region
    (derived : Application.getRrTaskCapabilites rrSpecMap = .ok capabilities)
    (made : LftFeSelector.new capabilities rrSpecMap = .ok s) (runs : rrSpecMap.CanRun r t) :
    ∃ b, (rrSpecMap.Holds r b ∧ b.Runs t) ∧
      ∀ {n : ℕ} {Node : Type} [GraphNode Node] (exeBus : Bus n Bool) (task : Node),
        getTaskTypeId task = .ok t → s.getRrForTask task exeBus = .ok (true, r) →
          s.getBitstreamForTask task exeBus = .ok (true, b) := by
  obtain ⟨x, first⟩ := RrSpecMap.exists_firstSlowest (RrSpecMap.canRun_iff_select.mp runs)
  obtain ⟨-, -, b, hb, hruns⟩ := RrSpecMap.mem_select.mp first.mem
  obtain ⟨task, htask, htype, -⟩ := hruns
  refine ⟨b, ⟨⟨_, hb⟩, task, htask, htype⟩, fun {n Node} _ exeBus task ht found => ?_⟩
  obtain ⟨x', b', first', hb', -, answer⟩ := getBitstreamForTask_of_found derived made ht found
  obtain rfl := first'.unique first
  obtain rfl := Option.some.inj (hb'.symm.trans hb)
  exact answer

section Answers

variable (derived : Application.getRrTaskCapabilites rrSpecMap = .ok capabilities)
  (made : LftFeSelector.new capabilities rrSpecMap = .ok s)
  (hqueue : s.taskLftRrMap.find? t = some queue)

include derived made hqueue

/-- The regions of a queue of the selector, in the order in which they are popped. -/
theorem mem_drain_iff : r ∈ (queue.drain queue.size).map Prod.fst ↔ rrSpecMap.CanRun r t := by
  have perm := PriorityQueue.drain_perm isStrictWeak_minPairCompare (Nat.le_refl queue.size)
  rw [(perm.map Prod.fst).mem_iff, List.mem_map]
  constructor
  · rintro ⟨⟨r, f⟩, mem, rfl⟩
    exact ((find?_taskLftRrMap derived made hqueue r f).mp mem).1
  · intro runs
    exact ⟨_, (find?_taskLftRrMap derived made hqueue r _).mpr ⟨runs, rfl⟩, rfl⟩

theorem nodup_drain : ((queue.drain queue.size).map Prod.fst).Nodup := by
  have perm := PriorityQueue.drain_perm isStrictWeak_minPairCompare (Nat.le_refl queue.size)
  rw [(perm.map Prod.fst).nodup_iff]
  rw [(new_spec derived made).2.2 t, Option.map_eq_some_iff] at hqueue
  obtain ⟨rrs, -, rfl⟩ := hqueue
  unfold RrSpecMap.flexibilityQueue
  rw [List.map_map]
  exact (List.map_id rrs.keys).symm ▸ rrs.nodup

/-- The more flexible regions are popped first. -/
theorem pairwise_flexibility : (queue.drain queue.size).Pairwise fun x later =>
    rrSpecMap.flexibility later.1 ≤ rrSpecMap.flexibility x.1 := by
  have perm := PriorityQueue.drain_perm isStrictWeak_minPairCompare (Nat.le_refl queue.size)
  have flexible : ∀ x ∈ queue.drain queue.size, x.2 = rrSpecMap.flexibility x.1 := by
    rintro ⟨r, f⟩ mem
    exact ((find?_taskLftRrMap derived made hqueue r f).mp (perm.mem_iff.mp mem)).2
  refine (PriorityQueue.pairwise_drain isStrictWeak_minPairCompare (Nat.le_refl _)).imp_of_mem ?_
  intro x later hx hlater unexceeded
  rw [← flexible x hx, ← flexible later hlater]
  simpa [minPairCompare] using unexceeded

/-- The region that is chosen is the first free one that is popped. -/
theorem getRrForTask_eq_find? (exeBus : Bus n Bool) (covered : rrSpecMap.CoveredBy n)
    (ht : getTaskTypeId task = .ok t) :
    s.getRrForTask task exeBus = .ok
      (match (queue.drain queue.size).find? fun x => exeBus.read x.1 = .ok false with
        | some x => (true, x.1)
        | none => (false, 0)) := by
  refine (getRrForTask_eq_ok ht).mpr ⟨queue, hqueue, firstIdleRr_eq_find? ?_⟩
  rintro ⟨r, f⟩ mem
  exact covered r ((find?_taskLftRrMap derived made hqueue r f).mp mem).1.mem_keys

end Answers

/-- **The selector is an arbiter with fixed priorities.**  For every task type of the
capability map there is a ranking, by which every call for a task of the type is answered. -/
theorem fixed_priority (derived : Application.getRrTaskCapabilites rrSpecMap = .ok capabilities)
    (made : LftFeSelector.new capabilities rrSpecMap = .ok s) (known : t ∈ capabilities.keys) :
    ∃ ranking, rrSpecMap.Ranking t ranking ∧
      ∀ {n : ℕ} {Node : Type} [GraphNode Node] (exeBus : Bus n Bool) (task : Node),
        rrSpecMap.CoveredBy n → getTaskTypeId task = .ok t →
          s.getBitstreamForTask task exeBus = .ok (firstFree exeBus ranking) := by
  obtain ⟨queue, hqueue⟩ := exists_queue derived made known
  have chosen : ∀ r, ∃ b, rrSpecMap.CanRun r t → (rrSpecMap.Holds r b ∧ b.Runs t) ∧
      ∀ {n : ℕ} {Node : Type} [GraphNode Node] (exeBus : Bus n Bool) (task : Node),
        getTaskTypeId task = .ok t → s.getRrForTask task exeBus = .ok (true, r) →
          s.getBitstreamForTask task exeBus = .ok (true, b) := by
    intro r
    by_cases runs : rrSpecMap.CanRun r t
    · obtain ⟨b, hb⟩ := exists_bitstream_of_region derived made runs
      exact ⟨b, fun _ => hb⟩
    · exact ⟨ModuleSpec.default S, fun h => absurd h runs⟩
  choose bitstream hbitstream using chosen
  have listed : ∀ x ∈ queue.drain queue.size, rrSpecMap.CanRun x.1 t := fun x hx =>
    (mem_drain_iff derived made hqueue).mp (List.mem_map_of_mem hx)
  have regions : ((queue.drain queue.size).map fun x => (x.1, bitstream x.1)).map Prod.fst =
      (queue.drain queue.size).map Prod.fst := by
    rw [List.map_map]
    rfl
  refine ⟨(queue.drain queue.size).map fun x => (x.1, bitstream x.1), ⟨?_, ?_, ?_, ?_⟩, ?_⟩
  · intro r
    rw [regions]
    exact mem_drain_iff derived made hqueue
  · rw [regions]
    exact nodup_drain derived made hqueue
  · rw [List.pairwise_map]
    exact pairwise_flexibility derived made hqueue
  · intro entry hentry
    obtain ⟨x, hx, rfl⟩ := List.mem_map.mp hentry
    exact (hbitstream x.1 (listed x hx)).1
  · intro n Node _ exeBus task covered ht
    have found := getRrForTask_eq_find? derived made hqueue exeBus covered ht
    rw [firstFree_map]
    cases first : (queue.drain queue.size).find? fun x => exeBus.read x.1 = .ok false with
    | some x =>
        rw [first] at found
        exact (hbitstream x.1 (listed x (List.mem_of_find?_eq_some first))).2 exeBus task ht found
    | none =>
        rw [first] at found
        unfold getBitstreamForTask
        rw [found]
        rfl

/-- Two regions can run the type. -/
theorem fixed_priority_twoSpeeds :
    ∃ capabilities s,
      Application.getRrTaskCapabilites twoSpeeds = .ok capabilities ∧
      LftFeSelector.new capabilities twoSpeeds = .ok s ∧
      ∃ ranking, twoSpeeds.Ranking "a" ranking ∧ ∀ exeBus : Bus 2 Bool,
        s.getBitstreamForTask (LoneTask.mk "a") exeBus = .ok (firstFree exeBus ranking) := by
  obtain ⟨capabilities, s, derived, made, known⟩ : ∃ capabilities s,
      Application.getRrTaskCapabilites twoSpeeds = .ok capabilities ∧
      LftFeSelector.new capabilities twoSpeeds = .ok s ∧ "a" ∈ capabilities.keys :=
    ⟨_, _, rfl, rfl, by decide⟩
  obtain ⟨ranking, isRanking, answers⟩ := fixed_priority derived made known
  exact ⟨capabilities, s, derived, made, ranking, isRanking,
    fun exeBus => answers exeBus _ twoSpeeds_covered rfl⟩

/-- **A choice stands when other regions start to execute**: the bus is busier, and the region
that was chosen is still free. -/
theorem getBitstreamForTask_of_busier
    (derived : Application.getRrTaskCapabilites rrSpecMap = .ok capabilities)
    (made : LftFeSelector.new capabilities rrSpecMap = .ok s)
    (covered : rrSpecMap.CoveredBy n) (ht : getTaskTypeId task = .ok t)
    (found : s.getRrForTask task exeBus = .ok (true, r)) {exeBus' : Bus n Bool}
    (busier : ∀ i, exeBus i = true → exeBus' i = true) (free : exeBus'.read r = .ok false) :
    s.getBitstreamForTask task exeBus' = s.getBitstreamForTask task exeBus := by
  obtain ⟨queue, hqueue, -⟩ := (getRrForTask_eq_ok ht).mp found
  have search := getRrForTask_eq_find? derived made hqueue exeBus covered ht
  have search' := getRrForTask_eq_find? derived made hqueue exeBus' covered ht
  have idle : ∀ r, exeBus'.read r = .ok false → exeBus.read r = .ok false := by
    intro r h
    obtain ⟨hlt, hidle⟩ := Bus.read_eq_ok.mp h
    refine Bus.read_eq_ok.mpr ⟨hlt, eq_false_of_ne_true fun busy => ?_⟩
    rw [busier _ busy] at hidle
    cases hidle
  rw [found] at search
  cases first : (queue.drain queue.size).find? fun x => exeBus.read x.1 = .ok false with
  | none =>
      rw [first] at search
      cases search
  | some x =>
      rw [first] at search
      obtain rfl : r = x.1 := by simpa using search
      obtain ⟨-, before, after, hsplit, hbefore⟩ := List.find?_eq_some_iff_append.mp first
      have first' : ((queue.drain queue.size).find? fun x => exeBus'.read x.1 = .ok false) =
          some x := by
        refine List.find?_eq_some_iff_append.mpr
          ⟨decide_eq_true free, before, after, hsplit, fun y hy => ?_⟩
        have hbusy := hbefore y hy
        simp only [Bool.not_eq_true', decide_eq_false_iff_not] at hbusy ⊢
        exact fun h => hbusy (idle _ h)
      rw [first'] at search'
      obtain ⟨b, -, hb⟩ := exists_bitstream_of_region derived made
        (freeFor_of_getRrForTask derived made ht found).1.1
      rw [hb exeBus task ht found, hb exeBus' task ht search']

end LftFeSelector

end Drachma
