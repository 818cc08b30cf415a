import Drachma.Capabilities
import Mathlib.Data.Fin.VecNotation

/-!
# The choice of a region

`getRrForTask` pops regions from the queue of the task's type until one is not
executing.  The queue is a copy, and the method is `const`: the answer is all
there is to a call.

`FreeFor` says which regions the search may return.  It finds one whenever there
is one, and it finds a region of the *greatest* flexibility among them: the
comparator of the queue is `<`, under which the top of a priority queue is its
greatest element, although both the comparator and the queue are named after the
minimum.

## Main results

* `LftFeSelector.finds_free_region` — a free region is found exactly when there is
  one.
* `LftFeSelector.least_flexible_iff` — the region found is the least flexible
  exactly when all free regions are equally flexible.
-/

namespace Drachma

open Machine (LookupMap PriorityQueue bind_eq_ok)

variable {S : Type} {n : ℕ} {Node : Type} [GraphNode Node]

/-- The region can run tasks of type `t` and is not executing. -/
def RrSpecMap.FreeFor (rrSpecMap : RrSpecMap S) (exeBus : Bus n Bool) (t : String) (r : ℕ) :
    Prop :=
  rrSpecMap.CanRun r t ∧ exeBus.read r = .ok false

/-- Every region has a bit on the bus. -/
def RrSpecMap.CoveredBy (rrSpecMap : RrSpecMap S) (n : ℕ) : Prop :=
  ∀ r ∈ rrSpecMap.keys, r < n

namespace LftFeSelector

/-! ## The search -/

section Search

variable {exeBus : Bus n Bool} {fuel : ℕ} {queue : LfRrModuleMinPq} {r f : ℕ}

theorem firstIdleRr_succ_of_top (top : queue.top? = some (r, f)) :
    firstIdleRr exeBus (fuel + 1) queue =
      exeBus.read r >>= fun busy =>
        if busy then firstIdleRr exeBus fuel queue.pop else .ok (true, r) := by
  rw [firstIdleRr, top]

theorem firstIdleRr_of_empty (empty : queue.top? = none) :
    firstIdleRr exeBus fuel queue = .ok (false, 0) := by
  cases fuel with
  | zero => rfl
  | succ fuel => rw [firstIdleRr, empty]

/-- The comparator of the queue compares flexibilities. -/
theorem isStrictWeak_minPairCompare :
    PriorityQueue.IsStrictWeak (minPairCompare (S := ℕ)) :=
  PriorityQueue.isStrictWeak_of_key Prod.snd

/-- What the search returns is idle, and of the greatest flexibility among the idle. -/
theorem mem_of_firstIdleRr (found : firstIdleRr exeBus fuel queue = .ok (true, r)) :
    ∃ f, (r, f) ∈ queue.items ∧ exeBus.read r = .ok false ∧
      ∀ x ∈ queue.items, exeBus.read x.1 = .ok false → x.2 ≤ f := by
  induction fuel generalizing queue with
  | zero => cases found
  | succ fuel ih =>
      cases top : queue.top? with
      | none => rw [firstIdleRr_of_empty top] at found; cases found
      | some a =>
          obtain ⟨r', f⟩ := a
          rw [firstIdleRr_succ_of_top top, bind_eq_ok] at found
          obtain ⟨busy, hbusy, found⟩ := found
          cases busy with
          | true =>
              -- the popped region is busy, so what holds of the rest holds of all
              obtain ⟨f', hmem, hidle, hmax⟩ := ih found
              refine ⟨f', PriorityQueue.mem_of_mem_pop top hmem, hidle, fun x hx hxidle => ?_⟩
              refine hmax x (PriorityQueue.mem_pop_of_ne top hx ?_) hxidle
              rintro rfl
              cases hbusy.symm.trans hxidle
          | false =>
              cases found
              refine ⟨f, PriorityQueue.mem_of_top? isStrictWeak_minPairCompare top, hbusy,
                fun x hx _ => ?_⟩
              obtain ⟨_, _, -, -, unexceeded⟩ :=
                PriorityQueue.of_top?_eq_some isStrictWeak_minPairCompare top
              simpa [minPairCompare] using unexceeded x hx

/-- A search with enough fuel that finds nothing has found every region busy. -/
theorem busy_of_firstIdleRr (enough : queue.size ≤ fuel) {v : ℕ}
    (notFound : firstIdleRr exeBus fuel queue = .ok (false, v)) :
    v = 0 ∧ ∀ x ∈ queue.items, exeBus.read x.1 = .ok true := by
  induction fuel generalizing queue with
  | zero =>
      cases notFound
      have : queue.items = [] := List.eq_nil_of_length_eq_zero (Nat.le_zero.mp enough)
      simp [this]
  | succ fuel ih =>
      cases top : queue.top? with
      | none =>
          rw [firstIdleRr_of_empty top] at notFound
          cases notFound
          simp [PriorityQueue.top?_eq_none.mp top]
      | some a =>
          obtain ⟨r', f⟩ := a
          rw [firstIdleRr_succ_of_top top, bind_eq_ok] at notFound
          obtain ⟨busy, hbusy, notFound⟩ := notFound
          cases busy with
          | false => cases notFound
          | true =>
              have shrunk := PriorityQueue.size_pop isStrictWeak_minPairCompare top
              obtain ⟨hv, hall⟩ := ih (by omega) notFound
              refine ⟨hv, fun x hx => ?_⟩
              by_cases h : x = (r', f)
              · rw [h]; exact hbusy
              · exact hall x (PriorityQueue.mem_pop_of_ne top hx h)

/-- The search does not fault on a bus that covers the queue. -/
theorem firstIdleRr_isOk (covered : ∀ x ∈ queue.items, x.1 < n) :
    ∃ answer, firstIdleRr exeBus fuel queue = .ok answer := by
  induction fuel generalizing queue with
  | zero => exact ⟨_, rfl⟩
  | succ fuel ih =>
      cases top : queue.top? with
      | none => exact ⟨_, firstIdleRr_of_empty top⟩
      | some a =>
          obtain ⟨r, f⟩ := a
          have mem := PriorityQueue.mem_of_top? isStrictWeak_minPairCompare top
          have hread : exeBus.read r = .ok (exeBus ⟨r, covered _ mem⟩) :=
            Bus.read_eq_ok.mpr ⟨covered _ mem, rfl⟩
          rw [firstIdleRr_succ_of_top top, hread, Machine.ok_bind]
          split
          · apply ih
            intro x hx
            exact covered x (PriorityQueue.mem_of_mem_pop top hx)
          · exact ⟨_, rfl⟩

/-- The search has ended by the time the queue is empty: more fuel changes nothing. -/
theorem firstIdleRr_of_le (enough : queue.size ≤ fuel) :
    firstIdleRr exeBus fuel queue = firstIdleRr exeBus queue.size queue := by
  induction fuel generalizing queue with
  | zero => rw [Nat.le_zero.mp enough]
  | succ fuel ih =>
      cases top : queue.top? with
      | none => rw [firstIdleRr_of_empty top, firstIdleRr_of_empty top]
      | some a =>
          obtain ⟨r, f⟩ := a
          have shrunk := PriorityQueue.size_pop isStrictWeak_minPairCompare top
          rw [firstIdleRr_succ_of_top top, ← shrunk, firstIdleRr_succ_of_top top, ih (by omega)]

end Search

/-! ## The answer -/

variable [LinearOrder S] {rrSpecMap : RrSpecMap S} {capabilities : TaskRrLookupMap}
  {s : LftFeSelector S} {exeBus : Bus n Bool} {task : Node} {t : String}

/-- The search goes through the queue of the task's type. -/
theorem getRrForTask_eq_ok (ht : getTaskTypeId task = .ok t) {answer : Bool × ℕ} :
    s.getRrForTask task exeBus = .ok answer ↔
      ∃ queue, s.taskLftRrMap.find? t = some queue ∧
        firstIdleRr exeBus queue.size queue = .ok answer := by
  unfold getRrForTask
  rw [ht, Machine.ok_bind]
  cases s.taskLftRrMap.find? t with
  | none =>
      constructor
      · intro h; cases h
      · rintro ⟨_, h, -⟩; cases h
  | some queue =>
      constructor
      · intro h; exact ⟨queue, rfl, h⟩
      · rintro ⟨_, h, answers⟩; cases h; exact answers

/-- A region that is returned is free. -/
theorem freeFor_of_getRrForTask
    (derived : Application.getRrTaskCapabilites rrSpecMap = .ok capabilities)
    (made : LftFeSelector.new capabilities rrSpecMap = .ok s)
    (ht : getTaskTypeId task = .ok t) {r : ℕ}
    (found : s.getRrForTask task exeBus = .ok (true, r)) :
    rrSpecMap.FreeFor exeBus t r ∧
      ∀ r', rrSpecMap.FreeFor exeBus t r' → rrSpecMap.flexibility r' ≤ rrSpecMap.flexibility r := by
  obtain ⟨queue, hqueue, search⟩ := (getRrForTask_eq_ok ht).mp found
  have mem := find?_taskLftRrMap derived made hqueue
  obtain ⟨f, hmem, hidle, hmax⟩ := mem_of_firstIdleRr search
  obtain ⟨hcan, rfl⟩ := (mem r f).mp hmem
  refine ⟨⟨hcan, hidle⟩, ?_⟩
  rintro r' ⟨hcan', hidle'⟩
  exact hmax _ ((mem r' _).mpr ⟨hcan', rfl⟩) hidle'

/-- A search that returns no region returns the region id 0, and there is none to return. -/
theorem busy_of_getRrForTask
    (derived : Application.getRrTaskCapabilites rrSpecMap = .ok capabilities)
    (made : LftFeSelector.new capabilities rrSpecMap = .ok s)
    (ht : getTaskTypeId task = .ok t) {v : ℕ}
    (notFound : s.getRrForTask task exeBus = .ok (false, v)) :
    v = 0 ∧ ∀ r, rrSpecMap.CanRun r t → exeBus.read r = .ok true := by
  obtain ⟨queue, hqueue, search⟩ := (getRrForTask_eq_ok ht).mp notFound
  obtain ⟨hv, hbusy⟩ := busy_of_firstIdleRr (Nat.le_refl _) search
  refine ⟨hv, fun r hcan => ?_⟩
  exact hbusy _ ((find?_taskLftRrMap derived made hqueue r _).mpr ⟨hcan, rfl⟩)

/-- Every type of the capability map has a queue. -/
theorem exists_queue
    (derived : Application.getRrTaskCapabilites rrSpecMap = .ok capabilities)
    (made : LftFeSelector.new capabilities rrSpecMap = .ok s) (known : t ∈ capabilities.keys) :
    ∃ queue, s.taskLftRrMap.find? t = some queue := by
  rw [← Option.ne_none_iff_exists']
  exact fun hnone => (find?_taskLftRrMap_eq_none derived made).mp hnone known

/-- The search answers, for a known type and on a bus that covers the regions. -/
theorem getRrForTask_isOk (exeBus : Bus n Bool)
    (derived : Application.getRrTaskCapabilites rrSpecMap = .ok capabilities)
    (made : LftFeSelector.new capabilities rrSpecMap = .ok s)
    (covered : rrSpecMap.CoveredBy n) (ht : getTaskTypeId task = .ok t)
    (known : t ∈ capabilities.keys) :
    ∃ answer, s.getRrForTask task exeBus = .ok answer := by
  obtain ⟨queue, hqueue⟩ := exists_queue derived made known
  have covers : ∀ x ∈ queue.items, x.1 < n := by
    rintro ⟨r, f⟩ hx
    exact covered r ((find?_taskLftRrMap derived made hqueue r f).mp hx).1.mem_keys
  obtain ⟨answer, search⟩ := firstIdleRr_isOk covers
  exact ⟨answer, (getRrForTask_eq_ok ht).mpr ⟨queue, hqueue, search⟩⟩

theorem getRrForTask_of_unknown
    (derived : Application.getRrTaskCapabilites rrSpecMap = .ok capabilities)
    (made : LftFeSelector.new capabilities rrSpecMap = .ok s)
    (ht : getTaskTypeId task = .ok t) (unknown : t ∉ capabilities.keys) :
    s.getRrForTask task exeBus =
      .error (.userError "Task encountered without bitstream able to handle it.") := by
  unfold getRrForTask
  rw [ht, Machine.ok_bind, (find?_taskLftRrMap_eq_none derived made).mpr unknown]

theorem twoSpeeds_covered : twoSpeeds.CoveredBy 2 := by
  unfold RrSpecMap.CoveredBy
  decide

/-- **A free region is found exactly when there is one.**  For a type of the
capability map the search ends, by the time its copy of the queue is empty: with a
free region if there is one, with `{ false, 0 }` if every capable region is
executing.  It raises `userError` exactly on the other types.  Another task of the
type gets the same answer. -/
theorem finds_free_region
    (derived : Application.getRrTaskCapabilites rrSpecMap = .ok capabilities)
    (made : LftFeSelector.new capabilities rrSpecMap = .ok s)
    (covered : rrSpecMap.CoveredBy n) (exeBus : Bus n Bool) (task : Node)
    (ht : getTaskTypeId task = .ok t) :
    (t ∈ capabilities.keys →
      ((∃ r, rrSpecMap.FreeFor exeBus t r) →
        ∃ r, rrSpecMap.FreeFor exeBus t r ∧ s.getRrForTask task exeBus = .ok (true, r)) ∧
      ((∀ r, rrSpecMap.CanRun r t → exeBus.read r = .ok true) →
        s.getRrForTask task exeBus = .ok (false, 0)) ∧
      ∃ queue, s.taskLftRrMap.find? t = some queue ∧
        ∀ fuel, queue.size ≤ fuel →
          firstIdleRr exeBus fuel queue = s.getRrForTask task exeBus) ∧
    ((∃ message, s.getRrForTask task exeBus = .error (.userError message)) ↔
      t ∉ capabilities.keys) ∧
    ∀ {Node' : Type} [GraphNode Node'] (task' : Node'), getTaskTypeId task' = .ok t →
      s.getRrForTask task' exeBus = s.getRrForTask task exeBus := by
  refine ⟨fun known => ⟨?_, ?_, ?_⟩, ⟨?_, ?_⟩, ?_⟩
  · -- an answer without a region would say that the free one is executing
    rintro ⟨r, hcan, hidle⟩
    obtain ⟨⟨found, r'⟩, answer⟩ := getRrForTask_isOk exeBus derived made covered ht known
    by_cases h : found = true
    · subst h
      exact ⟨r', (freeFor_of_getRrForTask derived made ht answer).1, answer⟩
    · rw [eq_false_of_ne_true h] at answer
      have busy := (busy_of_getRrForTask derived made ht answer).2 r hcan
      cases hidle.symm.trans busy
  · intro busy
    obtain ⟨⟨found, r⟩, answer⟩ := getRrForTask_isOk exeBus derived made covered ht known
    by_cases h : found = true
    · subst h
      obtain ⟨hcan, hidle⟩ := (freeFor_of_getRrForTask derived made ht answer).1
      cases hidle.symm.trans (busy r hcan)
    · rw [eq_false_of_ne_true h] at answer
      rw [answer, (busy_of_getRrForTask derived made ht answer).1]
  · obtain ⟨queue, hqueue⟩ := exists_queue derived made known
    refine ⟨queue, hqueue, fun fuel enough => ?_⟩
    unfold getRrForTask
    rw [ht, Machine.ok_bind, hqueue]
    exact firstIdleRr_of_le enough
  · rintro ⟨message, raised⟩ known
    obtain ⟨answer, hanswer⟩ := getRrForTask_isOk exeBus derived made covered ht known
    cases raised.symm.trans hanswer
  · intro unknown
    exact ⟨_, getRrForTask_of_unknown derived made ht unknown⟩
  · intro Node' _ task' ht'
    unfold getRrForTask
    rw [ht, ht']

/-- With region 1 executing, the search goes on to region 0. -/
theorem finds_free_region_twoSpeeds :
    ∃ capabilities s,
      Application.getRrTaskCapabilites twoSpeeds = .ok capabilities ∧
      LftFeSelector.new capabilities twoSpeeds = .ok s ∧
      ∃ r, twoSpeeds.FreeFor ![false, true] "a" r ∧
        s.getRrForTask (LoneTask.mk "a") ![false, true] = .ok (true, r) := by
  refine ⟨_, _, rfl, rfl, ?_⟩
  have answered := finds_free_region (t := "a") rfl rfl twoSpeeds_covered
    ![false, true] (LoneTask.mk "a") rfl
  exact (answered.1 (by decide)).1 ⟨0, by decide, rfl⟩

/-- **The comparator is the wrong way round.**  The region found is the least flexible
of the free ones exactly when these are all equally flexible. -/
theorem least_flexible_iff
    (derived : Application.getRrTaskCapabilites rrSpecMap = .ok capabilities)
    (made : LftFeSelector.new capabilities rrSpecMap = .ok s)
    (covered : rrSpecMap.CoveredBy n) (exeBus : Bus n Bool) (task : Node)
    (ht : getTaskTypeId task = .ok t) (runs : ∃ r, rrSpecMap.CanRun r t) :
    (∀ r, s.getRrForTask task exeBus = .ok (true, r) →
      ∀ r', rrSpecMap.FreeFor exeBus t r' →
        rrSpecMap.flexibility r ≤ rrSpecMap.flexibility r') ↔
    ∀ r r', rrSpecMap.FreeFor exeBus t r → rrSpecMap.FreeFor exeBus t r' →
      rrSpecMap.flexibility r = rrSpecMap.flexibility r' := by
  constructor
  · intro least
    obtain ⟨⟨found, top⟩, answer⟩ := getRrForTask_isOk exeBus derived made covered ht
      ((RrSpecMap.mem_keys_capabilities derived).mpr runs)
    -- the region found is both of the least and of the greatest flexibility
    have pinned : ∀ r, rrSpecMap.FreeFor exeBus t r →
        rrSpecMap.flexibility r = rrSpecMap.flexibility top := by
      rintro r hr
      by_cases h : found = true
      · subst h
        have greatest := (freeFor_of_getRrForTask derived made ht answer).2 r hr
        exact Nat.le_antisymm greatest (least top answer r hr)
      · rw [eq_false_of_ne_true h] at answer
        have busy := (busy_of_getRrForTask derived made ht answer).2 r hr.1
        cases hr.2.symm.trans busy
    intro r r' hr hr'
    rw [pinned r hr, pinned r' hr']
  · intro equal r found r' hr'
    exact (equal r r' (freeFor_of_getRrForTask derived made ht found).1 hr').le

/-- With region 1 executing, region 0 is the only free region. -/
theorem least_flexible_iff_twoSpeeds :
    ∃ capabilities s,
      Application.getRrTaskCapabilites twoSpeeds = .ok capabilities ∧
      LftFeSelector.new capabilities twoSpeeds = .ok s ∧
      ((∀ r, s.getRrForTask (LoneTask.mk "a") ![false, true] = .ok (true, r) →
        ∀ r', twoSpeeds.FreeFor ![false, true] "a" r' →
          twoSpeeds.flexibility r ≤ twoSpeeds.flexibility r') ↔
      ∀ r r', twoSpeeds.FreeFor ![false, true] "a" r → twoSpeeds.FreeFor ![false, true] "a" r' →
        twoSpeeds.flexibility r = twoSpeeds.flexibility r') :=
  ⟨_, _, rfl, rfl, least_flexible_iff rfl rfl twoSpeeds_covered ![false, true] (LoneTask.mk "a") rfl
    ⟨0, by decide⟩⟩

/-- **The more flexible region is taken**: both regions are free, region 0 can host one
task type and region 1 two, and region 1 is the answer. -/
theorem most_flexible_found :
    ∃ capabilities s,
      Application.getRrTaskCapabilites twoSpeeds = .ok capabilities ∧
      LftFeSelector.new capabilities twoSpeeds = .ok s ∧
      s.getRrForTask (LoneTask.mk "a") ![false, false] = .ok (true, 1) ∧
      twoSpeeds.FreeFor ![false, false] "a" 0 ∧
        twoSpeeds.flexibility 0 < twoSpeeds.flexibility 1 :=
  ⟨_, _, rfl, rfl, rfl, ⟨by decide, rfl⟩, by decide⟩

end LftFeSelector

end Drachma
