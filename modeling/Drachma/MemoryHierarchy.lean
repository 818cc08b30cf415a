import Drachma.Lib.LinkedChain
import Drachma.MemoryLoading
import Drachma.Simulation

/-!
# The memory hierarchy of a memory configuration

The lines for the cache levels of a memory configuration come in any order, and any of
them may be missing.  `buildMemoryHierarchy` collects their values in arrays with a place
for every level, makes the levels up to the highest one mentioned, and links them between
the RR table and the main memory.  The arrays of numbers are not initialised.

## Main results

* `walk_linkHierarchy` — following the links gives the RR table, the cache levels in their
  order, and the main memory.
* `spec_of_foldlM_assign` — what is in the arrays after the loop.
* `hierarchy_asDeclared_iff` — when every level is as the file declares it.
-/

namespace Drachma

open Machine (LinkedHeap bind_eq_ok)

/-! ## Linking the levels -/

/-- A round of the loop that links the cache levels: the last unit linked, and the
units. -/
def linkLevel (acc : ℕ × LinkedHeap StorageUnit) (level : StorageUnit) :
    ℕ × LinkedHeap StorageUnit :=
  let (child, units) := acc.2.alloc level
  (child, units.setChild acc.1 child)

/-- The end of `buildMemoryHierarchy`.  The RR table is at address 0; the main memory is
made before the cache levels, and linked under the last of them. -/
def linkHierarchy (prr : StorageUnit) (caches : List StorageUnit) (mainMemory : StorageUnit) :
    LinkedHeap StorageUnit :=
  let (main, units) := (LinkedHeap.single prr).alloc mainMemory
  let (parent, units) := caches.foldl linkLevel (0, units)
  units.setChild parent main

/-- The levels that are linked, with the main memory at address 1 not among them yet. -/
structure Linked (acc : ℕ × LinkedHeap StorageUnit) (mainMemory : StorageUnit)
    (levels : List StorageUnit) : Prop where
  built : ∃ addresses, acc.2.Built (addresses ++ [acc.1]) levels ∧
    1 ∉ addresses ++ [acc.1] ∧ (addresses ++ [acc.1]).head? = some 0
  main : acc.2.value 1 = mainMemory
  noChild : acc.2.child 1 = none
  made : 1 < acc.2.next

theorem Linked.linkLevel {acc : ℕ × LinkedHeap StorageUnit} {mainMemory : StorageUnit}
    {levels : List StorageUnit} (linked : Linked acc mainMemory levels) (level : StorageUnit) :
    Linked (linkLevel acc level) mainMemory (levels ++ [level]) := by
  obtain ⟨addresses, built, notMain, top⟩ := linked.built
  have fresh : acc.2.next ∉ addresses ++ [acc.1] := fun h => (built.made _ h).false
  have parent : 1 ≠ acc.1 := by
    rintro h
    rw [h] at notMain
    exact notMain (List.mem_append_right _ List.mem_cons_self)
  have old : (1 : ℕ) ≠ acc.2.next := linked.made.ne
  refine ⟨⟨addresses ++ [acc.1], ?_, ?_, ?_⟩, ?_, ?_, ?_⟩
  · have longer := (built.alloc level).setChild (b := acc.2.next) (Function.update_self _ _ _)
      fresh (Nat.lt_succ_self _)
    rw [show (acc.2.alloc level).2.value acc.2.next = level from Function.update_self _ _ _]
      at longer
    rw [List.append_assoc]
    exact longer
  · rw [List.mem_append, not_or]
    exact ⟨notMain, fun h => old (List.mem_singleton.mp h)⟩
  · rw [List.head?_append, top]
    rfl
  · exact (Function.update_of_ne old _ _).trans linked.main
  · exact (Function.update_of_ne parent _ _).trans
      ((Function.update_of_ne old _ _).trans linked.noChild)
  · exact linked.made.trans (Nat.lt_succ_self _)

theorem Linked.foldl_linkLevel {acc : ℕ × LinkedHeap StorageUnit} {mainMemory : StorageUnit}
    {levels : List StorageUnit} (linked : Linked acc mainMemory levels)
    (caches : List StorageUnit) :
    Linked (caches.foldl Drachma.linkLevel acc) mainMemory (levels ++ caches) := by
  induction caches generalizing acc levels with
  | nil => rwa [List.append_nil]
  | cons level caches ih =>
      have rest := ih (linked.linkLevel level)
      rwa [List.append_assoc] at rest

/-- **The list that `associateHierarchy` builds**, as soon as there is fuel for the units. -/
theorem walk_linkHierarchy (prr mainMemory : StorageUnit) (caches : List StorageUnit)
    {fuel : ℕ} (enough : caches.length + 2 ≤ fuel) :
    (linkHierarchy prr caches mainMemory).walk fuel 0 = prr :: caches ++ [mainMemory] := by
  have start : Linked (0, ((LinkedHeap.single prr).alloc mainMemory).2) mainMemory [prr] :=
    ⟨⟨[], (LinkedHeap.Built.single prr).alloc mainMemory, by simp, rfl⟩, rfl, rfl,
      Nat.lt_succ_self 1⟩
  obtain ⟨⟨addresses, built, notMain, top⟩, main, noChild, made⟩ :=
    start.foldl_linkLevel caches
  have linked := built.setChild noChild notMain made
  rw [main] at linked
  have first : ∃ rest, addresses ++ [(caches.foldl linkLevel
      (0, ((LinkedHeap.single prr).alloc mainMemory).2)).1, 1] = 0 :: rest := by
    rw [← List.head?_eq_some_iff, List.append_cons, List.head?_append, top]
    rfl
  obtain ⟨rest, hrest⟩ := first
  rw [hrest] at linked
  have length := congrArg List.length linked.values
  rw [List.length_map, List.length_append, List.length_append, List.length_singleton,
    List.length_singleton, List.length_cons] at length
  show LinkedHeap.walk _ fuel 0 = _
  rw [← List.singleton_append, ← linked.values]
  exact LinkedHeap.walk_of_isChain linked.chain (by omega)

/-! ## What is declared for a level -/

/-- The parameters of a cache level that are numbers. -/
def numberKeys : List Text :=
  ["size".toList, "read latency".toList, "search latency".toList]

theorem mem_levelKeys_of_mem_numberKeys {key : Text} (h : key ∈ numberKeys) : key ∈ levelKeys :=
  List.mem_cons_of_mem _ h

/-- The value that a line gives to a parameter of level `i`. -/
def declaredValue (i : ℕ) (key line : Text) : Option Text :=
  match line with
  | 'l' :: level :: ' ' :: rest =>
      if levelNumber level = i ∧ key ++ [':', ' '] <+: rest then some (rest.drop (key.length + 2))
      else none
  | _ => none

/-- The line marks level `i` as having a table. -/
def marksLut (i : ℕ) (line : Text) : Bool :=
  match line with
  | 'l' :: level :: ' ' :: rest => levelNumber level = i ∧ rest = "has LUT".toList
  | _ => false

/-- The level that a line is about. -/
def lineLevel (line : Text) : ℕ :=
  match line with
  | _ :: level :: _ => levelNumber level
  | _ => 0

/-- The highest level that some lines mention. -/
def highestLevel (lines : List Text) : ℕ := (lines.map lineLevel).foldl max 0

/-- The last value given to a parameter of level `i`. -/
def lastDeclared (i : ℕ) (key : Text) (lines : List Text) : Option Text :=
  (lines.filterMap (declaredValue i key)).getLast?

theorem declaredValue_eq_some {i : ℕ} {key line value : Text} :
    declaredValue i key line = some value ↔
      ∃ level, levelNumber level = i ∧ line = levelLine level key value := by
  unfold declaredValue levelLine
  split
  · rename_i level rest
    by_cases here : levelNumber level = i ∧ key ++ [':', ' '] <+: rest
    · rw [if_pos here]
      obtain ⟨hlevel, value', rfl⟩ := here
      rw [List.append_assoc, ← List.drop_drop, List.drop_left]
      constructor
      · rintro h
        obtain rfl := Option.some.inj h
        exact ⟨level, hlevel, rfl⟩
      · rintro ⟨level', -, h⟩
        have htext := (List.cons.inj (List.cons.inj (List.cons.inj h).2).2).2
        have hrest := List.append_cancel_left htext
        exact congrArg some (List.cons.inj (List.cons.inj hrest).2).2
    · rw [if_neg here]
      constructor
      · intro h
        cases h
      · rintro ⟨level', hlevel, h⟩
        obtain ⟨rfl, hblank⟩ := List.cons.inj (List.cons.inj h).2
        refine absurd ⟨hlevel, value, ?_⟩ here
        rw [(List.cons.inj hblank).2, List.append_assoc]
        rfl
  · rename_i other
    constructor
    · intro h
      cases h
    · rintro ⟨level, -, rfl⟩
      exact absurd rfl (other level _)

/-- What a parameter's line declares. -/
theorem declaredValue_levelLine {level : Char} {i : ℕ} {key key' value : Text}
    (hkey : key ∈ levelKeys) (hkey' : key' ∈ levelKeys) :
    declaredValue i key (levelLine level key' value) =
      if key = key' ∧ i = levelNumber level then some value else none := by
  by_cases here : key = key' ∧ i = levelNumber level
  · rw [if_pos here, declaredValue_eq_some]
    obtain ⟨rfl, rfl⟩ := here
    exact ⟨level, rfl, rfl⟩
  · rw [if_neg here, Option.eq_none_iff_forall_ne_some]
    intro value' h
    obtain ⟨level', rfl, heq⟩ := declaredValue_eq_some.mp h
    obtain ⟨rfl, rfl, -⟩ := levelLine_inj hkey' hkey heq
    exact here ⟨rfl, rfl⟩

/-- The mark of a level declares no value. -/
theorem declaredValue_lutLine {level : Char} (hlevel : IsLevel level) (i : ℕ) (key : Text) :
    declaredValue i key ('l' :: level :: ' ' :: "has LUT".toList) = none := by
  rw [Option.eq_none_iff_forall_ne_some]
  intro value h
  obtain ⟨level', -, heq⟩ := declaredValue_eq_some.mp h
  have colon : ':' ∈ levelLine level' key value := by simp [levelLine]
  rw [← heq] at colon
  have := hlevel.ne_colon
  simp [this.symm] at colon

/-- A parameter's line is no mark. -/
theorem marksLut_levelLine {level : Char} {i : ℕ} {key value : Text} :
    marksLut i (levelLine level key value) = false := by
  unfold levelLine marksLut
  have colon : ¬ (key ++ ':' :: ' ' :: value = "has LUT".toList) := by
    intro h
    have : ':' ∈ "has LUT".toList := by
      rw [← h]
      simp
    revert this
    decide
  simp only [colon, and_false, decide_false]

/-! ## What the loop over the lines collects -/

/-- The three arrays of numbers. -/
def LevelParams.numbers (p : LevelParams) (key : Text) : ℕ → ℤ :=
  if key = "size".toList then p.levelSize
  else if key = "read latency".toList then p.levelRead
  else p.levelSearch

theorem stol_eq_ok {t : Text} {z : ℤ} (h : stol t = .ok z) : readInteger t = some z := by
  unfold stol at h
  split at h
  · cases h
  · rename_i z' hread
    split at h
    · cases h
      exact hread
    · cases h

@[simp] theorem LevelParams.numbers_size (p : LevelParams) : p.numbers "size".toList = p.levelSize :=
  if_pos rfl

@[simp] theorem LevelParams.numbers_read (p : LevelParams) :
    p.numbers "read latency".toList = p.levelRead :=
  (if_neg (by decide)).trans (if_pos rfl)

@[simp] theorem LevelParams.numbers_search (p : LevelParams) :
    p.numbers "search latency".toList = p.levelSearch :=
  (if_neg (by decide)).trans (if_neg (by decide))

/-- A statement about the keys of numbers, key by key. -/
theorem forall_mem_numberKeys {P : Text → Prop} :
    (∀ key ∈ numberKeys, P key) ↔
      P "size".toList ∧ P "read latency".toList ∧ P "search latency".toList := by
  unfold numberKeys
  rw [List.forall_mem_cons, List.forall_mem_cons, List.forall_mem_singleton]

/-- The array of a parameter has its new number, at the place of the level. -/
theorem update_numbers {key param arg : Text} {f : ℕ → ℤ} {n : ℕ} {z : ℤ}
    (same : key = param) (hz : readInteger arg = some z) (i : ℕ) :
    if key = param ∧ i = n then readInteger arg = some (Function.update f n z i)
    else Function.update f n z i = f i := by
  by_cases here : i = n
  · subst here
    rw [if_pos ⟨same, rfl⟩, Function.update_self]
    exact hz
  · rw [if_neg fun h => here h.2]
    exact Function.update_of_ne here _ _

/-- The other arrays are as they were. -/
theorem keep_numbers {key param arg : Text} {f : ℕ → ℤ} {n : ℕ} (other : key ≠ param) (i : ℕ) :
    if key = param ∧ i = n then readInteger arg = some (f i) else f i = f i := by
  rw [if_neg fun h => other h.1]

/-- The arrays after a parameter was assigned. -/
theorem spec_of_assignParam {p p' : LevelParams} {n : ℕ} {param arg : Text}
    (known : param ∈ levelKeys ∨ param = "has LUT".toList)
    (h : p.assignParam n param arg = .ok p') :
    p'.highestLevel = max p.highestLevel n ∧
      (∀ i, p'.lutIndexed i = (p.lutIndexed i || decide (param = "has LUT".toList ∧ i = n))) ∧
        ∀ key ∈ numberKeys, ∀ i,
          if key = param ∧ i = n then readInteger arg = some (p'.numbers key i)
          else p'.numbers key i = p.numbers key i := by
  have highest : (if p.highestLevel < n then n else p.highestLevel) = max p.highestLevel n :=
    (max_def_lt _ _).symm
  have unmarked : ∀ {i : ℕ}, param ≠ "has LUT".toList →
      p.lutIndexed i = (p.lutIndexed i || decide (param = "has LUT".toList ∧ i = n)) := by
    intro i other
    rw [decide_eq_false fun h => other h.1, Bool.or_false]
  unfold LevelParams.assignParam at h
  rw [forall_mem_numberKeys]
  simp only [highest, levelKeys, List.mem_cons, List.not_mem_nil, or_false] at h known
  rcases known with (rfl | rfl | rfl | rfl) | rfl
  · rw [if_pos rfl] at h
    cases h
    refine ⟨rfl, fun i => unmarked (by decide), fun i => ?_, fun i => ?_, fun i => ?_⟩
    all_goals exact keep_numbers (by decide) i
  · rw [if_neg (by decide), if_pos rfl] at h
    obtain ⟨z, hz, h⟩ := bind_eq_ok.mp h
    cases h
    refine ⟨rfl, fun i => unmarked (by decide), fun i => ?_, fun i => ?_, fun i => ?_⟩
    · exact update_numbers rfl (stol_eq_ok hz) i
    · exact keep_numbers (by decide) i
    · exact keep_numbers (by decide) i
  · rw [if_neg (by decide), if_neg (by decide), if_pos rfl] at h
    obtain ⟨z, hz, h⟩ := bind_eq_ok.mp h
    cases h
    refine ⟨rfl, fun i => unmarked (by decide), fun i => ?_, fun i => ?_, fun i => ?_⟩
    · exact keep_numbers (by decide) i
    · exact update_numbers rfl (stol_eq_ok hz) i
    · exact keep_numbers (by decide) i
  · rw [if_neg (by decide), if_neg (by decide), if_neg (by decide), if_pos rfl] at h
    obtain ⟨z, hz, h⟩ := bind_eq_ok.mp h
    cases h
    refine ⟨rfl, fun i => unmarked (by decide), fun i => ?_, fun i => ?_, fun i => ?_⟩
    · exact keep_numbers (by decide) i
    · exact keep_numbers (by decide) i
    · exact update_numbers rfl (stol_eq_ok hz) i
  · rw [if_neg (by decide), if_neg (by decide), if_neg (by decide), if_neg (by decide),
      if_pos rfl] at h
    cases h
    refine ⟨rfl, fun i => ?_, fun i => ?_, fun i => ?_, fun i => ?_⟩
    · by_cases here : i = n
      · subst here
        simp
      · simp [here]
    all_goals exact keep_numbers (by decide) i

theorem highestLevel_append (lines : List Text) (line : Text) :
    highestLevel (lines ++ [line]) = max (highestLevel lines) (lineLevel line) := by
  unfold highestLevel
  rw [List.map_append, List.foldl_append]
  rfl

theorem lastDeclared_append (i : ℕ) (key : Text) (lines : List Text) (line : Text) :
    lastDeclared i key (lines ++ [line]) =
      (declaredValue i key line).or (lastDeclared i key lines) := by
  unfold lastDeclared
  rw [List.filterMap_append]
  cases h : declaredValue i key line with
  | none => simp [h]
  | some value => simp [h]

/-- **What the arrays hold** after some lines: the last value declared for each level, and
what the memory held where there is none. -/
structure Collected (raw : LevelParams) (lines : List Text) (p : LevelParams) : Prop where
  highest : p.highestLevel = highestLevel lines
  lut : ∀ i, p.lutIndexed i = lines.any (marksLut i)
  declared : ∀ key ∈ numberKeys, ∀ i value, lastDeclared i key lines = some value →
    readInteger value = some (p.numbers key i)
  raw : ∀ key ∈ numberKeys, ∀ i, lastDeclared i key lines = none →
    p.numbers key i = raw.numbers key i

/-- A line about `param` at level `n`, as the loop takes it apart. -/
structure TakenApart (line : Text) (n : ℕ) (param arg : Text) : Prop where
  level : lineLevel line = n
  lut : ∀ i, marksLut i line = decide (param = "has LUT".toList ∧ i = n)
  value : ∀ key ∈ numberKeys, ∀ i,
    declaredValue i key line = if key = param ∧ i = n then some arg else none

/-- **The step lemma**: a line of data is taken apart, and its value assigned. -/
theorem exists_takenApart {line : Text}
    (matched : memoryRegex.any (fun regex => regex.fullMatch line) = true) (p : LevelParams) :
    ∃ n param arg, TakenApart line n param arg ∧
      (param ∈ levelKeys ∨ param = "has LUT".toList) ∧ p.assign line = p.assignParam n param arg := by
  obtain ⟨level, hlevel, ⟨key, hkey, c, value, rfl⟩ | rfl⟩ := shape_of_memoryRegex matched
  · refine ⟨levelNumber level, key, c :: value, ⟨rfl, fun i => ?_, fun key' hkey' i => ?_⟩,
      .inl hkey, assign_levelLine hlevel hkey _ p⟩
    · have other : key ≠ "has LUT".toList := by
        rintro rfl
        revert hkey
        decide
      rw [marksLut_levelLine, decide_eq_false fun h => other h.1]
    · exact declaredValue_levelLine (mem_levelKeys_of_mem_numberKeys hkey') hkey
  · obtain ⟨arg, hassign⟩ := assign_lutLine hlevel p
    refine ⟨levelNumber level, "has LUT".toList, arg, ⟨rfl, fun i => ?_, fun key hkey i => ?_⟩,
      .inr rfl, hassign⟩
    · simp only [marksLut, and_true, true_and, eq_comm]
    · have other : key ≠ "has LUT".toList := by
        rintro rfl
        revert hkey
        decide
      rw [declaredValue_lutLine hlevel, if_neg fun h => other h.1]

theorem Collected.assign {raw p p' : LevelParams} {lines : List Text} {line : Text}
    (collected : Collected raw lines p)
    (matched : memoryRegex.any (fun regex => regex.fullMatch line) = true)
    (h : p.assign line = .ok p') : Collected raw (lines ++ [line]) p' := by
  obtain ⟨n, param, arg, apart, known, hassign⟩ := exists_takenApart matched p
  rw [hassign] at h
  obtain ⟨highest, lut, numbers⟩ := spec_of_assignParam known h
  refine ⟨?_, fun i => ?_, fun key hkey i value => ?_, fun key hkey i => ?_⟩
  · rw [highestLevel_append, highest, collected.highest, apart.level]
  · rw [lut, collected.lut, List.any_append, List.any_cons, List.any_nil, Bool.or_false,
      apart.lut]
  · have number := numbers key hkey i
    rw [lastDeclared_append, apart.value key hkey i]
    by_cases here : key = param ∧ i = n
    · rw [if_pos here] at number ⊢
      rintro ⟨⟩
      exact number
    · rw [if_neg here] at number ⊢
      rw [number]
      exact collected.declared key hkey i value
  · have number := numbers key hkey i
    rw [lastDeclared_append, apart.value key hkey i]
    by_cases here : key = param ∧ i = n
    · rw [if_pos here]
      rintro ⟨⟩
    · rw [if_neg here] at number ⊢
      rw [number]
      exact collected.raw key hkey i

/-- **The run lemma**, for the loop over the lines of data. -/
theorem spec_of_foldlM_assign {raw p : LevelParams} {lines : List Text}
    (matched : ∀ line ∈ lines, memoryRegex.any (fun regex => regex.fullMatch line) = true)
    (h : lines.foldlM LevelParams.assign
      { raw with highestLevel := 0, lutIndexed := fun _ => false } = .ok p) :
    Collected raw lines p := by
  induction lines using List.reverseRecOn generalizing p with
  | nil =>
      cases h
      refine ⟨rfl, fun i => rfl, fun key hkey i value none => ?_, fun key hkey i _ => rfl⟩
      cases none
  | append_singleton lines line ih =>
      rw [List.foldlM_append, bind_eq_ok] at h
      obtain ⟨p₁, h₁, h⟩ := h
      obtain ⟨p₂, h₂, h⟩ := bind_eq_ok.mp h
      cases h
      have before := ih (fun l hl => matched l (List.mem_append_left _ hl)) h₁
      exact before.assign (matched line (List.mem_append_right _ List.mem_cons_self)) h₂

/-! ## Hierarchies as declared -/

/-- The lines of a memory configuration for its cache levels. -/
def levelLines (content : Text) : List Text :=
  memoryRules.data (contentLines false (getLines content))

/-- The parameters of a memory configuration. -/
def mainParams (content : Text) : List (Text × Text) :=
  memoryRules.params (contentLines false (getLines content))

/-- The number that is last declared for a parameter of level `i`. -/
def declaredNumber (i : ℕ) (key : Text) (lines : List Text) : Option ℤ :=
  (lastDeclared i key lines).bind readInteger

/-- The level has what is declared for level `i`, each number in the width of its field. -/
structure LevelAsDeclared (lines : List Text) (i : ℕ) (level : MemoryLevel) : Prop where
  size : ∃ z, declaredNumber i "size".toList lines = some z ∧
    level.unitSize = (z % 2 ^ 32).toNat
  read : ∃ z, declaredNumber i "read latency".toList lines = some z ∧
    level.readLatency = (z % 2 ^ 16).toNat
  search : ∃ z, declaredNumber i "search latency".toList lines = some z ∧
    level.searchLatency = (z % 2 ^ 16).toNat
  lut : level.lutIndexed = lines.any (marksLut i)

/-- The main memory has what is declared for it.  It always has a table. -/
structure MainAsDeclared (params : List (Text × Text)) (level : MemoryLevel) : Prop where
  size : ∃ z, readInteger (lastValue "main size".toList params) = some z ∧
    level.unitSize = (z % 2 ^ 32).toNat
  read : ∃ z, readInteger (lastValue "main read latency".toList params) = some z ∧
    level.readLatency = (z % 2 ^ 16).toNat
  search : ∃ z, readInteger (lastValue "main search latency".toList params) = some z ∧
    level.searchLatency = (z % 2 ^ 16).toNat
  lut : level.lutIndexed = true

/-- **The hierarchy is as declared**: the RR table, the levels up to the highest one that
is mentioned, each as it is declared, and the main memory. -/
def HierarchyAsDeclared (content : Text) (units : List StorageUnit) : Prop :=
  ∃ (caches : List MemoryLevel) (main : MemoryLevel),
    units = .regions .empty :: caches.map .level ++ [.level main] ∧
      caches.length = highestLevel (levelLines content) ∧
      (∀ i level, caches[i]? = some level →
        LevelAsDeclared (levelLines content) (i + 1) level) ∧
        MainAsDeclared (mainParams content) main

/-- The file gives a size and both latencies for every level up to the highest one that it
mentions. -/
def DeclaresLevels (content : Text) : Prop :=
  ∀ i, 1 ≤ i → i ≤ highestLevel (levelLines content) → ∀ key ∈ numberKeys,
    ∃ level value, levelNumber level = i ∧ levelLine level key value ∈ levelLines content

theorem exists_lastDeclared_iff {i : ℕ} {key : Text} {lines : List Text} :
    (∃ value, lastDeclared i key lines = some value) ↔
      ∃ level value, levelNumber level = i ∧ levelLine level key value ∈ lines := by
  unfold lastDeclared
  constructor
  · rintro ⟨value, h⟩
    obtain ⟨line, hline, hvalue⟩ := List.mem_filterMap.mp (List.mem_of_getLast? h)
    obtain ⟨level, hlevel, rfl⟩ := declaredValue_eq_some.mp hvalue
    exact ⟨level, value, hlevel, hline⟩
  · rintro ⟨level, value, hlevel, hline⟩
    have mem : value ∈ lines.filterMap (declaredValue i key) :=
      List.mem_filterMap.mpr ⟨_, hline, declaredValue_eq_some.mpr ⟨level, hlevel, rfl⟩⟩
    exact ⟨_, List.getLast?_eq_getLast_of_ne_nil (List.ne_nil_of_mem mem)⟩

/-- A level of the hierarchy, from the arrays. -/
def cacheLevel (p : LevelParams) (i : ℕ) : MemoryLevel :=
  { unitSize := (p.levelSize i % 2 ^ 32).toNat
    readLatency := (p.levelRead i % 2 ^ 16).toNat
    searchLatency := (p.levelSearch i % 2 ^ 16).toNat
    lutIndexed := p.lutIndexed i
    table := fun _ _ => none }

/-- What `buildMemoryHierarchy` returns: the levels of the arrays that were collected. -/
theorem spec_of_buildMemoryHierarchy {raw : LevelParams} {files : Files} {memoryFile : Text}
    {units : List StorageUnit} (built : buildMemoryHierarchy raw files memoryFile = .ok units) :
    ∃ content p main, files memoryFile = some content ∧
      Collected raw (levelLines content) p ∧ MainAsDeclared (mainParams content) main ∧
        (∀ r id, main.table r id = none) ∧ units = .regions .empty ::
          ((List.range p.highestLevel).map fun i => cacheLevel p (i + 1)).map .level ++
            [.level main] := by
  unfold buildMemoryHierarchy at built
  obtain ⟨reader, made, h⟩ := bind_eq_ok.mp built
  obtain ⟨content, hfile, -, -, hread⟩ := FileHandler.spec_of_new made
  by_cases valid : reader.isValid = true
  · rw [if_pos valid, foldl_assign, lastValue_getParams, lastValue_getParams,
      lastValue_getParams, (hread valid).1, (hread valid).2] at h
    obtain ⟨size, hsize, h⟩ := bind_eq_ok.mp h
    obtain ⟨read, hread, h⟩ := bind_eq_ok.mp h
    obtain ⟨search, hsearch, h⟩ := bind_eq_ok.mp h
    obtain ⟨p, hp, h⟩ := bind_eq_ok.mp h
    cases h
    refine ⟨content, p,
      { unitSize := (size % 2 ^ 32).toNat
        readLatency := (read % 2 ^ 16).toNat
        searchLatency := (search % 2 ^ 16).toNat
        lutIndexed := true
        table := fun _ _ => none }, hfile, ?_, ?_, fun _ _ => rfl, ?_⟩
    · exact spec_of_foldlM_assign (fun _ hline => FileRules.matches_of_mem_data hline) hp
    · exact ⟨⟨size, stol_eq_ok hsize, rfl⟩, ⟨read, stol_eq_ok hread, rfl⟩,
        ⟨search, stol_eq_ok hsearch, rfl⟩, rfl⟩
    · rw [List.map_map]
      rfl
  · rw [if_neg valid] at h
    cases h

/-- A level is as declared when all of its numbers are. -/
theorem Collected.levelAsDeclared_iff {raw p : LevelParams} {lines : List Text}
    (collected : Collected raw lines p) (i : ℕ) :
    LevelAsDeclared lines i (cacheLevel p i) ↔
      ∀ key ∈ numberKeys, ∃ value, lastDeclared i key lines = some value := by
  constructor
  · rintro ⟨⟨_, size, -⟩, ⟨_, read, -⟩, ⟨_, search, -⟩, -⟩
    obtain ⟨size, hsize, -⟩ := Option.bind_eq_some_iff.mp size
    obtain ⟨read, hread, -⟩ := Option.bind_eq_some_iff.mp read
    obtain ⟨search, hsearch, -⟩ := Option.bind_eq_some_iff.mp search
    exact forall_mem_numberKeys.mpr ⟨⟨_, hsize⟩, ⟨_, hread⟩, ⟨_, hsearch⟩⟩
  · intro all
    have number : ∀ key ∈ numberKeys, declaredNumber i key lines = some (p.numbers key i) := by
      intro key hkey
      obtain ⟨value, hvalue⟩ := all key hkey
      exact Option.bind_eq_some_iff.mpr
        ⟨value, hvalue, collected.declared key hkey i value hvalue⟩
    obtain ⟨size, read, search⟩ := forall_mem_numberKeys.mp number
    rw [LevelParams.numbers_size] at size
    rw [LevelParams.numbers_read] at read
    rw [LevelParams.numbers_search] at search
    exact ⟨⟨_, size, rfl⟩, ⟨_, read, rfl⟩, ⟨_, search, rfl⟩, collected.lut i⟩

/-- **When the memory hierarchy is as declared**: when the file declares the numbers of
every level that there is. -/
theorem hierarchy_asDeclared_iff {raw : LevelParams} {files : Files} {memoryFile : Text}
    {units : List StorageUnit} (built : buildMemoryHierarchy raw files memoryFile = .ok units) :
    ∃ content caches main, files memoryFile = some content ∧
      units = .regions .empty :: caches ++ [main] ∧
        (∀ fuel ≥ caches.length + 2,
          (linkHierarchy (.regions .empty) caches main).walk fuel 0 = units) ∧
          (HierarchyAsDeclared content units ↔ DeclaresLevels content) := by
  obtain ⟨content, p, main, hfile, collected, hmain, -, rfl⟩ := spec_of_buildMemoryHierarchy built
  refine ⟨content, _, .level main, hfile, rfl, fun fuel enough => walk_linkHierarchy _ _ _ enough,
    ?_⟩
  have declares : DeclaresLevels content ↔ ∀ i, 1 ≤ i → i ≤ p.highestLevel →
      LevelAsDeclared (levelLines content) i (cacheLevel p i) := by
    unfold DeclaresLevels
    simp only [← exists_lastDeclared_iff, collected.levelAsDeclared_iff, collected.highest]
  rw [declares]
  constructor
  · rintro ⟨caches, main', hunits, length, asDeclared, -⟩ i low high
    rw [List.cons_append, List.cons_append] at hunits
    have levels := List.append_inj_left' (List.cons.inj hunits).2 rfl
    have caches := List.map_injective_iff.mpr (fun _ _ h => StorageUnit.level.inj h) levels
    obtain ⟨j, rfl⟩ := Nat.exists_eq_add_of_le' low
    apply asDeclared j
    rw [← caches, List.getElem?_map, List.getElem?_range (by omega)]
    rfl
  · intro all
    refine ⟨_, main, rfl, ?_, fun i level hi => ?_, hmain⟩
    · rw [List.length_map, List.length_range, collected.highest]
    · rw [List.getElem?_map, Option.map_eq_some_iff] at hi
      obtain ⟨j, hj, rfl⟩ := hi
      obtain ⟨high, rfl⟩ := List.getElem?_eq_some_iff.mp hj
      rw [List.length_range] at high
      rw [List.getElem_range]
      exact all (i + 1) (by omega) (by omega)

/-! ## A level without latencies -/

/-- What the arrays hold. -/
def heldParams : LevelParams := ⟨fun _ => 7, fun _ => 7, fun _ => 7, 0, fun _ => false⟩

/-- A cache level with all of its parameters, in some order. -/
def completeText : Text :=
  ("main size: 256000\nmain read latency: 8\nmain search latency: 32\n" ++
    "l1 search latency: 4\nl1 size: 128000\nl1 read latency: 2\nl1 has LUT").toList

/-- The example of a memory configuration, in which the latencies of the cache level are
comments. -/
def realisticText : Text :=
  ("main size: 256000\nmain read latency: 8\nmain search latency: 32\n" ++
    "l1 name: BlockRAM\nl1 size: 128000\n# l1 read latency: 2\n" ++
      "# l1 search latency: 4\nl1 has LUT").toList

/-- Both of them. -/
def memoryFiles : Files := fun name =>
  if name = "complete.mem".toList then some completeText
  else if name = "realistic.mem".toList then some realisticText
  else none

theorem exists_buildMemoryHierarchy_complete :
    ∃ units, buildMemoryHierarchy heldParams memoryFiles "complete.mem".toList = .ok units := by
  obtain ⟨units, built, -⟩ := Machine.map_eq_ok.mp
    (show (buildMemoryHierarchy heldParams memoryFiles "complete.mem".toList).map (fun _ => ()) =
      .ok () by decide +kernel)
  exact ⟨units, built⟩

theorem hierarchy_asDeclared_iff_complete :
    ∃ units content caches main,
      buildMemoryHierarchy heldParams memoryFiles "complete.mem".toList = .ok units ∧
        memoryFiles "complete.mem".toList = some content ∧
          units = .regions .empty :: caches ++ [main] ∧
            (∀ fuel ≥ caches.length + 2,
              (linkHierarchy (.regions .empty) caches main).walk fuel 0 = units) ∧
              (HierarchyAsDeclared content units ↔ DeclaresLevels content) := by
  obtain ⟨units, built⟩ := exists_buildMemoryHierarchy_complete
  obtain ⟨content, caches, main, spec⟩ := hierarchy_asDeclared_iff built
  exact ⟨units, content, caches, main, built, spec⟩

/-- **A level with latencies that nothing declares**: the example loads, and its cache
level has what the arrays held. -/
theorem realistic_not_asDeclared :
    ∃ units, buildMemoryHierarchy heldParams memoryFiles "realistic.mem".toList = .ok units ∧
      memoryFiles "realistic.mem".toList = some realisticText ∧
        ¬ HierarchyAsDeclared realisticText units := by
  obtain ⟨units, built, -⟩ := Machine.map_eq_ok.mp
    (show (buildMemoryHierarchy heldParams memoryFiles "realistic.mem".toList).map (fun _ => ()) =
      .ok () by decide +kernel)
  refine ⟨units, built, rfl, ?_⟩
  rintro ⟨caches, main, -, length, asDeclared, -⟩
  have one : highestLevel (levelLines realisticText) = 1 := by decide +kernel
  have none : declaredNumber 1 "read latency".toList (levelLines realisticText) = none := by
    decide +kernel
  rw [one] at length
  obtain ⟨z, read, -⟩ := (asDeclared 0 caches[0] (List.getElem?_eq_getElem _)).read
  rw [none] at read
  cases read

end Drachma
