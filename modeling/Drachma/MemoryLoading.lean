import Drachma.Wallet
import Mathlib.Data.List.Induction

/-!
# Loading a memory configuration

Before a memory configuration is used it is read line by line, and its lines are either
parameters of the main memory or data for the cache levels.  `buildMemoryHierarchy`
then converts to numbers what no check of a line has looked at: the parameters of the
main memory, which may not be there at all, and the values for the cache levels.

## Main results

* `shape_of_memoryRegex` — what a line of data is.
* `assign_data_iff` — which lines of data can be loaded.
* `buildMemoryHierarchy_iff` — which memory configurations can.
-/

namespace Drachma

open Machine (Pattern bind_eq_ok)

/-! ## The lines for cache levels -/

/-- The line of a cache level's parameter. -/
def levelLine (level : Char) (key value : Text) : Text :=
  'l' :: level :: ' ' :: (key ++ ':' :: ' ' :: value)

/-- The digits of the cache levels. -/
def IsLevel (level : Char) : Prop := '1' ≤ level ∧ level ≤ '9'

theorem IsLevel.ne_colon {level : Char} (h : IsLevel level) : level ≠ ':' := by
  rintro rfl
  exact absurd h.2 (by decide)

theorem of_mem_ends_levelPrefix {rest : Pattern} {prev last : Option Char} {w v : Text}
    (h : (last, v) ∈ (levelPrefix rest).ends prev w) :
    ∃ level mid u, IsLevel level ∧ w = 'l' :: level :: ' ' :: u ∧
      (last, v) ∈ rest.ends mid u := by
  unfold levelPrefix at h
  simp only [Pattern.mem_ends_seq, Pattern.mem_ends_char, Pattern.mem_ends_one,
    decide_eq_true_eq] at h
  obtain ⟨_, _, ⟨rfl, -⟩, _, _, ⟨level, rfl, hlevel, -⟩, mid, u, ⟨rfl, -⟩, h⟩ := h
  exact ⟨level, mid, u, hlevel, rfl, h⟩

theorem of_mem_ends_valueSuffix {prev last : Option Char} {w : Text}
    (h : (last, []) ∈ valueSuffix.ends prev w) : ∃ c value, w = ':' :: ' ' :: c :: value := by
  unfold valueSuffix at h
  simp only [Pattern.mem_ends_seq, Pattern.mem_ends_char] at h
  obtain ⟨_, _, ⟨rfl, -⟩, _, _, ⟨rfl, -⟩, h⟩ := h
  obtain ⟨c, value, rfl, -⟩ := Pattern.of_mem_ends_some h
  exact ⟨c, value, by simp⟩

theorem of_mem_ends_word {t : Text} {prev last : Option Char} {w v : Text}
    (h : (last, v) ∈ (word t).ends prev w) : w = t ++ v := by
  unfold word at h
  simp only [Pattern.mem_ends_seq, Pattern.mem_ends_boundary] at h
  obtain ⟨_, _, ⟨rfl, rfl, -⟩, _, _, htext, rfl, rfl, -⟩ := h
  exact Pattern.of_mem_ends_text htext

theorem levelLine_of_mem_ends {key : Text} {prev last : Option Char} {line : Text}
    (h : (last, []) ∈ (levelPrefix (.seq (word key) valueSuffix)).ends prev line) :
    ∃ level, IsLevel level ∧ ∃ c value, line = levelLine level key (c :: value) := by
  obtain ⟨level, _, _, hlevel, rfl, hrest⟩ := of_mem_ends_levelPrefix h
  obtain ⟨_, _, hkey, hvalue⟩ := Pattern.mem_ends_seq.mp hrest
  obtain ⟨c, value, rfl⟩ := of_mem_ends_valueSuffix hvalue
  rw [of_mem_ends_word hkey]
  exact ⟨level, hlevel, c, value, rfl⟩

/-- The parameters of a cache level that have a value. -/
def levelKeys : List Text :=
  ["name".toList, "size".toList, "read latency".toList, "search latency".toList]

/-- **The data of a memory configuration**: a parameter of a cache level with its value,
or the mark that the level has a table. -/
theorem shape_of_memoryRegex {line : Text}
    (h : memoryRegex.any (fun regex => regex.fullMatch line) = true) :
    ∃ level, IsLevel level ∧
      ((∃ key ∈ levelKeys, ∃ c value, line = levelLine level key (c :: value)) ∨
        line = 'l' :: level :: ' ' :: "has LUT".toList) := by
  rw [List.any_eq_true] at h
  obtain ⟨regex, hregex, hmatch⟩ := h
  obtain ⟨last, hends⟩ := Pattern.fullMatch_iff.mp hmatch
  simp only [memoryRegex, List.mem_cons, List.not_mem_nil, or_false] at hregex
  rcases hregex with rfl | rfl | rfl | rfl
  · obtain ⟨level, hlevel, c, value, rfl⟩ := levelLine_of_mem_ends hends
    exact ⟨level, hlevel, .inl ⟨_, by simp [levelKeys], c, value, rfl⟩⟩
  · obtain ⟨level, hlevel, c, value, rfl⟩ := levelLine_of_mem_ends hends
    exact ⟨level, hlevel, .inl ⟨_, by simp [levelKeys], c, value, rfl⟩⟩
  · obtain ⟨level, _, _, hlevel, rfl, hrest⟩ := of_mem_ends_levelPrefix hends
    simp only [Pattern.mem_ends_seq, Pattern.mem_ends_boundary, Pattern.mem_ends_alt,
      Pattern.mem_ends_char] at hrest
    obtain ⟨_, _, ⟨rfl, rfl, -⟩, _, _, hkind, _, _, ⟨rfl, rfl, -⟩, _, _, ⟨rfl, -⟩, _, _,
      hlatency, hvalue⟩ := hrest
    obtain ⟨c, value, rfl⟩ := of_mem_ends_valueSuffix hvalue
    rw [of_mem_ends_word hlatency] at hkind
    rcases hkind with hkind | hkind
    · rw [Pattern.of_mem_ends_text hkind]
      exact ⟨level, hlevel, .inl ⟨"read latency".toList, by simp [levelKeys], c, value, rfl⟩⟩
    · rw [Pattern.of_mem_ends_text hkind]
      exact ⟨level, hlevel, .inl ⟨"search latency".toList, by simp [levelKeys], c, value, rfl⟩⟩
  · obtain ⟨level, _, _, hlevel, rfl, hrest⟩ := of_mem_ends_levelPrefix hends
    rw [Pattern.of_mem_ends_text hrest, List.append_nil]
    exact ⟨level, hlevel, .inr rfl⟩

/-! ## Loading a line -/

theorem notMem_of_mem_levelKeys {key : Text} (h : key ∈ levelKeys) : ':' ∉ key := by
  have clean : (levelKeys.all fun key => decide (':' ∉ key)) = true := rfl
  exact of_decide_eq_true (List.all_eq_true.mp clean key h)

theorem length_of_mem_levelKeys {key : Text} (h : key ∈ levelKeys) : key.length < 2 ^ 8 := by
  revert key
  decide

theorem findColon_levelLine {level : Char} {key : Text} (hlevel : IsLevel level)
    (hkey : key ∈ levelKeys) (value : Text) :
    findColon (levelLine level key value) = key.length + 3 := by
  have before : ':' ∉ 'l' :: level :: ' ' :: key := by
    simp only [List.mem_cons, not_or]
    exact ⟨by decide, hlevel.ne_colon.symm, by decide, notMem_of_mem_levelKeys hkey⟩
  have split : levelLine level key value =
      ('l' :: level :: ' ' :: key) ++ ':' :: ' ' :: value := rfl
  unfold findColon
  rw [if_pos (by simp [split]), split, (takeWhile_ne before _).1]
  rfl

theorem findColon_lutLine {level : Char} (hlevel : IsLevel level) :
    findColon ('l' :: level :: ' ' :: "has LUT".toList) = npos := by
  have absent : ':' ∉ 'l' :: level :: ' ' :: "has LUT".toList := by
    have := hlevel.ne_colon
    simp [this.symm]
  unfold findColon
  rw [if_neg absent]

/-- The number of a level, as `atoi` reads it. -/
def levelNumber (level : Char) : ℕ := (atoi [level]).toNat

/-- What a line does to the parameters of its level, after it was taken apart. -/
def LevelParams.assignParam (p : LevelParams) (whichLevel : ℕ) (param arg : Text) :
    Except LoadError LevelParams :=
  let p := { p with
    highestLevel := if p.highestLevel < whichLevel then whichLevel else p.highestLevel }
  if param = "name".toList then
    return p
  else if param = "size".toList then do
    let size ← stol arg
    return { p with levelSize := Function.update p.levelSize whichLevel size }
  else if param = "read latency".toList then do
    let latency ← stol arg
    return { p with levelRead := Function.update p.levelRead whichLevel latency }
  else if param = "search latency".toList then do
    let latency ← stol arg
    return { p with levelSearch := Function.update p.levelSearch whichLevel latency }
  else if param = "has LUT".toList then
    return { p with lutIndexed := Function.update p.lutIndexed whichLevel true }
  else
    return p

/-- A parameter of a cache level is taken apart at its colon. -/
theorem assign_levelLine {level : Char} {key : Text} (hlevel : IsLevel level)
    (hkey : key ∈ levelKeys) (value : Text) (p : LevelParams) :
    p.assign (levelLine level key value) = p.assignParam (levelNumber level) key value := by
  have hlen := length_of_mem_levelKeys hkey
  have hlevelText : substr (levelLine level key value) 1 (some 1) = .ok [level] := rfl
  have hparam : substr (levelLine level key value) 3
      (some ((findColon (levelLine level key value) + 2 ^ 64 - 3) % 2 ^ 64)) = .ok key := by
    have count : (key.length + 3 + 2 ^ 64 - 3) % 2 ^ 64 = key.length := by omega
    rw [findColon_levelLine hlevel hkey, count]
    show Except.ok ((key ++ ':' :: ' ' :: value).take key.length) = _
    rw [List.take_left]
  have harg : substr (levelLine level key value)
      ((findColon (levelLine level key value) + 2) % 2 ^ 64) none = .ok value := by
    have pos : (key.length + 3 + 2) % 2 ^ 64 = key.length + 2 + 3 := by omega
    rw [findColon_levelLine hlevel hkey, pos]
    unfold substr
    rw [if_neg (by simp [levelLine])]
    show Except.ok ((key ++ ':' :: ' ' :: value).drop (key.length + 2)) = _
    rw [← List.drop_drop, List.drop_left]
    rfl
  unfold LevelParams.assign
  rw [hlevelText, Machine.ok_bind, hparam, Machine.ok_bind, harg, Machine.ok_bind]
  rfl

/-- The mark of a level has no colon, and is its own parameter. -/
theorem assign_lutLine {level : Char} (hlevel : IsLevel level) (p : LevelParams) :
    ∃ arg, p.assign ('l' :: level :: ' ' :: "has LUT".toList) =
      p.assignParam (levelNumber level) "has LUT".toList arg := by
  have hparam : substr ('l' :: level :: ' ' :: "has LUT".toList) 3
      (some ((npos + 2 ^ 64 - 3) % 2 ^ 64)) = .ok "has LUT".toList := by
    show Except.ok (List.take _ "has LUT".toList) = _
    rw [List.take_of_length_le (by decide)]
  have harg : substr ('l' :: level :: ' ' :: "has LUT".toList) ((npos + 2) % 2 ^ 64) none =
      .ok (level :: ' ' :: "has LUT".toList) := rfl
  refine ⟨level :: ' ' :: "has LUT".toList, ?_⟩
  unfold LevelParams.assign
  rw [findColon_lutLine hlevel, show substr ('l' :: level :: ' ' :: "has LUT".toList) 1 (some 1) =
    .ok [level] from rfl, Machine.ok_bind, hparam, Machine.ok_bind, harg, Machine.ok_bind]
  rfl

/-- Loading a parameter of a cache level converts its value, unless it is the name. -/
theorem assign_levelLine_iff {level : Char} {key : Text} (hlevel : IsLevel level)
    (hkey : key ∈ levelKeys) (value : Text) (p : LevelParams) :
    (∃ p', p.assign (levelLine level key value) = .ok p') ↔
      (key ≠ "name".toList → Numeric value) := by
  rw [assign_levelLine hlevel hkey]
  unfold LevelParams.assignParam
  simp only [levelKeys, List.mem_cons, List.not_mem_nil, or_false] at hkey
  have converts : ∀ f : ℤ → LevelParams,
      (∃ p', (stol value >>= fun z => pure (f z) : Except LoadError LevelParams) = .ok p') ↔
        Numeric value := by
    intro f
    rw [← stol_isOk_iff]
    constructor
    · rintro ⟨p', h⟩
      obtain ⟨z, hz, -⟩ := bind_eq_ok.mp h
      exact ⟨z, hz⟩
    · rintro ⟨z, hz⟩
      exact ⟨f z, bind_eq_ok.mpr ⟨z, hz, rfl⟩⟩
  rcases hkey with rfl | rfl | rfl | rfl
  · rw [if_pos rfl]
    exact ⟨fun _ h => absurd rfl h, fun _ => ⟨_, rfl⟩⟩
  · rw [if_neg (by decide), if_pos rfl, converts]
    exact ⟨fun h _ => h, fun h => h (by decide)⟩
  · rw [if_neg (by decide), if_neg (by decide), if_pos rfl, converts]
    exact ⟨fun h _ => h, fun h => h (by decide)⟩
  · rw [if_neg (by decide), if_neg (by decide), if_neg (by decide), if_pos rfl, converts]
    exact ⟨fun h _ => h, fun h => h (by decide)⟩

theorem exists_assign_lutLine {level : Char} (hlevel : IsLevel level) (p : LevelParams) :
    ∃ p', p.assign ('l' :: level :: ' ' :: "has LUT".toList) = .ok p' := by
  obtain ⟨arg, h⟩ := assign_lutLine hlevel p
  rw [h]
  exact ⟨_, rfl⟩

theorem levelLine_inj {level level' : Char} {key key' value value' : Text}
    (hkey : key ∈ levelKeys) (hkey' : key' ∈ levelKeys)
    (h : levelLine level key value = levelLine level' key' value') :
    level = level' ∧ key = key' ∧ value = value' := by
  have cut : ∀ {key : Text}, key ∈ levelKeys → ∀ value : Text,
      (key ++ ':' :: ' ' :: value).takeWhile (· ≠ ':') = key :=
    fun hkey value => (takeWhile_ne (notMem_of_mem_levelKeys hkey) _).1
  obtain ⟨hlevel, hblank⟩ := List.cons.inj (List.cons.inj h).2
  have htext := (List.cons.inj hblank).2
  have same : key = key' := by rw [← cut hkey value, htext, cut hkey' value']
  subst same
  have hrest := List.append_cancel_left htext
  exact ⟨hlevel, rfl, (List.cons.inj (List.cons.inj hrest).2).2⟩

/-- Loading a line of data fails when its value is to be a number and is none. -/
theorem assign_data_iff {line : Text}
    (matched : memoryRegex.any (fun regex => regex.fullMatch line) = true) (p : LevelParams) :
    (∃ p', p.assign line = .ok p') ↔
      ∀ level key value, line = levelLine level key value → key ∈ levelKeys →
        key ≠ "name".toList → Numeric value := by
  obtain ⟨level, hlevel, ⟨key, hkey, c, value, rfl⟩ | rfl⟩ := shape_of_memoryRegex matched
  · rw [assign_levelLine_iff hlevel hkey]
    constructor
    · intro numeric level' key' value' heq hkey' hname
      obtain ⟨-, rfl, rfl⟩ := levelLine_inj hkey hkey' heq
      exact numeric hname
    · intro all hname
      exact all level key (c :: value) rfl hkey hname
  · constructor
    · intro _ level' key' value' heq
      -- the mark has no colon
      have colon : ':' ∈ levelLine level' key' value' := by simp [levelLine]
      rw [← heq] at colon
      have := hlevel.ne_colon
      simp [this.symm] at colon
    · intro _
      exact exists_assign_lutLine hlevel p

/-! ## The parameters of the main memory -/

/-- The value of the last parameter with this name, if there is one. -/
def lastValue (key : Text) (params : List (Text × Text)) : Text :=
  (((params.filter fun e => e.1 = key).getLast?).map Prod.snd).getD []

theorem lastValue_append (key : Text) (params : List (Text × Text)) (e : Text × Text) :
    lastValue key (params ++ [e]) = if e.1 = key then e.2 else lastValue key params := by
  unfold lastValue
  by_cases h : e.1 = key
  · simp [List.filter_append, h]
  · simp [List.filter_append, h]

/-- The loop over the parameters keeps the last value of each. -/
theorem foldl_assign (params : List (Text × Text)) :
    params.foldl MainParams.assign ⟨[], [], []⟩ =
      { mainMemSize := lastValue "main size".toList params
        mainMemRead := lastValue "main read latency".toList params
        mainMemSearch := lastValue "main search latency".toList params } := by
  induction params using List.reverseRecOn with
  | nil => rfl
  | append_singleton params e ih =>
      rw [List.foldl_append, ih, List.foldl_cons, List.foldl_nil, MainParams.assign,
        lastValue_append, lastValue_append, lastValue_append]
      by_cases hsize : e.1 = "main size".toList
      · have hread : e.1 ≠ "main read latency".toList := by rw [hsize]; decide
        have hsearch : e.1 ≠ "main search latency".toList := by rw [hsize]; decide
        simp only [if_pos hsize, if_neg hread, if_neg hsearch]
      · by_cases hread : e.1 = "main read latency".toList
        · have hsearch : e.1 ≠ "main search latency".toList := by rw [hread]; decide
          simp only [if_neg hsize, if_pos hread, if_neg hsearch]
        · by_cases hsearch : e.1 = "main search latency".toList
          · simp only [if_neg hsize, if_neg hread, if_pos hsearch]
          · simp only [if_neg hsize, if_neg hread, if_neg hsearch]

/-! ## Memory configurations -/

/-- The names of the parameters of the main memory that are converted to numbers. -/
def mainKeys : List Text :=
  ["main size".toList, "main read latency".toList, "main search latency".toList]

/-- **A memory configuration that can be loaded**: besides its lines being accepted, the
parameters of the main memory exist, and what is to be a number is one. -/
structure MemoryLoads (content : Text) : Prop where
  valid : memoryRules.AcceptsAll (contentLines false (getLines content))
  main : ∀ key ∈ mainKeys,
    Numeric (lastValue key (memoryRules.params (contentLines false (getLines content))))
  levels : ∀ level key value,
    levelLine level key value ∈ memoryRules.data (contentLines false (getLines content)) →
      key ∈ levelKeys → key ≠ "name".toList → Numeric value

theorem lastValue_getParams (h : FileHandler) (key : Text) :
    lastValue key h.getParams = lastValue key h.paramDictionary := by
  unfold lastValue
  rw [FileHandler.filter_getParams]

theorem forall_mem_mainKeys {P : Text → Prop} :
    (∀ key ∈ mainKeys, P key) ↔
      P "main size".toList ∧ P "main read latency".toList ∧ P "main search latency".toList := by
  simp [mainKeys]

/-- The loop over the data converts every value that is not a name. -/
theorem exists_foldlM_assign_iff (lines : List Text) (p : LevelParams) :
    (∃ p', (memoryRules.data lines).foldlM LevelParams.assign p = .ok p') ↔
      ∀ level key value, levelLine level key value ∈ memoryRules.data lines →
        key ∈ levelKeys → key ≠ "name".toList → Numeric value := by
  have each : ∀ line ∈ memoryRules.data lines, ∀ p : LevelParams,
      (∃ p', p.assign line = .ok p') ↔ ∀ level key value, line = levelLine level key value →
        key ∈ levelKeys → key ≠ "name".toList → Numeric value := fun _ hline p =>
    assign_data_iff (FileRules.matches_of_mem_data hline) p
  rw [Machine.exists_foldlM_eq_ok each]
  constructor
  · intro all level key value hline
    exact all _ hline level key value rfl
  · rintro all _ hline level key value rfl
    exact all level key value hline

/-- **Which memory configurations can be loaded.** -/
theorem buildMemoryHierarchy_iff {files : Files} {memoryFile content : Text}
    (hfile : files memoryFile = some content) (raw : LevelParams) :
    (∃ mem, buildMemoryHierarchy raw files memoryFile = .ok mem) ↔ MemoryLoads content := by
  obtain ⟨reader, made⟩ := FileHandler.exists_new hfile memoryRules
  obtain ⟨-, hvalid, hread⟩ := FileHandler.read_of_new hfile made
  unfold buildMemoryHierarchy
  rw [made, Machine.ok_bind]
  by_cases valid : reader.isValid = true
  · obtain ⟨params, data⟩ := hread valid
    rw [if_pos valid, foldl_assign, lastValue_getParams, lastValue_getParams,
      lastValue_getParams, params, data]
    constructor
    · rintro ⟨mem, h⟩
      obtain ⟨size, hsize, h₁⟩ := bind_eq_ok.mp h
      obtain ⟨read, hread, h₂⟩ := bind_eq_ok.mp h₁
      obtain ⟨search, hsearch, h₃⟩ := bind_eq_ok.mp h₂
      obtain ⟨levels, hlevels, -⟩ := bind_eq_ok.mp h₃
      refine ⟨hvalid.mp valid, forall_mem_mainKeys.mpr ⟨?_, ?_, ?_⟩, ?_⟩
      · exact stol_isOk_iff.mp ⟨size, hsize⟩
      · exact stol_isOk_iff.mp ⟨read, hread⟩
      · exact stol_isOk_iff.mp ⟨search, hsearch⟩
      · exact (exists_foldlM_assign_iff _ _).mp ⟨levels, hlevels⟩
    · rintro ⟨-, main, numeric⟩
      obtain ⟨mainSize, mainRead, mainSearch⟩ := forall_mem_mainKeys.mp main
      obtain ⟨size, hsize⟩ := stol_isOk_iff.mpr mainSize
      obtain ⟨read, hread⟩ := stol_isOk_iff.mpr mainRead
      obtain ⟨search, hsearch⟩ := stol_isOk_iff.mpr mainSearch
      obtain ⟨levels, hlevels⟩ := (exists_foldlM_assign_iff _
        { raw with highestLevel := 0, lutIndexed := fun _ => false }).mpr numeric
      exact ⟨_, bind_eq_ok.mpr ⟨size, hsize, bind_eq_ok.mpr ⟨read, hread,
        bind_eq_ok.mpr ⟨search, hsearch, bind_eq_ok.mpr ⟨levels, hlevels, rfl⟩⟩⟩⟩⟩
  · rw [if_neg valid]
    constructor
    · rintro ⟨mem, h⟩
      cases h
    · intro loads
      exact absurd (hvalid.mpr loads.valid) valid

end Drachma
