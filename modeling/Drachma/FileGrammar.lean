import Drachma.FileHandler

/-!
# The grammar of configuration files

The parser decides what a file says with a flag for comment blocks, a type for each
line and an early exit at the first invalid one.  The grammar says it without them: how
the lines of a file lie around its comments, and which of the remaining lines are
parameters and which are data.  A line that could be both is a parameter.

## Main results

* `layout_iff` — the lines between the comments are the lines the flag leaves over.
* `parseEntry_spec` — what the parser makes of one of them.
* `FileHandler.new_iff_grammar` — a file is valid exactly if each of them is of the
  grammar, and then its parameters and its data are theirs, in order.
-/

namespace Drachma

/-! ## Comments -/

/-- The lines of a file, and those of them that are neither empty nor comments. -/
inductive Layout : List Text → List Text → Prop
  | nil : Layout [] []
  | content {line : Text} {lines content : List Text} (nonempty : line ≠ [])
      (comment : ¬ ['#'] <+: line) (opening : ¬ ['/', '#'] <+: line)
      (rest : Layout lines content) : Layout (line :: lines) (line :: content)
  | white {lines content : List Text} (rest : Layout lines content) : Layout ([] :: lines) content
  | comment {line : Text} {lines content : List Text} (tag : ['#'] <+: line)
      (rest : Layout lines content) : Layout (line :: lines) content
  /-- A comment block ends with the first line that can end it. -/
  | closedBlock {opening closing : Text} {inner lines content : List Text}
      (opens : ['/', '#'] <+: opening) (open' : ∀ line ∈ inner, ¬ ['#', '/'] <+: line)
      (closes : ['#', '/'] <+: closing) (rest : Layout lines content) :
      Layout (opening :: inner ++ closing :: lines) content
  /-- A comment block that is not closed ends with the file. -/
  | openBlock {opening : Text} {inner : List Text} (opens : ['/', '#'] <+: opening)
      (open' : ∀ line ∈ inner, ¬ ['#', '/'] <+: line) : Layout (opening :: inner) []

theorem startsBlock_iff {line : Text} : startsBlock line = true ↔ ['/', '#'] <+: line := by
  unfold startsBlock
  split
  · simp
  · rename_i other
    refine iff_of_false Bool.false_ne_true ?_
    rintro ⟨rest, rfl⟩
    exact other rest rfl

theorem endsBlock_iff {line : Text} : endsBlock line = true ↔ ['#', '/'] <+: line := by
  unfold endsBlock
  split
  · simp
  · rename_i other
    refine iff_of_false Bool.false_ne_true ?_
    rintro ⟨rest, rfl⟩
    exact other rest rfl

section Lines

variable {line : Text} {lines : List Text}

theorem contentLines_content (nonempty : line ≠ []) (comment : ¬ ['#'] <+: line)
    (opening : ¬ ['/', '#'] <+: line) :
    contentLines false (line :: lines) = line :: contentLines false lines := by
  have unknown : classifyLine false line = (false, .unknown) := by
    rw [← startsBlock_iff] at opening
    unfold classifyLine
    rw [Bool.false_or, if_neg opening]
    cases line with
    | nil => exact absurd rfl nonempty
    | cons c line =>
        have hc : c ≠ '#' := by
          rintro rfl
          exact comment ⟨line, rfl⟩
        dsimp only
        rw [if_neg hc]
  rw [contentLines, unknown, if_pos rfl]

theorem contentLines_comment (tag : ['#'] <+: line) :
    contentLines false (line :: lines) = contentLines false lines := by
  obtain ⟨rest, rfl⟩ := tag
  rfl

theorem contentLines_opening (opens : ['/', '#'] <+: line) :
    contentLines false (line :: lines) = contentLines true lines := by
  obtain ⟨rest, rfl⟩ := opens
  rfl

theorem contentLines_inner (open' : ¬ ['#', '/'] <+: line) :
    contentLines true (line :: lines) = contentLines true lines := by
  rw [← endsBlock_iff, Bool.not_eq_true] at open'
  have inner : classifyLine true line = (true, .comment) := by
    unfold classifyLine
    rw [Bool.true_or, if_pos rfl, open', Bool.and_false, Bool.not_false]
  rw [contentLines, inner, if_neg (by decide)]

theorem contentLines_closing (closes : ['#', '/'] <+: line) :
    contentLines true (line :: lines) = contentLines false lines := by
  obtain ⟨rest, rfl⟩ := closes
  rfl

theorem contentLines_block {inner : List Text} (open' : ∀ l ∈ inner, ¬ ['#', '/'] <+: l) :
    contentLines true (inner ++ lines) = contentLines true lines := by
  induction inner with
  | nil => rfl
  | cons l inner ih =>
      rw [List.cons_append, contentLines_inner (open' l List.mem_cons_self)]
      exact ih fun l' hl' => open' l' (List.mem_cons_of_mem _ hl')

end Lines

theorem Layout.eq_contentLines {lines content : List Text} (h : Layout lines content) :
    content = contentLines false lines := by
  induction h with
  | nil => rfl
  | content nonempty comment opening _ ih =>
      rw [contentLines_content nonempty comment opening, ← ih]
  | white _ ih => rw [contentLines_blank, ← ih]
  | comment tag _ ih => rw [contentLines_comment tag, ← ih]
  | closedBlock opens open' closes _ ih =>
      rw [List.cons_append, contentLines_opening opens, contentLines_block open',
        contentLines_closing closes, ← ih]
  | @openBlock _ inner opens open' =>
      rw [contentLines_opening opens, ← List.append_nil inner, contentLines_block open']
      rfl

/-- Every file has a layout: from a line outside comments, and from a line in a block
that is still open. -/
theorem layout_contentLines (lines : List Text) :
    Layout lines (contentLines false lines) ∧
      ∀ (opening : Text) (inner : List Text), ['/', '#'] <+: opening →
        (∀ line ∈ inner, ¬ ['#', '/'] <+: line) →
        Layout (opening :: inner ++ lines) (contentLines true lines) := by
  induction lines with
  | nil =>
      refine ⟨.nil, fun opening inner opens open' => ?_⟩
      rw [List.append_nil]
      exact .openBlock opens open'
  | cons line lines ih =>
      obtain ⟨outside, inside⟩ := ih
      constructor
      · by_cases nonempty : line = []
        · subst nonempty
          exact .white outside
        · by_cases comment : ['#'] <+: line
          · rw [contentLines_comment comment]
            exact .comment comment outside
          · by_cases opening : ['/', '#'] <+: line
            · rw [contentLines_opening opening]
              exact inside line [] opening (by simp)
            · rw [contentLines_content nonempty comment opening]
              exact .content nonempty comment opening outside
      · intro opening inner opens open'
        by_cases closes : ['#', '/'] <+: line
        · rw [contentLines_closing closes]
          exact .closedBlock opens open' closes outside
        · -- the line is one more of the open block
          rw [contentLines_inner closes, List.append_cons]
          refine inside opening (inner ++ [line]) opens ?_
          rw [List.forall_mem_append, List.forall_mem_singleton]
          exact ⟨open', closes⟩

/-- **The layout of a file is what the flag leaves over.** -/
theorem layout_iff {lines content : List Text} :
    Layout lines content ↔ content = contentLines false lines := by
  constructor
  · exact Layout.eq_contentLines
  · rintro rfl
    exact (layout_contentLines lines).1

/-! ## Parameters and data -/

/-- The line is `key:rest`, divided at its first colon. -/
def DividesInto (line key rest : Text) : Prop := line = key ++ ':' :: rest ∧ ':' ∉ key

theorem DividesInto.unique {line key key' rest rest' : Text} (h : DividesInto line key rest)
    (h' : DividesInto line key' rest') : key = key' ∧ rest = rest' := by
  obtain ⟨rfl, hkey⟩ := h
  obtain ⟨heq, hkey'⟩ := h'
  obtain ⟨before, after⟩ := takeWhile_ne hkey rest
  obtain ⟨before', after'⟩ := takeWhile_ne hkey' rest'
  rw [heq, before'] at before
  rw [heq, after'] at after
  exact ⟨before.symm, (List.cons.inj after).2.symm⟩

theorem exists_dividesInto {line : Text} (h : ':' ∈ line) :
    ∃ key rest, DividesInto line key rest := by
  obtain ⟨key, rest, hline, hkey⟩ := List.eq_append_cons_of_mem h
  exact ⟨key, rest, hline, hkey⟩

section Entries

variable {ρ : Type} [Regex ρ] (rules : FileRules ρ)

/-- The line is a parameter: an accepted key, and an argument that is not blank. -/
def FileRules.IsEntry (line : Text) (e : Text × Text) : Prop :=
  ∃ rest, DividesInto line e.1 rest ∧ e.1 ∈ rules.acceptableParams ∧ ¬ Blank rest ∧
    e.2 = trim rest

/-- The line is a parameter. -/
def FileRules.IsParameter (line : Text) : Prop := ∃ e, rules.IsEntry line e

/-- The line matches one of the patterns, and nothing is missing after its first colon. -/
def FileRules.IsData (line : Text) : Prop :=
  (∃ regex ∈ rules.regexArgs, regexMatch regex line = true) ∧
    ∀ key rest, DividesInto line key rest → ¬ Blank rest

variable {rules} {line : Text}

theorem parseData_spec (rules : FileRules ρ) (line : Text) :
    ((∃ regex ∈ rules.regexArgs, regexMatch regex line = true) ∧
        parseData rules line = (.data, [])) ∨
      ((¬ ∃ regex ∈ rules.regexArgs, regexMatch regex line = true) ∧
        parseData rules line = (.invalid, [])) := by
  unfold parseData
  rw [← List.any_eq_true]
  split
  · rename_i matched
    exact .inl ⟨matched, rfl⟩
  · rename_i unmatched
    exact .inr ⟨unmatched, rfl⟩

/-- **What the parser makes of a line**: a parameter, else data, else it is invalid. -/
theorem parseEntry_spec (rules : FileRules ρ) (line : Text) :
    (∃ e, rules.IsEntry line e ∧ parseEntry rules line = (.parameter, [e])) ∨
      (¬ rules.IsParameter line ∧ rules.IsData line ∧ parseEntry rules line = (.data, [])) ∨
      (¬ rules.IsParameter line ∧ ¬ rules.IsData line ∧
        parseEntry rules line = (.invalid, [])) := by
  by_cases colon : ':' ∈ line
  · obtain ⟨key, rest, hdiv⟩ := exists_dividesInto colon
    have hparse := parseEntry_colon hdiv.2 rules rest
    rw [← hdiv.1] at hparse
    by_cases blank : trim rest = []
    · -- a key without an argument is neither
      rw [hparse, if_pos blank]
      rw [trim_eq_nil_iff] at blank
      refine .inr (.inr ⟨?_, fun data => data.2 key rest hdiv blank, rfl⟩)
      rintro ⟨e, rest', hdiv', -, hrest, -⟩
      obtain ⟨-, rfl⟩ := hdiv.unique hdiv'
      exact hrest blank
    · rw [hparse, if_neg blank]
      rw [trim_eq_nil_iff] at blank
      by_cases accepted : key ∈ rules.acceptableParams
      · rw [if_pos accepted]
        exact .inl ⟨(key, trim rest), ⟨rest, hdiv, accepted, blank, rfl⟩, rfl⟩
      · rw [if_neg accepted]
        have parameter : ¬ rules.IsParameter line := by
          rintro ⟨e, rest', hdiv', haccepted, -⟩
          obtain ⟨rfl, -⟩ := hdiv.unique hdiv'
          exact accepted haccepted
        rcases parseData_spec rules line with ⟨hmatch, heq⟩ | ⟨hmatch, heq⟩
        · refine .inr (.inl ⟨parameter, ⟨hmatch, ?_⟩, heq⟩)
          intro key' rest' hdiv'
          obtain ⟨-, rfl⟩ := hdiv.unique hdiv'
          exact blank
        · exact .inr (.inr ⟨parameter, fun data => hmatch data.1, heq⟩)
  · have undivided : ∀ key rest, ¬ DividesInto line key rest := by
      rintro key rest ⟨rfl, -⟩
      exact colon (by simp)
    have parameter : ¬ rules.IsParameter line := by
      rintro ⟨e, rest, hdiv, -⟩
      exact undivided e.1 rest hdiv
    rw [parseEntry_of_notMem colon]
    rcases parseData_spec rules line with ⟨hmatch, heq⟩ | ⟨hmatch, heq⟩
    · exact .inr (.inl ⟨parameter, ⟨hmatch, fun key rest hdiv => absurd hdiv (undivided _ _)⟩, heq⟩)
    · exact .inr (.inr ⟨parameter, fun data => hmatch data.1, heq⟩)

omit [Regex ρ] in
theorem FileRules.IsEntry.unique {e e' : Text × Text} (h : rules.IsEntry line e)
    (h' : rules.IsEntry line e') : e = e' := by
  obtain ⟨rest, hdiv, -, -, harg⟩ := h
  obtain ⟨rest', hdiv', -, -, harg'⟩ := h'
  obtain ⟨hkey, rfl⟩ := hdiv.unique hdiv'
  exact Prod.ext hkey (harg.trans harg'.symm)

/-- The parameters among some lines are those the lines are. -/
theorem FileRules.mem_params_iff {lines : List Text} {e : Text × Text} :
    e ∈ rules.params lines ↔ ∃ line ∈ lines, rules.IsEntry line e := by
  rw [FileRules.params, List.mem_flatMap]
  refine exists_congr fun line => and_congr_right fun _ => ?_
  rcases parseEntry_spec rules line with ⟨e', he', heq⟩ | ⟨hno, -, heq⟩ | ⟨hno, -, heq⟩
  · rw [heq, List.mem_singleton]
    constructor
    · rintro rfl
      exact he'
    · intro he
      exact he.unique he'
  · rw [heq]
    exact iff_of_false List.not_mem_nil fun he => hno ⟨e, he⟩
  · rw [heq]
    exact iff_of_false List.not_mem_nil fun he => hno ⟨e, he⟩

theorem FileRules.isParameter_iff :
    rules.IsParameter line ↔ (parseEntry rules line).1 = .parameter := by
  rcases parseEntry_spec rules line with ⟨e, he, heq⟩ | ⟨hno, -, heq⟩ | ⟨hno, -, heq⟩
  · exact iff_of_true ⟨e, he⟩ (by rw [heq])
  · exact iff_of_false hno (by simp [heq])
  · exact iff_of_false hno (by simp [heq])

instance : DecidablePred rules.IsParameter := fun _ =>
  decidable_of_iff _ FileRules.isParameter_iff.symm

theorem FileRules.accepts_iff :
    rules.Accepts line ↔ rules.IsParameter line ∨ rules.IsData line := by
  unfold FileRules.Accepts
  rcases parseEntry_spec rules line with ⟨e, he, heq⟩ | ⟨-, hdata, heq⟩ | ⟨hno, hdata, heq⟩
  · exact iff_of_true (by simp [heq]) (.inl ⟨e, he⟩)
  · exact iff_of_true (by simp [heq]) (.inr hdata)
  · exact iff_of_false (by simp [heq]) (not_or.mpr ⟨hno, hdata⟩)

/-- The parameters of some lines, one for each that is a parameter. -/
theorem FileRules.forall₂_params (rules : FileRules ρ) (lines : List Text) :
    List.Forall₂ rules.IsEntry (lines.filter fun line => rules.IsParameter line)
      (rules.params lines) := by
  induction lines with
  | nil => exact .nil
  | cons line lines ih =>
      rw [FileRules.params, List.flatMap_cons, ← FileRules.params, List.filter_cons]
      rcases parseEntry_spec rules line with ⟨e, he, heq⟩ | ⟨hno, -, heq⟩ | ⟨hno, -, heq⟩
      · rw [if_pos (decide_eq_true ⟨e, he⟩), heq]
        exact .cons he ih
      · rw [if_neg (by simpa using hno), heq]
        exact ih
      · rw [if_neg (by simpa using hno), heq]
        exact ih

/-- Among accepted lines, the data are those that are not parameters. -/
theorem FileRules.data_eq {lines : List Text} (accepted : rules.AcceptsAll lines) :
    rules.data lines = lines.filter fun line => ¬ rules.IsParameter line := by
  apply List.filter_congr
  intro line hline
  have valid := accepted line hline
  rw [decide_eq_decide, FileRules.isParameter_iff]
  rcases parseEntry_spec rules line with ⟨e, he, heq⟩ | ⟨-, -, heq⟩ | ⟨-, -, heq⟩
  · simp [heq]
  · simp [heq]
  · exact absurd (congrArg Prod.fst heq) valid

/-- **The parser accepts exactly its grammar**, and reads the parameters and the data of
a valid file in the order of its lines. -/
theorem FileHandler.new_iff_grammar {files : Files} {input text : Text}
    (hfile : files input = some text) (rules : FileRules ρ) :
    ∃ h content, FileHandler.new files input rules = .ok h ∧
      (∀ content', Layout (getLines text) content' ↔ content' = content) ∧
      (h.isValid = true ↔ ∀ line ∈ content, rules.IsParameter line ∨ rules.IsData line) ∧
      (h.isValid = true →
        (∃ params,
          List.Forall₂ rules.IsEntry (content.filter fun line => rules.IsParameter line) params ∧
          h.getParams.Perm params ∧
          ∀ key, (h.getParams.filter fun e => e.1 = key) = params.filter fun e => e.1 = key) ∧
        h.getData = content.filter fun line => ¬ rules.IsParameter line) := by
  obtain ⟨h, made⟩ := FileHandler.exists_new hfile rules
  obtain ⟨-, hvalid, hread⟩ := FileHandler.read_of_new hfile made
  refine ⟨h, contentLines false (getLines text), made, fun _ => layout_iff, ?_, fun valid => ?_⟩
  · rw [hvalid]
    exact forall₂_congr fun line _ => FileRules.accepts_iff
  · obtain ⟨params, data⟩ := hread valid
    refine ⟨⟨_, rules.forall₂_params _, ?_, fun key => ?_⟩, ?_⟩
    · rw [← params]
      exact List.perm_insertionSort _ _
    · rw [FileHandler.filter_getParams, params]
    · rw [data, FileRules.data_eq (hvalid.mp valid)]

end Entries

/-- A name, a number in a comment block, and two numbers outside of it. -/
def numbersFile : Files := fun _ => some "name: n\n12\n/# old\n34\n#/\n\n56".toList

/-- A name and numbers. -/
def numbersRules : FileRules :=
  { acceptableParams := ["name".toList], regexArgs := [.some Char.isDigit] }

theorem FileHandler.new_iff_grammar_numbers :
    ∃ h, FileHandler.new numbersFile [] numbersRules = .ok h ∧
      (h.isValid = true ↔ ∀ line ∈ ["name: n".toList, "12".toList, "56".toList],
        numbersRules.IsParameter line ∨ numbersRules.IsData line) := by
  obtain ⟨h, content, made, layout, valid, -⟩ :=
    FileHandler.new_iff_grammar (show numbersFile [] = some _ from rfl) numbersRules
  refine ⟨h, made, ?_⟩
  have hcontent : ["name: n".toList, "12".toList, "56".toList] = content := by
    rw [← layout, layout_iff]
    decide
  rw [hcontent]
  exact valid

end Drachma
