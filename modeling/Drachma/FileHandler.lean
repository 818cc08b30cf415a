import Drachma.Lib.Pattern
import Mathlib.Data.Char
import Mathlib.Data.List.DropRight
import Mathlib.Data.List.InsertIdx
import Mathlib.Data.List.Lex
import Mathlib.Data.List.Sort

/-!
# Configuration files

`FileHandler` reads a file line by line.  Comments are set aside, line by line or in
blocks; every other line must be a parameter, `NAME: VALUE` under an accepted name,
or match an accepted pattern.  A file with any other line is not valid.

A text is a list of characters, one for each byte of a file, and a file system is a
function from names to texts.

## Main results

* `getLines_append`, `contentLines_append` — appending a line to a file appends to its
  lines, and to what is left of them without comments.
* `FileHandler.spec_of_new` — whether a file is valid, and the parameters and data it
  has, read off these lines.
-/

namespace Drachma

open Machine (Pattern)

/-- The text of a file, of a line or of a file's name. -/
abbrev Text := List Char

/-- The exceptions of the functions that read files. -/
inductive LoadError
  /-- A thrown `std::invalid_argument`. -/
  | invalidArgument (message : String)
  /-- A thrown `std::out_of_range`. -/
  | outOfRange (message : String)
  /-- A thrown `userError`. -/
  | userError (message : String)
  /-- Another `std::exception`, thrown by a library. -/
  | exception (message : String)
  /-- Something thrown that is not a `std::exception`. -/
  | thrown (message : String)
deriving DecidableEq, Repr

/-- The files that exist, with their texts. -/
abbrev Files := Text → Option Text

/-! ## Lines -/

/-- A list is divided at the first occurrence of an element. -/
theorem takeWhile_ne {α : Type*} [DecidableEq α] {a : α} {before : List α} (h : a ∉ before)
    (after : List α) :
    (before ++ a :: after).takeWhile (· ≠ a) = before ∧
      (before ++ a :: after).dropWhile (· ≠ a) = a :: after := by
  have other : ∀ b ∈ before, decide (b ≠ a) = true := by
    intro b hb
    rw [decide_eq_true_eq]
    rintro rfl
    exact h hb
  rw [List.takeWhile_append_of_pos other, List.dropWhile_append_of_pos other,
    List.takeWhile_cons_of_neg (by simp), List.dropWhile_cons_of_neg (by simp), List.append_nil]
  exact ⟨rfl, rfl⟩

/-- The lines `std::getline` reads, one after the other. -/
def getLines : Text → List Text
  | [] => []
  | c :: rest =>
      if c = '\n' then [] :: getLines rest
      else
        match getLines rest with
        | [] => [[c]]
        | line :: lines => (c :: line) :: lines

/-- The first line starts with the first character. -/
theorem getLines_cons {c : Char} (hc : c ≠ '\n') (rest : Text) :
    ∃ line lines, getLines (c :: rest) = (c :: line) :: lines := by
  rw [getLines, if_neg hc]
  split
  · exact ⟨_, _, rfl⟩
  · exact ⟨_, _, rfl⟩

/-- Appending a line adds it to the lines, after an empty one where the text already
ends in a line break. -/
theorem getLines_append (a b : Text) :
    ∃ blank, (blank = [] ∨ blank = [[]]) ∧
      getLines (a ++ '\n' :: b) = getLines a ++ (blank ++ getLines b) := by
  induction a with
  | nil => exact ⟨[[]], .inr rfl, rfl⟩
  | cons c a ih =>
      obtain ⟨blank, hblank, ih⟩ := ih
      rw [List.cons_append, getLines, getLines]
      by_cases hc : c = '\n'
      · rw [if_pos hc, if_pos hc, ih]
        exact ⟨blank, hblank, rfl⟩
      · rw [if_neg hc, if_neg hc]
        cases a with
        | nil => exact ⟨[], .inl rfl, rfl⟩
        | cons c' a =>
            obtain ⟨line, lines, hlines⟩ : ∃ line lines, getLines (c' :: a) = line :: lines := by
              rw [getLines]
              split
              · exact ⟨_, _, rfl⟩
              · split
                · exact ⟨_, _, rfl⟩
                · exact ⟨_, _, rfl⟩
            rw [ih, hlines]
            exact ⟨blank, hblank, rfl⟩

/-- A text without a line break is one line. -/
theorem getLines_of_notMem {text : Text} (hbreak : '\n' ∉ text) (hne : text ≠ []) :
    getLines text = [text] := by
  induction text with
  | nil => exact absurd rfl hne
  | cons c text ih =>
      rw [List.mem_cons, not_or] at hbreak
      rw [getLines, if_neg (Ne.symm hbreak.1)]
      cases text with
      | nil => rfl
      | cons c' text => rw [ih hbreak.2 (List.cons_ne_nil _ _)]

/-- A line has no line break. -/
theorem notMem_of_mem_getLines {text line : Text} (h : line ∈ getLines text) : '\n' ∉ line := by
  induction text generalizing line with
  | nil => cases h
  | cons c rest ih =>
      rw [getLines] at h
      by_cases hc : c = '\n'
      · rw [if_pos hc] at h
        rcases List.mem_cons.mp h with rfl | h
        · exact List.not_mem_nil
        · exact ih h
      · rw [if_neg hc] at h
        split at h
        · obtain rfl := List.mem_singleton.mp h
          rw [List.mem_singleton]
          exact Ne.symm hc
        · rename_i first lines hlines
          rw [hlines] at ih
          rcases List.mem_cons.mp h with rfl | h
          · rw [List.mem_cons, not_or]
            exact ⟨Ne.symm hc, ih List.mem_cons_self⟩
          · exact ih (List.mem_cons_of_mem _ h)

/-- The first line of a text ends at its first line break. -/
theorem getLines_append_break {line : Text} (hbreak : '\n' ∉ line) (rest : Text) :
    getLines (line ++ '\n' :: rest) = line :: getLines rest := by
  induction line with
  | nil => rfl
  | cons c line ih =>
      rw [List.mem_cons, not_or] at hbreak
      rw [List.cons_append, getLines, if_neg (Ne.symm hbreak.1), ih hbreak.2]

/-- Lines that are written with a line break each are read back. -/
theorem getLines_flatMap {lines : List Text} (hbreak : ∀ line ∈ lines, '\n' ∉ line) :
    getLines (lines.flatMap fun line => line ++ ['\n']) = lines := by
  induction lines with
  | nil => rfl
  | cons line lines ih =>
      rw [List.flatMap_cons, List.append_assoc, List.singleton_append,
        getLines_append_break (hbreak line List.mem_cons_self),
        ih fun line' hline' => hbreak line' (List.mem_cons_of_mem _ hline')]

/-- `lineType`. -/
inductive LineType
  | unknown
  | white
  | comment
  | parameter
  | data
  | invalid
deriving DecidableEq, Repr

/-- The line starts a comment block. -/
def startsBlock : Text → Bool
  | '/' :: '#' :: _ => true
  | _ => false

/-- The line ends a comment block. -/
def endsBlock : Text → Bool
  | '#' :: '/' :: _ => true
  | _ => false

/-- One round of the loop of `parseContent`: whether a comment block is open after the
line, and the type of the line. -/
def classifyLine (block : Bool) (line : Text) : Bool × LineType :=
  if block || startsBlock line then
    (!(block && endsBlock line), .comment)
  else
    match line with
    | [] => (false, .white)
    | c :: _ => (false, if c = '#' then .comment else .unknown)

/-- `parseContent`, from a state of its `comment_block`. -/
def parseContent : Bool → List Text → List (LineType × Text)
  | _, [] => []
  | block, line :: rest =>
      ((classifyLine block line).2, line) :: parseContent (classifyLine block line).1 rest

theorem map_parseContent (block : Bool) (lines : List Text) :
    (parseContent block lines).map Prod.snd = lines := by
  induction lines generalizing block with
  | nil => rfl
  | cons line lines ih => rw [parseContent, List.map_cons, ih]

/-- Whether a comment block is open after some lines. -/
def blockAfter (block : Bool) (lines : List Text) : Bool :=
  lines.foldl (fun block line => (classifyLine block line).1) block

theorem parseContent_append (block : Bool) (a b : List Text) :
    parseContent block (a ++ b) = parseContent block a ++ parseContent (blockAfter block a) b := by
  induction a generalizing block with
  | nil => rfl
  | cons line a ih =>
      rw [List.cons_append, parseContent, parseContent, ih]
      rfl

/-- The lines that are neither comments nor empty. -/
def contentLines : Bool → List Text → List Text
  | _, [] => []
  | block, line :: rest =>
      if (classifyLine block line).2 = .unknown then
        line :: contentLines (classifyLine block line).1 rest
      else contentLines (classifyLine block line).1 rest

theorem contentLines_append (block : Bool) (a b : List Text) :
    contentLines block (a ++ b) = contentLines block a ++ contentLines (blockAfter block a) b := by
  induction a generalizing block with
  | nil => rfl
  | cons line a ih =>
      rw [List.cons_append, contentLines, contentLines, ih]
      show _ = _ ++ contentLines (blockAfter (classifyLine block line).1 a) b
      split <;> rfl

/-- An empty line has no content, and leaves a comment block as it is. -/
theorem contentLines_blank (block : Bool) (lines : List Text) :
    contentLines block ([] :: lines) = contentLines block lines := by
  cases block <;> rfl

/-! ## Entries -/

/-- `std::isspace`, in the classic locale. -/
def isSpace (c : Char) : Bool := c ∈ [' ', '\t', '\n', '\x0b', '\x0c', '\r']

/-- `boost::trim`. -/
def trim (t : Text) : Text :=
  ((t.dropWhile isSpace).reverse.dropWhile isSpace).reverse

/-- Nothing but blanks. -/
def Blank (t : Text) : Prop := ∀ c ∈ t, isSpace c = true

theorem trim_eq_nil_iff {t : Text} : trim t = [] ↔ Blank t := by
  show List.rdropWhile isSpace (t.dropWhile isSpace) = [] ↔ _
  rw [List.rdropWhile_eq_nil_iff, ← List.dropWhile_eq_nil_iff, List.dropWhile_idempotent,
    List.dropWhile_eq_nil_iff]
  exact Iff.rfl

/-- A trimmed text has no blanks left to trim. -/
theorem trim_trim (t : Text) : trim (trim t) = trim t := by
  set inner := t.dropWhile isSpace with hinner
  have front : (inner.rdropWhile isSpace).dropWhile isSpace = inner.rdropWhile isSpace := by
    rw [List.dropWhile_eq_self_iff]
    intro hpos
    have kept : inner.rdropWhile isSpace <+: inner := List.rdropWhile_prefix isSpace inner
    have hlt : 0 < inner.length := hpos.trans_le kept.length_le
    rw [kept.getElem hpos]
    exact List.dropWhile_eq_self_iff.mp (List.dropWhile_idempotent isSpace t) hlt
  show List.rdropWhile isSpace ((inner.rdropWhile isSpace).dropWhile isSpace) = _
  rw [front]
  exact List.rdropWhile_idempotent isSpace inner

/-- Regular expressions, as predicates on lines. -/
class Regex (ρ : Type) where
  /-- `boost::regex_match`. -/
  regexMatch : ρ → Text → Bool

export Regex (regexMatch)

instance : Regex Pattern := ⟨Pattern.fullMatch⟩

/-- What a file handler accepts: the names of parameters, and the patterns of other
lines. -/
structure FileRules (ρ : Type := Pattern) where
  acceptableParams : List Text
  regexArgs : List ρ

section Entries

variable {ρ : Type} [Regex ρ]

/-- A line that is no parameter: data if it matches one of the patterns. -/
def parseData (rules : FileRules ρ) (line : Text) : LineType × List (Text × Text) :=
  if rules.regexArgs.any fun regex => regexMatch regex line then (.data, []) else (.invalid, [])

/-- One round of the loop of `parseEntries`, for a line of unknown type: its type, and
its entry in the dictionary. -/
def parseEntry (rules : FileRules ρ) (line : Text) : LineType × List (Text × Text) :=
  if ':' ∈ line then
    let testParam := line.takeWhile (· ≠ ':')
    let testArg := trim (line.dropWhile (· ≠ ':')).tail
    -- a parameter with no argument makes the file invalid
    if testArg = [] then (.invalid, [])
    else if testParam ∈ rules.acceptableParams then (.parameter, [(testParam, testArg)])
    else parseData rules line
  else parseData rules line

theorem parseEntry_of_notMem {line : Text} (h : ':' ∉ line) (rules : FileRules ρ) :
    parseEntry rules line = parseData rules line := if_neg h

theorem parseEntry_colon {key : Text} (hkey : ':' ∉ key) (rules : FileRules ρ) (arg : Text) :
    parseEntry rules (key ++ ':' :: arg) =
      if trim arg = [] then (.invalid, [])
      else if key ∈ rules.acceptableParams then (.parameter, [(key, trim arg)])
      else parseData rules (key ++ ':' :: arg) := by
  obtain ⟨before, after⟩ := takeWhile_ne hkey arg
  unfold parseEntry
  rw [if_pos (by simp), before, after, List.tail_cons]

/-- A line is a parameter under an accepted name, or it matches a pattern, or it is
invalid. -/
theorem parseEntry_cases (rules : FileRules ρ) (line : Text) :
    (∃ key ∈ rules.acceptableParams, ∃ arg, line = key ++ ':' :: arg ∧ ':' ∉ key ∧
        trim arg ≠ [] ∧ parseEntry rules line = (.parameter, [(key, trim arg)])) ∨
      (rules.regexArgs.any (fun regex => regexMatch regex line) = true ∧
        parseEntry rules line = (.data, [])) ∨
      parseEntry rules line = (.invalid, []) := by
  have data : (rules.regexArgs.any (fun regex => regexMatch regex line) = true ∧
      parseData rules line = (.data, [])) ∨ parseData rules line = (.invalid, []) := by
    unfold parseData
    split
    · rename_i matched
      exact .inl ⟨matched, rfl⟩
    · exact .inr rfl
  by_cases colon : ':' ∈ line
  · obtain ⟨key, arg, rfl, hkey⟩ := List.eq_append_cons_of_mem colon
    rw [parseEntry_colon hkey]
    by_cases argument : trim arg = []
    · exact .inr (.inr (if_pos argument))
    · by_cases accepted : key ∈ rules.acceptableParams
      · refine .inl ⟨key, accepted, arg, rfl, hkey, argument, ?_⟩
        rw [if_neg argument, if_pos accepted]
      · rw [if_neg argument, if_neg accepted]
        exact .inr data
  · rw [parseEntry_of_notMem colon]
    exact .inr data

/-- What `parseEntries` finds; the dictionary in the order of insertion. -/
structure Entries where
  isValid : Bool
  fileBody : List (LineType × Text)
  paramDictionary : List (Text × Text)

/-- `parseEntries`: the first invalid line ends it. -/
def parseEntries (rules : FileRules ρ) : List (LineType × Text) → Entries
  | [] => ⟨true, [], []⟩
  | (type, line) :: rest =>
      if type = .unknown then
        if (parseEntry rules line).1 = .invalid then ⟨false, (.invalid, line) :: rest, []⟩
        else
          ⟨(parseEntries rules rest).isValid,
            ((parseEntry rules line).1, line) :: (parseEntries rules rest).fileBody,
            (parseEntry rules line).2 ++ (parseEntries rules rest).paramDictionary⟩
      else
        ⟨(parseEntries rules rest).isValid, (type, line) :: (parseEntries rules rest).fileBody,
          (parseEntries rules rest).paramDictionary⟩

/-- The line is a parameter, or data. -/
def FileRules.Accepts (rules : FileRules ρ) (line : Text) : Prop :=
  (parseEntry rules line).1 ≠ .invalid

/-- The lines of a file's content are all accepted. -/
def FileRules.AcceptsAll (rules : FileRules ρ) (lines : List Text) : Prop :=
  ∀ line ∈ lines, rules.Accepts line

/-- The parameters among some lines. -/
def FileRules.params (rules : FileRules ρ) (lines : List Text) : List (Text × Text) :=
  lines.flatMap fun line => (parseEntry rules line).2

/-- The data among some lines. -/
def FileRules.data (rules : FileRules ρ) (lines : List Text) : List Text :=
  lines.filter fun line => (parseEntry rules line).1 = .data

theorem FileRules.acceptsAll_append {rules : FileRules ρ} {a b : List Text} :
    rules.AcceptsAll (a ++ b) ↔ rules.AcceptsAll a ∧ rules.AcceptsAll b :=
  List.forall_mem_append

theorem FileRules.params_append (rules : FileRules ρ) (a b : List Text) :
    rules.params (a ++ b) = rules.params a ++ rules.params b :=
  List.flatMap_append

theorem FileRules.params_singleton (rules : FileRules ρ) (line : Text) :
    rules.params [line] = (parseEntry rules line).2 :=
  List.flatMap_singleton ..

/-- An accepted line. -/
theorem FileRules.Accepts.cases {rules : FileRules ρ} {line : Text} (h : rules.Accepts line) :
    (∃ key ∈ rules.acceptableParams, ∃ arg, line = key ++ ':' :: arg ∧ ':' ∉ key) ∨
      rules.regexArgs.any (fun regex => regexMatch regex line) = true := by
  rcases parseEntry_cases rules line with
    ⟨key, accepted, arg, hline, hkey, -⟩ | ⟨hmatch, -⟩ | invalid
  · exact .inl ⟨key, accepted, arg, hline, hkey⟩
  · exact .inr hmatch
  · exact absurd (congrArg Prod.fst invalid) h

/-- A parameter is on one of the lines. -/
theorem FileRules.of_mem_params {rules : FileRules ρ} {lines : List Text} {e : Text × Text}
    (h : e ∈ rules.params lines) :
    e.1 ∈ rules.acceptableParams ∧ ':' ∉ e.1 ∧ ∃ arg, e.1 ++ ':' :: arg ∈ lines := by
  obtain ⟨line, hline, he⟩ := List.mem_flatMap.mp h
  rcases parseEntry_cases rules line with ⟨key, accepted, arg, rfl, hkey, -, heq⟩ | ⟨-, heq⟩ | heq
  · rw [heq] at he
    obtain rfl := List.mem_singleton.mp he
    exact ⟨accepted, hkey, arg, hline⟩
  · rw [heq] at he
    cases he
  · rw [heq] at he
    cases he

/-- A line of data matches one of the patterns. -/
theorem FileRules.matches_of_mem_data {rules : FileRules ρ} {lines : List Text} {line : Text}
    (h : line ∈ rules.data lines) :
    rules.regexArgs.any (fun regex => regexMatch regex line) = true := by
  rw [FileRules.data, List.mem_filter, decide_eq_true_eq] at h
  obtain ⟨-, data⟩ := h
  rcases parseEntry_cases rules line with ⟨key, -, arg, -, -, -, heq⟩ | ⟨hmatch, -⟩ | heq
  · rw [heq] at data
    cases data
  · exact hmatch
  · rw [heq] at data
    cases data

/-- The type a line has in the end. -/
def FileRules.settle (rules : FileRules ρ) (l : LineType × Text) : LineType × Text :=
  if l.1 = .unknown then ((parseEntry rules l.2).1, l.2) else l

end Entries

section Parse

variable {ρ : Type} [Regex ρ] (rules : FileRules ρ) (block : Bool) (lines : List Text)

theorem isValid_parseEntries :
    (parseEntries rules (parseContent block lines)).isValid = true ↔
      rules.AcceptsAll (contentLines block lines) := by
  induction lines generalizing block with
  | nil => simp [parseContent, parseEntries, contentLines, FileRules.AcceptsAll]
  | cons line lines ih =>
      rw [parseContent, parseEntries, contentLines]
      by_cases unknown : (classifyLine block line).2 = .unknown
      · rw [if_pos unknown, if_pos unknown]
        by_cases invalid : (parseEntry rules line).1 = .invalid
        · rw [if_pos invalid]
          constructor
          · intro h; cases h
          · intro h; exact absurd invalid (h line List.mem_cons_self)
        · rw [if_neg invalid, ih]
          constructor
          · intro h line' hline'
            rcases List.mem_cons.mp hline' with rfl | hline'
            · exact invalid
            · exact h line' hline'
          · intro h line' hline'
            exact h line' (List.mem_cons_of_mem _ hline')
      · rw [if_neg unknown, if_neg unknown, ih]

/-- A valid file has the parameters and the data of its lines. -/
theorem paramDictionary_parseEntries (accepted : rules.AcceptsAll (contentLines block lines)) :
    (parseEntries rules (parseContent block lines)).paramDictionary =
        rules.params (contentLines block lines) ∧
      ((parseEntries rules (parseContent block lines)).fileBody.filter
          fun l => l.1 = .data).map Prod.snd =
        rules.data (contentLines block lines) := by
  induction lines generalizing block with
  | nil => exact ⟨rfl, rfl⟩
  | cons line lines ih =>
      rw [parseContent, parseEntries]
      rw [contentLines] at accepted ⊢
      by_cases unknown : (classifyLine block line).2 = .unknown
      · rw [if_pos unknown] at accepted ⊢
        have valid := accepted line List.mem_cons_self
        obtain ⟨params, data⟩ := ih _ fun l hl => accepted l (List.mem_cons_of_mem _ hl)
        rw [if_neg valid]
        refine ⟨?_, ?_⟩
        · rw [if_pos unknown, FileRules.params, List.flatMap_cons, ← FileRules.params, params]
        · rw [if_pos unknown]
          dsimp only
          rw [FileRules.data, List.filter_cons, List.filter_cons, ← FileRules.data, ← data]
          split <;> rfl
      · rw [if_neg unknown] at accepted ⊢
        obtain ⟨params, data⟩ := ih _ accepted
        have other : (classifyLine block line).2 ≠ .data := by
          unfold classifyLine
          split
          · intro h; cases h
          · split
            · intro h; cases h
            · dsimp only
              split <;> decide
        rw [if_neg unknown]
        refine ⟨params, ?_⟩
        rw [← data, List.filter_cons_of_neg (by simpa using other)]

/-- The lines of a valid file have all been settled. -/
theorem fileBody_parseEntries (accepted : rules.AcceptsAll (contentLines block lines)) :
    (parseEntries rules (parseContent block lines)).fileBody =
      (parseContent block lines).map rules.settle := by
  induction lines generalizing block with
  | nil => rfl
  | cons line lines ih =>
      rw [parseContent, parseEntries, List.map_cons, FileRules.settle]
      rw [contentLines] at accepted
      by_cases unknown : (classifyLine block line).2 = .unknown
      · rw [if_pos unknown] at accepted
        have valid := accepted line List.mem_cons_self
        rw [if_pos unknown, if_neg valid, if_pos unknown,
          ih _ fun l hl => accepted l (List.mem_cons_of_mem _ hl)]
      · rw [if_neg unknown] at accepted
        rw [if_neg unknown, if_neg unknown, ih _ accepted]

/-- The lines are kept as they are. -/
theorem map_fileBody_parseEntries (body : List (LineType × Text)) :
    (parseEntries rules body).fileBody.map Prod.snd = body.map Prod.snd := by
  induction body with
  | nil => rfl
  | cons l body ih =>
      obtain ⟨type, line⟩ := l
      rw [parseEntries]
      split
      · split
        · rfl
        · rw [List.map_cons, ih, List.map_cons]
      · rw [List.map_cons, ih, List.map_cons]

end Parse

/-- `fileHandler`. -/
structure FileHandler extends Entries where
  inputFile : Text

namespace FileHandler

/-- The constructor. -/
def new {ρ : Type} [Regex ρ] (files : Files) (input : Text) (rules : FileRules ρ) :
    Except LoadError FileHandler :=
  match files input with
  | none =>
      .error (.invalidArgument "Input file provided to fileHandler does not exist.")
  | some content =>
      .ok { parseEntries rules (parseContent false (getLines content)) with inputFile := input }

/-- `getParams`: a multimap lists its entries by key, and the entries of one key in the
order of insertion. -/
def getParams (h : FileHandler) : List (Text × Text) :=
  h.paramDictionary.insertionSort fun a b => a.1 ≤ b.1

/-- `getData`. -/
def getData (h : FileHandler) : List Text :=
  (h.fileBody.filter fun l => l.1 = .data).map Prod.snd

variable {ρ : Type} [Regex ρ] {files : Files} {input content : Text} {rules : FileRules ρ}
  {h : FileHandler}

theorem mem_getParams {e : Text × Text} : e ∈ h.getParams ↔ e ∈ h.paramDictionary :=
  List.mem_insertionSort _

/-- The entries of one key keep their order. -/
theorem filter_getParams (key : Text) :
    (h.getParams.filter fun e => e.1 = key) = h.paramDictionary.filter fun e => e.1 = key := by
  have sorted : (h.paramDictionary.filter fun e => e.1 = key).Pairwise fun a b => a.1 ≤ b.1 := by
    rw [List.pairwise_filter]
    refine List.pairwise_of_forall fun a b ha hb => ?_
    rw [decide_eq_true_eq] at ha hb
    rw [ha, hb]
  have kept := (List.sublist_insertionSort sorted List.filter_sublist).filter fun e => e.1 = key
  rw [List.filter_filter] at kept
  simp only [Bool.and_self] at kept
  refine (kept.eq_of_length ?_).symm
  exact ((List.perm_insertionSort _ _).filter _).length_eq.symm

/-- **What a file handler makes of a file**, line by line. -/
theorem spec_of_new (made : FileHandler.new files input rules = .ok h) :
    ∃ content, files input = some content ∧ h.inputFile = input ∧
      (h.isValid = true ↔ rules.AcceptsAll (contentLines false (getLines content))) ∧
      (h.isValid = true →
        h.paramDictionary = rules.params (contentLines false (getLines content)) ∧
          h.getData = rules.data (contentLines false (getLines content))) := by
  unfold FileHandler.new at made
  cases hfile : files input with
  | none => rw [hfile] at made; cases made
  | some content =>
      rw [hfile] at made
      cases made
      refine ⟨content, rfl, rfl, isValid_parseEntries rules _ _, fun valid => ?_⟩
      exact paramDictionary_parseEntries rules _ _ ((isValid_parseEntries rules _ _).mp valid)

/-- The same, of a file whose text is known. -/
theorem read_of_new (hfile : files input = some content)
    (made : FileHandler.new files input rules = .ok h) :
    h.inputFile = input ∧
      (h.isValid = true ↔ rules.AcceptsAll (contentLines false (getLines content))) ∧
      (h.isValid = true →
        h.paramDictionary = rules.params (contentLines false (getLines content)) ∧
          h.getData = rules.data (contentLines false (getLines content))) := by
  obtain ⟨content', hfile', read⟩ := spec_of_new made
  obtain rfl := Option.some.inj (hfile.symm.trans hfile')
  exact read

theorem exists_new (hfile : files input = some content) (rules : FileRules ρ) :
    ∃ h, FileHandler.new files input rules = .ok h := by
  unfold FileHandler.new
  rw [hfile]
  exact ⟨_, rfl⟩

/-- The lines of a file, as a file handler keeps them. -/
theorem fileBody_of_new (hfile : files input = some content)
    (made : FileHandler.new files input rules = .ok h) :
    h.fileBody.map Prod.snd = getLines content ∧
      (h.isValid = true →
        h.fileBody = (parseContent false (getLines content)).map rules.settle) := by
  unfold FileHandler.new at made
  rw [hfile] at made
  cases made
  refine ⟨?_, fun valid => ?_⟩
  · exact (map_fileBody_parseEntries rules _).trans (map_parseContent false _)
  · exact fileBody_parseEntries rules _ _ ((isValid_parseEntries rules _ _).mp valid)

/-- `addToFile`: append a line break and the line. -/
def addToFile (h : FileHandler) (files : Files) (line : Text) : Files :=
  Function.update files h.inputFile
    (some ((files h.inputFile).getD [] ++ '\n' :: line))

/-- `findInFile`: whether a line has this text, and the first that has. -/
def findInFile (h : FileHandler) (line : Text) : Bool × ℕ :=
  match h.fileBody.findIdx? fun l => l.2 = line with
  | some i => (true, i)
  | none => (false, 0)

/-- `removeFromFile`: write all lines but the one that is found. -/
def removeFromFile (h : FileHandler) (files : Files) (line : Text) : Bool × Files :=
  if (h.findInFile line).1 then
    (true, Function.update files h.inputFile
      (some ((h.fileBody.eraseIdx (h.findInFile line).2).flatMap fun l => l.2 ++ ['\n'])))
  else (false, files)

theorem removeFromFile_of_notMem {line : Text} (h : FileHandler) (files : Files)
    (absent : line ∉ h.fileBody.map Prod.snd) : h.removeFromFile files line = (false, files) := by
  have hfind : h.findInFile line = (false, 0) := by
    have none : (h.fileBody.findIdx? fun l => l.2 = line) = none := by
      rw [List.findIdx?_eq_none_iff]
      intro l hl
      rw [decide_eq_false_iff_not]
      rintro rfl
      exact absent (List.mem_map_of_mem hl)
    rw [findInFile, none]
  rw [removeFromFile, hfind, if_neg Bool.false_ne_true]

/-- The first line with the text is left out. -/
theorem removeFromFile_of_append {line : Text} {before after : List Text} (h : FileHandler)
    (files : Files) (lines : h.fileBody.map Prod.snd = before ++ line :: after)
    (first : line ∉ before) :
    h.removeFromFile files line =
      (true, Function.update files h.inputFile
        (some ((before ++ after).flatMap fun line => line ++ ['\n']))) := by
  have hfind : h.findInFile line = (true, before.length) := by
    have found : (h.fileBody.findIdx? fun l => l.2 = line) = some before.length := by
      have none : before.findIdx? (fun t => decide (t = line)) = none := by
        rw [List.findIdx?_eq_none_iff]
        intro t ht
        rw [decide_eq_false_iff_not]
        rintro rfl
        exact first ht
      show h.fileBody.findIdx? ((fun t => decide (t = line)) ∘ Prod.snd) = _
      rw [← List.findIdx?_map, lines, List.findIdx?_append, none]
      simp [List.findIdx?_cons]
    rw [findInFile, found]
  have kept : (h.fileBody.eraseIdx before.length).map Prod.snd = before ++ after := by
    rw [← List.eraseIdx_map, lines, List.eraseIdx_append_of_length_le le_rfl, Nat.sub_self]
    rfl
  rw [removeFromFile, hfind, if_pos rfl, ← kept, List.flatMap_map]

end FileHandler

end Drachma
