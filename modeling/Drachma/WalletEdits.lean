import Drachma.FileGrammar
import Drachma.WalletLoading

/-!
# Editing the wallet

An entry is added by appending a line to the wallet file, and removed by writing the
file again without a line.  Adding agrees with the parser: the line comes last, and it
is read as a parameter unless a comment block is open where the file ends.  Removing
does not: it looks for the text `key: name`, in comments too, while the parser leaves
comments out and reads any blanks around the name.

## Main results

* `Wallet.adds_entry` — adding an entry adds it as the last one of its kind.
* `Wallet.removesEntry_iff` — when removing an entry removes it.
-/

namespace Drachma

namespace Wallet

variable {files : Files} {input content name : Text} {h : FileHandler} {kind : Kind}

/-! ## Adding -/

theorem parseContent_entry (block : Bool) (kind : Kind) (name : Text) :
    parseContent block [kind.tag ++ name] =
      [(if block then .comment else .unknown, kind.tag ++ name)] := by
  rw [parseContent, classifyLine_entry]
  rfl

/-- What adding an entry appends to the lines of a file. -/
theorem parseContent_added (content : Text) (kind : Kind) (oneLine : '\n' ∉ name) :
    ∃ blank, (blank = [] ∨
        blank = [(if blockAfter false (getLines content) then .comment else .white, [])]) ∧
      parseContent false (getLines (content ++ '\n' :: (kind.tag ++ name))) =
        parseContent false (getLines content) ++ (blank ++
          [(if blockAfter false (getLines content) then .comment else .unknown,
            kind.tag ++ name)]) := by
  obtain ⟨blank, hblank, hlines⟩ := getLines_append content (kind.tag ++ name)
  rw [hlines, parseContent_append, getLines_entry kind oneLine, parseContent_append,
    ← parseContent_entry]
  generalize blockAfter false (getLines content) = block
  rcases hblank with rfl | rfl
  · exact ⟨[], .inl rfl, rfl⟩
  · cases block with
    | false => exact ⟨_, .inr rfl, rfl⟩
    | true => exact ⟨_, .inr rfl, rfl⟩

theorem addToFile_of_new (hfile : files input = some content)
    (made : FileHandler.new files input walletRules = .ok h) (kind : Kind) (name : Text) :
    h.addToFile files (kind.tag ++ name) input = some (content ++ '\n' :: (kind.tag ++ name)) := by
  obtain ⟨rfl, -⟩ := FileHandler.read_of_new hfile made
  rw [FileHandler.addToFile, Function.update_self, hfile]
  rfl

theorem parseEntry_added (kind : Kind) (argument : ¬ Blank name) :
    parseEntry walletRules (kind.tag ++ name) = (.parameter, [(kind.key, trim name)]) := by
  rw [parseEntry_tag, if_neg (mt trim_eq_nil_iff.mp argument)]

/-- The file stays valid, and the new line is its last parameter. -/
theorem params_added (hfile : files input = some content)
    (made : FileHandler.new files input walletRules = .ok h) (valid : h.isValid = true)
    (kind : Kind) (oneLine : '\n' ∉ name) (argument : ¬ Blank name) :
    ∃ h', FileHandler.new (h.addToFile files (kind.tag ++ name)) input walletRules = .ok h' ∧
      h'.isValid = true ∧
      h'.paramDictionary = h.paramDictionary ++
        if blockAfter false (getLines content) then [] else [(kind.key, trim name)] := by
  obtain ⟨-, accepted, hread⟩ := FileHandler.read_of_new hfile made
  obtain ⟨params, -⟩ := hread valid
  have lines : contentLines false (getLines (content ++ '\n' :: (kind.tag ++ name))) =
      contentLines false (getLines content) ++ addedLines content kind name := contentLines_added
  rw [addedLines_eq oneLine] at lines
  obtain ⟨h', made'⟩ := FileHandler.exists_new (addToFile_of_new hfile made kind name) walletRules
  obtain ⟨-, accepted', hread'⟩ :=
    FileHandler.read_of_new (addToFile_of_new hfile made kind name) made'
  rw [lines, FileRules.acceptsAll_append] at accepted'
  have valid' : h'.isValid = true := by
    refine accepted'.mpr ⟨accepted.mp valid, fun line hline => ?_⟩
    split at hline
    · cases hline
    · obtain rfl := List.mem_singleton.mp hline
      unfold FileRules.Accepts
      rw [parseEntry_added kind argument]
      exact LineType.noConfusion
  refine ⟨h', made', valid', ?_⟩
  rw [(hread' valid').1, lines, FileRules.params_append, ← params]
  split
  · rfl
  · rw [FileRules.params_singleton, parseEntry_added kind argument]

/-- Every line keeps its type. -/
theorem fileBody_added {h' : FileHandler} (hfile : files input = some content)
    (made : FileHandler.new files input walletRules = .ok h) (valid : h.isValid = true)
    (kind : Kind) (oneLine : '\n' ∉ name) (argument : ¬ Blank name)
    (made' : FileHandler.new (h.addToFile files (kind.tag ++ name)) input walletRules = .ok h')
    (valid' : h'.isValid = true) :
    ∃ blank, (blank = [] ∨
        blank = [(if blockAfter false (getLines content) then .comment else .white, [])]) ∧
      h'.fileBody = h.fileBody ++ blank ++
        [(if blockAfter false (getLines content) then .comment else .parameter,
          kind.tag ++ name)] := by
  have body := (FileHandler.fileBody_of_new hfile made).2 valid
  have body' := (FileHandler.fileBody_of_new (addToFile_of_new hfile made kind name) made').2 valid'
  obtain ⟨blank, hblank, hparse⟩ := parseContent_added content kind oneLine
  rw [hparse, List.map_append, ← body, List.map_append, ← List.append_assoc] at body'
  refine ⟨blank.map walletRules.settle, ?_, ?_⟩
  · rcases hblank with rfl | rfl
    · exact .inl rfl
    · -- a comment and an empty line have their types already
      refine .inr ?_
      split
      · rfl
      · rfl
  · rw [body', List.map_singleton, FileRules.settle]
    split
    · rfl
    · rw [if_pos rfl, parseEntry_added kind argument]

/-- **Adding an entry adds exactly that entry.**  A valid file stays valid, and every
line keeps its type.  The new line is the last parameter of its kind, unless a comment
block is open at the end of the file. -/
theorem adds_entry (hfile : files input = some content)
    (made : FileHandler.new files input walletRules = .ok h) (valid : h.isValid = true)
    (kind : Kind) (oneLine : '\n' ∉ name) (argument : ¬ Blank name) :
    ∃ h', FileHandler.new (h.addToFile files (kind.tag ++ name)) input walletRules = .ok h' ∧
      h'.isValid = true ∧
      (blockAfter false (getLines content) = false →
        h'.getParams.Perm (h.getParams ++ [(kind.key, trim name)]) ∧
        (∀ key, (h'.getParams.filter fun e => e.1 = key) =
          (h.getParams ++ [(kind.key, trim name)]).filter fun e => e.1 = key) ∧
        ∃ blank, (blank = [] ∨ blank = [(.white, [])]) ∧
          h'.fileBody = h.fileBody ++ blank ++ [(.parameter, kind.tag ++ name)]) ∧
      (blockAfter false (getLines content) = true →
        h'.getParams = h.getParams ∧
        ∃ blank, (blank = [] ∨ blank = [(.comment, [])]) ∧
          h'.fileBody = h.fileBody ++ blank ++ [(.comment, kind.tag ++ name)]) := by
  obtain ⟨h', made', valid', params⟩ := params_added hfile made valid kind oneLine argument
  obtain ⟨blank, hblank, body⟩ :=
    fileBody_added hfile made valid kind oneLine argument made' valid'
  refine ⟨h', made', valid', fun closed => ?_, fun opened => ?_⟩
  · rw [closed] at params hblank body
    rw [if_neg Bool.false_ne_true] at params
    refine ⟨?_, fun key => ?_, blank, hblank, body⟩
    · refine (List.perm_insertionSort _ _).trans ?_
      rw [params]
      exact (List.perm_insertionSort _ _).symm.append_right _
    · rw [FileHandler.filter_getParams, params, List.filter_append, List.filter_append,
        FileHandler.filter_getParams]
  · rw [opened] at params hblank body
    rw [if_pos rfl, List.append_nil] at params
    refine ⟨?_, blank, hblank, body⟩
    rw [FileHandler.getParams, params]
    rfl

/-- A wallet with a comment, without a line break at its end. -/
def commentedWallet : Files := fun _ => some "m: x\n/#\nm: y\n#/\na:  z ".toList

theorem adds_entry_commented :
    ∃ h h', FileHandler.new commentedWallet [] walletRules = .ok h ∧
      FileHandler.new (h.addToFile commentedWallet (Kind.memory.tag ++ "w".toList)) [] walletRules =
        .ok h' ∧ h'.getParams.Perm (h.getParams ++ [("m".toList, "w".toList)]) := by
  obtain ⟨h, made, valid⟩ := Machine.map_eq_ok.mp
    (show (FileHandler.new commentedWallet [] walletRules).map (fun h => h.isValid) = .ok true by
      decide +kernel)
  have hfile : commentedWallet [] = some _ := rfl
  have argument : ¬ Blank "w".toList := fun blank => absurd (blank 'w' (by simp)) (by decide)
  obtain ⟨h', made', -, hclosed, -⟩ := adds_entry hfile made valid .memory (by decide) argument
  have closed : blockAfter false (getLines "m: x\n/#\nm: y\n#/\na:  z ".toList) = false := by
    decide +kernel
  exact ⟨h, h', made, made', (hclosed closed).1⟩

/-! ## Removing -/

/-- **Removing an entry removes that entry**: it is reported as found exactly if the
wallet has it, and then the file has one such entry less; otherwise the file is as it
was. -/
def RemovesEntry (h : FileHandler) (files : Files) (kind : Kind) (name : Text) : Prop :=
  let removed := h.removeFromFile files (kind.tag ++ name)
  (removed.1 = true ↔ (kind.key, name) ∈ h.getParams) ∧
    (removed.1 = true → ∃ h', FileHandler.new removed.2 h.inputFile walletRules = .ok h' ∧
      h'.isValid = true ∧
      (∃ before after,
        (h.getParams.filter fun e => e.1 = kind.key) = before ++ (kind.key, name) :: after ∧
        (h'.getParams.filter fun e => e.1 = kind.key) = before ++ after) ∧
      ∀ key, key ≠ kind.key →
        (h'.getParams.filter fun e => e.1 = key) = h.getParams.filter fun e => e.1 = key) ∧
    (removed.1 = false → removed.2 = files)

/-- The lines of the file before the first one with this text. -/
def linesBefore (content line : Text) : List Text := (getLines content).takeWhile (· ≠ line)

/-- The content of a file with the line of an entry, and without it. -/
theorem contentLines_with_entry (before after : List Text) (kind : Kind) (name : Text) :
    contentLines false (before ++ (kind.tag ++ name) :: after) =
      contentLines false before ++ ((if blockAfter false before then [] else [kind.tag ++ name]) ++
        contentLines (blockAfter false before) after) := by
  have same : blockAfter (blockAfter false before) [kind.tag ++ name] = blockAfter false before :=
    congrArg Prod.fst (classifyLine_entry _ kind name)
  rw [contentLines_append, ← List.singleton_append, contentLines_append, contentLines_entry, same]

/-- What is written when a line is removed. -/
theorem exists_removed {line : Text} {before after : List Text} (hfile : files input = some content)
    (made : FileHandler.new files input walletRules = .ok h)
    (hlines : getLines content = before ++ line :: after) (first : line ∉ before) :
    ∃ files' text, h.removeFromFile files line = (true, files') ∧ files' input = some text ∧
      getLines text = before ++ after := by
  obtain ⟨-, -, rfl, -⟩ := FileHandler.spec_of_new made
  have body := (FileHandler.fileBody_of_new hfile made).1
  refine ⟨_, _, FileHandler.removeFromFile_of_append h files (body.trans hlines) first,
    Function.update_self .., getLines_flatMap ?_⟩
  intro l hl
  have kept : l ∈ getLines content := by
    rw [hlines]
    rcases List.mem_append.mp hl with hl | hl
    · exact List.mem_append_left _ hl
    · exact List.mem_append_right _ (List.mem_cons_of_mem _ hl)
  exact notMem_of_mem_getLines kept

/-- **What removing the line of an entry does**: the file stays valid, and its parameters
are the others, if the line was one. -/
theorem params_removed {before after : List Text} (hfile : files input = some content)
    (made : FileHandler.new files input walletRules = .ok h) (valid : h.isValid = true)
    (hlines : getLines content = before ++ (kind.tag ++ name) :: after)
    (first : kind.tag ++ name ∉ before) :
    ∃ files' h' p q, h.removeFromFile files (kind.tag ++ name) = (true, files') ∧
      FileHandler.new files' input walletRules = .ok h' ∧ h'.isValid = true ∧
      h'.paramDictionary = p ++ q ∧
      h.paramDictionary =
        p ++ ((if blockAfter false before then [] else [(kind.key, trim name)]) ++ q) := by
  obtain ⟨files', text, hremoved, htext, hlines'⟩ := exists_removed hfile made hlines first
  obtain ⟨-, accepted, hread⟩ := FileHandler.read_of_new hfile made
  obtain ⟨h', made'⟩ := FileHandler.exists_new htext walletRules
  obtain ⟨-, accepted', hread'⟩ := FileHandler.read_of_new htext made'
  rw [hlines, contentLines_with_entry] at accepted hread
  rw [hlines', contentLines_append] at accepted' hread'
  have all := accepted.mp valid
  rw [FileRules.acceptsAll_append, FileRules.acceptsAll_append] at all
  obtain ⟨left, line, right⟩ := all
  have valid' := accepted'.mpr (FileRules.acceptsAll_append.mpr ⟨left, right⟩)
  refine ⟨files', h', walletRules.params (contentLines false before),
    walletRules.params (contentLines (blockAfter false before) after), hremoved, made', valid',
    ?_, ?_⟩
  · rw [(hread' valid').1, FileRules.params_append]
  · rw [(hread valid).1, FileRules.params_append, FileRules.params_append]
    cases hblock : blockAfter false before with
    | true => rfl
    | false =>
        rw [hblock] at line
        -- the line is accepted, so that it has an argument
        have argument : trim name ≠ [] := by
          intro blank
          refine line _ (List.mem_singleton.mpr rfl) ?_
          rw [parseEntry_tag, if_pos blank]
        rw [if_neg Bool.false_ne_true, if_neg Bool.false_ne_true, FileRules.params_singleton,
          parseEntry_tag, if_neg argument]

/-- The name of a parameter is trimmed. -/
theorem trim_of_mem_getParams (made : FileHandler.new files input walletRules = .ok h)
    (valid : h.isValid = true) {e : Text × Text} (he : e ∈ h.getParams) : trim e.2 = e.2 := by
  obtain ⟨content, -, -, -, hread⟩ := FileHandler.spec_of_new made
  rw [FileHandler.mem_getParams, (hread valid).1, FileRules.mem_params_iff] at he
  obtain ⟨line, -, rest, -, -, -, harg⟩ := he
  rw [harg, trim_trim]

/-- Removing a line that is there removes the entry if the line is one, and says exactly
its name. -/
theorem removesEntry_of_append {before after : List Text} (hfile : files input = some content)
    (made : FileHandler.new files input walletRules = .ok h) (valid : h.isValid = true)
    (hlines : getLines content = before ++ (kind.tag ++ name) :: after)
    (first : kind.tag ++ name ∉ before) :
    RemovesEntry h files kind name ↔ blockAfter false before = false ∧ trim name = name := by
  obtain ⟨files', h', p, q, hremoved, made', valid', params', params⟩ :=
    params_removed hfile made valid hlines first
  obtain ⟨-, -, rfl, -⟩ := FileHandler.spec_of_new made
  rw [RemovesEntry, hremoved]
  cases hblock : blockAfter false before with
  | true =>
      -- the line is in a comment block: the parameters stay as they are
      rw [hblock, if_pos rfl, List.nil_append, ← params'] at params
      refine iff_of_false ?_ (by simp)
      rintro ⟨-, removes, -⟩
      obtain ⟨h'', made'', -, ⟨left, right, hleft, hright⟩, -⟩ := removes rfl
      obtain rfl := Except.ok.inj (made'.symm.trans made'')
      rw [FileHandler.filter_getParams, ← params, ← FileHandler.filter_getParams, hleft] at hright
      have := congrArg List.length hright
      simp at this
  | false =>
      rw [hblock, if_neg Bool.false_ne_true, List.singleton_append] at params
      constructor
      · rintro ⟨listed, -, -⟩
        exact ⟨rfl, trim_of_mem_getParams made valid (listed.mp rfl)⟩
      · rintro ⟨-, trimmed⟩
        rw [trimmed] at params
        refine ⟨iff_of_true rfl ?_, fun _ => ⟨h', made', valid', ?_, ?_⟩, fun h => by cases h⟩
        · rw [FileHandler.mem_getParams, params]
          simp
        · refine ⟨p.filter fun e => e.1 = kind.key, q.filter fun e => e.1 = kind.key, ?_, ?_⟩
          · rw [FileHandler.filter_getParams, params, List.filter_append,
              List.filter_cons_of_pos (by simp)]
          · rw [FileHandler.filter_getParams, params', List.filter_append]
        · intro key hkey
          rw [FileHandler.filter_getParams, FileHandler.filter_getParams, params, params',
            List.filter_append, List.filter_append,
            List.filter_cons_of_neg (by simpa using hkey.symm)]

/-- **When removing an entry removes it.**  Either no line has the text that is looked
for and the wallet has no such entry, or the first line that has it is outside of
comments and the name has no blanks at its ends. -/
theorem removesEntry_iff (hfile : files input = some content)
    (made : FileHandler.new files input walletRules = .ok h) (valid : h.isValid = true)
    (kind : Kind) (name : Text) :
    RemovesEntry h files kind name ↔
      (kind.tag ++ name ∉ getLines content ∧
        ∀ line ∈ contentLines false (getLines content),
          ¬ walletRules.IsEntry line (kind.key, name)) ∨
      (kind.tag ++ name ∈ getLines content ∧
        blockAfter false (linesBefore content (kind.tag ++ name)) = false ∧
        trim name = name) := by
  by_cases found : kind.tag ++ name ∈ getLines content
  · obtain ⟨before, after, hlines, first⟩ := List.eq_append_cons_of_mem found
    have hbefore : linesBefore content (kind.tag ++ name) = before := by
      rw [linesBefore, hlines]
      exact (takeWhile_ne first after).1
    rw [removesEntry_of_append hfile made valid hlines first, hbefore]
    simp [found]
  · obtain ⟨-, -, hread⟩ := FileHandler.read_of_new hfile made
    have hremoved : h.removeFromFile files (kind.tag ++ name) = (false, files) := by
      apply FileHandler.removeFromFile_of_notMem
      rwa [(FileHandler.fileBody_of_new hfile made).1]
    have listed : (kind.key, name) ∈ h.getParams ↔
        ∃ line ∈ contentLines false (getLines content),
          walletRules.IsEntry line (kind.key, name) := by
      rw [FileHandler.mem_getParams, (hread valid).1, FileRules.mem_params_iff]
    rw [RemovesEntry, hremoved, listed]
    simp [found]

theorem removesEntry_iff_commented :
    ∃ h, FileHandler.new commentedWallet [] walletRules = .ok h ∧
      RemovesEntry h commentedWallet .memory "x".toList := by
  obtain ⟨h, made, valid⟩ := Machine.map_eq_ok.mp
    (show (FileHandler.new commentedWallet [] walletRules).map (fun h => h.isValid) = .ok true by
      decide +kernel)
  have hfile : commentedWallet [] = some _ := rfl
  refine ⟨h, made, (removesEntry_iff hfile made valid .memory "x".toList).mpr (.inr ?_)⟩
  decide +kernel

/-- Every name is a file with this text. -/
def oneText (content : Text) : Files := fun _ => some content

/-- A valid wallet of which an entry is not removed as it should be. -/
def RemovesWrongly (content name : Text) : Prop :=
  ∃ h, FileHandler.new (oneText content) [] walletRules = .ok h ∧ h.isValid = true ∧
    ¬ RemovesEntry h (oneText content) .memory name

/-- A line is found exactly where there is no entry. -/
theorem removesWrongly_of_run {content name : Text} (found : Bool)
    (run : (FileHandler.new (oneText content) [] walletRules).map (fun h => (h.isValid,
      (h.removeFromFile (oneText content) (Kind.memory.tag ++ name)).1,
      decide ((Kind.memory.key, name) ∈ h.getParams))) = .ok (true, found, !found)) :
    RemovesWrongly content name := by
  obtain ⟨h, made, hread⟩ := Machine.map_eq_ok.mp run
  rw [Prod.mk.injEq, Prod.mk.injEq] at hread
  obtain ⟨valid, hfound, hlisted⟩ := hread
  refine ⟨h, made, valid, ?_⟩
  rintro ⟨listed, -⟩
  rw [hfound, ← decide_eq_true_iff (p := _ ∈ h.getParams), hlisted] at listed
  cases found with
  | false => simp at listed
  | true => simp at listed

/-- **Entries that are not removed, and what is removed though it is no entry**: a name
without a blank before it, a line in a comment block, and a name with a blank behind. -/
theorem removes_not_entry :
    RemovesWrongly "m:x".toList "x".toList ∧
      RemovesWrongly "/#\nm: x\n#/".toList "x".toList ∧
      RemovesWrongly "m: x ".toList "x ".toList := by
  refine ⟨?_, ?_, ?_⟩
  · exact removesWrongly_of_run false (by decide +kernel)
  · exact removesWrongly_of_run true (by decide +kernel)
  · exact removesWrongly_of_run true (by decide +kernel)

end Wallet

end Drachma
