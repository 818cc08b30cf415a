import Drachma.Wallet

/-!
# Trace tokens

A trace token is a request of the old trace files: which module of which region is wanted,
when, and for how long, and possibly the token it depends on.  `operator<<` prints a token,
with `", "` between the fields, and the constructor reads one off a line, with `","` between
them.  In a trace file a comma stands before the dependency even if there is none; printed,
a token that depends on nothing ends after its execution time.

The constructor cuts a field off at the next comma.  Where there is none, `find` returns
`npos`, and `npos + 1` is 0: nothing is cut off.

## Main results

* `TraceToken.readBack_fileLine` — a line of a trace file is read back.
* `TraceToken.ofString_print` — what a printed token is read as.
* `TraceToken.survives_iff` — a printed token is read back exactly when it is dependent.
-/

namespace Drachma

open Machine (bind_eq_ok)

/-- `traceToken`. -/
structure TraceToken where
  addressingStaticRegion : Bool
  isDependent : Bool
  regionId : ℕ
  moduleId : ℕ
  requestTime : ℕ
  executionTime : ℕ
  dependencyId : ℕ
deriving DecidableEq, Repr

namespace TraceToken

/-! ## Printing -/

/-- The decimal digits of an `unsigned`. -/
def printUnsigned (n : ℕ) : Text := Nat.toDigits 10 n

/-- `operator<<`. -/
def print (trace : TraceToken) : Text :=
  (if trace.addressingStaticRegion then "s".toList else []) ++
    printUnsigned trace.regionId ++ ", ".toList ++
    printUnsigned trace.moduleId ++ ", ".toList ++
    printUnsigned trace.requestTime ++ ", ".toList ++
    printUnsigned trace.executionTime ++
    if trace.isDependent then ", ".toList ++ printUnsigned trace.dependencyId else []

/-- The line of a token in a trace file. -/
def fileLine (trace : TraceToken) : Text :=
  (if trace.addressingStaticRegion then "s".toList else []) ++
    printUnsigned trace.regionId ++ ",".toList ++
    printUnsigned trace.moduleId ++ ",".toList ++
    printUnsigned trace.requestTime ++ ",".toList ++
    printUnsigned trace.executionTime ++ ",".toList ++
    if trace.isDependent then printUnsigned trace.dependencyId else []

/-! ## Reading -/

/-- `trace_string.find(",")`. -/
def findComma (t : Text) : ℕ :=
  if ',' ∈ t then (t.takeWhile (· ≠ ',')).length else npos

/-- `std::stol`, assigned to an `unsigned`. -/
def readUnsigned (t : Text) : Except LoadError ℕ := do
  let value ← stol t
  return (value % 2 ^ 32).toNat

/-- The text after the next comma. -/
def afterComma (t : Text) : Except LoadError Text :=
  substr t ((findComma t + 1) % 2 ^ 64) none

/-- The region, with the mark of static regions before it, and the text after it. -/
def readRegion (t : Text) : Except LoadError (Bool × ℕ × Text) := do
  let regionId ← substr t 0 (some (findComma t))
  match regionId with
  | [] => .error (.outOfRange "basic_string::at")
  | c :: digits =>
      let id ← readUnsigned (if c = 's' then digits else c :: digits)
      let rest ← afterComma t
      return (c = 's', id, rest)

/-- The next number, and the text after it. -/
def readNumber (t : Text) : Except LoadError (ℕ × Text) := do
  let field ← substr t 0 (some (findComma t))
  let value ← readUnsigned field
  let rest ← afterComma t
  return (value, rest)

/-- The constructor from a line; `raw` is what the memory held. -/
def ofString (raw : TraceToken) (traceString : Text) : Except LoadError TraceToken := do
  let (addressingStaticRegion, regionId, rest) ← readRegion traceString
  let (moduleId, rest) ← readNumber rest
  let (requestTime, rest) ← readNumber rest
  let (executionTime, rest) ← readNumber rest
  if rest ≠ [] then
    let dependencyId ← readUnsigned rest
    return { addressingStaticRegion, isDependent := true, regionId, moduleId, requestTime,
             executionTime, dependencyId }
  else
    return { raw with
      addressingStaticRegion, isDependent := false, regionId, moduleId, requestTime,
      executionTime }

/-! ## Numbers are read back -/

theorem isDigit_of_mem_printUnsigned {n : ℕ} {c : Char} (h : c ∈ printUnsigned n) :
    c.isDigit = true :=
  Nat.isDigit_of_mem_toDigits (by decide) (by decide) h

theorem printUnsigned_ne_nil (n : ℕ) : printUnsigned n ≠ [] := Nat.toDigits_ne_nil

theorem ne_of_isDigit {c d : Char} (hc : c.isDigit = true) (hd : d.isDigit = false) : c ≠ d := by
  rintro rfl
  rw [hc] at hd
  cases hd

theorem isSpace_of_isDigit {c : Char} (h : c.isDigit = true) : isSpace c = false := by
  unfold isSpace
  rw [decide_eq_false_iff_not]
  simp only [List.mem_cons, List.not_mem_nil, or_false, not_or]
  refine ⟨?_, ?_, ?_, ?_, ?_, ?_⟩ <;> exact ne_of_isDigit h (by decide)

/-- A number is read back, after blanks. -/
theorem readInteger_printUnsigned (n : ℕ) {blank : Text} (blanks : Blank blank) :
    readInteger (blank ++ printUnsigned n) = some (n : ℤ) := by
  obtain ⟨c, digits, hdigits⟩ : ∃ c digits, printUnsigned n = c :: digits :=
    List.exists_cons_of_ne_nil (printUnsigned_ne_nil n)
  have digit : ∀ d ∈ c :: digits, d.isDigit = true := fun d hd =>
    isDigit_of_mem_printUnsigned (hdigits ▸ hd)
  have first := digit c List.mem_cons_self
  have start : (blank ++ printUnsigned n).dropWhile isSpace = c :: digits := by
    rw [List.dropWhile_append_of_pos blanks, hdigits, List.dropWhile_cons_of_neg]
    rw [isSpace_of_isDigit first]
    exact Bool.false_ne_true
  have leading : leadingDigits (c :: digits) = c :: digits :=
    List.takeWhile_eq_self_iff.mpr digit
  have value : ofDigits (c :: digits) = n := by
    rw [← hdigits]
    exact Nat.ofDigitChars_ten_toDigits
  unfold readInteger
  rw [start]
  split
  · rename_i h
    exact absurd (List.cons.inj h).1 (ne_of_isDigit first (by decide))
  · rename_i h
    exact absurd (List.cons.inj h).1 (ne_of_isDigit first (by decide))
  · dsimp only
    rw [leading, if_neg (List.cons_ne_nil c digits), value]

theorem readUnsigned_printUnsigned {n : ℕ} (fits : n < 2 ^ 32) {blank : Text}
    (blanks : Blank blank) : readUnsigned (blank ++ printUnsigned n) = .ok n := by
  have long : FitsLong (n : ℤ) := by
    unfold FitsLong
    omega
  unfold readUnsigned stol
  rw [readInteger_printUnsigned n blanks]
  dsimp only
  rw [if_pos long, Machine.ok_bind, Int.emod_eq_of_lt (Int.natCast_nonneg n) (by omega),
    Int.toNat_natCast]
  rfl

theorem comma_notMem {blank : Text} (blanks : Blank blank) (n : ℕ) :
    ',' ∉ blank ++ printUnsigned n := by
  intro h
  rcases List.mem_append.mp h with h | h
  · exact absurd (blanks _ h) (by decide)
  · exact absurd (isDigit_of_mem_printUnsigned h) (by decide)

/-- A number has ten digits at most. -/
theorem length_printUnsigned {n : ℕ} (fits : n < 2 ^ 32) : (printUnsigned n).length ≤ 10 :=
  (Nat.length_toDigits_le_iff (by decide) (by decide)).mpr (fits.trans (by decide))

/-! ## Fields are cut off -/

variable {field rest : Text}

theorem findComma_append (noComma : ',' ∉ field) (rest : Text) :
    findComma (field ++ ',' :: rest) = field.length := by
  unfold findComma
  rw [if_pos (by simp), (takeWhile_ne noComma rest).1]

theorem findComma_of_notMem (noComma : ',' ∉ field) : findComma field = npos :=
  if_neg noComma

theorem afterComma_append (noComma : ',' ∉ field) (short : field.length + 1 < 2 ^ 64) :
    afterComma (field ++ ',' :: rest) = .ok rest := by
  unfold afterComma substr
  rw [findComma_append noComma, Nat.mod_eq_of_lt short, if_neg (by simp)]
  simp

/-- **Where there is no comma, nothing is cut off.** -/
theorem afterComma_of_notMem (noComma : ',' ∉ field) : afterComma field = .ok field := by
  unfold afterComma
  rw [findComma_of_notMem noComma]
  rfl

theorem substr_findComma_append (noComma : ',' ∉ field) :
    substr (field ++ ',' :: rest) 0 (some (findComma (field ++ ',' :: rest))) = .ok field := by
  unfold substr
  rw [findComma_append noComma, if_neg (Nat.not_lt_zero _), List.drop_zero]
  dsimp only
  rw [List.take_left]

theorem substr_findComma_of_notMem (noComma : ',' ∉ field) (short : field.length ≤ npos) :
    substr field 0 (some (findComma field)) = .ok field := by
  unfold substr
  rw [findComma_of_notMem noComma, if_neg (Nat.not_lt_zero _), List.drop_zero]
  dsimp only
  rw [List.take_of_length_le short]

section Number

variable {n : ℕ} {blank : Text}

/-- A number with a comma after it. -/
theorem readNumber_append (fits : n < 2 ^ 32) (blanks : Blank blank)
    (short : blank.length ≤ 1) :
    readNumber (blank ++ printUnsigned n ++ ',' :: rest) = .ok (n, rest) := by
  have noComma := comma_notMem blanks n
  have length := length_printUnsigned fits
  have cut : (blank ++ printUnsigned n).length + 1 < 2 ^ 64 := by
    rw [List.length_append]
    omega
  unfold readNumber
  rw [substr_findComma_append noComma, Machine.ok_bind, readUnsigned_printUnsigned fits blanks,
    Machine.ok_bind, afterComma_append noComma cut]
  rfl

/-- A number at the end is read again. -/
theorem readNumber_of_last (fits : n < 2 ^ 32) (blanks : Blank blank)
    (short : blank.length ≤ 1) :
    readNumber (blank ++ printUnsigned n) = .ok (n, blank ++ printUnsigned n) := by
  have noComma := comma_notMem blanks n
  have length := length_printUnsigned fits
  have cut : (blank ++ printUnsigned n).length ≤ npos := by
    rw [List.length_append]
    unfold npos
    omega
  unfold readNumber
  rw [substr_findComma_of_notMem noComma cut, Machine.ok_bind,
    readUnsigned_printUnsigned fits blanks, Machine.ok_bind, afterComma_of_notMem noComma]
  rfl

/-- The region, with or without its mark, and a comma after it. -/
theorem readRegion_append (fits : n < 2 ^ 32) (mark : Bool) :
    readRegion ((if mark then "s".toList else []) ++ printUnsigned n ++ ',' :: rest) =
      .ok (mark, n, rest) := by
  have noBlanks : Blank [] := fun c hc => absurd hc List.not_mem_nil
  have value : readUnsigned (printUnsigned n) = .ok n := readUnsigned_printUnsigned fits noBlanks
  have length := length_printUnsigned fits
  cases mark with
  | true =>
      have noComma : ',' ∉ 's' :: printUnsigned n := by
        rw [List.mem_cons, not_or]
        exact ⟨by decide, comma_notMem noBlanks n⟩
      have cut : ('s' :: printUnsigned n).length + 1 < 2 ^ 64 := by
        rw [List.length_cons]
        omega
      show readRegion ('s' :: printUnsigned n ++ ',' :: rest) = _
      unfold readRegion
      rw [substr_findComma_append noComma, Machine.ok_bind]
      dsimp only
      rw [if_pos rfl, value, Machine.ok_bind, afterComma_append noComma cut]
      rfl
  | false =>
      have noComma : ',' ∉ printUnsigned n := comma_notMem noBlanks n
      have cut : (printUnsigned n).length + 1 < 2 ^ 64 := by omega
      obtain ⟨c, digits, hdigits⟩ : ∃ c digits, printUnsigned n = c :: digits :=
        List.exists_cons_of_ne_nil (printUnsigned_ne_nil n)
      have first : c ≠ 's' :=
        ne_of_isDigit (isDigit_of_mem_printUnsigned (hdigits ▸ List.mem_cons_self)) (by decide)
      show readRegion (printUnsigned n ++ ',' :: rest) = _
      unfold readRegion
      rw [substr_findComma_append noComma, Machine.ok_bind, hdigits]
      dsimp only
      rw [if_neg first, ← hdigits, value, Machine.ok_bind, afterComma_append noComma cut,
        decide_eq_false first]
      rfl

end Number

/-! ## Tokens are read back -/

/-- The fields of the token are `unsigned`s. -/
structure Fits (trace : TraceToken) : Prop where
  regionId : trace.regionId < 2 ^ 32
  moduleId : trace.moduleId < 2 ^ 32
  requestTime : trace.requestTime < 2 ^ 32
  executionTime : trace.executionTime < 2 ^ 32
  dependencyId : trace.dependencyId < 2 ^ 32

/-- The same token: the dependency counts where there is one. -/
structure Same (trace other : TraceToken) : Prop where
  addressingStaticRegion : other.addressingStaticRegion = trace.addressingStaticRegion
  regionId : other.regionId = trace.regionId
  moduleId : other.moduleId = trace.moduleId
  requestTime : other.requestTime = trace.requestTime
  executionTime : other.executionTime = trace.executionTime
  isDependent : other.isDependent = trace.isDependent
  dependencyId : trace.isDependent = true → other.dependencyId = trace.dependencyId

/-- The token is read back off a text. -/
def ReadBack (trace : TraceToken) (text : Text) : Prop :=
  ∀ raw, ∃ other, ofString raw text = .ok other ∧ trace.Same other

variable {trace raw : TraceToken}

/-- The beginning of a token's text, with `blank` after the commas. -/
theorem ofString_fields (fits : trace.Fits) {blank : Text} (blanks : Blank blank)
    (short : blank.length ≤ 1) (last : Text) :
    ofString raw ((if trace.addressingStaticRegion then "s".toList else []) ++
        printUnsigned trace.regionId ++ ',' :: (blank ++ printUnsigned trace.moduleId ++
          ',' :: (blank ++ printUnsigned trace.requestTime ++ ',' :: last))) = do
      let (executionTime, rest) ← readNumber last
      if rest ≠ [] then
        let dependencyId ← readUnsigned rest
        return { trace with isDependent := true, executionTime, dependencyId }
      else
        return { trace with
          isDependent := false, executionTime, dependencyId := raw.dependencyId } := by
  unfold ofString
  rw [readRegion_append fits.regionId, Machine.ok_bind]
  dsimp only
  rw [readNumber_append fits.moduleId blanks short, Machine.ok_bind]
  dsimp only
  rw [readNumber_append fits.requestTime blanks short, Machine.ok_bind]

theorem blank_nil : Blank [] := fun _ hc => absurd hc List.not_mem_nil

theorem blank_singleton : Blank [' '] := by
  intro c hc
  rw [List.mem_singleton.mp hc]
  rfl

/-- **A line of a trace file is read back.** -/
theorem readBack_fileLine (fits : trace.Fits) : trace.ReadBack trace.fileLine := by
  intro raw
  have text : trace.fileLine =
      (if trace.addressingStaticRegion then "s".toList else []) ++
        printUnsigned trace.regionId ++ ',' :: ([] ++ printUnsigned trace.moduleId ++
          ',' :: ([] ++ printUnsigned trace.requestTime ++
            ',' :: ([] ++ printUnsigned trace.executionTime ++
              ',' :: if trace.isDependent then printUnsigned trace.dependencyId else []))) := by
    unfold fileLine
    simp
  rw [text, ofString_fields fits blank_nil (Nat.zero_le 1),
    readNumber_append fits.executionTime blank_nil (Nat.zero_le 1), Machine.ok_bind]
  dsimp only
  cases dependent : trace.isDependent with
  | true =>
      have value : readUnsigned (printUnsigned trace.dependencyId) = .ok trace.dependencyId :=
        readUnsigned_printUnsigned fits.dependencyId blank_nil
      rw [if_pos rfl, if_pos (printUnsigned_ne_nil _), value]
      exact ⟨_, rfl, rfl, rfl, rfl, rfl, rfl, dependent.symm, fun _ => rfl⟩
  | false =>
      rw [if_neg Bool.false_ne_true, if_neg (by simp)]
      exact ⟨_, rfl, rfl, rfl, rfl, rfl, rfl, dependent.symm, fun h => by
        rw [dependent] at h; cases h⟩

/-- **What a printed token is read as**: the token itself if it is dependent, and else one
that depends on its execution time. -/
theorem ofString_print (fits : trace.Fits) :
    ofString raw trace.print = .ok { trace with
      isDependent := true
      dependencyId := if trace.isDependent then trace.dependencyId else trace.executionTime } := by
  have text : trace.print =
      (if trace.addressingStaticRegion then "s".toList else []) ++
        printUnsigned trace.regionId ++ ',' :: ([' '] ++ printUnsigned trace.moduleId ++
          ',' :: ([' '] ++ printUnsigned trace.requestTime ++
            ',' :: ([' '] ++ printUnsigned trace.executionTime ++
              if trace.isDependent then
                ',' :: ([' '] ++ printUnsigned trace.dependencyId) else []))) := by
    unfold print
    simp
  rw [text, ofString_fields fits blank_singleton (Nat.le_refl 1)]
  cases dependent : trace.isDependent with
  | true =>
      rw [if_pos rfl, if_pos rfl, readNumber_append fits.executionTime blank_singleton
        (Nat.le_refl 1), Machine.ok_bind]
      dsimp only
      rw [if_pos (by simp), readUnsigned_printUnsigned fits.dependencyId blank_singleton]
      rfl
  | false =>
      -- the execution time is what is left after it has been read
      rw [if_neg Bool.false_ne_true, if_neg Bool.false_ne_true, List.append_nil,
        readNumber_of_last fits.executionTime blank_singleton (Nat.le_refl 1), Machine.ok_bind]
      dsimp only
      rw [if_pos (by simp), readUnsigned_printUnsigned fits.executionTime blank_singleton]
      rfl

theorem isDependent_of_readBack_print (fits : trace.Fits) (printed : trace.ReadBack trace.print) :
    trace.isDependent = true := by
  obtain ⟨other, hread, same⟩ := printed trace
  rw [ofString_print fits] at hread
  cases hread
  exact same.isDependent.symm

/-- The token survives printing, and it survives being written to a trace file. -/
def Survives (trace : TraceToken) : Prop :=
  trace.ReadBack trace.print ∧ trace.ReadBack trace.fileLine

/-- **Which tokens survive**: the dependent ones.  The others survive in a trace file only. -/
theorem survives_iff (fits : trace.Fits) : trace.Survives ↔ trace.isDependent = true := by
  constructor
  · rintro ⟨printed, -⟩
    exact isDependent_of_readBack_print fits printed
  · intro dependent
    refine ⟨fun raw => ⟨_, ofString_print fits, rfl, rfl, rfl, rfl, rfl, dependent.symm,
      fun _ => ?_⟩, readBack_fileLine fits⟩
    exact if_pos dependent

/-- A request of the static region that depends on nothing. -/
def staticRequest : TraceToken :=
  { addressingStaticRegion := true, isDependent := false, regionId := 0, moduleId := 1
    requestTime := 38, executionTime := 25, dependencyId := 0 }

theorem staticRequest_fits : staticRequest.Fits where
  regionId := by decide
  moduleId := by decide
  requestTime := by decide
  executionTime := by decide
  dependencyId := by decide

/-- The request with a dependency. -/
theorem survives_iff_dependentRequest :
    let request : TraceToken := { staticRequest with isDependent := true, dependencyId := 7 }
    request.Survives ∧ request.isDependent = true := by
  have fits : Fits { staticRequest with isDependent := true, dependencyId := 7 } :=
    { staticRequest_fits with dependencyId := by decide }
  exact ⟨(survives_iff fits).mpr rfl, rfl⟩

/-- **A token that depends on nothing does not survive printing.** -/
theorem staticRequest_not_survives : ¬ staticRequest.Survives := by
  rintro ⟨printed, -⟩
  cases isDependent_of_readBack_print staticRequest_fits printed

end TraceToken

end Drachma
