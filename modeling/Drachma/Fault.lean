import Drachma.Lib.PartialRun
import Mathlib.Data.Rat.Floor

/-!
# Faults, pointers, buses and machine numbers

The simulator is a C++ program whose steps can go wrong: an exception leaves
`main`, a null pointer is dereferenced, a container is read past its end.  All of
these end the run.  `Exec` is the result of a computation that may end so.

Conventions used throughout:

* a pointer is an `Option`: `none` is the null pointer, and `deref` reads it;
* a signal bus (`std::deque` with one entry for each RR controller) is a function
  on `Fin n`, so its width is the number of controllers by construction;
* `unsigned` values are natural numbers, reduced modulo their width where the
  program computes with them;
* `double` is the field of rationals: exact arithmetic in place of rounding.
-/

namespace Drachma

/-- The ways a step can end the run. -/
inductive Fault
  /-- A null pointer, or an empty `std::shared_ptr`, was dereferenced. -/
  | nullDereference
  /-- `at` threw `std::out_of_range`, or `operator[]` left its container. -/
  | outOfRange
  /-- `front`, `pop_front` or `begin` was used on an empty container. -/
  | emptyContainer
  /-- A failed `assert`. -/
  | assertionFailed
  /-- A thrown `userError`. -/
  | userError (message : String)
  /-- A thrown `std::runtime_error`. -/
  | runtimeError (message : String)
  /-- A thrown string literal. -/
  | thrown (message : String)
deriving DecidableEq, Repr

/-- The result of a computation that may fault. -/
abbrev Exec := Except Fault

/-- `double`, computed exactly. -/
abbrev Double := ℚ

/-- The value a conversion of `unsigned` `-1` has. -/
def unsignedMinusOne : ℕ := 2 ^ 32 - 1

/-- Conversion of a `double` to `unsigned`.  The language leaves values outside
the range undefined; here they are reduced. -/
def toUnsigned (x : Double) : ℕ := ⌊x⌋.toNat % 2 ^ 32

theorem toUnsigned_lt (x : Double) : toUnsigned x < 2 ^ 32 := Nat.mod_lt _ (by decide)

variable {α : Type*}

/-- Read through a pointer. -/
def deref : Option α → Exec α
  | some a => .ok a
  | none => .error .nullDereference

@[simp] theorem deref_some (a : α) : deref (some a) = .ok a := rfl

@[simp] theorem deref_none : deref (none : Option α) = .error .nullDereference := rfl

@[simp] theorem deref_eq_ok {p : Option α} {a : α} : deref p = .ok a ↔ p = some a := by
  cases p <;> simp [deref]

/-- A lookup by `at`. -/
def lookupAt : Option α → Exec α
  | some a => .ok a
  | none => .error .outOfRange

@[simp] theorem lookupAt_eq_ok {o : Option α} {a : α} :
    lookupAt o = .ok a ↔ o = some a := by
  cases o <;> simp [lookupAt]

/-- The faults that are a thrown `std::runtime_error`. -/
def Fault.IsRuntimeError : Fault → Prop
  | .runtimeError _ => True
  | _ => False

theorem lookupAt_avoids_runtimeError (o : Option α) :
    Machine.Avoids Fault.IsRuntimeError (lookupAt o) := by
  cases o with
  | none => exact Machine.avoids_error id
  | some a => exact Machine.avoids_ok a

/-- A signal bus over `n` RR controllers. -/
abbrev Bus (n : ℕ) (α : Type*) := Fin n → α

namespace Bus

variable {n : ℕ}

/-- Read the bit of an id that need not name a controller. -/
def read (bus : Bus n α) (id : ℕ) : Exec α :=
  if h : id < n then .ok (bus ⟨id, h⟩) else .error .outOfRange

/-- Write the bit of an id that need not name a controller. -/
def write (bus : Bus n α) (id : ℕ) (value : α) : Exec (Bus n α) :=
  if h : id < n then .ok (Function.update bus ⟨id, h⟩ value) else .error .outOfRange

theorem read_eq_ok {bus : Bus n α} {id : ℕ} {a : α} :
    bus.read id = .ok a ↔ ∃ h : id < n, bus ⟨id, h⟩ = a := by
  unfold read
  split
  · rename_i h
    constructor
    · intro heq; cases heq; exact ⟨h, rfl⟩
    · rintro ⟨_, rfl⟩; rfl
  · rename_i h
    constructor
    · intro heq; cases heq
    · rintro ⟨h', _⟩; exact absurd h' h

theorem write_of_lt {bus : Bus n α} {id : ℕ} {a : α} (h : id < n) :
    bus.write id a = .ok (Function.update bus ⟨id, h⟩ a) := dif_pos h

theorem write_eq_ok {bus bus' : Bus n α} {id : ℕ} {a : α} :
    bus.write id a = .ok bus' ↔
      ∃ h : id < n, bus' = Function.update bus ⟨id, h⟩ a := by
  unfold write
  split
  · rename_i h
    constructor
    · intro heq; cases heq; exact ⟨h, rfl⟩
    · rintro ⟨_, rfl⟩; rfl
  · rename_i h
    constructor
    · intro heq; cases heq
    · rintro ⟨h', _⟩; exact absurd h' h

theorem read_avoids_runtimeError (bus : Bus n α) (id : ℕ) :
    Machine.Avoids Fault.IsRuntimeError (bus.read id) := by
  unfold read
  split
  · exact Machine.avoids_ok _
  · exact Machine.avoids_error not_false

end Bus

end Drachma
