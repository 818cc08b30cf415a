import Mathlib.Data.List.Perm.Basic

/-!
# Logs of a table with evictions

A table of bounded size takes in one element after the other at its end, and gives up
elements from anywhere to make room.  An `EvictionLog` is what has happened to it: the
elements it was `given`, in order, those that are still `resident`, in the order of the
table, and the `victims`, in the order in which they were evicted.

Nothing is lost and nothing is reordered, whatever is evicted.  If it is always the first
resident, the table is a queue (`IsQueue`).
-/

namespace Machine

/-- The history of a table with evictions. -/
structure EvictionLog (α : Type*) where
  given : List α
  resident : List α
  victims : List α
  sublist : resident.Sublist given
  conserved : (resident ++ victims).Perm given

namespace EvictionLog

variable {α : Type*}

/-- Nothing has happened. -/
def start : EvictionLog α := ⟨[], [], [], List.Sublist.refl _, List.Perm.refl _⟩

/-- The table takes in an element. -/
def give (log : EvictionLog α) (a : α) : EvictionLog α where
  given := log.given ++ [a]
  resident := log.resident ++ [a]
  victims := log.victims
  sublist := log.sublist.append (List.Sublist.refl _)
  conserved := by
    rw [List.append_assoc]
    refine (List.perm_append_comm.append_left log.resident).trans ?_
    rw [← List.append_assoc]
    exact log.conserved.append_right [a]

/-- The table gives up the element at position `i`. -/
def evict (log : EvictionLog α) (i : ℕ) (h : i < log.resident.length) : EvictionLog α where
  given := log.given
  resident := log.resident.eraseIdx i
  victims := log.victims ++ [log.resident[i]]
  sublist := (List.eraseIdx_sublist _ i).trans log.sublist
  conserved := by
    refine List.Perm.trans ?_ log.conserved
    rw [← List.append_assoc]
    refine List.perm_append_comm.trans ?_
    exact (List.getElem_cons_eraseIdx_perm h).append_right log.victims

/-- What was given first was evicted first. -/
def IsQueue (log : EvictionLog α) : Prop := log.given = log.victims ++ log.resident

theorem isQueue_start : (start : EvictionLog α).IsQueue := rfl

theorem IsQueue.give {log : EvictionLog α} (queue : log.IsQueue) (a : α) :
    (log.give a).IsQueue := by
  show log.given ++ [a] = log.victims ++ (log.resident ++ [a])
  rw [queue, List.append_assoc]

/-- Evicting the first resident keeps a queue. -/
theorem IsQueue.evict {log : EvictionLog α} (queue : log.IsQueue) (h : 0 < log.resident.length) :
    (log.evict 0 h).IsQueue := by
  show log.given = log.victims ++ [log.resident[0]] ++ log.resident.eraseIdx 0
  rw [queue, List.append_assoc, List.eraseIdx_zero, List.singleton_append, List.getElem_zero,
    List.cons_head_tail]

end EvictionLog

end Machine
