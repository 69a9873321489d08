import Sexp.Reader

/-!
# Many sources at once

A batch reads each of its sources on its own. Workers share the sources out: a schedule says which
worker reads which source and in what order they finish, and each result is put into the slot of its
source as soon as it is there. `Schedule.run_eq` says that the schedule cannot be seen in the
results: they are those of the sources, in the order of the sources.
-/

namespace Sexp

/-! ### Schedules -/

/-- Which worker takes each task, and the order in which the tasks finish; each finishes once. -/
structure Schedule (tasks workers : Nat) where
  worker : Fin tasks → Fin workers
  order : List (Fin tasks)
  perm : order.Perm (List.finRange tasks)

namespace Schedule

/-- The workers take turns, and the tasks finish in their order. -/
def inTurn (tasks workers : Nat) (h : 0 < workers) : Schedule tasks workers where
  worker i := ⟨i % workers, Nat.mod_lt _ h⟩
  order := List.finRange tasks
  perm := .refl _

/-- The slots of the tasks after those of `order` have finished, one after the other. -/
def fill {tasks : Nat} {α : Type} (task : Fin tasks → α) (slots : List (Option α))
    (order : List (Fin tasks)) : List (Option α) :=
  order.foldl (fun slots (i : Fin tasks) => slots.set i (some (task i))) slots

/-- What the tasks answer, in the order of the tasks. -/
def run {tasks workers : Nat} {α : Type} (s : Schedule tasks workers) (task : Fin tasks → α) :
    List α :=
  (fill task (List.replicate tasks none) s.order).filterMap id

@[simp] theorem length_fill {tasks : Nat} {α : Type} (task : Fin tasks → α)
    (slots : List (Option α)) (order : List (Fin tasks)) :
    (fill task slots order).length = slots.length := by
  induction order generalizing slots with
  | nil => rfl
  | cons i order ih => rw [fill, List.foldl_cons]; exact (ih _).trans List.length_set

theorem getElem?_fill_of_notMem {tasks : Nat} {α : Type} (task : Fin tasks → α)
    (slots : List (Option α)) {order : List (Fin tasks)} {i : Fin tasks} (h : i ∉ order) :
    (fill task slots order)[i.val]? = slots[i.val]? := by
  induction order generalizing slots with
  | nil => rfl
  | cons j order ih =>
    have ho : i ∉ order := fun m => h (List.mem_cons_of_mem j m)
    have hv : j.val ≠ i.val := fun e => h (Fin.ext e ▸ List.mem_cons_self)
    exact (ih _ ho).trans (List.getElem?_set_ne hv)

theorem getElem?_fill_of_mem {tasks : Nat} {α : Type} (task : Fin tasks → α)
    (slots : List (Option α)) {order : List (Fin tasks)} {i : Fin tasks} (h : i ∈ order)
    (hi : i.val < slots.length) : (fill task slots order)[i.val]? = some (some (task i)) := by
  induction order generalizing slots with
  | nil => cases h
  | cons j order ih =>
    have hl : i.val < (slots.set j (some (task j))).length := by simpa using hi
    by_cases ho : i ∈ order
    · exact ih _ ho hl
    · have hj : i = j := (List.mem_cons.1 h).resolve_right ho
      subst hj
      exact (getElem?_fill_of_notMem task _ ho).trans (List.getElem?_set_self hi)

theorem fill_order {tasks workers : Nat} {α : Type} (s : Schedule tasks workers)
    (task : Fin tasks → α) : fill task (List.replicate tasks none) s.order =
      (List.finRange tasks).map fun i => some (task i) := by
  apply List.ext_getElem?
  intro n
  by_cases hn : n < tasks
  · have h := getElem?_fill_of_mem task (List.replicate tasks none)
      (s.perm.mem_iff.2 (List.mem_finRange ⟨n, hn⟩)) (by simpa using hn)
    exact h.trans (by simp [hn])
  · rw [List.getElem?_eq_none (by simpa using hn), List.getElem?_eq_none (by simpa using hn)]

/-- The schedule cannot be seen in the results. -/
theorem run_eq {tasks workers : Nat} {α : Type} (s : Schedule tasks workers)
    (task : Fin tasks → α) : s.run task = (List.finRange tasks).map task := by
  rw [run, s.fill_order, List.filterMap_map]
  exact congrFun List.filterMap_eq_map' _

end Schedule

/-! ### Batches -/

/-- How many workers read `sources` sources when at most `limit` are wanted: one at least, and no
more than there are sources. -/
def workerCount (limit sources : Nat) : Nat := max 1 (min limit sources)

theorem workerCount_pos (limit sources : Nat) : 0 < workerCount limit sources :=
  Nat.lt_of_lt_of_le Nat.one_pos (Nat.le_max_left _ _)

/-- What reading each source answers, when the workers of a pool follow `schedule`. No pool is set
up for no source or a single one. -/
def readBatchBy (limit : Nat) (sources : List (List UInt8))
    (schedule : Schedule sources.length (workerCount limit sources.length)) :
    List (Except Error (List Expr)) :=
  match sources with
  | [] => []
  | [source] => [read source]
  | sources => schedule.run fun i => read sources[i]

/-- What reading each source answers, in the order of the sources, with at most `limit` workers. -/
def readBatch (limit : Nat) (sources : List (List UInt8)) : List (Except Error (List Expr)) :=
  readBatchBy limit sources (.inTurn _ _ (workerCount_pos _ _))

/-! ### Starting a batch -/

/-- `n`, or the end of the interval from `low` to `high` that is nearer to it; none if the interval is
empty. -/
def clamp? (low high n : Nat) : Option Nat :=
  if low ≤ high then some (max low (min n high)) else none

/-- A batch from its start on: `start` sets up a pool of so many workers or says why it cannot, and
`schedule` is what the workers then do. There is no answer where the number of workers would have to
come from an empty interval. -/
def startBatch? (start : Nat → Except String Unit) (limit : Nat) (sources : List (List UInt8))
    (schedule : Schedule sources.length (workerCount limit sources.length)) :
    Option (Except Error (List (Except Error (List Expr)))) :=
  if sources.length < 2 then some (.ok (readBatchBy limit sources schedule))
  else match clamp? 1 sources.length limit with
    | none => none
    | some workers => match start workers with
      | .error detail => some (.error (.workersUnavailable detail))
      | .ok () => some (.ok (readBatchBy limit sources schedule))

end Sexp
