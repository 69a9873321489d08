import Mathlib.Data.List.Nodup
import Mathlib.Tactic.Choose
import Sexp.Batch

/-!
# Workers that share tasks out

A pool of workers takes steps: a worker that is at no task takes one that nobody has taken, or it
finishes the one it is at and puts the answer into its slot. `Pool.Step.sound` says what a step keeps.
So no run is longer than two steps for each task, none is stuck before all tasks are finished
(`Pool.exists_step`), and the rows of workers and tasks in which runs finish are those of the schedules
(`Pool.exists_runs_iff`). A batch is read by such a pool, so its answers are those of its sources,
whatever the pool does (`batch_answers_each_source`).
-/

namespace Sexp

/-! ### Steps of a pool -/

/-- What a pool is doing: the tasks that nobody has taken, who is at which task, who has finished which
one, in the order in which they did, and the slots of the answers. -/
structure Pool (tasks workers : Nat) (α : Type) where
  waiting : List (Fin tasks)
  running : List (Fin workers × Fin tasks)
  finished : List (Fin workers × Fin tasks)
  slots : List (Option α)

namespace Pool

variable {tasks workers : Nat} {α : Type}

def initial : Pool tasks workers α := ⟨List.finRange tasks, [], [], List.replicate tasks none⟩

def take (p : Pool tasks workers α) (w : Fin workers) (i : Fin tasks) : Pool tasks workers α :=
  { p with waiting := p.waiting.erase i, running := (w, i) :: p.running }

def finish (p : Pool tasks workers α) (w : Fin workers) (i : Fin tasks) (answer : α) :
    Pool tasks workers α :=
  { p with
    running := p.running.erase (w, i)
    finished := p.finished ++ [(w, i)]
    slots := p.slots.set i (some answer) }

inductive Step (task : Fin tasks → α) : Pool tasks workers α → Pool tasks workers α → Prop
  | take {p : Pool tasks workers α} {w : Fin workers} {i : Fin tasks}
    (hw : w ∉ p.running.map Prod.fst) (hi : i ∈ p.waiting) : Step task p (p.take w i)
  | finish {p : Pool tasks workers α} {w : Fin workers} {i : Fin tasks}
    (h : (w, i) ∈ p.running) : Step task p (p.finish w i (task i))

inductive Runs (task : Fin tasks → α) : Nat → Pool tasks workers α → Pool tasks workers α → Prop
  | nil (p : Pool tasks workers α) : Runs task 0 p p
  | cons {n : Nat} {p q r : Pool tasks workers α} (h : Step task p q) (hs : Runs task n q r) :
    Runs task (n + 1) p r

def AtRest (p : Pool tasks workers α) : Prop := p.waiting = [] ∧ p.running = []

/-- Each task is waiting, or one worker is at it, or one has finished it; a worker is at one task at
most; and the slots are those that the finished tasks have filled. -/
structure Sound (task : Fin tasks → α) (p : Pool tasks workers α) : Prop where
  once : (p.waiting ++ (p.running.map Prod.snd ++ p.finished.map Prod.snd)).Perm
    (List.finRange tasks)
  apart : (p.running.map Prod.fst).Nodup
  slots : p.slots =
    Schedule.fill task (List.replicate tasks none) (p.finished.map Prod.snd)

variable {task : Fin tasks → α} {p q : Pool tasks workers α}

theorem sound_initial : (initial : Pool tasks workers α).Sound task where
  once := by
    show (List.finRange tasks ++ []).Perm (List.finRange tasks)
    rw [List.append_nil]
  apart := .nil
  slots := rfl

theorem Sound.take (h : p.Sound task) {w : Fin workers} {i : Fin tasks}
    (hw : w ∉ p.running.map Prod.fst) (hi : i ∈ p.waiting) : (p.take w i).Sound task where
  once := by
    have hmoved : (p.waiting.erase i ++ i :: (p.running.map Prod.snd ++ p.finished.map Prod.snd)).Perm
        (p.waiting ++ (p.running.map Prod.snd ++ p.finished.map Prod.snd)) :=
      List.perm_middle.trans ((List.perm_cons_erase hi).symm.append_right _)
    exact hmoved.trans h.once
  apart := List.nodup_cons.2 ⟨hw, h.apart⟩
  slots := h.slots

theorem Sound.finish (h : p.Sound task) {w : Fin workers} {i : Fin tasks}
    (hwi : (w, i) ∈ p.running) : (p.finish w i (task i)).Sound task where
  once := by
    have hrunning : (p.running.map Prod.snd).Perm (i :: (p.running.erase (w, i)).map Prod.snd) :=
      (List.perm_cons_erase hwi).map Prod.snd
    have hmoved : ((p.running.erase (w, i)).map Prod.snd ++
        (p.finished ++ [(w, i)]).map Prod.snd).Perm
          (p.running.map Prod.snd ++ p.finished.map Prod.snd) := by
      rw [List.map_append, ← List.append_assoc]
      refine List.perm_append_comm.trans ?_
      exact (hrunning.append_right (p.finished.map Prod.snd)).symm
    exact (hmoved.append_left p.waiting).trans h.once
  apart := h.apart.sublist (List.erase_sublist.map Prod.fst)
  slots := by
    have hfill := congrArg (·.set i.val (some (task i))) h.slots
    simp only [Pool.finish, List.map_append, Schedule.fill, List.foldl_append] at hfill ⊢
    exact hfill

theorem Step.sound (h : Step task p q) (hp : p.Sound task) : q.Sound task := by
  cases h with
  | take hw hi => exact hp.take hw hi
  | finish hwi => exact hp.finish hwi

/-- How many steps there are still to be taken. -/
def toDo (p : Pool tasks workers α) : Nat := 2 * p.waiting.length + p.running.length

theorem Step.toDo_eq (h : Step task p q) : p.toDo = q.toDo + 1 := by
  cases h with
  | @take w i hw hi =>
    have hlen := List.length_erase_of_mem hi
    have hpos := List.length_pos_of_mem hi
    simp only [toDo, Pool.take, List.length_cons]
    omega
  | @finish w i hwi =>
    have hlen := List.length_erase_of_mem hwi
    have hpos := List.length_pos_of_mem hwi
    simp only [toDo, Pool.finish]
    omega

theorem Runs.sound {n : Nat} (h : Runs task n p q) (hp : p.Sound task) : q.Sound task := by
  induction h with
  | nil p => exact hp
  | cons hstep _ ih => exact ih (hstep.sound hp)

theorem Runs.toDo_eq {n : Nat} (h : Runs task n p q) : p.toDo = q.toDo + n := by
  induction h with
  | nil p => rfl
  | cons hstep _ ih =>
    have hone := hstep.toDo_eq
    omega

theorem exists_step (hw : 0 < workers) (h : ¬ p.AtRest) : ∃ q, Step task p q := by
  cases hrunning : p.running with
  | cons r rs =>
    obtain ⟨w, i⟩ := r
    exact ⟨_, .finish (w := w) (i := i) (by rw [hrunning]; exact List.mem_cons_self)⟩
  | nil =>
    cases hwaiting : p.waiting with
    | nil => exact absurd ⟨hwaiting, hrunning⟩ h
    | cons i is =>
      refine ⟨_, .take (w := ⟨0, hw⟩) (i := i) ?_ ?_⟩
      · rw [hrunning]
        exact List.not_mem_nil
      · rw [hwaiting]
        exact List.mem_cons_self

/-! ### Runs and schedules -/

theorem Sound.exists_schedule (h : p.Sound task) (hrest : p.AtRest) :
    ∃ s : Schedule tasks workers, p.finished = s.order.map fun i => (s.worker i, i) := by
  obtain ⟨hwaiting, hrunning⟩ := hrest
  have hperm : (p.finished.map Prod.snd).Perm (List.finRange tasks) := by
    have honce := h.once
    rwa [hwaiting, hrunning] at honce
  have hnodup : (p.finished.map Prod.snd).Nodup := hperm.nodup_iff.2 (List.nodup_finRange tasks)
  have htaken : ∀ i, ∃ w, (w, i) ∈ p.finished := by
    intro i
    obtain ⟨⟨w, j⟩, hr, rfl⟩ := List.mem_map.1 (hperm.mem_iff.2 (List.mem_finRange i))
    exact ⟨w, hr⟩
  choose worker hworker using htaken
  refine ⟨⟨worker, p.finished.map Prod.snd, hperm⟩, ?_⟩
  show p.finished = (p.finished.map Prod.snd).map fun i => (worker i, i)
  rw [List.map_map]
  refine (List.map_id _).symm.trans (List.map_congr_left fun r hr => ?_)
  -- No other worker has finished this task.
  exact (List.inj_on_of_nodup_map hnodup (hworker r.2) hr rfl).symm

theorem Sound.slots_eq (h : p.Sound task) (hrest : p.AtRest) :
    p.slots = (List.finRange tasks).map fun i => some (task i) := by
  obtain ⟨s, hs⟩ := h.exists_schedule hrest
  have horder : p.finished.map Prod.snd = s.order := by
    rw [hs, List.map_map]
    exact List.map_id s.order
  rw [h.slots, horder, s.fill_order]

theorem exists_runs (worker : Fin tasks → Fin workers) {order : List (Fin tasks)}
    (hwaiting : p.waiting.Perm order) (hrunning : p.running = []) :
    ∃ n q, Runs task n p q ∧ q.AtRest ∧
      q.finished = p.finished ++ order.map fun i => (worker i, i) := by
  induction order generalizing p with
  | nil => exact ⟨0, p, .nil p, ⟨hwaiting.eq_nil, hrunning⟩, (List.append_nil _).symm⟩
  | cons i order ih =>
    let q := p.take (worker i) i
    let r := q.finish (worker i) i (task i)
    have htake : Step task p q := by
      refine .take ?_ (hwaiting.mem_iff.2 List.mem_cons_self)
      rw [hrunning]
      exact List.not_mem_nil
    have hfinish : Step task q r := .finish List.mem_cons_self
    have hleft : r.waiting.Perm order := by
      have herase := hwaiting.erase i
      rwa [List.erase_cons_head] at herase
    have hidle : r.running = [] := by
      show ((worker i, i) :: p.running).erase (worker i, i) = []
      rw [List.erase_cons_head, hrunning]
    obtain ⟨n, last, hruns, hrest, hfinished⟩ := ih hleft hidle
    refine ⟨n + 2, last, .cons htake (.cons hfinish hruns), hrest, ?_⟩
    rw [hfinished, List.map_cons, List.append_cons p.finished]
    rfl

/-- The rows of workers and tasks in which a pool can finish are those of the schedules. -/
theorem exists_runs_iff {rows : List (Fin workers × Fin tasks)} :
    (∃ n p, Runs task n initial p ∧ p.AtRest ∧ p.finished = rows) ↔
      ∃ s : Schedule tasks workers, rows = s.order.map fun i => (s.worker i, i) := by
  constructor
  · intro h
    obtain ⟨n, p, hruns, hrest, rfl⟩ := h
    exact (hruns.sound sound_initial).exists_schedule hrest
  · intro h
    obtain ⟨s, rfl⟩ := h
    exact exists_runs s.worker s.perm.symm rfl

end Pool

/-! ### Batches -/

theorem map_finRange_get {α β : Type} (xs : List α) (f : α → β) :
    (List.finRange xs.length).map (fun i => f (xs.get i)) = xs.map f := by
  have hget := congrArg (List.map f) (List.map_get_finRange xs)
  rwa [List.map_map] at hget

section Batch

variable (limit : Nat) (sources : List (List UInt8))

theorem readBatchBy_eq (schedule : Schedule sources.length (workerCount limit sources.length)) :
    readBatchBy limit sources schedule = sources.map read := by
  unfold readBatchBy
  split
  · rfl
  · rfl
  · rw [Schedule.run_eq]
    exact map_finRange_get _ read

theorem clamp?_eq_workerCount {n : Nat} (h : 1 ≤ n) :
    clamp? 1 n limit = some (workerCount limit n) :=
  if_pos h

theorem workerCount_le {n : Nat} (h : 1 ≤ n) : workerCount limit n ≤ n := by
  unfold workerCount
  omega

/-- The batch needs no pool, or its pool can be set up. -/
def Startable (start : Nat → Except String Unit) (limit : Nat) (sources : List (List UInt8)) : Prop :=
  sources.length < 2 ∨ start (workerCount limit sources.length) = .ok ()

variable {limit sources} {start : Nat → Except String Unit}

theorem startBatch?_of_length_lt (h : sources.length < 2)
    (schedule : Schedule sources.length (workerCount limit sources.length)) :
    startBatch? start limit sources schedule = some (.ok (sources.map read)) := by
  rw [startBatch?, if_pos h, readBatchBy_eq]

theorem startBatch?_of_le_length (h : 2 ≤ sources.length)
    (schedule : Schedule sources.length (workerCount limit sources.length)) :
    startBatch? start limit sources schedule =
      some (((start (workerCount limit sources.length)).map fun _ => sources.map read).mapError
        Error.workersUnavailable) := by
  rw [startBatch?, if_neg (by omega), clamp?_eq_workerCount limit (by omega), readBatchBy_eq]
  dsimp only
  cases start (workerCount limit sources.length) <;> rfl

theorem startBatch?_eq_ok_iff
    (schedule : Schedule sources.length (workerCount limit sources.length))
    (answers : List (Except Error (List Expr))) :
    startBatch? start limit sources schedule = some (.ok answers) ↔
      Startable start limit sources ∧ answers = sources.map read := by
  rcases Nat.lt_or_ge sources.length 2 with hlt | hle
  · rw [startBatch?_of_length_lt hlt]
    simp [Startable, hlt, eq_comm]
  · rw [startBatch?_of_le_length hle]
    cases hstart : start (workerCount limit sources.length) with
    | error detail => simp [Startable, hstart, Nat.not_lt.2 hle, Except.map, Except.mapError]
    | ok => simp [Startable, hstart, Except.map, Except.mapError, eq_comm]

end Batch

/-- A batch of no source or a single one answers what it is read as, without any pool. A larger one does so
if its own pool can be set up, and only then. The answers are those of the sources, in their order: with
any limit and any schedule; when one source is replaced, but for its own answer; when sources are picked in
another order, in that order. The schedules are what its pool can do, which always comes to rest, and then
has these answers in its slots. -/
theorem batch_answers_each_source (start : Nat → Except String Unit) (limit : Nat)
    (sources : List (List UInt8)) :
    let answers := sources.map read
    let workers := workerCount limit sources.length
    let task := fun i : Fin sources.length => read (sources.get i)
    (sources.length < 2 → ∀ schedule, startBatch? start limit sources schedule = some (.ok answers)) ∧
    (∀ schedule results, startBatch? start limit sources schedule = some (.ok results) ↔
      Startable start limit sources ∧ results = answers) ∧
    (1 ≤ sources.length →
      clamp? 1 sources.length limit = some workers ∧ 1 ≤ workers ∧ workers ≤ sources.length) ∧
    (∀ i source schedule results,
      startBatch? start limit (sources.set i source) schedule = some (.ok results) ↔
        Startable start limit sources ∧ results = answers.set i (read source)) ∧
    (∀ (picks : List Nat) schedule results,
      startBatch? start limit (picks.filterMap (sources[·]?)) schedule = some (.ok results) ↔
        Startable start limit (picks.filterMap (sources[·]?)) ∧
          results = picks.filterMap (answers[·]?)) ∧
    (∀ rows : List (Fin workers × Fin sources.length),
      (∃ n pool, Pool.Runs task n .initial pool ∧ pool.AtRest ∧ pool.finished = rows) ↔
        ∃ schedule : Schedule sources.length workers,
          rows = schedule.order.map fun i => (schedule.worker i, i)) ∧
    ∀ n (pool : Pool sources.length workers (Except Error (List Expr))),
      Pool.Runs task n .initial pool →
        n ≤ 2 * sources.length ∧ (¬ pool.AtRest → ∃ next, Pool.Step task pool next) ∧
        (pool.AtRest → pool.slots = answers.map some) := by
  intro answers workers task
  refine ⟨startBatch?_of_length_lt, startBatch?_eq_ok_iff, fun h => ⟨clamp?_eq_workerCount limit h,
    workerCount_pos _ _, workerCount_le limit h⟩, fun i source schedule results => ?_,
    fun picks schedule results => ?_, fun rows => Pool.exists_runs_iff, fun n pool hruns =>
      ⟨?_, Pool.exists_step (workerCount_pos _ _), fun hrest => ?_⟩⟩
  · rw [startBatch?_eq_ok_iff, Startable, Startable, List.length_set, List.map_set]
  · rw [startBatch?_eq_ok_iff, List.map_filterMap]
    simp only [answers, List.getElem?_map]
  · have htodo := hruns.toDo_eq
    have hinitial : (Pool.initial : Pool sources.length workers (Except Error (List Expr))).toDo =
        2 * sources.length := by
      simp [Pool.toDo, Pool.initial]
    omega
  · rw [(hruns.sound Pool.sound_initial).slots_eq hrest, List.map_map]
    exact map_finRange_get sources fun source => some (read source)

/-- Only a pool of one worker can be set up, and the worker finishes the second of two sources first. Where no
pool can be set up, a single source is answered all the same. -/
theorem failing_source_answered_alone :
    let start := fun workers => if workers = 1 then .ok () else .error "no threads"
    Startable start 0 [Utf8.encode ")".toList, Utf8.encode "a".toList] ∧
      (∃ schedule, schedule.order = [1, 0] ∧
        startBatch? start 0 [Utf8.encode ")".toList, Utf8.encode "a".toList] schedule =
          some (.ok [.error (.unexpectedRightParen ⟨1, 1⟩), .ok [.symbol "a"]])) ∧
      ∀ schedule, startBatch? (fun _ => .error "no threads") 0 [Utf8.encode ")".toList] schedule =
        some (.ok [.error (.unexpectedRightParen ⟨1, 1⟩)]) := by
  intro start
  have hparen : read (Utf8.encode ")".toList) = .error (.unexpectedRightParen ⟨1, 1⟩) := by
    with_unfolding_all rfl
  have hsymbol : read (Utf8.encode "a".toList) = .ok [.symbol "a"] := by with_unfolding_all rfl
  have hstart : Startable start 0 [Utf8.encode ")".toList, Utf8.encode "a".toList] := .inr rfl
  let backwards : Schedule 2 (workerCount 0 2) := ⟨fun _ => ⟨0, by decide⟩, [1, 0], by decide⟩
  refine ⟨hstart, ⟨backwards, rfl, ?_⟩, fun schedule => ?_⟩
  · obtain ⟨_, hanswers, _⟩ := batch_answers_each_source start 0
      [Utf8.encode ")".toList, Utf8.encode "a".toList]
    refine (hanswers backwards _).2 ⟨hstart, ?_⟩
    rw [List.map_cons, List.map_cons, hparen, hsymbol]
    rfl
  · obtain ⟨hanswers, _⟩ := batch_answers_each_source (fun _ => .error "no threads") 0
      [Utf8.encode ")".toList]
    rw [hanswers Nat.one_lt_two schedule, List.map_cons, hparen]
    rfl

end Sexp
