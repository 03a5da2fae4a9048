/-
# LiandanluNative.Safety.ClaimOrder — the heaps and the claim query have one order.

A rebuilt scheduler draws the tasks that are queued to run in exactly the order in which the store
would lease them: the interactive lane first, then by priority, queueing time and id
(`rebuild_order`).  That needs an owner that the store can write down, and leases that outlast the
time of the claims.  A positive `lease_seconds` does not make them: added to a large time it can be
rounded away, and then every claim leases the first task again (`rebuild_order_fails`).

Both give out one sorted list (`Lib.SortedBy`): the heaps have it in two halves, and the query sorts
what is left of it anew for each claim.  The store compares ids by their bytes, which is the order of
their characters (`Lib.Utf8`).

The proof has three steps: a heap that is filled by pushes is the sorted list of what was pushed
(`foldl_item`); drawing gives the list from its front, as every entry is of a task that may run
(`yields_nextTask`); and claiming gives the same list, as each claim leaves the rest of the order as
it was (`Database.claimOrder_put`).
-/
import LiandanluNative.Lib.Binary64
import LiandanluNative.Lib.SortedBy
import LiandanluNative.Lib.Utf8
import LiandanluNative.Lib.Yields
import LiandanluNative.Runtime.Scheduler

namespace LiandanluNative

open Lib (Table KeysDiffer sortedBy)
open Lib.Proc

/-! ## The order -/

/-- The key heap entries are compared by. -/
def heapKey (entry : Int × ℚ × String) : ℤ ×ₗ ℚ ×ₗ String :=
  toLex (entry.1, toLex (entry.2.1, entry.2.2))

theorem heapLe_iff (a b : Int × ℚ × String) : heapLe a b ↔ heapKey a ≤ heapKey b := by
  simp only [heapLe, heapKey, Prod.Lex.toLex_le_toLex]

theorem orderedInsert_heapLe (entry : Int × ℚ × String) (heap : List (Int × ℚ × String)) :
    heap.orderedInsert heapLe entry
      = heap.orderedInsert (fun a b => heapKey a ≤ heapKey b) entry := by
  induction heap with
  | nil => rfl
  | cons first heap ih =>
      rw [List.orderedInsert_cons, List.orderedInsert_cons, ih]
      exact if_congr (heapLe_iff entry first) rfl rfl

namespace Task

/-- The entry `rebuild` makes of a task. -/
def item (task : Task) : Int × ℚ × String := task.entry (task.queuedAt.getD 0)

def inInteractiveLane (task : Task) : Bool := decide (task.lane = "interactive")

/-- In one lane tasks are claimed in the order of their entries. -/
theorem claimKey_le_iff {a b : Task} (hlane : a.inInteractiveLane = b.inInteractiveLane) :
    a.claimKey ≤ b.claimKey ↔ heapKey a.item ≤ heapKey b.item := by
  have hflag : (if a.lane = "interactive" then 0 else 1)
      = (if b.lane = "interactive" then 0 else 1 : ℕ) := by
    simp only [inInteractiveLane, decide_eq_decide] at hlane
    exact if_congr hlane rfl rfl
  simp only [claimKey, heapKey, item, entry, hflag, Prod.Lex.toLex_le_toLex, lt_irrefl, true_and,
    false_or]

/-- The interactive lane comes first. -/
theorem claimKey_le_of_lanes {a b : Task} (ha : a.inInteractiveLane = true)
    (hb : b.inInteractiveLane = false) : a.claimKey ≤ b.claimKey := by
  have hfirst : a.lane = "interactive" := of_decide_eq_true ha
  have hsecond : b.lane ≠ "interactive" := of_decide_eq_false hb
  unfold claimKey
  rw [if_pos hfirst, if_neg hsecond, Prod.Lex.toLex_le_toLex]
  exact Or.inl Nat.zero_lt_one

/-- The key as a store compares it, ids by their bytes.  It is the other key with the id encoded. -/
def rowKey (task : Task) : ℕ ×ₗ ℤ ×ₗ ℚ ×ₗ List ℕ :=
  toLex (if task.lane = "interactive" then 0 else 1,
    toLex (-task.priority, toLex (task.queuedAt.getD 0, Lib.utf8 task.taskId)))

theorem rowKey_lt_iff (a b : Task) : a.rowKey < b.rowKey ↔ a.claimKey < b.claimKey := by
  simp only [rowKey, claimKey, Prod.Lex.toLex_lt_toLex, Lib.utf8_strictMono.lt_iff_lt]

/-- Tasks of one key have one id. -/
theorem taskId_of_claimKey {a b : Task} (h : a.claimKey = b.claimKey) : a.taskId = b.taskId :=
  congrArg (fun key => (ofLex (ofLex (ofLex key).2).2).2) h

end Task

/-- The tasks of a table that are queued to run, in the order of their claims. -/
def claimQueue (tasks : Table Task.taskId) : List Task :=
  sortedBy Task.claimKey (tasks.rows.filter Task.queuedToRun)

theorem keysDiffer_rows (tasks : Table Task.taskId) : KeysDiffer Task.claimKey tasks.rows :=
  fun _ ha _ hb hkey => tasks.eq_of_key_eq ha hb (Task.taskId_of_claimKey hkey)

theorem mem_claimQueue {tasks : Table Task.taskId} {task : Task} :
    task ∈ claimQueue tasks ↔ task ∈ tasks.rows ∧ task.queuedToRun = true := by
  rw [claimQueue, Lib.mem_sortedBy, List.mem_filter]

/-- Every task of the queue is in it once. -/
theorem nodup_claimQueue (tasks : Table Task.taskId) :
    ((claimQueue tasks).map Task.taskId).Nodup := by
  refine (((Lib.sortedBy_perm _ _).map _).nodup_iff).mpr ?_
  exact tasks.nodup.sublist (List.filter_sublist.map _)

/-! ## The heaps

A heap has its entries sorted, and drawing takes the first; so the order in which tasks are pushed
does not matter.
-/

theorem heapKey_injective : Function.Injective heapKey := by
  intro a b h
  simp only [heapKey, EmbeddingLike.apply_eq_iff_eq, Prod.mk.injEq] at h
  exact Prod.ext h.1 (Prod.ext h.2.1 h.2.2)

/-- The heap that the tasks of one lane fill. -/
theorem foldl_item (tasks : List Task) :
    tasks.foldl (fun heap task => heap.orderedInsert heapLe task.item) []
      = sortedBy heapKey (tasks.map Task.item) := by
  have hkeys : KeysDiffer heapKey (tasks.map Task.item) := fun _ _ _ _ h => heapKey_injective h
  rw [← Lib.foldl_orderedInsert hkeys, List.foldl_map]
  congr 1
  funext heap task
  exact orderedInsert_heapLe task.item heap

/-- A heap has the order of the claims. -/
theorem sortedBy_item {tasks : List Task} (lane : Bool)
    (hlane : ∀ task ∈ tasks, task.inInteractiveLane = lane) :
    sortedBy heapKey (tasks.map Task.item) = (sortedBy Task.claimKey tasks).map Task.item := by
  refine (Lib.eq_sortedBy (fun _ _ _ _ h => heapKey_injective h) ?_ ?_).symm
  · exact (Lib.sortedBy_perm _ _).map _
  · refine List.pairwise_map.mpr ((Lib.pairwise_sortedBy _ _).imp_of_mem ?_)
    intro a b ha hb hab
    have hsame := (hlane a (Lib.mem_sortedBy.mp ha)).trans (hlane b (Lib.mem_sortedBy.mp hb)).symm
    exact (Task.claimKey_le_iff hsame).mp hab

/-- The entries of the queued tasks of one lane. -/
def laneHeap (tasks : Table Task.taskId) (lane : Bool) : List (Int × ℚ × String) :=
  ((claimQueue tasks).filter (fun task => task.inInteractiveLane == lane)).map Task.item

theorem foldl_lane (tasks : Table Task.taskId) (lane : Bool) :
    ((tasks.rows.filter Task.queuedToRun).filter (fun task => task.inInteractiveLane == lane)).foldl
        (fun heap task => heap.orderedInsert heapLe task.item) []
      = laneHeap tasks lane := by
  have hkeys := (keysDiffer_rows tasks).sublist (List.filter_sublist (p := Task.queuedToRun))
  rw [foldl_item, laneHeap, claimQueue, Lib.filter_sortedBy hkeys]
  refine sortedBy_item lane (fun task htask => ?_)
  exact beq_iff_eq.mp (List.mem_filter.mp htask).2

/-- Pushing tasks one after another fills the heap of each lane. -/
theorem forM_pushTask (env : Env) (tasks : List Task) : ∀ s : Sys,
    (∀ task ∈ tasks, s.tasks.get? task.taskId = some task ∧ task.queuedAt.isSome = true) →
    (tasks.forM fun task => pushTask env task.taskId) s
      = .ok ()
          { s with
            interactive := (tasks.filter (fun task => task.inInteractiveLane == true)).foldl
              (fun heap task => heap.orderedInsert heapLe task.item) s.interactive
            background := (tasks.filter (fun task => task.inInteractiveLane == false)).foldl
              (fun heap task => heap.orderedInsert heapLe task.item) s.background } := by
  induction tasks with
  | nil => exact fun s _ => rfl
  | cons task tasks ih =>
      intro s htasks
      obtain ⟨⟨hget, hqueued⟩, hrest⟩ := List.forall_mem_cons.mp htasks
      obtain ⟨at_, hat⟩ := Option.isSome_iff_exists.mp hqueued
      have hitem : task.entry at_ = task.item := by rw [Task.item, hat, Option.getD_some]
      have hrest' : ∀ other ∈ tasks, (s.pushed task at_).tasks.get? other.taskId = some other ∧
          other.queuedAt.isSome = true := by
        rw [Sys.pushed_tasks]
        exact hrest
      simp only [List.forM, bind, EStateM.bind, pushTask_eq env hget hat, ih _ hrest']
      unfold Sys.pushed
      rw [hitem]
      by_cases hlane : task.lane = "interactive"
      · simp [hlane, Task.inInteractiveLane]
      · simp [hlane, Task.inInteractiveLane]

/-- **Rebuilding.** Each heap has the entries of the queued tasks of its lane. -/
theorem rebuild_eq (env : Env) (s : Sys) :
    rebuild env s = .ok ()
      { s with interactive := laneHeap s.tasks true, background := laneHeap s.tasks false } := by
  have htasks : ∀ task ∈ s.tasks.rows.filter Task.queuedToRun,
      s.tasks.get? task.taskId = some task ∧ task.queuedAt.isSome = true := by
    intro task htask
    obtain ⟨hrow, hqueued⟩ := List.mem_filter.mp htask
    simp only [Task.queuedToRun, Bool.and_eq_true] at hqueued
    exact ⟨s.tasks.get?_of_mem hrow, hqueued.2⟩
  have hrun := forM_pushTask env _ { s with interactive := [], background := [] } htasks
  simp only [foldl_lane] at hrun
  exact hrun

/-- Both heaps together have the order of the claims. -/
theorem laneHeaps_eq (tasks : Table Task.taskId) :
    (laneHeap tasks true ++ laneHeap tasks false).map (fun entry => entry.2.2)
      = (claimQueue tasks).map Task.taskId := by
  have hkeys := (keysDiffer_rows tasks).sublist (List.filter_sublist (p := Task.queuedToRun))
  have hqueue : claimQueue tasks
      = (claimQueue tasks).filter (fun task => task.inInteractiveLane == true)
        ++ (claimQueue tasks).filter (fun task => task.inInteractiveLane == false) := by
    have hparts := Lib.sortedBy_eq_append hkeys Task.inInteractiveLane
      (fun a _ b _ => Task.claimKey_le_of_lanes)
    simp only [claimQueue, Lib.filter_sortedBy hkeys, beq_true, beq_false]
    exact hparts
  conv_rhs => rw [hqueue]
  simp only [laneHeap, List.map_append, List.map_map]
  rfl

/-- Entries that are all runnable are drawn one by one. -/
theorem yields_nextTask {entries : List (Int × ℚ × String)} : ∀ {s : Sys}, s.entries = entries →
    (∀ entry ∈ entries, s.runnable entry = true) →
    Yields nextTask s (entries.map (fun entry => entry.2.2)) := by
  induction entries with
  | nil =>
      intro s hs _
      refine Yields.nil (fun s => s.entries = []) (fun s hs => ?_) hs
      rcases nextTask_cases s with ⟨hrun, _⟩ | ⟨before, entry, interactive, background, hentries, _⟩
      · exact ⟨_, hrun, rfl⟩
      · rw [hs] at hentries
        exact absurd hentries.symm (List.append_ne_nil_of_right_ne_nil _ (List.cons_ne_nil _ _))
  | cons first entries ih =>
      intro s hs hrunnable
      rcases nextTask_cases s with
        ⟨_, hnone⟩ | ⟨before, entry, interactive, background, hentries, hbefore, _, hrun⟩
      · have hfirst := hnone first (by rw [hs]; exact List.mem_cons_self)
        exact absurd ((hrunnable first List.mem_cons_self).symm.trans hfirst) (by decide)
      · rw [hs] at hentries
        -- the first entry is runnable, so none is dropped
        have hnothing : before = [] := by
          rw [List.eq_nil_iff_forall_not_mem]
          intro dropped hdropped
          have hmem : dropped ∈ first :: entries := by
            rw [hentries]
            exact List.mem_append_left _ hdropped
          exact absurd ((hrunnable dropped hmem).symm.trans (hbefore dropped hdropped)) (by decide)
        subst hnothing
        obtain ⟨rfl, hrest⟩ := List.cons.inj hentries
        refine Yields.cons hrun (ih hrest.symm (fun other hother => ?_))
        exact hrunnable other (List.mem_cons_of_mem _ hother)

/-! ## The claim query

A claim takes the first task of the order and gives it a lease that outlasts the time of the claims,
so the next claim finds the rest.
-/

/-- The task that a claim leases. -/
def claimedTask (plus : ℚ → ℚ → ℚ) (ownerId : String) (leaseSeconds ts : ℚ) :
    Txn (Option String) := do
  return (← claimNextTaskWith plus ownerId leaseSeconds ts).map TaskLease.taskId

/-- The tasks that may be leased at a time, in the order of their claims. -/
def Database.claimOrder (db : Database) (ts : ℚ) : List Task :=
  sortedBy Task.claimKey (db.tasks.rows.filter (db.claimable ts))

theorem Database.nextClaimable_eq (db : Database) (ts : ℚ) :
    db.nextClaimable ts = (db.claimOrder ts).head? := rfl

/-- A task with an unexpired lease is not claimable, and the others are what they were. -/
theorem Database.claimable_put {db : Database} {lease : TaskLease} {ts : ℚ}
    (hlive : ts < lease.leaseUntil) (task : Task) :
    Database.claimable { db with taskLeases := db.taskLeases.put lease } ts task
      = (!decide (lease.taskId = task.taskId) && db.claimable ts task) := by
  unfold Database.claimable
  rw [Table.get?_put]
  by_cases hid : lease.taskId = task.taskId
  · rw [if_pos hid, decide_eq_true hid]
    simp only [decide_eq_false (not_le.mpr hlive), Bool.and_false, Bool.not_true, Bool.false_and]
  · rw [if_neg hid, decide_eq_false hid, Bool.not_false, Bool.true_and]

/-- A claim takes the first task off the order, and leaves the others where they were. -/
theorem Database.claimOrder_put {db : Database} {lease : TaskLease} {ts : ℚ} {task : Task}
    {rest : List Task} (horder : db.claimOrder ts = task :: rest) (hid : lease.taskId = task.taskId)
    (hlive : ts < lease.leaseUntil) :
    Database.claimOrder { db with taskLeases := db.taskLeases.put lease } ts = rest := by
  have hkeys := (keysDiffer_rows db.tasks).sublist (List.filter_sublist (p := db.claimable ts))
  have hnodup : ((db.claimOrder ts).map Task.taskId).Nodup := by
    refine (((Lib.sortedBy_perm _ _).map _).nodup_iff).mpr ?_
    exact db.tasks.nodup.sublist (List.filter_sublist.map _)
  rw [horder, List.map_cons, List.nodup_cons] at hnodup
  calc Database.claimOrder { db with taskLeases := db.taskLeases.put lease } ts
      = (db.claimOrder ts).filter (fun other => !decide (lease.taskId = other.taskId)) := by
        simp only [Database.claimOrder, Lib.filter_sortedBy hkeys, List.filter_filter,
          funext (Database.claimable_put hlive)]
    _ = rest := by
        rw [horder, List.filter_cons_of_neg (by simp [hid]), List.filter_eq_self]
        intro other hother
        have hne : lease.taskId ≠ other.taskId := by
          rw [hid]
          exact fun h => hnodup.1 (h ▸ List.mem_map_of_mem hother)
        rw [decide_eq_false hne, Bool.not_false]

/-- **Claiming at one time** goes through the order. -/
theorem yields_claimedTask {plus : ℚ → ℚ → ℚ} {ownerId : String} {leaseSeconds ts : ℚ}
    (howner : ownerId ≠ "") (hbindable : Bindable [.text ownerId]) (hpositive : 0 < leaseSeconds)
    (hlasts : ts < plus ts leaseSeconds) {order : List Task} : ∀ {db : Database}, db.claimOrder ts = order →
    Yields (claimedTask plus ownerId leaseSeconds ts) db (order.map Task.taskId) := by
  induction order with
  | nil =>
      intro db horder
      refine Yields.nil (fun db => db.claimOrder ts = []) (fun db horder => ⟨db, ?_, horder⟩) horder
      have hnext : db.nextClaimable ts = none := by
        rw [Database.nextClaimable_eq, horder, List.head?_nil]
      simp only [claimedTask, bind, EStateM.bind, claimNextTaskWith, if_neg howner,
        if_neg (not_le.mpr hpositive), hnext]
      rfl
  | cons task rest ih =>
      intro db horder
      have hnext : db.nextClaimable ts = some task := by
        rw [Database.nextClaimable_eq, horder, List.head?_cons]
      let lease : TaskLease :=
        ⟨task.taskId, ownerId, db.nextTaskGeneration task.taskId, ts, plus ts leaseSeconds⟩
      have hrun : claimedTask plus ownerId leaseSeconds ts db
          = .ok (some task.taskId) { db with taskLeases := db.taskLeases.put lease } := by
        simp only [claimedTask, bind, EStateM.bind, claimNextTaskWith, if_neg howner,
          if_neg (not_le.mpr hpositive), hnext, binds_of_bindable hbindable]
        rfl
      exact Yields.cons hrun (ih (Database.claimOrder_put horder rfl hlasts))

/-- Without leases the order has all tasks that are queued to run. -/
theorem Database.claimOrder_of_unleased {db : Database} (hnone : db.taskLeases = .empty) (ts : ℚ) :
    db.claimOrder ts = claimQueue db.loadTasks := by
  have hclaimable : db.claimable ts = Task.queuedToRun := by
    funext task
    rw [Database.claimable, hnone, Table.get?_empty, Bool.and_true, Task.queuedToRun]
  rw [Database.claimOrder, hclaimable, claimQueue, Database.loadTasks]

/-! ## The two orders -/

/-- **The heaps have the order of the claims.** A scheduler that is rebuilt over the stored tasks
draws, and a store without leases leases at one time for longer than that time, the same queue: each
task that is QUEUED with RUNNING desired and a queueing time, once, in the order of the claim query
with ids compared by their bytes. -/
theorem rebuild_order (env : Env) (plus : ℚ → ℚ → ℚ) (db : Database) (s : Sys)
    (hloaded : s.tasks = db.loadTasks) (hunleased : db.taskLeases = .empty) {ownerId : String}
    (howner : ownerId ≠ "") (hbindable : Bindable [.text ownerId])
    {leaseSeconds ts : ℚ} (hpositive : 0 < leaseSeconds) (hlasts : ts < plus ts leaseSeconds) :
    ∃ (t : Sys) (queue : List Task), rebuild env s = .ok () t ∧
      Yields nextTask t (queue.map Task.taskId) ∧
      Yields (claimedTask plus ownerId leaseSeconds ts) db (queue.map Task.taskId) ∧
      (queue.map Task.taskId).Nodup ∧
      (∀ task, task ∈ queue ↔ task ∈ db.tasks.rows ∧ task.state = .queued ∧
        task.desiredState = .running ∧ task.queuedAt.isSome = true) ∧
      queue.Pairwise (fun a b => a.rowKey < b.rowKey) := by
  refine ⟨_, claimQueue db.loadTasks, rebuild_eq env s, ?_, ?_, nodup_claimQueue _,
    fun task => ?_, ?_⟩
  · rw [← laneHeaps_eq, ← hloaded]
    refine yields_nextTask rfl (fun entry hentry => ?_)
    obtain ⟨task, hqueue, rfl⟩ : ∃ task ∈ claimQueue s.tasks, task.item = entry := by
      rcases List.mem_append.mp hentry with h | h
      · obtain ⟨task, htask, heq⟩ := List.mem_map.mp h
        exact ⟨task, (List.mem_filter.mp htask).1, heq⟩
      · obtain ⟨task, htask, heq⟩ := List.mem_map.mp h
        exact ⟨task, (List.mem_filter.mp htask).1, heq⟩
    obtain ⟨hrow, hqueued⟩ := mem_claimQueue.mp hqueue
    simp only [Task.queuedToRun, Bool.and_eq_true] at hqueued
    have hget : s.tasks.get? task.item.2.2 = some task := s.tasks.get?_of_mem hrow
    simp only [Sys.runnable, hget, hqueued.1.1, hqueued.1.2, Bool.and_self]
  · exact yields_claimedTask howner hbindable hpositive hlasts
      (Database.claimOrder_of_unleased hunleased ts)
  · rw [mem_claimQueue]
    simp only [Task.queuedToRun, Bool.and_eq_true, decide_eq_true_eq, and_assoc]
    exact Iff.rfl
  · have hnodup := List.pairwise_map.mp (nodup_claimQueue db.loadTasks)
    refine ((Lib.pairwise_sortedBy _ _).and hnodup).imp (fun {a b} h => ?_)
    exact (Task.rowKey_lt_iff a b).mpr
      (lt_of_le_of_ne h.1 (fun hkey => h.2 (Task.taskId_of_claimKey hkey)))

/-- A task that was queued at a time. -/
def queuedAtTime (taskId lane : String) (priority : Int) (at_ : ℚ) : Task :=
  { Small.task with
    taskId := taskId, state := .queued, desiredState := .running, lane := lane, priority := priority
    queuedAt := some at_ }

/-- A background task, two interactive ones of one priority, and one without a queueing time. -/
def queuedTasks : Database :=
  { tasks := (((Table.empty.put (queuedAtTime "a" "background" 90 1)).put
      (queuedAtTime "b" "interactive" 10 3)).put (queuedAtTime "c" "interactive" 10 2)).put
      { Small.task with queuedAt := none } }

example : (claimQueue queuedTasks.loadTasks).map Task.taskId = ["c", "b", "a"] := by decide +kernel

theorem rebuild_order_drawn : ∃ (t : Sys) (queue : List Task),
    rebuild Small.env { persistent := true, tasks := queuedTasks.loadTasks } = .ok () t ∧
      Yields nextTask t (queue.map Task.taskId) ∧
      Yields (claimedTask (· + ·) "worker" 10 4) queuedTasks (queue.map Task.taskId) ∧
      (queue.map Task.taskId).Nodup := by
  obtain ⟨t, queue, hrun, hdrawn, hclaimed, hnodup, _⟩ := rebuild_order Small.env
    (· + ·) queuedTasks { persistent := true, tasks := queuedTasks.loadTasks } rfl rfl
    (by decide : "worker" ≠ "") (by decide) (by decide : (0 : ℚ) < 10) (lt_add_of_pos_right 4 (by decide))
  exact ⟨t, queue, hrun, hdrawn, hclaimed, hnodup⟩

/-- Claimed for a time that vanishes in the sum, the first task is leased again and again, and an
owner that cannot be written down gets none. -/
theorem rebuild_order_fails :
    (0 : ℚ) < 1 / 2 ^ 27 ∧ Lib.Binary64.plus 1700000000 (1 / 2 ^ 27) = 1700000000 ∧
    (¬ ∃ (t : Sys) (queue : List Task),
      rebuild Small.env { persistent := true, tasks := queuedTasks.loadTasks } = .ok () t ∧
        Yields nextTask t (queue.map Task.taskId) ∧
        Yields (claimedTask Lib.Binary64.plus "worker" (1 / 2 ^ 27) 1700000000) queuedTasks
          (queue.map Task.taskId)) ∧
    ¬ ∃ (t : Sys) (queue : List Task),
      rebuild Small.env { persistent := true, tasks := queuedTasks.loadTasks } = .ok () t ∧
        Yields nextTask t (queue.map Task.taskId) ∧
        Yields (claimedTask (· + ·) (String.singleton (Char.ofNat 0x10F800)) 10 4) queuedTasks
          (queue.map Task.taskId) := by
  have hdraws : calls nextTask 2 (after (rebuild Small.env)
      { persistent := true, tasks := queuedTasks.loadTasks })
        = [some (some "c"), some (some "b")] := by
    decide +kernel
  refine ⟨by decide +kernel, Lib.Binary64.plus_vanishes, ?_, ?_⟩
  · rintro ⟨t, queue, hrun, hdrawn, hclaimed⟩
    have hclaims : calls (claimedTask Lib.Binary64.plus "worker" (1 / 2 ^ 27) 1700000000) 2
        queuedTasks = [some (some "c"), some (some "c")] := by
      decide +kernel
    rw [after_of_ok hrun, hdrawn 2, ← hclaimed 2, hclaims] at hdraws
    exact absurd hdraws (by decide)
  · rintro ⟨t, queue, hrun, hdrawn, hclaimed⟩
    have hclaims : calls (claimedTask (· + ·) (String.singleton (Char.ofNat 0x10F800)) 10 4) 2
        queuedTasks = [none, none] := by
      decide +kernel
    rw [after_of_ok hrun, hdrawn 2, ← hclaimed 2, hclaims] at hdraws
    exact absurd hdraws (by decide)

end LiandanluNative
