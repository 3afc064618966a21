import Helipod.Scheduler.JobRuns
import Helipod.Values.Json

/-!
# The driver of the scheduler

Model of `components/scheduler/src/driver.ts`: passes that peek, claim, run
and complete the due jobs one after the other, and the lease sweep, which runs
between any two awaits of a pass. The functions of the jobs may enqueue and
cancel other jobs at any time, as the rest of the application may.

The result of a function goes through `jsonToConvex` on its way into
`_complete`. A sweep does not know whether the function of an expired job is
still running, so a slow one is given back while it runs
(`slow_run_dispatched_again`).

Results:
* `returned_run_is_last`
* `tracked_step`: the row of a job and the runs of its function agree where no sweep comes too late.
-/

namespace Helipod

open JobTable List

variable {α κ : Type}

/-- A run of the function of a job. -/
inductive FunctionRun where
  | running
  | returned (value : Value)
  | threw (error : JsString)
  deriving DecidableEq

/-- Where a pass waits. -/
inductive DriverPhase where
  | idle
  | peeking
  | claiming (jobId : JobId) (rest : List JobId)
  | running (jobId : JobId) (rest : List JobId)
  | completing (jobId : JobId) (result : JobResult Value) (rest : List JobId)
  deriving DecidableEq

structure Driver (α κ : Type) where
  jobs : JobTable α κ Value
  phase : DriverPhase
  pendingWake : Bool
  /-- The runs of the function of each job so far, a ghost. -/
  runs : JobId → List FunctionRun

inductive DriverEvent (α κ : Type) where
  /-- A commit to a table of the scheduler, or a timer. -/
  | wake
  | peek (now : Int)
  | claim (now : Int)
  /-- The function returns a value or `undefined`. -/
  | returns (value : Option Value)
  | throws (error : JsString) (retryable : Bool)
  | complete (now : Int) (random : Rat)
  /-- A call of the scheduler's own functions fails without effect. -/
  | rejects
  | sweep (now : Int)
  | enqueue (now : Int) (fnPath : JsString) (args : α) (opts : EnqueueOpts κ) (kind : JobKind)
  | cancel (jobId : JobId) (now : Int)

/-- `_peekDue`. -/
def JobTable.due {ν : Type} (t : JobTable α κ ν) (now : Int) : List JobId :=
  (((t.rows.zipIdx.filter fun p => p.1.state = .pending && p.1.nextTs ≤ now).insertionSort
    fun p q => p.1.nextTs ≤ q.1.nextTs).take batchCap).map Prod.snd

/-- The arguments of `_complete` are decoded on the way; `none` where that throws. -/
def JobResult.decode : JobResult Value → Option (JobResult Value)
  | .success value => (jsonToConvex value).map .success
  | .failed error retryable => some (.failed error retryable)

namespace Driver

def initial : Driver α κ := ⟨.empty, .idle, false, fun _ => []⟩

/-- The next job of the pass, or its end; a wake in the meantime starts another pass. -/
def next (d : Driver α κ) : List JobId → Driver α κ
  | jobId :: rest => { d with phase := .claiming jobId rest }
  | [] =>
    if d.pendingWake then { d with phase := .peeking, pendingWake := false }
    else { d with phase := .idle }

def setRuns (d : Driver α κ) (jobId : JobId) (runs : List FunctionRun) : Driver α κ :=
  { d with runs := fun id => if id = jobId then runs else d.runs id }

/-- The run of the function ends. -/
def settle (d : Driver α κ) (jobId : JobId) (run : FunctionRun) : Driver α κ :=
  d.setRuns jobId ((d.runs jobId).dropLast ++ [run])

def step (d : Driver α κ) : DriverEvent α κ → Option (Driver α κ)
  | .wake =>
    if d.phase = .idle then some { d with phase := .peeking, pendingWake := false }
    else some { d with pendingWake := true }
  | .peek now =>
    match d.phase with
    | .peeking => some (d.next (d.jobs.due now))
    | _ => none
  | .claim now =>
    match d.phase with
    | .claiming jobId rest =>
      match (d.jobs.claim jobId now).2 with
      | none => some (d.next rest)
      | some _ =>
        some { d.setRuns jobId (d.runs jobId ++ [.running]) with
          jobs := (d.jobs.claim jobId now).1, phase := .running jobId rest }
    | _ => none
  | .returns value =>
    match d.phase with
    | .running jobId rest =>
      some { d.settle jobId (.returned (value.getD .null)) with
        phase := .completing jobId (.success (value.getD .null)) rest }
    | _ => none
  | .throws error retryable =>
    match d.phase with
    | .running jobId rest =>
      some { d.settle jobId (.threw error) with
        phase := .completing jobId (.failed error (some retryable)) rest }
    | _ => none
  | .complete now random =>
    match d.phase with
    | .completing jobId result rest =>
      match result.decode with
      | none => some (d.next [])
      | some result => some ({ d with jobs := d.jobs.complete jobId result now random }.next rest)
    | _ => none
  | .rejects =>
    match d.phase with
    | .peeking | .claiming _ _ | .completing _ _ _ => some (d.next [])
    | _ => none
  | .sweep now => some { d with jobs := d.jobs.reclaim now }
  | .enqueue now fnPath args opts kind =>
    some { d with jobs := (d.jobs.enqueueInternal now fnPath (.given args) opts kind).1 }
  | .cancel jobId now => (d.jobs.cancel jobId now).map fun jobs => { d with jobs := jobs }

end Driver

/-! ## What a transaction does to a job that it is not about -/

section Aside

variable {ν : Type} {e : JobEvent α κ ν} {id : JobId} {t t' : JobTable α κ ν} {job job' : Job α κ ν}

/-- The transaction neither claims nor completes the job, and no sweep finds its lease expired. -/
def Aside (t : JobTable α κ ν) (id : JobId) : JobEvent α κ ν → Prop
  | .claim jobId _ => jobId ≠ id
  | .complete jobId _ _ _ => jobId ≠ id
  | .reclaim now => ∀ job lease, t.get? id = some job → job.state = .inProgress →
    job.leaseExpiresAt = some lease → now ≤ lease
  | _ => True

/-- Such a transaction leaves the row as it is or cancels it. -/
theorem JobMoves.aside (h : JobMoves e id job job') (hjob : t.get? id = some job)
    (haside : Aside t id e) : job' = job ∨ job.state = .pending ∧ job'.state = .canceled := by
  rcases Relation.ReflTransGen.cases_head h with rfl | ⟨row, hmove, hmoves⟩
  · exact Or.inl rfl
  cases hmove with
  | claim he _ =>
    subst he
    exact absurd rfl haside
  | retry hretries hstate _ =>
    cases hretries with
    | reported _ => exact absurd rfl haside
    | swept _ hlease =>
      obtain ⟨lease, hlease, hlt⟩ := hlease
      exact absurd (haside job lease hjob hstate hlease) (not_le.2 hlt)
  | finish hfinishes hfinished =>
    cases hfinishes with
    | success _ | failed _ => exact absurd rfl haside
    | swept hstate hlease _ =>
      obtain ⟨lease, hlease, hlt⟩ := hlease
      exact absurd (haside job lease hjob hstate hlease) (not_le.2 hlt)
    | canceled hstate =>
      have hcanceled : row.state = .canceled := hfinished.state
      rw [JobMoves.eq_of_terminal hmoves (by rw [hcanceled]; rfl)]
      exact Or.inr ⟨hstate, hcanceled⟩

/-- A job that is new in the table waits, or was canceled at once. -/
theorem Moves.state_new (h : Moves e t t') (hnone : t.get? id = none)
    (hjob : t'.get? id = some job) :
    (job.state = .pending ∨ job.state = .canceled) ∧ ∀ jobId now, e ≠ .claim jobId now := by
  induction h generalizing job with
  | refl =>
    rw [hnone] at hjob
    cases hjob
  | @tail m m' _ hmove ih =>
    cases hm : m.get? id with
    | none =>
      obtain ⟨⟨_, _, _, _, _, rfl⟩, hclaim⟩ := hmove.new hm hjob
      exact ⟨Or.inl rfl, hclaim⟩
    | some row =>
      obtain ⟨hstate, hclaim⟩ := ih hm
      refine ⟨?_, hclaim⟩
      obtain ⟨job', hjob', hmoves⟩ := hmove.get? hm
      cases hjob.symm.trans hjob'
      rcases Relation.ReflTransGen.cases_head hmoves with rfl | ⟨mid, hmove, hmoves⟩
      · exact hstate
      have hpending : row.state = .pending := by
        refine hstate.resolve_right fun hcanceled => ?_
        have hlive := hmove.live
        rw [hcanceled] at hlive
        cases hlive
      cases hmove with
      | claim he _ => exact absurd he (hclaim _ _)
      | retry _ hprogress _ =>
        rw [hpending] at hprogress
        cases hprogress
      | finish hfinishes hfinished =>
        cases hfinishes with
        | success hprogress | failed hprogress | swept hprogress _ _ =>
          rw [hpending] at hprogress
          cases hprogress
        | canceled _ =>
          have hcanceled : mid.state = .canceled := hfinished.state
          rw [JobMoves.eq_of_terminal hmoves (by rw [hcanceled]; rfl)]
          exact Or.inr hcanceled

/-- A callback that is new in the table was enqueued with the result of the job. -/
theorem Moves.mem_callbacks (h : Moves e t t') {c : JsString × Option κ × OnCompleteResult ν}
    (hc : c ∈ t'.callbacks id) : c ∈ t.callbacks id ∨ ∃ row, Finishes e id row c.2.2 ∧
      ∀ job, t.get? id = some job → JobMoves e id job row := by
  induction h with
  | refl => exact Or.inl hc
  | @tail m m' hmoves hmove ih =>
    cases hmove with
    | insert _ =>
      rw [callbacks_insert] at hc
      exact ih ((mem_append.1 hc).resolve_right fun hc => (by cases hc))
    | claim _ hget _ =>
      rw [callbacks_replace hget (Job.same_claimed _ _)] at hc
      exact ih hc
    | retry _ hget _ _ =>
      rw [callbacks_replace hget (Job.same_retried _ _ _)] at hc
      exact ih hc
    | @finish jobId row job' now result hfinishes hget hfinished =>
      rw [callbacks_fireOnComplete, callbacks_replace hget hfinished.same] at hc
      rcases mem_append.1 hc with hold | hnew
      · exact ih hold
      split at hnew
      · next heq =>
        subst heq
        obtain ⟨path, -, rfl⟩ := mem_map.1 hnew
        refine Or.inr ⟨row, hfinishes, fun job hjob => ?_⟩
        obtain ⟨row', hrow', hrows⟩ := Moves.get? hmoves hjob
        cases hget.symm.trans hrow'
        exact hrows
      · cases hnew

/-- A transaction aside from the job can only add a callback for its cancellation. -/
theorem Moves.callbacks_aside (h : Moves e t t') (hjob : t.get? id = some job)
    (haside : Aside t id e)
    {c : JsString × Option κ × OnCompleteResult ν} (hc : c ∈ t'.callbacks id) :
    c ∈ t.callbacks id ∨ c.2.2 = .canceled ∧ job.state = .pending := by
  refine (h.mem_callbacks hc).imp_right ?_
  rintro ⟨row, hfinishes, hrows⟩
  generalize c.2.2 = result at hfinishes
  have hrow := (hrows job hjob).aside hjob haside
  cases hfinishes with
  | success _ | failed _ => exact absurd rfl haside
  | swept hstate hlease _ =>
    rcases hrow with rfl | ⟨-, hcanceled⟩
    · obtain ⟨lease, hlease, hlt⟩ := hlease
      exact absurd (haside row lease hjob hstate hlease) (not_le.2 hlt)
    · rw [hstate] at hcanceled
      cases hcanceled
  | canceled hstate =>
    rcases hrow with rfl | ⟨hpending, -⟩
    · exact ⟨rfl, hstate⟩
    · exact ⟨rfl, hpending⟩

end Aside

/-! ## A job and the runs of its function -/

/-- What the pass is doing with a job. -/
inductive Busy where
  | no
  | running
  | completing (result : JobResult Value)

def DriverPhase.busy (id : JobId) : DriverPhase → Busy
  | .running jobId _ => if jobId = id then .running else .no
  | .completing jobId result _ => if jobId = id then .completing result else .no
  | _ => .no

/-- The state of a job agrees with the last run of its function and with the pass. -/
inductive Agrees : Busy → Option FunctionRun → JobState → Prop
  | fresh {state : JobState} : state = .pending ∨ state = .canceled → Agrees .no none state
  | running : Agrees .running (some .running) .inProgress
  | succeeding {value : Value} : Agrees (.completing (.success value))
      (some (.returned value)) .inProgress
  | failing {error : JsString} {retryable : Option Bool} :
      Agrees (.completing (.failed error retryable)) (some (.threw error)) .inProgress
  /-- The call of `_complete` failed. -/
  | unreported {run : FunctionRun} : run ≠ .running → Agrees .no (some run) .inProgress
  | succeeded {value : Value} : Agrees .no (some (.returned value)) .success
  | failed {error : JsString} {state : JobState} :
      state = .pending ∨ state = .failed ∨ state = .canceled →
        Agrees .no (some (.threw error)) state

/-- The result of a callback is the outcome of the last run, or the job was canceled. -/
def OutcomeOf (last : Option FunctionRun) : OnCompleteResult Value → Prop
  | .success value => last = some (.returned value)
  | .failed error => last = some (.threw error)
  | .canceled => ∀ value, last ≠ some (.returned value)

/-- The row, the callbacks and the runs of a job agree. -/
structure Tracked (d : Driver α κ) (id : JobId) : Prop where
  exact : d.jobs.Exact id
  absent : d.jobs.get? id = none → d.runs id = [] ∧ d.phase.busy id = .no
  row : ∀ job, d.jobs.get? id = some job → Agrees (d.phase.busy id) (d.runs id).getLast? job.state
  earlier : ∀ run ∈ (d.runs id).dropLast, ∃ error, run = .threw error
  callbacks : ∀ c ∈ d.jobs.callbacks id, OutcomeOf (d.runs id).getLast? c.2.2

theorem Agrees.last_of_pending {busy : Busy} {last : Option FunctionRun}
    (h : Agrees busy last .pending) :
    busy = .no ∧ (last = none ∨ ∃ error, last = some (.threw error)) := by
  cases h with
  | fresh _ => exact ⟨rfl, Or.inl rfl⟩
  | failed _ => exact ⟨rfl, Or.inr ⟨_, rfl⟩⟩

theorem Agrees.cancel {busy : Busy} {last : Option FunctionRun} (h : Agrees busy last .pending) :
    Agrees busy last .canceled := by
  cases h with
  | fresh _ => exact .fresh (Or.inr rfl)
  | failed _ => exact .failed (Or.inr (Or.inr rfl))

namespace Driver

variable {d d' : Driver α κ} {id jobId : JobId} {e : DriverEvent α κ}

theorem next_jobs (d : Driver α κ) (rest : List JobId) : (d.next rest).jobs = d.jobs := by
  cases rest with
  | nil =>
    rw [next]
    split <;> rfl
  | cons _ _ => rfl

theorem next_runs (d : Driver α κ) (rest : List JobId) : (d.next rest).runs = d.runs := by
  cases rest with
  | nil =>
    rw [next]
    split <;> rfl
  | cons _ _ => rfl

theorem next_busy (d : Driver α κ) (rest : List JobId) : (d.next rest).phase.busy id = .no := by
  cases rest with
  | nil =>
    rw [next]
    split <;> rfl
  | cons _ _ => rfl

theorem setRuns_self {runs : List FunctionRun} : (d.setRuns id runs).runs id = runs := if_pos rfl

theorem setRuns_ne {runs : List FunctionRun} (h : id ≠ jobId) :
    (d.setRuns jobId runs).runs id = d.runs id :=
  if_neg h

end Driver

namespace Tracked

variable {d d' : Driver α κ} {id : JobId} {e : JobEvent α κ Value} {job : Job α κ Value}

variable (h : Tracked d id)
include h

/-- A transaction aside from the job, while the pass does with the job what it did. -/
theorem aside (hmoves : Moves e d.jobs d'.jobs) (haside : Aside d.jobs id e)
    (hbusy : d'.phase.busy id = d.phase.busy id) (hruns : d'.runs id = d.runs id) :
    Tracked d' id := by
  have hexact := h.exact.moves hmoves
  refine ⟨hexact, fun hnone => ?_, fun job' hjob' => ?_, ?_, fun c hc => ?_⟩
  · cases hjob : d.jobs.get? id with
    | none =>
      rw [hruns, hbusy]
      exact h.absent hjob
    | some job =>
      obtain ⟨job', hjob', -⟩ := hmoves.get? hjob
      rw [hnone] at hjob'
      cases hjob'
  · rw [hruns, hbusy]
    cases hjob : d.jobs.get? id with
    | none =>
      obtain ⟨hempty, hidle⟩ := h.absent hjob
      rw [hempty, hidle]
      exact .fresh (hmoves.state_new hjob hjob').1
    | some job =>
      obtain ⟨row, hrow, hrows⟩ := hmoves.get? hjob
      cases hjob'.symm.trans hrow
      have hagrees := h.row job hjob
      rcases hrows.aside hjob haside with rfl | ⟨hpending, hcanceled⟩
      · exact hagrees
      · rw [hpending] at hagrees
        rw [hcanceled]
        exact hagrees.cancel
  · rw [hruns]
    exact h.earlier
  · rw [hruns]
    cases hjob : d.jobs.get? id with
    | none =>
      rw [(h.absent hjob).1]
      cases hjob' : d'.jobs.get? id with
      | none =>
        rw [hexact.absent hjob'] at hc
        cases hc
      | some job' =>
        rcases (hmoves.state_new hjob hjob').1 with hstate | hstate
        · rw [hexact.live job' hjob' (by rw [hstate]; rfl)] at hc
          cases hc
        · obtain ⟨result, hresult, hcallbacks⟩ := hexact.ended job' hjob' (by rw [hstate]; rfl)
          rw [hcallbacks] at hc
          obtain ⟨path, -, rfl⟩ := mem_map.1 hc
          rw [hstate] at hresult
          cases result with
          | canceled => exact fun value hlast => (by cases hlast)
          | success _ | failed _ => cases hresult
    | some job =>
      rcases hmoves.callbacks_aside hjob haside hc with hold | ⟨hcanceled, hpending⟩
      · exact h.callbacks c hold
      · have hagrees := h.row job hjob
        rw [hpending] at hagrees
        rw [hcanceled]
        intro value hlast
        rcases hagrees.last_of_pending.2 with hnone | ⟨error, hthrew⟩
        · rw [hnone] at hlast
          cases hlast
        · rw [hthrew] at hlast
          cases hlast

theorem turn (hjobs : d'.jobs = d.jobs) (hbusy : d'.phase.busy id = d.phase.busy id)
    (hruns : d'.runs id = d.runs id) : Tracked d' id := by
  refine h.aside (e := .crash) ?_ trivial hbusy hruns
  rw [hjobs]
  exact .refl

theorem claim {now : Int} (hjob : d.jobs.get? id = some job)
    (hpending : job.state = .pending) (hjobs : d'.jobs = d.jobs.replace id (job.claimed now))
    (hbusy : d'.phase.busy id = .running) (hruns : d'.runs id = d.runs id ++ [.running]) :
    Tracked d' id := by
  have hagrees := h.row job hjob
  rw [hpending] at hagrees
  have hcallbacks : d.jobs.callbacks id = [] := h.exact.live job hjob (by rw [hpending]; rfl)
  have hget : d'.jobs.get? id = some (job.claimed now) := by
    rw [hjobs, get?_replace hjob, if_pos rfl]
  refine ⟨?_, fun hnone => ?_, fun job' hjob' => ?_, fun run hrun => ?_, fun c hc => ?_⟩
  · rw [hjobs]
    exact h.exact.replace_live hjob (job.same_claimed now) (by rw [hpending]; rfl) rfl
  · rw [hget] at hnone
    cases hnone
  · cases hget.symm.trans hjob'
    rw [hbusy, hruns, getLast?_concat]
    exact .running
  · rw [hruns, dropLast_concat] at hrun
    -- the run before the new one failed as well
    rcases eq_nil_or_concat' (d.runs id) with hnil | ⟨front, last, hconcat⟩
    · rw [hnil] at hrun
      cases hrun
    · rw [hconcat] at hrun
      rcases mem_append.1 hrun with hfront | hlast
      · refine h.earlier run ?_
        rw [hconcat, dropLast_concat]
        exact hfront
      · rw [mem_singleton.1 hlast]
        have hlast := hagrees.last_of_pending.2
        rw [hconcat, getLast?_concat] at hlast
        rcases hlast with hnone | ⟨error, hthrew⟩
        · cases hnone
        · exact ⟨error, Option.some.inj hthrew⟩
  · rw [hjobs, callbacks_replace hjob (job.same_claimed now), hcallbacks] at hc
    cases hc

theorem settle {run : FunctionRun} {busy : Busy} (hrunning : d.phase.busy id = .running)
    (hjobs : d'.jobs = d.jobs) (hbusy : d'.phase.busy id = busy)
    (hruns : d'.runs id = (d.runs id).dropLast ++ [run])
    (hagrees : Agrees busy (some run) .inProgress) :
    Tracked d' id := by
  cases hjob : d.jobs.get? id with
  | none =>
    rw [(h.absent hjob).2] at hrunning
    cases hrunning
  | some job =>
    have hstate : job.state = .inProgress := by
      have hrow := h.row job hjob
      rw [hrunning] at hrow
      generalize job.state = state at hrow
      generalize (d.runs id).getLast? = last at hrow
      cases hrow
      rfl
    refine ⟨by rw [hjobs]; exact h.exact, fun hnone => ?_, fun job' hjob' => ?_, fun r hr => ?_,
      fun c hc => ?_⟩
    · rw [hjobs, hjob] at hnone
      cases hnone
    · rw [hjobs] at hjob'
      cases hjob.symm.trans hjob'
      rw [hbusy, hruns, getLast?_concat, hstate]
      exact hagrees
    · rw [hruns, dropLast_concat] at hr
      exact h.earlier r hr
    · rw [hjobs, h.exact.live job hjob (by rw [hstate]; rfl)] at hc
      cases hc

variable {result : JobResult Value}

theorem drop (hcompleting : d.phase.busy id = .completing result) (hjobs : d'.jobs = d.jobs)
    (hbusy : d'.phase.busy id = .no) (hruns : d'.runs id = d.runs id) : Tracked d' id := by
  refine ⟨by rw [hjobs]; exact h.exact, fun hnone => ?_, fun job hjob => ?_, ?_, ?_⟩
  · rw [hjobs] at hnone
    rw [(h.absent hnone).2] at hcompleting
    cases hcompleting
  · rw [hjobs] at hjob
    have hrow := h.row job hjob
    rw [hcompleting] at hrow
    rw [hbusy, hruns]
    generalize job.state = state at hrow
    generalize (d.runs id).getLast? = last at hrow
    cases hrow with
    | succeeding | failing => exact .unreported fun heq => (by cases heq)
  · rw [hruns]
    exact h.earlier
  · rw [hjobs, hruns]
    exact h.callbacks

theorem complete {now : Int} {random : Rat} (hcompleting : d.phase.busy id = .completing result)
    (hjobs : d'.jobs = d.jobs.complete id result now random) (hbusy : d'.phase.busy id = .no)
    (hruns : d'.runs id = d.runs id) : Tracked d' id := by
  cases hjob : d.jobs.get? id with
  | none =>
    rw [(h.absent hjob).2] at hcompleting
    cases hcompleting
  | some job =>
    have hmoves : Moves (.complete id result now random) d.jobs d'.jobs := by
      rw [hjobs]
      exact moves_complete
    have hrow := h.row job hjob
    rw [hcompleting] at hrow
    -- a run that is being reported belongs to a job in progress, which has no callback yet
    have hstate : job.state = .inProgress := by
      generalize job.state = state at hrow
      generalize (d.runs id).getLast? = last at hrow
      cases hrow <;> rfl
    have hcallbacks : d.jobs.callbacks id = [] := h.exact.live job hjob (by rw [hstate]; rfl)
    have hnew : ∀ c ∈ d'.jobs.callbacks id,
        ∃ row : Job α κ Value, Finishes (.complete id result now random) id row c.2.2 := by
      intro c hc
      rcases hmoves.mem_callbacks hc with hold | ⟨row, hfinishes, -⟩
      · rw [hcallbacks] at hold
        cases hold
      · exact ⟨row, hfinishes⟩
    refine ⟨h.exact.moves hmoves, fun hnone => ?_, fun job' hjob' => ?_,
      by rw [hruns]; exact h.earlier, fun c hc => ?_⟩
    · obtain ⟨job', hjob', -⟩ := hmoves.get? hjob
      rw [hnone] at hjob'
      cases hjob'
    · rw [hbusy, hruns]
      rw [hstate] at hrow
      rw [hjobs, JobTable.complete, hjob] at hjob'
      simp only [hstate, ne_eq, not_true_eq_false, if_false] at hjob'
      generalize (d.runs id).getLast? = last at hrow
      cases hrow with
      | succeeding =>
        rw [get?_fireOnComplete (by rw [length_replace]; exact get?_lt hjob),
          get?_replace hjob, if_pos rfl] at hjob'
        cases hjob'
        exact .succeeded
      | failing =>
        simp only at hjob'
        split at hjob'
        · rw [get?_fireOnComplete (by rw [length_replace]; exact get?_lt hjob),
            get?_replace hjob, if_pos rfl] at hjob'
          cases hjob'
          exact .failed (Or.inr (Or.inl rfl))
        · rw [get?_replace hjob, if_pos rfl] at hjob'
          cases hjob'
          exact .failed (Or.inl rfl)
    · obtain ⟨row, hfinishes⟩ := hnew c hc
      rw [hruns]
      rw [hstate] at hrow
      generalize (d.runs id).getLast? = last at hrow
      generalize c.2.2 = outcome at hfinishes
      cases hrow with
      | succeeding | failing =>
        cases hfinishes
        rfl

end Tracked

namespace Driver

variable {d d' : Driver α κ} {id : JobId} {e : DriverEvent α κ} {es : List (DriverEvent α κ)}
  {rest : List JobId} {jobId : JobId}

/-- No sweep finds the lease of the job expired while it is in progress, and the value of its
function comes through `jsonToConvex` as it is. -/
def Undisturbed (id : JobId) (d : Driver α κ) : DriverEvent α κ → Prop
  | .sweep now => ∀ job lease, d.jobs.get? id = some job → job.state = .inProgress →
    job.leaseExpiresAt = some lease → now ≤ lease
  | .complete _ _ => ∀ value rest, d.phase = .completing id (.success value) rest →
    jsonToConvex value = none ∨ jsonToConvex value = some value
  | _ => True

theorem busy_running :
    (DriverPhase.running jobId rest).busy id = if jobId = id then .running else .no := rfl

theorem busy_completing :
    (DriverPhase.completing jobId result rest).busy id =
      if jobId = id then .completing result else .no := rfl

theorem claim_eq_some {t : JobTable α κ Value} {now : Int} {r : ClaimResult α κ Value}
    (h : (t.claim jobId now).2 = some r) : ∃ job, t.get? jobId = some job ∧ job.state = .pending ∧
      (t.claim jobId now).1 = t.replace jobId (job.claimed now) := by
  rw [JobTable.claim] at h ⊢
  cases hjob : t.get? jobId with
  | none =>
    rw [hjob] at h
    cases h
  | some job =>
    rw [hjob] at h
    simp only at h ⊢
    split at h
    · cases h
    · next hstate =>
      rw [if_neg hstate]
      exact ⟨job, rfl, not_not.1 hstate, rfl⟩

theorem tracked_next (h : Tracked d id) (hbusy : d.phase.busy id = .no) :
    Tracked (d.next rest) id :=
  h.turn (d.next_jobs rest) ((d.next_busy rest).trans hbusy.symm) (by rw [d.next_runs rest])

/-- One step keeps the job, its callbacks and its runs in agreement. -/
theorem tracked_step (h : Tracked d id) (hguard : Undisturbed id d e) (hstep : d.step e = some d') :
    Tracked d' id := by
  cases e with
  | wake =>
    rw [step] at hstep
    split at hstep
    · next hidle =>
      cases hstep
      exact h.turn rfl (by rw [hidle]; rfl) rfl
    · cases hstep
      exact h.turn rfl rfl rfl
  | peek now =>
    rw [step] at hstep
    split at hstep
    · next hphase =>
      cases hstep
      exact tracked_next h (by rw [hphase]; rfl)
    · cases hstep
  | claim now =>
    rw [step] at hstep
    split at hstep
    · next jobId rest hphase =>
      have hno : d.phase.busy id = .no := by rw [hphase]; rfl
      split at hstep
      · cases hstep
        exact tracked_next h hno
      · next r hr =>
        cases hstep
        obtain ⟨job, hjob, hpending, hclaim⟩ := claim_eq_some hr
        by_cases hid : id = jobId
        · subst hid
          exact h.claim hjob hpending hclaim (if_pos rfl) setRuns_self
        · refine h.aside (e := .claim jobId now) moves_claim (Ne.symm hid) ?_ (setRuns_ne hid)
          rw [hno, busy_running, if_neg (Ne.symm hid)]
    · cases hstep
  | returns value | throws error retryable =>
    rw [step] at hstep
    split at hstep
    · next jobId rest hphase =>
      cases hstep
      by_cases hid : id = jobId
      · subst hid
        exact h.settle (by rw [hphase, busy_running, if_pos rfl]) rfl (if_pos rfl) setRuns_self
          (by constructor)
      · refine h.turn rfl ?_ (setRuns_ne hid)
        rw [hphase, busy_running, busy_completing, if_neg (Ne.symm hid), if_neg (Ne.symm hid)]
    · cases hstep
  | complete now random =>
    rw [step] at hstep
    split at hstep
    · next jobId result rest hphase =>
      by_cases hid : id = jobId
      · subst hid
        have hbusy : d.phase.busy id = .completing result := by
          rw [hphase, busy_completing, if_pos rfl]
        split at hstep
        · cases hstep
          exact h.drop hbusy (d.next_jobs []) (d.next_busy []) (by rw [d.next_runs []])
        · next decoded hdecoded =>
          have hsame : decoded = result := by
            cases result with
            | success value =>
              obtain ⟨value', hvalue', rfl⟩ := Option.map_eq_some_iff.1 hdecoded
              rcases hguard value rest hphase with hnone | hsome
              · rw [hnone] at hvalue'
                cases hvalue'
              · rw [Option.some.inj (hvalue'.symm.trans hsome)]
            | failed _ _ => exact (Option.some.inj hdecoded).symm
          cases hstep
          rw [hsame]
          exact h.complete hbusy (next_jobs _ rest) (next_busy _ rest) (by rw [next_runs _ rest])
      · have hno : d.phase.busy id = .no := by rw [hphase, busy_completing, if_neg (Ne.symm hid)]
        split at hstep
        · cases hstep
          exact tracked_next h hno
        · cases hstep
          refine tracked_next (h.aside moves_complete (Ne.symm hid) rfl rfl) hno
    · cases hstep
  | rejects =>
    rw [step] at hstep
    split at hstep
    · next hphase =>
      cases hstep
      exact tracked_next h (by rw [hphase]; rfl)
    · next jobId rest hphase =>
      cases hstep
      exact tracked_next h (by rw [hphase]; rfl)
    · next jobId result rest hphase =>
      cases hstep
      by_cases hid : id = jobId
      · subst hid
        exact h.drop (by rw [hphase, busy_completing, if_pos rfl]) (d.next_jobs []) (d.next_busy [])
          (by rw [d.next_runs []])
      · exact tracked_next h (by rw [hphase, busy_completing, if_neg (Ne.symm hid)])
    · cases hstep
  | sweep now =>
    cases hstep
    exact h.aside moves_reclaim hguard rfl rfl
  | enqueue now fnPath args opts kind =>
    cases hstep
    exact h.aside moves_enqueue trivial rfl rfl
  | cancel jobId now =>
    obtain ⟨jobs, hjobs, rfl⟩ := Option.map_eq_some_iff.1 hstep
    have hmoves : Moves (.cancel jobId now) d.jobs jobs := step_moves hjobs
    exact h.aside hmoves trivial rfl rfl

theorem tracked_initial : Tracked (initial : Driver α κ) id where
  exact := ⟨fun _ => rfl, fun _ h _ => (by cases h), fun _ h _ => (by cases h)⟩
  absent _ := ⟨rfl, rfl⟩
  row _ h := (by cases h)
  earlier _ h := (by cases h)
  callbacks _ h := (by cases h)

/-- In a run in which no sweep comes too late for a job, its function is not dispatched again once
it has returned, and its callback gets the outcome of the last run. -/
theorem returned_run_is_last (hguard : Runs.Guarded step (Undisturbed id) initial es)
    (hrun : Runs.run step initial es = some d) :
    (∀ front value back, d.runs id = front ++ .returned value :: back → back = []) ∧
    ∀ c ∈ d.jobs.callbacks id, OutcomeOf (d.runs id).getLast? c.2.2 := by
  have htracked : Tracked d id := Runs.run_invariant_of_guarded (I := fun d => Tracked d id)
    (fun _ _ _ h hg he => tracked_step h hg he) tracked_initial hguard hrun
  refine ⟨fun front value back hruns => ?_, htracked.callbacks⟩
  by_contra hback
  have hmem : FunctionRun.returned value ∈ (d.runs id).dropLast := by
    rw [hruns, dropLast_append_of_ne_nil (by simp), dropLast_cons_of_ne_nil hback]
    exact mem_append_right _ mem_cons_self
  obtain ⟨error, herror⟩ := htracked.earlier _ hmem
  cases herror

/-! ## Two runs -/

instance decidableUndisturbed (d : Driver α κ) : ∀ e, Decidable (Undisturbed id d e)
  | .sweep now =>
    match hjob : d.jobs.get? id with
    | none => isTrue fun _ _ h => (by rw [hjob] at h; cases h)
    | some job => decidable_of_iff (job.state = .inProgress → ∀ lease ∈ job.leaseExpiresAt,
        now ≤ lease) <| by
      constructor
      · intro h job' lease hjob' hstate hlease
        cases hjob.symm.trans hjob'
        exact h hstate lease hlease
      · exact fun h hstate lease hlease => h job lease hjob hstate hlease
  | .complete _ _ =>
    match hphase : d.phase with
    | .completing jobId (.success value) rest =>
      decidable_of_iff (jobId = id → jsonToConvex value = none ∨
        jsonToConvex value = some value) <| by
        constructor
        · intro h value' rest' heq
          cases hphase.symm.trans heq
          exact h rfl
        · intro h heq
          subst heq
          exact h value rest hphase
    | .completing _ (.failed _ _) _ | .idle | .peeking | .claiming _ _ | .running _ _ =>
      isTrue fun _ _ h => (by rw [hphase] at h; cases h)
  | .wake | .peek _ | .claim _ | .returns _ | .throws _ _ | .rejects | .enqueue _ _ _ _ _
  | .cancel _ _ => isTrue trivial

/-- A mutation with a callback. -/
def enqueueReport : DriverEvent Unit Unit :=
  .enqueue 0 (js "reports:build") ()
    { EnqueueOpts.empty with onComplete := some (js "reports:built") } .mutation

/-- The function returns after twenty seconds, and a sweep runs in the meantime. -/
def quickRun : List (DriverEvent Unit Unit) :=
  [enqueueReport, .wake, .peek 0, .claim 0, .sweep 10000, .wake, .returns (some (.bool true)),
    .complete 20000 0]

theorem returned_run_is_last_quick : ∃ d, Runs.run step initial quickRun = some d ∧
    d.runs 0 = [.returned (.bool true)] ∧ d.jobs.callbacks 0 ≠ [] ∧
    (∀ front value back, d.runs 0 = front ++ .returned value :: back → back = []) ∧
    ∀ c ∈ d.jobs.callbacks 0, OutcomeOf (d.runs 0).getLast? c.2.2 := by
  refine Runs.exists_some_imp (fun d => d.runs 0 = [.returned (.bool true)] ∧
    d.jobs.callbacks 0 ≠ []) (by decide +kernel) fun d hrun ⟨hruns, hcallbacks⟩ => ?_
  exact ⟨hruns, hcallbacks, returned_run_is_last (by decide +kernel) hrun⟩

/-- The function runs for longer than the lease: a sweep gives the job back, the report is ignored,
and the next pass dispatches the function again. -/
def slowRun : List (DriverEvent Unit Unit) :=
  [enqueueReport, .wake, .peek 0, .claim 0, .sweep 30001, .wake, .returns (some (.bool true)),
    .complete 31000 0, .peek 31000, .claim 31000]

theorem slow_run_dispatched_again : ∃ d, Runs.run step initial slowRun = some d ∧
    d.runs 0 = [.returned (.bool true), .running] := by
  decide +kernel

end Driver

end Helipod
