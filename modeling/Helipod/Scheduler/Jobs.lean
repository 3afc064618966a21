import Helipod.Lib.Runs
import Helipod.Values.Value

/-!
# Jobs of the scheduler

Model of the tables and transactions of `components/scheduler`: `enqueueInternal`,
`fireOnComplete` and `cancel` of `facade.ts`, and `_claim`, `_complete` and
`_reclaim` of `modules.ts`.

A job is known by its place in the table: rows are inserted at the end and
never deleted. The row of `job_args` is written with its job and never
changed, so it stands with the job. Arguments and contexts are opaque to the
scheduler; the arguments of a callback are the ones `fireOnComplete` builds.
No function reads `leaseHolder`, `appVersion`, `name` or `hasArgs`.

Every transaction is a sequence of moves, each of one job (`step_moves`), and
the invariants of runs are proved over the moves.
-/

namespace Helipod

open List

abbrev JobId := Nat

inductive JobKind where
  | mutation
  | action
  deriving DecidableEq

inductive JobState where
  | pending
  | inProgress
  | success
  | failed
  | canceled
  deriving DecidableEq

def JobState.isTerminal : JobState → Bool
  | .pending | .inProgress => false
  | .success | .failed | .canceled => true

/-- What `_complete` is called with. -/
inductive JobResult (ν : Type) where
  | success (value : ν)
  | failed (error : JsString) (retryable : Option Bool)
  deriving DecidableEq

inductive OnCompleteResult (ν : Type) where
  | success (value : ν)
  | failed (error : JsString)
  | canceled
  deriving DecidableEq

/-- The state that a job has with the result. -/
def OnCompleteResult.state {ν : Type} : OnCompleteResult ν → JobState
  | .success _ => .success
  | .failed _ => .failed
  | .canceled => .canceled

inductive JobArgs (α κ ν : Type) where
  | given (args : α)
  | completion (jobId : JobId) (context : Option κ) (result : OnCompleteResult ν)
  deriving DecidableEq

structure Job (α κ ν : Type) where
  fnPath : JsString
  kind : JobKind
  state : JobState
  nextTs : Int
  attempts : Nat
  maxFailures : Int
  leaseExpiresAt : Option Int
  idempotencyKey : Option JsString
  onComplete : Option JsString
  parentId : Option JobId
  completedTs : Option Int
  lastError : Option JsString
  args : JobArgs α κ ν
  context : Option κ
  deriving DecidableEq

structure EnqueueOpts (κ : Type) where
  runAfter : Option Int
  runAt : Option Int
  /-- `retry.maxFailures`. -/
  maxFailures : Option Int
  onComplete : Option JsString
  context : Option κ
  idempotencyKey : Option JsString

def EnqueueOpts.empty {κ : Type} : EnqueueOpts κ := ⟨none, none, none, none, none, none⟩

structure ClaimResult (α κ ν : Type) where
  jobId : JobId
  fnPath : JsString
  kind : JobKind
  args : JobArgs α κ ν
  context : Option κ
  onComplete : Option JsString

def batchCap : Nat := 64

def leaseMs : Int := 30000

def leaseExpiredError : JsString :=
  js "lease expired: driver did not complete the job before its lease deadline (infra kill)"

/-- The number of failures is already counted; `random` is in the unit interval. -/
def computeBackoff (attempts : Nat) (random : Rat) : Int :=
  (((250 * 2 ^ (attempts + 1) : Nat) : Rat) * (1 / 2 + random / 2) + 1 / 2).floor

/-- The tables `jobs` and `job_args`. -/
structure JobTable (α κ ν : Type) where
  rows : List (Job α κ ν)
  deriving DecidableEq

variable {α κ ν : Type}

namespace Job

/-- The row that `_claim` writes. -/
def claimed (job : Job α κ ν) (now : Int) : Job α κ ν :=
  { job with state := .inProgress, leaseExpiresAt := some (now + leaseMs) }

/-- The row with which a job goes back for another attempt. -/
def retried (job : Job α κ ν) (nextTs : Int) (error : JsString) : Job α κ ν :=
  { job with
    state := .pending, attempts := job.attempts + 1, nextTs := nextTs, lastError := some error
    leaseExpiresAt := none }

def succeeded (job : Job α κ ν) (now : Int) : Job α κ ν :=
  { job with state := .success, completedTs := some now, leaseExpiresAt := none }

/-- The row of a dead-lettered job. -/
def deadLettered (job : Job α κ ν) (now : Int) (error : JsString) : Job α κ ν :=
  { job with
    state := .failed, attempts := job.attempts + 1, completedTs := some now, lastError := some error
    leaseExpiresAt := none }

def canceled (job : Job α κ ν) (now : Int) : Job α κ ν :=
  { job with state := .canceled, completedTs := some now }

end Job

namespace JobTable

def empty : JobTable α κ ν := ⟨[]⟩

def get? (t : JobTable α κ ν) (jobId : JobId) : Option (Job α κ ν) := t.rows[jobId]?

def insert (t : JobTable α κ ν) (job : Job α κ ν) : JobTable α κ ν := ⟨t.rows ++ [job]⟩

def replace (t : JobTable α κ ν) (jobId : JobId) (job : Job α κ ν) : JobTable α κ ν :=
  ⟨t.rows.set jobId job⟩

/-- The job with an idempotency key. -/
def byIdempotency (t : JobTable α κ ν) (key : JsString) : Option JobId :=
  t.rows.findIdx? fun job => job.idempotencyKey = some key

/-- `currentJobId` is undefined, so the new job has no parent and is born pending. -/
def newJob (now : Int) (fnPath : JsString) (args : JobArgs α κ ν) (opts : EnqueueOpts κ)
    (kind : JobKind) : Job α κ ν where
  __ := opts
  fnPath := fnPath
  kind := kind
  state := .pending
  nextTs := opts.runAt.getD (match opts.runAfter with
    | some delay => now + max 0 delay
    | none => now)
  attempts := 0
  maxFailures := opts.maxFailures.getD (if kind = .action then 1 else 4)
  leaseExpiresAt := none
  parentId := none
  completedTs := none
  lastError := none
  args := args

def enqueueInternal (t : JobTable α κ ν) (now : Int) (fnPath : JsString) (args : JobArgs α κ ν)
    (opts : EnqueueOpts κ) (kind : JobKind) : JobTable α κ ν × JobId :=
  match opts.idempotencyKey.bind t.byIdempotency with
  | some found => (t, found)
  | none => (t.insert (newJob now fnPath args opts kind), t.rows.length)

def fireOnComplete (t : JobTable α κ ν) (now : Int) (jobId : JobId) (job : Job α κ ν)
    (result : OnCompleteResult ν) : JobTable α κ ν :=
  match job.onComplete with
  | none => t
  | some path =>
    (t.enqueueInternal now path (.completion jobId job.context result)
      { EnqueueOpts.empty with runAt := some now } .mutation).1

/-- `_claim`. -/
def claim (t : JobTable α κ ν) (jobId : JobId) (now : Int) :
    JobTable α κ ν × Option (ClaimResult α κ ν) :=
  match t.get? jobId with
  | none => (t, none)
  | some job =>
    if job.state ≠ .pending then (t, none)
    else (t.replace jobId (job.claimed now),
      some ⟨jobId, job.fnPath, job.kind, job.args, job.context, job.onComplete⟩)

/-- `_complete`. -/
def complete (t : JobTable α κ ν) (jobId : JobId) (result : JobResult ν) (now : Int)
    (random : Rat) : JobTable α κ ν :=
  match t.get? jobId with
  | none => t
  | some job =>
    if job.state ≠ .inProgress then t
    else match result with
      | .success value =>
        (t.replace jobId (job.succeeded now)).fireOnComplete now jobId job (.success value)
      | .failed error retryable =>
        if job.maxFailures ≤ (job.attempts + 1 : Nat) ∨ retryable.getD true = false then
          (t.replace jobId (job.deadLettered now error)).fireOnComplete now jobId job
            (.failed error)
        else t.replace jobId (job.retried (now + computeBackoff (job.attempts + 1) random) error)

/-- The jobs in progress whose lease has expired, by `nextTs` and at most a batch of them. -/
def expired (t : JobTable α κ ν) (now : Int) : List (Job α κ ν × JobId) :=
  ((t.rows.zipIdx.filter fun p =>
    p.1.state = .inProgress && p.1.leaseExpiresAt.any (· < now)).insertionSort
    fun p q => p.1.nextTs ≤ q.1.nextTs).take batchCap

def reclaimJob (now : Int) (t : JobTable α κ ν) (p : Job α κ ν × JobId) : JobTable α κ ν :=
  if p.1.kind = .mutation ∧ (p.1.attempts + 1 : Nat) < p.1.maxFailures then
    t.replace p.2 (p.1.retried now leaseExpiredError)
  else (t.replace p.2 (p.1.deadLettered now leaseExpiredError)).fireOnComplete now p.2 p.1
    (.failed leaseExpiredError)

/-- `_reclaim`. -/
def reclaim (t : JobTable α κ ν) (now : Int) : JobTable α κ ν :=
  (t.expired now).foldl (reclaimJob now) t

def cancelPending (now : Int) (t : JobTable α κ ν) (jobId : JobId) : JobTable α κ ν :=
  match t.get? jobId with
  | none => t
  | some job =>
    if job.state = .pending then
      (t.replace jobId (job.canceled now)).fireOnComplete now jobId job .canceled
    else t

def children (t : JobTable α κ ν) (jobId : JobId) : List JobId :=
  (List.range t.rows.length).filter fun child => (t.get? child).any fun job =>
    job.parentId = some jobId

/-- The walk over the descendants; `none` when the fuel runs out with jobs left in the queue. -/
def cascade (now : Int) : Nat → JobTable α κ ν → List JobId → List JobId → Option (JobTable α κ ν)
  | _, t, [], _ => some t
  | 0, _, _ :: _, _ => none
  | fuel + 1, t, parentId :: queue, seen =>
    let fresh := (t.children parentId).filter (· ∉ seen)
    cascade now fuel (fresh.foldl (cancelPending now) t) (queue ++ fresh) (seen ++ fresh)

/-- `cancel`. No job is visited twice, so the rows bound the walk. -/
def cancel (t : JobTable α κ ν) (jobId : JobId) (now : Int) : Option (JobTable α κ ν) :=
  cascade now (t.rows.length + 1) (cancelPending now t jobId) [jobId] [jobId]

end JobTable

/-! ## Transactions -/

inductive JobEvent (α κ ν : Type) where
  | enqueue (now : Int) (fnPath : JsString) (args : α) (opts : EnqueueOpts κ) (kind : JobKind)
  | claim (jobId : JobId) (now : Int)
  | complete (jobId : JobId) (result : JobResult ν) (now : Int) (random : Rat)
  | reclaim (now : Int)
  | cancel (jobId : JobId) (now : Int)
  /-- The process of a driver dies; the tables stay. -/
  | crash

def JobTable.step (t : JobTable α κ ν) : JobEvent α κ ν → Option (JobTable α κ ν)
  | .enqueue now fnPath args opts kind =>
      some (t.enqueueInternal now fnPath (.given args) opts kind).1
  | .claim jobId now => some (t.claim jobId now).1
  | .complete jobId result now random => some (t.complete jobId result now random)
  | .reclaim now => some (t.reclaim now)
  | .cancel jobId now => t.cancel jobId now
  | .crash => some t

/-! ## Moves of one job -/

namespace JobTable

variable {t t' : JobTable α κ ν} {id jobId : JobId} {job : Job α κ ν} {now : Int}

theorem get?_insert : (t.insert job).get? id = if id = t.rows.length then some job else
    t.get? id := by
  rw [get?, insert, get?]
  split
  · next h => rw [h, getElem?_concat_length]
  · next h =>
    rcases Nat.lt_or_ge id t.rows.length with hlt | hge
    · rw [getElem?_append_left hlt]
    · have hlength : (t.rows ++ [job]).length ≤ id := by
        rw [length_append, length_singleton]
        exact Nat.lt_of_le_of_ne hge (Ne.symm h)
      rw [getElem?_eq_none hlength, getElem?_eq_none hge]

theorem get?_lt (h : t.get? id = some job) : id < t.rows.length := (List.getElem?_eq_some_iff.1 h).1

theorem get?_replace {job' : Job α κ ν} (h : t.get? jobId = some job) :
    (t.replace jobId job').get? id = if id = jobId then some job' else t.get? id := by
  rw [get?, replace, get?, getElem?_set]
  by_cases hid : jobId = id
  · subst hid
    simp [get?_lt h]
  · simp [hid, Ne.symm hid]

theorem length_replace : (t.replace jobId job).rows.length = t.rows.length := length_set

theorem fireOnComplete_eq {result : OnCompleteResult ν} : t.fireOnComplete now jobId job result =
    match job.onComplete with
    | none => t
    | some path => t.insert (newJob now path (.completion jobId job.context result)
      { EnqueueOpts.empty with runAt := some now } .mutation) := by
  rw [fireOnComplete]
  cases job.onComplete <;> rfl

end JobTable

/-- An event makes a job in progress pending again: its failure is reported, or a sweep finds the
lease of a mutation expired. -/
inductive Retries : JobEvent α κ ν → JobId → Job α κ ν → Prop
  | reported {id : JobId} {job : Job α κ ν} {error : JsString} {retryable : Option Bool} {now : Int}
      {random : Rat} : retryable.getD true = true →
      Retries (.complete id (.failed error retryable) now random) id job
  | swept {id : JobId} {job : Job α κ ν} {now : Int} : job.kind = .mutation →
      (∃ lease, job.leaseExpiresAt = some lease ∧ lease < now) → Retries (.reclaim now) id job

/-- An event finishes a job with a result. -/
inductive Finishes : JobEvent α κ ν → JobId → Job α κ ν → OnCompleteResult ν → Prop
  | success {id : JobId} {job : Job α κ ν} {value : ν} {now : Int} {random : Rat} :
      job.state = .inProgress →
        Finishes (.complete id (.success value) now random) id job (.success value)
  | failed {id : JobId} {job : Job α κ ν} {error : JsString} {retryable : Option Bool} {now : Int}
      {random : Rat} : job.state = .inProgress →
      Finishes (.complete id (.failed error retryable) now random) id job (.failed error)
  | swept {id : JobId} {job : Job α κ ν} {now : Int} : job.state = .inProgress →
      (∃ lease, job.leaseExpiresAt = some lease ∧ lease < now) →
      ¬ (job.kind = .mutation ∧ (job.attempts + 1 : Nat) < job.maxFailures) →
      Finishes (.reclaim now) id job (.failed leaseExpiredError)
  | canceled {id root : JobId} {job : Job α κ ν} {now : Int} : job.state = .pending →
      Finishes (.cancel root now) id job .canceled

namespace Job

/-- What no transaction changes. -/
structure SameJob (job job' : Job α κ ν) : Prop where
  fnPath : job'.fnPath = job.fnPath
  kind : job'.kind = job.kind
  maxFailures : job'.maxFailures = job.maxFailures
  onComplete : job'.onComplete = job.onComplete
  parentId : job'.parentId = job.parentId
  args : job'.args = job.args
  context : job'.context = job.context

theorem SameJob.refl (job : Job α κ ν) : SameJob job job := ⟨rfl, rfl, rfl, rfl, rfl, rfl, rfl⟩

theorem SameJob.trans {a b c : Job α κ ν} (h : SameJob a b) (h' : SameJob b c) : SameJob a c :=
  ⟨h'.fnPath.trans h.fnPath, h'.kind.trans h.kind, h'.maxFailures.trans h.maxFailures,
    h'.onComplete.trans h.onComplete, h'.parentId.trans h.parentId, h'.args.trans h.args,
    h'.context.trans h.context⟩

theorem same_claimed (job : Job α κ ν) (now : Int) : SameJob job (job.claimed now) :=
  ⟨rfl, rfl, rfl, rfl, rfl, rfl, rfl⟩

theorem same_retried (job : Job α κ ν) (nextTs : Int) (error : JsString) :
    SameJob job (job.retried nextTs error) :=
  ⟨rfl, rfl, rfl, rfl, rfl, rfl, rfl⟩

/-- The row of a finished job. -/
structure FinishedAs (job : Job α κ ν) (result : OnCompleteResult ν) (job' : Job α κ ν) : Prop where
  same : SameJob job job'
  state : job'.state = result.state
  attempts : job.attempts ≤ job'.attempts

end Job

/-- One job is inserted, claimed, given back or finished. -/
inductive Move (e : JobEvent α κ ν) : JobTable α κ ν → JobTable α κ ν → Prop
  | insert {t : JobTable α κ ν} {now : Int} {fnPath : JsString} {args : α} {opts : EnqueueOpts κ}
      {kind : JobKind} : e = .enqueue now fnPath args opts kind →
      Move e t (t.insert (JobTable.newJob now fnPath (.given args) opts kind))
  | claim {t : JobTable α κ ν} {id : JobId} {job : Job α κ ν} {now : Int} : e = .claim id now →
      t.get? id = some job → job.state = .pending → Move e t (t.replace id (job.claimed now))
  | retry {t : JobTable α κ ν} {id : JobId} {job : Job α κ ν} {nextTs : Int} {error : JsString} :
      Retries e id job → t.get? id = some job → job.state = .inProgress →
      (job.attempts + 1 : Nat) < job.maxFailures →
        Move e t (t.replace id (job.retried nextTs error))
  | finish {t : JobTable α κ ν} {id : JobId} {job job' : Job α κ ν} {now : Int}
      {result : OnCompleteResult ν} : Finishes e id job result → t.get? id = some job →
      job.FinishedAs result job' → Move e t ((t.replace id job').fireOnComplete now id job result)

/-- The moves of one transaction. -/
def Moves (e : JobEvent α κ ν) : JobTable α κ ν → JobTable α κ ν → Prop :=
  Relation.ReflTransGen (Move e)

namespace JobTable

variable {t t' : JobTable α κ ν} {e : JobEvent α κ ν} {jobId : JobId} {now : Int} {id : JobId}
  {n : Nat}

theorem moves_enqueue {fnPath : JsString} {args : α} {opts : EnqueueOpts κ} {kind : JobKind} :
    Moves (.enqueue now fnPath args opts kind) t
      (t.enqueueInternal now fnPath (.given args) opts kind).1 := by
  rw [enqueueInternal]
  split
  · exact .refl
  · exact .single (.insert rfl)

theorem moves_claim : Moves (.claim jobId now) t (t.claim jobId now).1 := by
  rw [claim]
  split
  · exact .refl
  · next job hjob =>
    split
    · exact .refl
    · next hstate => exact .single (.claim rfl hjob (not_not.1 hstate))

theorem moves_complete {result : JobResult ν} {random : Rat} :
    Moves (.complete jobId result now random) t (t.complete jobId result now random) := by
  rw [complete]
  split
  · exact .refl
  · next job hjob =>
    split
    · exact .refl
    · next hstate =>
      have hstate := not_not.1 hstate
      split
      · exact .single (.finish (.success hstate) hjob
          ⟨⟨rfl, rfl, rfl, rfl, rfl, rfl, rfl⟩, rfl, le_rfl⟩)
      · next error retryable =>
        split
        · exact .single (.finish (.failed hstate) hjob
            ⟨⟨rfl, rfl, rfl, rfl, rfl, rfl, rfl⟩, rfl, Nat.le_succ _⟩)
        · next hretry =>
          rw [not_or, not_le, Bool.not_eq_false] at hretry
          exact .single (.retry (.reported hretry.2) hjob hstate hretry.1)

theorem mem_expired {p : Job α κ ν × JobId} (h : p ∈ t.expired now) : t.get? p.2 = some p.1 ∧
    p.1.state = .inProgress ∧ ∃ lease, p.1.leaseExpiresAt = some lease ∧ lease < now := by
  have hmem := (mem_insertionSort _).1 (mem_of_mem_take h)
  obtain ⟨hrow, hexpired⟩ := mem_filter.1 hmem
  rw [Bool.and_eq_true, decide_eq_true_eq, Option.any_eq_true] at hexpired
  obtain ⟨hstate, lease, hlease, hlt⟩ := hexpired
  exact ⟨mem_zipIdx_iff_getElem?.1 hrow, hstate, lease, hlease, of_decide_eq_true hlt⟩

theorem nodup_expired : ((t.expired now).map Prod.snd).Nodup := by
  have hsub : ((t.expired now).map Prod.snd).Sublist
      (((t.rows.zipIdx.filter fun p =>
        p.1.state = .inProgress && p.1.leaseExpiresAt.any (· < now)).insertionSort
        fun p q => p.1.nextTs ≤ q.1.nextTs).map Prod.snd) := (take_sublist _ _).map _
  refine hsub.nodup (((perm_insertionSort _ _).map _).nodup_iff.2 ?_)
  exact (nodup_range' ).sublist ((filter_sublist.map _).trans (by rw [zipIdx_map_snd]))

theorem get?_fireOnComplete {job : Job α κ ν} {result : OnCompleteResult ν}
    (h : id < t.rows.length) : (t.fireOnComplete now jobId job result).get? id = t.get? id := by
  rw [fireOnComplete_eq]
  split
  · rfl
  · rw [get?_insert, if_neg (Nat.ne_of_lt h)]

theorem get?_reclaimJob {p : Job α κ ν × JobId} {job : Job α κ ν} (hp : t.get? p.2 = some p.1)
    (hid : id ≠ p.2) (h : t.get? id = some job) : (reclaimJob now t p).get? id = some job := by
  rw [reclaimJob]
  split
  · rw [get?_replace hp, if_neg hid, h]
  · rw [get?_fireOnComplete (by rw [length_replace]; exact get?_lt h), get?_replace hp,
      if_neg hid, h]

theorem moves_reclaim : Moves (.reclaim now) t (t.reclaim now) := by
  suffices h : ∀ (ps : List (Job α κ ν × JobId)) (t : JobTable α κ ν), (ps.map Prod.snd).Nodup →
      (∀ p ∈ ps, t.get? p.2 = some p.1 ∧ p.1.state = .inProgress ∧
        ∃ lease, p.1.leaseExpiresAt = some lease ∧ lease < now) →
      Moves (.reclaim now) t (ps.foldl (reclaimJob now) t) from
    h _ t nodup_expired fun p hp => mem_expired hp
  intro ps
  induction ps with
  | nil => exact fun t _ _ => .refl
  | cons p ps ih =>
    intro t hnodup hps
    obtain ⟨hrow, hstate, hlease⟩ := hps p mem_cons_self
    obtain ⟨hfresh, hnodup⟩ := nodup_cons.1 hnodup
    refine .trans (.single ?_) (ih (reclaimJob now t p) hnodup fun q hq => ?_)
    · rw [reclaimJob]
      split
      · next hkind => exact .retry (.swept hkind.1 hlease) hrow hstate hkind.2
      · next hspent =>
        exact .finish (.swept hstate hlease hspent) hrow
          ⟨⟨rfl, rfl, rfl, rfl, rfl, rfl, rfl⟩, rfl, Nat.le_succ _⟩
    · obtain ⟨hq', hrest⟩ := hps q (mem_cons_of_mem _ hq)
      refine ⟨get?_reclaimJob hrow (fun heq => hfresh ?_) hq', hrest⟩
      exact heq ▸ mem_map_of_mem hq

theorem moves_cancelPending {root id : JobId} :
    Moves (.cancel root now) t (cancelPending now t id) := by
  rw [cancelPending]
  split
  · exact .refl
  · next job hjob =>
    split
    · next hstate =>
      exact .single (.finish (.canceled hstate) hjob
        ⟨⟨rfl, rfl, rfl, rfl, rfl, rfl, rfl⟩, rfl, le_rfl⟩)
    · exact .refl

theorem moves_cascade {root : JobId} {fuel : Nat} {queue seen : List JobId}
    (h : cascade now fuel t queue seen = some t') : Moves (.cancel root now) t t' := by
  induction fuel generalizing t queue seen with
  | zero =>
    cases queue with
    | nil =>
      cases h
      exact .refl
    | cons _ _ => cases h
  | succ fuel ih =>
    cases queue with
    | nil =>
      cases h
      exact .refl
    | cons parent queue =>
      refine .trans (foldlRecOn (motive := Moves _ t) _ _ .refl fun _ h _ _ => ?_) (ih h)
      exact h.trans moves_cancelPending

/-! ### The walk ends -/

/-- Only the first `n` jobs have a parent. -/
def ParentsBelow (n : Nat) (t : JobTable α κ ν) : Prop :=
  ∀ id job, t.get? id = some job → job.parentId.isSome → id < n

theorem ParentsBelow.cancelPending (h : ParentsBelow n t) :
    ParentsBelow n (cancelPending now t id) := by
  rw [JobTable.cancelPending]
  split
  · exact h
  · next job hjob =>
    split
    · have hreplace : ParentsBelow n (t.replace id (job.canceled now)) := by
        intro id' job' hget hparent
        rw [get?_replace hjob] at hget
        split at hget
        · next heq =>
          cases hget
          exact heq ▸ h id job hjob hparent
        · exact h id' job' hget hparent
      rw [fireOnComplete_eq]
      split
      · exact hreplace
      · intro id' job' hget hparent
        rw [get?_insert] at hget
        split at hget
        · cases hget
          cases hparent
        · exact hreplace id' job' hget hparent
    · exact h

theorem lt_of_mem_children {parent child : JobId} (h : ParentsBelow n t)
    (hchild : child ∈ t.children parent) : child < n := by
  obtain ⟨-, hany⟩ := mem_filter.1 hchild
  obtain ⟨job, hjob, hparent⟩ := (Option.any_eq_true _ _).1 hany
  exact h child job hjob (by rw [of_decide_eq_true hparent]; rfl)

/-- The queue and the jobs not yet seen bound the number of rounds: a round takes one job from the
queue, and puts into it only jobs that it marks as seen. -/
theorem isSome_cascade {n fuel : Nat} {queue seen : List JobId} (h : ParentsBelow n t)
    (hfuel : queue.length + ((List.range n).filter (· ∉ seen)).length ≤ fuel) :
    (cascade now fuel t queue seen).isSome := by
  induction fuel generalizing t queue seen with
  | zero =>
    cases queue with
    | nil => rfl
    | cons _ _ => simp at hfuel
  | succ fuel ih =>
    cases queue with
    | nil => rfl
    | cons parent queue =>
      let fresh := (t.children parent).filter (· ∉ seen)
      refine ih (foldlRecOn _ _ h fun _ h _ _ => h.cancelPending) ?_
      have hnodup : (fresh ++ (List.range n).filter (· ∉ seen ++ fresh)).Nodup := by
        refine nodup_append.2 ⟨(nodup_range.filter _).filter _, nodup_range.filter _, ?_⟩
        intro a ha b hb heq
        have hb := of_decide_eq_true (mem_filter.1 hb).2
        exact hb (mem_append_right _ (heq ▸ ha))
      have hsub : fresh ++ (List.range n).filter (· ∉ seen ++ fresh) ⊆ (List.range n).filter
        (· ∉ seen) := by
        intro a ha
        rcases mem_append.1 ha with ha | ha
        · obtain ⟨hchild, hseen⟩ := mem_filter.1 ha
          exact mem_filter.2 ⟨mem_range.2 (lt_of_mem_children h hchild), hseen⟩
        · obtain ⟨hrange, hseen⟩ := mem_filter.1 ha
          refine mem_filter.2 ⟨hrange, decide_eq_true fun hmem => ?_⟩
          exact of_decide_eq_true hseen (mem_append_left _ hmem)
      have hle := (subperm_of_subset hnodup hsub).length_le
      show (queue ++ fresh).length + ((List.range n).filter (· ∉ seen ++ fresh)).length ≤ fuel
      rw [length_append] at hle ⊢
      rw [length_cons] at hfuel
      omega

theorem isSome_cancel : (t.cancel jobId now).isSome := by
  refine isSome_cascade (ParentsBelow.cancelPending fun id job hget _ => get?_lt hget) ?_
  have hle := length_filter_le (fun id => decide (id ∉ [jobId])) (List.range t.rows.length)
  rw [length_range] at hle
  rw [length_singleton]
  omega

theorem step_moves (h : t.step e = some t') : Moves e t t' := by
  cases e with
  | enqueue =>
    cases h
    exact moves_enqueue
  | claim =>
    cases h
    exact moves_claim
  | complete =>
    cases h
    exact moves_complete
  | reclaim =>
    cases h
    exact moves_reclaim
  | cancel => exact moves_cancelPending.trans (moves_cascade h)
  | crash =>
    cases h
    exact .refl

end JobTable

end Helipod
