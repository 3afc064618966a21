import Helipod.Scheduler.Jobs

/-!
# The life of a job

Runs of the scheduler's transactions, in any order and with completions that
come late or twice. A job waits, is in progress, waits again after a failure,
and ends in a terminal state. What a run can do to one job follows from the
moves (`JobMove`).

A lease that expires does not end the claim: until a sweep finds the job, the
report of a failure still gives an action back for another attempt
(`expired_action_claimed_again`).

Results: `exact_of_run`, `claims_le`, `job_life_cycle`, `cancel_halts_descendants`.
-/

namespace Helipod

open JobTable Runs List

variable {α κ ν : Type}

/-! ## The moves of one job -/

/-- An event changes the row of a job. -/
inductive JobMove (e : JobEvent α κ ν) (id : JobId) : Job α κ ν → Job α κ ν → Prop
  | claim {job : Job α κ ν} {now : Int} : e = .claim id now → job.state = .pending →
      JobMove e id job (job.claimed now)
  | retry {job : Job α κ ν} {nextTs : Int} {error : JsString} : Retries e id job →
      job.state = .inProgress → (job.attempts + 1 : Nat) < job.maxFailures →
      JobMove e id job (job.retried nextTs error)
  | finish {job job' : Job α κ ν} {result : OnCompleteResult ν} : Finishes e id job result →
      job.FinishedAs result job' → JobMove e id job job'

/-- The changes of a row in one transaction. -/
def JobMoves (e : JobEvent α κ ν) (id : JobId) : Job α κ ν → Job α κ ν → Prop :=
  Relation.ReflTransGen (JobMove e id)

section Moves

variable {e : JobEvent α κ ν} {id : JobId} {t t' : JobTable α κ ν} {job job' : Job α κ ν}

theorem Move.get? (h : Move e t t') (hjob : t.get? id = some job) :
    ∃ job', t'.get? id = some job' ∧ JobMoves e id job job' := by
  have hlt := get?_lt hjob
  cases h with
  | insert _ =>
    refine ⟨job, ?_, .refl⟩
    rw [get?_insert, if_neg (Nat.ne_of_lt hlt), hjob]
  | claim he hget hstate =>
    rw [get?_replace hget]
    split
    · next heq =>
      subst heq
      cases hjob.symm.trans hget
      exact ⟨_, rfl, .single (.claim he hstate)⟩
    · exact ⟨job, hjob, .refl⟩
  | retry hretries hget hstate hbudget =>
    rw [get?_replace hget]
    split
    · next heq =>
      subst heq
      cases hjob.symm.trans hget
      exact ⟨_, rfl, .single (.retry hretries hstate hbudget)⟩
    · exact ⟨job, hjob, .refl⟩
  | finish hfinishes hget hfinished =>
    rw [get?_fireOnComplete (by rw [length_replace]; exact hlt),
      get?_replace hget]
    split
    · next heq =>
      subst heq
      cases hjob.symm.trans hget
      exact ⟨_, rfl, .single (.finish hfinishes hfinished)⟩
    · exact ⟨job, hjob, .refl⟩

theorem Moves.get? (h : Moves e t t') (hjob : t.get? id = some job) :
    ∃ job', t'.get? id = some job' ∧ JobMoves e id job job' := by
  induction h with
  | refl => exact ⟨job, hjob, .refl⟩
  | tail _ hmove ih =>
    obtain ⟨mid, hmid, hmoves⟩ := ih
    obtain ⟨job', hjob', hmove⟩ := hmove.get? hmid
    exact ⟨job', hjob', hmoves.trans hmove⟩

theorem JobMove.same (h : JobMove e id job job') : job.SameJob job' := by
  cases h with
  | claim _ _ => exact job.same_claimed _
  | retry _ _ _ => exact job.same_retried _ _
  | finish _ hfinished => exact hfinished.same

theorem JobMoves.same (h : JobMoves e id job job') : job.SameJob job' := by
  induction h with
  | refl => exact .refl job
  | tail _ hmove ih => exact ih.trans hmove.same

theorem Finishes.live {result : OnCompleteResult ν} (h : Finishes e id job result) :
    job.state.isTerminal = false := by
  cases h with
  | success hstate | failed hstate | swept hstate _ _ | canceled hstate => rw [hstate]; rfl

theorem JobMove.live (h : JobMove e id job job') : job.state.isTerminal = false := by
  cases h with
  | claim _ hstate | retry _ hstate _ => rw [hstate]; rfl
  | finish hfinishes _ => exact hfinishes.live

theorem JobMoves.eq_of_terminal (h : JobMoves e id job job')
    (hterminal : job.state.isTerminal = true) : job' = job := by
  induction h with
  | refl => rfl
  | tail _ hmove ih =>
    subst ih
    rw [hmove.live] at hterminal
    cases hterminal

end Moves

/-! ## What `cancel` reaches -/

section Cancel

variable {root id : JobId} {now : Int} {t₀ t t' : JobTable α κ ν} {job job' : Job α κ ν}

/-- If the job stood in `t₀`, it is not pending in `t`. -/
def Halted (t₀ t : JobTable α κ ν) (id : JobId) : Prop :=
  ∀ job, t₀.get? id = some job → ∃ job', t.get? id = some job' ∧ job'.state ≠ .pending

theorem JobMoves.ne_pending (h : JobMoves (.cancel root now) id job job')
    (hjob : job.state ≠ .pending) : job'.state ≠ .pending := by
  induction h with
  | refl => exact hjob
  | tail _ hmove ih =>
    cases hmove with
    | claim he => cases he
    | retry hretries => cases hretries
    | finish hfinishes =>
      cases hfinishes with
      | canceled hstate => exact absurd hstate ih

theorem Halted.moves (h : Halted t₀ t id) (hmoves : Moves (.cancel root now) t t') :
    Halted t₀ t' id := by
  intro job hjob
  obtain ⟨mid, hmid, hstate⟩ := h job hjob
  obtain ⟨job', hjob', hrow⟩ := hmoves.get? hmid
  exact ⟨job', hjob', hrow.ne_pending hstate⟩

theorem halted_cancelPending (h : Moves (.cancel root now) t₀ t) :
    Halted t₀ (cancelPending now t id) id := by
  intro job hjob
  obtain ⟨mid, hmid, -⟩ := h.get? hjob
  simp only [cancelPending, hmid]
  split
  · rw [get?_fireOnComplete (by rw [length_replace]; exact get?_lt hmid), get?_replace hmid,
      if_pos rfl]
    exact ⟨_, rfl, JobState.noConfusion⟩
  · next hstate => exact ⟨mid, hmid, hstate⟩

theorem moves_cancelAll (root : JobId) {ids : List JobId} :
    Moves (.cancel root now) t (ids.foldl (cancelPending now) t) :=
  foldlRecOn (motive := Moves _ t) _ _ .refl fun _ h _ _ => h.trans moves_cancelPending

theorem halted_cancelAll {ids : List JobId} (h : Moves (.cancel root now) t₀ t) (hid : id ∈ ids) :
    Halted t₀ (ids.foldl (cancelPending now) t) id := by
  induction ids generalizing t with
  | nil => cases hid
  | cons first ids ih =>
    rcases mem_cons.1 hid with rfl | hid
    · exact (halted_cancelPending h).moves (moves_cancelAll root)
    · exact ih (h.trans moves_cancelPending) hid

theorem children_moves (h : Moves (.cancel root now) t t') : t.children id ⊆ t'.children id := by
  intro child hchild
  obtain ⟨job, hjob, hparent⟩ := (Option.any_eq_true _ _).1 (mem_filter.1 hchild).2
  obtain ⟨job', hjob', hrow⟩ := h.get? hjob
  refine mem_filter.2 ⟨mem_range.2 (get?_lt hjob'), ?_⟩
  rwa [hjob', Option.any_some, hrow.same.parentId]

/-- A job seen is in the queue, or all its children were seen. -/
theorem cascade_closed {fuel : Nat} {queue seen : List JobId}
    (hmoves : Moves (.cancel root now) t₀ t) (h : cascade now fuel t queue seen = some t')
    (hseen : ∀ a ∈ seen, Halted t₀ t a ∧ (a ∈ queue ∨ t₀.children a ⊆ seen)) :
    ∃ ids, seen ⊆ ids ∧ ∀ a ∈ ids, Halted t₀ t' a ∧ t₀.children a ⊆ ids := by
  induction fuel generalizing t queue seen with
  | zero =>
    cases queue with
    | nil =>
      cases h
      exact ⟨seen, fun _ h => h, by simpa using hseen⟩
    | cons _ _ => cases h
  | succ fuel ih =>
    cases queue with
    | nil =>
      cases h
      exact ⟨seen, fun _ h => h, by simpa using hseen⟩
    | cons parent queue =>
      refine (ih (hmoves.trans (moves_cancelAll root)) h fun a ha => ?_).imp fun ids hids =>
        ⟨fun a ha => hids.1 (mem_append_left _ ha), hids.2⟩
      rcases mem_append.1 ha with ha | ha
      · refine ⟨(hseen a ha).1.moves (moves_cancelAll root), ?_⟩
        rcases (hseen a ha).2 with hqueue | hchildren
        · rcases mem_cons.1 hqueue with rfl | hqueue
          · refine .inr fun b hb => ?_
            by_cases hb' : b ∈ seen
            · exact mem_append_left _ hb'
            · exact mem_append_right _ (mem_filter.2 ⟨children_moves hmoves hb, decide_eq_true hb'⟩)
          · exact .inl (mem_append_left _ hqueue)
        · exact .inr fun b hb => mem_append_left _ (hchildren hb)
      · exact ⟨halted_cancelAll hmoves ha, .inl (mem_append_right _ ha)⟩

/-- `cancel` returns, and leaves no descendant pending, whatever the states of the jobs between. -/
theorem cancel_halts_descendants (t : JobTable α κ ν) (root : JobId) (now : Int) :
    ∃ t', t.cancel root now = some t' ∧ ∀ id,
      Relation.ReflTransGen (fun parent child => child ∈ t.children parent) root id →
        Halted t t' id := by
  obtain ⟨t', hrun⟩ : ∃ t', t.cancel root now = some t' := Option.isSome_iff_exists.1 isSome_cancel
  have hstart : Moves (.cancel root now) t t := .refl
  obtain ⟨ids, hsub, hids⟩ := cascade_closed (hstart.trans moves_cancelPending) hrun fun a ha => by
    rw [mem_singleton.1 ha]
    exact ⟨halted_cancelPending hstart, .inl mem_cons_self⟩
  refine ⟨t', hrun, fun id hid => (hids id ?_).1⟩
  induction hid with
  | refl => exact hsub mem_cons_self
  | tail _ hchild ih => exact (hids _ ih).2 hchild

end Cancel

/-! ## Callbacks -/

theorem OnCompleteResult.isTerminal_state (result : OnCompleteResult ν) :
    result.state.isTerminal = true := by
  cases result <;> rfl

namespace JobTable

/-- The callback of a job that a row is, with its function, context and result. -/
def callbackOf (id : JobId) (job : Job α κ ν) : Option (JsString × Option κ × OnCompleteResult ν) :=
  match job.args with
  | .given _ => none
  | .completion jobId context result => if jobId = id then
      some (job.fnPath, context, result) else none

/-- The callbacks of a job in the table. -/
def callbacks (t : JobTable α κ ν) (id : JobId) : List (JsString × Option κ × OnCompleteResult ν) :=
  t.rows.filterMap (callbackOf id)

variable {t t' : JobTable α κ ν} {e : JobEvent α κ ν} {id jobId : JobId} {job job' : Job α κ ν}
  {result : OnCompleteResult ν} {now : Int}

theorem callbackOf_same (h : job.SameJob job') : callbackOf id job' = callbackOf id job := by
  rw [callbackOf, callbackOf, h.args, h.fnPath]

theorem callbacks_replace (hget : t.get? jobId = some job) (h : job.SameJob job') :
    (t.replace jobId job').callbacks id = t.callbacks id := by
  have hset : (t.rows.set jobId job').map (callbackOf id) = t.rows.map (callbackOf id) := by
    rw [map_set, callbackOf_same h]
    refine ext_getElem? fun i => ?_
    rw [getElem?_set]
    split
    · next heq =>
      subst heq
      have hrow : t.rows[jobId]? = some job := hget
      rw [length_map, if_pos (get?_lt hget), getElem?_map, hrow]
      rfl
    · rfl
  have hmap : ∀ rows : List (Job α κ ν),
      rows.filterMap (callbackOf id) = (rows.map (callbackOf id)).filterMap fun o => o := by
    intro rows
    rw [filterMap_map]
    rfl
  rw [callbacks, callbacks, replace, hmap, hmap, hset]

theorem callbacks_insert : (t.insert job).callbacks id = t.callbacks id ++
    (callbackOf id job).toList := by
  rw [callbacks, insert, filterMap_append]
  cases h : callbackOf id job <;> simp [callbacks, h]

theorem callbacks_fireOnComplete :
    (t.fireOnComplete now jobId job result).callbacks id =
      t.callbacks id ++ if jobId = id then
        job.onComplete.toList.map (·, job.context, result) else [] := by
  rw [fireOnComplete_eq]
  cases job.onComplete with
  | none => simp
  | some path =>
    rw [callbacks_insert, callbackOf]
    show t.callbacks id ++ (if jobId = id then some (path, job.context, result) else
      none).toList = _
    split <;> rfl

/-- The callbacks of a job are in the table exactly when it has ended, with its result. -/
structure Exact (t : JobTable α κ ν) (id : JobId) : Prop where
  absent : t.get? id = none → t.callbacks id = []
  live : ∀ job, t.get? id = some job → job.state.isTerminal = false → t.callbacks id = []
  ended : ∀ job, t.get? id = some job → job.state.isTerminal = true →
    ∃ result : OnCompleteResult ν, result.state = job.state ∧
      t.callbacks id = job.onComplete.toList.map (·, job.context, result)

theorem Exact.insert_given {args : α} (h : Exact t id) (hargs : job.args = .given args)
    (hstate : job.state = .pending) : Exact (t.insert job) id := by
  have hcallbacks : (t.insert job).callbacks id = t.callbacks id := by
    rw [callbacks_insert, callbackOf, hargs, Option.toList_none, append_nil]
  have hnew : id = t.rows.length → t.callbacks id = [] := fun heq =>
    h.absent (by rw [get?, heq]; exact getElem?_eq_none le_rfl)
  refine ⟨fun hget => ?_, fun job' hget hlive => ?_, fun job' hget hended => ?_⟩ <;>
    rw [get?_insert] at hget <;> rw [hcallbacks] <;> split at hget
  · cases hget
  · exact h.absent hget
  · next heq => exact hnew heq
  · exact h.live job' hget hlive
  · cases hget
    rw [hstate] at hended
    cases hended
  · exact h.ended job' hget hended

theorem Exact.replace_live (h : Exact t id) (hget : t.get? jobId = some job)
    (hsame : job.SameJob job')
    (hjob : job.state.isTerminal = false) (hjob' : job'.state.isTerminal = false) :
    Exact (t.replace jobId job') id := by
  refine ⟨fun hnone => ?_, fun row hrow hlive => ?_, fun row hrow hended => ?_⟩ <;>
    rw [callbacks_replace hget hsame]
  · rw [get?_replace hget] at hnone
    split at hnone
    · cases hnone
    · exact h.absent hnone
  · rw [get?_replace hget] at hrow
    split at hrow
    · next heq => exact h.live job (heq ▸ hget) hjob
    · exact h.live row hrow hlive
  · rw [get?_replace hget] at hrow
    split at hrow
    · cases hrow
      rw [hjob'] at hended
      cases hended
    · exact h.ended row hrow hended

theorem get?_fireOnComplete_length {row : Job α κ ν}
    (h : (t.fireOnComplete now jobId job result).get? id = some row) (hid : t.get? id = none) :
    row.state = .pending := by
  rw [fireOnComplete_eq] at h
  split at h
  · rw [hid] at h
    cases h
  · rw [get?_insert] at h
    split at h
    · cases h
      rfl
    · rw [hid] at h
      cases h

theorem Exact.finish (h : Exact t id)
    (hget : t.get? jobId = some job) (hfinished : job.FinishedAs result job')
    (hjob : job.state.isTerminal = false) :
    Exact ((t.replace jobId job').fireOnComplete now jobId job result) id := by
  have hcallbacks : ((t.replace jobId job').fireOnComplete now jobId job result).callbacks id =
      t.callbacks id ++ if jobId = id then
        job.onComplete.toList.map (·, job.context, result) else [] := by
    rw [callbacks_fireOnComplete, callbacks_replace hget hfinished.same]
  by_cases hid : jobId = id
  · subst hid
    have hrow : ((t.replace jobId job').fireOnComplete now jobId job result).get? jobId =
      some job' := by
      rw [get?_fireOnComplete (by rw [length_replace]; exact get?_lt hget),
        get?_replace hget, if_pos rfl]
    rw [if_pos rfl, h.live job hget hjob, nil_append] at hcallbacks
    refine ⟨fun hnone => ?_, fun row hrow' hlive => ?_, fun row hrow' _ => ?_⟩
    · rw [hrow] at hnone
      cases hnone
    · cases hrow.symm.trans hrow'
      rw [hfinished.state, result.isTerminal_state] at hlive
      cases hlive
    · cases hrow.symm.trans hrow'
      exact ⟨result, hfinished.state.symm, by rw [hcallbacks, hfinished.same.onComplete,
        hfinished.same.context]⟩
  · rw [if_neg hid, append_nil] at hcallbacks
    have hreplace : (t.replace jobId job').get? id = t.get? id := by
      rw [get?_replace hget, if_neg (Ne.symm hid)]
    cases hrow : t.get? id with
    | none =>
      have hempty := h.absent hrow
      rw [← hreplace] at hrow
      refine ⟨fun _ => hcallbacks.trans hempty, fun _ _ _ => hcallbacks.trans hempty, ?_⟩
      intro row hrow' hended
      rw [get?_fireOnComplete_length hrow' hrow] at hended
      cases hended
    | some row =>
      have hrow'
        : ((t.replace jobId job').fireOnComplete now jobId job result).get? id = some row := by
        rw [get?_fireOnComplete (by rw [length_replace]; exact get?_lt hrow), hreplace, hrow]
      refine ⟨fun hnone => ?_, fun row' hget' hlive => ?_, fun row' hget' hended => ?_⟩
      · rw [hrow'] at hnone
        cases hnone
      · cases hrow'.symm.trans hget'
        rw [hcallbacks]
        exact h.live row hrow hlive
      · cases hrow'.symm.trans hget'
        rw [hcallbacks]
        exact h.ended row hrow hended

theorem Exact.move (h : Exact t id) (hmove : Move e t t') : Exact t' id := by
  cases hmove with
  | insert _ => exact h.insert_given rfl rfl
  | claim _ hget hstate =>
      exact h.replace_live hget (Job.same_claimed _ _) (by rw [hstate]; rfl) rfl
  | retry _ hget hstate _ =>
      exact h.replace_live hget (Job.same_retried _ _ _) (by rw [hstate]; rfl) rfl
  | finish hfinishes hget hfinished => exact h.finish hget hfinished hfinishes.live

theorem Exact.moves (h : Exact t id) (hmoves : Moves e t t') : Exact t' id := by
  induction hmoves with
  | refl => exact h
  | tail _ hmove ih => exact ih.move hmove

/-- A callback of a job is enqueued when the job ends, and at no other time. -/
theorem exact_of_run {es : List (JobEvent α κ ν)} (hrun : Runs.run step empty es = some t) :
    Exact t id := by
  refine run_invariant (I := fun t => Exact t id)
    (fun _ _ _ h he => h.moves (step_moves he)) ?_ hrun
  exact ⟨fun _ => rfl, fun _ h _ => (by cases h), fun _ h _ => (by cases h)⟩

/-! ## Claims -/

/-- The event claims the job. -/
def takes (t : JobTable α κ ν) (id : JobId) : JobEvent α κ ν → Bool
  | .claim jobId _ => jobId = id && (t.get? id).any fun job => job.state = .pending
  | _ => false

/-- How often the events claim the job. -/
def claims (id : JobId) : JobTable α κ ν → List (JobEvent α κ ν) → Nat
  | _, [] => 0
  | t, e :: es => (if t.takes id e then 1 else 0) +
    match t.step e with
    | none => 0
    | some t' => claims id t' es

end JobTable

/-- How often a job can still be claimed. -/
def Job.claimsLeft (job : Job α κ ν) : Int :=
  match job.state with
  | .pending => max 1 (job.maxFailures - job.attempts)
  | .inProgress => max 0 (job.maxFailures - job.attempts - 1)
  | _ => 0

theorem Job.claimsLeft_nonneg (job : Job α κ ν) : 0 ≤ job.claimsLeft := by
  unfold Job.claimsLeft
  split <;> omega

variable {job : Job α κ ν}

theorem Job.claimsLeft_terminal (h : job.state.isTerminal = true) : job.claimsLeft = 0 := by
  unfold Job.claimsLeft
  split
  · next hstate => rw [hstate] at h; cases h
  · next hstate => rw [hstate] at h; cases h
  · rfl

theorem Job.claimsLeft_claimed {now : Int} (h : job.state = .pending) :
    (job.claimed now).claimsLeft + 1 = job.claimsLeft := by
  rw [Job.claimsLeft, Job.claimsLeft, h]
  show max 0 (job.maxFailures - job.attempts - 1) + 1 = max 1 (job.maxFailures - job.attempts)
  omega

theorem JobMove.claimsLeft_le {e : JobEvent α κ ν} {id : JobId} {job' : Job α κ ν}
    (h : JobMove e id job job') : job'.claimsLeft ≤ job.claimsLeft := by
  cases h with
  | @claim now _ hstate =>
    have hleft : (job.claimed now).claimsLeft + 1 = job.claimsLeft := Job.claimsLeft_claimed hstate
    omega
  | @retry nextTs error _ hstate hbudget =>
    rw [Job.claimsLeft, Job.claimsLeft, hstate]
    show max 1 (job.maxFailures - ((job.attempts + 1 : Nat) :
      Int)) ≤ max 0 (job.maxFailures - job.attempts - 1)
    omega
  | finish _ hfinished =>
    rw [Job.claimsLeft_terminal
      (by rw [hfinished.state]; exact OnCompleteResult.isTerminal_state _)]
    exact job.claimsLeft_nonneg

theorem JobMoves.claimsLeft_le {e : JobEvent α κ ν} {id : JobId} {job' : Job α κ ν}
    (h : JobMoves e id job job') : job'.claimsLeft ≤ job.claimsLeft := by
  induction h with
  | refl => exact le_rfl
  | tail _ hmove ih => exact hmove.claimsLeft_le.trans ih

theorem JobTable.claimsLeft_newJob {now : Int} {fnPath : JsString} {args : JobArgs α κ ν}
    {opts : EnqueueOpts κ} {kind : JobKind} : (newJob now fnPath args opts kind).claimsLeft =
      max 1 (newJob now fnPath args opts kind).maxFailures := by
  show max 1 ((newJob now fnPath args opts kind).maxFailures - ((0 : Nat) : Int)) = _
  omega

section Runs

variable {e : JobEvent α κ ν} {es : List (JobEvent α κ ν)} {id : JobId} {t t' : JobTable α κ ν}
  {job job' : Job α κ ν}

/-- A row that was not there is a new job, and the event is no claim. -/
theorem Move.new (h : Move e t t') (hnone : t.get? id = none) (hjob : t'.get? id = some job) :
    (∃ now fnPath args opts kind, job = JobTable.newJob now fnPath args opts kind) ∧
      ∀ jobId now, e ≠ .claim jobId now := by
  have hreplace : ∀ {jobId : JobId} {old new row : Job α κ ν}, t.get? jobId = some old →
      (t.replace jobId new).get? id ≠ some row := by
    intro jobId old new row hget hrow
    rw [get?_replace hget] at hrow
    split at hrow
    · next heq =>
      rw [heq, hget] at hnone
      cases hnone
    · rw [hnone] at hrow
      cases hrow
  cases h with
  | insert he =>
    rw [get?_insert] at hjob
    split at hjob
    · cases hjob
      exact ⟨⟨_, _, _, _, _, rfl⟩, fun _ _ h => (by rw [he] at h; cases h)⟩
    · rw [hnone] at hjob
      cases hjob
  | claim _ hget _ | retry _ hget _ _ => exact absurd hjob (hreplace hget)
  | finish hfinishes hget _ =>
    refine ⟨?_, fun _ _ h => (by subst h; cases hfinishes)⟩
    rw [fireOnComplete_eq] at hjob
    split at hjob
    · exact absurd hjob (hreplace hget)
    · rw [get?_insert] at hjob
      split at hjob
      · cases hjob
        exact ⟨_, _, _, _, _, rfl⟩
      · exact absurd hjob (hreplace hget)

/-- A new row can be claimed as often as its budget allows. -/
theorem Moves.claimsLeft_new (h : Moves e t t') (hnone : t.get? id = none)
    (hjob : t'.get? id = some job) : job.claimsLeft ≤ max 1 job.maxFailures := by
  induction h generalizing job with
  | refl =>
    rw [hnone] at hjob
    cases hjob
  | @tail m m' _ hmove ih =>
    cases hm : m.get? id with
    | none =>
      obtain ⟨⟨_, _, _, _, _, rfl⟩, -⟩ := hmove.new hm hjob
      exact claimsLeft_newJob.le
    | some row =>
      obtain ⟨job', hjob', hmoves⟩ := hmove.get? hm
      cases hjob.symm.trans hjob'
      rw [hmoves.same.maxFailures]
      exact hmoves.claimsLeft_le.trans (ih hm)

namespace JobTable

theorem get?_step (h : t.step e = some t') (hjob : t.get? id = some job) :
    ∃ job', t'.get? id = some job' ∧ JobMoves e id job job' := (step_moves h).get? hjob

theorem same_run (h : Runs.run step t es = some t') (hjob : t.get? id = some job) :
    ∃ job', t'.get? id = some job' ∧ job.SameJob job' := by
  induction es generalizing t job with
  | nil =>
    cases h
    exact ⟨job, hjob, .refl job⟩
  | cons e es ih =>
    obtain ⟨m, hm, h⟩ := run_cons_eq_some.1 h
    obtain ⟨row, hrow, hmoves⟩ := get?_step hm hjob
    obtain ⟨job', hjob', hsame⟩ := ih h hrow
    exact ⟨job', hjob', hmoves.same.trans hsame⟩

theorem get?_run_of_terminal (h : Runs.run step t es = some t') (hjob : t.get? id = some job)
    (hterminal : job.state.isTerminal = true) : t'.get? id = some job := by
  induction es generalizing t with
  | nil =>
    cases h
    exact hjob
  | cons e es ih =>
    obtain ⟨m, hm, h⟩ := run_cons_eq_some.1 h
    obtain ⟨row, hrow, hmoves⟩ := get?_step hm hjob
    exact ih h (by rw [hrow, hmoves.eq_of_terminal hterminal])

theorem takes_iff : t.takes id e = true ↔ ∃ now job, e = .claim id now ∧ t.get? id = some job ∧
    job.state = .pending := by
  cases e with
  | claim jobId now =>
    rw [takes, Bool.and_eq_true, decide_eq_true_eq, Option.any_eq_true]
    constructor
    · rintro ⟨rfl, job, hjob, hstate⟩
      exact ⟨now, job, rfl, hjob, of_decide_eq_true hstate⟩
    · rintro ⟨now', job, heq, hjob, hstate⟩
      cases heq
      exact ⟨rfl, job, hjob, decide_eq_true hstate⟩
  | _ => simp [takes]

theorem claims_cons (h : t.step e = some t') :
    claims id t (e :: es) = (if t.takes id e then 1 else 0) + claims id t' es := by
  rw [claims, h]

theorem claimsLeft_step (h : t.step e = some t') (hjob : t.get? id = some job)
    (hjob' : t'.get? id = some job') :
    ((if t.takes id e then 1 else 0 : Nat) : Int) + job'.claimsLeft ≤ job.claimsLeft := by
  split
  · next htakes =>
    obtain ⟨now, row, rfl, hrow, hstate⟩ := takes_iff.1 htakes
    cases hjob.symm.trans hrow
    cases h
    rw [claim, hjob] at hjob'
    simp only [hstate, ne_eq, not_true_eq_false, if_false] at hjob'
    rw [get?_replace hjob, if_pos rfl] at hjob'
    cases hjob'
    have hleft : (job.claimed now).claimsLeft + 1 = job.claimsLeft := Job.claimsLeft_claimed hstate
    omega
  · obtain ⟨row, hrow, hmoves⟩ := get?_step h hjob
    cases hjob'.symm.trans hrow
    have hle := hmoves.claimsLeft_le
    omega

theorem claims_le_claimsLeft (h : Runs.run step t es = some t') (hjob : t.get? id = some job) :
    (claims id t es : Int) ≤ job.claimsLeft := by
  induction es generalizing t job with
  | nil => exact job.claimsLeft_nonneg
  | cons e es ih =>
    obtain ⟨m, hm, h⟩ := run_cons_eq_some.1 h
    obtain ⟨row, hrow, -⟩ := get?_step hm hjob
    have hstep := claimsLeft_step hm hjob hrow
    have hrest := ih h hrow
    rw [claims_cons hm, Int.natCast_add]
    omega

theorem claims_le (h : Runs.run step t es = some t') (hnone : t.get? id = none)
    (hjob : t'.get? id = some job) : (claims id t es : Int) ≤ max 1 job.maxFailures := by
  induction es generalizing t with
  | nil =>
    cases h
    rw [hnone] at hjob
    cases hjob
  | cons e es ih =>
    obtain ⟨m, hm, h⟩ := run_cons_eq_some.1 h
    have htakes : t.takes id e = false := by
      rw [Bool.eq_false_iff]
      intro htakes
      obtain ⟨now, row, -, hrow, -⟩ := takes_iff.1 htakes
      rw [hnone] at hrow
      cases hrow
    rw [claims_cons hm, htakes, if_neg (by decide), Nat.zero_add]
    cases hrow : m.get? id with
    | none => exact ih h hrow
    | some row =>
      obtain ⟨job', hjob', hsame⟩ := same_run h hrow
      cases hjob.symm.trans hjob'
      rw [hsame.maxFailures]
      exact (claims_le_claimsLeft h hrow).trans ((step_moves hm).claimsLeft_new hnone hrow)

end JobTable

/-! ## Actions -/

/-- A retryable failure of the job is reported. -/
def ReportsFailure (e : JobEvent α κ ν) (id : JobId) : Prop :=
  ∃ error retryable now random, e = .complete id (.failed error retryable) now random ∧
    retryable.getD true = true

/-- Only the report of a failure makes an action in progress pending. -/
theorem JobMoves.reported (h : JobMoves e id job job') (hkind : job.kind = .action)
    (hstate : job.state = .inProgress) (hpending : job'.state = .pending) :
    ReportsFailure e id ∧ (job.attempts + 1 : Nat) < job.maxFailures := by
  rcases Relation.ReflTransGen.cases_head h with rfl | ⟨row, hmove, hmoves⟩
  · rw [hstate] at hpending
    cases hpending
  · cases hmove with
    | claim _ hclaim =>
      rw [hstate] at hclaim
      cases hclaim
    | retry hretries _ hbudget =>
      refine ⟨?_, hbudget⟩
      cases hretries with
      | reported hretryable => exact ⟨_, _, _, _, rfl, hretryable⟩
      | swept hmutation _ =>
        rw [hkind] at hmutation
        cases hmutation
    | @finish _ result _ hfinished =>
      have hterminal : row.state.isTerminal = true := by
        rw [hfinished.state]
        exact result.isTerminal_state
      rw [JobMoves.eq_of_terminal hmoves hterminal] at hpending
      rw [hpending] at hterminal
      cases hterminal

namespace JobTable

/-- An action in progress is claimed again only after a report of a failure within its budget. -/
theorem reported_of_claims (h : Runs.run step t es = some t') (hjob : t.get? id = some job)
    (hkind : job.kind = .action) (hstate : job.state = .inProgress) (hclaims : 0 < claims id t es) :
    ∃ fs e gs m row, es = fs ++ e :: gs ∧ Runs.run step t fs = some m ∧ m.get? id = some row ∧
      row.state = .inProgress ∧ ReportsFailure e id ∧
        (row.attempts + 1 : Nat) < row.maxFailures := by
  induction es generalizing t job with
  | nil => cases hclaims
  | cons e es ih =>
    obtain ⟨m, hm, h⟩ := run_cons_eq_some.1 h
    have htakes : t.takes id e = false := by
      rw [Bool.eq_false_iff]
      intro htakes
      obtain ⟨now, row, -, hrow, hpending⟩ := takes_iff.1 htakes
      cases hjob.symm.trans hrow
      rw [hstate] at hpending
      cases hpending
    rw [claims_cons hm, htakes, if_neg (by decide), Nat.zero_add] at hclaims
    obtain ⟨row, hrow, hmoves⟩ := get?_step hm hjob
    cases hrowState : row.state with
    | pending =>
      obtain ⟨hreport, hbudget⟩ := hmoves.reported hkind hstate hrowState
      exact ⟨[], e, es, t, job, rfl, rfl, hjob, hstate, hreport, hbudget⟩
    | inProgress =>
      obtain ⟨fs, e', gs, m', row', rfl, hfs, hrow', hrest⟩ :=
        ih h hrow (hmoves.same.kind.trans hkind) hrowState hclaims
      exact ⟨e :: fs, e', gs, m', row', rfl, run_cons_eq_some.2 ⟨m, hm, hfs⟩, hrow', hrest⟩
    | success | failed | canceled =>
      have hzero := claims_le_claimsLeft h hrow
      rw [Job.claimsLeft_terminal (by rw [hrowState]; rfl)] at hzero
      omega

end JobTable

/-- The life of a job in a run from the empty table. -/
structure LifeCycle (es : List (JobEvent α κ ν)) (t : JobTable α κ ν) (id : JobId)
    (job : Job α κ ν) : Prop where
  terminal : job.state.isTerminal = true → ∀ fs t', Runs.run JobTable.step t fs = some t' →
    t'.get? id = some job
  noCallback : job.state.isTerminal = false → t.callbacks id = []
  callback : job.state.isTerminal = true → ∃ result : OnCompleteResult ν, result.state = job.state ∧
    t.callbacks id = job.onComplete.toList.map (·, job.context, result)
  claims : (JobTable.claims id .empty es : Int) ≤ max 1 job.maxFailures
  action : job.kind = .action → ∀ fs gs m row, es = fs ++ gs →
    Runs.run JobTable.step .empty fs = some m → m.get? id = some row → row.state = .inProgress →
    0 < JobTable.claims id m gs →
    ∃ fs' e gs' m' row', gs = fs' ++ e :: gs' ∧ Runs.run JobTable.step m fs' = some m' ∧
      m'.get? id = some row' ∧ row'.state = .inProgress ∧ ReportsFailure e id ∧
      (row'.attempts + 1 : Nat) < row'.maxFailures

/-- In every run a job ends at most once and stays ended, its callback is enqueued when it ends, it
is claimed within its budget, and an action in progress is claimed again only after a report of its
failure. -/
theorem job_life_cycle (hrun : Runs.run JobTable.step JobTable.empty es = some t)
    (hjob : t.get? id = some job) : LifeCycle es t id job where
  terminal hterminal _ _ hfs := get?_run_of_terminal hfs hjob hterminal
  noCallback hlive := (exact_of_run hrun).live job hjob hlive
  callback hterminal := (exact_of_run hrun).ended job hjob hterminal
  claims := claims_le hrun rfl hjob
  action hkind fs gs m row hes hfs hrow hstate hclaims := by
    subst hes
    rw [run_append, hfs] at hrun
    obtain ⟨job', hjob', hsame⟩ := same_run hrun hrow
    cases hjob.symm.trans hjob'
    exact reported_of_claims hrun hrow (hsame.kind.symm.trans hkind) hstate hclaims

end Runs

/-! ## A run -/

/-- An action with two attempts and a callback. -/
def enqueueAction : JobEvent Unit Unit Unit :=
  .enqueue 0 (js "payments:charge") ()
    { EnqueueOpts.empty with maxFailures := some 2, onComplete := some (js "payments:charged") }
      .action

/-- The first attempt fails after its lease, and the second succeeds. -/
def lateFailure : List (JobEvent Unit Unit Unit) :=
  [enqueueAction, .claim 0 0, .complete 0 (.failed (js "Error: timeout") (some true)) 30001 0,
    .claim 0 40000, .complete 0 (.success ()) 50000 0, .reclaim 60001]

theorem job_life_cycle_late : ∃ t job, Runs.run JobTable.step JobTable.empty lateFailure = some t ∧
    t.get? 0 = some job ∧ job.state = .success ∧ t.callbacks 0 ≠ [] ∧
      LifeCycle lateFailure t 0 job := by
  obtain ⟨t, hrun, hcallbacks, job, hjob, hstate⟩ :
      ∃ t, Runs.run JobTable.step JobTable.empty lateFailure = some t ∧ t.callbacks 0 ≠ [] ∧
        ∃ job, t.get? 0 = some job ∧ job.state = .success := by
    decide +kernel
  exact ⟨t, job, hrun, hjob, hstate, hcallbacks, job_life_cycle hrun hjob⟩

/-- The lease of the first claim has expired when its failure is reported, and the action is claimed
again. -/
theorem expired_action_claimed_again : ∃ t t' : JobTable Unit Unit Unit, ∃ job,
    Runs.run JobTable.step JobTable.empty (lateFailure.take 2) = some t ∧ t.get? 0 = some job ∧
    job.kind = .action ∧ job.state = .inProgress ∧ job.leaseExpiresAt = some 30000 ∧
    Runs.run JobTable.step t [.complete 0 (.failed (js "Error: timeout") (some true)) 30001
      0] = some t' ∧
    t'.takes 0 (.claim 0 40000) = true := by
  refine ⟨_, _, _, rfl, rfl, rfl, rfl, rfl, rfl, ?_⟩
  decide +kernel

end Helipod
