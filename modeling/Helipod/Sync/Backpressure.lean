import Helipod.Lib.Runs
import Mathlib.Data.List.Basic

/-!
# Backpressure of a session

Model of `SessionBackpressureController` (`sync/src/session-controllers.ts`). What the socket has
buffered and what the clock shows may change between any two readings, so each has its own value.

Result: `undroppable_in_order`.
-/

namespace Helipod

open List

structure QueuedFrame where
  data : String
  undroppable : Bool
  deriving DecidableEq

structure BackpressureOptions where
  highWaterBytes : Nat
  maxQueuedFrames : Nat
  slowClientTimeoutMs : Int
  maxUndroppableQueuedFrames : Nat

/-- What a call reads: `socket.bufferedAmount`, and `now()` to start an episode and to look how long
it has lasted. -/
structure Readings where
  bufferedAmount : Nat
  episodeStart : Int
  now : Int

/-- `sent` is what the socket was given. -/
structure SessionBackpressureController where
  queue : List QueuedFrame
  droppedFrames : Nat
  undroppableQueuedCount : Int
  overflowed : Bool
  backpressureSince : Option Int
  droppedThisEpisode : Bool
  sent : List QueuedFrame

/-- A `flush` reads `bufferedAmount` before each frame as well; a `send` begins with a `flush`. -/
inductive SessionCall where
  | flush (beforeFrame : Nat → Nat) (r : Readings)
  | send (data : String) (undroppable : Bool) (beforeFrame : Nat → Nat) (flushed sent : Readings)

namespace SessionBackpressureController

def initial : SessionBackpressureController := ⟨[], 0, 0, false, none, false, []⟩

variable (opts : BackpressureOptions) (c : SessionBackpressureController)

def countDrop (n : Nat) : SessionBackpressureController :=
  { c with droppedFrames := c.droppedFrames + n, droppedThisEpisode := true }

def dropQueue : SessionBackpressureController :=
  let survivors := c.queue.filter QueuedFrame.undroppable
  if c.queue.length - survivors.length = 0 then c
  else { c.countDrop (c.queue.length - survivors.length) with queue := survivors }

/-- The loop of `flush`, over the queue. -/
def deliver (c : SessionBackpressureController) (beforeFrame : Nat → Nat) : List QueuedFrame →
    SessionBackpressureController
  | [] => { c with queue := [] }
  | f :: queue =>
    if beforeFrame 0 < opts.highWaterBytes then
      deliver { c with
        undroppableQueuedCount := c.undroppableQueuedCount - f.undroppable.toNat
        sent := c.sent ++ [f] } (fun i => beforeFrame (i + 1)) queue
    else { c with queue := f :: queue }

/-- Nothing is queued, and the socket takes more. -/
def isDrained (r : Readings) : Bool := c.queue.isEmpty && r.bufferedAmount < opts.highWaterBytes

def startEpisode (r : Readings) : SessionBackpressureController :=
  { c with backpressureSince := c.backpressureSince.or (some r.episodeStart) }

def isSlow (r : Readings) : Bool :=
  c.backpressureSince.any fun since => opts.slowClientTimeoutMs ≤ r.now - since

def flush (beforeFrame : Nat → Nat) (r : Readings) : SessionBackpressureController :=
  let c := c.deliver opts beforeFrame c.queue
  if c.isDrained opts r then { c with backpressureSince := none, droppedThisEpisode := false }
  else
    let c := c.startEpisode r
    if !c.queue.isEmpty && c.isSlow opts r then c.dropQueue else c

def send (data : String) (undroppable : Bool) (beforeFrame : Nat → Nat) (flushed r : Readings) :
    SessionBackpressureController :=
  let c := c.flush opts beforeFrame flushed
  if c.isDrained opts r then { c with sent := c.sent ++ [⟨data, undroppable⟩] }
  else if undroppable then
    if opts.maxUndroppableQueuedFrames ≤ c.undroppableQueuedCount then { c with overflowed := true }
    else { c with
      queue := c.queue ++ [⟨data, true⟩]
      undroppableQueuedCount := c.undroppableQueuedCount + 1 }
  else
    let c := c.startEpisode r
    if c.isSlow opts r then c.dropQueue.countDrop 1
    else if opts.maxQueuedFrames ≤ c.queue.length then c.countDrop 1
    else { c with queue := c.queue ++ [⟨data, false⟩] }

def step : SessionCall → Option SessionBackpressureController
  | .flush beforeFrame r => some (c.flush opts beforeFrame r)
  | .send data undroppable beforeFrame flushed r =>
      some (c.send opts data undroppable beforeFrame flushed r)

/-- The undroppable frame that a call submits. -/
def submits : SessionBackpressureController → SessionCall → Option QueuedFrame
  | _, .send data true _ _ _ => some ⟨data, true⟩
  | _, _ => none

/-- Whether there was an overflow, the undroppable frames, and by how much the counter is wrong. -/
def kept : Bool × List QueuedFrame × Int :=
  (c.overflowed, (c.sent ++ c.queue).filter QueuedFrame.undroppable,
    c.undroppableQueuedCount - (c.queue.filter QueuedFrame.undroppable).length)

variable {opts c} {c' : SessionBackpressureController} {beforeFrame : Nat → Nat} {r : Readings}

theorem kept_countDrop {n : Nat} : (c.countDrop n).kept = c.kept := rfl

theorem kept_startEpisode : (c.startEpisode r).kept = c.kept := rfl

theorem kept_dropQueue : c.dropQueue.kept = c.kept := by
  unfold dropQueue
  dsimp only
  split
  · rfl
  · simp [kept, countDrop]

theorem kept_deliver {queue : List QueuedFrame} :
    (c.deliver opts beforeFrame queue).kept = { c with queue := queue }.kept := by
  induction queue generalizing c beforeFrame with
  | nil => rfl
  | cons f queue ih =>
    rw [deliver]
    split
    · rw [ih]
      cases hf : f.undroppable <;> simp [kept, hf]
      omega
    · rfl

theorem kept_flush : (c.flush opts beforeFrame r).kept = c.kept := by
  have hdeliver : (c.deliver opts beforeFrame c.queue).kept = c.kept := kept_deliver
  unfold flush
  dsimp only
  split
  · exact hdeliver
  split
  · rw [kept_dropQueue, kept_startEpisode, hdeliver]
  · exact hdeliver

/-- A frame is sent or queued behind the others, or there is an overflow. -/
theorem kept_step {call : SessionCall} (hs : c.step opts call = some c')
    (hno : c'.overflowed = false) :
    c'.kept = (c.kept.1, c.kept.2.1 ++ (c.submits call).toList, c.kept.2.2) := by
  cases call with
  | flush beforeFrame r =>
    cases hs
    simp [submits, kept_flush]
  | send data undroppable beforeFrame flushed r =>
    cases hs
    have hflush : (c.flush opts beforeFrame flushed).kept = c.kept := kept_flush
    rw [← hflush]
    unfold send at hno ⊢
    dsimp only at hno ⊢
    generalize c.flush opts beforeFrame flushed = c at hno ⊢
    by_cases hdrained : c.isDrained opts r = true
    · have hempty : c.queue = [] := by simp_all [isDrained]
      cases undroppable <;> simp [kept, submits, hempty, hdrained]
    rw [if_neg hdrained] at hno ⊢
    cases undroppable with
    | true =>
      rw [if_pos rfl] at hno ⊢
      split at hno
      · cases hno
      · rename_i hroom
        simp [kept, submits, hroom, Int.add_sub_add_right]
    | false =>
      rw [if_neg Bool.false_ne_true]
      simp only [submits, Option.toList_none, append_nil]
      split
      · rw [kept_countDrop, kept_dropQueue, kept_startEpisode]
      split
      · rw [kept_countDrop, kept_startEpisode]
      · simp [kept, startEpisode]

/-- Without an overflow, the undroppable frames that were sent and those in the queue are the ones
that were submitted, in order, and the counter counts those in the queue. -/
theorem undroppable_in_order {calls : List SessionCall}
    (hrun : Runs.run (step opts) initial calls = some c) (hno : c.overflowed = false) :
    (c.sent ++ c.queue).filter QueuedFrame.undroppable = Runs.outputs (step opts) submits
    initial calls ∧
      c.undroppableQueuedCount = (c.queue.filter QueuedFrame.undroppable).length := by
  have h : c.overflowed = false →
    c.kept = (false, Runs.outputs (step opts) submits initial calls, 0) := by
    refine Runs.outputs_invariant (I := fun c l => c.overflowed = false → c.kept = (false, l, 0))
      (fun c call c' l h hs hno => ?_) (fun _ => rfl) hrun
    have hstep := kept_step hs hno
    have hbefore : c.overflowed = false := (congrArg Prod.fst hstep).symm.trans hno
    rw [hstep, h hbefore]
  simpa [kept, hno, Int.sub_eq_zero] using h hno

/-- The first frame is sent; then the socket is full, and an undroppable frame is queued behind
another. -/
theorem undroppable_in_order_full :
    let full : Readings := ⟨9, 0, 0⟩
    let calls : List SessionCall := [.send "a" true (fun _ => 0) ⟨0, 0, 0⟩ ⟨0, 0, 0⟩,
      .send "b" false (fun _ => 9) full full, .send "c" true (fun _ => 9) full full]
    ∃ c, Runs.run (step ⟨5, 4, 10, 1⟩) initial calls = some c ∧
      (c.sent ++ c.queue).filter QueuedFrame.undroppable = [⟨"a", true⟩, ⟨"c", true⟩] := by
  intro full calls
  obtain ⟨c, hrun, hno⟩ : ∃ c, Runs.run (step ⟨5, 4, 10, 1⟩) initial calls = some c ∧
    c.overflowed = false := ⟨_, rfl, rfl⟩
  exact ⟨c, hrun, (undroppable_in_order hrun hno).1⟩

end SessionBackpressureController

end Helipod
