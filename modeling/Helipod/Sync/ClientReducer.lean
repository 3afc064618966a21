import Helipod.Sync.Protocol

/-!
# Frames and the version bracket

Model of `sync/src/client-reducer.ts`, over the frames that `sync/src/handler.ts` sends to one
session. A client takes a frame only if it starts at the client's version, so a lost frame shows
at the next one, unless the session is back at the version it had before the lost frame.

Results:
* `told_or_same`, `loss_detected_iff`
* `startVersions_nodup_of_advancing`: that is so if every write is a later commit of this store.
-/

namespace Helipod

open List

/-! ## The reducer -/

inductive MutationOutcome where
  | success (value : Option Value)
  | failure (error : String)

structure SyncClientState where
  version : StateVersion
  queries : OrderedMap Nat Value
  needsResync : Bool
  mutationResults : OrderedMap String MutationOutcome
  broadcasts : List (String × Value)

def createClientState : SyncClientState := ⟨.initial, .empty, false, .empty, []⟩

/-- A failed query keeps its value. -/
def applyModification (queries : OrderedMap Nat Value) : StateModification → OrderedMap Nat Value
  | .queryUpdated queryId value _ => queries.set queryId value
  | .queryRemoved queryId => queries.erase queryId
  | _ => queries

def applyServerMessage (state : SyncClientState) : ServerMessage → SyncClientState
  | .transition t =>
    if !versionsEqual t.startVersion state.version then
      -- a frame is missing
      { state with needsResync := true }
    else
      { state with
        queries := t.modifications.foldl applyModification state.queries
        version := t.endVersion }
  | .mutationResponse requestId (.success value _ _ _) =>
    { state with mutationResults := state.mutationResults.set requestId (.success value) }
  | .mutationResponse requestId (.failure error _) =>
    { state with mutationResults := state.mutationResults.set requestId (.failure error) }
  | .broadcast topic event => { state with broadcasts := state.broadcasts ++ [(topic, event)] }
  | _ => state

/-! ## What the handler sends to a session -/

inductive SessionEvent where
  /-- A `ModifyQuerySet` or a `SetAuth` is answered. -/
  | querySet
  /-- A write touched subscriptions of the session. -/
  | write (commitTs : Nat) (isGlobal : Bool)
  /-- A commit of the session touched none of its subscriptions. -/
  | frontier (ts : Nat)
  /-- A response or a broadcast. -/
  | other (msg : { m : ServerMessage // m.isTransition = false })

namespace SessionEvent

def endVersion (v : StateVersion) : SessionEvent → StateVersion
  | .querySet => v.nextQuerySet
  | .write commitTs isGlobal => v.afterWrite commitTs isGlobal
  | .frontier ts => if v.ts < ts then v.atFrontier ts else v
  | .other _ => v

/-- A frontier that the session is past already is not sent. -/
def sendsFrame (v : StateVersion) : SessionEvent → Bool
  | .querySet | .write .. => true
  | .frontier ts => v.ts < ts
  | .other _ => false

def carriesModifications : SessionEvent → Bool
  | .querySet | .write .. => true
  | _ => false

def message (v : StateVersion) (modifications : List StateModification) (e : SessionEvent) :
    Option ServerMessage :=
  match e with
  | .other msg => some msg.1
  | e =>
    if e.sendsFrame v then
      some (.transition ⟨v, e.endVersion v, if e.carriesModifications then modifications else []⟩)
    else none

end SessionEvent

/-- The version of the session after the events. -/
def versionAfter (v : StateVersion) (es : List SessionEvent) : StateVersion :=
  es.foldl SessionEvent.endVersion v

/-- The versions at which the frames of the session start. -/
@[simp] def startVersions : StateVersion → List SessionEvent → List StateVersion
  | _, [] => []
  | v, e :: es =>
    if e.sendsFrame v then v :: startVersions (e.endVersion v) es
    else startVersions (e.endVersion v) es

/-- One event with the modifications it sends, and whether its frame gets through. -/
structure Delivery where
  event : SessionEvent
  modifications : List StateModification
  arrives : Bool

namespace Delivery

def isLost (v : StateVersion) (d : Delivery) : Bool := d.event.sendsFrame v && !d.arrives

def message (v : StateVersion) (d : Delivery) : Option ServerMessage :=
  d.event.message v d.modifications

end Delivery

/-- A client that gets every message. -/
def receiveAll (state : SyncClientState) : StateVersion → List Delivery → SyncClientState
  | _, [] => state
  | v, d :: ds =>
    receiveAll ((d.message v).elim state (applyServerMessage state)) (d.event.endVersion v) ds

/-- A client that misses the lost frames. -/
def receiveArrived (state : SyncClientState) : StateVersion → List Delivery → SyncClientState
  | _, [] => state
  | v, d :: ds =>
    receiveArrived
      (if d.isLost v then state else (d.message v).elim state (applyServerMessage state))
      (d.event.endVersion v) ds

/-- Some frame gets through. -/
def FrameArrives : StateVersion → List Delivery → Prop
  | _, [] => False
  | v, d :: ds =>
    (d.event.sendsFrame v = true ∧ d.arrives = true) ∨ FrameArrives (d.event.endVersion v) ds

instance decidableFrameArrives : ∀ v ds, Decidable (FrameArrives v ds)
  | _, [] => isFalse id
  | v, d :: ds =>
    have := decidableFrameArrives (d.event.endVersion v) ds
    inferInstanceAs (Decidable (_ ∨ _))

/-- After every lost frame another one gets through. -/
def LossesFollowed : StateVersion → List Delivery → Prop
  | _, [] => True
  | v, d :: ds =>
    (d.isLost v = true → FrameArrives (d.event.endVersion v) ds) ∧
      LossesFollowed (d.event.endVersion v) ds

instance decidableLossesFollowed : ∀ v ds, Decidable (LossesFollowed v ds)
  | _, [] => isTrue trivial
  | v, d :: ds =>
    have := decidableLossesFollowed (d.event.endVersion v) ds
    inferInstanceAs (Decidable (_ ∧ _))

/-- The client has been told to resync, or shows what the client with every frame shows. -/
def ToldOrSame (ds : List Delivery) : Prop :=
  (receiveArrived createClientState .initial ds).needsResync = true ∨
    (receiveArrived createClientState .initial ds).queries =
      (receiveAll createClientState .initial ds).queries

/-! ## One frame -/

variable {v : StateVersion} {state : SyncClientState} {es : List SessionEvent} {ds : List Delivery}
  {e : SessionEvent}

theorem message_of_sendsFrame {mods : List StateModification} (h : e.sendsFrame v = true) :
    e.message v mods = some (.transition ⟨v, e.endVersion v,
      if e.carriesModifications then mods else []⟩) := by
  cases e with
  | other msg => cases h
  | querySet | write commitTs isGlobal | frontier ts => simp [SessionEvent.message, h]

theorem endVersion_of_not_sendsFrame (h : e.sendsFrame v = false) : e.endVersion v = v := by
  cases e with
  | querySet | write commitTs isGlobal => cases h
  | frontier ts =>
    have hts : ¬ v.ts < ts := of_decide_eq_false h
    simp [SessionEvent.endVersion, hts]
  | other msg => rfl

theorem applyServerMessage_other {msg : ServerMessage} (h : msg.isTransition = false) :
    (applyServerMessage state msg).version = state.version ∧
      (applyServerMessage state msg).queries = state.queries ∧
      (applyServerMessage state msg).needsResync = state.needsResync := by
  unfold applyServerMessage
  split
  · cases h
  all_goals exact ⟨rfl, rfl, rfl⟩

theorem apply_of_not_sendsFrame {d : Delivery} (state : SyncClientState)
    (h : d.event.sendsFrame v = false) :
    ((d.message v).elim state (applyServerMessage state)).version = state.version ∧
      ((d.message v).elim state (applyServerMessage state)).queries = state.queries ∧
      ((d.message v).elim state (applyServerMessage state)).needsResync = state.needsResync := by
  obtain ⟨e, mods, arrives⟩ := d
  cases e with
  | querySet | write commitTs isGlobal => cases h
  | frontier ts =>
    have hnone : (⟨.frontier ts, mods, arrives⟩ : Delivery).message v = none := by
      show (if SessionEvent.sendsFrame v (.frontier ts) = true then _ else none) = none
      rw [h]
      rfl
    rw [hnone]
    exact ⟨rfl, rfl, rfl⟩
  | other msg => exact applyServerMessage_other msg.2

theorem needsResync_applyServerMessage (h : state.needsResync = true)
    (msg : ServerMessage) : (applyServerMessage state msg).needsResync = true := by
  unfold applyServerMessage
  split <;> try split
  all_goals first | exact h | rfl

theorem needsResync_receiveArrived (h : state.needsResync = true)
    (v : StateVersion) (ds : List Delivery) : (receiveArrived state v ds).needsResync = true := by
  induction ds generalizing state v with
  | nil => exact h
  | cons d ds ih =>
    refine ih ?_ _
    split
    · exact h
    · cases d.message v with
      | none => exact h
      | some msg => exact needsResync_applyServerMessage h msg

/-! ## Losses that show -/

/-- A client that is at a version from which no further frame starts is told by the first one that
gets through. -/
theorem told_of_frameArrives
    (hver : state.version ∉ startVersions v (ds.map Delivery.event)) (h : FrameArrives v ds) :
    (receiveArrived state v ds).needsResync = true := by
  induction ds generalizing state v with
  | nil => exact h.elim
  | cons d ds ih =>
    cases hframe : d.event.sendsFrame v with
    | false =>
      have hsame := apply_of_not_sendsFrame state hframe
      have hlost : d.isLost v = false := by simp [Delivery.isLost, hframe]
      have harrives : FrameArrives (d.event.endVersion v) ds :=
        h.resolve_left fun h => by simp [hframe] at h
      simp only [receiveArrived, hlost, Bool.false_eq_true, if_false]
      refine ih ?_ harrives
      rw [hsame.1]
      simpa [hframe] using hver
    | true =>
      simp only [map_cons, startVersions, hframe, if_true, mem_cons, not_or] at hver
      cases harr : d.arrives with
      | false =>
        have hlost : d.isLost v = true := by simp [Delivery.isLost, hframe, harr]
        have harrives : FrameArrives (d.event.endVersion v) ds :=
          h.resolve_left fun h => by simp [harr] at h
        simp only [receiveArrived, hlost]
        exact ih hver.2 harrives
      | true =>
        have hlost : d.isLost v = false := by simp [Delivery.isLost, harr]
        simp only [receiveArrived, hlost]
        refine needsResync_receiveArrived ?_ _ ds
        rw [Delivery.message, message_of_sendsFrame hframe]
        have hne : versionsEqual v state.version = false :=
          Bool.eq_false_iff.2 fun h => hver.1 (versionsEqual_iff.1 h).symm
        simp [applyServerMessage, hne]

/-- Without a version that comes back, a client in step with the session stays in step or is told.
-/
theorem told_or_same
    (hver : state.version = v) (hnodup : (startVersions v (ds.map Delivery.event)).Nodup)
    (hfollow : LossesFollowed v ds) :
    (receiveArrived state v ds).needsResync = true ∨
      receiveArrived state v ds = receiveAll state v ds := by
  induction ds generalizing state v with
  | nil => exact .inr rfl
  | cons d ds ih =>
    obtain ⟨hfollowed, hfollow⟩ := hfollow
    cases hframe : d.event.sendsFrame v with
    | false =>
      have hlost : d.isLost v = false := by simp [Delivery.isLost, hframe]
      simp only [receiveArrived, hlost, Bool.false_eq_true, if_false]
      refine ih ?_ ?_ hfollow
      · rw [(apply_of_not_sendsFrame state hframe).1, hver, endVersion_of_not_sendsFrame hframe]
      · simpa [hframe] using hnodup
    | true =>
      simp only [map_cons, startVersions, hframe, if_true, nodup_cons] at hnodup
      cases hlost : d.isLost v with
      | true =>
        -- the client stays at `v`, from which no later frame starts
        refine .inl ?_
        simp only [receiveArrived, hlost]
        exact told_of_frameArrives (hver ▸ hnodup.1) (hfollowed hlost)
      | false =>
        simp only [receiveArrived, hlost]
        refine ih ?_ hnodup.2 hfollow
        rw [Delivery.message, message_of_sendsFrame hframe]
        have heq : versionsEqual v state.version = true := versionsEqual_iff.2 hver.symm
        simp [applyServerMessage, heq]

/-! ## Sessions whose version never comes back -/

/-- Every write is a commit of this store after the ones the session has seen. -/
def Advancing : StateVersion → List SessionEvent → Prop
  | _, [] => True
  | v, e :: es =>
    (∀ commitTs isGlobal, e = .write commitTs isGlobal → isGlobal = false ∧ v.ts < commitTs) ∧
      Advancing (e.endVersion v) es

/-- A frame of such a session moves one part of the version up and keeps the other. -/
theorem rank_endVersion
    (hadv : ∀ commitTs isGlobal, e = .write commitTs isGlobal → isGlobal = false ∧ v.ts < commitTs)
    (h : e.sendsFrame v = true) :
    v.querySet + v.ts < (e.endVersion v).querySet + (e.endVersion v).ts := by
  cases e with
  | querySet => exact Nat.add_lt_add_right (Nat.lt_succ_self v.querySet) v.ts
  | write commitTs isGlobal =>
    obtain ⟨rfl, hts⟩ := hadv commitTs isGlobal rfl
    exact Nat.add_lt_add_left hts v.querySet
  | frontier ts =>
    have hts : v.ts < ts := of_decide_eq_true h
    simp only [SessionEvent.endVersion, hts]
    exact Nat.add_lt_add_left hts v.querySet
  | other msg => cases h

theorem rank_le_of_mem_startVersions {v w : StateVersion}
    (hadv : Advancing v es) (h : w ∈ startVersions v es) :
    v.querySet + v.ts ≤ w.querySet + w.ts := by
  induction es generalizing v with
  | nil => cases h
  | cons e es ih =>
    cases hframe : e.sendsFrame v with
    | false =>
      simp only [startVersions, hframe] at h
      have := ih hadv.2 h
      rwa [endVersion_of_not_sendsFrame hframe] at this
    | true =>
      simp only [startVersions, hframe, if_true, mem_cons] at h
      rcases h with rfl | h
      · exact le_rfl
      · exact (rank_endVersion hadv.1 hframe).le.trans (ih hadv.2 h)

theorem startVersions_nodup_of_advancing (hadv : Advancing v es) : (startVersions v es).Nodup := by
  induction es generalizing v with
  | nil => exact nodup_nil
  | cons e es ih =>
    cases hframe : e.sendsFrame v with
    | false => simpa [hframe] using ih hadv.2
    | true =>
      simp only [startVersions, hframe, if_true, nodup_cons]
      refine ⟨fun hmem => ?_, ih hadv.2⟩
      exact (rank_endVersion hadv.1 hframe).not_ge (rank_le_of_mem_startVersions hadv.2 hmem)

/-- Where writes only move the version up, the client is told of every loss. -/
theorem told_of_advancing (hadv : Advancing .initial (ds.map Delivery.event))
    (hfollow : LossesFollowed .initial ds) : ToldOrSame ds :=
  (told_or_same rfl (startVersions_nodup_of_advancing hadv) hfollow).imp_right
    (congrArg SyncClientState.queries)

/-- The lost frame has a new value of a query. -/
theorem told_of_advancing_writes : ToldOrSame
    [⟨.write 1 false, [.queryUpdated 1 .null none], false⟩, ⟨.write 2 false, [], true⟩] :=
  told_of_advancing (by simp [Advancing, SessionEvent.endVersion, StateVersion.afterWrite,
    StateVersion.initial]) (by decide)

/-! ## A version that comes back -/

theorem mem_startVersions {v w : StateVersion}
    (h : w ∈ startVersions v es) : ∃ bs e cs, es = bs ++ e :: cs ∧ versionAfter v bs = w ∧
      e.sendsFrame w = true := by
  induction es generalizing v with
  | nil => cases h
  | cons e es ih =>
    have later : w ∈ startVersions (e.endVersion v) es → ∃ bs e' cs, e :: es = bs ++ e' :: cs ∧
        versionAfter v bs = w ∧ e'.sendsFrame w = true := by
      intro h
      obtain ⟨bs, e', cs, rfl, hw, hframe⟩ := ih h
      exact ⟨e :: bs, e', cs, rfl, hw, hframe⟩
    cases hframe : e.sendsFrame v with
    | false => exact later (by simpa [hframe] using h)
    | true =>
      simp only [startVersions, hframe, if_true, mem_cons] at h
      rcases h with rfl | h
      · exact ⟨[], e, es, rfl, rfl, hframe⟩
      · exact later h

theorem ts_le_versionAfter
    (h : ∀ e ∈ es, e.carriesModifications = false) : v.ts ≤ (versionAfter v es).ts := by
  induction es generalizing v with
  | nil => exact le_rfl
  | cons e es ih =>
    refine le_trans ?_ (ih fun e' he' => h e' (mem_cons_of_mem e he'))
    have he := h e mem_cons_self
    cases e with
    | querySet | write commitTs isGlobal => cases he
    | frontier ts =>
      simp only [SessionEvent.endVersion]
      split
      · rename_i hts
        exact hts.le
      · exact le_rfl
    | other msg => exact le_rfl

/-- If two frames start at one version, the frames between them lead back to it, and one of them
carries modifications. -/
theorem exists_return
    (h : ¬ (startVersions v es).Nodup) : ∃ as bs e cs, es = as ++ (bs ++ e :: cs) ∧
      versionAfter (versionAfter v as) bs = versionAfter v as ∧
      e.sendsFrame (versionAfter v as) = true ∧ ∃ b ∈ bs, b.carriesModifications = true := by
  induction es generalizing v with
  | nil => exact absurd nodup_nil h
  | cons e es ih =>
    have later : ¬ (startVersions (e.endVersion v) es).Nodup → ∃ as bs e' cs,
        e :: es = as ++ (bs ++ e' :: cs) ∧
        versionAfter (versionAfter v as) bs = versionAfter v as ∧
        e'.sendsFrame (versionAfter v as) = true ∧ ∃ b ∈ bs, b.carriesModifications = true := by
      intro h
      obtain ⟨as, bs, e', cs, rfl, hreturn⟩ := ih h
      exact ⟨e :: as, bs, e', cs, rfl, hreturn⟩
    cases hframe : e.sendsFrame v with
    | false => exact later (by simpa [hframe] using h)
    | true =>
      simp only [startVersions, hframe, if_true, nodup_cons, not_and_or, not_not] at h
      rcases h with h | h
      · obtain ⟨bs, e', cs, rfl, hw, hframe'⟩ := mem_startVersions h
        refine ⟨[], e :: bs, e', cs, rfl, hw, hframe', ?_⟩
        by_contra hnone
        have hfalse : ∀ b ∈ e :: bs, b.carriesModifications = false := fun b hb =>
          Bool.eq_false_iff.2 fun hc => hnone ⟨b, hb, hc⟩
        have hle := ts_le_versionAfter (v := e.endVersion v)
          fun b hb => hfalse b (mem_cons_of_mem e hb)
        rw [hw] at hle
        cases e with
        | querySet | write commitTs isGlobal => cases hfalse _ mem_cons_self
        | frontier ts =>
          have hts : v.ts < ts := of_decide_eq_true hframe
          simp only [SessionEvent.endVersion, hts] at hle
          exact hts.not_ge hle
        | other msg => cases hframe
      · exact later h

/-! ### A run in which exactly the frames between are lost -/

/-- Events whose frames get through and modify nothing. -/
def quiet (es : List SessionEvent) : List Delivery := es.map fun e => ⟨e, [], true⟩

/-- Events whose frames set a query and are lost. -/
def lost (es : List SessionEvent) : List Delivery :=
  es.map fun e => ⟨e, [.queryUpdated 0 .null none], false⟩

@[simp] theorem map_event_quiet (es : List SessionEvent) : (quiet es).map Delivery.event = es := by
  simp [quiet, Function.comp_def]

@[simp] theorem map_event_lost (es : List SessionEvent) : (lost es).map Delivery.event = es := by
  simp [lost, Function.comp_def]

theorem receiveAll_append (state : SyncClientState) (v : StateVersion) (ds ds' : List Delivery) :
    receiveAll state v (ds ++ ds') =
      receiveAll (receiveAll state v ds) (versionAfter v (ds.map Delivery.event)) ds' := by
  induction ds generalizing state v with
  | nil => rfl
  | cons d ds ih => exact ih _ _

theorem receiveArrived_append (state : SyncClientState) (v : StateVersion)
    (ds ds' : List Delivery) : receiveArrived state v (ds ++ ds') =
      receiveArrived (receiveArrived state v ds) (versionAfter v (ds.map Delivery.event)) ds' := by
  induction ds generalizing state v with
  | nil => rfl
  | cons d ds ih => exact ih _ _

theorem receiveArrived_quiet (state : SyncClientState) (v : StateVersion) (es : List SessionEvent) :
    receiveArrived state v (quiet es) = receiveAll state v (quiet es) := by
  induction es generalizing state v with
  | nil => rfl
  | cons e es ih =>
    have hlost : (⟨e, [], true⟩ : Delivery).isLost v = false := by simp [Delivery.isLost]
    show receiveArrived _ _ (quiet es) = receiveAll _ _ (quiet es)
    simp only [hlost]
    exact ih _ _

theorem apply_inStep (d : Delivery) (hver : state.version = v) :
    ((d.message v).elim state (applyServerMessage state)).version = d.event.endVersion v ∧
      ((d.message v).elim state (applyServerMessage state)).needsResync = state.needsResync ∧
      ((d.message v).elim state (applyServerMessage state)).queries =
        if d.event.carriesModifications then d.modifications.foldl applyModification state.queries
        else state.queries := by
  cases hframe : d.event.sendsFrame v with
  | false =>
    obtain ⟨hv, hq, hr⟩ := apply_of_not_sendsFrame state hframe
    have hcarries : d.event.carriesModifications = false := by
      revert hframe
      cases d.event <;> simp [SessionEvent.sendsFrame, SessionEvent.carriesModifications]
    rw [hv, hq, hr, hver, endVersion_of_not_sendsFrame hframe, hcarries]
    exact ⟨rfl, rfl, rfl⟩
  | true =>
    rw [Delivery.message, message_of_sendsFrame hframe]
    have heq : versionsEqual v state.version = true := versionsEqual_iff.2 hver.symm
    cases hc : d.event.carriesModifications <;> simp [applyServerMessage, heq]

theorem receiveAll_quiet (hver : state.version = v) (es : List SessionEvent) :
    (receiveAll state v (quiet es)).version = versionAfter v es ∧
      (receiveAll state v (quiet es)).needsResync = state.needsResync ∧
      (receiveAll state v (quiet es)).queries = state.queries := by
  induction es generalizing state v with
  | nil => exact ⟨hver, rfl, rfl⟩
  | cons e es ih =>
    obtain ⟨hv, hr, hq⟩ := apply_inStep ⟨e, [], true⟩ hver
    obtain ⟨hv', hr', hq'⟩ := ih hv
    refine ⟨hv', hr'.trans hr, hq'.trans (hq.trans ?_)⟩
    split <;> rfl

theorem receiveArrived_lost (state : SyncClientState) (v : StateVersion) (es : List SessionEvent) :
    (receiveArrived state v (lost es)).version = state.version ∧
      (receiveArrived state v (lost es)).needsResync = state.needsResync ∧
      (receiveArrived state v (lost es)).queries = state.queries := by
  induction es generalizing state v with
  | nil => exact ⟨rfl, rfl, rfl⟩
  | cons e es ih =>
    simp only [lost, map_cons, receiveArrived] at ih ⊢
    cases hframe : e.sendsFrame v with
    | true =>
      simp only [Delivery.isLost, hframe]
      exact ih _ _
    | false =>
      simp only [Delivery.isLost, hframe]
      obtain ⟨hv, hq, hr⟩ := apply_of_not_sendsFrame (d := ⟨e, _, false⟩) state hframe
      obtain ⟨hv', hr', hq'⟩ := ih _ (e.endVersion v)
      exact ⟨hv'.trans hv, hr'.trans hr, hq'.trans hq⟩

/-- The client that gets the frames has the query. -/
theorem receiveAll_lost (hver : state.version = v) (es : List SessionEvent)
    (h : (∃ e ∈ es, e.carriesModifications = true) ∨ (state.queries.get? 0).isSome) :
    (receiveAll state v (lost es)).version = versionAfter v es ∧
      ((receiveAll state v (lost es)).queries.get? 0).isSome := by
  induction es generalizing state v with
  | nil => exact ⟨hver, h.resolve_left (by simp)⟩
  | cons e es ih =>
    obtain ⟨hv, -, hq⟩ := apply_inStep ⟨e, [.queryUpdated 0 .null none], false⟩ hver
    refine ih hv ?_
    rw [hq]
    cases hc : e.carriesModifications with
    | true => exact .inr (by simp [applyModification])
    | false =>
      refine h.imp ?_ fun h => by simpa using h
      rintro ⟨e', he', hcarries⟩
      rcases mem_cons.1 he' with rfl | he'
      · exact absurd hcarries (by simp [hc])
      · exact ⟨e', he', hcarries⟩

theorem lossesFollowed_quiet (v : StateVersion) (es : List SessionEvent)
    (h : LossesFollowed (versionAfter v es) ds) : LossesFollowed v (quiet es ++ ds) := by
  induction es generalizing v with
  | nil => exact h
  | cons e es ih => exact ⟨fun hl => by simp [Delivery.isLost] at hl, ih (e.endVersion v) h⟩

theorem frameArrives_append (ds : List Delivery) {ds' : List Delivery}
    (h : FrameArrives (versionAfter v (ds.map Delivery.event)) ds') :
    FrameArrives v (ds ++ ds') := by
  induction ds generalizing v with
  | nil => exact h
  | cons d ds ih => exact .inr (ih h)

theorem lossesFollowed_lost (v : StateVersion) (es : List SessionEvent)
    (harrives : FrameArrives (versionAfter v es) ds)
    (h : LossesFollowed (versionAfter v es) ds) : LossesFollowed v (lost es ++ ds) := by
  induction es generalizing v with
  | nil => exact h
  | cons e es ih =>
    refine ⟨fun _ => ?_, ih (e.endVersion v) harrives h⟩
    refine frameArrives_append (lost es) ?_
    rw [map_event_lost]
    exact harrives

/-- The losses of a session show for every content of the frames, as long as another frame gets
through, exactly if no two of its frames start at the same version. -/
theorem loss_detected_iff (es : List SessionEvent) :
    (∀ ds : List Delivery, ds.map Delivery.event = es → LossesFollowed .initial ds →
      ToldOrSame ds) ↔ (startVersions .initial es).Nodup := by
  constructor
  · intro h
    by_contra hnodup
    obtain ⟨as, bs, e, cs, rfl, hreturn, hframe, hcarries⟩ := exists_return hnodup
    have hevents : (quiet as ++ (lost bs ++ quiet (e :: cs))).map Delivery.event =
        as ++ (bs ++ e :: cs) := by simp
    have harrives : FrameArrives (versionAfter (versionAfter .initial as) bs)
      (quiet (e :: cs)) := by
      rw [hreturn]
      exact .inl ⟨hframe, rfl⟩
    have hfollowed : LossesFollowed .initial (quiet as ++ (lost bs ++ quiet (e :: cs))) := by
      refine lossesFollowed_quiet _ as (lossesFollowed_lost _ bs harrives ?_)
      rw [← append_nil (quiet (e :: cs))]
      exact lossesFollowed_quiet _ (e :: cs) trivial
    have hstart : createClientState.version = .initial := rfl
    obtain ⟨hv, hr, hq⟩ := receiveAll_quiet hstart as
    -- the client without the frames between: still at the version where they started
    have hmissed := receiveArrived_lost (receiveAll createClientState .initial (quiet as))
      (versionAfter .initial as) bs
    have hmissedVer := hmissed.1.trans (hv.trans hreturn.symm)
    obtain ⟨-, hmr, hmq⟩ := receiveAll_quiet hmissedVer (e :: cs)
    -- the client with every frame
    obtain ⟨hallVer, hall⟩ := receiveAll_lost hv bs (.inl hcarries)
    obtain ⟨-, -, haq⟩ := receiveAll_quiet hallVer (e :: cs)
    have hsplit := h _ hevents hfollowed
    unfold ToldOrSame at hsplit
    simp only [receiveArrived_append, receiveAll_append, receiveArrived_quiet, map_event_quiet,
      map_event_lost, hmr, hmq, haq, hmissed.2.1, hmissed.2.2, hr, hq] at hsplit
    rcases hsplit with htold | hsame
    · cases htold
    · rw [← hsame] at hall
      cases hall
  · rintro hnodup ds rfl hfollow
    have hstart : createClientState.version = .initial := rfl
    exact (told_or_same hstart hnodup hfollow).imp_right fun h => congrArg SyncClientState.queries h

/-- A write to a global table leaves the version as it is; the loss of its frame does not show when
the next write is answered. -/
theorem global_write_lost_silently : ∃ ds : List Delivery, LossesFollowed .initial ds ∧
    ¬ ToldOrSame ds := by
  refine ⟨[⟨.querySet, [.queryUpdated 1 (.bool false) none], true⟩,
    ⟨.write 0 true, [.queryUpdated 1 (.bool true) none], false⟩, ⟨.write 5 false, [], true⟩],
    by decide, ?_⟩
  unfold ToldOrSame
  decide

end Helipod
