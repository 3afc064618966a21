import Helipod.Runtime.AtMostOnce

/-!
# Agreement of the answers of a mutation

The first answer of a mutation comes from its run, the later ones from its receipt. Three outcomes
are recorded as something else than what is answered. `CommitThenThrow` is answered as a failure,
but the commit has left the receipt of a success. An error that is no `HelipodError` is answered
without a code and recorded with one. A value without an encoding fails the answer of a mutation
that is recorded as applied.

Results: `verdicts_agree`, `replays_disagree`.
-/

namespace Helipod

open Runs OrderedMap MutationDelivery Option

/-! ## Verdicts -/

/-- What a client learns from a response: whether the mutation failed, and with which code. -/
inductive ResponseVerdict where
  | success
  | failure (code : Option String)
  deriving DecidableEq

def MutationResponse.verdict : MutationResponse → ResponseVerdict
  | .success _ _ _ => .success
  | .failure _ code => .failure code

def ClientReplay.verdict : ClientReplay → ResponseVerdict
  | .applied _ _ => .success
  | .failed _ code | .stale code => .failure (some code)

/-- The verdict a redelivery is answered with, if it does not run. -/
def ReceiptStore.recordedVerdict (s : ReceiptStore) (k : ReceiptKey) : Option ResponseVerdict :=
  match s.getClientVerdict k with
  | some r => some (replayFromRecord r).verdict
  | none => if s.floorCovers k then some staleReplay.verdict else none

/-- It is answered as it is recorded. -/
def HandlerResult.replays : HandlerResult → Bool
  | .value v => v.encodable
  | .commitThenThrow _ => false

/-- It is answered as it is recorded. -/
def RunOutcome.replays : RunOutcome → Bool
  | .threw e => e.helipod.isSome
  | .returned _ result _ => result.replays

namespace ReceiptStore

variable {s s' : ReceiptStore} {k k' : ReceiptKey}

/-- The receipt of `k` stays as it is, and a floor does not go down. -/
structure SameReceipt (k : ReceiptKey) (s s' : ReceiptStore) : Prop where
  receipt : s'.getClientVerdict k = s.getClientVerdict k
  covers : s.floorCovers k = true → s'.floorCovers k = true

theorem SameReceipt.refl : SameReceipt k s s := ⟨rfl, id⟩

theorem SameReceipt.recordedVerdict {v : ResponseVerdict} (h : SameReceipt k s s')
    (hv : s.recordedVerdict k = some v) : s'.recordedVerdict k = some v := by
  rw [ReceiptStore.recordedVerdict] at hv ⊢
  rw [h.receipt]
  split at hv
  · exact hv
  · obtain ⟨hfloor, hv⟩ := ite_none_right_eq_some.1 hv
    rw [if_pos (h.covers hfloor), hv]

theorem SameReceipt.recordClientVerdict {r : ClientVerdictRecord} (hne : k' ≠ k) :
    SameReceipt k s (s.recordClientVerdict k' r) := by
  refine ⟨?_, fun h => (floorCovers_congr floors_recordClientVerdict).trans h⟩
  rw [ReceiptStore.recordClientVerdict]
  split
  · rfl
  · exact get?_set_ne _ hne

variable {value : Option Value}

theorem SameReceipt.updateClientVerdictValue (hne : k' ≠ k) :
    SameReceipt k s (s.updateClientVerdictValue k' value) := by
  refine ⟨?_, fun h => (floorCovers_congr floors_updateClientVerdictValue).trans h⟩
  rw [ReceiptStore.updateClientVerdictValue]
  split
  · rfl
  · exact get?_set_ne _ hne

theorem SameReceipt.insertReceipt {ts now : Nat} (hne : k' ≠ k)
    (h : s.insertReceipt k' ts now = some s') : SameReceipt k s s' := by
  obtain ⟨-, h⟩ := ite_none_left_eq_some.1 h
  cases h
  exact ⟨get?_set_ne _ hne, fun h => (floorCovers_congr rfl).trans h⟩

/-- A receipt that is not removed stays as it is. -/
theorem SameReceipt.deleteAndCover {p : ReceiptKey → ClientVerdictRecord → Bool}
    (h : s.mutations.has k = true → (s.deleteAndCover p).mutations.has k = true) :
    SameReceipt k s (s.deleteAndCover p) := by
  refine ⟨?_, floorCovers_deleteAndCover⟩
  rw [getClientVerdict, getClientVerdict, get?_deleteAndCover]
  cases hr : s.mutations.get? k with
  | none => rfl
  | some r =>
    rw [OrderedMap.has, hr, OrderedMap.has, get?_deleteAndCover, hr, bind_some] at h
    rw [bind_some]
    split at h
    · cases h rfl
    · rename_i hp
      rw [if_neg hp]

end ReceiptStore

namespace MutationNode

variable {fits : Value → Bool} {n n' : MutationNode} {i : Nat} {d d' : MutationDelivery}
  {k : ReceiptKey}
  {ev : NodeEvent} {s : ReceiptStore} {r : ClientVerdictRecord} {stage : DeliveryStage}

/-! ## The invariant -/

/-- What a handler of `k` ends with is answered as it is recorded. -/
def OutcomeReplays (k : ReceiptKey) (n : MutationNode) : NodeEvent → Prop
  | .runEnds i outcome _ =>
    (n.deliveries.get? i).bind MutationDelivery.key = some k → outcome.replays = true
  | .flushGlobal i (some e) =>
    (n.deliveries.get? i).bind MutationDelivery.key = some k → e.helipod.isSome = true
  | _ => True

instance (k : ReceiptKey) (n : MutationNode) (ev : NodeEvent) :
    Decidable (OutcomeReplays k n ev) := by
  unfold OutcomeReplays
  split <;> infer_instance

/-- The receipt of `k` is neither pruned nor swept. -/
def KeepsReceipt (k : ReceiptKey) (n : MutationNode) : NodeEvent → Prop
  | .prune identity clientId ackedThrough => n.receipts.mutations.has k = true →
      (n.receipts.pruneClientMutations (identity.getD "") clientId ackedThrough).mutations.has k =
        true
  | .sweep beforeMs => n.receipts.mutations.has k = true →
      (n.receipts.sweepExpiredClientMutations beforeMs).mutations.has k = true
  | _ => True

instance (k : ReceiptKey) (n : MutationNode) (ev : NodeEvent) :
    Decidable (KeepsReceipt k n ev) := by
  apply @NodeEvent.casesOn _ ev <;> intros <;>
    first | exact instDecidableTrue | exact inferInstanceAs (Decidable (_ → _))

def ReplayGuard (k : ReceiptKey) (n : MutationNode) (ev : NodeEvent) : Prop :=
  DeliversAlone k n ev ∧ OutcomeReplays k n ev ∧ KeepsReceipt k n ev

instance (k : ReceiptKey) (n : MutationNode) (ev : NodeEvent) : Decidable (ReplayGuard k n ev) :=
  inferInstanceAs (Decidable (DeliversAlone k n ev ∧ OutcomeReplays k n ev ∧ KeepsReceipt k n ev))

/-- What is known of the receipt of `k` when a delivery of it is at a stage. -/
def StageAgrees (s : ReceiptStore) (k : ReceiptKey) : DeliveryStage → Prop
  | .readVerdict | .answered => True
  | .readFloor | .run => s.getClientVerdict k = none
  | .flushGlobal result _ => s.getClientVerdict k = none ∧ result.replays = true
  | .recordZero v _ => s.getClientVerdict k = none ∧ v.encodable = true
  | .recordFailed e => s.getClientVerdict k = none ∧ e.helipod.isSome = true ∧
      e.isRetryableError = false
  | .fillValue v _ | .resolved (.fresh v _) =>
    v.encodable = true ∧ s.recordedVerdict k = some .success
  | .resolved (.replayed replay) => s.recordedVerdict k = some replay.verdict
  | .rejected e => e.isRetryableError = true ∨ s.recordedVerdict k = some (.failure e.sentCode)
  -- the commit of a run finds no receipt
  | .readWinner _ => False

/-- Where a delivery of `k` may be when `k` has a terminal answer. -/
def SettledStage : DeliveryStage → Prop
  | .readVerdict | .readFloor | .resolved (.replayed _) | .answered => True
  | _ => False

/-- A later answer of `k` has the verdict of a terminal one. -/
def LaterAgrees (k : ReceiptKey) (later earlier : Answer) : Prop :=
  earlier.key = some k → earlier.terminal = true → later.key = some k →
    later.terminal = true ∧ later.response.verdict = earlier.response.verdict

/-- What the guarded runs keep. -/
structure VerdictKept (k : ReceiptKey) (n : MutationNode) : Prop where
  numbered : n.Numbered
  single : OneAtATime k n
  decodes : ∀ {r j}, n.receipts.getClientVerdict k = some r → r.value = some j →
    (jsonToConvex j).isSome = true
  stages : ∀ {i d}, n.deliveries.get? i = some d → d.key = some k → StageAgrees n.receipts k d.stage
  answers : ∀ {a}, a ∈ n.answers → a.key = some k → a.terminal = true →
    n.receipts.recordedVerdict k = some a.response.verdict
  settled : ∀ {a i d}, a ∈ n.answers → a.key = some k → a.terminal = true →
    n.deliveries.get? i = some d → d.key = some k → SettledStage d.stage
  agree : n.answers.Pairwise (LaterAgrees k)

theorem verdictKept_initial : VerdictKept k initial where
  numbered := numbered_initial
  single := oneAtATime_initial
  decodes h := by cases h
  stages h := by cases h
  answers h := by cases h
  settled h := by cases h
  agree := .nil

theorem StageAgrees.same {s s' : ReceiptStore}
    (hsame : ReceiptStore.SameReceipt k s s') (h : StageAgrees s k stage) :
    StageAgrees s' k stage := by
  cases stage with
  | readFloor | run => exact hsame.receipt.trans h
  | flushGlobal | recordZero | recordFailed => exact h.imp_left hsame.receipt.trans
  | fillValue | rejected => exact h.imp_right hsame.recordedVerdict
  | resolved result =>
    cases result with
    | fresh => exact h.imp_right hsame.recordedVerdict
    | replayed => exact hsame.recordedVerdict h
  | _ => exact h

/-- A step that leaves the receipt of `k` alone and at most begins a delivery of it. -/
theorem VerdictKept.other (h : VerdictKept k n) (hguard : ReplayGuard k n ev)
    (hstep : n.step fits ev = some n') (hsame : ReceiptStore.SameReceipt k n.receipts n'.receipts)
    (hdeliveries : ∀ {j dj}, n'.deliveries.get? j = some dj → dj.key = some k →
      n.deliveries.get? j = some dj ∨ dj.stage = .readVerdict)
    (hanswers : n'.answers = n.answers ∨ ∃ a, a.key ≠ some k ∧ n'.answers = a :: n.answers) :
    VerdictKept k n' := by
  have hmem : ∀ {a}, a ∈ n'.answers → a.key = some k → a ∈ n.answers := by
    intro a ha hka
    rcases hanswers with heq | ⟨b, hb, heq⟩
    · exact heq ▸ ha
    · rw [heq] at ha
      refine (List.mem_cons.1 ha).resolve_left ?_
      rintro rfl
      exact hb hka
  exact {
    numbered := h.numbered.step hstep
    single := h.single.step hguard.1 hstep
    decodes := fun hr => h.decodes (hsame.receipt ▸ hr)
    stages := fun hd hkey => by
      rcases hdeliveries hd hkey with hold | hstage
      · exact (h.stages hold hkey).same hsame
      · rw [hstage]
        trivial
    answers := fun ha hka hterm => hsame.recordedVerdict (h.answers (hmem ha hka) hka hterm)
    settled := fun ha hka hterm hd hkey => by
      rcases hdeliveries hd hkey with hold | hstage
      · exact h.settled (hmem ha hka) hka hterm hold hkey
      · rw [hstage]
        trivial
    agree := by
      rcases hanswers with heq | ⟨b, hb, heq⟩
      · exact heq ▸ h.agree
      · rw [heq]
        exact List.pairwise_cons.2 ⟨fun a _ _ _ hkb => absurd hkb hb, h.agree⟩ }

theorem VerdictKept.answered_of_ne (h : VerdictKept k n) (hd : n.deliveries.get? i = some d)
    (hkey : d.key = some k) (hun : d.stage.isAnswered = false) {j : Nat} (hne : j ≠ i)
    (hdj : n.deliveries.get? j = some d') (hkj : d'.key = some k) : d'.stage = .answered := by
  refine DeliveryStage.isAnswered_iff.1 ?_
  by_contra hunj
  exact hne (h.single _ _ _ _ hdj hd hkj hkey (by simpa using hunj) hun)

theorem VerdictKept.set (h : VerdictKept k n) (hguard : ReplayGuard k n ev)
    (hstep : n.step fits ev = some n') (hd : n.deliveries.get? i = some d) (hkey : d.key = some k)
    (hun : d.stage.isAnswered = false) (hdeliveries : n'.deliveries = n.deliveries.set i d')
    (hanswers : n'.answers = n.answers) (hstage : StageAgrees n'.receipts k d'.stage)
    (hsettled : SettledStage d.stage → n.receipts.recordedVerdict k ≠ none → SettledStage d'.stage)
    (hrecorded : ∀ {v}, n.receipts.recordedVerdict k = some v → SettledStage d.stage →
      n'.receipts.recordedVerdict k = some v)
    (hdecodes : ∀ {r j}, n'.receipts.getClientVerdict k = some r → r.value = some j →
      (jsonToConvex j).isSome = true) : VerdictKept k n' := by
  have hother : ∀ {j dj}, n'.deliveries.get? j = some dj → dj.key = some k → dj = d' ∨
    dj.stage = .answered := by
    intro j dj hdj hkj
    rw [hdeliveries] at hdj
    rcases get?_set_eq_some.1 hdj with ⟨-, rfl⟩ | ⟨hne, hdj⟩
    · exact .inl rfl
    · exact .inr (h.answered_of_ne hd hkey hun hne hdj hkj)
  exact {
    numbered := h.numbered.step hstep
    single := h.single.step hguard.1 hstep
    decodes := hdecodes
    stages := fun hdj hkj => by
      rcases hother hdj hkj with rfl | hans
      · exact hstage
      · rw [hans]
        trivial
    answers := fun ha hka hterm => by
      rw [hanswers] at ha
      exact hrecorded (h.answers ha hka hterm) (h.settled ha hka hterm hd hkey)
    settled := fun ha hka hterm hdj hkj => by
      rw [hanswers] at ha
      rcases hother hdj hkj with rfl | hans
      · exact hsettled (h.settled ha hka hterm hd hkey) (by simp [h.answers ha hka hterm])
      · rw [hans]
        trivial
    agree := hanswers ▸ h.agree }

/-! ## Steps -/

theorem recordedVerdict_of_some
    (h : s.getClientVerdict k = some r) : s.recordedVerdict k =
    some (replayFromRecord r).verdict := by
  rw [ReceiptStore.recordedVerdict, h]

theorem replayToRunResult_of_decodes
    (hdecodes : ∀ {j}, r.value = some j → (jsonToConvex j).isSome = true) :
    ∃ replay, replayToRunResult (replayFromRecord r) = .resolved (.replayed replay) ∧
      replay.verdict = (replayFromRecord r).verdict := by
  rw [replayFromRecord]
  cases r.verdict with
  | failed => exact ⟨_, rfl, rfl⟩
  | applied =>
    cases hvalue : r.value with
    | none => exact ⟨_, rfl, rfl⟩
    | some j =>
      obtain ⟨v, hv⟩ := isSome_iff_exists.1 (hdecodes hvalue)
      refine ⟨.applied r.commitTs (some (convexToJson v)), ?_, rfl⟩
      simp [replayToRunResult, hv]

theorem stageAgrees_caught {e : ThrownError} (hkey : d.key = some k)
    (hdup : e.isDup = false) (hnone : s.getClientVerdict k = none)
    (hcode : e.helipod.isSome = true) : StageAgrees s k (d.caught e) := by
  rw [MutationDelivery.caught, dedup_isNone_of_key hkey, hdup]
  cases hretry : e.isRetryableError with
  | true => exact .inl hretry
  | false => exact ⟨hnone, hcode, hretry⟩

theorem VerdictKept.stageMove {outcome : Option RunOutcome}
    (h : VerdictKept k n) (hguard : OutcomeReplays k n ev) (hd : n.deliveries.get? i = some d)
    (hkey : d.key = some k) (hmove : StageMove n.receipts i d ev outcome stage) :
    StageAgrees n.receipts k stage ∧
      (SettledStage d.stage → n.receipts.recordedVerdict k ≠ none → SettledStage stage) := by
  have hagrees := h.stages hd hkey
  have hbind : (n.deliveries.get? i).bind MutationDelivery.key = some k := by rw [hd]; exact hkey
  have hreplay : ∀ {k' r}, d.key = some k' → n.receipts.getClientVerdict k' = some r →
      StageAgrees n.receipts k (replayToRunResult (replayFromRecord r)) ∧
        SettledStage (replayToRunResult (replayFromRecord r)) := by
    intro k' r hk' hr
    cases hkey.symm.trans hk'
    obtain ⟨replay, heq, hverdict⟩ := replayToRunResult_of_decodes (h.decodes hr)
    rw [heq]
    exact ⟨(recordedVerdict_of_some hr).trans (congrArg some hverdict.symm), trivial⟩
  cases hmove with
  | verdictFound hstage hk hr => exact ⟨(hreplay hk hr).1, fun _ _ => (hreplay hk hr).2⟩
  | verdictMissing hstage hk hnone =>
    cases hkey.symm.trans hk
    exact ⟨hnone, fun _ _ => trivial⟩
  | stale hstage hk hfloor =>
    cases hkey.symm.trans hk
    rw [hstage] at hagrees
    refine ⟨?_, fun _ _ => trivial⟩
    show n.receipts.recordedVerdict k = _
    rw [ReceiptStore.recordedVerdict, show n.receipts.getClientVerdict k = none from hagrees]
    exact if_pos hfloor
  | runs hstage hk hfloor =>
    cases hkey.symm.trans hk
    rw [hstage] at hagrees
    refine ⟨hagrees, fun _ hne => absurd ?_ hne⟩
    rw [ReceiptStore.recordedVerdict, show n.receipts.getClientVerdict k = none from hagrees]
    exact if_neg (by simp [hfloor])
  | threw hstage hdup =>
    rw [hstage] at hagrees ⊢
    exact ⟨stageAgrees_caught hkey hdup hagrees (hguard hbind), False.elim⟩
  | @wroteNothing result ts _ hstage =>
    rw [hstage] at hagrees ⊢
    refine ⟨?_, False.elim⟩
    have hresult : result.replays = true := hguard hbind
    cases result with
    | commitThenThrow => cases hresult
    | value v =>
      rw [MutationDelivery.afterCommit, dedup_isNone_of_key hkey]
      exact ⟨hagrees, hresult⟩
  | stagedGlobal hstage =>
    rw [hstage] at hagrees ⊢
    exact ⟨⟨hagrees, hguard hbind⟩, False.elim⟩
  | duplicate hstage hk hhas =>
    cases hkey.symm.trans hk
    rw [hstage] at hagrees
    rw [OrderedMap.has, show n.receipts.mutations.get? k = none from hagrees] at hhas
    cases hhas
  | flushFailed hstage hdup =>
    rw [hstage] at hagrees ⊢
    exact ⟨stageAgrees_caught hkey hdup hagrees.1 (hguard hbind), False.elim⟩
  | winnerFound hstage | winnerMissing hstage =>
    rw [hstage] at hagrees
    exact hagrees.elim
  | zeroUnencodable hstage hencode =>
    rw [hstage, StageAgrees, Returned.encodable, hencode] at hagrees
    cases hagrees.2
  | fillUnencodable hstage hencode =>
    rw [hstage, StageAgrees, Returned.encodable, hencode] at hagrees
    cases hagrees.1

theorem getClientVerdict_recordClientVerdict (hnone : s.getClientVerdict k = none) :
    (s.recordClientVerdict k r).getClientVerdict k = some r := by
  rw [ReceiptStore.recordClientVerdict, if_neg]
  · exact get?_set_self _
  · rw [OrderedMap.has, show s.mutations.get? k = none from hnone]
    rintro ⟨⟩

theorem getClientVerdict_insertReceipt {s s' : ReceiptStore} {ts now : Nat}
    (h : s.insertReceipt k ts now = some s') :
    s'.getClientVerdict k = some ⟨.applied, ts, none, none, now⟩ := by
  obtain ⟨-, h⟩ := ite_none_left_eq_some.1 h
  cases h
  exact get?_set_self _

theorem getClientVerdict_updateClientVerdictValue :
    (s.updateClientVerdictValue k value).getClientVerdict k =
      (s.getClientVerdict k).map fun r => { r with value := value } := by
  rw [ReceiptStore.updateClientVerdictValue, ReceiptStore.getClientVerdict,
    ReceiptStore.getClientVerdict]
  split
  · rename_i hnone
    rw [hnone]
    rfl
  · rename_i r hr
    rw [hr]
    exact get?_set_self _

theorem recordedVerdict_updateClientVerdictValue :
    (s.updateClientVerdictValue k value).recordedVerdict k = s.recordedVerdict k := by
  rw [ReceiptStore.recordedVerdict, ReceiptStore.recordedVerdict,
    getClientVerdict_updateClientVerdictValue,
    ReceiptStore.floorCovers_congr ReceiptStore.floors_updateClientVerdictValue]
  cases s.getClientVerdict k with
  | none => rfl
  | some r =>
    refine congrArg some ?_
    simp only [replayFromRecord]
    cases r.verdict <;> rfl

theorem Answers.verdict {response : MutationResponse}
    {terminal : Bool} {released : Option Nat} (h : Answers stage response terminal released)
    (hagrees : StageAgrees s k stage) :
    (terminal = true → s.recordedVerdict k = some response.verdict) ∧
      (SettledStage stage → terminal = true) := by
  cases h with
  | fresh => exact ⟨fun _ => hagrees.2, fun _ => rfl⟩
  | unencodable hencode =>
    rw [StageAgrees, Returned.encodable, hencode] at hagrees
    cases hagrees.1
  | applied | failed | stale => exact ⟨fun _ => hagrees, fun _ => rfl⟩
  | @rejected e =>
    refine ⟨fun hterm => ?_, False.elim⟩
    exact hagrees.resolve_left (by simpa using hterm)

theorem VerdictKept.answer {response : MutationResponse} {terminal : Bool}
    {released : Option Nat} (h : VerdictKept k n) (hguard : ReplayGuard k n ev)
    (hstep : n.step fits ev = some n') (hd : n.deliveries.get? i = some d) (hkey : d.key = some k)
    (hun : d.stage.isAnswered = false) (hanswers : Answers d.stage response terminal released)
    (hn : n' = (n.answer i d response terminal).releaseGate released) : VerdictKept k n' := by
  obtain ⟨hverdict, hterminal⟩ := Answers.verdict hanswers (h.stages hd hkey)
  obtain ⟨hdeliveries, hreceipts, hlist⟩ :
      n'.deliveries = n.deliveries.set i { d with stage := .answered } ∧ n'.receipts = n.receipts ∧
        n'.answers = ⟨i, d.key, response, terminal⟩ :: n.answers := by
    obtain ⟨gates, hgates⟩ := releaseGate_eq released (n.answer i d response terminal)
    rw [hn, hgates]
    exact ⟨rfl, rfl, rfl⟩
  have hothers : ∀ {j dj}, n'.deliveries.get? j = some dj → dj.key = some k →
    dj.stage = .answered := by
    intro j dj hdj hkj
    rw [hdeliveries] at hdj
    rcases get?_set_eq_some.1 hdj with ⟨-, rfl⟩ | ⟨hne, hdj⟩
    · rfl
    · exact h.answered_of_ne hd hkey hun hne hdj hkj
  exact {
    numbered := h.numbered.step hstep
    single := h.single.step hguard.1 hstep
    decodes := fun hr => h.decodes (hreceipts ▸ hr)
    stages := fun hdj hkj => by
      rw [hothers hdj hkj]
      trivial
    answers := fun {a} ha hka hterm => by
      rw [hreceipts]
      rw [hlist] at ha
      rcases List.mem_cons.1 ha with rfl | ha
      · exact hverdict hterm
      · exact h.answers ha hka hterm
    settled := fun _ _ _ hdj hkj => by
      rw [hothers hdj hkj]
      trivial
    agree := by
      rw [hlist]
      refine List.pairwise_cons.2 ⟨fun b hb hkb htermb _ => ?_, h.agree⟩
      have hterm := hterminal (h.settled hb hkb htermb hd hkey)
      exact ⟨hterm, Option.some.inj ((hverdict hterm).symm.trans (h.answers hb hkb htermb))⟩ }

theorem VerdictKept.otherDelivery (h : VerdictKept k n) (hguard : ReplayGuard k n ev)
    (hstep : n.step fits ev = some n') (hkey : d.key ≠ some k) (hs :
    DeliveryStepped fits n i d ev n') :
    VerdictKept k n' := by
  have hne : ∀ {k'}, d.key = some k' → k' ≠ k := fun hk' heq => hkey (heq ▸ hk')
  have hdeliveries : ∀ {j dj}, n'.deliveries.get? j = some dj → dj.key = some k →
      n.deliveries.get? j = some dj ∨ dj.stage = .readVerdict := by
    intro j dj hdj hkj
    obtain ⟨-, -, d', hset, hkey', -⟩ := hs.frame
    rw [hset] at hdj
    rcases get?_set_eq_some.1 hdj with ⟨-, rfl⟩ | ⟨-, hdj⟩
    · exact absurd (hkey'.symm.trans hkj) hkey
    · exact .inl hdj
  cases hs with
  | moved | flushed => exact h.other hguard hstep .refl hdeliveries (.inl rfl)
  | committed _ _ hinsert hnone =>
    refine h.other hguard hstep ?_ hdeliveries (.inl ?_)
    · show ReceiptStore.SameReceipt k n.receipts (commit _ _ _ _).receipts
      rw [receipts_commit]
      cases hk : d.key with
      | none => exact hnone hk ▸ .refl
      | some k' => exact .insertReceipt (hne hk) (hinsert k' hk)
    · exact answers_commit ..
  | failed _ hk | recorded _ hk =>
    exact h.other hguard hstep (.recordClientVerdict (hne hk)) hdeliveries (.inl rfl)
  | filled _ hk =>
      exact h.other hguard hstep (.updateClientVerdictValue (hne hk)) hdeliveries (.inl rfl)
  | @answered _ response terminal ts _ =>
    obtain ⟨gates, hgates⟩ := releaseGate_eq ts (n.answer i d response terminal)
    rw [hgates] at hstep hdeliveries ⊢
    exact h.other hguard hstep .refl hdeliveries (.inr ⟨⟨i, d.key, response, terminal⟩, hkey, rfl⟩)

/-- What is recorded of an encoding can be decoded. -/
theorem isSome_jsonToConvex_capped {v : Returned} {json j : Value} (hencode : v.encode = .ok json)
    (hcapped : capped fits json = some j) : (jsonToConvex j).isSome = true := by
  obtain ⟨-, hj⟩ := ite_none_right_eq_some.1 hcapped
  cases hj
  obtain ⟨v, rfl⟩ := Returned.exists_of_encode hencode
  obtain ⟨u, hu, -⟩ := decodes_convexToJson v
  exact Option.isSome_iff_exists.2 ⟨u, hu⟩

theorem VerdictKept.delivery (h : VerdictKept k n) (hguard : ReplayGuard k n ev)
    (hstep : n.step fits ev = some n') (hd : n.deliveries.get? i = some d) (hkey : d.key = some k)
    (hs : DeliveryStepped fits n i d ev n') : VerdictKept k n' := by
  have hun := hs.frame.1
  have hagrees := h.stages hd hkey
  have hdedup := dedup_isNone_of_key hkey
  have hbind : (n.deliveries.get? i).bind MutationDelivery.key = some k := by rw [hd]; exact hkey
  cases hs with
  | moved hmove =>
    obtain ⟨hstage, hsettled⟩ := h.stageMove hguard.2.1 hd hkey hmove
    exact h.set hguard hstep hd hkey hun rfl rfl hstage hsettled (fun hv _ => hv) h.decodes
  | @committed result ts now receipts hstage _ hinsert =>
    have hunsettled : ¬SettledStage d.stage := by
      rw [hstage]
      exact id
    have hrecord := getClientVerdict_insertReceipt (hinsert k hkey)
    refine h.set hguard hstep hd hkey hun (congrArg (OrderedMap.set · i _) (deliveries_commit ..))
      (answers_commit ..) ?_ (fun hs => absurd hs hunsettled) (fun _ hs => absurd hs hunsettled) ?_
    · show StageAgrees (commit _ _ _ _).receipts k (d.afterCommit true result ts)
      have hresult : result.replays = true := hguard.2.1 hbind
      cases result with
      | commitThenThrow => cases hresult
      | value v =>
        rw [MutationDelivery.afterCommit, hdedup, receipts_commit]
        exact ⟨hresult, recordedVerdict_of_some hrecord⟩
    · show ∀ {r j}, (commit _ _ _ _).receipts.getClientVerdict k = some r → _
      intro r j hr hvalue
      rw [receipts_commit] at hr
      cases hrecord.symm.trans hr
      cases hvalue
  | @flushed _ result ts hstage =>
    rw [hstage] at hagrees
    refine h.set hguard hstep hd hkey hun rfl rfl ?_ (fun hs => ?_) (fun hv _ => hv) h.decodes
    · cases result with
      | commitThenThrow => cases hagrees.2
      | value v =>
        rw [MutationDelivery.afterCommit, hdedup]
        exact hagrees
    · rw [hstage] at hs
      exact hs.elim
  | @failed _ e k' now hstage hk =>
    cases hkey.symm.trans hk
    have hunsettled : ¬SettledStage d.stage := by
      rw [hstage]
      exact id
    rw [hstage] at hagrees
    obtain ⟨hnone, hcode, hretry⟩ := hagrees
    have hrecord : (n.receipts.recordClientVerdict k (failedRecord e now)).getClientVerdict k = _ :=
      getClientVerdict_recordClientVerdict hnone
    refine h.set hguard hstep hd hkey hun rfl rfl (.inr ?_) (fun hs => absurd hs hunsettled)
      (fun _ hs => absurd hs hunsettled) fun hr hvalue => ?_
    · obtain ⟨⟨code, retryable⟩, hhelipod⟩ := isSome_iff_exists.1 hcode
      refine (recordedVerdict_of_some hrecord).trans ?_
      simp [replayFromRecord, failedRecord, ClientReplay.verdict, ThrownError.recordedCode,
        ThrownError.sentCode, hretry, hhelipod]
    · cases hrecord.symm.trans hr
      cases hvalue
  | @recorded _ v ts k' json now hstage hk hencode =>
    cases hkey.symm.trans hk
    have hunsettled : ¬SettledStage d.stage := by
      rw [hstage]
      exact id
    rw [hstage] at hagrees
    have hrecord : (n.receipts.recordClientVerdict k
      (zeroWriteRecord fits ts json now)).getClientVerdict
        k = _ := getClientVerdict_recordClientVerdict hagrees.1
    refine h.set hguard hstep hd hkey hun rfl rfl ⟨hagrees.2, recordedVerdict_of_some hrecord⟩
      (fun hs => absurd hs hunsettled) (fun _ hs => absurd hs hunsettled) fun hr hvalue => ?_
    cases hrecord.symm.trans hr
    exact isSome_jsonToConvex_capped hencode hvalue
  | @filled _ v ts k' json hstage hk hencode =>
    cases hkey.symm.trans hk
    have hunsettled : ¬SettledStage d.stage := by
      rw [hstage]
      exact id
    rw [hstage] at hagrees
    have hrecord : (n.receipts.updateClientVerdictValue
      k (capped fits json)).getClientVerdict k = _ :=
      getClientVerdict_updateClientVerdictValue
    refine h.set hguard hstep hd hkey hun rfl rfl ⟨hagrees.1, ?_⟩ (fun hs => absurd hs hunsettled)
      (fun _ hs => absurd hs hunsettled) fun {r j} hr hvalue => ?_
    · exact recordedVerdict_updateClientVerdictValue.trans hagrees.2
    · replace hr := hrecord.symm.trans hr
      obtain ⟨r', -, rfl⟩ := map_eq_some_iff.1 hr
      exact isSome_jsonToConvex_capped hencode hvalue
  | answered hanswers => exact h.answer hguard hstep hd hkey hun hanswers rfl

theorem VerdictKept.step (h : VerdictKept k n) (hguard : ReplayGuard k n ev)
    (hstep : n.step fits ev = some n') : VerdictKept k n' := by
  cases nodeStepped_of_step hstep with
  | @delivery _ _ i d _ hd hs =>
    by_cases hkey : d.key = some k
    · exact h.delivery hguard hstep hd hkey hs
    · exact h.otherDelivery hguard hstep hkey hs
  | @deliver sessionId identity dedup =>
    refine h.other hguard hstep .refl (fun {j dj} hdj hkj => ?_) (.inl rfl)
    replace hdj := (get?_set _).symm.trans hdj
    split at hdj
    · cases hdj
      cases dedup with
      | none => cases hkj
      | some r => exact .inr rfl
    · exact .inl hdj
  | prune =>
    exact h.other hguard hstep ⟨(ReceiptStore.SameReceipt.deleteAndCover hguard.2.2).receipt,
      ReceiptStore.floorCovers_pruneClientMutations⟩ (fun hd _ => .inl hd) (.inl rfl)
  | sweep => exact h.other hguard hstep (.deleteAndCover hguard.2.2) (fun hd _ =>
      .inl hd) (.inl rfl)
  | untouched hu =>
    exact h.other hguard hstep (hu.receipts ▸ .refl) (fun hd _ => .inl (hu.deliveries ▸ hd))
      (.inl hu.answers)

/-- In every run in which the deliveries of the mutation `k` do not overlap, its receipt is neither
pruned nor swept, its handler returns values that can be encoded, and what it throws is a
`HelipodError`: all answers of `k` after a terminal one are terminal, and agree with it on success
or failure and on the code. -/
theorem verdicts_agree {es : List NodeEvent} (hg : Guarded (step fits) (ReplayGuard k) initial es)
    (hr : run (step fits) initial es = some n) : n.answers.Pairwise fun later earlier =>
      earlier.key = some k → earlier.terminal = true → later.key = some k →
        later.terminal = true ∧ later.response.verdict = earlier.response.verdict :=
  (run_invariant_of_guarded (fun _ _ _ h hguard hstep => VerdictKept.step h hguard hstep)
    verdictKept_initial hg hr).agree

/-- A mutation is delivered, ends in `outcome`, is answered and delivered again. -/
def redeliver (outcome : RunOutcome) (record : NodeEvent) : List NodeEvent :=
  [.connect "s", .deliver "s" none (some ⟨"c", 0⟩), .readVerdict 0, .readFloor 0,
    .runEnds 0 outcome 10, record, .respond 0,
    .deliver "s" none (some ⟨"c", 0⟩), .readVerdict 1, .respond 1]

def redelivered (outcome : RunOutcome) (record : NodeEvent) : List (ResponseVerdict × Bool) :=
  ((run (step allFits) initial (redeliver outcome record)).map fun n =>
    n.answers.map fun a => (a.response.verdict, a.terminal)).getD []

/-- `CommitThenThrow` with a document fails and then succeeds; a plain error has no code and then
one; a value without an encoding fails and then succeeds. -/
theorem replays_disagree :
    redelivered (.returned .documents (.commitThenThrow "no") 1) (.recordFailed 0 10) =
      [(.success, true), (.failure none, true)] ∧
    redelivered (.threw (.plain "no")) (.recordFailed 0 10) =
      [(.failure (some "MUTATION_FAILED"), true), (.failure none, true)] ∧
    redelivered (.returned .documents (.value (.other "undefined")) 1) (.fillValue 0) =
      [(.success, true), (.failure none, true)] := by
  decide +kernel

/-- A mutation that throws a `HelipodError`. -/
def deniedRun : List NodeEvent :=
  redeliver (.threw ⟨"denied", some ("FORBIDDEN", false), false, none⟩) (.recordFailed 0 10)

def deniedNode : MutationNode := (run (step allFits) initial deniedRun).getD initial

/-- It is answered with its code both times. -/
theorem verdicts_agree_denied :
    Guarded (step allFits) (ReplayGuard ⟨"", "c", 0⟩) initial deniedRun ∧
      deniedNode.answers.map (fun a => (a.delivery, a.response.verdict)) =
        [(1, .failure (some "FORBIDDEN")), (0, .failure (some "FORBIDDEN"))] ∧
      deniedNode.answers.Pairwise fun later earlier =>
        earlier.key = some ⟨"", "c", 0⟩ → earlier.terminal = true → later.key = some ⟨"", "c", 0⟩ →
          later.terminal = true ∧ later.response.verdict = earlier.response.verdict :=
  have hg : Guarded (step allFits) (ReplayGuard ⟨"", "c", 0⟩) initial deniedRun := by decide +kernel
  ⟨hg, by decide +kernel,
    verdicts_agree hg (show run (step allFits) initial deniedRun = some deniedNode from rfl)⟩

end MutationNode

end Helipod
