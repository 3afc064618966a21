import Helipod.Transactor.Refinement

/-!
# Revision chains

A commit stores with each revision the timestamp of the revision it replaces
(`prev_ts`), read from the store before the commit has a timestamp of its own.
This module shows that the value read stays right until the rows land, for a
writer that owns its store: nobody else has a staged write of the document in
between.

`prev_ts` is the timestamp of the newest revision if that one is live, and
absent if there is none or the newest one is a tombstone, because
`DocStore.get` does not return tombstones.

Results: `ShardWriter.DocInv.step`, `chain_unforked`.
-/

namespace Helipod

open List

variable {V : Type}

namespace Store

/-- The commits older than `ts`. -/
def before (log : List (Commit V)) (ts : Nat) : List (Commit V) := log.filter fun d => d.ts < ts

/-- The timestamp of the newest revision of a document, if that revision is live. -/
def liveTs (log : List (Commit V)) (id : InternalDocumentId) : Option Nat :=
  (getIn log id none).map Prod.fst

/-- A commit writes the document. -/
def Writes (d : Commit V) (id : InternalDocumentId) : Prop := ∃ e ∈ d.unit.documents, e.id = id

/-- The bound lets a timestamp through. -/
def admits (bound : Option Nat) (ts : Nat) : Bool := bound.all fun b => ts ≤ b

section Reads

variable {β : Type} {log : List (Commit V)} {f : Commit V → List (Nat × β)} {b b' : Option Nat}
  {p q : Commit V → Bool}

theorem readAt_filter (hts : ∀ d, ∀ r ∈ f d, r.1 = d.ts) (log : List (Commit V)) (b : Option Nat) :
    Versioned.readAt none ((log.filter fun d => admits b d.ts).flatMap f) =
      Versioned.readAt b (log.flatMap f) := by
  have hone : ∀ d, Versioned.upTo b (f d) = if admits b d.ts then f d else [] := by
    intro d
    split
    · rename_i hd
      exact filter_eq_self.2 fun r hr => by rw [hts d r hr]; exact hd
    · rename_i hd
      exact filter_eq_nil_iff.2 fun r hr h => hd (by rw [hts d r hr] at h; exact h)
  have hall : Versioned.upTo b (log.flatMap f) = (log.filter fun d => admits b d.ts).flatMap f := by
    induction log with
    | nil => rfl
    | cons d log ih =>
      rw [flatMap_cons, Versioned.upTo_append, ih, hone, filter_cons]
      split
      · rw [flatMap_cons]
      · rfl
  have hnone : ∀ rows : List (Nat × β), Versioned.upTo none rows = rows := fun _ =>
    filter_eq_self.2 fun _ _ => rfl
  rw [Versioned.readAt, Versioned.readAt, hall, hnone]

/-- A read depends only on the commits that contribute to it and lie below the bound. -/
theorem readAt_congr (hts : ∀ d, ∀ r ∈ f d, r.1 = d.ts) (h : ∀ d ∈ log, f d ≠ [] →
      (admits b d.ts = true ∧ p d = true ↔ admits b' d.ts = true ∧ q d = true)) :
    Versioned.readAt b ((log.filter p).flatMap f) =
      Versioned.readAt b' ((log.filter q).flatMap f) := by
  rw [← readAt_filter hts _ b, ← readAt_filter hts _ b', filter_filter, filter_filter]
  congr 1
  induction log with
  | nil => rfl
  | cons d log ih =>
    have ih := ih fun d' hd' => h d' (mem_cons_of_mem _ hd')
    by_cases hf : f d = []
    · rw [filter_cons, filter_cons]
      split <;> split <;> simp [hf, ih]
    · have hd : (admits b d.ts && p d) = (admits b' d.ts && q d) := by
        rw [Bool.eq_iff_iff, Bool.and_eq_true, Bool.and_eq_true]
        exact h d mem_cons_self hf
      rw [filter_cons, filter_cons, hd]
      split <;> simp [ih]

theorem getIn_congr {id : InternalDocumentId} (h : ∀ d ∈ log, Writes d id →
      (admits b d.ts = true ∧ p d = true ↔ admits b' d.ts = true ∧ q d = true)) :
    getIn (log.filter p) id b = getIn (log.filter q) id b' := by
  rw [getIn, getIn, revisionsIn, revisionsIn, readAt_congr ?_ fun d hd hne => h d hd ?_]
  · intro d r hr
    obtain ⟨e, -, rfl⟩ := mem_map.1 hr
    rfl
  · obtain ⟨r, hr⟩ := exists_mem_of_ne_nil _ hne
    obtain ⟨e, he, -⟩ := mem_map.1 hr
    obtain ⟨he, hid⟩ := mem_filter.1 he
    exact ⟨e, he, by simpa using hid⟩

theorem indexEntryIn_congr {indexId : IndexId} {key : Bytes}
    (h : ∀ d ∈ log, (∃ u ∈ d.unit.ctx.indexUpdates, u.indexId = indexId ∧ u.key = key) →
      (admits b d.ts = true ∧ p d = true ↔ admits b' d.ts = true ∧ q d = true)) :
    indexEntryIn (log.filter p) indexId key b = indexEntryIn (log.filter q) indexId key b' := by
  refine readAt_congr ?_ fun d hd hne => h d hd ?_
  · intro d r hr
    split at hr
    · simp at hr
    · rw [mem_singleton.1 hr]
  · split at hne
    · exact absurd rfl hne
    · rename_i u hu
      have hmem := mem_of_find?_eq_some hu
      exact ⟨u, mem_reverse.1 hmem, by simpa using find?_some hu⟩

theorem getIn_filter (log : List (Commit V)) (id : InternalDocumentId) (b : Option Nat) :
    getIn (log.filter fun d => admits b d.ts) id none = getIn log id b := by
  have h := @getIn_congr V log none b (fun d => admits b d.ts) (fun _ => true) id
    fun d _ _ => by simp [admits]
  rwa [filter_true] at h

theorem indexEntryIn_filter (log : List (Commit V)) (indexId : IndexId) (key : Bytes)
    (b : Option Nat) : indexEntryIn (log.filter fun d => admits b d.ts) indexId key none =
      indexEntryIn log indexId key b := by
  have h := @indexEntryIn_congr V log none b (fun d => admits b d.ts) (fun _ => true) indexId key
    fun d _ _ => by simp [admits]
  rwa [filter_true] at h

end Reads

theorem revisionsIn_append (log log' : List (Commit V)) (id : InternalDocumentId) :
    revisionsIn (log ++ log') id = revisionsIn log id ++ revisionsIn log' id :=
  flatMap_append

variable {log : List (Commit V)} {id : InternalDocumentId}

theorem revisionsIn_eq_nil (h : ∀ d ∈ log, ¬ Writes d id) : revisionsIn log id = [] := by
  refine flatMap_eq_nil_iff.2 fun d hd => ?_
  rw [map_eq_nil_iff, filter_eq_nil_iff]
  intro e he heq
  exact h d hd ⟨e, he, by simpa using heq⟩

theorem liveTs_append_of_not_writes {log log' : List (Commit V)}
    (h : ∀ d ∈ log', ¬ Writes d id) : liveTs (log ++ log') id = liveTs log id := by
  rw [liveTs, liveTs, getIn, getIn, revisionsIn_append, revisionsIn_eq_nil h, append_nil]

theorem before_append (log log' : List (Commit V)) (ts : Nat) :
    before (log ++ log') ts = before log ts ++ before log' ts :=
  filter_append ..

theorem before_eq_nil {ts : Nat} (h : ∀ d ∈ log, ts ≤ d.ts) : before log ts = [] := by
  refine filter_eq_nil_iff.2 fun d hd => ?_
  simpa using h d hd

theorem before_eq_self {ts : Nat} (h : ∀ d ∈ log, d.ts < ts) : before log ts = log := by
  refine filter_eq_self.2 fun d hd => ?_
  simpa using h d hd

theorem liveTs_eq_some {t : Nat} (h : liveTs log id = some t) :
    (∃ d ∈ log, d.ts = t) ∧ ∀ d ∈ log, Writes d id → d.ts ≤ t := by
  obtain ⟨p, hp, rfl⟩ := Option.map_eq_some_iff.1 h
  obtain ⟨r, hr, hrp⟩ := Option.bind_eq_some_iff.1 hp
  obtain ⟨v, -, rfl⟩ := Option.map_eq_some_iff.1 hrp
  have hread : Versioned.newest (Versioned.upTo none (revisionsIn log id)) = some r := hr
  have hall : Versioned.upTo none (revisionsIn log id) = revisionsIn log id :=
    filter_eq_self.2 fun _ _ => rfl
  rw [hall] at hread
  constructor
  · obtain ⟨d, hd, hm⟩ := mem_flatMap.1 (Versioned.newest_mem hread)
    obtain ⟨e, -, rfl⟩ := mem_map.1 hm
    exact ⟨d, hd, rfl⟩
  · rintro d hd ⟨e, he, rfl⟩
    exact Versioned.le_newest hread (y := (d.ts, e.value)) (mem_flatMap.2
      ⟨d, hd, mem_map.2 ⟨e, mem_filter.2 ⟨he, by simp⟩, rfl⟩⟩)

/-- `prev_ts` of every revision is the newest live revision before it. -/
def Chained (log : List (Commit V)) : Prop :=
  ∀ x ∈ log, ∀ e ∈ x.unit.documents, e.prevTs = liveTs (before log x.ts) e.id

variable {d : DocumentLogEntry V}

/-- Two commits of one document never name the same predecessor. -/
theorem chain_unforked (h : Chained log) {x y : Commit V} (hx : x ∈ log) (hy : y ∈ log)
    (hlt : x.ts < y.ts) {e : DocumentLogEntry V} (hd : d ∈ x.unit.documents)
    (he : e ∈ y.unit.documents) (hid : d.id = e.id) {t : Nat} (ht : e.prevTs = some t) :
    d.prevTs ≠ some t := by
  intro hd'
  have hy' := (liveTs_eq_some ((h y hy e he).symm.trans ht)).2 x
    (mem_filter.2 ⟨hx, by simpa using hlt⟩) ⟨d, hd, hid⟩
  obtain ⟨⟨z, hz, rfl⟩, -⟩ := liveTs_eq_some ((h x hx d hd).symm.trans hd')
  have hzx : z.ts < x.ts := by simpa using (mem_filter.1 hz).2
  omega

end Store

/-- The log entries are those of the staged writes, in order. -/
def StagedUnit.Complete (u : StagedUnit V) : Prop :=
  u.documents.map (fun d => (d.id, d.value)) = u.ctx.staged.entries

theorem StagedUnit.Complete.mem_keys {u : StagedUnit V} (h : u.Complete) (hd : d ∈ u.documents) :
    d.id ∈ u.ctx.staged.keys := by
  have : (d.id, d.value) ∈ u.ctx.staged.entries := h ▸ mem_map.2 ⟨d, hd, rfl⟩
  exact mem_map.2 ⟨_, this, rfl⟩

namespace ShardWriter

/-- Two transactions write no common document. -/
def DocsApart (x y : Option Nat × StagedUnit V) : Prop :=
  List.Disjoint x.2.ctx.staged.keys y.2.ctx.staged.keys

theorem docsApart_of_mem {units : List (Option Nat × StagedUnit V)}
    (h : units.Pairwise DocsApart) {x y : Option Nat × StagedUnit V} (hx : x ∈ units)
    (hy : y ∈ units) (hne : x ≠ y) : DocsApart x y := by
  have : Std.Symm (DocsApart (V := V)) := ⟨fun _ _ h _ hx hy => h hy hx⟩
  exact h.forall hx hy hne

/-- The unit's rows are not in the store. -/
def Unlanded (w : ShardWriter V) (e : Option Nat × StagedUnit V) : Prop :=
  w.rowsLanded = true → e.1 = none

/-- The invariant on documents, for a writer that owns its store. -/
structure DocInv (store : Store V) (w : ShardWriter V) : Prop where
  own : ∀ d ∈ store.log, d.shard = w.shardId
  sorted : store.log.Pairwise fun x y => x.ts < y.ts
  calls : ∀ c ∈ w.calls, c.ctx.CoversStaged
  covers : ∀ e ∈ w.inflight, e.2.ctx.CoversStaged
  reading : ∀ i ctx read todo, w.mutex = some (.reading i ctx read todo) →
    read.map (fun d => (d.id, d.value)) ++ todo = ctx.staged.entries
  writing : ∀ u ts landed, w.mutex = some (.writing u ts landed) → u.Complete
  units : ∀ e ∈ committerUnits w.committer ++ pendingUnits w.pendingBatch, e.2.Complete
  log : ∀ d ∈ store.log, d.unit.Complete ∧ d.unit.ctx.CoversStaged
  apart : w.inflight.Pairwise DocsApart
  /-- The `prev_ts` read for a staged write is still right. -/
  prev : ∀ e ∈ w.inflight, w.Unlanded e → ∀ d ∈ e.2.documents,
    d.prevTs = Store.liveTs store.log d.id
  chain : Store.Chained store.log

namespace DocInv

variable {store : Store V} {w w' : ShardWriter V} {i : Nat} {c c' : Call V} {owned : Prop}
  {todo : List (InternalDocumentId × Option V)} {ctx : TransactionContext V}
  {read : List (DocumentLogEntry V)} {u : StagedUnit V} {f : Flush V} {ts : Nat}

theorem holder_ids (h : DocInv store w) {e : Option Nat × StagedUnit V}
    (he : e ∈ holderUnits w.mutex) (hd : d ∈ e.2.documents) : d.id ∈ e.2.ctx.staged.keys := by
  match hm : w.mutex with
  | none => simp [hm] at he
  | some (.reading i ctx read todo) =>
    rw [hm, holderUnits, mem_singleton] at he
    subst he
    have : (d.id, d.value) ∈ ctx.staged.entries := by
      rw [← h.reading i ctx read todo hm]
      exact mem_append_left _ (mem_map.2 ⟨d, hd, rfl⟩)
    exact mem_map.2 ⟨_, this, rfl⟩
  | some (.writing u ts l) =>
    rw [hm, holderUnits, mem_singleton] at he
    subst he
    exact (h.writing u ts l hm).mem_keys hd

theorem ids (h : DocInv store w) {e : Option Nat × StagedUnit V} (he : e ∈ w.inflight)
    (hd : d ∈ e.2.documents) : d.id ∈ e.2.ctx.staged.keys := by
  rcases mem_append.1 he with he | he
  · exact (h.units e he).mem_keys hd
  · exact h.holder_ids he hd

theorem setCall (h : DocInv store w) (hc : c.ctx.CoversStaged) :
    ∀ d ∈ w.calls.set i c, d.ctx.CoversStaged := by
  intro d hd
  rcases mem_or_eq_of_mem_set hd with hd | rfl
  · exact h.calls d hd
  · exact hc

theorem coversStaged_new (n : Nat) : ({ snapshotTs := n } : TransactionContext V).CoversStaged :=
  fun _ hid => absurd hid not_mem_nil

/-- A step after which less is in flight, and nothing in flight became landed. -/
theorem shrink (h : DocInv store w)
    (hsub : (w'.inflight.map Prod.snd).Sublist (w.inflight.map Prod.snd))
    (hunl : ∀ e ∈ w'.inflight, w'.Unlanded e → ∃ d ∈ w.inflight, d.2 = e.2 ∧ w.Unlanded d)
    (hshard : w'.shardId = w.shardId) (hcalls : ∀ c ∈ w'.calls, c.ctx.CoversStaged)
    (hmutex : w'.mutex = none ∨ w'.mutex = w.mutex ∨
      ∃ u ts ts' l l', w.mutex = some (.writing u ts l) ∧ w'.mutex = some (.writing u ts' l'))
    (hunits : ∀ e ∈ committerUnits w'.committer ++ pendingUnits w'.pendingBatch,
      ∃ d ∈ committerUnits w.committer ++ pendingUnits w.pendingBatch, d.2 = e.2) :
    DocInv store w' where
  __ := h
  own := hshard ▸ h.own
  calls := hcalls
  covers := by
    intro e he
    obtain ⟨d, hd, heq⟩ := mem_map.1 (hsub.subset (mem_map_of_mem he))
    exact heq ▸ h.covers d hd
  reading := by
    intro i ctx read todo hm
    rcases hmutex with hn | hs | ⟨u, ts, ts', l, l', -, hw⟩
    · simp [hn] at hm
    · exact h.reading i ctx read todo (hs ▸ hm)
    · simp [hw] at hm
  writing := by
    intro u ts l hm
    rcases hmutex with hn | hs | ⟨u', t, t', l₁, l₂, hw, hw'⟩
    · simp [hn] at hm
    · exact h.writing u ts l (hs ▸ hm)
    · rw [hw'] at hm
      cases hm
      exact h.writing _ t l₁ hw
  units := by
    intro e he
    obtain ⟨d, hd, heq⟩ := hunits e he
    exact heq ▸ h.units d hd
  apart := by
    have hp : (w.inflight.map Prod.snd).Pairwise fun x y =>
        List.Disjoint x.ctx.staged.keys y.ctx.staged.keys := pairwise_map.2 h.apart
    have hp' := hp.sublist hsub
    rw [pairwise_map] at hp'
    exact hp'
  prev := by
    intro e he hu
    obtain ⟨d, hd, heq, hud⟩ := hunl e he hu
    exact heq ▸ h.prev d hd hud

/-! ## Staging -/

theorem admission_apart (hw : w.Inv owned store) (hm : w.mutex = none)
    (ha : w.admission ctx = .committing) :
    ∀ e ∈ w.inflight, List.Disjoint e.2.ctx.staged.keys ctx.staged.keys := by
  intro e he id hid hid'
  obtain ⟨hg, b, hb, hu⟩ := hw.batch_of_inflight hm he
  have hno := findSome?_eq_none_iff.1 ((Inv.of_admission ha).2 hg).1 id hid'
  have hmem : id ∈ b.writtenDocKeys := mem_flatMap.2 ⟨_, hu, hid⟩
  rcases hb with hb | hb
  · simp [hb, hmem] at hno
  · have hp : batchCut.pendingHit w id = some b.id := by simp [batchCut.pendingHit, hb, hmem]
    split at hno
    · split at hno <;> simp [hp] at hno
    · simp [hp] at hno

theorem commitsOf_sorted {units : List (Option Nat × StagedUnit V)} {shard : Nat}
    (h : (absInflight units).Pairwise Occ.Before) :
    (commitsOf shard units).Pairwise fun x y => x.ts < y.ts := by
  rw [absInflight, pairwise_map] at h
  refine pairwise_filterMap.2 (h.imp ?_)
  intro x y hb d hd e he
  obtain ⟨t, ht, rfl⟩ := Option.map_eq_some_iff.1 hd
  obtain ⟨t', ht', rfl⟩ := Option.map_eq_some_iff.1 he
  obtain ⟨t₀, ht₀, hlt⟩ := hb.1 t' ht'
  rw [ht] at ht₀
  cases ht₀
  exact hlt

section

variable (h : DocInv store w)
include h

theorem acquire (hw : w.Inv owned store)
    (hi : w.calls[i]? = some c) (hm : w.mutex = none) : DocInv store (w.acquire i c) := by
  have hctx : c.ctx.CoversStaged := h.calls c (mem_of_getElem? hi)
  unfold ShardWriter.acquire
  simp only
  split
  · rename_i hadm
    have hinfl : ({ w.setCall i { c with phase := w.admission c.ctx } with
        mutex := some (.reading i c.ctx [] c.ctx.staged.entries) } : ShardWriter V).inflight =
        w.inflight ++ [(none, ⟨i, c.ctx, []⟩)] := by
      simp [inflight, hm, ShardWriter.setCall]
    refine { h with
      calls := h.setCall hctx
      covers := ?_
      reading := ?_
      writing := by simp
      apart := ?_
      prev := ?_ }
    · intro e he
      rw [hinfl] at he
      rcases mem_append.1 he with he | he
      · exact h.covers e he
      · rw [mem_singleton.1 he]
        exact hctx
    · intro j ctx read todo hr
      cases hr
      rfl
    · rw [hinfl]
      refine pairwise_append.2 ⟨h.apart, pairwise_singleton _ _, fun e he y hy => ?_⟩
      rw [mem_singleton.1 hy]
      exact admission_apart hw hm hadm e he
    · intro e he hu
      rw [hinfl] at he
      rcases mem_append.1 he with he | he
      · refine h.prev e he fun hr => hu ?_
        simpa [rowsLanded, hm, ShardWriter.setCall] using hr
      · rw [mem_singleton.1 he]
        simp
  · exact { h with calls := h.setCall hctx }

section

variable (units : List (Option Nat × StagedUnit V))
  (hshard : w'.shardId = w.shardId) (hcalls : w'.calls = w.calls)
  (hreading : ∀ i ctx read todo, w'.mutex = some (.reading i ctx read todo) →
    read.map (fun d => (d.id, d.value)) ++ todo = ctx.staged.entries)
  (hwriting : ∀ u ts landed, w'.mutex = some (.writing u ts landed) → u.Complete)
  (hunits : ∀ e ∈ committerUnits w'.committer ++ pendingUnits w'.pendingBatch, e.2.Complete)
include hshard hcalls hreading hwriting hunits

/-- The contexts in flight are the same, and the documents of each unit are right. -/
theorem restaged (hctx : w'.inflight.map (fun e => e.2.ctx) = w.inflight.map (fun e => e.2.ctx))
    (hprev : ∀ e ∈ w'.inflight, w'.Unlanded e → ∀ d ∈ e.2.documents,
      d.prevTs = Store.liveTs store.log d.id) :
    DocInv store w' where
  __ := h
  own := hshard ▸ h.own
  calls := hcalls ▸ h.calls
  covers := by
    intro e he
    have : e.2.ctx ∈ w.inflight.map fun e => e.2.ctx := hctx ▸ mem_map.2 ⟨e, he, rfl⟩
    obtain ⟨d, hd, heq⟩ := mem_map.1 this
    exact heq ▸ h.covers d hd
  reading := hreading
  writing := hwriting
  units := hunits
  apart := by
    have hp : (w.inflight.map fun e => e.2.ctx).Pairwise fun x y =>
        List.Disjoint x.staged.keys y.staged.keys := pairwise_map.2 h.apart
    rw [← hctx, pairwise_map] at hp
    exact hp
  prev := hprev

theorem landedRows (hw : w.Inv owned store) (hrows : w.rowsLanded = false)
    (hsub : units.Sublist w.inflight) (hcomplete : ∀ e ∈ units, e.2.Complete)
    (hinfl : w'.inflight = w.inflight) (hrows' : w'.rowsLanded = true) :
    DocInv { store with log := store.log ++ commitsOf w.shardId units } w' := by
  have hfresh : ∀ e ∈ units, ∀ t, e.1 = some t → ∀ d ∈ store.log, d.ts < t :=
    fun e he t ht d hd => hw.unlanded hrows e (hsub.subset he) t ht d hd (h.own d hd)
  -- what one unit in flight writes, no commit made of another one writes
  have hnot : ∀ e ∈ w.inflight, ∀ d ∈ e.2.documents, ∀ x ∈ commitsOf w.shardId units,
      (∀ t, e.1 = some t → x.ts ≠ t) → ¬ Store.Writes x d.id := by
    rintro e he d hd x hx hne ⟨d', hd', hid⟩
    obtain ⟨f, hf, t, ht, rfl⟩ := Inv.mem_commitsOf.1 hx
    have hef : e ≠ f := by
      rintro rfl
      exact hne t ht rfl
    exact docsApart_of_mem h.apart he (hsub.subset hf) hef (h.ids he hd)
      (hid ▸ (hcomplete f hf).mem_keys hd')
  have hprev : ∀ e ∈ w.inflight, ∀ d ∈ e.2.documents, d.prevTs = Store.liveTs store.log d.id :=
    fun e he => h.prev e he fun hr => by simp [hrows] at hr
  refine
    { own := ?_, sorted := ?_, calls := hcalls ▸ h.calls, covers := hinfl ▸ h.covers
      reading := hreading, writing := hwriting, units := hunits, log := ?_
      apart := hinfl ▸ h.apart, prev := ?_, chain := ?_ }
  · intro d hd
    rcases mem_append.1 hd with hd | hd
    · exact hshard ▸ h.own d hd
    · obtain ⟨f, -, t, -, rfl⟩ := Inv.mem_commitsOf.1 hd
      exact hshard.symm
  · refine pairwise_append.2 ⟨h.sorted, commitsOf_sorted ?_, fun d hd x hx => ?_⟩
    · exact hw.occ.ordered.sublist (hsub.map _)
    · obtain ⟨f, hf, t, ht, rfl⟩ := Inv.mem_commitsOf.1 hx
      exact hfresh f hf t ht d hd
  · intro d hd
    rcases mem_append.1 hd with hd | hd
    · exact h.log d hd
    · obtain ⟨f, hf, t, -, rfl⟩ := Inv.mem_commitsOf.1 hd
      exact ⟨hcomplete f hf, h.covers f (hsub.subset hf)⟩
  · intro e he hu d hd
    rw [hinfl] at he
    have hnone := hu hrows'
    rw [hprev e he d hd]
    refine (Store.liveTs_append_of_not_writes fun x hx => ?_).symm
    exact hnot e he d hd x hx fun t ht => by simp [hnone] at ht
  · intro x hx d hd
    rcases mem_append.1 hx with hx | hx
    · -- an old revision: nothing that lands now is older
      have hnil : Store.before (commitsOf w.shardId units) x.ts = [] := by
        refine Store.before_eq_nil fun y hy => ?_
        obtain ⟨f, hf, t, ht, rfl⟩ := Inv.mem_commitsOf.1 hy
        exact (hfresh f hf t ht x hx).le
      rw [Store.before_append, hnil, append_nil]
      exact h.chain x hx d hd
    · obtain ⟨f, hf, t, ht, rfl⟩ := Inv.mem_commitsOf.1 hx
      rw [Store.before_append, Store.before_eq_self fun y hy => hfresh f hf t ht y hy]
      rw [hprev f (hsub.subset hf) d hd]
      refine (Store.liveTs_append_of_not_writes fun y hy => ?_).symm
      obtain ⟨hy, hlt⟩ := mem_filter.1 hy
      refine hnot f (hsub.subset hf) d hd y hy fun t' ht' heq => ?_
      rw [ht] at ht'
      cases ht'
      simp [heq] at hlt

end

theorem stageUnit (hm : w.mutex = some (.reading i ctx read todo))
    {docs : List (DocumentLogEntry V)} (hcomplete : StagedUnit.Complete ⟨i, ctx, docs⟩)
    (hprev : ∀ d ∈ docs, d.prevTs = Store.liveTs store.log d.id) :
    DocInv store (w.stageUnit ⟨i, ctx, docs⟩) := by
  have hbefore : ∀ e ∈ committerUnits w.committer ++ pendingUnits w.pendingBatch,
      e ∈ w.inflight := fun e he => mem_append_left _ he
  unfold ShardWriter.stageUnit
  split
  · refine h.restaged rfl rfl (by simp) (by simp) (fun e he => ?_) ?_ fun e he hu => ?_
    · simp only [Inv.pendingUnits_openBatch, Inv.committerUnits_ensureCommitter] at he
      rw [← append_assoc] at he
      rcases mem_append.1 he with he | he
      · exact h.units e he
      · rw [mem_singleton.1 he]
        exact hcomplete
    · simp [inflight, hm, -committerUnits, -pendingUnits]
    · simp only [inflight, holderUnits, append_nil, Inv.pendingUnits_openBatch,
        Inv.committerUnits_ensureCommitter] at he
      rw [← append_assoc] at he
      rcases mem_append.1 he with he | he
      · refine h.prev e (hbefore e he) fun hr => hu ?_
        simpa [rowsLanded, hm, -committerLanded] using hr
      · rw [mem_singleton.1 he]
        exact hprev
  · refine h.restaged rfl rfl (by simp) (fun u ts l hw => ?_) h.units ?_ fun e he hu => ?_
    · cases hw
      exact hcomplete
    · simp [inflight, hm]
    · rcases mem_append.1 he with he | he
      · refine h.prev e (hbefore e he) fun hr => hu ?_
        simpa [rowsLanded, hm] using hr
      · rw [holderUnits, mem_singleton] at he
        subst he
        exact hprev

/-- The entry of the next staged write is right as well. -/
theorem prev_read {id : InternalDocumentId} {value : Option V}
    (hm : w.mutex = some (.reading i ctx read ((id, value) :: todo))) :
    ∀ d ∈ read ++ [(⟨id, (store.get id none).map Prod.fst, value⟩ : DocumentLogEntry V)],
      d.prevTs = Store.liveTs store.log d.id := by
  intro d hd
  rcases mem_append.1 hd with hd | hd
  · exact h.prev (none, ⟨i, ctx, read⟩) (mem_append_right _ (by simp [hm]))
      (fun _ => rfl) d hd
  · rw [mem_singleton.1 hd]
    rfl

theorem prevAnswered {id : InternalDocumentId} {value : Option V}
    (hm : w.mutex = some (.reading i ctx read ((id, value) :: todo))) :
    DocInv store { w with mutex := some (.reading i ctx
      (read ++ [⟨id, (store.get id none).map Prod.fst, value⟩]) todo) } := by
  refine h.restaged rfl rfl (fun j ctx' read' todo' hr => ?_) (by simp) h.units ?_ fun e he hu => ?_
  · cases hr
    simpa using h.reading _ _ _ _ hm
  · simp [inflight, hm]
  · rcases mem_append.1 he with he | he
    · refine h.prev e (mem_append_left _ he) fun hr => hu ?_
      simpa [rowsLanded, hm] using hr
    · rw [holderUnits, mem_singleton] at he
      subst he
      exact h.prev_read hm

end

/-! ## The write call in flight -/

theorem draw (h : DocInv store w) (tss : List Nat) : DocInv (ShardWriter.draw store tss) w :=
  { h with }

theorem allocateOne (h : DocInv store w) (hw : w.Inv owned store)
    (hm : w.mutex = some (.writing u none false)) :
    DocInv store { w with mutex := some (.writing u (some ts) false) } := by
  obtain ⟨-, hoff, hpend⟩ := hw.single_of_writing hm
  refine h.shrink ?_ ?_ rfl h.calls (.inr (.inr ⟨u, none, some ts, _, _, hm, rfl⟩))
    fun e he => ⟨e, he, rfl⟩
  · simp [inflight, hm]
  · intro e he _
    simp only [inflight, committerUnits, pendingUnits, holderUnits, hoff, hpend,
      nil_append, mem_singleton] at he
    refine ⟨(none, u), ?_, by rw [he], fun _ => rfl⟩
    simp [inflight, hm]

theorem rowsLanded_eq_false (hw : w.Inv owned store)
    (hf : w.committer = .flushing f) (hl : f.landed = false) : w.rowsLanded = false := by
  obtain ⟨-, -, hhl⟩ := hw.grouped_of_flushing (by simp [hf])
  simp [rowsLanded, hf, hl, hhl, -holderLanded]

/-- The committer goes on with some of the units it had taken, none of which has landed. -/
theorem shrinkCommitter (h : DocInv store w) (hw : w.Inv owned store)
    (hf : w.committer = .flushing f) (hl : f.landed = false) {cm : Committer V}
    (hsub : ((committerUnits cm).map Prod.snd).Sublist (f.remaining.map Prod.snd)) :
    DocInv store { w with committer := cm } := by
  have hrows := rowsLanded_eq_false hw hf hl
  have hinfl : ((ShardWriter.inflight { w with committer := cm }).map Prod.snd).Sublist
      (w.inflight.map Prod.snd) := by
    simp only [inflight, hf, map_append]
    exact (hsub.append_right _).append_right _
  refine h.shrink hinfl ?_ rfl h.calls (.inr (.inl rfl)) ?_
  · intro e he _
    obtain ⟨d, hd, heq⟩ := mem_map.1 (hinfl.subset (mem_map_of_mem he))
    exact ⟨d, hd, heq, fun hr => by simp [hrows] at hr⟩
  · intro e he
    rcases mem_append.1 he with he | he
    · obtain ⟨d, hd, heq⟩ := mem_map.1 (hsub.subset (mem_map_of_mem he))
      exact ⟨d, by simp [hf, hd], heq⟩
    · exact ⟨e, mem_append_right _ he, rfl⟩

theorem map_snd_drawn {tss : List Nat} (hlen : tss.length = f.remaining.length) :
    ((tss.zip (f.remaining.map Prod.snd)).map fun p => ((some p.1, p.2) :
      Option Nat × StagedUnit V)).map Prod.snd = f.remaining.map Prod.snd := by
  rw [map_map]
  exact map_snd_zip (by simp [hlen])

section

variable (h : DocInv store w)
include h

theorem landOne (hw : w.Inv owned store) (hm : w.mutex = some (.writing u (some ts) false)) :
    DocInv { store with log := store.log ++ commitsOf w.shardId [(some ts, u)] }
      { w with mutex := some (.writing u (some ts) true) } := by
  obtain ⟨-, hoff, hpend⟩ := hw.single_of_writing hm
  have hinfl : w.inflight = [(some ts, u)] := by
    simp [inflight, hm, hoff, hpend]
  have hu := h.writing u _ _ hm
  refine h.landedRows [(some ts, u)] rfl rfl (by simp) (fun u' ts' l hm' => ?_) h.units hw ?_
    (by simp [hinfl]) (by simpa using hu) ?_ ?_
  · cases hm'
    exact hu
  · simp [rowsLanded, hoff, hm]
  · simp [inflight, hm]
  · simp [rowsLanded]

theorem land (hw : w.Inv owned store) (hf : w.committer = .flushing f) (hl : f.landed = false) :
    DocInv { store with log := store.log ++ commitsOf w.shardId f.remaining }
      { w with committer := .flushing { f with landed := true } } := by
  have hf' : ∀ e ∈ f.remaining, e ∈ committerUnits w.committer := by simp [hf]
  refine h.landedRows f.remaining rfl rfl h.reading h.writing (fun e he => h.units e ?_) hw
    (rowsLanded_eq_false hw hf hl) ?_ (fun e he => h.units e (mem_append_left _ (hf' e he))) ?_ ?_
  · simpa [hf] using he
  · rw [inflight, hf, append_assoc]
    exact sublist_append_left _ _
  · simp [inflight, hf]
  · simp [rowsLanded]

theorem rejectOne (hw : w.Inv owned store)
    {ts : Option Nat} {b : Bool} (hm : w.mutex = some (.writing u ts false)) :
    DocInv store { w with mutex := none, calls := settle w.calls u.call (rejection b) } := by
  obtain ⟨-, hoff, hpend⟩ := hw.single_of_writing hm
  refine h.shrink ?_ ?_ rfl (RefinementLemmas.forall_settle h.calls fun c hc _ => hc) (.inl rfl)
    fun e he => ⟨e, he, rfl⟩
  · simp [inflight]
  · intro e he
    simp [inflight, hoff, hpend] at he

theorem prune : DocInv store w.prune := { h with }

theorem resolveOne (hw : w.Inv owned store) (hm : w.mutex = some (.writing u (some ts) true)) :
    DocInv store { (w.publishUnits [(ts, u)]).prune with mutex := none } := by
  obtain ⟨-, hoff, hpend⟩ := hw.single_of_writing hm
  have hpub : DocInv store { w.publishUnits [(ts, u)] with mutex := none } := by
    refine h.shrink ?_ ?_ rfl (RefinementLemmas.forall_publishUnits h.calls fun _ _ c hc _ =>
      hc) (.inl rfl) fun e he => ⟨e, he, rfl⟩
    · simp [inflight, publishUnits_eq]
    · intro e he
      simp [inflight, publishUnits_eq, hoff, hpend] at he
  exact hpub.prune

theorem resolve (hf : w.committer = .flushing f) {hsub} :
    DocInv store { w with
      committer := .publishing ⟨f.batch, landedUnits f.remaining, hsub, f.guardRejected, [],
        false⟩ } := by
  obtain ⟨hsub, -⟩ := Inv.committerUnits_landed f
  refine h.shrink ?_ ?_ rfl h.calls (.inr (.inl rfl)) ?_
  · simp only [inflight, hf]
    exact ((hsub.append_right _).append_right _).map _
  · intro e he hu
    refine ⟨e, ?_, rfl, fun hr => hu ?_⟩
    · simp only [inflight, hf] at he ⊢
      exact ((hsub.append_right _).append_right _).subset he
    · simp [rowsLanded]
  · intro e he
    simp only [hf] at he ⊢
    exact ⟨e, (hsub.append_right _).subset he, rfl⟩

theorem stop (hc : w.committer = .detaching) : DocInv store { w with committer := .off } := by
  refine h.shrink ?_ ?_ rfl h.calls (.inr (.inl rfl)) ?_
  · simp [inflight]
  · intro e he hu
    refine ⟨e, by simpa [inflight, hc] using he, rfl, fun hr => hu ?_⟩
    simpa [rowsLanded, hc] using hr
  · intro e he
    exact ⟨e, by simpa [hc] using he, rfl⟩

theorem detach {b : Batch V} (hm : w.mutex = none)
    (hc : w.committer = .detaching) (hb : w.pendingBatch = some b) {hsub} : DocInv store { w with
      pendingBatch := none
      committer := .flushing ⟨b, b.units.map fun u => (none, u), hsub, false, [], 0⟩ } := by
  refine h.shrink ?_ ?_ rfl h.calls (.inr (.inl rfl)) ?_
  · simp [inflight, hb]
  · intro e he _
    refine ⟨e, by simpa [inflight, hc, hb] using he, rfl, ?_⟩
    intro hr
    simp [rowsLanded, hc, hm] at hr
  · intro e he
    exact ⟨e, by simpa [hc, hb] using he, rfl⟩

theorem publish {o : FlushOutcome V} {ring : List RecentCommit}
    (hm : w.mutex = none) : DocInv store { w with
        recentCommits := ring
        oracle := (w.publishUnits o.landed).oracle
        calls := settleAll (settleAll (w.publishUnits o.landed).calls o.guardRejected
          (.settled .failed)) o.chunkUnits (rejection o.chunkIsConflict)
        committer := .detaching
        promoted := w.promoted ++ [o.batch.id] } := by
  refine h.shrink ?_ ?_ rfl (RefinementLemmas.forall_published h.calls fun _ _ c hc _ => hc)
    (.inr (.inl rfl)) ?_
  · simp only [inflight, map_append, append_assoc]
    exact sublist_append_right _ _
  · intro e he hu
    simp only [inflight, committerUnits, hm, holderUnits, nil_append, append_nil] at he
    exact ⟨e, by simp [inflight, he, -pendingUnits], rfl, fun _ => Inv.pendingUnits_none _ e he⟩
  · intro e he
    exact ⟨e, mem_append_right _ he, rfl⟩

end

/-! ## Whole steps -/

theorem callStep (h : DocInv store w) (hw : w.Inv owned store) {e : Event V}
    (hi : w.calls[i]? = some c) (hs : CallActs store w i c e w') : DocInv store w' := by
  have hctx : c.ctx.CoversStaged := h.calls c (mem_of_getElem? hi)
  have hset : ∀ {c' : Call V} {snaps : OrderedMap Nat Nat}, c'.ctx.CoversStaged →
      DocInv store ({ w with activeSnapshots := snaps }.setCall i c') :=
    fun hc' => { h with calls := h.setCall hc' }
  cases hs with
  | op op hbody => exact hset (hctx.apply store.landed op)
  | acquire hq hm => exact h.acquire hw hi hm
  | retry => exact hset (coversStaged_new _)
  | bodyReturns | bodyThrows | restage | finish => exact hset hctx

theorem step (h : DocInv store w) (hw : w.Inv owned store) {e : Event V}
    {store' : Store V} {out : List Nat} (hs : w.step store e = some (store', w', out)) :
    DocInv store' w' := by
  cases acts_of_step hs with
  | start maxRetries =>
    refine { h with calls := fun c hc => ?_ }
    rcases mem_append.1 hc with hc | hc
    · exact h.calls c hc
    · rw [mem_singleton.1 hc]
      exact coversStaged_new _
  | call hi hc => exact h.callStep hw hi hc
  | staged hm =>
    refine h.stageUnit hm ?_ (h.prev_read hm)
    simpa [StagedUnit.Complete] using h.reading _ _ _ _ hm
  | prevAnswered hm => exact h.prevAnswered hm
  | allocateOne hfresh hm => exact (h.allocateOne hw hm).draw _
  | allocate hfresh hf hlen hl hnone hrem =>
    subst hrem
    refine (h.shrinkCommitter hw hf hl ?_).draw _
    rw [committerUnits, map_snd_drawn hlen]
  | landOne hm => exact h.landOne hw hm
  | land hf hl => exact h.land hw hf hl
  | rejectOne hm => exact h.rejectOne hw hm
  | @reject f k b hf hl =>
    refine h.shrinkCommitter hw hf hl ?_
    rw [← map_snd_undrawn f.remaining]
    exact (Inv.flushRejected_units f k b).map _
  | resolveOne hm => exact h.resolveOne hw hm
  | resolve hf => exact h.resolve hf
  | stop hm hc => exact h.stop hc
  | detach hm hc hb => exact h.detach hm hc hb
  | publish hm => exact h.publish hm

theorem new {shard : Nat} {group : Bool} {seed : Nat} (hown : ∀ d ∈ store.log, d.shard = shard)
    (hsorted : store.log.Pairwise fun x y => x.ts < y.ts)
    (hlog : ∀ d ∈ store.log, d.unit.Complete ∧ d.unit.ctx.CoversStaged)
    (hchain : Store.Chained store.log) :
    DocInv store (ShardWriter.new shard group (.new seed)) where
  own := hown
  sorted := hsorted
  calls := fun _ hc => absurd hc not_mem_nil
  covers := fun _ he => absurd he not_mem_nil
  reading := fun _ _ _ _ hm => by simp at hm
  writing := fun _ _ _ hm => by simp at hm
  units := fun _ he => absurd he not_mem_nil
  log := hlog
  apart := List.Pairwise.nil
  prev := fun _ he => absurd he not_mem_nil
  chain := hchain

end DocInv

end ShardWriter

end Helipod
