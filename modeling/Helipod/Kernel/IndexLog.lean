import Helipod.Kernel.Staging
import Helipod.Transactor.Revisions
import Mathlib.Data.List.Dedup

/-!
# The index log

Model of `index_scan` (`docstore-sqlite/src/sqlite-docstore.ts`), and what the staged
entries of all commits together make of an index: at every timestamp one live entry per
live document.

Results:
* `IndexedLog.entriesFor`
* `EntriesFor.indexScan_iff`, `Store.indexScan_sorted`, `EntriesFor.indexScan_ids_nodup`: a scan of
  the whole index returns those documents, each once and in key order.
-/

namespace Helipod

open Versioned List Option

/-! ## Scans -/

namespace Store

variable {V : Type} {log : List (Commit V)} {bound : Option Nat} {x : Commit V}

/-- The keys an index has entries for, without repetitions, in key order. -/
def indexKeys (log : List (Commit V)) (indexId : IndexId) : List Bytes :=
  (((log.flatMap fun c => c.unit.ctx.indexUpdates).filter fun u => u.indexId = indexId).map
    (·.key)).dedup.insertionSort fun a b => compareKeyBytes a b ≠ .gt

/-- What a scan yields for a key: the newest entry, unless it is deleted or its document is. -/
def scanRow (log : List (Commit V)) (indexId : IndexId) (bound : Option Nat) (key : Bytes) :
    Option (Bytes × InternalDocumentId × V) :=
  match indexEntryIn log indexId key bound with
  | some (_, .nonClustered id) => (getIn log id bound).map fun r => (key, id, r.2)
  | _ => none

/-- The limit is checked after a row has been yielded. -/
def limited {α : Type} (limit : Option Nat) (rows : List α) : List α :=
  match limit with
  | none => rows
  | some n => rows.take (max n 1)

/-- `index_scan` over `[start, stop)`. -/
def indexScan (log : List (Commit V)) (indexId : IndexId) (bound : Option Nat) (start : Bytes)
    (stop : Option Bytes) (descending : Bool) (limit : Option Nat) :
    List (Bytes × InternalDocumentId × V) :=
  let keys := (indexKeys log indexId).filter fun k => keyInRange k ⟨indexId.keyspace, start, stop⟩
  limited limit
    ((if descending then keys.reverse else keys).filterMap (scanRow log indexId bound))

/-! ## Reading a log with one more commit -/

/-- The documents of a log at a bound. -/
def docsAt (log : List (Commit V)) (bound : Option Nat) (id : InternalDocumentId) : Option V :=
  (getIn log id bound).map Prod.snd

/-- The newest index entry of a key at a bound. -/
def entryAt (log : List (Commit V)) (bound : Option Nat) (indexId : IndexId) (key : Bytes) :
    Option IndexUpdateValue :=
  (indexEntryIn log indexId key bound).map Prod.snd

theorem readAt_concat {α : Type} {xs : List (Nat × α)} {t : Nat} {v : α} (hlt : ∀ p ∈ xs, p.1 < t)
    (bound : Option Nat) : Versioned.readAt bound (xs ++ [(t, v)]) =
      if admits bound t then some (t, v) else Versioned.readAt bound xs := by
  have hsingle : Versioned.upTo bound [(t, v)] = if admits bound t then [(t, v)] else [] := by
    rw [Versioned.upTo, filter_cons, filter_nil]
    rfl
  rw [Versioned.readAt, upTo_append, hsingle]
  split
  · have hmem : ∀ p ∈ Versioned.upTo bound xs ++ [(t, v)], p = (t, v) ∨ p.1 < t := by
      intro p hp
      rcases mem_append.1 hp with hp | hp
      · exact .inr (hlt p (mem_upTo.1 hp).1)
      · exact .inl (mem_singleton.1 hp)
    cases hn : Versioned.newest (Versioned.upTo bound xs ++ [(t, v)]) with
    | none => simp [newest_eq_none] at hn
    | some p =>
      rcases hmem p (newest_mem hn) with rfl | hp
      · rfl
      · have := le_newest hn (mem_append_right _ (mem_singleton.2 rfl))
        omega
  · rw [append_nil, Versioned.readAt]

theorem docsAt_of_admits
    (h : ∀ d ∈ log, admits bound d.ts = true) : docsAt log bound = docsAt log none := by
  funext id
  rw [docsAt, ← getIn_filter log, filter_eq_self.2 h, docsAt]

theorem entryAt_of_admits
    (h : ∀ d ∈ log, admits bound d.ts = true) : entryAt log bound = entryAt log none := by
  funext indexId key
  rw [entryAt, ← indexEntryIn_filter log, filter_eq_self.2 h, entryAt]

theorem admits_of_lt {s t : Nat} (hlt : s < t) (h : admits bound t = true) :
    admits bound s = true := by
  cases bound with
  | none => rfl
  | some n =>
    have : t ≤ n := of_decide_eq_true h
    exact decide_eq_true (by omega)

theorem revisionsIn_singleton (hx : x.unit.Complete) (id : InternalDocumentId) :
    revisionsIn [x] id = ((x.unit.ctx.staged.get? id).map fun v => (x.ts, v)).toList := by
  have hone : ∀ entries : List (InternalDocumentId × Option V), (entries.map Prod.fst).Nodup →
      entries.filter (fun p => p.1 = id) = (entries.find? fun p => p.1 = id).toList := by
    intro entries hnodup
    induction entries with
    | nil => rfl
    | cons p entries ih =>
      obtain ⟨hnot, hnodup⟩ := nodup_cons.1 hnodup
      by_cases hp : p.1 = id
      · have hnil : entries.filter (fun q => q.1 = id) = [] := by
          refine filter_eq_nil_iff.2 fun q hq heq => hnot ?_
          rw [hp, ← of_decide_eq_true heq]
          exact mem_map_of_mem hq
        simp [hp, hnil]
      · simp [hp, ih hnodup]
  have hmap : (x.unit.documents.filter fun d => d.id = id).map (fun d => (x.ts, d.value)) =
      (x.unit.ctx.staged.entries.filter fun p => p.1 = id).map fun p => (x.ts, p.2) := by
    rw [← hx, List.filter_map, List.map_map]
    rfl
  rw [revisionsIn, flatMap_singleton, hmap, hone _ x.unit.ctx.staged.nodup, OrderedMap.get?]
  cases x.unit.ctx.staged.entries.find? fun p => p.1 = id <;> rfl

theorem indexEntriesIn_singleton (x : Commit V) (indexId : IndexId) (key : Bytes) :
    indexEntriesIn [x] indexId key =
      ((lastUpdate x.unit.ctx.indexUpdates indexId key).map fun v => (x.ts, v)).toList := by
  rw [indexEntriesIn, flatMap_singleton, lastUpdate]
  split
  · rename_i h
    rw [h]
    rfl
  · rename_i u h
    rw [h]
    rfl

/-- The documents after one more commit: what a transaction with its writes sees over the
documents before, if the bound lets the commit through. -/
theorem docsAt_concat {log : List (Commit DocumentValue)} {x : Commit DocumentValue}
    (hlt : ∀ d ∈ log, d.ts < x.ts) (hx : x.unit.Complete) (bound : Option Nat) :
    docsAt (log ++ [x]) bound =
      if admits bound x.ts then visible (docsAt log none) x.unit.ctx.staged
      else docsAt log bound := by
  funext id
  have hrev : ∀ p ∈ revisionsIn log id, p.1 < x.ts := by
    intro p hp
    obtain ⟨d, hd, hp⟩ := List.mem_flatMap.1 hp
    obtain ⟨e, -, rfl⟩ := List.mem_map.1 hp
    exact hlt d hd
  rw [docsAt, getIn, revisionsIn_append, revisionsIn_singleton hx]
  cases hs : x.unit.ctx.staged.get? id with
  | none =>
    rw [map_none, toList_none, append_nil]
    split
    · rename_i hb
      rw [visible, hs, ← docsAt_of_admits fun d hd => admits_of_lt (hlt d hd) hb]
      rfl
    · rfl
  | some v =>
    rw [map_some, toList_some, readAt_concat hrev]
    split
    · rw [visible, hs]
      cases v <;> rfl
    · rfl

theorem entryAt_concat (hlt : ∀ d ∈ log, d.ts < x.ts)
    (bound : Option Nat) (indexId : IndexId) (key : Bytes) :
    entryAt (log ++ [x]) bound indexId key =
      if admits bound x.ts then
        (lastUpdate x.unit.ctx.indexUpdates indexId key).or (entryAt log none indexId key)
      else entryAt log bound indexId key := by
  have hent : ∀ p ∈ indexEntriesIn log indexId key, p.1 < x.ts := by
    intro p hp
    obtain ⟨d, hd, hp⟩ := List.mem_flatMap.1 hp
    split at hp
    · simp at hp
    · rw [mem_singleton.1 hp]
      exact hlt d hd
  have happ : indexEntriesIn (log ++ [x]) indexId key =
      indexEntriesIn log indexId key ++ indexEntriesIn [x] indexId key := flatMap_append
  rw [entryAt, indexEntryIn, happ, indexEntriesIn_singleton]
  cases hs : lastUpdate x.unit.ctx.indexUpdates indexId key with
  | none =>
    rw [map_none, toList_none, append_nil, none_or]
    split
    · rename_i hb
      rw [← entryAt_of_admits fun d hd => admits_of_lt (hlt d hd) hb]
      rfl
    · rfl
  | some v =>
    rw [map_some, toList_some, readAt_concat hent]
    split <;> rfl

theorem before_concat {ts : Nat} (hle : ts ≤ x.ts) : before (log ++ [x]) ts = before log ts := by
  have hnil : before [x] ts = [] := before_eq_nil fun d hd => by
    rw [mem_singleton.1 hd]
    exact hle
  rw [before_append, hnil, append_nil]

end Store

/-! ## One live entry per live document -/

/-- The live entries of every index are those of the documents. -/
structure EntriesFor (catalog : Catalog) (docs : InternalDocumentId → Option DocumentValue)
    (entry : IndexId → Bytes → Option IndexUpdateValue) : Prop where
  indexable : IndexableBase catalog docs
  iff : ∀ idx ∈ catalog.indexes, ∀ key id, entry idx.indexId key = some (.nonClustered id) ↔
    id.tableNumber = idx.tableNumber ∧
      ∃ doc, docs id = some doc ∧ extractIndexKey doc idx.fields = .ok key

namespace Indexed

variable {catalog : Catalog} {base : InternalDocumentId → Option DocumentValue}
  {staged : StagedWrites} {updates : List DatabaseIndexUpdate}
  {entry : IndexId → Bytes → Option IndexUpdateValue}

variable (h : Indexed catalog base staged updates)
include h

theorem indexable (hb : IndexableBase catalog base) :
    IndexableBase catalog (visible base staged) := by
  intro id doc hv
  refine ⟨h.isDocument_visible hb hv, fun idx hidx ht => ?_⟩
  unfold visible at hv
  cases hs : staged.get? id with
  | none => exact (hb id doc (by simpa [hs] using hv)).2 idx hidx ht
  | some value =>
    have hs' : staged.get? id = some (some doc) := by simpa [hs] using hv
    obtain ⟨key, hkey, -⟩ := h.complete idx hidx id doc ht.symm hs'
    exact ⟨key, hkey⟩

variable {doc : DocumentValue}

/-- A staged write of a document leaves a last update at its stored key. -/
theorem lastUpdate_stored {idx : IndexSpec} (hidx : idx ∈ catalog.indexes) {id : InternalDocumentId}
    (ht : id.tableNumber = idx.tableNumber) {value : Option DocumentValue}
    (hs : staged.get? id = some value) (hd : base id = some doc) {key : Bytes}
    (hdk : extractIndexKey doc idx.fields = .ok key) :
    lastUpdate updates idx.indexId key ≠ none := by
  by_cases hkeep : ∃ doc', value = some doc' ∧ extractIndexKey doc' idx.fields = .ok key
  · obtain ⟨doc', rfl, hdk'⟩ := hkeep
    obtain ⟨key', hkey', hl⟩ := h.complete idx hidx id doc' ht hs
    rw [hdk'] at hkey'
    cases hkey'
    simp [hl]
  · simp [h.removed idx hidx id value doc key ht hs hd hdk fun doc' hv hk => hkeep ⟨doc', hv, hk⟩]

/-- The entries of a transaction, laid over entries for the stored documents, are entries for
the documents after it. -/
theorem entriesFor (hc : EntriesFor catalog base entry) :
    EntriesFor catalog (visible base staged)
      fun indexId key => (lastUpdate updates indexId key).or (entry indexId key) where
  indexable := h.indexable hc.indexable
  iff := by
    intro idx hidx key id
    constructor
    · intro he
      cases hl : lastUpdate updates idx.indexId key with
      | some value =>
        rw [hl, some_or] at he
        cases he
        obtain ⟨ht, doc, hs, hdk⟩ := h.sound idx hidx key id hl
        exact ⟨ht, doc, by simp [visible, hs], hdk⟩
      | none =>
        rw [hl, none_or] at he
        obtain ⟨ht, doc, hd, hdk⟩ := (hc.iff idx hidx key id).1 he
        refine ⟨ht, doc, ?_, hdk⟩
        cases hs : staged.get? id with
        | none => simp [visible, hs, hd]
        | some value => exact absurd hl (h.lastUpdate_stored hidx ht hs hd hdk)
    · rintro ⟨ht, doc, hv, hdk⟩
      cases hs : staged.get? id with
      | some value =>
        have hs' : staged.get? id = some (some doc) := by simpa [visible, hs] using hv
        obtain ⟨key', hkey', hl⟩ := h.complete idx hidx id doc ht hs'
        rw [hdk] at hkey'
        cases hkey'
        rw [hl, some_or]
      | none =>
        have hd : base id = some doc := by simpa [visible, hs] using hv
        cases hl : lastUpdate updates idx.indexId key with
        | none => rw [none_or, (hc.iff idx hidx key id).2 ⟨ht, doc, hd, hdk⟩]
        | some value =>
          -- the key belongs to a staged document, and to this one
          obtain ⟨id', hid', hkey'⟩ := h.owned idx hidx key value hl
          obtain rfl := keyOf_inj hkey' ⟨doc, (hc.indexable id doc hd).1, hdk⟩
          exact absurd hid' ((OrderedMap.get?_eq_none_iff _).1 hs)

end Indexed

/-! ## Logs -/

open Store

namespace EntriesFor

variable {catalog : Catalog} {old new : List (Commit DocumentValue)}

theorem nil : EntriesFor catalog (docsAt [] none)
    (entryAt ([] : List (Commit DocumentValue)) none) where
  indexable id doc hd := by
    simp [docsAt, getIn, revisionsIn, Versioned.readAt, Versioned.upTo] at hd
  iff idx _ key id := by
    refine ⟨fun he => ?_, ?_⟩
    · simp [entryAt, indexEntryIn, indexEntriesIn, Versioned.readAt, Versioned.upTo] at he
    · rintro ⟨-, doc, hd, -⟩
      simp [docsAt, getIn, revisionsIn, Versioned.readAt, Versioned.upTo] at hd

/-- A log goes on from commits whose entries are right, with commits that were each staged in step
with their index entries over the documents before them: the entries are right at every timestamp
from there on. -/
theorem append (h : EntriesFor catalog (docsAt old none) (entryAt old none))
    (hsorted : (old ++ new).Pairwise fun x y => x.ts < y.ts)
    (hcomplete : ∀ x ∈ old ++ new, x.unit.Complete)
    (hindexed : ∀ x ∈ new, Indexed catalog (docsAt (before (old ++ new) x.ts) none)
      x.unit.ctx.staged
      x.unit.ctx.indexUpdates) (bound : Option Nat) (hbound : ∀ d ∈ old, admits bound d.ts = true) :
    EntriesFor catalog (docsAt (old ++ new) bound) (entryAt (old ++ new) bound) := by
  -- the newest commit either is above the bound, or the bound lets the whole log through
  induction new using List.reverseRecOn generalizing bound with
  | nil =>
    have hall : ∀ d ∈ old, admits bound d.ts = true := hbound
    rw [append_nil, docsAt_of_admits hall, entryAt_of_admits hall]
    exact h
  | append_singleton new x ih =>
    rw [← append_assoc] at hsorted hcomplete hindexed ⊢
    have hlt : ∀ d ∈ old ++ new, d.ts < x.ts := fun d hd =>
      (pairwise_append.1 hsorted).2.2 d hd x (mem_singleton.2 rfl)
    have hxmem : x ∈ old ++ new ++ [x] := mem_append_right _ (mem_singleton.2 rfl)
    have hbefore : ∀ ts ≤ x.ts, before (old ++ new ++ [x]) ts = before (old ++ new) ts :=
      fun ts hle => before_concat hle
    have ih := ih (pairwise_append.1 hsorted).1
      (fun d hd => hcomplete d (mem_append_left _ hd)) fun d hd => by
        have := hindexed d (mem_append_left _ hd)
        rwa [hbefore d.ts (hlt d (mem_append_right _ hd)).le] at this
    have hx := hindexed x (mem_append_right _ (mem_singleton.2 rfl))
    rw [hbefore x.ts (Nat.le_refl _), before_eq_self hlt] at hx
    have hentry : entryAt (old ++ new ++ [x]) bound = if admits bound x.ts then
        fun indexId key => (lastUpdate x.unit.ctx.indexUpdates indexId key).or
          (entryAt (old ++ new) none indexId key)
        else entryAt (old ++ new) bound := by
      funext indexId key
      rw [entryAt_concat hlt]
      split <;> rfl
    rw [docsAt_concat hlt (hcomplete x hxmem), hentry]
    split
    · exact hx.entriesFor (ih none fun _ _ => rfl)
    · exact ih bound hbound

end EntriesFor

/-- A log whose commits were each staged in step with their index entries, over the documents
before them. -/
structure IndexedLog (catalog : Catalog) (log : List (Commit DocumentValue)) : Prop where
  sorted : log.Pairwise fun x y => x.ts < y.ts
  complete : ∀ x ∈ log, x.unit.Complete
  indexed : ∀ x ∈ log, Indexed catalog (docsAt (before log x.ts) none) x.unit.ctx.staged
    x.unit.ctx.indexUpdates

namespace IndexedLog

variable {catalog : Catalog} {log : List (Commit DocumentValue)} {x : Commit DocumentValue}

theorem nil : IndexedLog catalog [] where
  sorted := .nil
  complete _ h := absurd h not_mem_nil
  indexed _ h := absurd h not_mem_nil

/-- A log is indexed up to its last commit, and that commit is indexed over the rest. -/
theorem concat_iff : IndexedLog catalog (log ++ [x]) ↔ IndexedLog catalog log ∧
    (∀ d ∈ log, d.ts < x.ts) ∧ x.unit.Complete ∧
      Indexed catalog (docsAt log none) x.unit.ctx.staged x.unit.ctx.indexUpdates := by
  have hbefore : ∀ ts ≤ x.ts, before (log ++ [x]) ts = before log ts := fun ts hle =>
    before_concat hle
  have hxmem : x ∈ log ++ [x] := mem_append_right _ (mem_singleton.2 rfl)
  constructor
  · intro h
    have hlt : ∀ d ∈ log, d.ts < x.ts := fun d hd =>
      (pairwise_append.1 h.sorted).2.2 d hd x (mem_singleton.2 rfl)
    refine ⟨⟨(pairwise_append.1 h.sorted).1,
      fun d hd => h.complete d (mem_append_left _ hd), fun d hd => ?_⟩, hlt,
      h.complete x hxmem, ?_⟩
    · have := h.indexed d (mem_append_left _ hd)
      rwa [hbefore d.ts (hlt d hd).le] at this
    · have := h.indexed x hxmem
      rwa [hbefore x.ts (Nat.le_refl _), before_eq_self hlt] at this
  · rintro ⟨h, hlt, hcomplete, hindexed⟩
    have hmem : ∀ d ∈ log ++ [x], d ∈ log ∨ d = x := by simp
    refine ⟨?_, fun d hd => ?_, fun d hd => ?_⟩
    · refine pairwise_append.2 ⟨h.sorted, pairwise_singleton _ _, fun d hd y hy => ?_⟩
      rw [mem_singleton.1 hy]
      exact hlt d hd
    · rcases hmem d hd with hd | rfl
      · exact h.complete d hd
      · exact hcomplete
    · rcases hmem d hd with hd | rfl
      · rw [hbefore d.ts (hlt d hd).le]
        exact h.indexed d hd
      · rw [hbefore d.ts (Nat.le_refl _), before_eq_self hlt]
        exact hindexed

/-- At every timestamp the live entries of every index are those of the live documents. -/
theorem entriesFor (h : IndexedLog catalog log) (bound : Option Nat) :
    EntriesFor catalog (docsAt log bound) (entryAt log bound) :=
  EntriesFor.append .nil h.sorted h.complete h.indexed bound fun _ hd => absurd hd not_mem_nil

theorem docsAt_of_written (h : IndexedLog catalog log) {c : Commit DocumentValue} (hc : c ∈ log)
    {e : DocumentLogEntry DocumentValue} (he : e ∈ c.unit.documents) (hdoc : e.value = some doc) :
    docsAt log (some c.ts) e.id = some doc := by
  induction log using List.reverseRecOn with
  | nil => exact absurd hc not_mem_nil
  | append_singleton log x ih =>
    obtain ⟨hlog, hlt, hcomplete, -⟩ := concat_iff.1 h
    rw [docsAt_concat hlt hcomplete]
    rcases mem_append.1 hc with hc | hc
    · have hno : admits (some c.ts) x.ts = false := by simpa [admits] using hlt c hc
      rw [hno]
      exact ih hlog hc
    · obtain rfl := mem_singleton.1 hc
      have hstaged : c.unit.ctx.staged.get? e.id = some (some doc) := by
        rw [OrderedMap.get?_eq_some_iff, ← hcomplete, ← hdoc]
        exact List.mem_map.2 ⟨e, he, rfl⟩
      simp [admits, visible, hstaged]

end IndexedLog

/-! ## Scans of a whole index -/

theorem compareKeyBytes_ne_gt {a b : Bytes} : compareKeyBytes a b ≠ .gt ↔ a ≤ b := by
  cases h : compareKeyBytes a b with
  | lt => simpa using (compareKeyBytes_eq_lt.1 h).le
  | eq => simpa using (compareKeyBytes_eq_eq.1 h).le
  | gt =>
    have hlt : ¬ a < b := fun hlt => by simp [compareKeyBytes_eq_lt.2 hlt] at h
    have hne : a ≠ b := fun heq => by simp [compareKeyBytes_eq_eq.2 heq] at h
    simpa using lt_of_le_of_ne (not_lt.1 hlt) hne.symm

theorem sorted_dedup_insertionSort (keys : List Bytes) :
    (keys.dedup.insertionSort fun a b => compareKeyBytes a b ≠ .gt).Pairwise (· < ·) := by
  have htotal : Std.Total fun a b : Bytes => compareKeyBytes a b ≠ .gt :=
    ⟨fun a b => by simpa [compareKeyBytes_ne_gt] using le_total a b⟩
  have htrans : IsTrans Bytes fun a b => compareKeyBytes a b ≠ .gt :=
    ⟨fun a b c => by simpa [compareKeyBytes_ne_gt] using le_trans⟩
  have hle := pairwise_insertionSort (fun a b : Bytes => compareKeyBytes a b ≠ .gt) keys.dedup
  have hnodup : (keys.dedup.insertionSort fun a b => compareKeyBytes a b ≠ .gt).Nodup :=
    (perm_insertionSort _ _).nodup_iff.2 (nodup_dedup _)
  exact (hle.and hnodup).imp fun h => lt_of_le_of_ne (compareKeyBytes_ne_gt.1 h.1) h.2

namespace Store

variable {V : Type} {log : List (Commit V)} {indexId : IndexId} {key : Bytes} {bound : Option Nat}

theorem mem_indexKeys : key ∈ indexKeys log indexId ↔
    ∃ d ∈ log, ∃ u ∈ d.unit.ctx.indexUpdates, u.indexId = indexId ∧ u.key = key := by
  simp only [indexKeys, List.mem_insertionSort, List.mem_dedup, List.mem_map, List.mem_filter,
    List.mem_flatMap, decide_eq_true_eq]
  constructor
  · rintro ⟨u, ⟨⟨d, hd, hu⟩, hid⟩, hkey⟩
    exact ⟨d, hd, u, hu, hid, hkey⟩
  · rintro ⟨d, hd, u, hu, hid, hkey⟩
    exact ⟨u, ⟨⟨d, hd, hu⟩, hid⟩, hkey⟩

theorem mem_indexKeys_of_entryAt {value : IndexUpdateValue}
    (h : entryAt log bound indexId key = some value) : key ∈ indexKeys log indexId := by
  obtain ⟨p, hp, -⟩ := map_eq_some_iff.1 h
  obtain ⟨d, hd, hp⟩ := List.mem_flatMap.1 (readAt_mem hp)
  refine mem_indexKeys.2 ⟨d, hd, ?_⟩
  split at hp
  · simp at hp
  · rename_i u hu
    exact ⟨u, mem_reverse.1 (mem_of_find?_eq_some hu), by simpa using find?_some hu⟩

theorem fst_scanRow {row : Bytes × InternalDocumentId × V}
    (h : scanRow log indexId bound key = some row) : row.1 = key := by
  unfold scanRow at h
  split at h
  · obtain ⟨r, -, rfl⟩ := map_eq_some_iff.1 h
    rfl
  · simp at h

theorem scanRow_eq_some {k : Bytes} {id : InternalDocumentId} {v : V} :
    scanRow log indexId bound key = some (k, id, v) ↔
      k = key ∧ entryAt log bound indexId key = some (.nonClustered id) ∧
        docsAt log bound id = some v := by
  unfold scanRow entryAt docsAt
  split
  · rename_i ts id' he
    rw [he]
    cases hg : getIn log id' bound with
    | none =>
      simp only [map_none, reduceCtorEq, false_iff, not_and]
      rintro - h
      cases h
      simp [hg]
    | some r =>
      simp only [map_some, Option.some.injEq, Prod.mk.injEq, IndexUpdateValue.nonClustered.injEq]
      constructor
      · rintro ⟨rfl, rfl, rfl⟩
        exact ⟨rfl, rfl, by rw [hg]; rfl⟩
      · rintro ⟨rfl, rfl, h⟩
        rw [hg] at h
        exact ⟨rfl, rfl, Option.some.inj h⟩
  · rename_i hnot
    simp only [reduceCtorEq, false_iff, not_and]
    rintro - h
    obtain ⟨⟨ts, value⟩, he, rfl⟩ := map_eq_some_iff.1 h
    exact absurd he (hnot ts id)

theorem indexScan_whole (log : List (Commit V)) (indexId : IndexId) (bound : Option Nat) :
    indexScan log indexId bound [] none false none =
      (indexKeys log indexId).filterMap (scanRow log indexId bound) := by
  have hall : (indexKeys log indexId).filter
      (fun k => keyInRange k ⟨indexId.keyspace, [], none⟩) = indexKeys log indexId :=
    filter_eq_self.2 fun k _ => keyInRange_iff.2 ⟨not_lt_nil k, by simp⟩
  simp [indexScan, hall, limited]

theorem indexScan_sorted (log : List (Commit V)) (indexId : IndexId) (bound : Option Nat) :
    (indexScan log indexId bound [] none false none).Pairwise fun r r' => r.1 < r'.1 := by
  rw [indexScan_whole, pairwise_filterMap]
  refine (sorted_dedup_insertionSort _).imp fun hlt r hr r' hr' => ?_
  rw [fst_scanRow hr, fst_scanRow hr']
  exact hlt

end Store

namespace EntriesFor

variable {catalog : Catalog} {log : List (Commit DocumentValue)} {bound : Option Nat}
  {idx : IndexSpec}

theorem indexScan_iff (h : EntriesFor catalog (docsAt log bound) (entryAt log bound))
    (hidx : idx ∈ catalog.indexes) {key : Bytes} {id : InternalDocumentId} :
    (key, id, doc) ∈ indexScan log idx.indexId bound [] none false none ↔
      id.tableNumber = idx.tableNumber ∧ docsAt log bound id = some doc ∧
        extractIndexKey doc idx.fields = .ok key := by
  have hentries := h.iff idx hidx
  rw [indexScan_whole, mem_filterMap]
  constructor
  · rintro ⟨k, -, hrow⟩
    obtain ⟨rfl, he, hd⟩ := scanRow_eq_some.1 hrow
    obtain ⟨ht, doc', hd', hkey⟩ := (hentries key id).1 he
    rw [hd] at hd'
    cases hd'
    exact ⟨ht, hd, hkey⟩
  · rintro ⟨ht, hd, hkey⟩
    have he := (hentries key id).2 ⟨ht, doc, hd, hkey⟩
    exact ⟨key, mem_indexKeys_of_entryAt he, scanRow_eq_some.2 ⟨rfl, he, hd⟩⟩

theorem indexScan_ids_nodup (h : EntriesFor catalog (docsAt log bound) (entryAt log bound))
    (hidx : idx ∈ catalog.indexes) :
    ((indexScan log idx.indexId bound [] none false none).map fun r => r.2.1).Nodup := by
  refine pairwise_map.2 ((indexScan_sorted log idx.indexId bound).imp_of_mem ?_)
  rintro ⟨key, id, doc⟩ ⟨key', id', doc'⟩ hr hr' hlt (rfl : id = id')
  obtain ⟨-, hd, hkey⟩ := (h.indexScan_iff hidx).1 hr
  obtain ⟨-, hd', hkey'⟩ := (h.indexScan_iff hidx).1 hr'
  rw [hd] at hd'
  cases hd'
  rw [hkey] at hkey'
  cases hkey'
  exact lt_irrefl _ hlt

end EntriesFor

end Helipod
