import Helipod.Client.Render

/-!
# Diffs of by-id subscriptions

A query that reads one document by its id is answered with the written row of each
commit instead of a new run. Whether that is what a run would return is up to the
query: it may return a part of the document, nothing, or be denied it.

Results: `ByIdSubscription.rows_of_canonical`, `ByIdSubscription.rows_of_other`,
`byId_diff_eq_rerun_iff`.
-/

namespace Helipod

open OrderedMap List Option

/-- What a run of a query returns and reads. -/
structure QueryRun where
  value : Value
  readRanges : List KeyRange

/-- A query with its arguments, run as one subscriber. -/
abbrev QueryFunction := Documents → QueryRun

/-- The row of a by-id value: `null` stands for no document. -/
def jsonRow : Value → Option DocumentValue
  | .object row => some row
  | _ => none

/-- A subscription that `classifyByIdRead` found diffable at its first run. -/
structure ByIdSubscription where
  query : QueryFunction
  /-- The documents at the first run. -/
  initial : Documents
  byId : ByIdRead
  classified :
    classifyByIdRead (query initial).value (query initial).readRanges = some byId
  /-- The timestamp of the session at the first run. -/
  ts : Nat

namespace ByIdSubscription

variable (sub : ByIdSubscription) {c : WrittenCommit} {rows : RowMap}

/-- The id of the document that is read. -/
def docId : InternalDocumentId := ⟨sub.byId.keyspace.tableOf, sub.byId.key⟩

def firstValue : Value := (sub.query sub.initial).value

def resetRows : RowMap :=
  (byIdResetChanges sub.byId.docId (jsonRow (convexToJson sub.firstValue)) sub.ts).2

/-- The document in a commit. -/
def written (c : WrittenCommit) : Option WrittenDoc := c.docAt sub.byId.keyspace sub.byId.key

/-- What the handler does with the row map at a commit. -/
def applyCommit (rows : RowMap) (c : WrittenCommit) : RowMap :=
  (byIdChangesFor rows (sub.written c)).2

/-- The row map after the commits, oldest first. -/
def rowsAfter (commits : List WrittenCommit) : RowMap :=
  commits.foldl sub.applyCommit sub.resetRows

def documentsAfter (commits : List WrittenCommit) : Documents :=
  commits.foldl WrittenCommit.apply sub.initial

/-- The value of a new run after the commits. -/
def rerun (commits : List WrittenCommit) : Value := (sub.query (sub.documentsAfter commits)).value

/-- The first value carried no id, or the one under which commits report the document. -/
def FirstCanonical : Prop :=
  sub.firstValue = .null ∨ encodeDocumentId sub.docId = .ok sub.byId.docId

instance : Decidable sub.FirstCanonical := inferInstanceAs (Decidable (_ ∨ _))

/-! ## Classification -/

theorem exists_point : ∃ r : KeyRange, isPointRange r = true ∧ r.keyspace = sub.byId.keyspace ∧
    singleDocId sub.firstValue = some sub.byId.docId := by
  have h := sub.classified
  unfold classifyByIdRead at h
  split at h
  · rename_i r _
    split at h
    · rename_i hpoint
      obtain ⟨found, hfound, hbyId⟩ := map_eq_some_iff.1 h
      exact ⟨r, hpoint, by rw [← hbyId], by rw [← hbyId]; exact hfound⟩
    · cases h
  · cases h

theorem keyspace_eq : sub.byId.keyspace = docKeyspace sub.docId := by
  obtain ⟨r, hpoint, hks, -⟩ := sub.exists_point
  rw [isPointRange, hks] at hpoint
  rw [docKeyspace, docId]
  cases hb : sub.byId.keyspace with
  | table n => rfl
  | index n name => simp [hb] at hpoint

theorem firstValue_cases : sub.firstValue = .null ∨ ∃ fields, sub.firstValue = .object fields := by
  obtain ⟨_, -, -, h⟩ := sub.exists_point
  cases hv : sub.firstValue with
  | null => exact .inl rfl
  | object fields => exact .inr ⟨fields, rfl⟩
  | bool _ | number _ | bigint _ | string _ | bytes _ | array _ => simp [hv, singleDocId] at h

theorem written_spec {wd : WrittenDoc} (h : sub.written c = some wd) (docs : Documents) :
    encodeDocumentId sub.docId = .ok wd.docId ∧
      wd.newRow = (c.apply docs sub.docId).map convexToJsonFields := by
  rw [written, sub.keyspace_eq] at h
  rcases c.docAt_find sub.docId with ⟨hnone, -⟩ | ⟨e, wd', hdoc, hfind, hid, hwd⟩
  · cases h.symm.trans hnone
  · obtain rfl : wd = wd' := Option.some.inj (h.symm.trans hdoc)
    obtain ⟨encoded, hencoded, rfl⟩ := writtenDoc_eq_ok.1 hwd
    rw [hid] at hencoded
    refine ⟨hencoded, ?_⟩
    rw [WrittenCommit.apply, hfind]

/-! ## Rows -/

theorem applyCommit_none (h : sub.written c = none) : sub.applyCommit rows c = rows := by
  rw [applyCommit, h]
  rfl

theorem applyCommit_some {wd : WrittenDoc} (h : sub.written c = some wd) :
    sub.applyCommit rows c =
      match wd.newRow with
      | some row => rows.set wd.docId ⟨row, wd.ts, none⟩
      | none => rows.erase wd.docId := by
  rw [applyCommit, h, byIdChangesFor]
  cases hrow : wd.newRow with
  | none => simp [applyChanges, byIdChange, hrow, Change.apply]
  | some row =>
    simp only [byIdChange, hrow]
    split <;> rfl

/-- All rows are under the encoded id of the document. -/
def OnlyCanonical (rows : RowMap) : Prop :=
  ∀ e ∈ rows.entries, encodeDocumentId sub.docId = .ok e.1

theorem OnlyCanonical.applyCommit (h : sub.OnlyCanonical rows) (c : WrittenCommit) :
    sub.OnlyCanonical (sub.applyCommit rows c) := by
  cases hdoc : sub.written c with
  | none =>
    rw [sub.applyCommit_none hdoc]
    exact h
  | some wd =>
    obtain ⟨hcanon, -⟩ := sub.written_spec hdoc sub.initial
    rw [sub.applyCommit_some hdoc]
    intro e he
    cases hrow : wd.newRow with
    | none =>
      simp only [hrow] at he
      exact h e (mem_filter.1 he).1
    | some row =>
      simp only [hrow] at he
      rcases rows.mem_entries_set.1 he with ⟨hkey, -⟩ | ⟨-, hmem⟩
      · rw [hcanon, hkey]
      · exact h e hmem

theorem onlyCanonical_resetRows (h : sub.FirstCanonical) : sub.OnlyCanonical sub.resetRows := by
  rcases sub.firstValue_cases with hnull | ⟨fields, hobj⟩
  · have hreset : sub.resetRows = .empty := by rw [resetRows, hnull]; rfl
    rw [hreset]
    exact fun e he => absurd he not_mem_nil
  · have hcanon : encodeDocumentId sub.docId = .ok sub.byId.docId := by
      rcases h with hnull | hcanon
      · rw [hobj] at hnull
        cases hnull
      · exact hcanon
    intro e he
    rw [resetRows, hobj] at he
    rw [mem_singleton.1 he]
    exact hcanon

theorem rowsAfter_concat (commits : List WrittenCommit) (c : WrittenCommit) :
    sub.rowsAfter (commits ++ [c]) = sub.applyCommit (sub.rowsAfter commits) c :=
  foldl_concat ..

theorem onlyCanonical_rowsAfter (h : sub.FirstCanonical) (commits : List WrittenCommit) :
    sub.OnlyCanonical (sub.rowsAfter commits) := by
  induction commits using List.reverseRecOn with
  | nil => exact sub.onlyCanonical_resetRows h
  | append_singleton commits c ih =>
    rw [rowsAfter_concat]
    exact OnlyCanonical.applyCommit sub ih c

theorem documentsAfter_concat (commits : List WrittenCommit) (c : WrittenCommit) :
    sub.documentsAfter (commits ++ [c]) = c.apply (sub.documentsAfter commits) :=
  foldl_concat ..

/-- After a commit that writes the document the one row is the document, if it exists. -/
theorem rows_of_canonical (h : sub.FirstCanonical) (commits : List WrittenCommit)
    (hc : (sub.written c).isSome) : (sub.rowsAfter (commits ++ [c])).values.map (·.row) =
      ((sub.documentsAfter (commits ++ [c]) sub.docId).map convexToJsonFields).toList := by
  obtain ⟨wd, hdoc⟩ := isSome_iff_exists.1 hc
  obtain ⟨hcanon, hrow⟩ := sub.written_spec hdoc (sub.documentsAfter commits)
  have hkeys : ∀ e ∈ (sub.rowsAfter (commits ++ [c])).entries, e.1 = wd.docId := by
    intro e he
    have := sub.onlyCanonical_rowsAfter h _ e he
    rw [hcanon] at this
    exact (Except.ok.inj this).symm
  rw [OrderedMap.values, entries_of_keys_eq _ hkeys, rowsAfter_concat, sub.applyCommit_some hdoc,
    sub.documentsAfter_concat, ← hrow]
  cases wd.newRow with
  | none => simp [get?_erase]
  | some row => simp

/-- A first value under another id keeps its place in front of all rows. -/
theorem rows_of_other (h : ¬ sub.FirstCanonical) (commits : List WrittenCommit) :
    ∃ fields, sub.firstValue = .object fields ∧
      (sub.rowsAfter commits).entries.head? =
        some (sub.byId.docId, ⟨convexToJsonFields fields, sub.ts, none⟩) := by
  obtain ⟨hnull, hother⟩ := not_or.1 h
  obtain ⟨fields, hobj⟩ := sub.firstValue_cases.resolve_left hnull
  refine ⟨fields, hobj, ?_⟩
  induction commits using List.reverseRecOn with
  | nil =>
    rw [rowsAfter, resetRows, hobj]
    rfl
  | append_singleton commits c ih =>
    rw [rowsAfter_concat]
    cases hdoc : sub.written c with
    | none =>
      rw [sub.applyCommit_none hdoc]
      exact ih
    | some wd =>
      have hne : sub.byId.docId ≠ wd.docId := by
        intro heq
        exact hother (heq ▸ (sub.written_spec hdoc sub.initial).1)
      rw [sub.applyCommit_some hdoc]
      cases wd.newRow with
      | none => exact head_erase _ ih hne
      | some row => exact head_set _ ih hne

end ByIdSubscription

/-! ## Rendering -/

theorem map_value_inj {a b : Option Value} : a.map JsValue.value = b.map JsValue.value ↔ a = b :=
  (map_injective fun _ _ h => JsValue.value.inj h).eq_iff

namespace ByIdSubscription

variable (sub : ByIdSubscription) {c : WrittenCommit}

/-- The rows that the commits leave show the subscriber what a new run returns. -/
def RendersRerun (commits : List WrittenCommit) : Prop :=
  renderByIdValue (sub.rowsAfter commits) = (decodeValue (sub.rerun commits)).map .value

theorem rendersRerun_iff (commits : List WrittenCommit) (hc : (sub.written c).isSome) :
    sub.RendersRerun (commits ++ [c]) ↔
      if sub.FirstCanonical then
        ∃ doc, sub.documentsAfter (commits ++ [c]) sub.docId = some doc ∧
          decodeValue (.object doc) = decodeValue (sub.rerun (commits ++ [c]))
      else decodeValue sub.firstValue = decodeValue (sub.rerun (commits ++ [c])) := by
  unfold RendersRerun
  by_cases hfirst : sub.FirstCanonical
  · rw [if_pos hfirst]
    have hrows := sub.rows_of_canonical hfirst commits hc
    rw [renderByIdValue]
    generalize (sub.rowsAfter (commits ++ [c])).values = values at hrows
    cases hdoc : sub.documentsAfter (commits ++ [c]) sub.docId with
    | none =>
      rw [hdoc, map_none, toList_none] at hrows
      obtain rfl := map_eq_nil_iff.1 hrows
      cases decodeValue (sub.rerun (commits ++ [c])) <;> simp
    | some doc =>
      rw [hdoc, map_some, toList_some] at hrows
      obtain ⟨version, rest, rfl, hrow, -⟩ := map_eq_cons_iff.1 hrows
      simp only [hrow, Option.some.injEq, exists_eq_left']
      exact map_value_inj
  · rw [if_neg hfirst]
    obtain ⟨fields, hobj, hhead⟩ := sub.rows_of_other hfirst (commits ++ [c])
    rw [renderByIdValue, OrderedMap.values]
    generalize (sub.rowsAfter (commits ++ [c])).entries = entries at hhead
    cases entries with
    | nil => cases hhead
    | cons e entries =>
      cases hhead
      rw [hobj]
      exact map_value_inj

/-! ## Handlers that return what they read -/

/-- The commit writes the document and does not delete it. -/
def Keeps (c : WrittenCommit) : Prop :=
  ∃ wd, sub.written c = some wd ∧ wd.newRow.isSome

/-- Only documents whose ids can be encoded differ from the first run's. The one that is read is
among them, since a subscription is told only of commits that write it. -/
def Reaches (docs : Documents) : Prop :=
  ∃ ids : List InternalDocumentId, sub.docId ∈ ids ∧
    (∀ id ∈ ids, ∃ encoded, encodeDocumentId id = .ok encoded) ∧
    ∀ id, id ∉ ids → docs id = sub.initial id

/-- The handler returns the document it reads and nothing else, as a client decodes it. If its
first result carried another id, it must return that result in every state. -/
def ReturnsRead : Prop :=
  ∀ docs, sub.Reaches docs →
    (sub.FirstCanonical → ∀ doc, docs sub.docId = some doc →
      decodeValue (sub.query docs).value = decodeValue (.object doc)) ∧
    (¬ sub.FirstCanonical → decodeValue (sub.query docs).value = decodeValue sub.firstValue)

theorem keeps_iff (docs : Documents) (hc : (sub.written c).isSome) :
    sub.Keeps c ↔ ∃ doc, c.apply docs sub.docId = some doc := by
  obtain ⟨wd, hdoc⟩ := isSome_iff_exists.1 hc
  have hrow := (sub.written_spec hdoc docs).2
  simp [Keeps, hdoc, hrow, isSome_iff_exists]

theorem reaches_documentsAfter (commits : List WrittenCommit) (hc : (sub.written c).isSome) :
    sub.Reaches (sub.documentsAfter (commits ++ [c])) := by
  -- the ids of all entries: `buildWrittenDocs` has encoded each of them
  have hwritten : ∀ cs : List WrittenCommit, ∃ ids : List InternalDocumentId,
      (∀ id ∈ ids, ∃ encoded, encodeDocumentId id = .ok encoded) ∧
        ∀ id, id ∉ ids → sub.documentsAfter cs id = sub.initial id := by
    intro cs
    induction cs using List.reverseRecOn with
    | nil => exact ⟨[], by simp, fun id _ => rfl⟩
    | append_singleton cs d ih =>
      obtain ⟨ids, hencoded, hsame⟩ := ih
      refine ⟨d.entries.map (·.id) ++ ids, ?_, ?_⟩
      · intro id hid
        rcases mem_append.1 hid with hnew | hold
        · obtain ⟨e, he, rfl⟩ := mem_map.1 hnew
          exact d.encoded_of_mem he
        · exact hencoded id hold
      · intro id hid
        obtain ⟨hnew, hold⟩ := not_or.1 (mt mem_append.2 hid)
        rw [sub.documentsAfter_concat, d.apply_of_not_mem hnew]
        exact hsame id hold
  obtain ⟨ids, hencoded, hsame⟩ := hwritten (commits ++ [c])
  obtain ⟨wd, hdoc⟩ := isSome_iff_exists.1 hc
  refine ⟨sub.docId :: ids, mem_cons_self, ?_, ?_⟩
  · exact forall_mem_cons.2 ⟨⟨_, (sub.written_spec hdoc sub.initial).1⟩, hencoded⟩
  · exact fun id hid => hsame id fun hmem => hid (mem_cons_of_mem _ hmem)

/-- One commit leads to every state that can be reached. -/
theorem exists_commit_of_reaches {docs : Documents} (h : sub.Reaches docs) :
    ∃ c : WrittenCommit, (sub.written c).isSome ∧ sub.documentsAfter [c] = docs := by
  obtain ⟨ids, hread, hencoded, hsame⟩ := h
  obtain ⟨c, hentries⟩ := WrittenCommit.exists_of_encoded docs hencoded
  have hfind := find?_map_id docs ids
  refine ⟨c, ?_, funext fun id => ?_⟩
  · rw [written, sub.keyspace_eq]
    rcases c.docAt_find sub.docId with ⟨-, hnone⟩ | ⟨e, wd, hdoc, -⟩
    · rw [hentries, hfind, if_pos hread] at hnone
      cases hnone
    · exact isSome_iff_exists.2 ⟨wd, hdoc⟩
  · show c.apply sub.initial id = docs id
    rw [WrittenCommit.apply, hentries, hfind]
    by_cases hid : id ∈ ids
    · rw [if_pos hid]
    · rw [if_neg hid, hsame id hid]

end ByIdSubscription

open ByIdSubscription in
/-- The diffs of a subscription show what new runs return, at every commit that leaves the document
in place, exactly if the handler returns the document it reads. They never do at a commit that
deletes it: the client renders undefined, and a run returns a value. -/
theorem byId_diff_eq_rerun_iff (sub : ByIdSubscription) :
    ((∀ commits c, (sub.written c).isSome →
        (sub.FirstCanonical → sub.Keeps c) → sub.RendersRerun (commits ++ [c])) ↔
      sub.ReturnsRead) ∧
    ∀ commits c, (sub.written c).isSome →
      sub.FirstCanonical → ¬ sub.Keeps c → ¬ sub.RendersRerun (commits ++ [c]) := by
  refine ⟨⟨?_, ?_⟩, ?_⟩
  · intro hshows docs hdocs
    obtain ⟨c, hc, rfl⟩ := sub.exists_commit_of_reaches hdocs
    have hpoint := (sub.rendersRerun_iff [] hc).1
    constructor
    · intro hfirst doc hdoc
      rw [if_pos hfirst] at hpoint
      have hkeeps : sub.Keeps c := (sub.keeps_iff sub.initial hc).2 ⟨doc, hdoc⟩
      obtain ⟨doc', hdoc', hvalue⟩ := hpoint (hshows [] c hc fun _ => hkeeps)
      obtain rfl : doc = doc' := Option.some.inj (hdoc.symm.trans hdoc')
      exact hvalue.symm
    · intro hfirst
      rw [if_neg hfirst] at hpoint
      exact (hpoint (hshows [] c hc fun h => absurd h hfirst)).symm
  · intro hreturns commits c hc hkeeps
    obtain ⟨hread, hother⟩ := hreturns _ (sub.reaches_documentsAfter commits hc)
    refine (sub.rendersRerun_iff commits hc).2 ?_
    by_cases hfirst : sub.FirstCanonical
    · rw [if_pos hfirst]
      obtain ⟨doc, hdoc⟩ := (sub.keeps_iff (sub.documentsAfter commits) hc).1 (hkeeps hfirst)
      rw [← sub.documentsAfter_concat] at hdoc
      exact ⟨doc, hdoc, (hread hfirst doc hdoc).symm⟩
    · rw [if_neg hfirst]
      exact (hother hfirst).symm
  · intro commits c hc hfirst hdeleted hshows
    have hpoint := (sub.rendersRerun_iff commits hc).1 hshows
    rw [if_pos hfirst] at hpoint
    obtain ⟨doc, hdoc, -⟩ := hpoint
    rw [sub.documentsAfter_concat] at hdoc
    exact hdeleted ((sub.keeps_iff _ hc).2 ⟨doc, hdoc⟩)

/-! ## One note -/

namespace ByIdExample

def noteId : InternalDocumentId := ⟨1, List.replicate 16 (byte 0)⟩

def noteDocId : JsString := js "0400000000000000000000000001208"

def note (title : String) : DocumentValue :=
  [(js "_id", .string noteDocId), (js "title", .string (js title))]

theorem encodeDocumentId_noteId : encodeDocumentId noteId = .ok noteDocId := by decide +kernel

def initial : Documents := fun id => if id = noteId then some (note "a") else none

def retitle (title : String) : WrittenCommit where
  ts := 2
  entries := [⟨noteId, some 1, some (note title)⟩]
  writtenDocs := [⟨noteId.internalId, docKeyspace noteId, noteDocId,
    some (convexToJsonFields (note title)), true, 2⟩]
  built := by
    rw [buildWrittenDocs, List.mapM_cons, writtenDoc_eq_ok.2
      ⟨noteDocId, encodeDocumentId_noteId, rfl⟩]
    rfl

/-- A query of the note that returns what `view` makes of it. -/
def viewNote (view : DocumentValue → Value)
    (hview : singleDocId (view (note "a")) = some noteDocId) : ByIdSubscription where
  query docs :=
    ⟨((docs noteId).map view).getD .null, [pointRange (docKeyspace noteId) noteId.internalId]⟩
  initial := initial
  byId := ⟨docKeyspace noteId, noteId.internalId, noteDocId⟩
  classified := by
    rw [classifyByIdRead, if_pos (by decide +kernel)]
    exact congrArg (Option.map _) hview
  ts := 1

def wholeNote : ByIdSubscription := viewNote .object (by decide +kernel)

def noteWithoutTitle : ByIdSubscription :=
  viewNote (fun doc => .object (doc.filter fun f => f.1 = idField)) (by decide +kernel)

theorem wholeNote_returnsRead : wholeNote.ReturnsRead := by
  refine fun docs _ => ⟨fun _ doc hdoc => ?_, fun h => absurd (by decide +kernel) h⟩
  show decodeValue (((docs noteId).map Value.object).getD .null) = _
  rw [show docs noteId = some doc from hdoc]
  rfl

end ByIdExample

open ByIdExample in
theorem byId_diff_eq_rerun_whole_note :
    wholeNote.Keeps (retitle "b") ∧ wholeNote.RendersRerun [retitle "b"] := by
  have hkeeps : wholeNote.Keeps (retitle "b") := ⟨_, rfl, rfl⟩
  refine ⟨hkeeps, ?_⟩
  exact (byId_diff_eq_rerun_iff wholeNote).1.2 wholeNote_returnsRead [] (retitle "b")
    (by decide +kernel) fun _ => hkeeps

open ByIdExample in
/-- A query that leaves the title out is classified as diffable, and the diff shows the title. -/
theorem byId_diff_shows_projection_whole : ∃ (sub : ByIdSubscription) (c : WrittenCommit),
    sub.Keeps c ∧ ¬ sub.RendersRerun [c] := by
  refine ⟨noteWithoutTitle, retitle "b", ⟨_, rfl, rfl⟩, ?_⟩
  unfold ByIdSubscription.RendersRerun
  decide +kernel

end Helipod
