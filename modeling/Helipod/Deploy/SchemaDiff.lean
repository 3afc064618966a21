import Helipod.Values.Validator

/-!
# The deploy gate

Model of `cli/src/schema-diff.ts`, with the document validator that
`SimpleIndexCatalog.addTable` builds for a table. A deploy may add tables and
optional fields, and is rejected for anything destructive.

The gate compares the `type` of a field and nothing below it, and it does not
look at `schemaValidation`. A name that every object inherits counts as a
field of the current schema.

Results: `diffSchema_ok_iff`, `accepted_keeps_documents_iff`.
-/

namespace Helipod

open OrderedMap Validator List

/-- A field of an object validator in JSON, and whether it is optional. -/
abbrev ObjectFieldJSON := ValidatorJSON × Bool

/-- `defineTable` builds an object validator for every table. -/
abbrev TableFields := OrderedMap JsString ObjectFieldJSON

/-- A schema whose literals can be decoded, with the numbers of its tables. -/
structure DeploySchema where
  tables : OrderedMap JsString TableFields
  schemaValidation : Bool
  tableNumbers : OrderedMap JsString Nat
  decodes : ∀ table ∈ tables.values, (Validator.fieldsFromJson table.entries).isSome

/-! ## The gate -/

inductive DestructiveChange where
  | tableRemoved (table : JsString)
  /-- The next number is missing where the next schema only inherits the name. -/
  | tableNumberChanged (table : JsString) (current : Nat) (next : Option Nat)
  | fieldRemoved (table field : JsString)
  | fieldChangedType (table field : JsString) (current next : ValidatorType)
  | fieldBecameRequired (table field : JsString)
  | newRequiredField (table field : JsString)
  deriving DecidableEq

inductive SchemaDiff where
  | ok
  | rejected (reason : DestructiveChange)
  /-- The gate throws a `TypeError`. -/
  | throws
  deriving DecidableEq

namespace SchemaDiff

def andThen : SchemaDiff → SchemaDiff → SchemaDiff
  | .ok, next => next
  | d, _ => d

/-- The first result other than `ok`. -/
def forEach {α : Type} (f : α → SchemaDiff) : List α → SchemaDiff
  | [] => .ok
  | a :: as => (f a).andThen (forEach f as)

theorem andThen_eq_ok_iff {d e : SchemaDiff} : d.andThen e = .ok ↔ d = .ok ∧ e = .ok := by
  cases d <;> simp [andThen]

theorem forEach_eq_ok_iff {α : Type} {f : α → SchemaDiff} {as : List α} :
    forEach f as = .ok ↔ ∀ a ∈ as, f a = .ok := by
  induction as with
  | nil => simp [forEach]
  | cons a as ih => simp [forEach, andThen_eq_ok_iff, ih]

end SchemaDiff

namespace DeploySchema

def fieldsOf (s : DeploySchema) (table : JsString) : TableFields :=
  (s.tables.get? table).getD .empty

end DeploySchema

def compatibleType (cur next : ValidatorJSON) : Bool := cur.type = next.type

/-- A field of the current schema against the next one. -/
def diffField (name : JsString) (nxt : TableFields) (field : JsString) (curV : ObjectFieldJSON) :
    SchemaDiff :=
  match nxt.get? field with
  | none =>
    match JsValue.inherited field with
    | .undefined => .rejected (.fieldRemoved name field)
    -- what is inherited has no `fieldType`
    | _ => .throws
  | some nxtV =>
    if !compatibleType curV.1 nxtV.1 then
      .rejected (.fieldChangedType name field curV.1.type nxtV.1.type)
    else if curV.2 && !nxtV.2 then .rejected (.fieldBecameRequired name field)
    else .ok

/-- A field of the next schema against the current one. -/
def diffNextField (name : JsString) (cur : TableFields) (field : JsString)
    (nxtV : ObjectFieldJSON) :
    SchemaDiff :=
  if cur.get? field = none ∧ JsValue.inherited field = .undefined ∧ nxtV.2 = false then
    .rejected (.newRequiredField name field)
  else .ok

def diffTable (current next : DeploySchema) (name : JsString) (number : Nat) : SchemaDiff :=
  if !next.tableNumbers.has name && JsValue.inherited name = .undefined then
    .rejected (.tableRemoved name)
  else if next.tableNumbers.get? name ≠ some number then
    .rejected (.tableNumberChanged name number (next.tableNumbers.get? name))
  else
    (SchemaDiff.forEach (fun f => diffField name (next.fieldsOf name) f.1 f.2)
      (current.fieldsOf name).entries).andThen
    (SchemaDiff.forEach (fun f => diffNextField name (current.fieldsOf name) f.1 f.2)
      (next.fieldsOf name).entries)

def diffSchema (current next : DeploySchema) : SchemaDiff :=
  SchemaDiff.forEach (fun t => diffTable current next t.1 t.2) current.tableNumbers.entries

/-! ## Validation of documents -/

namespace DeploySchema

/-- The fields of the document validator of a table, where it has one. -/
def documentFields (s : DeploySchema) (table : JsString) :
    Option (List (JsString × Validator × Bool)) :=
  if s.schemaValidation then (s.tables.get? table).bind fun t => Validator.fieldsFromJson t.entries
  else none

def documentValidator (s : DeploySchema) (table : JsString) : Option Validator :=
  (s.documentFields table).map .object

/-- `validateDocumentForWrite` does not throw. -/
def validates (s : DeploySchema) (table : JsString) (doc : DocumentValue) : Bool :=
  match s.documentValidator table with
  | none => true
  | some validator => validator.isValid (.object doc)

end DeploySchema

/-! ## What the gate checks -/

/-- Every field is kept with its type and does not become required. -/
def KeepsFields (cur nxt : TableFields) : Prop :=
  ∀ field curV, cur.get? field = some curV →
    ∃ nxtV, nxt.get? field = some nxtV ∧ curV.1.type = nxtV.1.type ∧ (curV.2 = true → nxtV.2 = true)

/-- Every required field is an old one, or has an inherited name. -/
def AddsOptional (cur nxt : TableFields) : Prop :=
  ∀ field nxtV, nxt.get? field = some nxtV → nxtV.2 = false →
    (cur.get? field).isSome ∨ JsValue.inherited field ≠ .undefined

variable {name : JsString}

theorem diffField_ok_iff {field : JsString} {nxt : TableFields} {curV : ObjectFieldJSON} :
    diffField name nxt field curV = .ok ↔ ∃ nxtV, nxt.get? field = some nxtV ∧
      curV.1.type = nxtV.1.type ∧ (curV.2 = true → nxtV.2 = true) := by
  unfold diffField
  cases nxt.get? field with
  | none => cases JsValue.inherited field <;> simp
  | some nxtV =>
    by_cases htype : curV.1.type = nxtV.1.type
    · cases curV.2 <;> cases nxtV.2 <;> simp [compatibleType, htype]
    · simp [compatibleType, htype]

theorem diffNextField_ok_iff {field : JsString} {cur : TableFields} {nxtV : ObjectFieldJSON} :
    diffNextField name cur field nxtV = .ok ↔
      (nxtV.2 = false → (cur.get? field).isSome ∨ JsValue.inherited field ≠ .undefined) := by
  unfold diffNextField
  cases cur.get? field <;> cases nxtV.2 <;> simp

variable {current : DeploySchema} {next : DeploySchema}

theorem diffTable_ok_iff {number : Nat} :
    diffTable current next name number = .ok ↔ next.tableNumbers.get? name = some number ∧
      KeepsFields (current.fieldsOf name) (next.fieldsOf name) ∧
      AddsOptional (current.fieldsOf name) (next.fieldsOf name) := by
  unfold diffTable
  by_cases hnumber : next.tableNumbers.get? name = some number
  · have hhas : next.tableNumbers.has name = true := by rw [OrderedMap.has, hnumber]; rfl
    rw [hhas, if_neg (by simp), if_neg (not_not.2 hnumber), SchemaDiff.andThen_eq_ok_iff,
      SchemaDiff.forEach_eq_ok_iff, SchemaDiff.forEach_eq_ok_iff]
    simp [diffField_ok_iff, diffNextField_ok_iff, KeepsFields, AddsOptional,
      get?_eq_some_iff, hnumber]
  · rw [if_pos hnumber]
    split <;> simp [hnumber]

/-- An accepted schema has every table under its number, keeps every field, and adds only optional
ones but for inherited names. -/
theorem diffSchema_ok_iff : diffSchema current next = .ok ↔
    ∀ name number, current.tableNumbers.get? name = some number →
      next.tableNumbers.get? name = some number ∧
      KeepsFields (current.fieldsOf name) (next.fieldsOf name) ∧
      AddsOptional (current.fieldsOf name) (next.fieldsOf name) := by
  simp [diffSchema, SchemaDiff.forEach_eq_ok_iff, diffTable_ok_iff, get?_eq_some_iff]

/-! ## Documents across a deploy -/

/-- What is accepted by a nested validator stays accepted, and every field that is required was
there. -/
structure FieldsWiden (cur nxt : List (JsString × Validator × Bool)) : Prop where
  nested : ∀ f ∈ cur, ∀ g ∈ nxt, f.1 = g.1 → f.2.1.type.isNested = true →
    ∀ x : Value, x.wellFormed = true → f.2.1.accepts x = true → g.2.1.accepts x = true
  required : ∀ g ∈ nxt, g.2.2 = false → g.1 ∈ cur.map Prod.fst

section Fields

variable {cur nxt : List (JsString × Validator × Bool)}

/-- Every field is still there, with a validator of its type, and optional if it was. -/
def FieldsKept (cur nxt : List (JsString × Validator × Bool)) : Prop :=
  ∀ f ∈ cur, ∃ g ∈ nxt, f.1 = g.1 ∧ f.2.1.type = g.2.1.type ∧ (f.2.2 = true → g.2.2 = true)

variable {f : JsString × Validator × Bool}

theorem field_ext (hnodup : (cur.map Prod.fst).Nodup) {g : JsString × Validator × Bool}
    (hf : f ∈ cur) (hg : g ∈ cur) (h : f.1 = g.1) : f = g :=
  inj_on_of_nodup_map hnodup hf hg h

theorem FieldsKept.get (hkept : FieldsKept cur nxt) (hnodup : (nxt.map Prod.fst).Nodup)
    {g : JsString × Validator × Bool} (hf : f ∈ cur) (hg : g ∈ nxt) (h : f.1 = g.1) :
    f.2.1.type = g.2.1.type ∧ (f.2.2 = true → g.2.2 = true) := by
  obtain ⟨g', hg', heq, hkept⟩ := hkept f hf
  rw [field_ext hnodup hg hg' (h.symm.trans heq)]
  exact hkept

variable {doc : DocumentValue}

theorem FieldsWiden.accepts (hwiden : FieldsWiden cur nxt) (hkept : FieldsKept cur nxt)
    (hnodup : (nxt.map Prod.fst).Nodup) (hdoc : (Value.object doc).wellFormed = true)
    (h : (Validator.object cur).accepts (.object doc) = true) :
    (Validator.object nxt).accepts (.object doc) = true := by
  obtain ⟨hfields, hextra⟩ := accepts_object_iff.1 h
  refine accepts_object_iff.2 ⟨fun g hg => ⟨fun hnone => ?_, fun x hx => ?_⟩, fun key hkey => ?_⟩
  · by_contra hrequired
    obtain ⟨f, hf, heq⟩ := mem_map.1 (hwiden.required g hg (Bool.eq_false_iff.2 hrequired))
    have hoptional := (hfields f hf).1 (by rw [heq, hnone])
    exact hrequired ((hkept.get hnodup hf hg heq).2 hoptional)
  · have hkey : g.1 ∈ doc.map Prod.fst := by
      by_contra hkey
      rw [ownProperty_eq_none_iff.2 hkey] at hx
      cases hx
    obtain ⟨f, hf, heq⟩ := mem_map.1 (hextra _ hkey)
    have haccepts := (hfields f hf).2 x (by rw [heq, hx])
    by_cases hnested : f.2.1.type.isNested = true
    · exact hwiden.nested f hf g hg heq hnested x (wellFormed_ownProperty hdoc hx) haccepts
    · rw [← accepts_of_type_eq (hkept.get hnodup hf hg heq).1 (Bool.eq_false_iff.2 hnested)]
      exact haccepts
  · obtain ⟨f, hf, heq⟩ := mem_map.1 (hextra key hkey)
    obtain ⟨g, hg, hfg, -⟩ := hkept f hf
    exact mem_map.2 ⟨g, hg, hfg.symm.trans heq⟩

theorem accepts_set (hnodup : (cur.map Prod.fst).Nodup) (hf : f ∈ cur)
    {doc : OrderedMap JsString Value}
    (h : (Validator.object cur).accepts (.object doc.entries) = true) {x : Value}
    (hx : f.2.1.accepts x = true) :
    (Validator.object cur).accepts (.object (doc.set f.1 x).entries) = true := by
  obtain ⟨hfields, hextra⟩ := accepts_object_iff.1 h
  refine accepts_object_iff.2 ⟨fun f' hf' => ?_, fun key hkey => ?_⟩
  · show ((doc.set f.1 x).get? f'.1 = none → _) ∧ ∀ y, (doc.set f.1 x).get? f'.1 = some y → _
    rw [get?_set]
    split
    · rename_i heq
      rw [← field_ext hnodup hf hf' heq]
      refine ⟨fun hnone => (by cases hnone), fun y hy => ?_⟩
      rwa [← Option.some.inj hy]
    · exact hfields f' hf'
  · rcases doc.mem_keys_set.1 hkey with rfl | hkey
    · exact mem_map_of_mem hf
    · exact hextra key hkey

theorem wellFormed_set {doc : OrderedMap JsString Value} {key : JsString} {x : Value}
    (h : (Value.object doc.entries).wellFormed = true) (hx : x.wellFormed = true) :
    (Value.object (doc.set key x).entries).wellFormed = true := by
  refine wellFormed_object_iff.2 ⟨(doc.set key x).nodup, ?_⟩
  rintro ⟨key', y⟩ hf
  rcases doc.mem_entries_set.1 hf with ⟨-, rfl⟩ | ⟨-, hf⟩
  · exact hx
  · exact (wellFormed_object_iff.1 h).2 _ hf

/-- The fields widen where every document stays accepted, if there is one at all. -/
theorem fieldsWiden_of_accepts (hnodup : (cur.map Prod.fst).Nodup)
    (hkeep : ∀ doc : DocumentValue, (Value.object doc).wellFormed = true →
      (Validator.object cur).accepts (.object doc) = true →
    (Validator.object nxt).accepts (.object doc) = true)
    (hdoc : (Value.object doc).wellFormed = true)
    (h : (Validator.object cur).accepts (.object doc) = true) : FieldsWiden cur nxt where
  nested f hf g hg heq _ x hx haccepts := by
    let m : OrderedMap JsString Value := ⟨doc, (wellFormed_object_iff.1 hdoc).1⟩
    have hset := hkeep (m.set f.1 x).entries (wellFormed_set hdoc hx)
      (accepts_set hnodup hf h haccepts)
    refine ((accepts_object_iff.1 hset).1 g hg).2 x ?_
    show (m.set f.1 x).get? g.1 = some x
    rw [get?_set, if_pos heq]
  required g hg hrequired := by
    obtain ⟨-, hextra⟩ := accepts_object_iff.1 h
    refine hextra _ (by_contra fun hkey => ?_)
    have hoptional := ((accepts_object_iff.1 (hkeep doc hdoc h)).1 g hg).1
      (ownProperty_eq_none_iff.2 hkey)
    rw [hrequired] at hoptional
    cases hoptional

/-- No object validator accepts every document: a field that it does not name is too much. -/
theorem exists_not_accepts (nxt : List (JsString × Validator × Bool)) : ∃ doc : DocumentValue,
    (Value.object doc).wellFormed = true ∧
    (Validator.object nxt).accepts (.object doc) = false := by
  let key : JsString := codeUnit 0 :: (nxt.map Prod.fst).flatten
  have hkey : key ∉ nxt.map Prod.fst := by
    intro hmem
    have hle := (sublist_flatten_of_mem hmem).length_le
    rw [length_cons] at hle
    omega
  refine ⟨[(key, .null)], wellFormed_object_iff.2 ⟨nodup_singleton _, ?_⟩, ?_⟩
  · intro f hf
    rw [mem_singleton.1 hf]
    rfl
  · rw [Bool.eq_false_iff]
    intro h
    exact hkey ((accepts_object_iff.1 h).2 key mem_cons_self)

end Fields

namespace DeploySchema

variable {s : DeploySchema} {table : JsString} {fields : List (JsString × Validator × Bool)}

theorem documentFields_eq_some_iff : s.documentFields table = some fields ↔
    s.schemaValidation = true ∧
    ∃ t, s.tables.get? table = some t ∧ Validator.fieldsFromJson t.entries = some fields := by
  rw [documentFields]
  cases s.schemaValidation <;> simp [Option.bind_eq_some_iff]

theorem fieldsFromJson_fieldsOf (h : s.documentFields table = some fields) :
    Validator.fieldsFromJson (s.fieldsOf table).entries = some fields := by
  obtain ⟨-, t, ht, hfields⟩ := documentFields_eq_some_iff.1 h
  rw [fieldsOf, ht]
  exact hfields

theorem nodup_documentFields (h : s.documentFields table = some fields) :
    (fields.map Prod.fst).Nodup :=
  (s.fieldsOf table).nodup.sublist (keys_fieldsFromJson (fieldsFromJson_fieldsOf h))

theorem validates_of_none (h : s.documentFields table = none) : s.validates table doc = true := by
  rw [validates, documentValidator, h]
  rfl

theorem validates_of_some (h : s.documentFields table = some fields) :
    s.validates table doc = (Validator.object fields).accepts (.object doc) := by
  rw [validates, documentValidator, h, ← isValid_eq_accepts]
  rfl

end DeploySchema

/-- The gate keeps the fields that the document validators have. -/
theorem FieldsKept.of_keepsFields {table : JsString} {cur nxt : List (JsString × Validator × Bool)}
    (h : KeepsFields (current.fieldsOf table) (next.fieldsOf table))
    (hcur : current.documentFields table = some cur) (hnxt : next.documentFields table = some nxt) :
    FieldsKept cur nxt := by
  rintro ⟨key, v, optional⟩ hf
  have hcur := DeploySchema.fieldsFromJson_fieldsOf hcur
  have hnxt := DeploySchema.fieldsFromJson_fieldsOf hnxt
  obtain ⟨hproto, j, hj, hv⟩ := (mem_fieldsFromJson hcur).1 hf
  obtain ⟨⟨j', optional'⟩, hget, htype, hoptional⟩ :=
    h key (j, optional) ((get?_eq_some_iff _).2 hj)
  have hmem := (get?_eq_some_iff _).1 hget
  obtain ⟨v', hv'⟩ := decodes_of_mem hnxt hmem
  refine ⟨(key, v', optional'), (mem_fieldsFromJson hnxt).2 ⟨hproto, j', hmem, hv'⟩, rfl, ?_,
    hoptional⟩
  rw [type_validatorFromJson hv, type_validatorFromJson hv']
  exact htype

/-- Across an accepted deploy the documents of a table stay valid exactly where the next schema
validates none of them, or no document was valid, or the nested validators and the required fields
ask for nothing more. -/
theorem accepted_keeps_documents_iff {current next : DeploySchema}
    (hok : diffSchema current next = .ok)
    {table : JsString} (htable : table ∈ current.tableNumbers.keys) :
    (∀ doc : DocumentValue, (Value.object doc).wellFormed = true →
      current.validates table doc = true → next.validates table doc = true) ↔
    next.documentFields table = none ∨ ∃ cur nxt, current.documentFields table = some cur ∧
      next.documentFields table = some nxt ∧
      ((∀ doc : DocumentValue, (Value.object doc).wellFormed = true →
        current.validates table doc = false) ∨ FieldsWiden cur nxt) := by
  obtain ⟨⟨_, number⟩, hmem, rfl⟩ := mem_map.1 htable
  obtain ⟨-, hkeeps, -⟩ := diffSchema_ok_iff.1 hok _ _ ((get?_eq_some_iff _).2 hmem)
  cases hnxt : next.documentFields _ with
  | none => exact ⟨fun _ => Or.inl rfl, fun _ _ _ _ => DeploySchema.validates_of_none hnxt⟩
  | some nxt =>
    cases hcur : current.documentFields _ with
    | none =>
      refine ⟨fun h => ?_, ?_⟩
      · obtain ⟨doc, hdoc, hrejected⟩ := exists_not_accepts nxt
        have hvalid := h doc hdoc (DeploySchema.validates_of_none hcur)
        rw [DeploySchema.validates_of_some hnxt, hrejected] at hvalid
        cases hvalid
      · rintro (h | ⟨_, _, h, -⟩) <;> cases h
    | some cur =>
      have hkept := FieldsKept.of_keepsFields hkeeps hcur hnxt
      simp only [DeploySchema.validates_of_some hcur, DeploySchema.validates_of_some hnxt]
      refine ⟨fun h => Or.inr ⟨cur, nxt, rfl, rfl, ?_⟩, ?_⟩
      · by_cases hsome : ∃ doc : DocumentValue, (Value.object doc).wellFormed = true ∧
          (Validator.object cur).accepts (.object doc) = true
        · obtain ⟨doc, hdoc, haccepts⟩ := hsome
          exact Or.inr (fieldsWiden_of_accepts (DeploySchema.nodup_documentFields hcur) h
            hdoc haccepts)
        · exact Or.inl fun doc hdoc => Bool.eq_false_iff.2 fun haccepts =>
            hsome ⟨doc, hdoc, haccepts⟩
      · rintro (h | ⟨_, _, hcur', hnxt', hempty | hwiden⟩) doc hdoc haccepts
        · cases h
        · rw [hempty doc hdoc] at haccepts
          cases haccepts
        · cases hcur'
          cases hnxt'
          exact hwiden.accepts hkept (DeploySchema.nodup_documentFields hnxt) hdoc haccepts

/-- One table of posts, with the tags of a post and further fields. -/
def postSchema (tag : ValidatorJSON) (rest : List (JsString × ObjectFieldJSON))
    (hrest : (js "tags" :: rest.map Prod.fst).Nodup)
    (hdecodes : (Validator.fieldsFromJson ((js "tags", .array tag, false) :: rest)).isSome) :
    DeploySchema where
  tables := ⟨[(js "posts", ⟨(js "tags", .array tag, false) :: rest, hrest⟩)],
    List.nodup_singleton _⟩
  schemaValidation := true
  tableNumbers := ⟨[(js "posts", 10001)], List.nodup_singleton _⟩
  decodes table htable := by
    rw [List.mem_singleton.1 htable]
    exact hdecodes

def taggedWithStrings : DeploySchema := postSchema .string [] (by decide) rfl

def taggedWithNumbers : DeploySchema := postSchema .number [] (by decide) rfl

def taggedWithBoth : DeploySchema :=
  postSchema (.union [.string, .number]) [(js "note", .string, true)] (by decide +kernel) rfl

/-- Strings or numbers in place of strings, and a new optional field. -/
theorem accepted_keeps_documents_union : diffSchema taggedWithStrings taggedWithBoth = .ok ∧
    ∀ doc : DocumentValue, (Value.object doc).wellFormed = true →
      taggedWithStrings.validates (js "posts") doc = true →
      taggedWithBoth.validates (js "posts") doc = true := by
  have hok : diffSchema taggedWithStrings taggedWithBoth = .ok := by decide +kernel
  refine ⟨hok, (accepted_keeps_documents_iff hok (mem_singleton_self _)).2
    (Or.inr ⟨[(js "tags", .array .string, false)],
      [(js "tags", .array (.union [.string, .number]), false),
        (js "note", .string, true)], rfl, rfl,
      Or.inr ⟨?_, ?_⟩⟩)⟩
  · intro f hf g hg heq _ x _ haccepts
    cases mem_singleton.1 hf
    rcases mem_cons.1 hg with rfl | hg
    · cases x with
      | array xs =>
        simp only [Validator.accepts, Validator.acceptsAny, all_eq_true] at haccepts ⊢
        intro y hy
        rw [haccepts y hy, Bool.true_or]
      | _ => cases haccepts
    · cases mem_singleton.1 hg
      exact absurd heq (by decide)
  · intro g hg hrequired
    rcases mem_cons.1 hg with rfl | hg
    · exact mem_cons_self
    · cases mem_singleton.1 hg
      cases hrequired

/-- Tags that were strings have to be numbers after an accepted deploy: a post with a tag is no
longer valid. -/
theorem accepted_array_change_rejects : ∃ doc : DocumentValue,
    (Value.object doc).wellFormed = true ∧ diffSchema taggedWithStrings taggedWithNumbers = .ok ∧
    js "posts" ∈ taggedWithStrings.tableNumbers.keys ∧
    taggedWithStrings.validates (js "posts") doc = true ∧
    taggedWithNumbers.validates (js "posts") doc = false :=
  ⟨[(js "tags", .array [.string (js "a")])], by decide +kernel⟩

end Helipod
