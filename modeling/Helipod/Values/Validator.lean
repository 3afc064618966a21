import Helipod.Values.Json

/-!
# Validators

Model of `values/src/validator.ts` and `values/src/validator-from-json.ts`. A validator and its JSON
form have the same shape; only a literal is encoded in the JSON form. An optional validator occurs
as the validator of a field, so the field says that it is optional. The message for a literal shows
the literal as text; the model keeps the literal.

Results: `check_eq_nil_iff`, `accepts_object_iff`, `accepts_of_type_eq`.
-/

namespace Helipod

open List Option

inductive Validator where
  | null
  | boolean
  | number
  | bigint
  | string
  | bytes
  | any
  | literal (value : Value)
  | id (tableName : JsString)
  | array (element : Validator)
  | record (keys values : Validator)
  | union (members : List Validator)
  /-- Each field with its validator, and whether it is optional. -/
  | object (fields : List (JsString × Validator × Bool))

/-- The JSON form of a validator. -/
abbrev ValidatorJSON := Validator

/-- The `type` of the JSON form. -/
inductive ValidatorType where
  | null
  | boolean
  | number
  | bigint
  | string
  | bytes
  | any
  | literal
  | id
  | array
  | record
  | union
  | object
  deriving DecidableEq

def Validator.type : Validator → ValidatorType
  | .null => .null
  | .boolean => .boolean
  | .number => .number
  | .bigint => .bigint
  | .string => .string
  | .bytes => .bytes
  | .any => .any
  | .literal _ => .literal
  | .id _ => .id
  | .array _ => .array
  | .record _ _ => .record
  | .union _ => .union
  | .object _ => .object

/-! ## Checks -/

inductive FailureMessage where
  | expectedNull
  | expectedBoolean
  | expectedNumber
  | expectedBigint
  | expectedString
  | expectedBytes
  | expectedId (tableName : JsString)
  | expectedLiteral (value : Value)
  | expectedArray
  | expectedRecordObject
  | didNotMatchAnyMember
  | expectedObject
  | missingRequiredField
  | unexpectedExtraField
  deriving DecidableEq

structure ValidationFailure where
  path : JsString
  message : FailureMessage
  deriving DecidableEq

def rootPath (path : JsString) : JsString := if path = [] then js "<root>" else path

def joinPath (path key : JsString) : JsString := if path = [] then key else path ++ js "." ++ key

def indexPath (path : JsString) (i : Nat) : JsString :=
  rootPath path ++ js "[" ++ decimal i ++ js "]"

/-- A failure at the path unless the test passes. -/
def expect (path : JsString) (message : FailureMessage) (ok : Bool) : List ValidationFailure :=
  if ok then [] else [⟨rootPath path, message⟩]

def valuesEqual (a b : Value) : Bool := compareValues a b = .eq

/-- The value of an own property. -/
def ownProperty (fields : List (JsString × Value)) (key : JsString) : Option Value :=
  (fields.find? fun f => f.1 = key).map Prod.snd

namespace Value

def isBoolean : Value → Bool
  | .bool _ => true
  | _ => false

def isNumber : Value → Bool
  | .number _ => true
  | _ => false

def isBigint : Value → Bool
  | .bigint _ => true
  | _ => false

def isString : Value → Bool
  | .string _ => true
  | _ => false

def isBytes : Value → Bool
  | .bytes _ => true
  | _ => false

end Value

namespace Validator

/-- The failures of the elements of an array from the index `i` on. -/
def checkElements (check : Value → JsString → List ValidationFailure) (path : JsString) :
    Nat → List Value → List ValidationFailure
  | _, [] => []
  | i, x :: xs => check x (indexPath path i) ++ checkElements check path (i + 1) xs

mutual

def check : Validator → Value → JsString → List ValidationFailure
  | .null, x, path => expect path .expectedNull (x = .null)
  | .boolean, x, path => expect path .expectedBoolean x.isBoolean
  | .number, x, path => expect path .expectedNumber x.isNumber
  | .bigint, x, path => expect path .expectedBigint x.isBigint
  | .string, x, path => expect path .expectedString x.isString
  | .bytes, x, path => expect path .expectedBytes x.isBytes
  | .any, _, _ => []
  | .id tableName, x, path => expect path (.expectedId tableName) x.isString
  | .literal value, x, path => expect path (.expectedLiteral value) (valuesEqual x value)
  | .array element, x, path =>
    match x with
    | .array xs => checkElements element.check path 0 xs
    | _ => [⟨rootPath path, .expectedArray⟩]
  | .record keys values, x, path =>
    match x with
    | .object fs => fs.flatMap fun f =>
      keys.check (.string f.1) (joinPath path f.1) ++ values.check f.2 (joinPath path f.1)
    | _ => [⟨rootPath path, .expectedRecordObject⟩]
  | .union members, x, path => expect path .didNotMatchAnyMember (checkMembers members x path)
  | .object fields, x, path =>
    match x with
    | .object fs => checkFields fields fs path ++
      (fs.filter fun f => f.1 ∉ fields.map Prod.fst).map fun f =>
        ⟨joinPath path f.1, .unexpectedExtraField⟩
    | _ => [⟨rootPath path, .expectedObject⟩]
  termination_by structural v => v

/-- Some member finds no failure. -/
def checkMembers : List Validator → Value → JsString → Bool
  | [], _, _ => false
  | member :: members, x, path => (member.check x path).isEmpty || checkMembers members x path
  termination_by structural members => members

def checkFields : List (JsString × Validator × Bool) → List (JsString × Value) → JsString →
    List ValidationFailure
  | [], _, _ => []
  | (key, validator, optional) :: fields, fs, path =>
    (match ownProperty fs key with
      | none => if optional then [] else [⟨joinPath path key, .missingRequiredField⟩]
      | some x => validator.check x (joinPath path key)) ++ checkFields fields fs path
  termination_by structural fields => fields

end

/-- `validate`. -/
def validate (v : Validator) (x : Value) : List ValidationFailure := v.check x []

def isValid (v : Validator) (x : Value) : Bool := (v.validate x).isEmpty

/-! ## From JSON -/

mutual

/-- `none` where a literal cannot be decoded. A field `__proto__` is lost in the assignment. -/
def validatorFromJson : ValidatorJSON → Option Validator
  | .literal value => (jsonToConvex value).map .literal
  | .array element => (validatorFromJson element).map .array
  | .record keys values =>
    (validatorFromJson keys).bind fun keys => (validatorFromJson values).map (.record keys)
  | .union members => (validatorsFromJson members).map .union
  | .object fields => (fieldsFromJson fields).map .object
  | v => some v
  termination_by structural v => v

def validatorsFromJson : List ValidatorJSON → Option (List Validator)
  | [] => some []
  | v :: vs => (validatorFromJson v).bind fun v => (validatorsFromJson vs).map (v :: ·)
  termination_by structural vs => vs

def fieldsFromJson : List (JsString × ValidatorJSON × Bool) →
    Option (List (JsString × Validator × Bool))
  | [] => some []
  | (key, v, optional) :: fields => (validatorFromJson v).bind fun v =>
    (fieldsFromJson fields).map fun fields =>
      if key = js "__proto__" then fields else (key, v, optional) :: fields
  termination_by structural fields => fields

end

/-! ## What a validator accepts -/

mutual

@[simp] def accepts : Validator → Value → Bool
  | .null, x => x = .null
  | .boolean, x => x.isBoolean
  | .number, x => x.isNumber
  | .bigint, x => x.isBigint
  | .string, x => x.isString
  | .bytes, x => x.isBytes
  | .any, _ => true
  | .id _, x => x.isString
  | .literal value, x => valuesEqual x value
  | .array element, x =>
    match x with
    | .array xs => xs.all element.accepts
    | _ => false
  | .record keys values, x =>
    match x with
    | .object fs => fs.all fun f => keys.accepts (.string f.1) && values.accepts f.2
    | _ => false
  | .union members, x => acceptsAny members x
  | .object fields, x =>
    match x with
    | .object fs => acceptsFields fields fs && fs.all fun f => f.1 ∈ fields.map Prod.fst
    | _ => false
  termination_by structural v => v

def acceptsAny : List Validator → Value → Bool
  | [], _ => false
  | member :: members, x => member.accepts x || acceptsAny members x
  termination_by structural members => members

def acceptsFields : List (JsString × Validator × Bool) → List (JsString × Value) → Bool
  | [], _ => true
  | (key, validator, optional) :: fields, fs =>
    (match ownProperty fs key with
      | none => optional
      | some x => validator.accepts x) && acceptsFields fields fs
  termination_by structural fields => fields

end

variable {fields : List (JsString × Validator × Bool)} {fs : List (JsString × Value)}
  {key : JsString}

theorem ownProperty_eq_none_iff : ownProperty fs key = none ↔ key ∉ fs.map Prod.fst := by
  simp only [ownProperty, Option.map_eq_none_iff, List.find?_eq_none, List.mem_map,
    not_exists, not_and,
    decide_eq_true_eq]

theorem wellFormedFields_iff :
    Value.wellFormedFields fs = true ↔ ∀ f ∈ fs, f.2.wellFormed = true := by
  induction fs with
  | nil => simp [Value.wellFormedFields]
  | cons f fs ih => simp [Value.wellFormedFields, ih]

theorem wellFormed_object_iff : (Value.object fs).wellFormed = true ↔
    (fs.map Prod.fst).Nodup ∧ ∀ f ∈ fs, f.2.wellFormed = true := by
  rw [Value.wellFormed, decide_eq_true_eq, wellFormedFields_iff]

theorem wellFormed_ownProperty {x : Value} (h : (Value.object fs).wellFormed = true)
    (hx : ownProperty fs key = some x) : x.wellFormed = true := by
  obtain ⟨f, hf, rfl⟩ := map_eq_some_iff.1 hx
  exact (wellFormed_object_iff.1 h).2 f (mem_of_find?_eq_some hf)

@[simp] theorem expect_eq_nil_iff {path : JsString} {message : FailureMessage} {ok : Bool} :
    expect path message ok = [] ↔ ok = true := by
  cases ok <;> simp [expect]

theorem checkElements_eq_nil_iff {check : Value → JsString → List ValidationFailure}
    {ok : Value → Bool}
    (h : ∀ x path, check x path = [] ↔ ok x = true) {path : JsString} {i : Nat} {xs : List Value} :
    checkElements check path i xs = [] ↔ xs.all ok = true := by
  induction xs generalizing i with
  | nil => simp [checkElements]
  | cons x xs ih => simp [checkElements, h, ih]

mutual

/-- A check finds nothing, at any path, in what the validator accepts and only there. -/
theorem check_eq_nil_iff : ∀ (v : Validator) (x : Value) (path : JsString),
    v.check x path = [] ↔ v.accepts x = true
  | .null, x, path => by simp [check]
  | .boolean, x, path => by simp [check]
  | .number, x, path => by simp [check]
  | .bigint, x, path => by simp [check]
  | .string, x, path => by simp [check]
  | .bytes, x, path => by simp [check]
  | .any, x, path => by simp [check]
  | .id tableName, x, path => by simp [check]
  | .literal value, x, path => by simp [check]
  | .array element, x, path => by
    cases x with
    | array xs =>
      exact checkElements_eq_nil_iff (check_eq_nil_iff element)
    | _ => simp [check]
  | .record keys values, x, path => by
    cases x with
    | object fs =>
      rw [check, accepts, List.flatMap_eq_nil_iff, List.all_eq_true]
      simp [check_eq_nil_iff keys, check_eq_nil_iff values]
    | _ => simp [check]
  | .union members, x, path => by
    rw [check, accepts, expect_eq_nil_iff, checkMembers_eq members]
  | .object fields, x, path => by
    cases x with
    | object fs =>
      rw [check, accepts, append_eq_nil_iff, checkFields_eq_nil_iff fields, map_eq_nil_iff,
        Bool.and_eq_true, List.filter_eq_nil_iff, List.all_eq_true]
      simp only [decide_eq_true_eq, not_not]
    | _ => simp [check]
  termination_by structural v => v

theorem checkMembers_eq : ∀ (members : List Validator) (x : Value) (path : JsString),
    checkMembers members x path = acceptsAny members x
  | [], x, path => rfl
  | member :: members, x, path => by
    rw [checkMembers, acceptsAny, checkMembers_eq members, Bool.eq_iff_iff]
    simp [check_eq_nil_iff member]
  termination_by structural members => members

theorem checkFields_eq_nil_iff : ∀ (fields : List (JsString × Validator × Bool))
    (fs : List (JsString × Value)) (path : JsString),
    checkFields fields fs path = [] ↔ acceptsFields fields fs = true
  | [], fs, path => by simp [checkFields, acceptsFields]
  | (key, validator, optional) :: fields, fs, path => by
    rw [checkFields, acceptsFields, append_eq_nil_iff, checkFields_eq_nil_iff fields,
      Bool.and_eq_true]
    cases ownProperty fs key with
    | none => cases optional <;> simp
    | some y => simp [check_eq_nil_iff validator]
  termination_by structural fields => fields

end

theorem isValid_eq_accepts (v : Validator) (x : Value) : v.isValid x = v.accepts x := by
  rw [Bool.eq_iff_iff, isValid, List.isEmpty_iff, validate, check_eq_nil_iff]

theorem acceptsFields_iff :
    acceptsFields fields fs = true ↔ ∀ f ∈ fields, (ownProperty fs f.1 = none → f.2.2 = true) ∧
      ∀ x, ownProperty fs f.1 = some x → f.2.1.accepts x = true := by
  induction fields with
  | nil => simp [acceptsFields]
  | cons f fields ih =>
    rw [acceptsFields, Bool.and_eq_true, ih, forall_mem_cons]
    cases ownProperty fs f.1 <;> simp

/-- Every field that is there is accepted, every other one is optional, and there is no field
besides. -/
theorem accepts_object_iff :
    (object fields).accepts (.object fs) = true ↔
      (∀ f ∈ fields, (ownProperty fs f.1 = none → f.2.2 = true) ∧
        ∀ x, ownProperty fs f.1 = some x → f.2.1.accepts x = true) ∧
      ∀ key ∈ fs.map Prod.fst, key ∈ fields.map Prod.fst := by
  rw [accepts, Bool.and_eq_true, acceptsFields_iff, List.all_eq_true, List.forall_mem_map]
  simp

/-! ## What decoding keeps -/

theorem type_validatorFromJson {json : ValidatorJSON} {v : Validator}
    (h : validatorFromJson json = some v) : v.type = json.type := by
  cases json with
  | literal value | array element | union members | object fields =>
    obtain ⟨_, _, rfl⟩ := map_eq_some_iff.1 h
    rfl
  | record keys values =>
    obtain ⟨_, _, h⟩ := bind_eq_some_iff.1 h
    obtain ⟨_, _, rfl⟩ := map_eq_some_iff.1 h
    rfl
  | _ =>
    cases h
    rfl

variable {json : List (JsString × ValidatorJSON × Bool)}

theorem mem_fieldsFromJson (h : fieldsFromJson json = some fields) {v : Validator}
    {optional : Bool} : (key, v, optional) ∈ fields ↔
      key ≠ js "__proto__" ∧ ∃ j, (key, j, optional) ∈ json ∧ validatorFromJson j = some v := by
  induction json generalizing fields with
  | nil =>
    cases h
    simp
  | cons f json ih =>
    obtain ⟨key', j, optional'⟩ := f
    obtain ⟨v', hv', h⟩ := bind_eq_some_iff.1 h
    obtain ⟨fields', hfields, rfl⟩ := map_eq_some_iff.1 h
    have ih := ih hfields
    by_cases hproto : key' = js "__proto__"
    · rw [if_pos hproto, ih]
      refine and_congr_right fun hkey => ⟨?_, ?_⟩
      · rintro ⟨j', hj', hv⟩
        exact ⟨j', mem_cons_of_mem _ hj', hv⟩
      · rintro ⟨j', hj', hv⟩
        rcases mem_cons.1 hj' with heq | hj'
        · exact absurd ((Prod.ext_iff.1 heq).1.trans hproto) hkey
        · exact ⟨j', hj', hv⟩
    · rw [if_neg hproto, mem_cons, ih]
      constructor
      · rintro (heq | ⟨hkey, j', hj', hv⟩)
        · cases heq
          exact ⟨hproto, j, mem_cons_self, hv'⟩
        · exact ⟨hkey, j', mem_cons_of_mem _ hj', hv⟩
      · rintro ⟨hkey, j', hj', hv⟩
        rcases mem_cons.1 hj' with heq | hj'
        · cases heq
          exact Or.inl (by rw [Option.some.inj (hv'.symm.trans hv)])
        · exact Or.inr ⟨hkey, j', hj', hv⟩

theorem decodes_of_mem (h : fieldsFromJson json = some fields) {f : JsString × ValidatorJSON × Bool}
    (hf : f ∈ json) : ∃ v, validatorFromJson f.2.1 = some v := by
  induction json generalizing fields with
  | nil => cases hf
  | cons f' json ih =>
    obtain ⟨v, hv, h⟩ := bind_eq_some_iff.1 h
    obtain ⟨fields', hfields, -⟩ := map_eq_some_iff.1 h
    rcases mem_cons.1 hf with rfl | hf
    · exact ⟨v, hv⟩
    · exact ih hfields hf

theorem keys_fieldsFromJson (h : fieldsFromJson json = some fields) :
    (fields.map Prod.fst).Sublist (json.map Prod.fst) := by
  induction json generalizing fields with
  | nil =>
    cases h
    exact .slnil
  | cons f json ih =>
    obtain ⟨key, j, optional⟩ := f
    obtain ⟨v, -, h⟩ := bind_eq_some_iff.1 h
    obtain ⟨fields', hfields, rfl⟩ := map_eq_some_iff.1 h
    split
    · exact (ih hfields).cons key
    · exact (ih hfields).cons_cons key

end Validator

/-- Validators of this type can differ in what they accept. -/
def ValidatorType.isNested : ValidatorType → Bool
  | .literal | .array | .record | .union | .object => true
  | _ => false

theorem Validator.accepts_of_type_eq {v w : Validator} (h : v.type = w.type)
    (hv : v.type.isNested = false) (x : Value) : v.accepts x = w.accepts x := by
  cases v with
  | literal _ | array _ | record _ _ | union _ | object _ => cases hv
  | _ => cases w <;> first | rfl | cases h

end Helipod
