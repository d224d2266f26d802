import Dynd.ParseScalar
import Dynd.SkipJson
/-!
# Parsing JSON into typed data

`parse_json` is a recursive descent over the destination type. The data of a
type is `Ty.Data`: a value that does not fit its type cannot be built. The
conversions of the leaf types that are not modelled here (floats, dates, times,
types, strings in other encodings) are a parameter, `External`.
-/
namespace Dynd.Json
open Lib Parse

/-! ## Types and their data -/

inductive TextKind where
  | string_kind
  | datetime_kind
  | type_kind
deriving DecidableEq, Repr

/-- The leaf types with a conversion from text of their own, and their missing
values: a type without one has no `assign_na`, and cannot be an option. -/
structure External where
  Real : Type
  Text : Type
  RealData : Real → Type
  TextData : Text → Type
  string_to_real : (id : Real) → List UInt8 → assign_error_mode → Except exception (RealData id)
  set_from_utf8_string : (id : Text) → List UInt8 → assign_error_mode → Except exception (TextData id)
  realNA : (id : Real) → Option (RealData id)
  textNA : (id : Text) → Option (TextData id)
  kind : Text → TextKind

/-- The leaf types that options are made of. -/
inductive Scalar (ext : External) where
  | bool
  | int (k : int_type_id)
  | real (id : ext.Real)
  | text (id : ext.Text)

/-- The destination types. Field names are the bytes of a UTF-8 string. -/
inductive Ty (ext : External) where
  | scalar (s : Scalar ext)
  | string
  | option (s : Scalar ext)
  | fixed_dim (n : ℕ) (element_tp : Ty ext)
  | var_dim (element_tp : Ty ext)
  | struct (n : ℕ) (field_names : Fin n → List UInt8) (field_types : Fin n → Ty ext)

/-- `DYND_INT8_NA` … `DYND_INT128_NA`: the smallest integer. The unsigned types have none. -/
def intNA (k : int_type_id) : Option k.Data := if k.signed then some (BitVec.intMin k.bits) else none

/-- An option holds the data of its value type, where that has a missing value. -/
structure WithNA {D : Type} (na : Option D) where
  data : D
  hasNA : na.isSome = true

namespace Scalar
variable {ext : External}

def Data : Scalar ext → Type
  | bool => Bool
  | int k => k.Data
  | real id => ext.RealData id
  | text id => ext.TextData id

/-- The missing bool is the byte 2. -/
def OptionData : Scalar ext → Type
  | bool => Option Bool
  | int k => WithNA (intNA k)
  | real id => WithNA (ext.realNA id)
  | text id => WithNA (ext.textNA id)

end Scalar

/-- The data of a type. -/
def Ty.Data {ext : External} : Ty ext → Type
  | scalar s => s.Data
  | string => List UInt8
  | option s => s.OptionData
  | fixed_dim n t => Fin n → t.Data
  | var_dim t => List t.Data
  | struct n _ types => (i : Fin n) → (types i).Data

/-! ## Errors -/

/-- What a parse throws: a parse error with its position, an exception given a
position on its way out, an exception as it was thrown, or the parse error
"object dict does not contain the field … as required by the data type". -/
inductive json_error where
  | parse (e : parse_error)
  | wrapped (position : List UInt8) (e : exception)
  | thrown (e : exception)
  | missing_field (position name : List UInt8)
deriving DecidableEq, Repr

abbrev Parser (α : Type) : Type := List UInt8 → Except json_error (α × List UInt8)

/-- The scanners throw parse errors. -/
def scan {α : Type} (x : Except parse_error α) : Except json_error α := x.mapError .parse

/-- Outside of a `try`. -/
def convert {α : Type} (x : Except exception α) : Except json_error α := x.mapError .thrown

/-- `try { … } catch (const std::exception &e) { throw json_parse_error(position, e.what(), tp); }` -/
def convertAt {α : Type} (position : List UInt8) (x : Except exception α) : Except json_error α :=
  x.mapError (.wrapped position)

/-- `throw json_parse_error(position, message, tp)` -/
def fail {α : Type} (position : List UInt8) (message : String) : Except json_error α := .error (.parse ⟨position, message⟩)

/-! ## Scalars -/

section
variable {ext : External} (errmode : assign_error_mode)

def parse_bool_json : Parser Bool := fun rbegin =>
  match parse_token trueToken rbegin with
  | some begin => .ok (true, begin)
  | none =>
  match parse_token falseToken rbegin with
  | some begin => .ok (false, begin)
  | none =>
  match parse_token nullToken rbegin with
  | some begin => if errmode ≠ .nocheck then fail rbegin "expected a boolean true or false" else .ok (false, begin)
  | none =>
  match parse_json_number_no_ws rbegin with
  | some (n, begin) =>
    if n = [ch '0'] then .ok (false, begin)
    else if n.length = 1 && (n = [ch '1'] || errmode = .nocheck) then .ok (true, begin)
    else fail rbegin "expected a boolean true or false"
  | none => do
    match ← scan (parse_doublequote_string_no_ws rbegin) with
    | some q =>
      let value ← convert (do string_to_bool (← q.text) errmode)
      return (value, q.rest)
    | none => fail rbegin "expected a boolean true or false"

/-- `string_to_number` is the conversion to the type. -/
def parse_number_json {D : Type} (string_to_number : List UInt8 → Except exception D) : Parser D := fun rbegin =>
  match parse_json_number_no_ws rbegin with
  | some (n, begin) => do
    let value ← convert (string_to_number n)
    return (value, begin)
  | none => do
    match ← scan (parse_doublequote_string_no_ws rbegin) with
    | some q =>
      let value ← convertAt rbegin <|
        if !q.escaped then string_to_number q.str
        else do
          -- the unescaped string is not used
          let _s ← unescape_string q.str
          string_to_number q.str
      return (value, q.rest)
    | none => fail rbegin "expected a number"

/-- `set` is the type's `set_from_utf8_string`. -/
def parse_string_json {D : Type} (set : List UInt8 → Except exception D) : Parser D := fun rbegin => do
  let begin := skip_whitespace rbegin
  match ← scan (parse_doublequote_string_no_ws begin) with
  | some q =>
    let value ← convertAt begin (do set (← q.text))
    return (value, q.rest)
  | none => fail begin "expected a string"

/-- The string is unescaped before the `try`. -/
def parse_datetime_json {D : Type} (set : List UInt8 → Except exception D) : Parser D := fun rbegin => do
  let begin := skip_whitespace rbegin
  match ← scan (parse_doublequote_string_no_ws begin) with
  | some q =>
    let val ← convert q.text
    let value ← convertAt begin (set val)
    return (value, q.rest)
  | none => fail begin "expected a string"

/-- `set` is the constructor of a type from its datashape. -/
def parse_type {D : Type} (set : List UInt8 → Except exception D) : Parser D := parse_datetime_json set

/-! ## Options -/

/-- Where the value type has a missing value, its data is the option's. -/
def instantiate {D : Type} {na : Option D} (x : Except exception D) : Except exception (WithNA na) :=
  if h : na.isSome = true then (WithNA.mk · h) <$> x else .error ⟨"cannot instantiate data with type", []⟩

def assignNA {D : Type} {na : Option D} : Except exception (WithNA na) :=
  if h : na.isSome = true then .ok ⟨na.get h, h⟩ else .error ⟨"cannot instantiate data with type", []⟩

/-- `option_type::assign_na`. -/
def assign_na : (s : Scalar ext) → Except exception s.OptionData
  | .bool => .ok (none : Option Bool)
  | .int k => @assignNA _ (intNA k)
  | .real id => @assignNA _ (ext.realNA id)
  | .text id => @assignNA _ (ext.textNA id)

/-- `option_type::set_from_utf8_string`. -/
def option_set_from_utf8_string : (s : Scalar ext) → List UInt8 → Except exception s.OptionData
  | .bool, str =>
    if matches_option_type_na_token str then assign_na (.bool : Scalar ext)
    else some <$> string_to_bool str errmode
  | .int k, str =>
    if matches_option_type_na_token str then assign_na (.int k : Scalar ext)
    else @instantiate _ (intNA k) (string_to_number k str errmode)
  | .real id, str =>
    if matches_option_type_na_token str then assign_na (.real id)
    else @instantiate _ (ext.realNA id) (ext.string_to_real id str errmode)
  | .text id, str =>
    if ext.kind id ≠ .string_kind && matches_option_type_na_token str then assign_na (.text id)
    else @instantiate _ (ext.textNA id) (ext.set_from_utf8_string id str errmode)

/-- The branch of `parse_option_json` for a bool that is no string. -/
def parse_option_bool : Parser (Option Bool) := fun begin =>
  match parse_token trueToken begin with
  | some begin => .ok (some true, begin)
  | none =>
  match parse_token falseToken begin with
  | some begin => .ok (some false, begin)
  | none =>
  match parse_json_number_no_ws begin with
  | some (n, begin) =>
    if n = [ch '1'] then .ok (some true, begin)
    else if n = [ch '0'] then .ok (some false, begin)
    else fail begin "expected a boolean"
  | none => fail begin "expected a boolean"

/-- The branch of `parse_option_json` for a number that is no string. -/
def parse_option_number {D : Type} (string_to_number : List UInt8 → Except exception D) : Parser D := fun begin =>
  match parse_json_number_no_ws begin with
  | some (n, begin) => do
    let value ← convert (string_to_number n)
    return (value, begin)
  | none => fail begin "expected a number"

/-- The branches of `parse_option_json` after the string. -/
def parse_option_value : (s : Scalar ext) → Parser s.OptionData
  | .bool => parse_option_bool
  | .int k => parse_option_number fun str => @instantiate _ (intNA k) (string_to_number k str errmode)
  | .real id => parse_option_number fun str => @instantiate _ (ext.realNA id) (ext.string_to_real id str errmode)
  | .text _ => fun begin => fail begin "expected a string"

def parse_option_json (s : Scalar ext) : Parser s.OptionData := fun begin =>
  let begin := skip_whitespace begin
  match parse_token nullToken begin with
  | some begin => do
    let value ← convert (assign_na s)
    return (value, begin)
  | none => do
    match ← scan (parse_doublequote_string_no_ws begin) with
    | some q =>
      let value ← convertAt begin (do option_set_from_utf8_string errmode s (← q.text))
      return (value, q.rest)
    | none => parse_option_value errmode s begin

end

/-! ## Lists -/

/-- A comma is missing where `i < n - 1 && !parse_token(begin, end, ",")`. -/
def parseComma (message : String) (last : Bool) (begin : List UInt8) : Except json_error (List UInt8) :=
  if last then .ok begin else scan (expect (parse_token [ch ','] begin) ⟨begin, message⟩)

/-- The values between the brackets of a list of known length: `for (i = 0; i < n; ++i)`. -/
def listLoop (message : String) : (n : ℕ) → {V : Fin n → Type} → ((i : Fin n) → Parser (V i)) → Parser ((i : Fin n) → V i)
  | 0, _, _, begin => .ok (fun i => i.elim0, begin)
  | n + 1, _, el, begin => do
    let (v, begin) ← el 0 begin
    let begin ← parseComma message (n = 0) begin
    let (vs, begin) ← listLoop message n (fun i => el i.succ) begin
    return (Fin.cons v vs, begin)

def parse_strided_dim_json {D : Type} (n : ℕ) (el : Parser D) : Parser (Fin n → D) := fun begin => do
  let begin ← scan (expect (parse_token [ch '['] begin) ⟨begin, "expected list starting with '['"⟩)
  let (v, begin) ← listLoop "array is too short, expected ',' list item separator" n (fun _ => el) begin
  let begin ← scan (expect (parse_token [ch ']'] begin) ⟨begin, "array is too long, expected list terminator ']'"⟩)
  return (v, begin)

/-- `for (;;)`: each round after the first one has read a comma. -/
def varLoop {D : Type} (el : Parser D) : ℕ → Parser (List D)
  | 0, begin => fail begin "out of fuel"
  | fuel + 1, begin => do
    let (v, begin) ← el begin
    match parse_token [ch ','] begin with
    | some begin =>
      let (vs, begin) ← varLoop el fuel begin
      return (v :: vs, begin)
    | none => return ([v], begin)

def parse_var_dim_json {D : Type} (el : Parser D) : Parser (List D) := fun begin => do
  let begin ← scan (expect (parse_token [ch '['] begin) ⟨begin, "expected array starting with '['"⟩)
  match parse_token [ch ']'] begin with
  | some begin => return ([], begin)
  | none =>
    let (v, begin) ← varLoop el (begin.length + 1) begin
    let begin ← scan (expect (parse_token [ch ']'] begin) ⟨begin, "expected array separator ',' or terminator ']'"⟩)
    return (v, begin)

/-! ## Structs -/

section
variable {n : ℕ} {V : Fin n → Type} (names : Fin n → List UInt8) (el : (i : Fin n) → Parser (V i))

/-- `base_struct_type::get_field_index`: -1 for an empty name. -/
def get_field_index (name : List UInt8) : Option (Fin n) :=
  if 0 < name.length then (List.finRange n).find? (fun i => names i = name) else none

/-- One name and the colon after it. -/
def parseName : Parser (List UInt8) := fun begin => do
  let begin := skip_whitespace begin
  let q ← scan (do expect (← parse_doublequote_string_no_ws begin) ⟨begin, "expected string for name in object dict"⟩)
  let begin ← scan (expect (parse_token [ch ':'] q.rest)
    ⟨q.rest, "expected ':' separating name from value in object dict"⟩)
  let name ← convert q.text
  return (name, begin)

/-- The value after a name: it goes into the field of that name, or is skipped.
`data` is what the fields have been set to. -/
def parseField (data : (i : Fin n) → Option (V i)) (name begin : List UInt8) :
    Except json_error (((i : Fin n) → Option (V i)) × List UInt8) :=
  match get_field_index names name with
  | none => (data, ·) <$> scan (skip_json_value begin)
  | some i => (fun x => (Function.update data i (some x.1), x.2)) <$> el i begin

/-- The loop over the members. -/
def objectLoop : ℕ → ((i : Fin n) → Option (V i)) → Parser ((i : Fin n) → Option (V i))
  | 0, _, begin => fail begin "out of fuel"
  | fuel + 1, data, begin => do
    let (name, begin) ← parseName begin
    let (data, begin) ← parseField names el data name begin
    match parse_token [ch ','] begin with
    | some begin => objectLoop fuel data begin
    | none => return (data, begin)

/-- Each field has to be populated: the first one that is not is named in the error. -/
def complete (position : List UInt8) (data : (i : Fin n) → Option (V i)) : Except json_error ((i : Fin n) → V i) :=
  if h : ∀ i, (data i).isSome = true then .ok fun i => (data i).get (h i)
  else .error (.missing_field position (((List.finRange n).find? fun i => (data i).isNone).elim [] names))

/-- What follows the opening brace. -/
def parseMembers : Parser ((i : Fin n) → Option (V i)) := fun begin =>
  match parse_token [ch '}'] begin with
  | some begin => .ok (fun _ => none, begin)
  | none => do
    let (data, begin) ← objectLoop names el (begin.length + 1) (fun _ => none) begin
    let begin ← scan (expect (parse_token [ch '}'] begin)
      ⟨begin, "expected object dict separator ',' or terminator '\x7d'"⟩)
    return (data, begin)

/-- `none` when there is no opening brace. -/
def parse_struct_json_from_object (saved_begin : List UInt8) : Option (Except json_error (((i : Fin n) → V i) × List UInt8)) :=
  match parse_token [ch '{'] saved_begin with
  | none => none
  | some begin => some do
    let (data, begin) ← parseMembers names el begin
    let value ← complete names (skip_whitespace saved_begin) data
    return (value, begin)

/-- `none` when there is no opening bracket. -/
def parse_tuple_json_from_list (begin : List UInt8) : Option (Except json_error (((i : Fin n) → V i) × List UInt8)) :=
  match parse_token [ch '['] begin with
  | none => none
  | some begin => some do
    let (v, begin) ← listLoop "expected list item separator ','" n (fun i begin => el i (skip_whitespace begin)) begin
    let begin ← scan (expect (parse_token [ch ']'] begin) ⟨begin, "expected end of list ']'"⟩)
    return (v, begin)

def parse_struct_json : Parser ((i : Fin n) → V i) := fun begin =>
  match parse_struct_json_from_object names el begin with
  | some out => out
  | none =>
    match parse_tuple_json_from_list el begin with
    | some out => out
    | none => fail begin "expected object dict starting with '\x7b' or list with '['"

end

/-! ## The parser -/

section
variable {ext : External} (errmode : assign_error_mode)

/-- The cases of `parse_json` for a value that is no list and no struct. -/
def parse_scalar_json : (s : Scalar ext) → Parser s.Data
  | .bool => parse_bool_json errmode
  | .int k => parse_number_json fun str => string_to_number k str errmode
  | .real id => parse_number_json fun str => ext.string_to_real id str errmode
  | .text id =>
    match ext.kind id with
    | .string_kind => parse_string_json fun str => ext.set_from_utf8_string id str errmode
    | .datetime_kind => parse_datetime_json fun str => ext.set_from_utf8_string id str errmode
    | .type_kind => parse_type fun str => ext.set_from_utf8_string id str errmode

/-- The static `parse_json`: one value, from `begin` on. -/
def parse_json_value : (tp : Ty ext) → Parser tp.Data
  | .scalar s => fun begin => parse_scalar_json errmode s (skip_whitespace begin)
  | .string => fun begin => parse_string_json (Parse.set_from_utf8_string errmode) (skip_whitespace begin)
  | .option s => fun begin => parse_option_json errmode s (skip_whitespace begin)
  | .fixed_dim n t => fun begin => parse_strided_dim_json n (parse_json_value t) (skip_whitespace begin)
  | .var_dim t => fun begin => parse_var_dim_json (parse_json_value t) (skip_whitespace begin)
  | .struct _ names types => fun begin =>
    parse_struct_json names (fun i => parse_json_value (types i)) (skip_whitespace begin)

/-- `dynd::parse_json`: one value, and the end of the text. -/
def parse_json (tp : Ty ext) (json : List UInt8) : Except json_error tp.Data := do
  let (v, begin) ← parse_json_value errmode tp json
  let begin := skip_whitespace begin
  if begin ≠ [] then fail begin "unexpected trailing JSON text" else return v

end

end Dynd.Json
