import Dynd.Lib.ChunkIterator
import Dynd.StringAssign
/-!
# Iterating over a string in another encoding

`make_string_iter` and the iterators it makes: the strided one over the data
or over a copy, and the one that transcodes into a buffer. Both keep what they
know in the slots of a `dim_iter`.
-/
namespace Dynd.Transcode
open Lib StringEncodings Parse

/-- How a call fails. `overrun` is a store outside the buffer, `endless` a loop that stopped moving. -/
inductive IterFail where
  | threw (e : TranscodeError)
  | overrun
  | divide_by_zero
  | endless
deriving DecidableEq, Repr

/-! ## The strided iterator -/

/-- `custom[0]` and `custom[1]`, and where the chunk starts: `none` for a pointer that is NULL. -/
structure strided_dim_iter where
  data : Option (List UInt8)
  dim_size : ℕ
  data_stride : ℕ
  data_ptr : Option ℕ
deriving DecidableEq, Repr

namespace strided_dim_iter

def elements (it : strided_dim_iter) (first count : ℕ) : List UInt8 :=
  ((it.data.getD []).drop (first * it.data_stride)).take (count * it.data_stride)

def next (it : strided_dim_iter) : Bool × List UInt8 × strided_dim_iter :=
  match it.data_ptr with
  | none => (true, it.elements 0 it.dim_size, { it with data_ptr := it.data.map fun _ => 0 })
  -- there is always just one chunk
  | some _ => (false, [], it)

def seek (it : strided_dim_iter) (i : ℕ) : List UInt8 × strided_dim_iter :=
  if i < it.dim_size then (it.elements i (it.dim_size - i), { it with data_ptr := some (i * it.data_stride) })
  else ([], { it with data_ptr := none })

end strided_dim_iter

/-! ## The transcoding iterator -/

/-- What `malloc` returns when it does not fail. -/
structure MallocPtr where
  address : ℕ
  nonnull : 0 < address
  aligned : 16 ∣ address

/-- The slots of the iterator. `data` are the bytes from `data_begin` to `data_end`, `past` the memory
after them, and `space` the bytes of the buffer. -/
structure transcode_string_iter where
  data : List UInt8
  past : List UInt8
  buf : MallocPtr
  space : ℕ
  var_encoding : Bool
  /-- `custom[0]` -/
  index : ℕ
  /-- `custom[1]` -/
  size : ℕ
  /-- `custom[3]` -/
  charsize : ℕ
  /-- `custom[4]` -/
  buffer_end : ℕ
  /-- `custom[5]` -/
  next_fn : CheckedDecoder
  /-- `custom[6]` -/
  append_fn : Encoder

inductive Filled where
  | done (moved : ℕ) (bytes : List UInt8)
  | threw (e : TranscodeError)
  | overrun
deriving DecidableEq, Repr

/-- `while (begin < end && buf_begin + 5 <= buf_end)`, where `buf_size` is `buf_end - buf_begin` at first. -/
def buffer_loop (next_fn : CheckedDecoder) (append_fn : Encoder) (buf_size space : ℕ) :
    ℕ → CharRange → ℕ → List UInt8 → Option Filled
  | 0, _, _, _ => none
  | fuel + 1, r, moved, out =>
    if r.bytes ≠ [] ∧ out.length + 5 ≤ buf_size then
      match convert_next next_fn append_fn r (buf_size - out.length) (space - out.length) with
      | .threw e => some (.threw e)
      | .overrun => some .overrun
      | .stored n bytes => buffer_loop next_fn append_fn buf_size space fuel (r.advance n) (moved + n) (out ++ bytes)
    else some (.done moved out)

/-- The iterator at `begin + o` in memory, with `end = begin + n`. -/
def view (mem : List UInt8) (n o : ℕ) : CharRange := ⟨(mem.take n).drop o, mem.drop n⟩

namespace transcode_string_iter

/-- A loop that reads text moves on in every round, and makes no more rounds than there are bytes. -/
def next (it : transcode_string_iter) : Except IterFail (Bool × List UInt8 × transcode_string_iter) :=
  if it.index < it.size then
    -- buf_end = buf_begin + custom[4]
    match buffer_loop it.next_fn it.append_fn it.buffer_end it.space (it.data.length + 1)
      (view (it.data ++ it.past) it.size it.index) 0 [] with
    | none => .error .endless
    | some (.threw e) => .error (.threw e)
    | some .overrun => .error .overrun
    | some (.done moved bytes) =>
      let data_elcount := bytes.length / it.charsize
      .ok (true, bytes.take (data_elcount * it.charsize), { it with index := it.index + moved })
  else .ok (false, [], it)

def seek_fixed_encoding (it : transcode_string_iter) (i : ℕ) : Except IterFail (List UInt8 × transcode_string_iter) :=
  Prod.snd <$> next { it with index := i * it.charsize }

def seek_var_encoding (it : transcode_string_iter) (i : ℕ) : Except IterFail (List UInt8 × transcode_string_iter) :=
  if i = 0 then Prod.snd <$> next { it with index := 0 }
  else .error (.threw (.runtime_error
    "dynd string iterator is only restartable, not seekable, provided index must be 0"))

def seek (it : transcode_string_iter) (i : ℕ) : Except IterFail (List UInt8 × transcode_string_iter) :=
  if it.var_encoding then it.seek_var_encoding i else it.seek_fixed_encoding i

end transcode_string_iter

/-! ## Making an iterator -/

inductive dim_iter where
  | strided (it : strided_dim_iter)
  | transcode (it : transcode_string_iter)

namespace dim_iter

def next : dim_iter → Except IterFail (Bool × List UInt8 × dim_iter)
  | .strided it => .ok (it.next.1, it.next.2.1, .strided it.next.2.2)
  | .transcode it => (fun (more, chunk, it) => (more, chunk, .transcode it)) <$> it.next

def seek : dim_iter → ℕ → Except IterFail (List UInt8 × dim_iter)
  | .strided it, i => .ok ((it.seek i).1, .strided (it.seek i).2)
  | .transcode it, i => (fun (chunk, it) => (chunk, .transcode it)) <$> it.seek i

/-- The flags: every iterator is restartable, and these are seekable. -/
def is_seekable : dim_iter → Bool
  | .strided _ => true
  | .transcode it => !it.var_encoding

/-- The calls as a caller sees them. -/
def calls (it : dim_iter) : ChunkIterator dim_iter UInt8 where
  next := fun s => s.next.toOption
  seek := fun s i => (s.seek i).toOption
  seekable := fun i => i = 0 ∨ it.is_seekable = true

end dim_iter

def is_variable_length_string_encoding : string_encoding_t → Bool
  | .utf_8 | .utf_16 => true
  | _ => false

def make_empty_dim_iter : dim_iter := .strided ⟨none, 0, 0, none⟩

/-- A string with the same encoding, or the copy that was made in the other. -/
def make_strided_string_iter (encoding : string_encoding_t) (data : List UInt8) : dim_iter :=
  let datasize := data.length / char_size encoding
  if datasize = 0 then make_empty_dim_iter else .strided ⟨some data, datasize, char_size encoding, none⟩

/-- `tmp.val_assign`: the string copied into a new one with the iterator's encoding. -/
def copy_string (iter_encoding data_encoding : string_encoding_t) (src : CharRange) (errmode : assign_error_mode) :
    Except IterFail (List UInt8) := do
  let ck ← (make_blockref_string_assignment_kernel iter_encoding data_encoding false errmode).mapError .threw
  match ck.single none (some src) (src.bytes.length + 1) with
  | some (.done dst) => .ok (dst.getD [])
  | some (.threw e) => .error (.threw e)
  | some .overrun => .error .overrun
  | none => .error .endless

/-- `make_string_iter`, where `buf` is what the call of `malloc` returns. -/
def make_string_iter (iter_encoding data_encoding : string_encoding_t) (src : CharRange) (buffer_max_mem : ℕ) (buf : MallocPtr)
    (errmode : assign_error_mode) : Except IterFail dim_iter := do
  if iter_encoding = .invalid then
    throw (.threw (.runtime_error
      "dynd char type requires fixed-size encoding, unknown string encoding is not supported"))
  if char_size data_encoding = 0 then throw .divide_by_zero
  let datasize := src.bytes.length / char_size data_encoding
  if datasize = 0 then return make_empty_dim_iter
  else if iter_encoding = data_encoding then return .strided ⟨some src.bytes, datasize, char_size iter_encoding, none⟩
  else
    let charsize := char_size iter_encoding
    if charsize = 0 then throw .divide_by_zero
    let bufsize := buffer_max_mem / charsize
    if !is_variable_length_string_encoding iter_encoding && datasize ≤ bufsize then
      let tmp ← copy_string iter_encoding data_encoding src errmode
      return make_strided_string_iter iter_encoding tmp
    let next_fn ← (get_next_unicode_codepoint_function data_encoding errmode).mapError IterFail.threw
    let append_fn ← (get_append_unicode_codepoint_function iter_encoding errmode).mapError IterFail.threw
    return .transcode {
      data := src.bytes
      past := src.past
      buf := buf
      space := bufsize * charsize
      var_encoding := is_variable_length_string_encoding data_encoding
      index := 0
      size := datasize
      charsize := charsize
      buffer_end := buf.address + bufsize * charsize
      next_fn := next_fn
      append_fn := append_fn }

end Dynd.Transcode
