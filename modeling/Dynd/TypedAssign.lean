import Dynd.AssignmentKernels
import Dynd.OptionAssign
import Dynd.Lib.MapM
/-!
# Assignment of typed data

`make_assignment_kernel` for types of bools, integers, options, fixed
dimensions and structs, and the values of these types. `type.copies` says what
it makes for two types that are equal.
-/
namespace Dynd.TypedAssign

open Lib Parse OptionAssign

/-! ## Types and values -/

inductive builtin_type where
  | bool
  | int (k : int_type_id)
deriving DecidableEq

mutual

inductive type where
  | builtin (tp : builtin_type)
  | option (value_tp : type)
  | fixed_dim (dim_size : ℕ) (element_tp : type)
  /-- The object that the type points to, which has these fields. -/
  | struct (object : ℕ) (fields : fields)

inductive fields where
  | nil
  | cons (name : List UInt8) (tp : type) (rest : fields)

end

/-- A bool is its byte. -/
inductive data where
  | scalar (v : ℤ)
  | array (elements : List data)
  | record (values : List data)

def type.get_ndim : type → ℕ
  | .builtin _ => 0
  | .option value_tp => value_tp.get_ndim
  | .fixed_dim _ element_tp => element_tp.get_ndim + 1
  | .struct _ _ => 0

def fields.length : fields → ℕ
  | .nil => 0
  | .cons _ _ rest => rest.length + 1

/-- `base_struct_type::get_field_index`, with the field's type. No empty name is looked for. -/
def fields.get_field (name : List UInt8) : fields → Option (ℕ × type)
  | .nil => none
  | .cons name' tp rest =>
    if name ≠ [] ∧ name' = name then some (0, tp) else (rest.get_field name).map fun p => (p.1 + 1, p.2)

mutual

/-- `operator==` -/
def type.same : type → type → Bool
  | .builtin a, .builtin b => a = b
  | .option a, .option b => a.same b
  | .fixed_dim m a, .fixed_dim n b => m = n && a.same b
  | .struct _ a, .struct _ b => a.same b
  | _, _ => false

def fields.same : fields → fields → Bool
  | .nil, .nil => true
  | .cons name tp rest, .cons name' tp' rest' => name = name' && tp.same tp' && rest.same rest'
  | _, _ => false

end

/-! ## Kernels -/

/-- The two entries. The strided one counts places in elements; what it assigns is at the places from `0` on. -/
structure kernel where
  single : data → Except Fault data
  strided : (source : ℤ → Option data) → (src_stride : ℤ) → (count : ℕ) → (ℤ → data) → Except Fault (ℤ → data)

def store (p : ℤ × ℤ) (d : ℤ → data) (v : data) : ℤ → data := fun a => if a = p.1 then v else d a

/-- `base_kernel`'s strided entry, which calls the single one. -/
def base_kernel (single : data → Except Fault data) : kernel where
  single := single
  strided source src_stride count d :=
    Lib.strided (fun p d => do
      let v ← OptionAssign.read source p.2
      store p d <$> single v) ((0, 0) : ℤ × ℤ) (1, src_stride) count d

/-- A kernel of integers, by their values. -/
def on_value {dst_type src_type : int_type_id} (k : Assign.Kernel dst_type src_type) (s : ℤ) : Except Fault ℤ :=
  match k 0 (BitVec.ofInt src_type.bits s) with
  | (d, none) => .ok (dst_type.value d)
  | (_, some _) => .error .raised

/-- `make_builtin_type_assignment_kernel`, and the copy that goes before it where the types are one. -/
def make_builtin_assignment_kernel (errmode : assign_error_mode) (dst_tp src_tp : builtin_type) :
    Except Fault (ℤ → Except Fault ℤ) :=
  if dst_tp = src_tp then .ok .ok
  else if errmode = .default then .error .raised
  else
    match dst_tp, src_tp with
    | .bool, .int _ =>
      .ok fun s =>
        if errmode = .nocheck then .ok (if s = 0 then 0 else 1)
        else if s = 0 ∨ s = 1 then .ok s
        else .error .raised
    | .int dst_type, .int src_type =>
      match Assign.make_builtin_type_assignment_kernel dst_type src_type errmode with
      | .error _ => .error .raised
      | .ok k => .ok (on_value k)
    | _, .bool => .ok .ok

def scalar (f : ℤ → Except Fault ℤ) : data → Except Fault data
  | .scalar v => .scalar <$> f v
  | _ => .error .outside

/-- The available values. -/
def is_avail : builtin_type → ℤ → Bool
  | .bool, v => v ≤ 1
  | .int k, v => v ≠ k.lo

def is_avail_data (tp : builtin_type) : data → Bool
  | .scalar v => is_avail tp v
  | _ => false

def na : builtin_type → ℤ
  | .bool => 2
  | .int k => k.lo

/-- The types that an option of them can be instantiated. -/
def has_avail : builtin_type → Bool
  | .bool => true
  | .int k => k.signed

def option_to_option_ck (dst_tp src_tp : builtin_type) (value_assign : ℤ → Except Fault ℤ) : kernel where
  single v := if is_avail_data src_tp v then scalar value_assign v else .ok (.scalar (na dst_tp))
  strided source src_stride count d :=
    OptionAssign.option_to_option_ck.strided
      { is_avail := is_avail_data src_tp
        value_assign dst v d := (store (dst, 0) d <$> scalar value_assign v).toOption
        assign_na dst d := some (store (dst, 0) d (.scalar (na dst_tp))) } source 0 1 0 src_stride count d

def option_to_value_ck (src_tp : builtin_type) (value_assign : data → Except Fault data) : kernel where
  single v := if is_avail_data src_tp v then value_assign v else .error .raised
  strided source src_stride count d :=
    OptionAssign.option_to_value_ck.strided
      { is_avail := is_avail_data src_tp
        value_assign dst v d := (store (dst, 0) d <$> value_assign v).toOption
        assign_na _ d := some d } source 0 1 0 src_stride count d

/-- `elwise_ck` for one fixed dimension. -/
def elwise_ck (dim_size : ℕ) (src_stride : ℤ) (source : data → ℤ → Option data) (child : kernel) : kernel :=
  base_kernel fun v => do
    let d ← child.strided (source v) src_stride dim_size fun _ => .scalar 0
    return .array ((List.range dim_size).map fun i : ℕ => d i)

/-- The source that every element is assigned. -/
def repeated (v : data) (a : ℤ) : Option data := if a = 0 then some v else none

def elements (v : data) (a : ℤ) : Option data :=
  match v with
  | .array es => if 0 ≤ a then es[a.toNat]? else none
  | _ => none

/-- The stride of an array's own data, counted in elements. -/
def fixed_stride (dim_size : ℕ) : ℤ := if 1 < dim_size then 1 else 0

/-- The field of a source that `tuple_unary_op_ck` reads. -/
def field_of (i : ℕ) : data → Option data
  | .record values => values[i]?
  | _ => none

/-- One turn of the loop of `tuple_unary_op_ck`. -/
def assign_field (v : data) (item : (data → Option data) × kernel) : Except Fault data :=
  match item.1 v with
  | some w => item.2.single w
  | none => .error .outside

def tuple_unary_op_ck (m_fields : List ((data → Option data) × kernel)) : kernel :=
  base_kernel fun v => .record <$> m_fields.mapM (assign_field v)

/-- `make_assignment_kernel` for a destination that is builtin. -/
def make_to_builtin (errmode : assign_error_mode) (dst_tp : builtin_type) : type → Except Fault kernel
  | .builtin src_tp => (base_kernel ∘ scalar) <$> make_builtin_assignment_kernel errmode dst_tp src_tp
  | .option (.builtin src_tp) =>
    (option_to_value_ck src_tp ∘ scalar) <$> make_builtin_assignment_kernel errmode dst_tp src_tp
  | _ => .error .raised

mutual

def make_assignment_kernel (errmode : assign_error_mode) : (dst_tp src_tp : type) → Except Fault kernel
  | .builtin dst_tp, src_tp => make_to_builtin errmode dst_tp src_tp
  | .option (.builtin dst_tp), .option (.builtin src_tp) =>
    option_to_option_ck dst_tp src_tp <$> make_builtin_assignment_kernel errmode dst_tp src_tp
  | .option (.builtin dst_tp), .builtin src_tp => make_to_builtin errmode dst_tp (.builtin src_tp)
  -- no kernel of the list is for dimensions
  | .option _, _ => .error .raised
  | .fixed_dim n el, src_tp =>
    if src_tp.get_ndim < el.get_ndim + 1 then elwise_ck n 0 repeated <$> make_assignment_kernel errmode el src_tp
    else
      match src_tp with
      | .fixed_dim n' el' =>
        -- a broadcasting error
        if n' ≠ 1 ∧ n ≠ n' then .error .raised
        else elwise_ck n (fixed_stride n') elements <$> make_assignment_kernel errmode el el'
      | _ => .error .raised
  | .struct object fs, .struct object' fs' =>
    if object = object' then
      tuple_unary_op_ck <$> make_fields errmode (fun i _ tp => some (tp, field_of i)) fs 0
    else if fs.length ≠ fs'.length then .error .raised
    else
      tuple_unary_op_ck <$>
        make_fields errmode (fun _ name _ => (fs'.get_field name).map fun p => (p.2, field_of p.1)) fs 0
  | .struct _ fs, .builtin src_tp =>
    tuple_unary_op_ck <$> make_fields errmode (fun _ _ _ => some (.builtin src_tp, some)) fs 0
  | .struct _ fs, .option (.builtin src_tp) =>
    (fun m_fields => option_to_value_ck src_tp (tuple_unary_op_ck m_fields).single) <$>
      make_fields errmode (fun _ _ _ => some (.builtin src_tp, some)) fs 0
  | .struct _ _, _ => .error .raised

/-- The children of a `tuple_unary_op_ck`, with the source that is picked for each field. -/
def make_fields (errmode : assign_error_mode) (pick : ℕ → List UInt8 → type → Option (type × (data → Option data))) :
    fields → ℕ → Except Fault (List ((data → Option data) × kernel))
  | .nil, _ => .ok []
  | .cons name tp rest, i =>
    match pick i name tp with
    | none => .error .raised
    | some (src_tp, part) => do
      let child ← make_assignment_kernel errmode tp src_tp
      let children ← make_fields errmode pick rest (i + 1)
      return (part, child) :: children

end

/-- `typed_data_assign` -/
def typed_data_assign (errmode : assign_error_mode) (dst_tp src_tp : type) (v : data) : Except Fault data := do
  let k ← make_assignment_kernel errmode dst_tp src_tp
  k.single v

/-! ## Types and their values -/

mutual

/-- The type with its objects forgotten. -/
def type.erase : type → type
  | .builtin tp => .builtin tp
  | .option value_tp => .option value_tp.erase
  | .fixed_dim n el => .fixed_dim n el.erase
  | .struct _ fs => .struct 0 fs.erase

def fields.erase : fields → fields
  | .nil => .nil
  | .cons name tp rest => .cons name tp.erase rest.erase

end

def fields.names : fields → List (List UInt8)
  | .nil => []
  | .cons name _ rest => name :: rest.names

mutual

/-- No type of options refuses to be instantiated, or to be made. -/
def type.Storable : type → Prop
  | .builtin _ => True
  | .option (.builtin tp) => has_avail tp = true
  | .option (.fixed_dim _ el) => el.Storable
  | .option _ => False
  | .fixed_dim _ el => el.Storable
  | .struct _ fs => fs.Storable

def fields.Storable : fields → Prop
  | .nil => True
  | .cons _ tp rest => tp.Storable ∧ rest.Storable

end

mutual

/-- The fields of every struct have names, which tell them apart. -/
def type.Named : type → Prop
  | .builtin _ => True
  | .option value_tp => value_tp.Named
  | .fixed_dim _ el => el.Named
  | .struct _ fs => fs.names.Nodup ∧ [] ∉ fs.names ∧ fs.Named

def fields.Named : fields → Prop
  | .nil => True
  | .cons _ tp rest => tp.Named ∧ rest.Named

end

mutual

/-- There are no options of dimensions in the type. -/
def type.Copyable : type → Prop
  | .builtin _ => True
  | .option (.builtin _) => True
  | .option _ => False
  | .fixed_dim _ el => el.Copyable
  | .struct _ fs => fs.Copyable

def fields.Copyable : fields → Prop
  | .nil => True
  | .cons _ tp rest => tp.Copyable ∧ rest.Copyable

end

def builtin_type.Fits : builtin_type → ℤ → Prop
  | .bool, v => v = 0 ∨ v = 1
  | .int k, v => k.InRange v

/-- What the data of an option can be. -/
def builtin_type.FitsOption : builtin_type → ℤ → Prop
  | .bool, v => 0 ≤ v ∧ v < 256
  | .int k, v => k.InRange v

mutual

/-- The data is of the type. -/
def type.Fits : type → data → Prop
  | .builtin tp, .scalar v => tp.Fits v
  | .option (.builtin tp), .scalar v => tp.FitsOption v
  | .option (.fixed_dim n el), .array es => es.length = n ∧ ∀ e ∈ es, el.Fits e
  | .fixed_dim n el, .array es => es.length = n ∧ ∀ e ∈ es, el.Fits e
  | .struct _ fs, .record vs => fs.Fits vs
  | _, _ => False

def fields.Fits : fields → List data → Prop
  | .nil, [] => True
  | .cons _ tp rest, v :: vs => tp.Fits v ∧ rest.Fits vs
  | _, _ => False

end

/-! ## Types that are equal -/

mutual

theorem type.same_iff : ∀ {a b : type}, a.same b = true ↔ a.erase = b.erase
  | .builtin _, b => by cases b <;> simp [type.same, type.erase]
  | .option a, b => by
    cases b with
    | option b => simp [type.same, type.erase, @type.same_iff a b]
    | _ => simp [type.same, type.erase]
  | .fixed_dim n a, b => by
    cases b with
    | fixed_dim m b => simp [type.same, type.erase, @type.same_iff a b]
    | _ => simp [type.same, type.erase]
  | .struct _ fs, b => by
    cases b with
    | struct _ gs => simp [type.same, type.erase, @fields.same_iff fs gs]
    | _ => simp [type.same, type.erase]

theorem fields.same_iff : ∀ {fs gs : fields}, fs.same gs = true ↔ fs.erase = gs.erase
  | .nil, gs => by cases gs <;> simp [fields.same, fields.erase]
  | .cons name tp rest, gs => by
    cases gs with
    | nil => simp [fields.same, fields.erase]
    | cons name' tp' rest' =>
      simp [fields.same, fields.erase, @type.same_iff tp tp', @fields.same_iff rest rest', and_assoc]

end

/-! ## Runs -/

/-- The elements that a run leaves, when each step stores one. -/
theorem run_elements {P : Type} [AddCommMonoid P] {f : P → (ℤ → data) → Except Fault (ℤ → data)} {p s : P}
    {g : ℕ → Except Fault data} {n : ℕ} (h : ∀ i < n, ∀ d, f (p + i • s) d = store (i, 0) d <$> g i) (d : ℤ → data) :
    (fun d => (List.range n).map fun i : ℕ => d i) <$> Lib.strided f p s n d = (List.range n).mapM g := by
  induction n with
  | zero => rfl
  | succ n ih =>
    have hrun := ih fun i hi => h i (by omega)
    rw [Lib.strided_succ, List.range_succ, List.mapM_append, ← hrun]
    cases hd : Lib.strided f p s n d with
    | error e => rfl
    | ok d' =>
      rw [ok_bind, h n (by omega), map_ok, ok_bind, List.mapM_cons, List.mapM_nil]
      cases g n with
      | error e => rfl
      | ok v =>
        refine congrArg Except.ok ?_
        dsimp only
        rw [List.map_append]
        refine congrArg₂ _ (List.map_congr_left fun i hi => ?_) ?_
        · have hne : (i : ℤ) ≠ n := by
            have := List.mem_range.mp hi
            omega
          exact if_neg hne
        · exact congrArg (fun v => [v]) (if_pos rfl)

/-! ## Copies -/

/-- The element that a run reads for the element `i`. Every chunk of options starts with the first one again. -/
def type.start : type → ℕ → ℕ
  | .option (.builtin _), i => i % DYND_BUFFER_CHUNK_SIZE
  | _, i => i

/-- The run of options goes on after an available one at the end of its first chunk. -/
def type.overrun : type → List data → Bool
  | .option (.builtin tp), es =>
    DYND_BUFFER_CHUNK_SIZE < es.length && es[DYND_BUFFER_CHUNK_SIZE - 1]?.any (is_avail_data tp)
  | _, _ => false

mutual

/-- What an assignment to a destination of the same type comes to. -/
def type.copied : type → data → Except Fault data
  | .option (.builtin tp), .scalar v => .ok (.scalar (if is_avail tp v then v else na tp))
  | .fixed_dim _ el, .array es =>
    if el.overrun es then .error .outside
    else
      .array <$> (List.range es.length).mapM fun i =>
        match es[el.start i]? with
        | some e => el.copied e
        | none => .error .outside
  | .struct _ fs, .record vs => .record <$> fs.copied vs
  | _, v => .ok v

def fields.copied : fields → List data → Except Fault (List data)
  | .cons _ tp rest, v :: vs => do
    let d ← tp.copied v
    let ds ← rest.copied vs
    return d :: ds
  | _, _ => .ok []

end

/-- The kernel copies a value, and the elements of an array. -/
structure Copies (tp : type) (k : kernel) : Prop where
  single : ∀ v, tp.Fits v → k.single v = tp.copied v
  array : ∀ es : List data, (∀ e ∈ es, tp.Fits e) → ∀ d,
    (fun d : ℤ → data => (List.range es.length).map fun i : ℕ => d i) <$>
        k.strided (elements (.array es)) (fixed_stride es.length) es.length d =
      if tp.overrun es then .error .outside
      else (List.range es.length).mapM fun i =>
        match es[tp.start i]? with
        | some e => tp.copied e
        | none => .error .outside

theorem place_of_element {n i : ℕ} (h : i < n) : i • fixed_stride n = (i : ℤ) := by
  unfold fixed_stride
  split_ifs with hn
  · rw [nsmul_one]
  · rw [nsmul_zero]
    omega

theorem elements_eq {es : List data} (i : ℕ) : elements (.array es) (i : ℤ) = es[i]? := by
  unfold elements
  dsimp only
  rw [if_pos (by omega), Int.toNat_natCast]

/-- Kernels that assign one element after the other. -/
theorem copies_base {tp : type} {single : data → Except Fault data} (hstart : ∀ i, tp.start i = i)
    (hover : ∀ es, tp.overrun es = false) (h : ∀ v, tp.Fits v → single v = tp.copied v) :
    Copies tp (base_kernel single) := by
  refine ⟨h, fun es hes d => ?_⟩
  rw [hover, if_neg Bool.false_ne_true]
  refine run_elements (fun i hi d => ?_) d
  have hplace : ((0, 0) : ℤ × ℤ) + i • ((1 : ℤ), fixed_stride es.length) = ((i : ℤ), (i : ℤ)) := by
    rw [OptionAssign.place, place_of_element hi, nsmul_one, zero_add]
  rw [hplace, hstart, List.getElem?_eq_getElem hi]
  unfold OptionAssign.read
  rw [elements_eq, List.getElem?_eq_getElem hi]
  exact congrArg (Functor.map _) (h _ (hes _ (List.getElem_mem hi)))

section
variable {tp : builtin_type}

/-- The children of the kernel of an option's copies. -/
def option_children (tp : builtin_type) : children data (ℤ → data) where
  is_avail := is_avail_data tp
  value_assign dst v d := (store (dst, 0) d <$> scalar .ok v).toOption
  assign_na dst d := some (store (dst, 0) d (.scalar (na tp)))

theorem single_stores {source : ℤ → Option data} {p : ℤ × ℤ} {v : ℤ} (h : source p.2 = some (.scalar v)) (d : ℤ → data) :
    OptionAssign.option_to_option_ck.single (option_children tp) source p d =
      store (p.1, 0) d <$> (type.option (.builtin tp)).copied (.scalar v) := by
  have hread : src_is_avail (option_children tp) source p.2 = .ok (is_avail tp v) := by
    unfold src_is_avail OptionAssign.read
    rw [h]
    rfl
  cases hv : is_avail tp v with
  | true =>
    rw [hv] at hread
    rw [OptionAssign.option_to_option_ck.single_of_avail hread, type.copied, hv]
    unfold value_assign OptionAssign.read
    rw [h]
    rfl
  | false =>
    rw [hv] at hread
    rw [OptionAssign.option_to_option_ck.single_of_not_avail hread, type.copied, hv]
    rfl

theorem overrun_option (tp : builtin_type) (es : List data) : (type.option (.builtin tp)).overrun es =
    (DYND_BUFFER_CHUNK_SIZE < es.length && es[DYND_BUFFER_CHUNK_SIZE - 1]?.any (is_avail_data tp)) := rfl

theorem stored_ok {tp : builtin_type} {v : data} (hv : (type.option (.builtin tp)).Fits v) :
    ∃ z, v = .scalar z ∧ (type.option (.builtin tp)).copied v = .ok (.scalar (if is_avail tp z then z else na tp)) := by
  cases v with
  | scalar z => exact ⟨z, rfl, rfl⟩
  | array => cases hv
  | record => cases hv

/-- Options are copied in chunks. -/
theorem copies_option (tp : builtin_type) : Copies (.option (.builtin tp)) (option_to_option_ck tp tp .ok) := by
  refine ⟨fun v hv => ?_, fun es hes d => ?_⟩
  · obtain ⟨z, rfl, hz⟩ := stored_ok hv
    rw [hz]
    change (if is_avail tp z = true then _ else _) = _
    split_ifs <;> rfl
  have hscalar : ∀ i (hi : i < es.length), ∃ z, es[i]? = some (.scalar z) := by
    intro i hi
    obtain ⟨z, hz, -⟩ := stored_ok (hes _ (List.getElem_mem hi))
    exact ⟨z, by rw [List.getElem?_eq_getElem hi, hz]⟩
  set p : ℕ → Bool := fun i => (es[i]?.any (is_avail_data tp)) with hp
  have hpattern : ∀ i < es.length,
      src_is_avail (option_children tp) (elements (.array es)) (0 + i • fixed_stride es.length) = .ok (p i) := by
    intro i hi
    obtain ⟨z, hz⟩ := hscalar i hi
    unfold src_is_avail OptionAssign.read
    rw [zero_add, place_of_element hi, elements_eq, hp]
    dsimp only
    rw [hz]
    rfl
  -- a chunk's elements, each from where the first chunk has it
  have hsingle (i j : ℕ) (hj : j < es.length) (dst : ℤ) (d : ℤ → data) :
      OptionAssign.option_to_option_ck.single (option_children tp) (elements (.array es)) (dst, 0 + j • fixed_stride es.length) d =
        store (dst, 0) d <$> (match es[j]? with
          | some e => (type.option (.builtin tp)).copied e
          | none => .error .outside) := by
    obtain ⟨z, hz⟩ := hscalar j hj
    rw [@single_stores tp _ _ z, hz]
    dsimp only
    rw [zero_add, place_of_element hj, elements_eq, hz]
  change _ <$> OptionAssign.option_to_option_ck.strided (option_children tp) (elements (.array es)) 0 1 0 _ es.length d = _
  by_cases hover : DYND_BUFFER_CHUNK_SIZE < es.length ∧ p (DYND_BUFFER_CHUNK_SIZE - 1) = true
  · have hoverrun : (type.option (.builtin tp)).overrun es = true := by
      rw [overrun_option, decide_eq_true hover.1, Bool.true_and]
      exact hover.2
    rw [hoverrun, if_pos rfl]
    have hstride : fixed_stride es.length ≠ 0 := by
      have := hover.1
      unfold fixed_stride DYND_BUFFER_CHUNK_SIZE at *
      rw [if_pos (by omega)]
      decide
    obtain ⟨d', hd'⟩ : ∃ d', Lib.strided (OptionAssign.option_to_option_ck.single (option_children tp) (elements (.array es)))
        ((0, 0) : ℤ × ℤ) (1, fixed_stride es.length) DYND_BUFFER_CHUNK_SIZE d = .ok d' := by
      cases hrun : Lib.strided (OptionAssign.option_to_option_ck.single (option_children tp) (elements (.array es)))
          ((0, 0) : ℤ × ℤ) (1, fixed_stride es.length) DYND_BUFFER_CHUNK_SIZE d with
      | ok d' => exact ⟨d', rfl⟩
      | error e =>
        obtain ⟨i, hi, x, hx⟩ := error_of_strided hrun
        obtain ⟨z, hz⟩ := hscalar i (by have := hover.1; omega)
        rw [OptionAssign.place, hsingle i i (by have := hover.1; omega), hz] at hx
        cases hx
    rw [OptionAssign.option_to_option_ck.chunks_outside hpattern hover.1 hstride hover.2 hd']
    rfl
  · have hoverrun : (type.option (.builtin tp)).overrun es = false := by
      rw [overrun_option, Bool.and_eq_false_iff, decide_eq_false_iff_not]
      rcases not_and_or.mp hover with h | h
      · exact .inl h
      · exact .inr (Bool.not_eq_true _ ▸ h)
    rw [hoverrun, if_neg Bool.false_ne_true]
    have hchunks := OptionAssign.option_to_option_ck.chunks_spec 0 1 hpattern 0 es.length d le_rfl (by
      rcases not_and_or.mp hover with h | h
      · exact .inl (not_lt.mp h)
      · exact .inr (.inr (Bool.not_eq_true _ ▸ h)))
    rw [mul_zero, zero_nsmul, add_zero] at hchunks
    unfold OptionAssign.option_to_option_ck.strided
    rw [hchunks]
    refine run_elements (fun i hi d => ?_) d
    unfold OptionAssign.option_to_option_ck.restarted
    rw [show 0 + i • 1 = i by rw [smul_eq_mul, mul_one, zero_add], hsingle i _ ((Nat.mod_le _ _).trans_lt hi), nsmul_one,
      zero_add]
    rfl

end

/-! ## Types that are equal but for their objects -/

def fields.get_at : fields → ℕ → Option (List UInt8 × type)
  | .nil, _ => none
  | .cons name tp _, 0 => some (name, tp)
  | .cons _ _ rest, i + 1 => rest.get_at i

theorem fields.name_of_get_at : ∀ {fs : fields} {i : ℕ} {name : List UInt8} {tp : type}, fs.get_at i = some (name, tp) →
    name ∈ fs.names
  | .cons _ _ _, 0, _, _, h => by
    cases h
    exact List.mem_cons_self
  | .cons _ _ _, _ + 1, _, _, h => List.mem_cons_of_mem _ (fields.name_of_get_at h)

/-- A field is found by a name that is its own only. -/
theorem fields.get_field_of_get_at : ∀ {fs : fields} {i : ℕ} {name : List UInt8} {tp : type}, fs.names.Nodup →
    [] ∉ fs.names → fs.get_at i = some (name, tp) → fs.get_field name = some (i, tp)
  | .cons name' tp' rest, 0, name, tp, _, hempty, h => by
    cases h
    have hne : name' ≠ [] := fun hname => hempty (hname ▸ List.mem_cons_self)
    unfold fields.get_field
    rw [if_pos ⟨hne, rfl⟩]
  | .cons name' tp' rest, i + 1, name, tp, hnodup, hempty, h => by
    have hmem : name ∈ rest.names := fields.name_of_get_at h
    have hne : name' ≠ name := fun hname => (List.nodup_cons.mp hnodup).1 (hname ▸ hmem)
    have hrest := fields.get_field_of_get_at (List.nodup_cons.mp hnodup).2 (fun h => hempty (List.mem_cons_of_mem _ h)) h
    unfold fields.get_field
    rw [if_neg fun h => hne h.2, hrest]
    rfl

theorem fields.names_erase : ∀ fs : fields, fs.erase.names = fs.names
  | .nil => rfl
  | .cons name _ rest => congrArg (List.cons name) (fields.names_erase rest)

theorem fields.length_erase : ∀ fs : fields, fs.erase.length = fs.length
  | .nil => rfl
  | .cons _ _ rest => congrArg (· + 1) (fields.length_erase rest)

theorem type.get_ndim_erase : ∀ tp : type, tp.erase.get_ndim = tp.get_ndim
  | .builtin _ => rfl
  | .option value_tp => type.get_ndim_erase value_tp
  | .fixed_dim _ el => congrArg (· + 1) (type.get_ndim_erase el)
  | .struct _ _ => rfl

section
variable (errmode : assign_error_mode)

theorem make_builtin_copy (tp : builtin_type) : make_builtin_assignment_kernel errmode tp tp = .ok .ok := if_pos rfl

theorem copies_fixed_dim {n : ℕ} {el : type} {child : kernel} (h : Copies el child) :
    Copies (.fixed_dim n el) (elwise_ck n (fixed_stride n) elements child) := by
  refine copies_base (fun _ => rfl) (fun _ => rfl) fun v hv => ?_
  cases v with
  | scalar => cases hv
  | record => cases hv
  | array es =>
    obtain ⟨rfl, hes⟩ : es.length = n ∧ ∀ e ∈ es, el.Fits e := hv
    have harray := congrArg (Functor.map data.array) (h.array es hes fun _ => .scalar 0)
    unfold type.copied
    rw [apply_ite (Functor.map data.array)] at harray
    refine Eq.trans ?_ harray
    cases child.strided (elements (.array es)) (fixed_stride es.length) es.length fun _ => .scalar 0 <;> rfl

mutual

/-- The kernel for two types that are equal but for their objects. -/
theorem type.copies : ∀ {D S : type}, D.erase = S.erase → (D = S ∨ D.erase.Named) → D.erase.Copyable →
    ∃ k, make_assignment_kernel errmode D S = .ok k ∧ Copies D.erase k
  | .builtin tp, S, he, _, _ => by
    cases S with
    | builtin tp' =>
      obtain rfl : tp = tp' := type.builtin.inj he
      refine ⟨base_kernel (scalar .ok), ?_, copies_base (fun _ => rfl) (fun _ => rfl) fun v hv => ?_⟩
      · rw [make_assignment_kernel, make_to_builtin, make_builtin_copy errmode]
        rfl
      · cases v with
        | scalar z => rfl
        | array => cases hv
        | record => cases hv
    | _ => cases he
  | .option (.builtin tp), S, he, _, _ => by
    cases S with
    | option value_tp =>
      cases value_tp with
      | builtin tp' =>
        obtain rfl : tp = tp' := type.builtin.inj (type.option.inj he)
        refine ⟨option_to_option_ck tp tp .ok, ?_, copies_option tp⟩
        rw [make_assignment_kernel, make_builtin_copy errmode]
        rfl
      | _ => cases he
    | _ => cases he
  | .option (.option _), _, _, _, hc => hc.elim
  | .option (.fixed_dim _ _), _, _, _, hc => hc.elim
  | .option (.struct _ _), _, _, _, hc => hc.elim
  | .fixed_dim n el, S, he, hn, hc => by
    cases S with
    | fixed_dim n' el' =>
      obtain ⟨rfl, hel⟩ := type.fixed_dim.inj he
      have hndim : el'.get_ndim = el.get_ndim := by
        rw [← type.get_ndim_erase el', ← hel, type.get_ndim_erase]
      obtain ⟨child, hchild, hcopies⟩ := type.copies hel (hn.imp_left fun h => (type.fixed_dim.inj h).2) hc
      refine ⟨elwise_ck n (fixed_stride n) elements child, ?_, copies_fixed_dim hcopies⟩
      rw [make_assignment_kernel, if_neg (by simp [type.get_ndim, hndim]), if_neg (by simp), hchild]
      rfl
    | _ => cases he
  | .struct object fs, S, he, hn, hc => by
    cases S with
    | struct object' gs =>
      have hfs : fs.erase = gs.erase := (type.struct.inj he).2
      -- the sources that are picked for the fields, and the kernel from their copies
      have hstruct (pick : ℕ → List UInt8 → type → Option (type × (data → Option data)))
          (h : ∃ children, make_fields errmode pick fs 0 = .ok children ∧ ∀ vs : List data, fs.erase.Fits (vs.drop 0) →
            children.mapM (assign_field (.record vs)) = fs.erase.copied (vs.drop 0)) :
          ∃ k, tuple_unary_op_ck <$> make_fields errmode pick fs 0 = .ok k ∧ Copies (.struct 0 fs.erase) k := by
        obtain ⟨children, hchildren, hall⟩ := h
        refine ⟨tuple_unary_op_ck children, by rw [hchildren]; rfl, ?_⟩
        refine copies_base (fun _ => rfl) (fun _ => rfl) fun v hv => ?_
        cases v with
        | scalar => cases hv
        | array => cases hv
        | record vs => exact congrArg (Functor.map data.record) (hall vs hv)
      rw [make_assignment_kernel]
      by_cases hobject : object = object'
      · rw [if_pos hobject]
        apply hstruct
        exact fields.copies _ 0 rfl (.inl rfl) hc fun j name tp tp' h h' => by
          rw [h] at h'
          cases h'
          rw [zero_add]
      · rw [if_neg hobject, if_neg (by rw [← fields.length_erase, hfs, fields.length_erase]; exact not_not.mpr rfl)]
        have hnamed := hn.resolve_left fun h => hobject (type.struct.inj h).1
        have hnames : gs.names.Nodup ∧ [] ∉ gs.names := by
          rw [← fields.names_erase gs, ← hfs]
          exact ⟨hnamed.1, hnamed.2.1⟩
        apply hstruct
        exact fields.copies _ 0 hfs (.inr hnamed.2.2) hc fun j name tp tp' _ h' => by
          rw [fields.get_field_of_get_at hnames.1 hnames.2 h', zero_add]
          rfl
    | _ => cases he

theorem fields.copies : ∀ {fs gs : fields} (pick : ℕ → List UInt8 → type → Option (type × (data → Option data))) (i : ℕ),
    fs.erase = gs.erase → (fs = gs ∨ fs.erase.Named) → fs.erase.Copyable →
    (∀ j name tp tp', fs.get_at j = some (name, tp) → gs.get_at j = some (name, tp') →
      pick (i + j) name tp = some (tp', field_of (i + j))) →
    ∃ children, make_fields errmode pick fs i = .ok children ∧ ∀ vs : List data, fs.erase.Fits (vs.drop i) →
      children.mapM (assign_field (.record vs)) = fs.erase.copied (vs.drop i)
  | .nil, _, _, _, _, _, _, _ => ⟨[], rfl, fun vs hvs => by
      rw [List.mapM_nil]
      rfl⟩
  | .cons name tp rest, gs, pick, i, he, hn, hc, hpick => by
    cases gs with
    | nil => cases he
    | cons name' tp' rest' =>
      obtain ⟨rfl, htp, hrest⟩ := fields.cons.inj he
      have hfirst := hpick 0 name tp tp' rfl rfl
      obtain ⟨child, hchild, hcopies⟩ := type.copies htp (hn.imp (fun h => (fields.cons.inj h).2.1) And.left) hc.1
      obtain ⟨children, hchildren, hall⟩ := fields.copies pick (i + 1) hrest
        (hn.imp (fun h => (fields.cons.inj h).2.2) And.right) hc.2 fun j name tp tp' h h' => by
          rw [Nat.add_right_comm]
          exact hpick (j + 1) name tp tp' h h'
      refine ⟨(field_of i, child) :: children, ?_, fun vs hvs => ?_⟩
      · rw [make_fields]
        rw [add_zero] at hfirst
        rw [hfirst]
        dsimp only
        rw [hchild, ok_bind, hchildren]
        rfl
      · cases hdrop : vs.drop i with
        | nil =>
          rw [hdrop] at hvs
          exact hvs.elim
        | cons v tail =>
          rw [hdrop] at hvs
          have hv : vs[i]? = some v := by
            rw [← List.head?_drop, hdrop]
            rfl
          have htail : vs.drop (i + 1) = tail := by
            rw [← List.tail_drop, hdrop]
            rfl
          have hitem : assign_field (.record vs) (field_of i, child) = child.single v := by
            have hfield : field_of i (.record vs) = some v := hv
            unfold assign_field
            dsimp only
            rw [hfield]
          rw [List.mapM_cons, hitem, hcopies.single v hvs.1, hall vs (by rw [htail]; exact hvs.2), htail]
          rfl

end

mutual

/-- There is no kernel for options of dimensions. -/
theorem type.refused : ∀ {D S : type}, D.erase = S.erase → (D = S ∨ D.erase.Named) → ¬ D.erase.Copyable →
    ∃ e, make_assignment_kernel errmode D S = .error e
  | .builtin _, _, _, _, hc => absurd trivial hc
  | .option (.builtin _), _, _, _, hc => absurd trivial hc
  | .option (.option _), _, _, _, _ => ⟨_, rfl⟩
  | .option (.fixed_dim _ _), _, _, _, _ => ⟨_, rfl⟩
  | .option (.struct _ _), _, _, _, _ => ⟨_, rfl⟩
  | .fixed_dim n el, S, he, hn, hc => by
    cases S with
    | fixed_dim n' el' =>
      obtain ⟨rfl, hel⟩ := type.fixed_dim.inj he
      have hndim : el'.get_ndim = el.get_ndim := by
        rw [← type.get_ndim_erase el', ← hel, type.get_ndim_erase]
      obtain ⟨e, he⟩ := type.refused hel (hn.imp_left fun h => (type.fixed_dim.inj h).2) hc
      refine ⟨e, ?_⟩
      rw [make_assignment_kernel, if_neg (by simp [type.get_ndim, hndim]), if_neg (by simp), he]
      rfl
    | _ => cases he
  | .struct object fs, S, he, hn, hc => by
    cases S with
    | struct object' gs =>
      have hfs : fs.erase = gs.erase := (type.struct.inj he).2
      rw [make_assignment_kernel]
      by_cases hobject : object = object'
      · obtain ⟨e, he⟩ := fields.refused (fun i _ tp => some (tp, field_of i)) 0 rfl (.inl rfl) hc
          fun j name tp tp' h h' => by
            rw [h] at h'
            cases h'
            rw [zero_add]
        exact ⟨e, by rw [if_pos hobject, he]; rfl⟩
      · have hnamed := hn.resolve_left fun h => hobject (type.struct.inj h).1
        have hnames : gs.names.Nodup ∧ [] ∉ gs.names := by
          rw [← fields.names_erase gs, ← hfs]
          exact ⟨hnamed.1, hnamed.2.1⟩
        obtain ⟨e, he⟩ := fields.refused (fun _ name _ => (gs.get_field name).map fun p => (p.2, field_of p.1)) 0
          hfs (.inr hnamed.2.2) hc fun j name tp tp' _ h' => by
            rw [fields.get_field_of_get_at hnames.1 hnames.2 h', zero_add]
            rfl
        refine ⟨e, ?_⟩
        rw [if_neg hobject, if_neg (by rw [← fields.length_erase, hfs, fields.length_erase]; exact not_not.mpr rfl), he]
        rfl
    | _ => cases he

theorem fields.refused : ∀ {fs gs : fields} (pick : ℕ → List UInt8 → type → Option (type × (data → Option data))) (i : ℕ),
    fs.erase = gs.erase → (fs = gs ∨ fs.erase.Named) → ¬ fs.erase.Copyable →
    (∀ j name tp tp', fs.get_at j = some (name, tp) → gs.get_at j = some (name, tp') →
      pick (i + j) name tp = some (tp', field_of (i + j))) →
    ∃ e, make_fields errmode pick fs i = .error e
  | .nil, _, _, _, _, _, hc, _ => absurd trivial hc
  | .cons name tp rest, gs, pick, i, he, hn, hc, hpick => by
    cases gs with
    | nil => cases he
    | cons name' tp' rest' =>
      obtain ⟨rfl, htp, hrest⟩ := fields.cons.inj he
      have hfirst := hpick 0 name tp tp' rfl rfl
      rw [add_zero] at hfirst
      have hntp : tp = tp' ∨ tp.erase.Named := hn.imp (fun h => (fields.cons.inj h).2.1) And.left
      rw [make_fields, hfirst]
      dsimp only
      by_cases hcopyable : tp.erase.Copyable
      · obtain ⟨child, hchild, -⟩ := type.copies errmode htp hntp hcopyable
        obtain ⟨e, he⟩ := fields.refused pick (i + 1) hrest (hn.imp (fun h => (fields.cons.inj h).2.2) And.right)
          (fun h => hc ⟨hcopyable, h⟩) fun j name tp tp' h h' => by
            rw [Nat.add_right_comm]
            exact hpick (j + 1) name tp tp' h h'
        exact ⟨e, by rw [hchild, ok_bind, he]; rfl⟩
      · obtain ⟨e, he⟩ := type.refused htp hntp hcopyable
        exact ⟨e, by rw [he]; rfl⟩

end

end

end Dynd.TypedAssign
