import Dynd.ArrayElements
import Dynd.Lib.LocalUpdates
/-!
# Lifted reductions

A reduction of elements is lifted to arrays by a chain of kernels, one for each
dimension. The first call at a destination initialises it, the followup calls
accumulate. A kernel is run here as the list of what it does to the destination,
with the addresses it reads and writes.
-/
namespace Dynd.LiftedReduction
open Lib FixedDim

/-! ## What the kernels of elements do -/

/-- One step at one destination element. -/
inductive Access where
  /-- `opchild_dst_init`: the destination is initialised from an element of the source -/
  | dst_init (dst src : ℤ)
  /-- `opchild_ident`: the destination is set to the reduction identity -/
  | ident (dst : ℤ)
  /-- `opchild_reduce`: an element of the source is accumulated -/
  | reduce (dst src : ℤ)
deriving DecidableEq

def Access.dst : Access → ℤ
  | dst_init dst _ => dst
  | ident dst => dst
  | reduce dst _ => dst

/-- The element that is read. -/
def Access.src : Access → Option ℤ
  | dst_init _ src => some src
  | ident _ => none
  | reduce _ src => some src

section
variable (dst dst_stride src src_stride : ℤ) (count : ℕ)

def dst_init_strided : List Access :=
  (List.range count).map fun (i : ℕ) => .dst_init (dst + i * dst_stride) (src + i * src_stride)

def ident_strided : List Access := (List.range count).map fun (i : ℕ) => .ident (dst + i * dst_stride)

def reduce_strided : List Access :=
  (List.range count).map fun (i : ℕ) => .reduce (dst + i * dst_stride) (src + i * src_stride)

end

/-! ## The inner dimensions -/

namespace strided_inner_reduction
variable (size inner_src_stride : ℤ)

def single_first (dst src : ℤ) : List Access :=
  .dst_init dst src ::
    -- All the followup calls to accumulate at the "dst" address
    if 1 < size then reduce_strided dst 0 (src + inner_src_stride) inner_src_stride (size - 1).toNat else []

def single_first_with_ident (dst src : ℤ) : List Access :=
  .ident dst :: reduce_strided dst 0 src inner_src_stride size.toNat

def strided_first (dst dst_stride src src_stride : ℤ) (count : ℕ) : List Access :=
  if dst_stride = 0 then
    -- With a zero stride, we initialize "dst" once, then do many accumulations
    single_first size inner_src_stride dst src ++ (List.range (count - 1)).flatMap fun (i : ℕ) =>
      reduce_strided dst 0 (src + (i + 1) * src_stride) inner_src_stride size.toNat
  else (List.range count).flatMap fun (i : ℕ) => single_first size inner_src_stride (dst + i * dst_stride) (src + i * src_stride)

def strided_first_with_ident (dst dst_stride src src_stride : ℤ) (count : ℕ) : List Access :=
  if dst_stride = 0 then
    .ident dst :: (List.range count).flatMap fun (i : ℕ) =>
      reduce_strided dst 0 (src + i * src_stride) inner_src_stride size.toNat
  else (List.range count).flatMap fun (i : ℕ) =>
    single_first_with_ident size inner_src_stride (dst + i * dst_stride) (src + i * src_stride)

def strided_followup (dst dst_stride src src_stride : ℤ) (count : ℕ) : List Access :=
  (List.range count).flatMap fun (i : ℕ) =>
    reduce_strided (dst + i * dst_stride) 0 (src + i * src_stride) inner_src_stride size.toNat

end strided_inner_reduction

namespace strided_inner_broadcast
variable (size inner_dst_stride inner_src_stride : ℤ)

def single_first (dst src : ℤ) : List Access := dst_init_strided dst inner_dst_stride src inner_src_stride size.toNat

def single_first_with_ident (dst src : ℤ) : List Access :=
  ident_strided dst inner_dst_stride size.toNat ++ reduce_strided dst inner_dst_stride src inner_src_stride size.toNat

def strided_first (dst dst_stride src src_stride : ℤ) (count : ℕ) : List Access :=
  if dst_stride = 0 then
    single_first size inner_dst_stride inner_src_stride dst src ++ (List.range (count - 1)).flatMap fun (i : ℕ) =>
      reduce_strided dst inner_dst_stride (src + (i + 1) * src_stride) inner_src_stride size.toNat
  else (List.range count).flatMap fun (i : ℕ) =>
    single_first size inner_dst_stride inner_src_stride (dst + i * dst_stride) (src + i * src_stride)

def strided_first_with_ident (dst dst_stride src src_stride : ℤ) (count : ℕ) : List Access :=
  if dst_stride = 0 then
    ident_strided dst inner_dst_stride size.toNat ++ (List.range count).flatMap fun (i : ℕ) =>
      reduce_strided dst inner_dst_stride (src + i * src_stride) inner_src_stride size.toNat
  else (List.range count).flatMap fun (i : ℕ) =>
    single_first_with_ident size inner_dst_stride inner_src_stride (dst + i * dst_stride) (src + i * src_stride)

def strided_followup (dst dst_stride src src_stride : ℤ) (count : ℕ) : List Access :=
  (List.range count).flatMap fun (i : ℕ) =>
    reduce_strided (dst + i * dst_stride) inner_dst_stride (src + i * src_stride) inner_src_stride size.toNat

end strided_inner_broadcast

/-! ## The chain of kernels -/

inductive kernel_request where
  | single
  | strided
  | other (code : ℕ)
deriving DecidableEq

/-- The kernel of one dimension and, for an initial one, its child. The request says what its
first call function is. -/
inductive reduction_ckernel where
  | strided_initial_reduction (kernreq : kernel_request) (size src_stride : ℤ) (child : reduction_ckernel)
  | strided_initial_broadcast (kernreq : kernel_request) (size dst_stride src_stride : ℤ) (child : reduction_ckernel)
  | strided_inner_reduction (kernreq : kernel_request) (size src_stride : ℤ) (with_ident : Bool)
  | strided_inner_broadcast (kernreq : kernel_request) (size dst_stride src_stride : ℤ) (with_ident : Bool)

namespace reduction_ckernel

/-- The followup call function. -/
def strided_followup : reduction_ckernel → ℤ → ℤ → ℤ → ℤ → ℕ → List Access
  | strided_initial_reduction _ size inner_src_stride child, dst, dst_stride, src, src_stride, count =>
    (List.range count).flatMap fun (i : ℕ) =>
      child.strided_followup (dst + i * dst_stride) 0 (src + i * src_stride) inner_src_stride size.toNat
  | strided_initial_broadcast _ size inner_dst_stride inner_src_stride child, dst, dst_stride, src, src_stride, count =>
    (List.range count).flatMap fun (i : ℕ) =>
      child.strided_followup (dst + i * dst_stride) inner_dst_stride (src + i * src_stride) inner_src_stride size.toNat
  | strided_inner_reduction _ size inner_src_stride _, dst, dst_stride, src, src_stride, count =>
    LiftedReduction.strided_inner_reduction.strided_followup size inner_src_stride dst dst_stride src src_stride count
  | strided_inner_broadcast _ size inner_dst_stride inner_src_stride _, dst, dst_stride, src, src_stride, count =>
    LiftedReduction.strided_inner_broadcast.strided_followup size inner_dst_stride inner_src_stride dst dst_stride src src_stride count

mutual

/-- The first call function of a kernel that was requested as a single one. -/
def single_first : reduction_ckernel → ℤ → ℤ → List Access
  | strided_initial_reduction _ size inner_src_stride child, dst, src =>
    -- The first call at the "dst" address, then the followup calls
    child.single_first dst src ++
      if 1 < size then child.strided_followup dst 0 (src + inner_src_stride) inner_src_stride (size - 1).toNat else []
  | strided_initial_broadcast _ size inner_dst_stride inner_src_stride child, dst, src =>
    child.strided_first dst inner_dst_stride src inner_src_stride size.toNat
  | strided_inner_reduction _ size inner_src_stride with_ident, dst, src =>
    if with_ident then LiftedReduction.strided_inner_reduction.single_first_with_ident size inner_src_stride dst src
    else LiftedReduction.strided_inner_reduction.single_first size inner_src_stride dst src
  | strided_inner_broadcast _ size inner_dst_stride inner_src_stride with_ident, dst, src =>
    if with_ident then
      LiftedReduction.strided_inner_broadcast.single_first_with_ident size inner_dst_stride inner_src_stride dst src
    else LiftedReduction.strided_inner_broadcast.single_first size inner_dst_stride inner_src_stride dst src

/-- The first call function of a kernel that was requested as a strided one. -/
def strided_first : reduction_ckernel → ℤ → ℤ → ℤ → ℤ → ℕ → List Access
  | strided_initial_reduction _ size inner_src_stride child, dst, dst_stride, src, src_stride, count =>
    if dst_stride = 0 then
      -- With a zero stride, we have one "first", followed by many "followup" calls
      (child.single_first dst src ++
        if 1 < size then child.strided_followup dst 0 (src + inner_src_stride) inner_src_stride (size - 1).toNat else []) ++
      (List.range (count - 1)).flatMap fun (i : ℕ) =>
        child.strided_followup dst 0 (src + (i + 1) * src_stride) inner_src_stride size.toNat
    else
      -- With a non-zero stride, each iteration of the outer loop is "first"
      (List.range count).flatMap fun (i : ℕ) =>
        child.single_first (dst + i * dst_stride) (src + i * src_stride) ++
          if 1 < size then
            child.strided_followup (dst + i * dst_stride) 0 (src + i * src_stride + inner_src_stride) inner_src_stride (size - 1).toNat
          else []
  | strided_initial_broadcast _ size inner_dst_stride inner_src_stride child, dst, dst_stride, src, src_stride, count =>
    if dst_stride = 0 then
      child.strided_first dst inner_dst_stride src inner_src_stride size.toNat ++
      (List.range (count - 1)).flatMap fun (i : ℕ) =>
        child.strided_followup dst inner_dst_stride (src + (i + 1) * src_stride) inner_src_stride size.toNat
    else
      (List.range count).flatMap fun (i : ℕ) =>
        child.strided_first (dst + i * dst_stride) inner_dst_stride (src + i * src_stride) inner_src_stride size.toNat
  | strided_inner_reduction _ size inner_src_stride with_ident, dst, dst_stride, src, src_stride, count =>
    if with_ident then
      LiftedReduction.strided_inner_reduction.strided_first_with_ident size inner_src_stride dst dst_stride src src_stride count
    else LiftedReduction.strided_inner_reduction.strided_first size inner_src_stride dst dst_stride src src_stride count
  | strided_inner_broadcast _ size inner_dst_stride inner_src_stride with_ident, dst, dst_stride, src, src_stride, count =>
    if with_ident then
      LiftedReduction.strided_inner_broadcast.strided_first_with_ident size inner_dst_stride inner_src_stride
        dst dst_stride src src_stride count
    else
      LiftedReduction.strided_inner_broadcast.strided_first size inner_dst_stride inner_src_stride
        dst dst_stride src src_stride count

end

end reduction_ckernel

/-! ## Making the kernels -/

variable {T V : Type}

/-- An arrfunc whose operation is on elements. -/
structure elwise_arrfunc (T V : Type) where
  npos : ℕ
  return_type : FixedType T
  /-- `get_pos_type(0)` -/
  pos_type : FixedType T
  op : V → V → V

/-- `dst_initialization`. -/
structure init_arrfunc (T V : Type) where
  return_type : FixedType T
  pos_type : FixedType T
  op : V → V

/-- A value for the output to start from. -/
structure identity (T V : Type) where
  tp : FixedType T
  value : V

/-- The arguments of `make_lifted_reduction_ckernel`. The dimensions being reduced are as many as
there are flags. -/
structure Args (T V : Type) where
  elwise_reduction : elwise_arrfunc T V
  dst_initialization : Option (init_arrfunc T V)
  /-- the assignment of an element of the source's type to one of the destination's -/
  assign : V → V
  dst_tp : FixedType T
  dst_arrmeta : List size_stride_t
  src_tp : FixedType T
  src_arrmeta : List size_stride_t
  reduction_dimflags : List Bool
  (associative commutative right_associative : Bool)
  reduction_identity : Option (identity T V)
  kernreq : kernel_request

inductive reduction_error (T : Type) where
  | unrecognized_request (kernreq : kernel_request)
  | no_dimensions_flagged
  | not_associative_and_commutative
  | right_associative_not_supported
  | wrong_number_of_dimensions (reduction_ndim : ℕ) (ndim : ℤ) (src_el_tp src_tp : FixedType T)
  | inconsistent_destination (reducedim_count : ℕ) (dst_tp dst_el_tp : FixedType T)
  | src_not_supported (src_tp : FixedType T)
  | zero_sized_dimension (axis : ℕ) (src_tp : FixedType T)
  | dst_not_size_one (dst_size dst_stride : ℤ) (dst_tp : FixedType T)
  | reduced_dst_not_supported (dst_tp : FixedType T)
  | dst_not_supported (dst_tp : FixedType T)
  | size_mismatch (dst_size src_size : ℤ)
  | initialization_and_identity
  | identity_type (tp dst_tp : FixedType T)
  | not_unary_or_binary
  | elwise_dst_type (return_type dst_tp : FixedType T)
  | elwise_src_type (return_type src_tp : FixedType T)
  | initialization_dst_type (return_type dst_tp : FixedType T)
  | initialization_src_type (return_type src_tp : FixedType T)
  | internal_error

/-- The text of the exception, for a way to print types. -/
def reduction_error.what (print : FixedType T → String) : reduction_error T → String
  | unrecognized_request kernreq =>
    let code := match kernreq with
      | .single => 8
      | .strided => 16
      | .other code => code
    s!"make_lifted_reduction_ckernel: unrecognized request {code}"
  | no_dimensions_flagged => "make_lifted_reduction_ckernel: no dimensions were flagged for reduction"
  | not_associative_and_commutative => "make_lifted_reduction_ckernel: for reducing along multiple dimensions," ++
    " the reduction function must be both associative and commutative"
  | right_associative_not_supported => "make_lifted_reduction_ckernel: right_associative is not yet supported"
  | wrong_number_of_dimensions reduction_ndim ndim src_el_tp src_tp =>
    "make_lifted_reduction_ckernel: wrong number of reduction dimensions, " ++
    s!"requested {reduction_ndim}, but types have {ndim} lifting from {print src_el_tp} to {print src_tp}"
  | inconsistent_destination reducedim_count dst_tp dst_el_tp =>
    "make_lifted_reduction_ckernel: The number of dimensions flagged for reduction, " ++
    s!"{reducedim_count}, is not consistent with the destination type reducing {print dst_tp} with element {print dst_el_tp}"
  | src_not_supported src_tp => s!"make_lifted_reduction_ckernel: type {print src_tp} not supported as source"
  | zero_sized_dimension axis src_tp =>
    s!"cannot reduce a zero-sized dimension (axis {axis} of {print src_tp}) because the operation has no identity"
  | dst_not_size_one dst_size dst_stride dst_tp =>
    "make_lifted_reduction_ckernel: destination of a reduction dimension " ++
    s!"must have size 1, not size{dst_size}/stride {dst_stride} in type {print dst_tp}"
  | reduced_dst_not_supported dst_tp =>
    s!"make_lifted_reduction_ckernel: type {print dst_tp} not supported the destination of a dimension being reduced"
  | dst_not_supported dst_tp => s!"make_lifted_reduction_ckernel: type {print dst_tp} not supported as destination"
  | size_mismatch dst_size src_size =>
    s!"make_lifted_reduction_ckernel: the dst dimension size {dst_size} must equal the src dimension size {src_size}" ++
    " for broadcast dimensions"
  | initialization_and_identity => "make_lifted_reduction_ckernel: cannot specify" ++
    " both a dst_initialization kernel and a reduction_identity"
  | identity_type tp dst_tp =>
    s!"make_lifted_reduction_ckernel: reduction identity type {print tp} does not match dst type {print dst_tp}"
  | not_unary_or_binary => "make_lifted_reduction_ckernel: elwise reduction ckernel " ++
    "funcproto must be unary or a binary expr with all equal types"
  | elwise_dst_type return_type dst_tp => "make_lifted_reduction_ckernel: elwise reduction ckernel " ++
    s!"dst type is {print return_type}, expected {print dst_tp}"
  -- prints the return type here too
  | elwise_src_type return_type src_tp => "make_lifted_reduction_ckernel: elwise reduction ckernel " ++
    s!"src type is {print return_type}, expected {print src_tp}"
  | initialization_dst_type return_type dst_tp => "make_lifted_reduction_ckernel: dst initialization ckernel " ++
    s!"dst type is {print return_type}, expected {print dst_tp}"
  | initialization_src_type return_type src_tp => "make_lifted_reduction_ckernel: dst initialization ckernel " ++
    s!"src type is {print return_type}, expected {print src_tp}"
  | internal_error => "make_lifted_reduction_ckernel: internal error, should have returned in the loop"

/-- What is made: the initialization alone, or a chain of reductions. -/
inductive lifted_ckernel where
  | dst_init (kernreq : kernel_request)
  | reduction (kernel : reduction_ckernel)

variable [DecidableEq T]

/-- The checks of `make_strided_inner_reduction_dimension_kernel`, which
`make_strided_inner_broadcast_dimension_kernel` makes too. -/
def check_inner (a : Args T V) (kernreq : kernel_request) (dst_tp src_tp : FixedType T) : Except (reduction_error T) Unit := do
  if a.dst_initialization.isSome ∧ a.reduction_identity.isSome then throw .initialization_and_identity
  if let .other code := kernreq then throw (.unrecognized_request (.other code))
  if let some identity := a.reduction_identity then
    if identity.tp ≠ dst_tp then throw (.identity_type identity.tp dst_tp)
  let elwise := a.elwise_reduction
  if elwise.npos ≠ 1 ∧ elwise.npos ≠ 2 then throw .not_unary_or_binary
  if elwise.return_type ≠ dst_tp then throw (.elwise_dst_type elwise.return_type dst_tp)
  if elwise.pos_type ≠ src_tp then throw (.elwise_src_type elwise.return_type src_tp)
  if let some init := a.dst_initialization then
    if init.return_type ≠ dst_tp then throw (.initialization_dst_type init.return_type dst_tp)
    if init.pos_type ≠ src_tp then throw (.initialization_src_type init.return_type src_tp)

def make_strided_inner_reduction_dimension_kernel (a : Args T V) (src_stride src_size : ℤ) (dst_tp src_tp : FixedType T)
    (kernreq : kernel_request) : Except (reduction_error T) reduction_ckernel := do
  check_inner a kernreq dst_tp src_tp
  return .strided_inner_reduction kernreq src_size src_stride a.reduction_identity.isSome

def make_strided_inner_broadcast_dimension_kernel (a : Args T V) (dst_stride src_stride src_size : ℤ) (dst_tp src_tp : FixedType T)
    (kernreq : kernel_request) : Except (reduction_error T) reduction_ckernel := do
  check_inner a kernreq dst_tp src_tp
  return .strided_inner_broadcast kernreq src_size dst_stride src_stride a.reduction_identity.isSome

/-- The request of an initial dimension. -/
def check_request (kernreq : kernel_request) : Except (reduction_error T) Unit :=
  if let .other code := kernreq then .error (.unrecognized_request (.other code)) else .ok ()

/-- `get_as_strided`: the size and the stride of the first dimension, and what is left without it. -/
def get_as_strided (tp : FixedType T) (md : List size_stride_t) : Option (size_stride_t × FixedType T × List size_stride_t) :=
  match tp.dims, md with
  | _ :: dims, m :: md => some (m, ⟨dims, tp.dtype⟩, md)
  | _, _ => none

/-- What is left of a destination whose dimension is reduced. -/
def reduced_dst (keep_dims : Bool) (dst_tp : FixedType T) (dst_arrmeta : List size_stride_t) :
    Except (reduction_error T) (FixedType T × List size_stride_t) :=
  if keep_dims then
    -- If the dimensions are being kept, the output should be a strided dimension of size one
    match get_as_strided dst_tp dst_arrmeta with
    | some (m, dst_i_tp, dst_arrmeta) =>
      if m.dim_size ≠ 1 ∨ m.stride ≠ 0 then .error (.dst_not_size_one m.dim_size m.stride dst_i_tp)
      else .ok (dst_i_tp, dst_arrmeta)
    | none => .error (.reduced_dst_not_supported dst_tp)
  else .ok (dst_tp, dst_arrmeta)

/-- The loop over the dimensions, from axis `i` on. -/
def make_dimensions (a : Args T V) (keep_dims : Bool) : ℕ → kernel_request → List Bool → FixedType T → List size_stride_t →
    FixedType T → List size_stride_t → Except (reduction_error T) reduction_ckernel
  | _, _, [], _, _, _, _ => .error .internal_error
  | i, kernreq, true :: flags, src_tp, src_arrmeta, dst_tp, dst_arrmeta =>
    -- This dimension is being reduced
    match get_as_strided src_tp src_arrmeta with
    | none => .error (.src_not_supported src_tp)
    | some (src, src_tp, src_arrmeta) => do
      if src.dim_size = 0 ∧ a.reduction_identity.isNone then throw (.zero_sized_dimension i src_tp)
      let (dst_tp, dst_arrmeta) ← reduced_dst keep_dims dst_tp dst_arrmeta
      if flags ≠ [] then
        check_request kernreq
        -- The child's first call is a single one
        let child ← make_dimensions a keep_dims (i + 1) .single flags src_tp src_arrmeta dst_tp dst_arrmeta
        return .strided_initial_reduction kernreq src.dim_size src.stride child
      else make_strided_inner_reduction_dimension_kernel a src.stride src.dim_size dst_tp src_tp kernreq
  | i, kernreq, false :: flags, src_tp, src_arrmeta, dst_tp, dst_arrmeta =>
    -- This dimension is being broadcast, not reduced
    match get_as_strided src_tp src_arrmeta with
    | none => .error (.src_not_supported src_tp)
    | some (src, src_tp, src_arrmeta) =>
      match get_as_strided dst_tp dst_arrmeta with
      | none => .error (.dst_not_supported dst_tp)
      | some (dst, dst_tp, dst_arrmeta) => do
        if dst.dim_size ≠ src.dim_size then throw (.size_mismatch dst.dim_size src.dim_size)
        if flags ≠ [] then
          check_request kernreq
          -- The child's first call is a strided one
          let child ← make_dimensions a keep_dims (i + 1) .strided flags src_tp src_arrmeta dst_tp dst_arrmeta
          return .strided_initial_broadcast kernreq src.dim_size dst.stride src.stride child
        else make_strided_inner_broadcast_dimension_kernel a dst.stride src.stride src.dim_size dst_tp src_tp kernreq

def Args.reducedim_count (a : Args T V) : ℕ := a.reduction_dimflags.count true

/-- The dimensions of a type around those of its elements. -/
def lifted_ndim (tp el_tp : FixedType T) : ℤ := tp.dims.length - el_tp.dims.length

def make_lifted_reduction_ckernel (a : Args T V) : Except (reduction_error T) lifted_ckernel := do
  let reduction_ndim := a.reduction_dimflags.length
  if a.reducedim_count = 0 then
    if reduction_ndim = 0 then
      -- If there are no dimensions to reduce, it's just a dst_initialization operation
      if a.dst_initialization.isSome ∨ a.reduction_identity.isNone then return .dst_init a.kernreq
      -- Create the kernel which copies the identity and then does one reduction
      let kernel ← make_strided_inner_reduction_dimension_kernel a 0 1 a.dst_tp a.src_tp a.kernreq
      return .reduction kernel
    throw .no_dimensions_flagged
  if ¬ (a.reducedim_count = 1 ∨ (a.associative ∧ a.commutative)) then throw .not_associative_and_commutative
  if a.right_associative then throw .right_associative_not_supported
  let dst_el_tp := a.elwise_reduction.return_type
  let src_el_tp := a.elwise_reduction.pos_type
  if (reduction_ndim : ℤ) ≠ lifted_ndim a.src_tp src_el_tp then
    throw (.wrong_number_of_dimensions reduction_ndim (lifted_ndim a.src_tp src_el_tp) src_el_tp a.src_tp)
  -- Determine whether reduced dimensions are being kept or not
  let keep_dims ←
    if (reduction_ndim : ℤ) = lifted_ndim a.dst_tp dst_el_tp then pure true
    else if (reduction_ndim : ℤ) - a.reducedim_count = lifted_ndim a.dst_tp dst_el_tp then pure false
    else throw (.inconsistent_destination a.reducedim_count a.dst_tp dst_el_tp)
  let kernel ← make_dimensions a keep_dims 0 a.kernreq a.reduction_dimflags a.src_tp a.src_arrmeta a.dst_tp a.dst_arrmeta
  return .reduction kernel

/-! ## Calling what is made -/

/-- A call of the kernel: of one array, or of `count` of them. -/
inductive Call where
  | single (dst src : ℤ)
  | strided (dst dst_stride src src_stride : ℤ) (count : ℕ)

def Call.request : Call → kernel_request
  | single _ _ => .single
  | strided _ _ _ _ _ => .strided

def lifted_ckernel.run : lifted_ckernel → Call → List Access
  | dst_init _, .single dst src => [.dst_init dst src]
  | dst_init _, .strided dst dst_stride src src_stride count => dst_init_strided dst dst_stride src src_stride count
  | reduction kernel, .single dst src => kernel.single_first dst src
  | reduction kernel, .strided dst dst_stride src src_stride count => kernel.strided_first dst dst_stride src src_stride count

def Call.dst : Call → ℤ
  | single dst _ => dst
  | strided dst _ _ _ _ => dst

def Call.src : Call → ℤ
  | single _ src => src
  | strided _ _ src _ _ => src

/-! ## What a lifted reduction is for -/

/-- Where the elements of a source with an index go: the axes that are reduced have index 0 if they
are kept, and else none. -/
def project (keep_dims : Bool) : List Bool → List ℕ → List ℕ
  | true :: flags, _ :: idx => if keep_dims then 0 :: project keep_dims flags idx else project keep_dims flags idx
  | false :: flags, i :: idx => i :: project keep_dims flags idx
  | _, idx => idx

/-- The elements of the source in row-major order: the index of the destination, and the offset. -/
def cells (keep_dims : Bool) (flags : List Bool) (src : List size_stride_t) : List (List ℕ × ℤ) :=
  (multiIndices (src.map (·.dim_size))).map fun idx => (project keep_dims flags idx, strideOffset src idx)

/-- The elements of the source that are reduced to the destination element of an index. -/
def group (cells : List (List ℕ × ℤ)) (src : ℤ) (j : List ℕ) : List ℤ := (cells.filter (·.1 = j)).map (src + ·.2)

namespace Args
variable (a : Args T V)

/-- The function that initialises the destination; without a `dst_initialization` it is an assignment. -/
def init : V → V :=
  match a.dst_initialization with
  | some init => init.op
  | none => a.assign

/-- One element accumulated. A binary operation is wrapped: associating to the left it gets the
source first. -/
def accumulate (dst src : V) : V :=
  if a.elwise_reduction.npos = 2 ∧ ¬ a.right_associative then a.elwise_reduction.op src dst else a.elwise_reduction.op dst src

/-- What a step does to the destination element. -/
def act (src_mem : ℤ → V) : Access → V → V
  | .dst_init _ src, _ => a.init (src_mem src)
  | .ident _, v => (a.reduction_identity.map (·.value)).getD v
  | .reduce _ src, v => a.accumulate v (src_mem src)

/-- The memory of the destination after a run. -/
def memory (src_mem dst_mem : ℤ → V) (run : List Access) : ℤ → V := runUpdates Access.dst (a.act src_mem) dst_mem run

/-- The fold of the operation over a group: from the first element, initialised, if there is a
`dst_initialization` or no identity, and from the identity else. -/
def folded (xs : List V) : Option V :=
  match a.dst_initialization, a.reduction_identity, xs with
  | none, some identity, xs => some (xs.foldl a.elwise_reduction.op identity.value)
  | _, _, x :: xs => some (xs.foldl a.elwise_reduction.op (a.init x))
  | _, _, [] => none

/-- A run stays inside the source and the destination, and leaves every fold. -/
structure Right (cells : List (List ℕ × ℤ)) (dst_axes : List size_stride_t) (dst src : ℤ) (run : List Access) : Prop where
  reads : ∀ x ∈ run, ∀ s, x.src = some s → ∃ c ∈ cells, s = src + c.2
  writes : ∀ x ∈ run, ∃ j ∈ multiIndices (dst_axes.map (·.dim_size)), x.dst = dst + strideOffset dst_axes j
  elements : ∀ (src_mem dst_mem : ℤ → V), ∀ j ∈ multiIndices (dst_axes.map (·.dim_size)),
    a.folded ((group cells src j).map src_mem) = some (a.memory src_mem dst_mem run (dst + strideOffset dst_axes j))

/-- Reduced dimensions are kept when the destination has as many dimensions as the source. -/
def keep_dims : Bool := (a.reduction_dimflags.length : ℤ) = lifted_ndim a.dst_tp a.elwise_reduction.return_type

def dst_ndim : ℕ := if a.keep_dims then a.reduction_dimflags.length else a.reduction_dimflags.length - a.reducedim_count

end Args

/-- The axis that a strided call adds. -/
def Call.src_axis : Call → List size_stride_t
  | single _ _ => []
  | strided _ _ _ src_stride count => [⟨count, src_stride⟩]

def Call.dst_axis : Call → List size_stride_t
  | single _ _ => []
  | strided _ dst_stride _ _ count => [⟨count, dst_stride⟩]

def Call.flag : Call → List Bool
  | single _ _ => []
  | strided _ _ _ _ _ => [false]

namespace Args
variable (a : Args T V) (call : Call)

def dst_axes : List size_stride_t := call.dst_axis ++ a.dst_arrmeta.take a.dst_ndim

/-- The elements of the source arrays of a call, and where they go. -/
def src_cells : List (List ℕ × ℤ) :=
  cells a.keep_dims (call.flag ++ a.reduction_dimflags) (call.src_axis ++ a.src_arrmeta.take a.reduction_dimflags.length)

/-- The kernel that is made, if any, leaves in each element of the destination arrays of a call it was
requested for the fold over its group, and touches nothing else. -/
def Reduces : Prop := ∀ kernel, make_lifted_reduction_ckernel a = .ok kernel → call.request = a.kernreq →
  a.Right (a.src_cells call) (a.dst_axes call) call.dst call.src (kernel.run call)

end Args

end Dynd.LiftedReduction
