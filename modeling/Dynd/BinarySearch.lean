import Dynd.Lib.SortedSet
import Dynd.PointerType
/-!
# Binary search in an array

`nd::binary_search` looks for an element that is neither less nor greater than a
value, in an array sorted by the `sorting_less` kernel of its elements. The
elements and the value may have different arrmeta; then there is a kernel for each
order of the two. The addresses that the search reads an element at are recorded.
-/
namespace Dynd.BinarySearch
open Lib
open PointerType (apply_single_index)

variable {V : Type}

/-- What is asked of the type of the elements: the value that bytes of arrmeta and an address stand for,
and the kernel that there may be for two of them. -/
structure element_type (V : Type) where
  get_arrmeta_size : ℕ
  value : List UInt8 → ℤ → V
  sorting_less : Option (V → V → Bool)

/-- The first dimension of an array, as far as there is one. The elements of a `var` one start at `begin`. -/
inductive leading_dim where
  | scalar
  | fixed_dim (dim_size stride : ℤ)
  | var_dim (dim_size stride begin : ℤ)

/-- `m_arrmeta` is where the arrmeta of the elements starts. -/
structure array (V : Type) where
  leading : leading_dim
  element_tp : element_type V
  m_arrmeta : ℤ
  origin : ℤ

inductive search_error where
  | runtime_error (what : String)
  | index_out_of_bounds (i dim_size : ℤ)
  | not_comparable_error
deriving DecidableEq

/-- A comparison kernel: `dst` for the two addresses. -/
abbrev expr_single_t := ℤ → ℤ → Bool

def make_comparison_kernel (tp : element_type V) (src0_arrmeta src1_arrmeta : List UInt8) :
    Except search_error expr_single_t :=
  match tp.sorting_less with
  | none => .error .not_comparable_error
  | some less => .ok fun src0 src1 => less (tp.value src0_arrmeta src0) (tp.value src1_arrmeta src1)

/-- `while (first < last)`: the index that is returned, and where elements have been read. -/
def search (d_less_n n_less_d : expr_single_t) (data n_data n_stride first last : ℤ) : ℤ × List ℤ :=
  if first < last then
    let trial := first + (last - first) / 2
    let trial_data := n_data + trial * n_stride
    if d_less_n data trial_data then
      -- value < arr[trial]
      let (i, reads) := search d_less_n n_less_d data n_data n_stride first trial
      (i, trial_data :: reads)
    else if n_less_d trial_data data then
      -- value > arr[trial]
      let (i, reads) := search d_less_n n_less_d data n_data n_stride (trial + 1) last
      (i, trial_data :: reads)
    else (trial, [trial_data])
  else (-1, [])
termination_by (last - first).toNat

/-- The type of the elements. Without data only a fixed dimension has an index to check. -/
def at_single (n : array V) : Except search_error (element_type V) :=
  match n.leading with
  | .fixed_dim dim_size _ =>
    match apply_single_index 0 dim_size with
    | some _ => .ok n.element_tp
    | none => .error (.index_out_of_bounds 0 dim_size)
  | _ => .ok n.element_tp

/-- The rest of either version, which fixed dimensions have. -/
def search_dim (n : array V) (d_less_n n_less_d : expr_single_t) (data : ℤ) : Except search_error (ℤ × List ℤ) :=
  match n.leading with
  | .fixed_dim dim_size stride => .ok (search d_less_n n_less_d data n.origin stride 0 dim_size)
  | _ => .error (.runtime_error "TODO: binary_search on array with type is not implemented")

/-- The arrmeta of an element that starts at an address. -/
def arrmeta_at (memory : ℤ → UInt8) (tp : element_type V) (p : ℤ) : List UInt8 :=
  (List.range tp.get_arrmeta_size).map fun (i : ℕ) => memory (p + i)

/-- `memory` has the bytes of arrmeta. -/
def binary_search (memory : ℤ → UInt8) (n : array V) (arrmeta data : ℤ) : Except search_error (ℤ × List ℤ) :=
  match n.leading with
  | .scalar => .error (.runtime_error "cannot do a dynd binary_search on array with type without a leading array dimension")
  | _ => do
    let element_tp ← at_single n
    let md := arrmeta_at memory element_tp
    if element_tp.get_arrmeta_size = 0 ∨ n.m_arrmeta = arrmeta ∨ md n.m_arrmeta = md arrmeta then
      -- the arrmeta is identical, so we can make do with only a single comparison kernel
      let n_less_d ← make_comparison_kernel element_tp (md n.m_arrmeta) (md n.m_arrmeta)
      search_dim n n_less_d n_less_d data
    else
      let n_less_d ← make_comparison_kernel element_tp (md n.m_arrmeta) (md arrmeta)
      let d_less_n ← make_comparison_kernel element_tp (md arrmeta) (md n.m_arrmeta)
      search_dim n d_less_n n_less_d data

/-! ## The loop -/

section
variable {less : V → V → Bool} {el : ℤ → V} {x : V}

/-- The kernels compare the value with the elements. -/
structure Compares (less : V → V → Bool) (el : ℤ → V) (x : V) (d_less_n n_less_d : expr_single_t) (data n_data n_stride : ℤ) :
    Prop where
  d_less_n : ∀ i, d_less_n data (n_data + i * n_stride) = less x (el i)
  n_less_d : ∀ i, n_less_d (n_data + i * n_stride) data = less (el i) x

/-- No element of the interval comes before an earlier one. -/
def SortedOn (less : V → V → Bool) (el : ℤ → V) (first last : ℤ) : Prop :=
  ∀ i j, first ≤ i → i < j → j < last → less (el j) (el i) = false

variable {d_less_n n_less_d : expr_single_t} {data n_data n_stride : ℤ}

/-- The search reads elements of its interval, and an index that it returns is one of an equivalent element there. -/
theorem search_found (hc : Compares less el x d_less_n n_less_d data n_data n_stride) (first last : ℤ) :
    let r := search d_less_n n_less_d data n_data n_stride first last
    (∀ p ∈ r.2, ∃ i, first ≤ i ∧ i < last ∧ p = n_data + i * n_stride) ∧
      (r.1 = -1 ∨ first ≤ r.1 ∧ r.1 < last ∧ Equivalent less x (el r.1)) := by
  fun_induction search d_less_n n_less_d data n_data n_stride first last with
  | case1 first last hlt trial trial_data hless i reads hrec ih =>
    simp only [hrec] at ih
    refine ⟨?_, ?_⟩
    · rw [List.forall_mem_cons]
      refine ⟨⟨trial, by omega, by omega, rfl⟩, fun p hp => ?_⟩
      obtain ⟨j, hj, hj', rfl⟩ := ih.1 p hp
      exact ⟨j, hj, by omega, rfl⟩
    · rcases ih.2 with h | ⟨h, h', he⟩
      · exact .inl h
      · exact .inr ⟨h, by omega, he⟩
  | case2 first last hlt trial trial_data hless hgreater i reads hrec ih =>
    simp only [hrec] at ih
    refine ⟨?_, ?_⟩
    · rw [List.forall_mem_cons]
      refine ⟨⟨trial, by omega, by omega, rfl⟩, fun p hp => ?_⟩
      obtain ⟨j, hj, hj', rfl⟩ := ih.1 p hp
      exact ⟨j, by omega, hj', rfl⟩
    · rcases ih.2 with h | ⟨h, h', he⟩
      · exact .inl h
      · exact .inr ⟨by omega, h', he⟩
  | case3 first last hlt trial trial_data hless hgreater =>
    refine ⟨?_, .inr ⟨by omega, by omega, ?_, ?_⟩⟩
    · rw [List.forall_mem_singleton]
      exact ⟨trial, by omega, by omega, rfl⟩
    · rw [← hc.d_less_n]
      simpa using hless
    · rw [← hc.n_less_d]
      simpa using hgreater
  | case4 first last hlt => exact ⟨by simp, .inl rfl⟩

/-- In a sorted interval with an equivalent element the search does not return -1. -/
theorem search_finds (hl : StrictWeak less) (hc : Compares less el x d_less_n n_less_d data n_data n_stride) {first last : ℤ}
    (h0 : 0 ≤ first) (hs : SortedOn less el first last) {k : ℤ} (hk : first ≤ k) (hk' : k < last)
    (he : Equivalent less x (el k)) : (search d_less_n n_less_d data n_data n_stride first last).1 ≠ -1 := by
  fun_induction search d_less_n n_less_d data n_data n_stride first last with
  | case1 first last hlt trial trial_data hless i reads hrec ih =>
    rw [hc.d_less_n] at hless
    simp only [hrec] at ih
    refine ih h0 (fun i j hi hij hj => hs i j hi hij (by omega)) hk ?_
    -- from `trial` on the elements are greater than the value
    by_contra hge
    have hle : less (el k) (el trial) = false := by
      rcases eq_or_lt_of_le (not_lt.1 hge) with h | h
      · rw [← h]
        exact hl.irrefl _
      · exact hs trial k (by omega) h hk'
    have hno := he.1
    rw [hl.lt_of_lt_of_le hless hle] at hno
    cases hno
  | case2 first last hlt trial trial_data hless hgreater i reads hrec ih =>
    rw [hc.n_less_d] at hgreater
    simp only [hrec] at ih
    refine ih (by omega) (fun i j hi hij hj => hs i j (by omega) hij hj) ?_ hk'
    -- up to `trial` they are less
    by_contra hle
    have hge : less (el trial) (el k) = false := by
      rcases eq_or_lt_of_le (show k ≤ trial by omega) with h | h
      · rw [h]
        exact hl.irrefl _
      · exact hs k trial hk h (by omega)
    have hno := he.2
    rw [hl.lt_of_le_of_lt hge hgreater] at hno
    cases hno
  | case3 first last hlt trial trial_data hless hgreater => omega
  | case4 first last hlt => omega

end

/-! ## The search -/

section
variable (memory : ℤ → UInt8) (n : array V)

/-- How many elements there are, and where each is. -/
def array.dim_size : ℤ :=
  match n.leading with
  | .scalar => 0
  | .fixed_dim dim_size _ => dim_size
  | .var_dim dim_size _ _ => dim_size

def array.address (i : ℤ) : ℤ :=
  match n.leading with
  | .scalar => n.origin
  | .fixed_dim _ stride => n.origin + i * stride
  | .var_dim _ stride begin => begin + i * stride

/-- The value of an element. -/
def element (i : ℤ) : V := n.element_tp.value (arrmeta_at memory n.element_tp n.m_arrmeta) (n.address i)

/-- The value that is searched for. -/
def searched (arrmeta data : ℤ) : V := n.element_tp.value (arrmeta_at memory n.element_tp arrmeta) data

/-- An index of an element that is neither less nor greater than the value, if there is one, else -1. -/
structure Finds (less : V → V → Bool) (el : ℤ → V) (x : V) (dim_size i : ℤ) : Prop where
  found : (∃ k, 0 ≤ k ∧ k < dim_size ∧ Equivalent less x (el k)) → 0 ≤ i ∧ i < dim_size ∧ Equivalent less x (el i)
  missing : (¬ ∃ k, 0 ≤ k ∧ k < dim_size ∧ Equivalent less x (el k)) → i = -1

variable {memory n}

/-- Both versions search with kernels that compare the value with the elements. -/
theorem binary_search_eq {less : V → V → Bool} (hless : n.element_tp.sorting_less = some less) {dim_size stride : ℤ}
    (hn : n.leading = .fixed_dim dim_size stride) (hsize : 0 < dim_size) (arrmeta data : ℤ) :
    ∃ d_less_n n_less_d, Compares less (element memory n) (searched memory n arrmeta data) d_less_n n_less_d data
        n.origin stride ∧
      binary_search memory n arrmeta data = .ok (search d_less_n n_less_d data n.origin stride 0 dim_size) := by
  have hsingle : at_single n = .ok n.element_tp := by
    simp [at_single, hn, apply_single_index, hsize]
  have haddress : ∀ i, n.address i = n.origin + i * stride := by
    intro i
    rw [array.address, hn]
  unfold binary_search
  rw [hn]
  simp only [hsingle, ok_bind, make_comparison_kernel, hless, search_dim, hn]
  split_ifs with hsame
  · have hmd : arrmeta_at memory n.element_tp n.m_arrmeta = arrmeta_at memory n.element_tp arrmeta := by
      rcases hsame with h | h | h
      · simp [arrmeta_at, h]
      · rw [h]
      · exact h
    refine ⟨_, _, ⟨fun i => ?_, fun i => ?_⟩, rfl⟩
    · rw [element, searched, ← hmd, haddress]
    · rw [element, searched, ← hmd, haddress]
  · refine ⟨_, _, ⟨fun i => ?_, fun i => ?_⟩, rfl⟩
    · rw [element, searched, haddress]
    · rw [element, searched, haddress]

/-- What the search is for: an index of the sorted array, from reading nothing but its elements. -/
def Searches (memory : ℤ → UInt8) (n : array V) (arrmeta data : ℤ) (less : V → V → Bool) : Prop :=
  SortedOn less (element memory n) 0 n.dim_size →
    ∃ i reads, binary_search memory n arrmeta data = .ok (i, reads) ∧
      (∀ p ∈ reads, ∃ k, 0 ≤ k ∧ k < n.dim_size ∧ p = n.address k) ∧
      Finds less (element memory n) (searched memory n arrmeta data) n.dim_size i

/-- Of an array with a fixed first dimension that is not empty, the search does what it is for. Without a
fixed first dimension it throws. -/
theorem binary_search_spec (memory : ℤ → UInt8) (n : array V) (arrmeta data : ℤ) {less : V → V → Bool}
    (hless : n.element_tp.sorting_less = some less) (hl : StrictWeak less) :
    match n.leading with
    | .fixed_dim dim_size _ => 0 < dim_size → Searches memory n arrmeta data less
    | _ => ∃ what, binary_search memory n arrmeta data = .error (.runtime_error what) := by
  cases hn : n.leading with
  | scalar => exact ⟨_, by rw [binary_search, hn]⟩
  | var_dim dim_size stride begin =>
    have hsingle : at_single n = .ok n.element_tp := by rw [at_single, hn]
    refine ⟨"TODO: binary_search on array with type is not implemented", ?_⟩
    unfold binary_search
    rw [hn]
    simp only [hsingle, ok_bind, make_comparison_kernel, hless, search_dim, hn]
    split_ifs <;> rfl
  | fixed_dim dim_size stride =>
    intro hsize hsorted
    have hdim : n.dim_size = dim_size := by rw [array.dim_size, hn]
    have haddress : ∀ i, n.address i = n.origin + i * stride := by
      intro i
      rw [array.address, hn]
    rw [hdim] at hsorted ⊢
    obtain ⟨d_less_n, n_less_d, hc, hsearch⟩ := binary_search_eq hless hn hsize arrmeta data
    obtain ⟨hreads, hfound⟩ := search_found hc 0 dim_size
    refine ⟨_, _, hsearch, ?_, ?_, ?_⟩
    · simpa only [haddress] using hreads
    · rintro ⟨k, hk, hk', he⟩
      exact hfound.resolve_left (search_finds hl hc le_rfl hsorted hk hk' he)
    · intro hnone
      rcases hfound with h | ⟨h, h', he⟩
      · exact h
      · exact absurd ⟨_, h, h', he⟩ hnone

end

/-- Numbers at the addresses of themselves, without arrmeta. -/
def numbers : element_type ℤ := ⟨0, fun _ address => address, some fun a b => a < b⟩

theorem strictWeak_numbers : StrictWeak fun a b : ℤ => decide (a < b) where
  irrefl a := by simp
  trans a b c := by simpa using lt_trans
  incomp_trans a b c := by
    simp only [decide_eq_false_iff_not]
    omega

/-- The numbers 3, 6, 9. -/
theorem binary_search_spec_numbers :
    Searches (fun _ => 0) ⟨.fixed_dim 3 3, numbers, 0, 3⟩ 0 9 fun a b : ℤ => decide (a < b) :=
  binary_search_spec (fun _ => 0) ⟨.fixed_dim 3 3, numbers, 0, 3⟩ 0 9 rfl strictWeak_numbers (by decide)

/-- The same numbers in an array with a `var` first dimension are not searched. -/
theorem var_dim_not_searched : ¬ ∀ (memory : ℤ → UInt8) (n : array ℤ) (arrmeta data : ℤ) (less : ℤ → ℤ → Bool),
    n.element_tp.sorting_less = some less → StrictWeak less → Searches memory n arrmeta data less := by
  intro h
  have hsorted : SortedOn (fun a b : ℤ => decide (a < b)) (element (fun _ => 0) ⟨.var_dim 3 3 3, numbers, 0, 0⟩) 0 3 := by
    intro i j _ hij _
    have hnot : ¬ 3 + j * 3 < 3 + i * 3 := by omega
    exact decide_eq_false hnot
  obtain ⟨i, reads, hr, -⟩ := h (fun _ => 0) ⟨.var_dim 3 3 3, numbers, 0, 0⟩ 0 9 _ rfl strictWeak_numbers hsorted
  cases hr

end Dynd.BinarySearch
