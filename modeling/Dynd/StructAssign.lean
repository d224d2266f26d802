import Dynd.Lib.Events
import Dynd.Lib.Except
import Mathlib.Data.List.Perm.Basic
/-!
# Assignment of structs

A struct is assigned to a struct of another type field by field. Each
destination field is looked up by name in the source, and nothing is compared
besides but how many fields there are.

`assigns_iff` says when that pairs off the fields.
-/
namespace Dynd.StructAssign
open Lib

/-! ## Struct types -/

/-- A field, with the offset of its data that the struct's arrmeta has for it. -/
structure field (T : Type) where
  name : List UInt8
  tp : T
  arrmeta_offset : ℕ
  data_offset : ℕ
deriving DecidableEq

/-- As many names as types. A variadic one is not of `struct_kind`. -/
structure base_struct_type (T : Type) where
  fields : List (field T)
  variadic : Bool

/-- A type, and where its arrmeta is. -/
structure operand (T : Type) where
  tp : base_struct_type T
  arrmeta : ℤ

variable {T M E : Type}

def base_struct_type.field_names (sd : base_struct_type T) : List (List UInt8) := sd.fields.map (·.name)

/-- The first field of that size, first character and text. No empty name is looked for. -/
def base_struct_type.get_field_index (sd : base_struct_type T) (field_name : List UInt8) : Option (Fin sd.fields.length) :=
  if 0 < field_name.length then sd.fields.findFinIdx? fun fn => fn.name = field_name else none

/-! ## The kernel of a tuple -/

/-- What is asked of a field: its data offset, its type and its arrmeta. -/
structure place (T : Type) where
  offset : ℕ
  tp : T
  arrmeta : ℤ

/-- `single` of a kernel for one source. -/
abbrev expr_single_t (M E : Type) := ℤ → ℤ → M → Except E M

structure tuple_unary_op_item (M E : Type) where
  child : expr_single_t M E
  dst_data_offset : ℕ
  src_data_offset : ℕ

def tuple_unary_op_ck.single (m_fields : List (tuple_unary_op_item M E)) : expr_single_t M E :=
  fun dst src => events (fun item => item.child (dst + item.dst_data_offset) (src + item.src_data_offset)) m_fields

/-- `instantiate` of an arrfunc: the types and the arrmetas of the destination and the source. -/
abbrev instantiate_t (T M E : Type) := T → ℤ → T → ℤ → Except E (expr_single_t M E)

def make_tuple_unary_op_ckernel (af : instantiate_t T M E) (fields : List (place T × place T)) :
    Except E (List (tuple_unary_op_item M E)) :=
  fields.mapM fun (dst, src) => do
    let child ← af dst.tp dst.arrmeta src.tp src.arrmeta
    return ⟨child, dst.offset, src.offset⟩

/-! ## The kernel of a struct -/

inductive fault (E : Type) where
  | runtime_error (what : String)
  | thrown (e : E)

variable (print : base_struct_type T → String)

/-- The loop that matches up the fields. -/
def match_fields (dst src : operand T) : Except (fault E) (List (field T)) :=
  dst.tp.fields.mapM fun dst_field =>
    match src.tp.get_field_index dst_field.name with
    | none =>
      .error (.runtime_error ("cannot assign dynd struct " ++ print src.tp ++ " to " ++ print dst.tp ++
        " because they have different field names"))
    | some src_i => .ok src.tp.fields[src_i]

def operand.place (op : operand T) (f : field T) : StructAssign.place T := ⟨f.data_offset, f.tp, op.arrmeta + f.arrmeta_offset⟩

def make_struct_assignment_kernel (copy : instantiate_t T M E) (dst src : operand T) :
    Except (fault E) (List (tuple_unary_op_item M E)) :=
  if src.tp.variadic then
    .error (.runtime_error ("make_struct_assignment_kernel: provided source type " ++ print src.tp ++ " is not of struct kind"))
  else if dst.tp.variadic then
    .error (.runtime_error
      ("make_struct_assignment_kernel: provided destination type " ++ print dst.tp ++ " is not of struct kind"))
  else if dst.tp.fields.length ≠ src.tp.fields.length then
    .error (.runtime_error ("cannot assign dynd struct " ++ print src.tp ++ " to " ++ print dst.tp ++
      " because they have different numbers of fields"))
  else do
    let src_fields ← match_fields print dst src
    (make_tuple_unary_op_ckernel copy ((dst.tp.fields.map dst.place).zip (src_fields.map src.place))).mapError .thrown

/-! ## What is asked of it -/

/-- Every source field can be assigned to every destination field. -/
def Assignable (copy : instantiate_t T M E) (dst src : operand T) : Prop :=
  ∀ d ∈ dst.tp.fields, ∀ s ∈ src.tp.fields, ∃ child,
    copy d.tp (dst.arrmeta + d.arrmeta_offset) s.tp (src.arrmeta + s.arrmeta_offset) = .ok child

/-- The assignment of a field to a field, in structs at two addresses. -/
def assign (copy : instantiate_t T M E) (dst src : operand T) (dst_data src_data : ℤ) (p : field T × field T) (m : M) :
    Except E M := do
  let child ← copy p.1.tp (dst.arrmeta + p.1.arrmeta_offset) p.2.tp (src.arrmeta + p.2.arrmeta_offset)
  child (dst_data + p.1.data_offset) (src_data + p.2.data_offset) m

/-- There is a kernel when the structs have the same names, as often. It assigns to each destination field, in order, a
source field of its name, and no source field is left out or used again. -/
structure Assigns (copy : instantiate_t T M E) (dst src : operand T) : Prop where
  made : (∃ k, make_struct_assignment_kernel print copy dst src = .ok k) ↔ dst.tp.field_names.Perm src.tp.field_names
  assigned : ∀ k, make_struct_assignment_kernel print copy dst src = .ok k →
    ∃ used, (match_fields print dst src : Except (fault E) _) = .ok used ∧ used.map (·.name) = dst.tp.field_names ∧
      used.Perm src.tp.fields ∧ ∀ dst_data src_data, tuple_unary_op_ck.single k dst_data src_data =
        events (assign copy dst src dst_data src_data) (dst.tp.fields.zip used)

/-- A destination field has no name, or none that the source has. -/
def Unmatched (dst src : operand T) : Prop := ∃ name ∈ dst.tp.field_names, name = [] ∨ name ∉ src.tp.field_names

/-- There is no kernel. -/
def Refused (dst src : operand T) : Prop :=
  src.tp.variadic ∨ dst.tp.variadic ∨ dst.tp.fields.length ≠ src.tp.fields.length ∨ Unmatched dst src

/-- Source fields of one name are at one place, and of one type. -/
def Told (src : operand T) : Prop := ∀ s ∈ src.tp.fields, ∀ t ∈ src.tp.fields, s.name = t.name → s = t

/-! ## Looking up a field -/

variable {print}

/-- The field that a name is matched with. -/
def matched (src : operand T) (name : List UInt8) : Option (field T) :=
  if 0 < name.length then src.tp.fields.find? fun fn => fn.name = name else none

theorem matched_eq (src : operand T) (name : List UInt8) :
    matched src name = (src.tp.get_field_index name).map fun src_i => src.tp.fields[src_i] := by
  unfold matched base_struct_type.get_field_index
  split_ifs
  · exact List.find?_eq_map_findFinIdx?_getElem
  · rfl

theorem matched_some {src : operand T} {name : List UInt8} {s : field T} (h : matched src name = some s) :
    s ∈ src.tp.fields ∧ s.name = name ∧ name ≠ [] := by
  unfold matched at h
  split_ifs at h with hpos
  exact ⟨List.mem_of_find?_eq_some h, by simpa using List.find?_some h, List.length_pos_iff.mp hpos⟩

theorem matched_none {src : operand T} {name : List UInt8} :
    matched src name = none ↔ name = [] ∨ name ∉ src.tp.field_names := by
  unfold matched base_struct_type.field_names
  split_ifs with hpos
  · have hne := List.length_pos_iff.mp hpos
    rw [List.find?_eq_none, List.mem_map]
    constructor
    · intro h
      refine Or.inr ?_
      rintro ⟨s, hs, hname⟩
      exact h s hs (decide_eq_true hname)
    · rintro (hempty | habsent) s hs hname
      · exact hne hempty
      · exact habsent ⟨s, hs, of_decide_eq_true hname⟩
  · exact iff_of_true rfl (Or.inl (List.length_eq_zero_iff.mp (Nat.eq_zero_of_not_pos hpos)))

/-- A field alone of its name is what the name is matched with. -/
theorem matched_self {src : operand T} (htold : Told src) {s : field T} (hs : s ∈ src.tp.fields) (hname : s.name ≠ []) :
    matched src s.name = some s := by
  cases h : matched src s.name with
  | none =>
    rcases matched_none.mp h with hempty | habsent
    · exact absurd hempty hname
    · exact absurd (List.mem_map_of_mem hs) habsent
  | some t =>
    obtain ⟨ht, hsame, -⟩ := matched_some h
    rw [htold t ht s hs hsame]

/-! ## Matching up the fields -/

variable (print) in
/-- Each destination field with the source field its name is matched with, or one that has none. -/
theorem match_fields_cases (dst src : operand T) :
    (∃ used, (match_fields print dst src : Except (fault E) _) = .ok used ∧
        List.Forall₂ (fun d s => matched src d.name = some s) dst.tp.fields used) ∨
      (∃ what, (match_fields print dst src : Except (fault E) _) = .error (.runtime_error what)) ∧ Unmatched dst src := by
  unfold match_fields
  rcases mapM_cases _ dst.tp.fields with ⟨used, hused, hall⟩ | ⟨front, d, back, e, hsplit, -, hd, herror⟩
  · refine Or.inl ⟨used, hused, hall.imp fun d s hds => ?_⟩
    rw [matched_eq]
    split at hds
    · cases hds
    · next src_i hindex => rw [hindex, Option.map_some, Except.ok.inj hds]
  · right
    split at hd
    · next hindex =>
      refine ⟨⟨_, herror.trans (congrArg Except.error (Except.error.inj hd).symm)⟩, d.name, ?_, matched_none.mp ?_⟩
      · exact List.mem_map_of_mem (hsplit ▸ List.mem_append_right front List.mem_cons_self)
      · rw [matched_eq, hindex, Option.map_none]
    · cases hd

section
variable {dst src : operand T} {used : List (field T)}
  (hall : List.Forall₂ (fun d s => matched src d.name = some s) dst.tp.fields used)

include hall

theorem used_matched : used.map some = dst.tp.field_names.map (matched src) := by
  unfold base_struct_type.field_names
  generalize dst.tp.fields = fields at hall ⊢
  induction hall with
  | nil => rfl
  | cons h _ ih => rw [List.map_cons, List.map_cons, List.map_cons, ih, h]

theorem mem_used {s : field T} (hs : s ∈ used) : ∃ name ∈ dst.tp.field_names, matched src name = some s := by
  have hsome : some s ∈ used.map some := List.mem_map_of_mem hs
  rw [used_matched hall, List.mem_map] at hsome
  exact hsome

theorem names_used : used.map (·.name) = dst.tp.field_names := by
  unfold base_struct_type.field_names
  generalize dst.tp.fields = fields at hall ⊢
  induction hall with
  | nil => rfl
  | cons h _ ih => rw [List.map_cons, List.map_cons, ih, (matched_some h).2.1]

theorem not_unmatched : ¬ Unmatched dst src := by
  rintro ⟨name, hname, hnone⟩
  have hmem : matched src name ∈ used.map some := by
    rw [used_matched hall]
    exact List.mem_map_of_mem hname
  obtain ⟨s, -, hs⟩ := List.mem_map.mp hmem
  rw [matched_none.mpr hnone] at hs
  cases hs

/-- The fields used are those of the source, when the names are and tell its fields apart. -/
theorem used_perm_iff : used.Perm src.tp.fields ↔ dst.tp.field_names.Perm src.tp.field_names ∧ Told src := by
  constructor
  · intro h
    refine ⟨names_used hall ▸ h.map _, fun s hs t ht hname => ?_⟩
    obtain ⟨s_name, -, hs_matched⟩ := mem_used hall (h.mem_iff.mpr hs)
    obtain ⟨t_name, -, ht_matched⟩ := mem_used hall (h.mem_iff.mpr ht)
    rw [← (matched_some hs_matched).2.1, hname] at hs_matched
    rw [← (matched_some ht_matched).2.1] at ht_matched
    exact Option.some.inj (hs_matched.symm.trans ht_matched)
  · rintro ⟨hnames, htold⟩
    have hself : src.tp.fields.map some = src.tp.field_names.map (matched src) := by
      unfold base_struct_type.field_names
      rw [List.map_map]
      refine List.map_congr_left fun s hs => (matched_self htold hs ?_).symm
      have hmem := hnames.mem_iff.mpr (List.mem_map_of_mem hs)
      intro hempty
      exact not_unmatched hall ⟨s.name, hmem, Or.inl hempty⟩
    have hperm := hnames.map (matched src)
    rw [← used_matched hall, ← hself] at hperm
    exact (List.map_perm_map_iff (Option.some_injective _)).mp hperm

end

/-! ## The kernel -/

section
variable {copy : instantiate_t T M E} {dst src : operand T}

/-- The kernel of the tuple, made of assignments of fields to fields. -/
theorem tuple_assigns (ds ss : List (field T)) (h : ∀ d ∈ ds, ∀ s ∈ ss, ∃ child,
      copy d.tp (dst.arrmeta + d.arrmeta_offset) s.tp (src.arrmeta + s.arrmeta_offset) = .ok child) :
    ∃ k, make_tuple_unary_op_ckernel copy ((ds.map dst.place).zip (ss.map src.place)) = .ok k ∧
      ∀ dst_data src_data, tuple_unary_op_ck.single k dst_data src_data = events (assign copy dst src dst_data src_data) (ds.zip ss) := by
  induction ds generalizing ss with
  | nil => exact ⟨[], rfl, fun _ _ => rfl⟩
  | cons d ds ih =>
    cases ss with
    | nil => exact ⟨[], rfl, fun _ _ => rfl⟩
    | cons s ss =>
      obtain ⟨k, hk, hruns⟩ := ih ss fun d hd s hs => h d (List.mem_cons_of_mem _ hd) s (List.mem_cons_of_mem _ hs)
      obtain ⟨child, hchild⟩ := h d List.mem_cons_self s List.mem_cons_self
      refine ⟨⟨child, d.data_offset, s.data_offset⟩ :: k, ?_, fun dst_data src_data => ?_⟩
      · unfold make_tuple_unary_op_ckernel at hk ⊢
        rw [List.map_cons, List.map_cons, List.zip_cons_cons, List.mapM_cons, hk]
        dsimp only [operand.place]
        rw [hchild]
        rfl
      · funext m
        have hassign : assign copy dst src dst_data src_data (d, s) m = child (dst_data + d.data_offset) (src_data + s.data_offset) m := by
          unfold assign
          dsimp only
          rw [hchild, ok_bind]
        unfold tuple_unary_op_ck.single events at hruns ⊢
        rw [List.zip_cons_cons, List.foldlM_cons, List.foldlM_cons, hassign]
        dsimp only
        congr 1
        funext m
        exact congrFun (hruns dst_data src_data) m

variable (print) in
/-- There is no kernel, or one that assigns to each field what its name is matched with. -/
theorem kernel_cases (h : Assignable copy dst src) :
    ((∃ e, make_struct_assignment_kernel print copy dst src = .error e) ∧ Refused dst src) ∨
      ∃ k used, make_struct_assignment_kernel print copy dst src = .ok k ∧ ¬ Refused dst src ∧
        (match_fields print dst src : Except (fault E) _) = .ok used ∧
        List.Forall₂ (fun d s => matched src d.name = some s) dst.tp.fields used ∧
        ∀ dst_data src_data, tuple_unary_op_ck.single k dst_data src_data =
          events (assign copy dst src dst_data src_data) (dst.tp.fields.zip used) := by
  unfold make_struct_assignment_kernel
  split_ifs with hsrc hdst hcount
  · exact Or.inl ⟨⟨_, rfl⟩, Or.inl hsrc⟩
  · exact Or.inl ⟨⟨_, rfl⟩, Or.inr (Or.inl hdst)⟩
  · exact Or.inl ⟨⟨_, rfl⟩, Or.inr (Or.inr (Or.inl hcount))⟩
  · rcases match_fields_cases print dst src with ⟨used, hused, hall⟩ | ⟨⟨what, herror⟩, hunmatched⟩
    · have hmem : ∀ s ∈ used, s ∈ src.tp.fields := by
        intro s hs
        obtain ⟨name, -, hname⟩ := mem_used hall hs
        exact (matched_some hname).1
      obtain ⟨k, hk, hruns⟩ := tuple_assigns dst.tp.fields used fun d hd s hs => h d hd s (hmem s hs)
      refine Or.inr ⟨k, used, ?_, ?_, hused, hall, hruns⟩
      · rw [hused, ok_bind, hk]
        rfl
      · rintro (hs | hd | hc | hunmatched)
        · exact hsrc hs
        · exact hdst hd
        · exact hcount hc
        · exact not_unmatched hall hunmatched
    · refine Or.inl ⟨⟨.runtime_error what, ?_⟩, Or.inr (Or.inr (Or.inr hunmatched))⟩
      rw [herror]
      rfl

/-! ## When it pairs off the fields -/

/-- Nothing is asked that the lookup does not answer when the names differ and that is noticed, or when they are the same
and every source field is the only one of its name. Names the destination has twice take one source field twice, and no
empty name is found, though the source has it. -/
theorem assigns_iff (h : Assignable copy dst src) : Assigns print copy dst src ↔
    (¬ dst.tp.field_names.Perm src.tp.field_names ∧ Refused dst src) ∨
      (dst.tp.field_names.Perm src.tp.field_names ∧ ¬ Refused dst src ∧ Told src) := by
  rcases kernel_cases print h with ⟨⟨e, herror⟩, hrefused⟩ | ⟨k, used, hk, hmade, hused, hall, hruns⟩
  · have hnone : ¬ ∃ k, make_struct_assignment_kernel print copy dst src = .ok k := by
      rintro ⟨k, hk⟩
      rw [herror] at hk
      cases hk
    constructor
    · intro hassigns
      exact Or.inl ⟨fun hperm => hnone (hassigns.made.mpr hperm), hrefused⟩
    · rintro (⟨hdiffer, -⟩ | ⟨-, hmade, -⟩)
      · exact ⟨iff_of_false hnone hdiffer, fun k hk => absurd ⟨k, hk⟩ hnone⟩
      · exact absurd hrefused hmade
  · constructor
    · intro hassigns
      obtain ⟨used', hused', -, hperm, -⟩ := hassigns.assigned k hk
      obtain rfl := Except.ok.inj (hused'.symm.trans hused)
      obtain ⟨hnames, htold⟩ := (used_perm_iff hall).mp hperm
      exact Or.inr ⟨hnames, hmade, htold⟩
    · rintro (⟨-, hrefused⟩ | ⟨hnames, -, htold⟩)
      · exact absurd hrefused hmade
      · refine ⟨iff_of_true ⟨k, hk⟩ hnames, fun k' hk' => ?_⟩
        obtain rfl := Except.ok.inj (hk'.symm.trans hk)
        exact ⟨used, hused, names_used hall, (used_perm_iff hall).mpr ⟨hnames, htold⟩, hruns⟩

/-- A source field of a name the destination has twice is taken twice. -/
theorem field_taken_twice : ¬ Assigns (fun _ => "") (fun _ _ _ _ => .ok fun _ _ m => .ok m : instantiate_t Unit Unit Empty)
    ⟨⟨[⟨[97], (), 0, 0⟩, ⟨[97], (), 0, 8⟩], false⟩, 0⟩ ⟨⟨[⟨[97], (), 0, 0⟩, ⟨[98], (), 0, 8⟩], false⟩, 0⟩ := by
  intro h
  have hsame : [[97], [97]].Perm [[97], ([98] : List UInt8)] := h.made.mp ⟨_, rfl⟩
  exact absurd hsame (by decide)

/-- Two fields in another order. -/
theorem assigns_swapped : Assigns (fun _ => "") (fun _ _ _ _ => .ok fun _ _ m => .ok m : instantiate_t Unit Unit Empty)
    ⟨⟨[⟨[97], (), 0, 0⟩, ⟨[98], (), 0, 8⟩], false⟩, 0⟩ ⟨⟨[⟨[98], (), 0, 0⟩, ⟨[97], (), 0, 8⟩], false⟩, 0⟩ := by
  refine (assigns_iff fun _ _ _ _ => ⟨_, rfl⟩).mpr (Or.inr ⟨by decide, ?_, ?_⟩)
  · rintro (hsrc | hdst | hcount | ⟨name, hname, hnone⟩)
    · cases hsrc
    · cases hdst
    · exact hcount rfl
    · revert name
      decide
  · unfold Told
    decide

end

end Dynd.StructAssign
