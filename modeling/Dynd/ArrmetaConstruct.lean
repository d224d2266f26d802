import Dynd.Lib.ByteMemory
import Dynd.StructLayout
/-!
# Construction of the arrmeta of a tuple

`base_tuple_type::arrmeta_default_construct` constructs the arrmeta of one
field after another. When a field throws it destructs the fields before it
and throws again, but all of them at the offset of the field that threw.

The fields are of any class with methods of its own, so a field can be a tuple
again. `rollback_iff`: the fields are destructed where they were constructed
just when none before the one that throws has any arrmeta.
-/
namespace Dynd.ArrmetaConstruct
open Lib

/-- The arrmeta of an array, and whatever else the methods of types work on. -/
structure World (σ : Type) where
  arrmeta : ByteMemory
  rest : σ

/-- An extended type. Its arrmeta is constructed and destructed at an address;
of the classes with a constructor none has a destructor that throws. -/
structure base_type (σ E : Type) where
  arrmeta_size : ℕ
  arrmeta_default_construct : ℤ → Bool → World σ → Except E Unit × World σ
  arrmeta_destruct : ℤ → World σ → World σ

/-- A type; `extended` is `none` for a builtin one. -/
structure type (σ E : Type) where
  layout : StructLayout.type
  extended : Option (base_type σ E)

/-- A method of field `i` called with an address. -/
inductive Call where
  | construct (i : ℕ) (arrmeta : ℤ)
  | destruct (i : ℕ) (arrmeta : ℤ)

/-- The world, and the calls that were made so far. -/
structure State (σ : Type) where
  world : World σ
  calls : List Call

section
variable {σ E : Type}

def type.get_arrmeta_size (tp : type σ E) : ℕ :=
  match tp.extended with
  | none => 0
  | some extended => extended.arrmeta_size

/-- A tuple or struct; `layout_in_arrmeta` is whether the arrmeta begins with the data offsets. -/
structure base_tuple_type (σ E : Type) where
  field_types : List (type σ E)
  layout_in_arrmeta : Bool

def arrmetaOffsetsLoop (arrmeta_offset : ℕ) : List (type σ E) → List ℕ
  | [] => []
  | ft :: field_types => arrmeta_offset :: arrmetaOffsetsLoop (arrmeta_offset + ft.get_arrmeta_size) field_types

namespace base_tuple_type

def fields_begin (tp : base_tuple_type σ E) : ℕ := if tp.layout_in_arrmeta then tp.field_types.length * 8 else 0

def arrmeta_offsets (tp : base_tuple_type σ E) : List ℕ := arrmetaOffsetsLoop tp.fields_begin tp.field_types

def arrmeta_size (tp : base_tuple_type σ E) : ℕ := tp.fields_begin + (tp.field_types.map type.get_arrmeta_size).sum

/-- `arrmeta + arrmeta_offsets[i]` -/
def fieldArrmeta (tp : base_tuple_type σ E) (arrmeta : ℤ) (i : ℕ) : ℤ := arrmeta + tp.arrmeta_offsets.getD i 0

/-- If the arrmeta has data offsets, fill them in. -/
def fill_data_offsets (tp : base_tuple_type σ E) (arrmeta : ℤ) (w : World σ) : World σ :=
  let data_offsets := StructLayout.fill_default_data_offsets (tp.field_types.map type.layout)
  if tp.layout_in_arrmeta then
    { w with arrmeta := w.arrmeta.write arrmeta (data_offsets.flatMap fun offs => toBytes 8 offs.toNat) }
  else w

/-- The loop of the handler: every field is destructed at the one address. -/
def cleanupLoop (arrmeta : ℤ) : List (type σ E × ℕ) → State σ → State σ
  | [], s => s
  | (ft, j) :: fields, s =>
    match ft.extended with
    | none => cleanupLoop arrmeta fields s
    | some extended =>
      cleanupLoop arrmeta fields ⟨extended.arrmeta_destruct arrmeta s.world, s.calls ++ [.destruct j arrmeta]⟩

def constructLoop (tp : base_tuple_type σ E) (arrmeta : ℤ) (blockref_alloc : Bool) :
    List (type σ E × ℕ) → State σ → Except E Unit × State σ
  | [], s => (.ok (), s)
  | (ft, i) :: fields, s =>
    match ft.extended with
    | none => constructLoop tp arrmeta blockref_alloc fields s
    | some extended =>
      match extended.arrmeta_default_construct (tp.fieldArrmeta arrmeta i) blockref_alloc s.world with
      | (.ok _, w) =>
        constructLoop tp arrmeta blockref_alloc fields ⟨w, s.calls ++ [.construct i (tp.fieldArrmeta arrmeta i)]⟩
      | (.error e, w) =>
        (.error e, cleanupLoop (tp.fieldArrmeta arrmeta i) (tp.field_types.take i).zipIdx
          ⟨w, s.calls ++ [.construct i (tp.fieldArrmeta arrmeta i)]⟩)

def arrmeta_default_construct (tp : base_tuple_type σ E) (arrmeta : ℤ) (blockref_alloc : Bool) (w : World σ) :
    Except E Unit × State σ :=
  constructLoop tp arrmeta blockref_alloc tp.field_types.zipIdx ⟨tp.fill_data_offsets arrmeta w, []⟩

def destructLoop (tp : base_tuple_type σ E) (arrmeta : ℤ) : List (type σ E × ℕ) → World σ → World σ
  | [], w => w
  | (ft, i) :: fields, w =>
    match ft.extended with
    | none => destructLoop tp arrmeta fields w
    | some extended => destructLoop tp arrmeta fields (extended.arrmeta_destruct (tp.fieldArrmeta arrmeta i) w)

def arrmeta_destruct (tp : base_tuple_type σ E) (arrmeta : ℤ) (w : World σ) : World σ :=
  destructLoop tp arrmeta tp.field_types.zipIdx w

/-- The tuple as a type, which another tuple can have for a field. -/
def toType (tp : base_tuple_type σ E) : type σ E where
  layout := .base_tuple (tp.field_types.map type.layout)
  extended := some {
    arrmeta_size := tp.arrmeta_size
    arrmeta_default_construct := fun arrmeta blockref_alloc w =>
      let r := tp.arrmeta_default_construct arrmeta blockref_alloc w
      (r.1, r.2.world)
    arrmeta_destruct := tp.arrmeta_destruct }

/-! ## What the calls have to be -/

/-- Field `i` is constructed and does not throw. -/
def constructed (tp : base_tuple_type σ E) (arrmeta : ℤ) (blockref_alloc : Bool) (w : World σ) (field : type σ E × ℕ) :
    Option (World σ) :=
  match field.1.extended with
  | none => some w
  | some extended =>
    match extended.arrmeta_default_construct (tp.fieldArrmeta arrmeta field.2) blockref_alloc w with
    | (.ok _, w) => some w
    | (.error _, _) => none

def constructCall (tp : base_tuple_type σ E) (arrmeta : ℤ) (field : type σ E × ℕ) : Option Call :=
  field.1.extended.map fun _ => .construct field.2 (tp.fieldArrmeta arrmeta field.2)

def destructCall (tp : base_tuple_type σ E) (arrmeta : ℤ) (field : type σ E × ℕ) : Option Call :=
  field.1.extended.map fun _ => .destruct field.2 (tp.fieldArrmeta arrmeta field.2)

/-- The exception of field `k` comes out, and after the constructors up to it
the fields before it, and nothing else, are destructed in some order, each
once and at its own offset. -/
structure RolledBack (tp : base_tuple_type σ E) (arrmeta : ℤ) (k : ℕ) (e : E) (r : Except E Unit × State σ) : Prop where
  propagated : r.1 = .error e
  calls : ∃ destructs, r.2.calls = (tp.field_types.take (k + 1)).zipIdx.filterMap (tp.constructCall arrmeta) ++ destructs ∧
    destructs.Perm ((tp.field_types.take k).zipIdx.filterMap (tp.destructCall arrmeta))

/-! ## The loops -/

/-- What the handler calls instead. -/
def cleanupCall (arrmeta : ℤ) (field : type σ E × ℕ) : Option Call := field.1.extended.map fun _ => .destruct field.2 arrmeta

theorem cleanupLoop_calls (arrmeta : ℤ) : ∀ (fields : List (type σ E × ℕ)) (s : State σ),
    (cleanupLoop arrmeta fields s).calls = s.calls ++ fields.filterMap (cleanupCall arrmeta)
  | [], s => (List.append_nil s.calls).symm
  | (ft, j) :: fields, s => by
    rw [cleanupLoop, List.filterMap_cons, cleanupCall]
    cases ft.extended with
    | none => exact cleanupLoop_calls arrmeta fields s
    | some extended =>
      dsimp only [Option.map_some]
      rw [cleanupLoop_calls arrmeta fields, List.append_assoc, List.singleton_append]

/-- Fields that do not throw. -/
theorem constructLoop_append (tp : base_tuple_type σ E) (arrmeta : ℤ) (blockref_alloc : Bool) (rest : List (type σ E × ℕ)) :
    ∀ (fields : List (type σ E × ℕ)) (s : State σ) {wk : World σ},
    fields.foldlM (tp.constructed arrmeta blockref_alloc) s.world = some wk →
    tp.constructLoop arrmeta blockref_alloc (fields ++ rest) s =
      tp.constructLoop arrmeta blockref_alloc rest ⟨wk, s.calls ++ fields.filterMap (tp.constructCall arrmeta)⟩
  | [], s, wk, h => by
    obtain rfl : s.world = wk := Option.some.inj h
    rw [List.nil_append, List.filterMap_nil, List.append_nil]
  | (ft, i) :: fields, s, wk, h => by
    rw [List.foldlM_cons, constructed] at h
    rw [List.cons_append, constructLoop, List.filterMap_cons, constructCall]
    cases hft : ft.extended with
    | none =>
      rw [hft] at h
      exact constructLoop_append tp arrmeta blockref_alloc rest fields s h
    | some extended =>
      rw [hft] at h
      dsimp only [Option.map_some] at h ⊢
      rcases hconstruct : extended.arrmeta_default_construct (tp.fieldArrmeta arrmeta i) blockref_alloc s.world with ⟨e | u, w⟩
      · rw [hconstruct] at h
        exact absurd h (Option.some_ne_none wk).symm
      · rw [hconstruct] at h
        have hrest := constructLoop_append tp arrmeta blockref_alloc rest fields
          ⟨w, s.calls ++ [.construct i (tp.fieldArrmeta arrmeta i)]⟩ h
        rw [List.append_assoc, List.singleton_append] at hrest
        exact hrest

/-! ## The offsets -/

theorem getD_arrmetaOffsetsLoop : ∀ (field_types : List (type σ E)) (start : ℕ) {i : ℕ}, i < field_types.length →
    (arrmetaOffsetsLoop start field_types).getD i 0 = start + ((field_types.take i).map type.get_arrmeta_size).sum
  | ft :: field_types, start, 0, _ => rfl
  | ft :: field_types, start, i + 1, h => by
    have hrest := getD_arrmetaOffsetsLoop field_types (start + ft.get_arrmeta_size) (Nat.lt_of_succ_lt_succ h)
    rw [arrmetaOffsetsLoop, List.getD_cons_succ, hrest, List.take_succ_cons, List.map_cons, List.sum_cons, Nat.add_assoc]

theorem fieldArrmeta_eq (tp : base_tuple_type σ E) (arrmeta : ℤ) {i : ℕ} (h : i < tp.field_types.length) :
    tp.fieldArrmeta arrmeta i =
      arrmeta + (tp.fields_begin + ((tp.field_types.take i).map type.get_arrmeta_size).sum : ℕ) :=
  congrArg (fun n : ℕ => arrmeta + n) (getD_arrmetaOffsetsLoop tp.field_types tp.fields_begin h)

/-- The fields before field `k` are all constructed where field `k` is just
when none of them has arrmeta. -/
theorem same_arrmeta_iff (tp : base_tuple_type σ E) (arrmeta : ℤ) {k : ℕ} (hk : k < tp.field_types.length) :
    (∀ (j : ℕ) (hj : j < k), (tp.field_types[j]).extended ≠ none → tp.fieldArrmeta arrmeta j = tp.fieldArrmeta arrmeta k) ↔
      ∀ ft ∈ tp.field_types.take k, ft.get_arrmeta_size = 0 := by
  have htake : (tp.field_types.take k).length = k := List.length_take_of_le hk.le
  constructor
  · intro h ft hft
    obtain ⟨j, hj, rfl⟩ := List.getElem_of_mem hft
    have hjk : j < k := htake ▸ hj
    rw [List.getElem_take]
    cases hext : (tp.field_types[j]).extended with
    | none => rw [type.get_arrmeta_size, hext]
    | some extended =>
      have heq := h j hjk (by rw [hext]; exact Option.some_ne_none _)
      rw [fieldArrmeta_eq tp arrmeta (hjk.trans hk), fieldArrmeta_eq tp arrmeta hk] at heq
      have hsub : ((tp.field_types.take (j + 1)).map type.get_arrmeta_size).sum ≤
          ((tp.field_types.take k).map type.get_arrmeta_size).sum :=
        List.Sublist.sum_le_sum ((List.take_sublist_take_left hjk).map _) fun _ _ => Nat.zero_le _
      rw [List.take_add_one, List.getElem?_eq_getElem (hjk.trans hk), Option.toList_some, List.map_append, List.sum_append,
        List.map_singleton, List.sum_singleton] at hsub
      omega
  · intro h j hj _
    have hsum : ∀ i ≤ k, ((tp.field_types.take i).map type.get_arrmeta_size).sum = 0 := by
      intro i hi
      apply List.sum_eq_zero
      intro n hn
      obtain ⟨ft, hft, rfl⟩ := List.mem_map.mp hn
      exact h ft ((List.take_sublist_take_left hi).subset hft)
    rw [fieldArrmeta_eq tp arrmeta (hj.trans hk), fieldArrmeta_eq tp arrmeta hk, hsum j hj.le, hsum k le_rfl]

/-! ## The rollback -/

theorem zipIdx_split {α : Type} (l : List α) {k : ℕ} (hk : k < l.length) :
    l.zipIdx = (l.take k).zipIdx ++ (l[k], k) :: (l.drop (k + 1)).zipIdx (k + 1) := by
  have hlength : (l.take k).length = k := List.length_take_of_le hk.le
  conv_lhs => rw [← List.take_append_drop k l, List.drop_eq_getElem_cons hk, List.zipIdx_append, hlength, Nat.zero_add,
    List.zipIdx_cons]

theorem mem_zipIdx_take {α : Type} {l : List α} {k : ℕ} {field : α × ℕ} :
    field ∈ (l.take k).zipIdx ↔ ∃ (j : ℕ) (hj : j < l.length), j < k ∧ field = (l[j], j) := by
  obtain ⟨a, j⟩ := field
  rw [List.mk_mem_zipIdx_iff_getElem?, List.getElem?_take]
  constructor
  · intro h
    obtain ⟨hjk, h⟩ := Option.ite_none_right_eq_some.mp h
    obtain ⟨hj, rfl⟩ := List.getElem?_eq_some_iff.mp h
    exact ⟨j, hj, hjk, rfl⟩
  · rintro ⟨i, hi, hik, heq⟩
    obtain ⟨rfl, rfl⟩ := Prod.mk.inj heq
    rw [if_pos hik, List.getElem?_eq_getElem hi]

/-- Whatever the types of the fields, and whatever their methods do: when
field `k` throws, the fields before it are destructed each at its own offset
just when none of them has arrmeta. -/
theorem rollback_iff (tp : base_tuple_type σ E) (arrmeta : ℤ) (blockref_alloc : Bool) (w wk w' : World σ) (k : ℕ) (e : E)
    (extended : base_type σ E) (hk : tp.field_types[k]?.bind type.extended = some extended)
    (hbefore : (tp.field_types.take k).zipIdx.foldlM (tp.constructed arrmeta blockref_alloc)
      (tp.fill_data_offsets arrmeta w) = some wk)
    (hthrow : extended.arrmeta_default_construct (tp.fieldArrmeta arrmeta k) blockref_alloc wk = (.error e, w')) :
    tp.RolledBack arrmeta k e (tp.arrmeta_default_construct arrmeta blockref_alloc w) ↔
      ∀ ft ∈ tp.field_types.take k, ft.get_arrmeta_size = 0 := by
  obtain ⟨ft, hget, hft⟩ := Option.bind_eq_some_iff.mp hk
  obtain ⟨hlt, rfl⟩ := List.getElem?_eq_some_iff.mp hget
  have hrun : tp.arrmeta_default_construct arrmeta blockref_alloc w = (.error e,
      cleanupLoop (tp.fieldArrmeta arrmeta k) (tp.field_types.take k).zipIdx
        ⟨w', (tp.field_types.take k).zipIdx.filterMap (tp.constructCall arrmeta) ++ [.construct k (tp.fieldArrmeta arrmeta k)]⟩) := by
    rw [base_tuple_type.arrmeta_default_construct, zipIdx_split tp.field_types hlt,
      constructLoop_append tp arrmeta blockref_alloc _ _ _ hbefore, constructLoop, hft]
    dsimp only
    rw [hthrow]
    rfl
  have hconstructs : (tp.field_types.take (k + 1)).zipIdx.filterMap (tp.constructCall arrmeta) =
      (tp.field_types.take k).zipIdx.filterMap (tp.constructCall arrmeta) ++ [.construct k (tp.fieldArrmeta arrmeta k)] := by
    have hlength : (tp.field_types.take k).length = k := List.length_take_of_le hlt.le
    rw [List.take_add_one, hget, Option.toList_some, List.zipIdx_append, List.filterMap_append, hlength]
    simp [constructCall, hft]
  rw [hrun, ← same_arrmeta_iff tp arrmeta hlt]
  constructor
  · rintro ⟨-, destructs, hcalls, hperm⟩ j hj hext
    rw [cleanupLoop_calls, hconstructs] at hcalls
    obtain rfl := List.append_cancel_left hcalls
    obtain ⟨tp', htp'⟩ := Option.ne_none_iff_exists'.mp hext
    have hcalled : Call.destruct j (tp.fieldArrmeta arrmeta k) ∈
        (tp.field_types.take k).zipIdx.filterMap (cleanupCall (tp.fieldArrmeta arrmeta k)) := by
      refine List.mem_filterMap.mpr ⟨(tp.field_types[j], j), mem_zipIdx_take.mpr ⟨j, hj.trans hlt, hj, rfl⟩, ?_⟩
      rw [cleanupCall, htp', Option.map_some]
    obtain ⟨field, hfield, hcall⟩ := List.mem_filterMap.mp (hperm.mem_iff.mp hcalled)
    obtain ⟨i, hi, -, rfl⟩ := mem_zipIdx_take.mp hfield
    obtain ⟨-, -, hcall⟩ := Option.map_eq_some_iff.mp hcall
    obtain ⟨rfl, haddress⟩ := Call.destruct.inj hcall
    exact haddress
  · intro hsame
    refine ⟨rfl, _, ?_, List.Perm.refl _⟩
    rw [cleanupLoop_calls, hconstructs]
    congr 1
    apply List.filterMap_congr
    intro field hmem
    obtain ⟨j, hj, hjk, rfl⟩ := mem_zipIdx_take.mp hmem
    unfold cleanupCall destructCall
    dsimp only
    cases hext : (tp.field_types[j]).extended with
    | none => rfl
    | some extended => rw [hsame j hjk (by rw [hext]; exact Option.some_ne_none _)]

end base_tuple_type
end

/-! ## Tuples of strings -/

inductive exception where
  | bad_alloc

def int32_type : type ℕ exception := ⟨.other 4 ⟨4, 2, by decide, rfl⟩, none⟩

/-- A string: its arrmeta refers to a memory block. The rest of the world is
how many more blocks there is memory for. -/
def string_type : base_type ℕ exception where
  arrmeta_size := 8
  arrmeta_default_construct := fun arrmeta blockref_alloc w =>
    if blockref_alloc then
      match w.rest with
      | 0 => (.error .bad_alloc, w)
      | n + 1 => (.ok (), ⟨w.arrmeta.write arrmeta (toBytes 8 (n + 1)), n⟩)
    else (.ok (), w)
  arrmeta_destruct := fun _ w => { w with rest := w.rest + 1 }

def strings (n : ℕ) : base_tuple_type ℕ exception where
  field_types := List.replicate n ⟨.other 16 ⟨8, 3, by decide, rfl⟩, some string_type⟩
  layout_in_arrmeta := true

def nested : base_tuple_type ℕ exception := ⟨[int32_type, (strings 1).toType], true⟩

/-- No memory for the string of a tuple in a tuple. -/
theorem nested_rolled_back : nested.RolledBack 0 1 .bad_alloc (nested.arrmeta_default_construct 0 true ⟨fun _ => 0, 0⟩) := by
  apply (base_tuple_type.rollback_iff nested 0 true ⟨fun _ => 0, 0⟩ _ _ 1 .bad_alloc _ rfl rfl rfl).mpr
  intro ft hft
  obtain rfl := List.mem_singleton.mp hft
  rfl

/-- Memory for the first string only: it is destructed at the offset of the second. -/
theorem strings_not_rolled_back : ¬ ∀ (tp : base_tuple_type ℕ exception) (arrmeta : ℤ) (blockref_alloc : Bool)
    (w wk w' : World ℕ) (k : ℕ) (e : exception) (extended : base_type ℕ exception),
    tp.field_types[k]?.bind type.extended = some extended →
    (tp.field_types.take k).zipIdx.foldlM (tp.constructed arrmeta blockref_alloc) (tp.fill_data_offsets arrmeta w) = some wk →
    extended.arrmeta_default_construct (tp.fieldArrmeta arrmeta k) blockref_alloc wk = (.error e, w') →
    tp.RolledBack arrmeta k e (tp.arrmeta_default_construct arrmeta blockref_alloc w) := by
  intro h
  obtain ⟨-, destructs, hcalls, hperm⟩ := h (strings 2) 0 true ⟨fun _ => 0, 1⟩ _ _ 1 .bad_alloc string_type rfl rfl rfl
  have hboth : [Call.construct 0 16, Call.construct 1 24] ++ [Call.destruct 0 24] =
      [Call.construct 0 16, Call.construct 1 24] ++ destructs := hcalls
  rw [← List.append_cancel_left hboth] at hperm
  have hsame : Call.destruct 0 24 = Call.destruct 0 16 := List.singleton_perm_singleton.mp hperm
  exact absurd (Call.destruct.inj hsame).2 (by decide)

end Dynd.ArrmetaConstruct
