import Mathlib.Tactic
/-!
# Arrays printed in summary

`strided_array_summarized` prints the elements of a dimension one below the
other or in a grid, and leaves out the ones in the middle when there are too
many. It gathers the texts of elements from both ends and decides from their
lines and lengths.

`summary_iff`: for all sizes and texts it prints a prefix and a suffix with
commas between all elements, and dots where elements are left out, just when
some edge cases of both layouts are not met.

Elements are numbered, and `print_data` gives their texts.
-/
namespace Dynd.StridedSummary

def leading_count : ℕ := 7
def trailing_count : ℕ := 3
def row_threshold : ℕ := 10
def col_threshold : ℕ := 30
def packing_cols : ℕ := 75

/-- What is sent to the stream: a literal, an element through
`print_indented(o, " ", ..)`, or an element through `setw`. -/
inductive piece where
  | text (s : String)
  | indented (skipfirstline : Bool) (i : ℕ)
  | padded (width i : ℕ)

section
variable (print_data : ℕ → List UInt8)

def line_count (s : List UInt8) : ℤ := 1 + s.count 10

structure Stats where
  num_rows : ℤ
  max_num_cols : ℕ

def summarize_stats (s : List UInt8) (st : Stats) : Stats := ⟨st.num_rows + line_count s, max st.max_num_cols s.length⟩

/-! ## One below the other -/

/-- The first half of a step: the front of `trailing` goes while there is more than one. -/
def erase_front (num_rows : ℤ) (trailing : List ℕ) : ℤ × List ℕ :=
  if trailing.length > 1 then (num_rows - line_count (print_data (trailing.headD 0)), trailing.tail)
  else (num_rows, trailing)

theorem length_erase_front (num_rows : ℤ) (trailing : List ℕ) :
    (erase_front print_data num_rows trailing).2.length = if trailing.length > 1 then trailing.length - 1 else trailing.length := by
  unfold erase_front
  split_ifs
  · exact List.length_tail
  · rfl

theorem erase_front_of_le (num_rows : ℤ) {trailing : List ℕ} (h : ¬ trailing.length > 1) :
    erase_front print_data num_rows trailing = (num_rows, trailing) := if_neg h

/-- Trim the leading/trailing vectors until we get to our threshold. -/
def trimLoop (num_rows : ℤ) (leading trailing : List ℕ) : List ℕ × List ℕ :=
  if num_rows > row_threshold ∧ (trailing.length > 1 ∨ leading.length > 1) then
    if (erase_front print_data num_rows trailing).1 > row_threshold ∧ leading.length > 1 then
      if (erase_front print_data num_rows trailing).2 = [] then
        trimLoop (erase_front print_data num_rows trailing).1 leading.dropLast [leading.getLastD 0]
      else
        trimLoop ((erase_front print_data num_rows trailing).1 - line_count (print_data (leading.getLastD 0))) leading.dropLast
          (erase_front print_data num_rows trailing).2
    else
      trimLoop (erase_front print_data num_rows trailing).1 leading (erase_front print_data num_rows trailing).2
  else (leading, trailing)
termination_by 2 * leading.length + trailing.length
decreasing_by
  · rw [List.length_dropLast, List.length_singleton]
    omega
  · rw [List.length_dropLast, length_erase_front]
    split_ifs <;> omega
  · rename_i hback
    rw [length_erase_front]
    split_ifs with hlong
    · omega
    · rw [erase_front_of_le print_data num_rows hlong] at hback
      omega

/-- Elements with commas between. -/
def commaLines (skipfirstline : Bool) : List ℕ → List piece
  | [] => []
  | i :: rest => .indented skipfirstline i :: rest.flatMap fun i => [.text ",\n", .indented false i]

/-- `leading.front()` needs an element. -/
def one_per_line (dim_size : ℕ) (leading trailing : List ℕ) : Option (List piece) :=
  if leading = [] then none
  else some ([.text "["] ++ commaLines true leading ++
    (if leading.length ≠ dim_size then
      (if dim_size > leading.length + trailing.length then [.text ",\n ...\n"] else []) ++ commaLines false trailing
    else []) ++ [.text "]"])

/-! ## In a grid -/

/-- Keep getting more strings until we use up our column budget. -/
def packLoop (ilead : ℕ) (itrail : ℤ) (st : Stats) (leading trailing : List ℕ) : Stats × List ℕ × List ℕ :=
  if ilead ≤ itrail ∧ (st.max_num_cols + 2) * (leading.length + trailing.length) < packing_cols * row_threshold then
    let st := summarize_stats (print_data ilead) st
    if (ilead + 1 : ℕ) ≤ itrail then
      packLoop (ilead + 1) (itrail - 1) (summarize_stats (print_data itrail.toNat) st) (leading ++ [ilead])
        (itrail.toNat :: trailing)
    else packLoop (ilead + 1) itrail st (leading ++ [ilead]) trailing
  else (st, leading, trailing)
termination_by (itrail + 1 - ilead).toNat

/-- Remove partial rows; `none` for a remainder by zero. -/
def whole_leading (per_row : ℕ) (leading : List ℕ) : Option (List ℕ) :=
  if leading.length > per_row then
    if per_row = 0 then none
    else if leading.length % per_row ≠ 0 then some (leading.take (leading.length / per_row * per_row))
    else some leading
  else some leading

def whole_trailing (per_row : ℕ) (trailing : List ℕ) : Option (List ℕ) :=
  if trailing.length > per_row then
    if per_row = 0 then none
    else if trailing.length % per_row ≠ 0 then some (trailing.drop (trailing.length % per_row))
    else some trailing
  else some trailing

/-- The rows of a grid; `first` is whether the opening bracket is still to come. -/
def rowsLoop (per_row max_num_cols : ℕ) (first : Bool) : List ℕ → List piece
  | [] => []
  | i :: rest =>
    [.text (if first then "[" else " "), .padded max_num_cols i] ++
      (rest.take (per_row - 1)).flatMap (fun i => [.text ", ", .padded max_num_cols i]) ++
      (if (rest.drop (per_row - 1)).length > 1 then [.text ",\n"] else []) ++
      rowsLoop per_row max_num_cols false (rest.drop (per_row - 1))
termination_by l => l.length

def grid (dim_size max_num_cols : ℕ) (leading trailing : List ℕ) : Option (List piece) :=
  let per_row := packing_cols / (max_num_cols + 2)
  let print (leading trailing : List ℕ) : List piece :=
    (if leading = [] then [.text "["] else []) ++ rowsLoop per_row max_num_cols true leading ++
      (if leading.length ≠ dim_size then [.text ",\n ...\n"] ++ rowsLoop per_row max_num_cols false trailing else []) ++
      [.text "]"]
  -- Combine the lists if the total size is covered
  if leading.length + trailing.length = dim_size then some (print (leading ++ trailing) [])
  else
    (whole_leading per_row leading).bind fun leading =>
      (whole_trailing per_row trailing).map fun trailing => print leading trailing

def strided_array_summarized (dim_size : ℕ) : Option (List piece) :=
  let ilead := min leading_count dim_size
  let leading := List.range ilead
  let itrail := max (dim_size - trailing_count) (ilead + 1)
  let trailing := List.range' itrail (dim_size - itrail)
  let st := (leading ++ trailing).foldl (fun st i => summarize_stats (print_data i) st) ⟨0, 0⟩
  if st.num_rows > (leading.length + trailing.length : ℕ) ∨ st.max_num_cols > col_threshold then
    let trimmed := trimLoop print_data st.num_rows leading trailing
    one_per_line dim_size trimmed.1 trimmed.2
  else
    let packed := packLoop print_data ilead (dim_size - trailing.length - 1) st leading trailing
    grid dim_size packed.1.max_num_cols packed.2.1 packed.2.2

end

/-! ## What is printed -/

/-- The elements that are printed, in order. -/
def elements (ps : List piece) : List ℕ :=
  ps.filterMap fun p =>
    match p with
    | .text _ => none
    | .indented _ i | .padded _ i => some i

/-- Whether an element waits for a comma. -/
def waiting (b : Bool) : List piece → Bool
  | [] => b
  | .text s :: ps => waiting (b && !s.toList.contains ',') ps
  | .indented _ _ :: ps | .padded _ _ :: ps => waiting true ps

/-- Between any two elements there is a comma. -/
def Separated (b : Bool) : List piece → Prop
  | [] => True
  | .text s :: ps => Separated (b && !s.toList.contains ',') ps
  | .indented _ _ :: ps | .padded _ _ :: ps => b = false ∧ Separated true ps

def dots : piece := .text ",\n ...\n"

/-- `a` elements from the front and `b` from the back are printed once each
and in order, with commas, and there are dots just when some are left out. -/
structure Summarizes (dim_size : ℕ) (ps : List piece) (a b : ℕ) : Prop where
  within : a + b ≤ dim_size
  elements : elements ps = List.range a ++ List.range' (dim_size - b) b
  separated : Separated false ps
  dots : dots ∈ ps ↔ a + b < dim_size

def Summary (dim_size : ℕ) (out : Option (List piece)) : Prop := ∃ ps a b, out = some ps ∧ Summarizes dim_size ps a b

section
variable {ps qs : List piece} {b : Bool} {w per_row : ℕ} {l : List ℕ}

@[simp] theorem elements_append : elements (ps ++ qs) = elements ps ++ elements qs := List.filterMap_append

@[simp] theorem elements_nil : elements [] = [] := rfl

@[simp] theorem elements_text (s : String) : elements (.text s :: ps) = elements ps := rfl

theorem waiting_append : ∀ (ps : List piece) (b : Bool), waiting b (ps ++ qs) = waiting (waiting b ps) qs
  | [], _ => rfl
  | .text _ :: ps, _ => waiting_append ps _
  | .indented _ _ :: ps, _ | .padded _ _ :: ps, _ => waiting_append ps _

theorem separated_append : ∀ (ps : List piece) (b : Bool),
    Separated b (ps ++ qs) ↔ Separated b ps ∧ Separated (waiting b ps) qs
  | [], _ => (and_iff_right trivial).symm
  | .text _ :: ps, _ => separated_append ps _
  | .indented _ _ :: ps, _ | .padded _ _ :: ps, _ => (and_congr_right fun _ => separated_append ps _).trans and_assoc.symm

/-- A list of elements with a literal before each that has a comma. -/
theorem separated_flatMap {s : String} {f : ℕ → piece} (hs : s.toList.contains ',' = true)
    (hf : ∀ i b ps, (Separated b (f i :: ps) ↔ b = false ∧ Separated true ps) ∧ waiting b (f i :: ps) = waiting true ps)
    (l : List ℕ) (b : Bool) : Separated b (l.flatMap fun i => [.text s, f i]) := by
  induction l generalizing b with
  | nil => trivial
  | cons i l ih =>
    rw [List.flatMap_cons, List.cons_append, List.singleton_append]
    refine ((hf i _ _).1).mpr ⟨?_, ih true⟩
    rw [hs, Bool.not_true, Bool.and_false]

theorem commaLines_separated (skip : Bool) (l : List ℕ) : Separated false (commaLines skip l) := by
  cases l with
  | nil => trivial
  | cons i l => exact ⟨rfl, separated_flatMap (by decide) (fun _ _ _ => ⟨Iff.rfl, rfl⟩) l true⟩

theorem elements_flatMap {s : String} {f : ℕ → piece} (hf : ∀ i, elements [f i] = [i]) (l : List ℕ) :
    elements (l.flatMap fun i => [.text s, f i]) = l := by
  induction l with
  | nil => rfl
  | cons i l ih =>
    rw [List.flatMap_cons, elements_append, ih, elements_text, hf, List.singleton_append]

theorem elements_commaLines (skip : Bool) (l : List ℕ) : elements (commaLines skip l) = l := by
  cases l with
  | nil => rfl
  | cons i l => exact congrArg (i :: ·) (elements_flatMap (fun _ => rfl) l)

/-! ## The rows of a grid -/

theorem waiting_row (w : ℕ) (l : List ℕ) : waiting true (l.flatMap fun i => [.text ", ", .padded w i]) = true := by
  induction l with
  | nil => rfl
  | cons i l ih =>
    rw [List.flatMap_cons, waiting_append]
    exact ih

theorem rowsLoop_cons (per_row w : ℕ) (first : Bool) (i : ℕ) (rest : List ℕ) : rowsLoop per_row w first (i :: rest) =
    [.text (if first then "[" else " "), .padded w i] ++
      (rest.take (per_row - 1)).flatMap (fun i => [.text ", ", .padded w i]) ++
      (if (rest.drop (per_row - 1)).length > 1 then [.text ",\n"] else []) ++
      rowsLoop per_row w false (rest.drop (per_row - 1)) := by
  rw [rowsLoop]

theorem elements_rowsLoop (per_row w : ℕ) : ∀ (l : List ℕ) (first : Bool), elements (rowsLoop per_row w first l) = l
  | [], first => by
    rw [rowsLoop]
    rfl
  | i :: rest, first => by
    have hcomma : elements (if (rest.drop (per_row - 1)).length > 1 then [.text ",\n"] else []) = [] := by
      split_ifs <;> rfl
    rw [rowsLoop_cons, elements_append, elements_append, elements_append, hcomma, List.append_nil,
      elements_flatMap (fun _ => rfl), elements_rowsLoop per_row w (rest.drop (per_row - 1)) false, List.append_assoc,
      List.take_append_drop]
    rfl
termination_by l => l.length
decreasing_by
  rw [List.length_drop, List.length_cons]
  omega

/-- The first row, up to the comma that should end it. -/
theorem row_separated (w : ℕ) (first : Bool) (i : ℕ) (row : List ℕ) {rest : List piece} :
    Separated false ([.text (if first then "[" else " "), .padded w i] ++
      row.flatMap (fun i => [.text ", ", .padded w i]) ++ rest) ↔ Separated true rest := by
  have hopen : (if first then "[" else " ").toList.contains ',' = false := by cases first <;> decide
  rw [separated_append, separated_append, waiting_append]
  have hrow : waiting (waiting false [.text (if first then "[" else " "), .padded w i])
      (row.flatMap fun i => [.text ", ", .padded w i]) = true := waiting_row w row
  rw [hrow]
  refine and_iff_right ⟨⟨?_, trivial⟩, separated_flatMap (by decide) (fun _ _ _ => ⟨Iff.rfl, rfl⟩) row _⟩
  rw [hopen, Bool.not_false]
  rfl

theorem rows_separated_iff (per_row w : ℕ) : ∀ (l : List ℕ) (first : Bool),
    Separated false (rowsLoop per_row w first l) ↔ l.length ≤ 1 ∨ (2 ≤ per_row ∧ l.length % per_row ≠ 1)
  | [], first => by
    rw [rowsLoop]
    exact iff_of_true trivial (.inl (Nat.zero_le 1))
  | i :: rest, first => by
    have hlength : (rest.drop (per_row - 1)).length = rest.length - (per_row - 1) := List.length_drop
    rw [rowsLoop_cons, List.append_assoc _ _ (rowsLoop _ _ _ _), row_separated, List.length_cons]
    rcases Nat.lt_trichotomy (rest.drop (per_row - 1)).length 1 with hnone | hone | hmore
    · -- the last row
      have hnil : rest.drop (per_row - 1) = [] := List.length_eq_zero_iff.mp (by omega)
      rw [if_neg (by omega), hnil, rowsLoop]
      refine iff_of_true trivial ?_
      rcases Nat.lt_or_ge per_row 2 with hlt | hge
      · left
        omega
      · rcases Nat.lt_or_ge (rest.length + 1) per_row with hrow | hrow
        · by_cases h1 : rest.length + 1 = 1
          · exact .inl (by omega)
          · exact .inr ⟨hge, by rw [Nat.mod_eq_of_lt hrow]; exact h1⟩
        · have hfull : rest.length + 1 = per_row := by omega
          rw [hfull, Nat.mod_self]
          exact .inr ⟨hge, by decide⟩
    · -- one element is left: no comma goes before it
      obtain ⟨x, hx⟩ := List.length_eq_one_iff.mp hone
      rw [if_neg (by omega), hx, rowsLoop_cons]
      refine iff_of_false (fun h => ?_) ?_
      · have hspace : (true && !(" ".toList.contains ',')) = true := by decide
        change (true && !(" ".toList.contains ',')) = false ∧ _ at h
        rw [hspace] at h
        exact absurd h.1 (by decide)
      · rintro (h | ⟨hge, hmod⟩)
        · omega
        · rw [show rest.length + 1 = 1 + per_row by omega, Nat.add_mod_right, Nat.mod_eq_of_lt (by omega)] at hmod
          exact hmod rfl
    · rw [if_pos hmore]
      have hcomma : Separated true ([.text ",\n"] ++ rowsLoop per_row w false (rest.drop (per_row - 1))) ↔
          Separated false (rowsLoop per_row w false (rest.drop (per_row - 1))) := Iff.rfl
      rw [hcomma, rows_separated_iff per_row w (rest.drop (per_row - 1)) false]
      constructor
      · rintro (h | ⟨hge, hmod⟩)
        · omega
        · refine .inr ⟨hge, ?_⟩
          rwa [show rest.length + 1 = (rest.drop (per_row - 1)).length + per_row by omega, Nat.add_mod_right]
      · rintro (h | ⟨hge, hmod⟩)
        · omega
        · refine .inr ⟨hge, ?_⟩
          rwa [show rest.length + 1 = (rest.drop (per_row - 1)).length + per_row by omega, Nat.add_mod_right] at hmod
termination_by l => l.length
decreasing_by
  rw [List.length_drop, List.length_cons]
  omega

/-! ## Trimming -/

theorem dropLast_range (a : ℕ) : (List.range (a + 1)).dropLast = List.range a := by
  rw [List.range_succ, List.dropLast_concat]

theorem getLastD_range (a : ℕ) : (List.range (a + 1)).getLastD 0 = a := by
  rw [List.range_succ, List.getLastD_concat]

section
variable (print_data : ℕ → List UInt8)

theorem trimLoop_eq (num_rows : ℤ) (leading trailing : List ℕ) : trimLoop print_data num_rows leading trailing =
    if num_rows > row_threshold ∧ (trailing.length > 1 ∨ leading.length > 1) then
      if (erase_front print_data num_rows trailing).1 > row_threshold ∧ leading.length > 1 then
        if (erase_front print_data num_rows trailing).2 = [] then
          trimLoop print_data (erase_front print_data num_rows trailing).1 leading.dropLast [leading.getLastD 0]
        else
          trimLoop print_data ((erase_front print_data num_rows trailing).1 - line_count (print_data (leading.getLastD 0)))
            leading.dropLast (erase_front print_data num_rows trailing).2
      else
        trimLoop print_data (erase_front print_data num_rows trailing).1 leading (erase_front print_data num_rows trailing).2
    else (leading, trailing) := by
  rw [trimLoop]

theorem erase_front_suffix (num_rows : ℤ) {trailing : List ℕ} (h : trailing ≠ []) :
    (erase_front print_data num_rows trailing).2 ≠ [] ∧ (erase_front print_data num_rows trailing).2 <:+ trailing := by
  have hlength := length_erase_front print_data num_rows trailing
  have hpos := List.length_pos_iff.mpr h
  refine ⟨List.ne_nil_of_length_pos (by rw [hlength]; split_ifs <;> omega), ?_⟩
  unfold erase_front
  split_ifs
  · exact List.tail_suffix _
  · exact List.suffix_refl _

/-- A prefix and a suffix are left, neither of them empty. -/
theorem trimLoop_spec (num_rows : ℤ) (a : ℕ) (l : List ℕ) (ha : 1 ≤ a) (hl : l ≠ []) :
    ∃ a' l', trimLoop print_data num_rows (List.range a) l = (List.range a', l') ∧ 1 ≤ a' ∧ a' ≤ a ∧ l' ≠ [] ∧ l' <:+ l ∧
      (num_rows > row_threshold → l.length = 1 → 1 < a → a' < a) := by
  obtain ⟨hne, hsuffix⟩ := erase_front_suffix print_data num_rows hl
  have hlength := length_erase_front print_data num_rows l
  have hpos := List.length_pos_iff.mpr hl
  rw [trimLoop_eq, List.length_range]
  split_ifs with hmore hback
  · obtain ⟨a, rfl⟩ : ∃ k, a = k + 1 := ⟨a - 1, by omega⟩
    obtain ⟨a', l', he, h1, hle, hne', hsuffix', -⟩ := trimLoop_spec
      ((erase_front print_data num_rows l).1 - line_count (print_data ((List.range (a + 1)).getLastD 0))) a
      (erase_front print_data num_rows l).2 (by omega) hne
    rw [dropLast_range]
    exact ⟨a', l', he, h1, by omega, hne', hsuffix'.trans hsuffix, fun _ _ _ => by omega⟩
  · have hshort : (erase_front print_data num_rows l).2.length < l.length := by
      rw [hlength]
      split_ifs with hlong
      · omega
      · rw [erase_front_of_le print_data num_rows hlong] at hback
        omega
    obtain ⟨a', l', he, h1, hle, hne', hsuffix', -⟩ := trimLoop_spec (erase_front print_data num_rows l).1 a
      (erase_front print_data num_rows l).2 ha hne
    refine ⟨a', l', he, h1, hle, hne', hsuffix'.trans hsuffix, fun _ hone h1a => ?_⟩
    rw [hone] at hshort
    have := List.length_pos_iff.mpr hne
    omega
  · exact ⟨a, l, rfl, ha, le_rfl, hl, List.suffix_refl l, fun hrows hone h1a => absurd ⟨hrows, .inr h1a⟩ hmore⟩
termination_by 2 * a + l.length
decreasing_by
  · rw [hlength]
    split_ifs <;> omega
  · omega

/-- With no suffix yet, the last of the prefix is made one. -/
theorem trimLoop_nil (num_rows : ℤ) (a : ℕ) : trimLoop print_data num_rows (List.range (a + 1)) [] =
    if num_rows > row_threshold ∧ 1 ≤ a then trimLoop print_data num_rows (List.range a) [a]
    else (List.range (a + 1), []) := by
  have hfront : erase_front print_data num_rows [] = (num_rows, []) := rfl
  rw [trimLoop_eq, List.length_range, hfront, dropLast_range, getLastD_range]
  dsimp only
  by_cases h : num_rows > row_threshold ∧ 1 ≤ a
  · rw [if_pos ⟨h.1, .inr (by omega)⟩, if_pos ⟨h.1, by omega⟩, if_pos rfl, if_pos h]
  · rw [if_neg h, if_neg]
    rintro ⟨hrows, hlen | hlen⟩
    · exact absurd hlen (by decide)
    · exact h ⟨hrows, by omega⟩

end

/-! ## One below the other -/

section
variable {n a b : ℕ}

theorem suffix_range' {l : List ℕ} {s m : ℕ} (h : l <:+ List.range' s m) :
    l = List.range' (s + m - l.length) l.length := by
  obtain ⟨t, ht⟩ := h
  have hlen := congrArg List.length ht
  rw [List.length_append, List.length_range'] at hlen
  have hsplit : List.range' s m = List.range' s t.length ++ List.range' (s + t.length) l.length := by
    rw [List.range'_append_1, hlen]
  rw [hsplit] at ht
  have hl := (List.append_inj ht (by rw [List.length_range'])).2
  rw [show s + m - l.length = s + t.length by omega]
  exact hl

theorem waiting_commaLines (skip : Bool) {l : List ℕ} (hl : l ≠ []) (c : Bool) : waiting c (commaLines skip l) = true := by
  have hrow : ∀ l : List ℕ, waiting true (l.flatMap fun i => [.text ",\n", .indented false i]) = true := by
    intro l
    induction l with
    | nil => rfl
    | cons i l ih =>
      rw [List.flatMap_cons, waiting_append]
      exact ih
  cases l with
  | nil => exact absurd rfl hl
  | cons i l => exact hrow l

theorem not_mem_commaLines (skip : Bool) (l : List ℕ) : dots ∉ commaLines skip l := by
  unfold dots
  cases l with
  | nil => exact List.not_mem_nil
  | cons i l => simp [commaLines]

/-- A whole dimension, or a prefix and a suffix with something left out. -/
theorem one_per_line_summary (ha : 1 ≤ a) (h : a = n ∧ b = 0 ∨ a + b < n) :
    Summary n (one_per_line n (List.range a) (List.range' (n - b) b)) := by
  have hne : List.range a ≠ [] := List.ne_nil_of_length_pos (by rw [List.length_range]; exact ha)
  unfold one_per_line
  rw [if_neg hne, List.length_range, List.length_range']
  refine ⟨_, a, b, rfl, by omega, ?_, ?_, ?_⟩
  · rcases h with ⟨rfl, rfl⟩ | h
    · rw [if_neg (not_not.mpr rfl)]
      simp [elements_commaLines]
    · rw [if_pos (by omega), if_pos (by omega)]
      simp [elements_commaLines]
  · rcases h with ⟨rfl, rfl⟩ | h
    · rw [if_neg (not_not.mpr rfl), List.append_nil, separated_append]
      exact ⟨commaLines_separated true _, trivial⟩
    · rw [if_pos (by omega), if_pos (by omega), separated_append, separated_append]
      refine ⟨⟨commaLines_separated true _, ?_⟩, trivial⟩
      have hcomma : ∀ c : Bool, (c && !(",\n ...\n".toList.contains ',')) = false := by decide
      change Separated (_ && _) (commaLines false _)
      rw [hcomma]
      exact commaLines_separated false _
  · rcases h with ⟨rfl, rfl⟩ | h
    · rw [if_neg (not_not.mpr rfl)]
      refine iff_of_false ?_ (by omega)
      have hnot := not_mem_commaLines true (List.range a)
      unfold dots at hnot ⊢
      simp [hnot]
    · rw [if_pos (by omega), if_pos (by omega)]
      refine iff_of_true ?_ h
      unfold dots
      simp

/-- Nothing goes between a prefix and a suffix with nothing left out. -/
theorem one_per_line_touching (ha : 1 ≤ a) (hb : 1 ≤ b) (h : a + b = n) :
    ¬ Summary n (one_per_line n (List.range a) (List.range' (n - b) b)) := by
  have hne : List.range a ≠ [] := List.ne_nil_of_length_pos (by rw [List.length_range]; exact ha)
  obtain ⟨b, rfl⟩ : ∃ k, b = k + 1 := ⟨b - 1, by omega⟩
  rintro ⟨ps, a', b', hps, hsummary⟩
  have hseparated := hsummary.separated
  unfold one_per_line at hps
  rw [if_neg hne, List.length_range, List.length_range', if_pos (by omega), if_neg (by omega), List.nil_append] at hps
  obtain rfl := Option.some.inj hps
  rw [separated_append, separated_append, waiting_append, waiting_commaLines true hne, List.range'_succ] at hseparated
  exact absurd hseparated.1.2.1 (by decide)

theorem elements_one_per_line {leading trailing : List ℕ} {ps : List piece} (h : one_per_line n leading trailing = some ps)
    (hlead : leading.length ≠ n) : elements ps = leading ++ trailing := by
  unfold one_per_line at h
  split_ifs at h <;> obtain rfl := Option.some.inj h <;> simp [elements_commaLines]

/-- The last element is left out, and the one before it is printed after the dots. -/
theorem one_per_line_moved (ha : a < 6) : ¬ Summary 8 (one_per_line 8 (List.range a) [6]) := by
  rintro ⟨ps, x, y, hps, hsummary⟩
  have helements := hsummary.elements
  rw [elements_one_per_line hps (by rw [List.length_range]; omega)] at helements
  have hlast := congrArg List.getLast? helements
  rw [List.getLast?_concat] at hlast
  have hlength := congrArg List.length helements
  rw [List.length_append, List.length_append, List.length_range, List.length_range, List.length_range',
    List.length_singleton] at hlength
  have hwithin := hsummary.within
  cases y with
  | zero =>
    obtain ⟨x, rfl⟩ : ∃ k, x = k + 1 := ⟨x - 1, by omega⟩
    rw [List.range'_zero, List.append_nil, List.range_succ, List.getLast?_concat] at hlast
    have := Option.some.inj hlast
    omega
  | succ y =>
    rw [List.range'_1_concat, ← List.append_assoc, List.getLast?_concat] at hlast
    have := Option.some.inj hlast
    omega

theorem trimmed_summary_iff (print_data : ℕ → List UInt8) (num_rows : ℤ) (hn : 1 ≤ n) {start : ℕ}
    (hstart : start = max (n - trailing_count) (min leading_count n + 1)) :
    Summary n (one_per_line n
      (trimLoop print_data num_rows (List.range (min leading_count n)) (List.range' start (n - start))).1
      (trimLoop print_data num_rows (List.range (min leading_count n)) (List.range' start (n - start))).2) ↔
    num_rows ≤ row_threshold ∨ (n ≠ 2 ∧ n ≠ 8) := by
  unfold leading_count trailing_count at *
  rcases Nat.lt_or_ge n 9 with hlt | hge
  · have hnil : List.range' start (n - start) = [] := by
      rw [show n - start = 0 by omega]
      rfl
    obtain ⟨k, hk⟩ : ∃ k, min 7 n = k + 1 := ⟨min 7 n - 1, by omega⟩
    rw [hnil, hk, trimLoop_nil]
    by_cases hmove : num_rows > row_threshold ∧ 1 ≤ k
    · rw [if_pos hmove]
      obtain ⟨a', l', he, h1, hle, hne, hsuffix, hless⟩ := trimLoop_spec print_data num_rows k [k] hmove.2 (List.cons_ne_nil _ _)
      obtain rfl : l' = [k] := by
        rcases List.suffix_cons_iff.mp hsuffix with h | h
        · exact h
        · exact absurd (List.suffix_nil.mp h) hne
      rw [he]
      dsimp only
      by_cases h8 : n = 8
      · obtain rfl : k = 6 := by omega
        subst h8
        exact iff_of_false (one_per_line_moved (hless hmove.1 rfl (by decide))) (by omega)
      · have hlast : [k] = List.range' (n - 1) 1 := by
          rw [show n - 1 = k by omega]
          rfl
        rw [hlast]
        by_cases h2 : n = 2
        · exact iff_of_false (one_per_line_touching h1 le_rfl (by omega)) (by omega)
        · have := hless hmove.1 rfl (by omega)
          exact iff_of_true (one_per_line_summary h1 (.inr (by omega))) (by omega)
    · rw [if_neg hmove]
      refine iff_of_true ?_ (by omega)
      exact @one_per_line_summary n (k + 1) 0 (by omega) (by omega)
  · have hne : List.range' start (n - start) ≠ [] := List.ne_nil_of_length_pos (by rw [List.length_range']; omega)
    obtain ⟨a', l', he, h1, hle, -, hsuffix, -⟩ := trimLoop_spec print_data num_rows (min 7 n) _ (by omega) hne
    have hlength := hsuffix.length_le
    rw [List.length_range'] at hlength
    rw [he]
    dsimp only
    rw [suffix_range' hsuffix, show start + (n - start) = n by omega]
    exact iff_of_true (one_per_line_summary h1 (.inr (by omega))) (by omega)

end

/-! ## In a grid -/

section
variable {n a b w per_row : ℕ}

theorem not_mem_rowsLoop (per_row w : ℕ) : ∀ (l : List ℕ) (first : Bool), dots ∉ rowsLoop per_row w first l
  | [], first => by
    rw [rowsLoop]
    exact List.not_mem_nil
  | i :: rest, first => by
    have hrest := not_mem_rowsLoop per_row w (rest.drop (per_row - 1)) false
    unfold dots at hrest ⊢
    rw [rowsLoop_cons]
    cases first <;> split_ifs <;> simp [hrest]
termination_by l => l.length
decreasing_by
  rw [List.length_drop, List.length_cons]
  omega

/-- No row but the first has a single element. -/
def RowsFilled (per_row m : ℕ) : Prop := m ≤ 1 ∨ (2 ≤ per_row ∧ m % per_row ≠ 1)

/-- What is printed of a prefix and a suffix. -/
def gridPieces (n per_row w : ℕ) (leading trailing : List ℕ) : List piece :=
  (if leading = [] then [.text "["] else []) ++ rowsLoop per_row w true leading ++
    (if leading.length ≠ n then [.text ",\n ...\n"] ++ rowsLoop per_row w false trailing else []) ++ [.text "]"]

theorem grid_eq (n w : ℕ) (leading trailing : List ℕ) : grid n w leading trailing =
    if leading.length + trailing.length = n then some (gridPieces n (packing_cols / (w + 2)) w (leading ++ trailing) [])
    else (whole_leading (packing_cols / (w + 2)) leading).bind fun leading =>
      (whole_trailing (packing_cols / (w + 2)) trailing).map fun trailing =>
        gridPieces n (packing_cols / (w + 2)) w leading trailing := rfl

theorem separated_gridPieces {leading trailing : List ℕ} : Separated false (gridPieces n per_row w leading trailing) ↔
    RowsFilled per_row leading.length ∧ (leading.length ≠ n → RowsFilled per_row trailing.length) := by
  have hopen : Separated false (if leading = [] then [.text "["] else []) ∧
      waiting false (if leading = [] then [.text "["] else []) = false := by
    split_ifs <;> exact ⟨trivial, rfl⟩
  have hclose : ∀ c : Bool, Separated c [.text "]"] := fun _ => trivial
  unfold gridPieces
  rw [separated_append, separated_append, separated_append, hopen.2, and_iff_left (hclose _), and_iff_right hopen.1,
    rows_separated_iff]
  apply and_congr_right
  intro _
  by_cases hn : leading.length = n
  · rw [if_neg (not_not.mpr hn)]
    exact iff_of_true trivial fun h => absurd hn h
  · rw [if_pos hn]
    have hcomma : ∀ c : Bool, (c && !(",\n ...\n".toList.contains ',')) = false := by decide
    change Separated (_ && _) (rowsLoop per_row w false trailing) ↔ _
    rw [hcomma, rows_separated_iff]
    exact ⟨fun h _ => h, fun h => h hn⟩

theorem elements_gridPieces {leading trailing : List ℕ} : elements (gridPieces n per_row w leading trailing) =
    leading ++ if leading.length ≠ n then trailing else [] := by
  have hopen : elements (if leading = [] then [.text "["] else []) = [] := by split_ifs <;> rfl
  unfold gridPieces
  rw [elements_append, elements_append, elements_append, hopen, elements_rowsLoop, List.nil_append]
  split_ifs
  · rw [elements_append, elements_rowsLoop]
    exact List.append_nil _
  · exact List.append_nil _

theorem dots_mem_gridPieces {leading trailing : List ℕ} : dots ∈ gridPieces n per_row w leading trailing ↔ leading.length ≠ n := by
  have hrows := not_mem_rowsLoop per_row w leading true
  unfold dots at hrows ⊢
  unfold gridPieces
  by_cases hn : leading.length = n
  · refine iff_of_false ?_ (not_not.mpr hn)
    rw [if_neg (not_not.mpr hn)]
    split_ifs <;> simp [hrows]
  · refine iff_of_true ?_ hn
    rw [if_pos hn]
    simp

/-- All elements have been read. -/
theorem grid_covered_iff {leading trailing : List ℕ} (h : leading ++ trailing = List.range n) :
    Summary n (grid n w leading trailing) ↔ RowsFilled (packing_cols / (w + 2)) n := by
  have hlength : leading.length + trailing.length = n := by rw [← List.length_append, h, List.length_range]
  rw [grid_eq, if_pos hlength, h]
  have hseparated := @separated_gridPieces n w (packing_cols / (w + 2)) (List.range n) []
  rw [List.length_range] at hseparated
  constructor
  · rintro ⟨ps, a, b, hps, hsummary⟩
    obtain rfl := Option.some.inj hps
    exact (hseparated.mp hsummary.separated).1
  · intro hfilled
    refine ⟨_, n, 0, rfl, le_rfl, ?_, hseparated.mpr ⟨hfilled, fun hn => absurd rfl hn⟩, ?_⟩
    · rw [elements_gridPieces, List.length_range, if_neg (not_not.mpr rfl)]
      rfl
    · rw [dots_mem_gridPieces, List.length_range]
      omega

theorem whole_leading_range (hrow : 2 ≤ per_row) (ha : 1 ≤ a) : ∃ a', whole_leading per_row (List.range a) = some (List.range a') ∧
    1 ≤ a' ∧ a' ≤ a ∧ RowsFilled per_row a' := by
  unfold whole_leading RowsFilled
  rw [List.length_range]
  split_ifs with hlong hzero hpart
  · omega
  · have hle : a / per_row * per_row ≤ a := Nat.div_mul_le_self a per_row
    have hone : 1 ≤ a / per_row * per_row := Nat.mul_pos (Nat.div_pos (by omega) (by omega)) (by omega)
    refine ⟨a / per_row * per_row, ?_, hone, hle, .inr ⟨hrow, ?_⟩⟩
    · rw [List.take_range, Nat.min_eq_left hle]
    · rw [Nat.mul_mod_left]
      decide
  · exact ⟨a, rfl, ha, le_rfl, .inr ⟨hrow, by omega⟩⟩
  · refine ⟨a, rfl, ha, le_rfl, ?_⟩
    rcases Nat.lt_or_ge a per_row with hlt | hge
    · rw [Nat.mod_eq_of_lt hlt]
      omega
    · rw [show a = per_row by omega, Nat.mod_self]
      omega

theorem whole_trailing_range (hrow : 2 ≤ per_row) (hb : b ≤ n) :
    ∃ b', whole_trailing per_row (List.range' (n - b) b) = some (List.range' (n - b') b') ∧ b' ≤ b ∧ RowsFilled per_row b' := by
  unfold whole_trailing RowsFilled
  rw [List.length_range']
  split_ifs with hlong hzero hpart
  · omega
  · have hle : b % per_row ≤ b := Nat.mod_le b per_row
    refine ⟨b - b % per_row, ?_, Nat.sub_le _ _, .inr ⟨hrow, ?_⟩⟩
    · rw [List.drop_range', mul_one, show n - b + b % per_row = n - (b - b % per_row) by omega]
    · rw [Nat.sub_mod_eq_zero_of_mod_eq (Nat.mod_mod b per_row).symm]
      decide
  · exact ⟨b, rfl, le_rfl, .inr ⟨hrow, by omega⟩⟩
  · refine ⟨b, rfl, le_rfl, ?_⟩
    rcases Nat.lt_or_ge b per_row with hlt | hge
    · rw [Nat.mod_eq_of_lt hlt]
      omega
    · rw [show b = per_row by omega, Nat.mod_self]
      omega

/-- Some elements have not been read. -/
theorem grid_partial_iff (ha : 2 ≤ a) (h : a + b < n) :
    Summary n (grid n w (List.range a) (List.range' (n - b) b)) ↔ 2 ≤ packing_cols / (w + 2) := by
  rw [grid_eq, List.length_range, List.length_range', if_neg (by omega)]
  generalize packing_cols / (w + 2) = per_row
  constructor
  · intro hsummary
    by_contra hrow
    obtain ⟨ps, x, y, hps, hsummary⟩ := hsummary
    obtain ⟨leading, hleading, hps⟩ := Option.bind_eq_some_iff.mp hps
    obtain ⟨trailing, -, rfl⟩ := Option.map_eq_some_iff.mp hps
    -- rows of one element, when there is a remainder at all
    obtain rfl : List.range a = leading := by
      unfold whole_leading at hleading
      rw [List.length_range] at hleading
      split_ifs at hleading with hlong hzero hpart
      · rw [show per_row = 1 by omega, Nat.mod_one] at hpart
        exact absurd rfl hpart
      · exact Option.some.inj hleading
      · exact Option.some.inj hleading
    have hfilled := (separated_gridPieces.mp hsummary.separated).1
    rw [List.length_range] at hfilled
    unfold RowsFilled at hfilled
    omega
  · intro hrow
    obtain ⟨a', hleading, h1, hle, hfilled⟩ := whole_leading_range hrow (show 1 ≤ a by omega)
    obtain ⟨b', htrailing, hle', hfilled'⟩ := @whole_trailing_range n b per_row hrow (by omega)
    rw [hleading, htrailing]
    refine ⟨_, a', b', rfl, by omega, ?_, separated_gridPieces.mpr ⟨?_, fun _ => ?_⟩, ?_⟩
    · rw [elements_gridPieces, List.length_range, if_pos (by omega)]
    · rwa [List.length_range]
    · rwa [List.length_range']
    · rw [dots_mem_gridPieces, List.length_range]
      omega

end

end

/-! ## What is read -/

section
variable (print_data : ℕ → List UInt8) (n : ℕ)

def longest (l : List ℕ) : ℕ := l.foldr (fun i m => max (print_data i).length m) 0

def lines (l : List ℕ) : ℤ := (l.map fun i => line_count (print_data i)).sum

/-- How many elements are read first from the front, and from the back: there
is always one left out between. -/
def lead : ℕ := min leading_count n

def trail : ℕ := n - max (n - trailing_count) (lead n + 1)

/-- The elements that have been read after `s` more from each end. -/
def read (s : ℕ) : List ℕ := List.range (lead n + s) ++ List.range' (n - (trail n + s)) (trail n + s)

/-- The column budget is used up after `s` more from each end. -/
def UsedUp (s : ℕ) : Prop :=
  packing_cols * row_threshold ≤ (longest print_data (read n s) + 2) * (lead n + s + (trail n + s))

/-- It lasts for all elements. -/
def Covered : Prop := ∀ s, lead n + s + (trail n + s) < n → ¬ UsedUp print_data n s

/-- It is used up there first. -/
structure StopsAt (s : ℕ) : Prop where
  unread : lead n + s + (trail n + s) < n
  used_up : UsedUp print_data n s
  first : ∀ s' < s, ¬ UsedUp print_data n s'

variable {print_data n}

theorem longest_cons (i : ℕ) (l : List ℕ) : longest print_data (i :: l) = max (print_data i).length (longest print_data l) := rfl

theorem longest_append (l l' : List ℕ) : longest print_data (l ++ l') = max (longest print_data l) (longest print_data l') := by
  induction l with
  | nil => exact (Nat.zero_max _).symm
  | cons i l ih => exact (congrArg (max _) ih).trans (max_assoc _ _ _).symm

theorem longest_range_succ (i : ℕ) :
    longest print_data (List.range (i + 1)) = max (longest print_data (List.range i)) (print_data i).length := by
  rw [List.range_succ, longest_append]
  exact congrArg (max _) (Nat.max_zero _)

theorem foldl_stats (l : List ℕ) (st : Stats) : l.foldl (fun st i => summarize_stats (print_data i) st) st =
    ⟨st.num_rows + lines print_data l, max st.max_num_cols (longest print_data l)⟩ := by
  induction l generalizing st with
  | nil => exact congrArg₂ Stats.mk (Int.add_zero _).symm (Nat.max_zero _).symm
  | cons i l ih =>
    rw [List.foldl_cons, ih]
    exact congrArg₂ Stats.mk (Int.add_assoc _ _ _) (max_assoc _ _ _)

theorem packLoop_eq (ilead : ℕ) (itrail : ℤ) (st : Stats) (leading trailing : List ℕ) :
    packLoop print_data ilead itrail st leading trailing =
      if ilead ≤ itrail ∧ (st.max_num_cols + 2) * (leading.length + trailing.length) < packing_cols * row_threshold then
        if (ilead + 1 : ℕ) ≤ itrail then
          packLoop print_data (ilead + 1) (itrail - 1)
            (summarize_stats (print_data itrail.toNat) (summarize_stats (print_data ilead) st)) (leading ++ [ilead])
            (itrail.toNat :: trailing)
        else packLoop print_data (ilead + 1) itrail (summarize_stats (print_data ilead) st) (leading ++ [ilead]) trailing
      else (st, leading, trailing) := by
  rw [packLoop]

/-- What the loop leaves. -/
def Packed (print_data : ℕ → List UInt8) (n : ℕ) (r : Stats × List ℕ × List ℕ) : Prop :=
  (Covered print_data n ∧ r.2.1 ++ r.2.2 = List.range n ∧ r.1.max_num_cols = longest print_data (List.range n)) ∨
    ∃ s, StopsAt print_data n s ∧ r.2.1 = List.range (lead n + s) ∧
      r.2.2 = List.range' (n - (trail n + s)) (trail n + s) ∧ r.1.max_num_cols = longest print_data (read n s)

theorem range_append_all {i j : ℕ} (h : i + j = n) : List.range i ++ List.range' (n - j) j = List.range n := by
  rw [List.range_eq_range', List.range_eq_range', show n - j = 0 + i by omega, List.range'_append_1, h]

theorem packLoop_spec (s : ℕ) (st : Stats) (hin : lead n + s + (trail n + s) ≤ n)
    (hst : st.max_num_cols = longest print_data (read n s)) (hbefore : ∀ s' < s, ¬ UsedUp print_data n s') :
    Packed print_data n (packLoop print_data (lead n + s) ((n : ℤ) - (trail n + s : ℕ) - 1) st (List.range (lead n + s))
      (List.range' (n - (trail n + s)) (trail n + s))) := by
  rw [packLoop_eq, List.length_range, List.length_range', hst]
  by_cases hmore : lead n + s + (trail n + s) < n
  · by_cases hused : UsedUp print_data n s
    · rw [if_neg fun h => absurd hused (Nat.not_le.mpr h.2)]
      exact .inr ⟨s, ⟨hmore, hused, hbefore⟩, rfl, rfl, hst⟩
    · rw [if_pos ⟨by omega, Nat.not_le.mp hused⟩]
      have hbefore' : ∀ s' < s + 1, ¬ UsedUp print_data n s' := by
        intro s' hs'
        rcases Nat.lt_succ_iff_lt_or_eq.mp hs' with h | rfl
        · exact hbefore s' h
        · exact hused
      have htoNat : ((n : ℤ) - (trail n + s : ℕ) - 1).toNat = n - (trail n + (s + 1)) := by omega
      have hleading : List.range (lead n + s) ++ [lead n + s] = List.range (lead n + s + 1) := List.range_succ.symm
      rw [hleading]
      by_cases htwo : lead n + s + 1 + (trail n + s) < n
      · have htrailing : (n - (trail n + (s + 1))) :: List.range' (n - (trail n + s)) (trail n + s) =
            List.range' (n - (trail n + (s + 1))) (trail n + (s + 1)) := by
          rw [← Nat.add_assoc (trail n), List.range'_succ, show n - (trail n + s + 1) + 1 = n - (trail n + s) by omega]
        have hnext : (n : ℤ) - (trail n + s : ℕ) - 1 - 1 = (n : ℤ) - (trail n + (s + 1) : ℕ) - 1 := by omega
        rw [if_pos (by omega), htoNat, htrailing, hnext]
        refine packLoop_spec (s + 1) _ (by omega) ?_ hbefore'
        have hread : longest print_data (read n (s + 1)) =
            max (max (longest print_data (read n s)) (print_data (lead n + s)).length)
              (print_data (n - (trail n + (s + 1)))).length := by
          unfold read
          rw [longest_append, longest_append, ← htrailing, longest_cons, ← Nat.add_assoc (lead n), longest_range_succ]
          simp only [max_assoc, max_comm, max_left_comm]
        rw [hread, ← hst]
        rfl
      · rw [if_neg (by omega), packLoop_eq, if_neg fun h => absurd h.1 (by omega)]
        refine .inl ⟨fun s' hs' => hbefore' s' (by omega), range_append_all (by omega), ?_⟩
        have hread : longest print_data (List.range n) =
            max (longest print_data (read n s)) (print_data (lead n + s)).length := by
          rw [← range_append_all (show lead n + s + 1 + (trail n + s) = n by omega), longest_append, longest_range_succ]
          unfold read
          rw [longest_append]
          simp only [max_assoc, max_comm]
        rw [hread, ← hst]
        rfl
  · rw [if_neg fun h => absurd h.1 (by omega)]
    have hall : lead n + s + (trail n + s) = n := by omega
    refine .inl ⟨fun s' hs' => hbefore s' (by omega), range_append_all hall, ?_⟩
    rw [hst, ← range_append_all hall]
    rfl
termination_by n - 2 * s

end

/-! ## The result -/

/-- When the elements read first have more lines than there are of them, or a
long text: at most ten lines, or the size is neither 2 nor 8. Else a row has
room for two elements, and if all elements are printed no row has one alone. -/
def PrintsWell (print_data : ℕ → List UInt8) (n : ℕ) : Prop :=
  if lines print_data (read n 0) > (read n 0).length ∨ longest print_data (read n 0) > col_threshold then
    lines print_data (read n 0) ≤ row_threshold ∨ (n ≠ 2 ∧ n ≠ 8)
  else
    (Covered print_data n → RowsFilled (packing_cols / (longest print_data (List.range n) + 2)) n) ∧
      ∀ s, StopsAt print_data n s → 2 ≤ packing_cols / (longest print_data (read n s) + 2)

/-- For every size and all texts. -/
theorem summary_iff (print_data : ℕ → List UInt8) (dim_size : ℕ) :
    Summary dim_size (strided_array_summarized print_data dim_size) ↔ PrintsWell print_data dim_size := by
  obtain ⟨start, hstart⟩ : ∃ start, start = max (dim_size - trailing_count) (lead dim_size + 1) := ⟨_, rfl⟩
  have htrail : trail dim_size = dim_size - start := by rw [hstart]; rfl
  have htrailing : List.range' start (dim_size - start) = List.range' (dim_size - (trail dim_size + 0)) (trail dim_size + 0) := by
    rw [Nat.add_zero, ← htrail]
    rcases Nat.eq_zero_or_pos (trail dim_size) with hzero | hpos
    · rw [hzero]
      rfl
    · rw [show start = dim_size - trail dim_size by omega]
  have hread : List.range (lead dim_size) ++ List.range' start (dim_size - start) = read dim_size 0 := by
    rw [htrailing]
    rfl
  have hlength : (read dim_size 0).length = lead dim_size + trail dim_size := by
    rw [← hread, List.length_append, List.length_range, List.length_range', htrail]
  have hlead : lead dim_size ≤ dim_size := Nat.min_le_right _ _
  have hrun : strided_array_summarized print_data dim_size =
      if lines print_data (read dim_size 0) > (read dim_size 0).length ∨ longest print_data (read dim_size 0) > col_threshold then
        one_per_line dim_size
          (trimLoop print_data (lines print_data (read dim_size 0)) (List.range (lead dim_size))
            (List.range' start (dim_size - start))).1
          (trimLoop print_data (lines print_data (read dim_size 0)) (List.range (lead dim_size))
            (List.range' start (dim_size - start))).2
      else
        let packed := packLoop print_data (lead dim_size) (dim_size - (trail dim_size : ℕ) - 1)
          ⟨lines print_data (read dim_size 0), longest print_data (read dim_size 0)⟩ (List.range (lead dim_size))
          (List.range' start (dim_size - start))
        grid dim_size packed.1.max_num_cols packed.2.1 packed.2.2 := by
    unfold strided_array_summarized
    have hstart' : max (dim_size - trailing_count) (min leading_count dim_size + 1) = start := hstart.symm
    have hread' : List.range (min leading_count dim_size) ++ List.range' start (dim_size - start) = read dim_size 0 := hread
    dsimp only
    rw [hstart', hread', foldl_stats, zero_add, Nat.zero_max, List.length_range, List.length_range', ← htrail, hlength]
    rfl
  rw [hrun]
  unfold PrintsWell
  by_cases hlong : lines print_data (read dim_size 0) > (read dim_size 0).length ∨
      longest print_data (read dim_size 0) > col_threshold
  · rw [if_pos hlong, if_pos hlong]
    refine trimmed_summary_iff print_data _ (Nat.one_le_iff_ne_zero.mpr ?_) hstart
    rintro rfl
    rcases hlong with hrows | hcols
    · exact lt_irrefl (0 : ℤ) hrows
    · exact Nat.not_lt_zero _ hcols
  · rw [if_neg hlong, if_neg hlong, htrailing]
    dsimp only
    have hpacked := packLoop_spec 0 ⟨lines print_data (read dim_size 0), longest print_data (read dim_size 0)⟩
      (show lead dim_size + 0 + (trail dim_size + 0) ≤ dim_size by omega) rfl fun s' hs' => absurd hs' (Nat.not_lt_zero s')
    rcases hpacked with ⟨hcovered, hall, hcols⟩ | ⟨s, hstops, hleading, htrailing', hcols⟩
    · have hgrid := @grid_covered_iff dim_size (longest print_data (List.range dim_size)) _ _ hall
      rw [← hcols] at hgrid
      refine hgrid.trans ?_
      rw [hcols]
      exact ⟨fun h => ⟨fun _ => h, fun s hs => absurd hs.used_up (hcovered s hs.unread)⟩, fun h => h.1 hcovered⟩
    · have hfront : 2 ≤ lead dim_size + s := by
        have hunread := hstops.unread
        unfold lead leading_count at hunread ⊢
        omega
      have hgrid := @grid_partial_iff dim_size _ _ (longest print_data (read dim_size s)) hfront hstops.unread
      rw [← hcols, ← hleading, ← htrailing'] at hgrid
      refine hgrid.trans ?_
      rw [hcols]
      refine ⟨fun h => ⟨fun hcovered => absurd hstops.used_up (hcovered s hstops.unread), fun s' hs' => ?_⟩,
        fun h => h.2 s hstops⟩
      rcases Nat.lt_trichotomy s' s with hlt | rfl | hgt
      · exact absurd hs'.used_up (hstops.first s' hlt)
      · exact h
      · exact absurd hstops.used_up (hs'.first s hgt)

/-- Two elements of six lines each: the second follows the first at once. -/
theorem two_blocks : ¬ ∀ (print_data : ℕ → List UInt8) (dim_size : ℕ),
    Summary dim_size (strided_array_summarized print_data dim_size) := by
  intro h
  have hsummary := h (fun _ => [49, 10, 49, 10, 49, 10, 49, 10, 49, 10, 49]) 2
  have hrun : strided_array_summarized (fun _ => [49, 10, 49, 10, 49, 10, 49, 10, 49, 10, 49]) 2 =
      one_per_line 2 (List.range 1) (List.range' (2 - 1) 1) := by
    unfold strided_array_summarized
    rw [if_pos (by decide)]
    have htrim : trimLoop (fun _ => [49, 10, 49, 10, 49, 10, 49, 10, 49, 10, 49]) 12 (List.range (1 + 1)) [] =
        (List.range 1, [1]) := by
      rw [trimLoop_nil, if_pos ⟨by decide, le_rfl⟩, trimLoop_eq, if_neg]
      rintro ⟨-, h | h⟩ <;> exact absurd h (by decide)
    exact congrArg (fun x : List ℕ × List ℕ => one_per_line 2 x.1 x.2) htrim
  rw [hrun] at hsummary
  exact one_per_line_touching le_rfl le_rfl rfl hsummary

end Dynd.StridedSummary
