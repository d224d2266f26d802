import Mathlib.Tactic
/-!
# Fields laid out one after another

A field is put at the first multiple of its alignment that is past the field
before it. `Layout` says what an array of records needs of the offsets;
`layout_mod_iff` says when a layout computed modulo `M` is one: when the size
of the record is below `M`.
-/
namespace Dynd.Lib

/-- The first multiple of `a` from `n` on. -/
def alignUp (n a : ℕ) : ℕ := (n + a - 1) / a * a

section
variable {n m a M : ℕ}

theorem dvd_alignUp (n a : ℕ) : a ∣ alignUp n a := Nat.dvd_mul_left a _

theorem le_alignUp (ha : 0 < a) : n ≤ alignUp n a := by
  have hdiv := Nat.div_add_mod (n + a - 1) a
  have hlt := Nat.mod_lt (n + a - 1) ha
  unfold alignUp
  rw [Nat.mul_comm]
  omega

theorem alignUp_le (ha : 0 < a) (hm : a ∣ m) (h : n ≤ m) : alignUp n a ≤ m := by
  obtain ⟨k, rfl⟩ := hm
  unfold alignUp
  rw [Nat.mul_comm a k]
  apply Nat.mul_le_mul_right
  rw [← Nat.lt_succ_iff, Nat.div_lt_iff_lt_mul ha, Nat.succ_mul, Nat.mul_comm k a]
  omega

@[simp] theorem alignUp_zero (ha : 0 < a) : alignUp 0 a = 0 := Nat.le_zero.mp (alignUp_le ha (dvd_zero a) le_rfl)

/-- Rounding up commutes with reduction modulo a multiple of the alignment. -/
theorem alignUp_mod (ha : 0 < a) (hM : a ∣ M) (n : ℕ) : alignUp (n % M) a % M = alignUp n a % M := by
  obtain ⟨k, rfl⟩ := hM
  have hsplit : n + a - 1 = (n % (a * k) + a - 1) + a * (k * (n / (a * k))) := by
    have hdiv := Nat.mod_add_div n (a * k)
    rw [Nat.mul_assoc] at hdiv
    omega
  unfold alignUp
  rw [hsplit, Nat.add_mul_div_left _ _ ha, Nat.add_mul]
  conv_rhs => rw [show k * (n / (a * k)) * a = a * k * (n / (a * k)) by ring, Nat.add_mul_mod_self_left]

/-- If reduction leaves the rounded number past `n`, it did nothing. -/
theorem alignUp_lt_of_le_mod (ha : 0 < a) (hM : a ∣ M) (hpos : 0 < M) (h : n ≤ alignUp n a % M) : alignUp n a < M := by
  have hlt := Nat.mod_lt (alignUp n a) hpos
  have hle : alignUp n a ≤ M := alignUp_le ha hM (by omega)
  refine lt_of_le_of_ne hle fun heq => ?_
  rw [heq, Nat.mod_self] at h
  rw [Nat.le_zero.mp h, alignUp_zero ha] at heq
  omega

end

structure Field where
  size : ℕ
  alignment : ℕ

/-- Where the fields are put, from `start` on. -/
def place (start : ℕ) : List Field → List ℕ
  | [] => []
  | f :: fields => alignUp start f.alignment :: place (alignUp start f.alignment + f.size) fields

/-- The end of the last field. -/
def placed (start : ℕ) : List Field → ℕ
  | [] => start
  | f :: fields => placed (alignUp start f.alignment + f.size) fields

/-- Aligned offsets, fields one after another, all of them in a record whose
size is a multiple of its alignment. -/
structure Layout (fields : List Field) (offsets : List ℕ) (total alignment : ℕ) : Prop where
  length : offsets.length = fields.length
  aligned : ∀ i (hf : i < fields.length) (ho : i < offsets.length), fields[i].alignment ∣ offsets[i]
  ordered : ∀ i j (hf : i < fields.length) (ho : i < offsets.length) (hj : j < offsets.length), i < j →
    offsets[i] + fields[i].size ≤ offsets[j]
  inside : ∀ i (hf : i < fields.length) (ho : i < offsets.length), offsets[i] + fields[i].size ≤ total
  multiple : alignment ∣ total

/-- The same, field by field. -/
def Chain (total : ℕ) : ℕ → List Field → List ℕ → Prop
  | start, [], [] => start ≤ total
  | start, f :: fields, o :: offsets => start ≤ o ∧ f.alignment ∣ o ∧ Chain total (o + f.size) fields offsets
  | _, _, _ => False

section
variable {fields : List Field} {offsets : List ℕ} {start total alignment M : ℕ}

theorem Chain.start_le : ∀ {start : ℕ} {fields : List Field} {offsets : List ℕ}, Chain total start fields offsets → start ≤ total
  | _, [], [], h => h
  | start, f :: fields, o :: offsets, h => by
    have hrest := Chain.start_le h.2.2
    have hle := h.1
    omega

/-- Every field of a chain is past its start. -/
theorem Chain.spec : ∀ {start : ℕ} {fields : List Field} {offsets : List ℕ}, Chain total start fields offsets →
    offsets.length = fields.length ∧ (∀ i (hf : i < fields.length) (ho : i < offsets.length),
      start ≤ offsets[i] ∧ fields[i].alignment ∣ offsets[i] ∧ offsets[i] + fields[i].size ≤ total ∧
      ∀ j (hj : j < offsets.length), i < j → offsets[i] + fields[i].size ≤ offsets[j])
  | _, [], [], _ => ⟨rfl, fun i hf => absurd hf (Nat.not_lt_zero i)⟩
  | start, f :: fields, o :: offsets, h => by
    obtain ⟨hle, haligned, hrest⟩ := h
    obtain ⟨hlength, hspec⟩ := Chain.spec hrest
    refine ⟨congrArg Nat.succ hlength, fun i hf ho => ?_⟩
    cases i with
    | zero =>
      refine ⟨hle, haligned, hrest.start_le, fun j hj hlt => ?_⟩
      obtain ⟨j, rfl⟩ := Nat.exists_eq_succ_of_ne_zero hlt.ne'
      have hj' : j < offsets.length := Nat.lt_of_succ_lt_succ hj
      exact (hspec j (hlength ▸ hj') hj').1
    | succ i =>
      obtain ⟨hstart, hdvd, hinside, hordered⟩ := hspec i (Nat.lt_of_succ_lt_succ hf) (Nat.lt_of_succ_lt_succ ho)
      refine ⟨hle.trans ((Nat.le_add_right _ _).trans hstart), hdvd, hinside, fun j hj hlt => ?_⟩
      obtain ⟨j, rfl⟩ := Nat.exists_eq_succ_of_ne_zero (Nat.ne_zero_of_lt hlt)
      exact hordered j (Nat.lt_of_succ_lt_succ hj) (Nat.lt_of_succ_lt_succ hlt)

theorem Chain.layout (h : Chain total start fields offsets) (hm : alignment ∣ total) : Layout fields offsets total alignment where
  length := h.spec.1
  aligned i hf ho := (h.spec.2 i hf ho).2.1
  ordered i j hf ho hj := (h.spec.2 i hf ho).2.2.2 j hj
  inside i hf ho := (h.spec.2 i hf ho).2.2.1
  multiple := hm

/-- A layout is a chain from any place before its first field. -/
theorem Layout.chain : ∀ {start : ℕ} {fields : List Field} {offsets : List ℕ}, Layout fields offsets total alignment →
    start ≤ total → (∀ (ho : 0 < offsets.length), start ≤ offsets[0]) → Chain total start fields offsets
  | _, [], [], _, hle, _ => hle
  | start, f :: fields, o :: offsets, h, _, hstart => by
    refine ⟨hstart (Nat.succ_pos _), h.aligned 0 (Nat.succ_pos _) (Nat.succ_pos _), Layout.chain
      ⟨Nat.succ.inj h.length, fun i hf ho => ?_, fun i j hf ho hj hlt => ?_, fun i hf ho => ?_, h.multiple⟩ ?_ fun ho => ?_⟩
    · exact h.aligned (i + 1) (Nat.succ_lt_succ hf) (Nat.succ_lt_succ ho)
    · exact h.ordered (i + 1) (j + 1) (Nat.succ_lt_succ hf) (Nat.succ_lt_succ ho) (Nat.succ_lt_succ hj) (Nat.succ_lt_succ hlt)
    · exact h.inside (i + 1) (Nat.succ_lt_succ hf) (Nat.succ_lt_succ ho)
    · exact h.inside 0 (Nat.succ_pos _) (Nat.succ_pos _)
    · exact h.ordered 0 1 (Nat.succ_pos _) (Nat.succ_pos _) (Nat.succ_lt_succ ho) Nat.one_pos
  | _, [], _ :: _, h, _, _ => absurd h.length (Nat.succ_ne_zero _)
  | _, _ :: _, [], h, _, _ => absurd h.length.symm (Nat.succ_ne_zero _)

theorem le_placed : ∀ {start : ℕ} {fields : List Field}, (∀ f ∈ fields, 0 < f.alignment) → start ≤ placed start fields
  | _, [], _ => le_rfl
  | start, f :: fields, hpos => by
    have hrest := @le_placed (alignUp start f.alignment + f.size) fields fun g hg => hpos g (List.mem_cons_of_mem f hg)
    have hle := @le_alignUp start f.alignment (hpos f List.mem_cons_self)
    change start ≤ placed (alignUp start f.alignment + f.size) fields
    omega

/-- What is placed below `M` is placed the same modulo `M`. -/
theorem chain_place_mod : ∀ {start : ℕ} {fields : List Field}, (∀ f ∈ fields, 0 < f.alignment) → placed start fields ≤ total →
    total < M → Chain total start fields ((place start fields).map (· % M))
  | _, [], _, h, _ => h
  | start, f :: fields, hpos, h, hM => by
    have hrest : ∀ g ∈ fields, 0 < g.alignment := fun g hg => hpos g (List.mem_cons_of_mem f hg)
    have hend : alignUp start f.alignment + f.size ≤ total := (le_placed hrest).trans h
    have hsame : (fun n => n % M) (alignUp start f.alignment) = alignUp start f.alignment := Nat.mod_eq_of_lt (by omega)
    refine ⟨?_, ?_, ?_⟩
    · rw [hsame]
      exact le_alignUp (hpos f List.mem_cons_self)
    · rw [hsame]
      exact dvd_alignUp _ _
    · rw [hsame]
      exact chain_place_mod hrest h hM

/-- A chain modulo `M` has nothing that was reduced. -/
theorem placed_lt_of_chain_mod (hM : 0 < M) (ha : 0 < alignment) (hdvd : alignment ∣ M) :
    ∀ {start : ℕ} {fields : List Field}, (∀ f ∈ fields, 0 < f.alignment ∧ f.alignment ∣ M) →
    Chain (alignUp (placed start fields) alignment % M) start fields ((place start fields).map (· % M)) →
    alignUp (placed start fields) alignment < M
  | _, [], _, h => alignUp_lt_of_le_mod ha hdvd hM h
  | start, f :: fields, hf, h => by
    obtain ⟨hle, -, hrest⟩ := h
    have hfirst := alignUp_lt_of_le_mod (hf f List.mem_cons_self).1 (hf f List.mem_cons_self).2 hM hle
    have hsame : (fun n => n % M) (alignUp start f.alignment) = alignUp start f.alignment := Nat.mod_eq_of_lt hfirst
    rw [hsame] at hrest
    change alignUp (placed (alignUp start f.alignment + f.size) fields) alignment < M
    exact placed_lt_of_chain_mod hM ha hdvd (fun g hg => hf g (List.mem_cons_of_mem f hg)) hrest

/-- Offsets and size computed modulo `M` are a layout just when the size is
below `M`. -/
theorem layout_mod_iff (hM : 0 < M) (ha : 0 < alignment) (hdvd : alignment ∣ M)
    (hf : ∀ f ∈ fields, 0 < f.alignment ∧ f.alignment ∣ M) :
    Layout fields ((place 0 fields).map (· % M)) (alignUp (placed 0 fields) alignment % M) alignment ↔
      alignUp (placed 0 fields) alignment < M := by
  constructor
  · intro h
    exact placed_lt_of_chain_mod hM ha hdvd hf (h.chain (Nat.zero_le _) fun _ => Nat.zero_le _)
  · intro h
    rw [Nat.mod_eq_of_lt h]
    exact (chain_place_mod (fun f hmem => (hf f hmem).1) (le_alignUp ha) h).layout (dvd_alignUp _ _)

/-- Records one after another: every field of each is aligned, and ends before
every field of the next. -/
theorem Layout.consecutive (h : Layout fields offsets total alignment) (hdvd : ∀ f ∈ fields, f.alignment ∣ alignment)
    (k : ℕ) {i j : ℕ} (hi : i < fields.length) (ho : i < offsets.length) (hj : j < offsets.length) :
    fields[i].alignment ∣ k * total + offsets[i] ∧ k * total + offsets[i] + fields[i].size ≤ (k + 1) * total + offsets[j] := by
  constructor
  · have htotal : fields[i].alignment ∣ total := (hdvd _ (List.getElem_mem hi)).trans h.multiple
    exact Nat.dvd_add (htotal.mul_left k) (h.aligned i hi ho)
  · have hinside := h.inside i hi ho
    rw [Nat.succ_mul]
    omega

end

end Dynd.Lib
