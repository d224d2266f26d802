import Dynd.Multidispatch
/-!
# When sorting throws

`sort_arrfuncs` gives an arrangement along the edges between different positions
of the list, or throws, and it throws only if these edges have a cycle.
-/
namespace Dynd.Multidispatch
open Lib

section
variable {E F : Type} {naf : ℕ} {af : Fin naf → arrfunc E F} {adjlist : Fin naf → List (Fin naf)}

/-- Without cycles no visit comes to a node that a visit is going on at: from there an edge leads to it. -/
theorem toposort_visit_acyclic (hacyclic : ∀ n, ¬ Relation.TransGen (fun i j => j ∈ adjlist i) n n)
    {temp : Finset (Fin naf)} {n : Fin naf} (htemp : ∀ t ∈ temp, Relation.TransGen (fun i j => j ∈ adjlist i) t n)
    (s : toposort_state E F naf) : ∃ s', toposort_visit af adjlist temp n s = .ok s' := by
  generalize hk : naf - temp.card = k
  induction k using Nat.strong_induction_on generalizing temp n s with
  | _ k ih =>
    rw [toposort_visit]
    split_ifs with hn hmark
    · exact absurd (htemp n hn) (hacyclic n)
    · exact ⟨s, rfl⟩
    · have hvisit : ∀ it ∈ adjlist n, ∀ s, ∃ s', toposort_visit af adjlist (insert n temp) it s = .ok s' := by
        intro it hit s
        apply ih _ (hk ▸ visit_decreases hn) _ s rfl
        intro t ht
        rcases Finset.mem_insert.1 ht with rfl | ht
        · exact .single hit
        · exact (htemp t ht).tail hit
      obtain ⟨s₁, hs₁⟩ := foldlM_ok hvisit s
      rw [hs₁, ok_bind]
      exact ⟨_, rfl⟩

theorem toposort_acyclic (hacyclic : ∀ n, ¬ Relation.TransGen (fun i j => j ∈ adjlist i) n n) :
    ∃ sorted_af, toposort af adjlist = .ok sorted_af := by
  have hvisit : ∀ n ∈ List.finRange naf, ∀ s : toposort_state E F naf,
      ∃ s', (if s.mark n then .ok s else toposort_visit af adjlist ∅ n s) = .ok s' := by
    intro n _ s
    split_ifs
    · exact ⟨s, rfl⟩
    · exact toposort_visit_acyclic hacyclic (by simp) s
  obtain ⟨s, hs⟩ := foldlM_ok hvisit ⟨fun _ => false, []⟩
  rw [toposort, hs]
  exact ⟨_, rfl⟩

end

section
variable {E V F : Type} [DecidableEq E] [base_type E V] {naf : ℕ}

/-- The edges that `get_graph` asks for. -/
def PositionEdge (af : Fin naf → arrfunc E F) (i j : Fin naf) : Prop := i ≠ j ∧ toposort_edge (af i) (af j) = true

/-- Positions of the list that edges lead back to. Two positions with edges both ways are a cycle. -/
def Cyclic (af : Fin naf → arrfunc E F) : Prop := ∃ i, Relation.TransGen (PositionEdge af) i i

variable {af : Fin naf → arrfunc E F}

theorem get_graph_acyclic (h : ¬ Cyclic af) :
    ∃ adjlist, get_graph af = .ok adjlist ∧ ∀ n, ¬ Relation.TransGen (fun i j => j ∈ adjlist i) n n := by
  have hnone : same_signature af = none := by
    rw [same_signature, List.find?_eq_none]
    rintro ⟨i, j⟩ - hedges
    simp only [Bool.and_eq_true, decide_eq_true_eq] at hedges
    have hij : PositionEdge af i j := ⟨hedges.1.1, hedges.1.2⟩
    have hji : PositionEdge af j i := ⟨Ne.symm hedges.1.1, hedges.2⟩
    exact h ⟨i, .tail (.single hij) hji⟩
  have hgraph : ∃ adjlist, get_graph af = .ok adjlist := by
    rw [get_graph, hnone]
    exact ⟨_, rfl⟩
  obtain ⟨adjlist, hgraph⟩ := hgraph
  refine ⟨adjlist, hgraph, fun n hcycle => h ⟨n, ?_⟩⟩
  exact Relation.TransGen.mono (fun i j hj => ((get_graph_ok hgraph).2 i j).1 hj) _ _ hcycle

/-- A sorted list is one of the positions, along the edges. -/
theorem sort_arrfuncs_positions {T : List (arrfunc E F)} (h : sort_arrfuncs af = .ok T) :
    ∃ positions : List (Fin naf), positions.Perm (List.finRange naf) ∧ T = positions.map af ∧
      Topological (PositionEdge af) positions := by
  obtain ⟨adjlist, hgraph, hsort⟩ := bind_eq_ok.1 h
  obtain ⟨-, hadj⟩ := get_graph_ok hgraph
  obtain ⟨out, hperm, rfl, hordered⟩ := toposort_spec hsort
  refine ⟨out.reverse, (List.reverse_perm out).trans hperm, (List.map_reverse ..).symm, ?_⟩
  rw [Topological, List.pairwise_reverse]
  exact hordered.imp fun {i j} hij hedge => hij ((hadj i j).2 hedge)

/-- Sorting throws exactly if the edges have a cycle. Otherwise it permutes the list, and an arrfunc
with an edge to another one comes before it. -/
theorem sort_arrfuncs_spec (af : Fin naf → arrfunc E F) :
    ((∃ e, sort_arrfuncs af = .error e) ↔ Cyclic af) ∧
    ∀ T, sort_arrfuncs af = .ok T → ∃ positions : List (Fin naf), positions.Perm (List.finRange naf) ∧
      T = positions.map af ∧
      ∀ i j, i ≠ j → toposort_edge (af i) (af j) = true → positions.idxOf i < positions.idxOf j := by
  constructor
  · constructor
    · rintro ⟨e, he⟩
      by_contra hcyclic
      obtain ⟨adjlist, hgraph, hacyclic⟩ := get_graph_acyclic hcyclic
      obtain ⟨T, hT⟩ := @toposort_acyclic E F naf af adjlist hacyclic
      rw [sort_arrfuncs, hgraph, ok_bind, hT] at he
      cases he
    · rintro ⟨i, hcycle⟩
      cases hsort : sort_arrfuncs af with
      | error e => exact ⟨e, rfl⟩
      | ok T =>
        obtain ⟨positions, hperm, -, htopological⟩ := sort_arrfuncs_positions hsort
        exact absurd hcycle
          (htopological.acyclic (fun n => hperm.mem_iff.2 (List.mem_finRange n)) (fun n hn => hn.1 rfl) i)
  · intro T hT
    obtain ⟨positions, hperm, rfl, htopological⟩ := sort_arrfuncs_positions hT
    refine ⟨positions, hperm, rfl, fun i j hij hedge => ?_⟩
    exact htopological.idxOf_lt (hperm.mem_iff.2 (List.mem_finRange i)) (hperm.mem_iff.2 (List.mem_finRange j)) hij
      ⟨hij, hedge⟩

end

/-! ## Any relation -/

/-- Types of one kind, of which one matches another where `r` says so. -/
@[reducible] def matching_types {naf : ℕ} (r : Fin naf → Fin naf → Bool) : base_type (Fin naf) Unit where
  get_kind _ := .dim_kind
  get_data_size _ := 0
  get_ndim _ := 1
  get_dtype _ := .builtin .void
  is_symbolic _ := true
  match_type tp candidate_tp _ :=
    match candidate_tp with
    | .builtin _ => (false, ())
    | .extended candidate => (r tp candidate, ())
  no_typevars := ()

/-- Any relation between different positions is the outcome of `toposort_edge` on some arrfuncs. -/
theorem toposort_edge_any {naf : ℕ} (r : Fin naf → Fin naf → Bool) (i j : Fin naf) (hij : i ≠ j) :
    letI := matching_types r
    toposort_edge (⟨⟨[.extended i], [], .builtin .void⟩, ()⟩ : arrfunc (Fin naf) Unit)
      ⟨⟨[.extended j], [], .builtin .void⟩, ()⟩ = r i j := by
  let := matching_types r
  have hvoid : dtype_converts (.builtin .void : type (Fin naf)) (.builtin .void) = true := if_pos rfl
  have hconverts : converts (.extended i : type (Fin naf)) (.extended j) = (r i j && true) := by
    have hne : ¬ (.extended i : type (Fin naf)) = .extended j := by simpa using hij
    rw [converts, can_implicitly_convert, if_neg hne, ← hvoid]
    rfl
  rw [toposort_edge, each_position, if_neg (by simp [arrfunc.get_nkwd]), if_pos (by simp [arrfunc.get_npos])]
  simp only [List.zip_cons_cons, List.zip_nil_right, List.all_cons, List.all_nil, hconverts]
  simp [type.get_kind, base_type.get_kind]

end Dynd.Multidispatch
