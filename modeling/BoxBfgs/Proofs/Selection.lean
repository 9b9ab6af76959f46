import BoxBfgs.Proofs.Basic

namespace BoxBfgs.Vec

open Matrix

variable {n f : Nat}

/-- The columns of the unit matrix at the chosen places. -/
noncomputable def selection (places : Vector (Fin n) f) : Matrix (Fin n) (Fin f) ℝ :=
  Matrix.of fun i a => if places.get a = i then 1 else 0

@[simp] theorem get_gather {β : Type} (v : Vector β n) (places : Vector (Fin n) f) (a : Fin f) :
    (gather v places).get a = v.get (places.get a) := get_map v.get places a

theorem selection_transpose_mulVec (places : Vector (Fin n) f) (v : Fin n → ℝ) :
    (selection places)ᵀ *ᵥ v = fun a => v (places.get a) := by
  funext a
  simp [selection, mulVec, dotProduct]

theorem get_gather_eq (v : Vector ℝ n) (places : Vector (Fin n) f) :
    (gather v places).get = (selection places)ᵀ *ᵥ v.get := by
  funext a
  rw [selection_transpose_mulVec, get_gather]

theorem selection_transpose_mul {places : Vector (Fin n) f} (h : Function.Injective places.get) :
    (selection places)ᵀ * selection places = 1 := by
  ext a b
  simp only [selection, mul_apply, transpose_apply, of_apply, ite_mul, one_mul, zero_mul, Finset.sum_ite_eq,
    Finset.mem_univ, if_true, one_apply]
  exact if_congr (h.eq_iff.trans eq_comm) rfl rfl

theorem selection_mulVec_of_ne {places : Vector (Fin n) f} (v : Fin f → ℝ) {i : Fin n} (h : ∀ a, places.get a ≠ i) :
    (selection places *ᵥ v) i = 0 := by
  simp [selection, mulVec, dotProduct, h]

theorem selection_mulVec {places : Vector (Fin n) f} (h : Function.Injective places.get) (v : Fin f → ℝ) (a : Fin f) :
    (selection places *ᵥ v) (places.get a) = v a := by
  have hone : (selection places)ᵀ *ᵥ (selection places *ᵥ v) = v := by
    rw [mulVec_mulVec, selection_transpose_mul h, one_mulVec]
  rw [selection_transpose_mulVec] at hone
  exact congrFun hone a

theorem places_nodup (test : Fin n → Bool) : (places test).Nodup := (List.nodup_finRange n).filter _

theorem injective_of_nodup {β : Type} {v : Vector β n} (h : v.toList.Nodup) : Function.Injective v.get := by
  intro a b hab
  have hlt (i : Fin n) : i < v.toList.length := by simp
  have hget : v.toList.get ⟨a, hlt a⟩ = v.toList.get ⟨b, hlt b⟩ := by simpa [get_eq_getElem] using hab
  exact Fin.ext (Fin.mk.inj (List.nodup_iff_injective_get.mp h hget))

theorem ofList_injective {β : Type} {l : List β} (h : l.Nodup) : Function.Injective (ofList l).get :=
  injective_of_nodup h

theorem get_foldl_put {β : Type} (l : List (Fin n × β)) (v : Vector β n) (i : Fin n) (h : ∀ e ∈ l, e.1 ≠ i) :
    (l.foldl (fun u e => put u e.1 e.2) v).get i = v.get i := by
  induction l generalizing v with
  | nil => rfl
  | cons e l ih =>
      rw [List.foldl_cons, ih _ fun e he => h e (List.mem_cons_of_mem _ he), get_put,
        Function.update_of_ne (h e List.mem_cons_self).symm]

theorem get_foldl_put_mem {β : Type} (l : List (Fin n × β)) (hl : (l.map Prod.fst).Nodup) (v : Vector β n)
    {e : Fin n × β} (h : e ∈ l) : (l.foldl (fun u e => put u e.1 e.2) v).get e.1 = e.2 := by
  induction l generalizing v with
  | nil => cases h
  | cons d l ih =>
      obtain ⟨hd, hl⟩ := List.nodup_cons.mp hl
      rw [List.foldl_cons]
      rcases List.mem_cons.mp h with rfl | hmem
      · have hnone : ∀ e' ∈ l, e'.1 ≠ e.1 := fun e' he' heq => hd (List.mem_map.mpr ⟨e', he', heq⟩)
        rw [get_foldl_put _ _ _ hnone, get_put, Function.update_self]
      · exact ih hl _ hmem

theorem scatter_eq_foldl {β : Type} (v : Vector β n) (places : Vector (Fin n) f) (values : Vector β f) :
    scatter v places values =
      (List.ofFn fun a => (places.get a, values.get a)).foldl (fun u e => put u e.1 e.2) v := by
  have hzip : (places.zip values).toList = List.ofFn fun a => (places.get a, values.get a) := by
    refine List.ext_getElem (by simp) fun i h1 h2 => ?_
    simp [get_eq_getElem]
  rw [scatter, ← Vector.foldl_toList, hzip]

theorem get_scatter {β : Type} {places : Vector (Fin n) f} (h : Function.Injective places.get) (v : Vector β n)
    (values : Vector β f) (a : Fin f) : (scatter v places values).get (places.get a) = values.get a := by
  have hnodup : ((List.ofFn fun a => (places.get a, values.get a)).map Prod.fst).Nodup := by
    rw [List.map_ofFn]
    exact List.nodup_ofFn.mpr h
  rw [scatter_eq_foldl]
  exact get_foldl_put_mem _ hnodup v (List.mem_ofFn.mpr ⟨a, rfl⟩)

theorem get_scatter_of_ne {β : Type} {places : Vector (Fin n) f} (v : Vector β n) (values : Vector β f) {i : Fin n}
    (h : ∀ a, places.get a ≠ i) : (scatter v places values).get i = v.get i := by
  rw [scatter_eq_foldl]
  refine get_foldl_put _ v i fun e he heq => ?_
  obtain ⟨a, rfl⟩ := List.mem_ofFn.mp he
  exact h a heq

end BoxBfgs.Vec
