import BoxBfgs.Proofs.Cauchy.Descent

namespace BoxBfgs

open Matrix

variable {n : Nat} (σ : Equiv.Perm (Fin n))

def Vec.renumber {β : Type} (σ : Equiv.Perm (Fin n)) (v : Vector β n) : Vector β n := .ofFn (v.get ∘ σ)

theorem Vec.get_renumber {β : Type} (v : Vector β n) : (Vec.renumber σ v).get = v.get ∘ σ := Vec.get_ofFn_eq _

namespace Box

variable (b : Box ℝ n)

def renumber : Box ℝ n := ⟨Vec.renumber σ b.lower, Vec.renumber σ b.upper⟩

theorem renumber_inside {x : Vector ℝ n} (hx : b.Inside x) : (b.renumber σ).Inside (Vec.renumber σ x) := by
  intro i
  rw [renumber, Vec.get_renumber, Vec.get_renumber, Vec.get_renumber]
  exact hx (σ i)

theorem path_renumber (x g : Vector ℝ n) (t : ℝ) :
    (b.renumber σ).path (Vec.renumber σ x) (Vec.renumber σ g) t = Vec.renumber σ (b.path x g t) := by
  refine Vec.ext_get (funext fun i => ?_)
  rw [get_path, Vec.get_renumber, Vec.get_renumber, Vec.get_renumber, Function.comp_apply, Function.comp_apply,
    Function.comp_apply, get_path, renumber, Vec.get_renumber, Vec.get_renumber]
  rfl

end Box

theorem mulVec_renumber (B : Matrix (Fin n) (Fin n) ℝ) (v : Fin n → ℝ) :
    B.submatrix σ σ *ᵥ (v ∘ σ) = (B *ᵥ v) ∘ σ := by
  rw [submatrix_mulVec_equiv, Function.comp_assoc, Equiv.self_comp_symm, Function.comp_id]

namespace Pair

def renumber (p : Pair ℝ n) : Pair ℝ n := ⟨Vec.renumber σ p.s, Vec.renumber σ p.y⟩

theorem update_renumber (p : Pair ℝ n) (B : Matrix (Fin n) (Fin n) ℝ) :
    (p.renumber σ).update (B.submatrix σ σ) = (p.update B).submatrix σ σ := by
  rw [update, update, renumber, Vec.get_renumber, Vec.get_renumber, mulVec_renumber, comp_equiv_dotProduct_comp_equiv,
    comp_equiv_dotProduct_comp_equiv]
  rfl

theorem UnitStep.renumber {p : Pair ℝ n} {c : ℝ} (h : p.UnitStep c) : (p.renumber σ).UnitStep c where
  step := by rw [Pair.renumber, Vec.get_renumber, comp_equiv_dotProduct_comp_equiv, h.step]
  curvature := by
    rw [Pair.renumber, Pair.curvature, Vec.get_renumber, Vec.get_renumber, comp_equiv_dotProduct_comp_equiv]
    exact h.curvature
  change := by rw [Pair.renumber, Vec.get_renumber, comp_equiv_dotProduct_comp_equiv, h.change]
  one_le := h.one_le
  le := h.le

end Pair

theorem bfgs_renumber (theta : ℝ) (pairs : List (Pair ℝ n)) :
    bfgs theta (pairs.map (Pair.renumber σ)) = (bfgs theta pairs).submatrix σ σ := by
  induction pairs using List.reverseRecOn with
  | nil =>
      change theta • 1 = theta • (1 : Matrix (Fin n) (Fin n) ℝ).submatrix σ σ
      rw [submatrix_one_equiv]
  | append_singleton pairs p ih => rw [List.map_append, List.map_singleton, bfgs_append, bfgs_append, ih, p.update_renumber]

namespace Memory

variable {σ} {m m' : Memory ℝ n}

theorem scaling_renumber (pairs : List (Pair ℝ n)) : scaling (pairs.map (Pair.renumber σ)) = scaling pairs := by
  rw [scaling, scaling, List.getLast?_map]
  cases pairs.getLast? with
  | none => rfl
  | some p =>
      simp only [Option.map_some, Pair.renumber, Vec.get_renumber, comp_equiv_dotProduct_comp_equiv]

/-- The model of the renumbered pairs is the renumbered model. -/
theorem model_renumber (hm : m.Sound) (hm' : m'.Sound) (hpairs : m'.pairs = m.pairs.map (Pair.renumber σ)) (g z : Fin n → ℝ) :
    m'.model (g ∘ σ) (z ∘ σ) = m.model g z := by
  have htheta : m'.theta = m.theta := by rw [hm'.theta, hm.theta, hpairs, scaling_renumber]
  rw [model, model, hessian, hpairs, htheta, bfgs_renumber, mulVec_renumber, comp_equiv_dotProduct_comp_equiv,
    comp_equiv_dotProduct_comp_equiv]
  rfl

end Memory

namespace Cauchy

variable {σ} {b : Box ℝ n} {m m' : Memory ℝ n}

theorem profile_renumber (hm : m.Sound) (hm' : m'.Sound) (hpairs : m'.pairs = m.pairs.map (Pair.renumber σ))
    (x g : Vector ℝ n) :
    profile (b.renumber σ) m' (Vec.renumber σ x) (Vec.renumber σ g) = profile b m x g := by
  funext t
  rw [profile, Box.path_renumber, Vec.get_renumber, Vec.get_renumber, Vec.get_renumber]
  exact Memory.model_renumber hm hm' hpairs g.get ((b.path x g t).get - x.get)

end Cauchy

end BoxBfgs
