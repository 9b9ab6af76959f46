import BoxBfgs.Proofs.Cauchy.Path

namespace BoxBfgs

/-- What keeps a place between two limits from being improved to first order: there is no slope, or a limit stands in its
way. Where the limits coincide any slope will do. -/
structure Stationary (l u : Limit ℝ) (x g : ℝ) : Prop where
  inside : l ≠ .fin x → u ≠ .fin x → g = 0
  lower : l = .fin x → u ≠ .fin x → 0 ≤ g
  upper : l ≠ .fin x → u = .fin x → g ≤ 0

namespace Leg

variable {l u : Limit ℝ} {x g τ : ℝ} {leg : Leg ℝ}

/-- For how much of a time a coordinate moves; one that never stops, for all of it. -/
noncomputable def moved (leg : Leg ℝ) (τ : ℝ) : ℝ :=
  match leg.stop with
  | .negInf => 0
  | .fin t => min τ t
  | .posInf => τ

/-- Before its stop and after it a coordinate is where its speed has brought it. -/
theorem Course.clamp_eq (hx : Limit.Between l u x) (h : Course l u x g leg) (hτ : 0 ≤ τ) :
    Limit.clamp l u (x - τ * g) = x + leg.moved τ * leg.speed := by
  cases h with
  | still hclamp => rw [hclamp τ hτ, mul_zero, add_zero]
  | away hg haway =>
      rw [sub_eq_add_neg, ← mul_neg]
      exact Limit.clamp_of_between (haway τ hτ)
  | @bound t ht hg hlimit hbetween =>
      have hcourse : Course l u x g ⟨.fin t, -g⟩ := .bound ht hg hlimit hbetween
      change _ = x + min τ t * -g
      rcases le_total τ t with hle | hge
      · rw [min_eq_left hle, sub_eq_add_neg, ← mul_neg, Limit.clamp_of_between (hx.along hbetween hτ hle)]
      · rw [min_eq_right hge]
        exact Limit.fin.inj ((hcourse.clamp_of_ge ht rfl hge).symm.trans hlimit)

theorem Course.speed_eq_zero_iff (hx : Limit.Between l u x) (h : Course l u x g leg) :
    leg.speed = 0 ↔ Limit.clamp l u (x - g) = x := by
  have hclamp := h.clamp_eq hx zero_le_one
  rw [one_mul] at hclamp
  rw [hclamp, add_eq_left, mul_eq_zero]
  refine ⟨.inr, fun hzero => hzero.elim (fun hmoved => ?_) id⟩
  cases h with
  | still => rfl
  | away => exact absurd hmoved one_ne_zero
  | bound ht => exact absurd hmoved (lt_min one_pos ht).ne'

/-- A coordinate stands still just where the first-order conditions hold. -/
theorem speed_eq_zero_iff_stationary (hx : Limit.Between l u x) : (of x g l u).speed = 0 ↔ Stationary l u x g := by
  have hl : l.atMost x = true ↔ l = .fin x :=
    ⟨Limit.eq_fin_of_atLeast_of_atMost hx.1, fun h => by rw [h, Limit.atMost_fin]⟩
  have hu : u.atLeast x = true ↔ u = .fin x :=
    ⟨fun h => Limit.eq_fin_of_atLeast_of_atMost h hx.2, fun h => by rw [h, Limit.atLeast_fin]⟩
  have hblocked : ((l.atMost x && -g ≤ 0) || (u.atLeast x && -g ≥ 0)) = true ↔
      l = .fin x ∧ 0 ≤ g ∨ u = .fin x ∧ g ≤ 0 := by
    simp [hl, hu]
  have hspeed : (of x g l u).speed = 0 ↔ (l = .fin x ∧ 0 ≤ g ∨ u = .fin x ∧ g ≤ 0) ∨ g = 0 := by
    by_cases hb : ((l.atMost x && -g ≤ 0) || (u.atLeast x && -g ≥ 0)) = true
    · rw [of_blocked hb]
      exact iff_of_true rfl (.inl (hblocked.mp hb))
    · rw [speed_of_not_blocked hb, neg_eq_zero, ← hblocked]
      exact (or_iff_right hb).symm
  rw [hspeed]
  constructor
  · rintro ((⟨hlow, hg⟩ | ⟨hup, hg⟩) | rfl)
    · exact ⟨fun h _ => absurd hlow h, fun _ _ => hg, fun h _ => absurd hlow h⟩
    · exact ⟨fun _ h => absurd hup h, fun _ h => absurd hup h, fun _ _ => hg⟩
    · exact ⟨fun _ _ => rfl, fun _ _ => le_rfl, fun _ _ => le_rfl⟩
  · intro h
    by_cases hlow : l = .fin x <;> by_cases hup : u = .fin x
    · exact .inl ((le_total 0 g).imp (And.intro hlow) (And.intro hup))
    · exact .inl (.inl ⟨hlow, h.lower hlow hup⟩)
    · exact .inl (.inr ⟨hup, h.upper hlow hup⟩)
    · exact .inr (h.inside hlow hup)

end Leg

namespace Box

variable {n : Nat} {b : Box ℝ n} {x : Vector ℝ n}

/-- The legs tell the path down the gradient at every time. There are none to go just where the projected gradient vanishes,
which is where the first-order conditions hold in each coordinate. -/
theorem legs_exact (hx : b.Inside x) (g : Vector ℝ n) :
    (∀ i τ, 0 ≤ τ → (b.path x g τ).get i = x.get i + ((b.legs x g).get i).moved τ * ((b.legs x g).get i).speed) ∧
      (((b.legs x g).map Leg.speed).get = 0 ↔ (b.projectedGradient x g).get = 0) ∧
      ((b.projectedGradient x g).get = 0 ↔
        ∀ i, Stationary (b.lower.get i) (b.upper.get i) (x.get i) (g.get i)) := by
  have hspeed (i : Fin n) : ((b.legs x g).get i).speed = 0 ↔ (b.projectedGradient x g).get i = 0 := by
    rw [get_projectedGradient, sub_eq_zero]
    exact (Cauchy.legs_course hx i).speed_eq_zero_iff (hx i)
  refine ⟨fun i τ hτ => ?_, ?_, ?_⟩
  · rw [get_path]
    exact (Cauchy.legs_course hx i).clamp_eq (hx i) hτ
  · simp only [funext_iff, Vec.get_map, Pi.zero_apply, hspeed]
  · rw [funext_iff]
    refine forall_congr' fun i => (hspeed i).symm.trans ?_
    rw [legs, Vec.get_ofFn]
    exact Leg.speed_eq_zero_iff_stationary (hx i)

/-- A coordinate without limits, one between its limits, one at its lower limit, one at its upper limit, and one whose limits
coincide. -/
def edgeBox : Box ℝ 5 :=
  ⟨#v[.negInf, .fin (-1), .fin 0, .negInf, .fin 1], #v[.posInf, .fin 1, .posInf, .fin 1, .fin 1]⟩

def edgePoint : Vector ℝ 5 := #v[0, 0, 0, 1, 1]

theorem edge_inside : edgeBox.Inside edgePoint := by
  intro i
  fin_cases i <;> simp [edgeBox, edgePoint, Limit.Between, Vec.get_eq_getElem]

theorem edge_legs : edgeBox.legs edgePoint #v[3, 1, 1, 1, 1] =
    #v[⟨.posInf, -3⟩, ⟨.fin 1, -1⟩, ⟨.fin 0, 0⟩, ⟨.posInf, -1⟩, ⟨.fin 0, 0⟩] := by
  refine Vec.ext_get (funext fun i => ?_)
  rw [legs, Vec.get_ofFn]
  fin_cases i <;> simp [edgeBox, edgePoint, Leg.of, Limit.finite?, Vec.get_eq_getElem] <;> norm_num

theorem legs_exact_edges : edgeBox.Inside edgePoint ∧
    (∀ τ, 0 ≤ τ → (edgeBox.path edgePoint #v[3, 1, 1, 1, 1] τ).get = ![-3 * τ, -min τ 1, 0, 1 - τ, 1]) ∧
    (∀ i, Stationary (edgeBox.lower.get i) (edgeBox.upper.get i) (edgePoint.get i)
      ((#v[0, 0, 7, -7, 7] : Vector ℝ 5).get i)) ∧
    (edgeBox.projectedGradient edgePoint #v[0, 0, 7, -7, 7]).get = 0 ∧
    ((edgeBox.legs edgePoint #v[0, 0, 7, -7, 7]).map Leg.speed).get = 0 := by
  have hrest : ∀ i, Stationary (edgeBox.lower.get i) (edgeBox.upper.get i) (edgePoint.get i)
      ((#v[0, 0, 7, -7, 7] : Vector ℝ 5).get i) := by
    intro i
    fin_cases i <;> constructor <;> simp [edgeBox, edgePoint, Vec.get_eq_getElem]
  obtain ⟨hpath, -, -⟩ := legs_exact edge_inside #v[3, 1, 1, 1, 1]
  obtain ⟨-, hspeeds, hstationary⟩ := legs_exact edge_inside #v[0, 0, 7, -7, 7]
  refine ⟨edge_inside, fun τ hτ => funext fun i => ?_, hrest, hstationary.mpr hrest, hspeeds.mpr (hstationary.mpr hrest)⟩
  rw [hpath i τ hτ, edge_legs]
  fin_cases i <;> simp [edgePoint, Leg.moved, Vec.get_eq_getElem] <;> ring

end Box

end BoxBfgs
