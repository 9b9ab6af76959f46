import BoxBfgs.Proofs.Cauchy.Consistent

namespace BoxBfgs.Cauchy

open Matrix Topology

variable {n : Nat} {b : Box ℝ n} {m : Memory ℝ n} {x g : Vector ℝ n} {p : CauchyPoint ℝ n m.size} {t τ : ℝ}

/-- The model along the path. -/
noncomputable def profile (b : Box ℝ n) (m : Memory ℝ n) (x g : Vector ℝ n) (t : ℝ) : ℝ :=
  m.model g.get ((b.path x g t).get - x.get)

section

variable {s : Setting ℝ n} {w : Walk ℝ n s.memory.size} {rest : List (ℝ × Fin n)}

/-- Up to the next breakpoint the model along the path is quadratic. -/
theorem profile_eq (hm : s.memory.Sound) (hx : s.box.Inside s.x) (hp : OnPath s rest w) (h : Follows s rest w)
    (hτ : w.t ≤ τ) (hle : ∀ e ∈ rest, τ ≤ e.1) : profile s.box s.memory s.x s.g τ =
      s.memory.model s.g.get (displacement s w w.t) + (τ - w.t) * slope s w + (τ - w.t) ^ 2 / 2 * curvature s w := by
  have hmoved : (s.box.path s.x s.g τ).get - s.x.get = displacement s w w.t + (τ - w.t) • w.d.get := by
    rw [← h.position_eq hx hp hτ hle, ← displacement_add, add_sub_cancel]
    rfl
  rw [profile, hmoved, hm.model_add_smul]
  rfl

/-- The model falls up to where its minimum is expected, as its derivatives are at most those of the walk. -/
theorem profile_strictAntiOn_segment (hm : s.memory.Sound) (hx : s.box.Inside s.x) (hp : OnPath s rest w)
    (h : Follows s rest w) (hgo : t - w.t ≤ -w.f1 / w.f2) (hle : ∀ e ∈ rest, t ≤ e.1) :
    StrictAntiOn (profile s.box s.memory s.x s.g) (Set.Icc w.t t) := by
  intro u hu v hv huv
  rw [profile_eq hm hx hp h hu.1 fun e he => hu.2.trans (hle e he),
    profile_eq hm hx hp h hv.1 fun e he => hv.2.trans (hle e he)]
  have hlength : 0 < v - u := sub_pos.mpr huv
  have hmiddle : 0 ≤ (u - w.t + (v - w.t)) / 2 := by linarith [hu.1, hv.1]
  have hbefore : (u - w.t + (v - w.t)) / 2 < -w.f1 / w.f2 := by linarith [hv.2]
  -- The chord has the slope of the middle, which lies before the expected minimum.
  have hslope : slope s w + (u - w.t + (v - w.t)) / 2 * curvature s w < 0 := by
    have h1 : slope s w ≤ w.f1 := hp.f1_ge
    have h2 : _ * curvature s w ≤ _ * w.f2 := mul_le_mul_of_nonneg_left hp.f2_ge hmiddle
    have h3 := (lt_div_iff₀ hp.f2_pos).mp hbefore
    linarith
  have hfall := mul_neg_of_pos_of_neg hlength hslope
  linarith

theorem strictAntiOn_Icc_trans {f : ℝ → ℝ} {a c d : ℝ} (hac : a ≤ c) (hcd : c ≤ d) (h : StrictAntiOn f (Set.Icc a c))
    (h' : StrictAntiOn f (Set.Icc c d)) : StrictAntiOn f (Set.Icc a d) := by
  rw [← Set.Icc_union_Icc_eq_Icc hac hcd]
  exact h.union h' (isGreatest_Icc hac) (isLeast_Icc hcd)

theorem profile_strictAntiOn_rise (hm : s.memory.Sound) (hx : s.box.Inside s.x) (hp : OnPath s rest w)
    (h : Follows s rest w) (hstop : ∀ e ∈ rest, -w.f1 / w.f2 < e.1 - w.t) :
    StrictAntiOn (profile s.box s.memory s.x s.g) (Set.Icc w.t (w.t + rise s w)) := by
  rcases le_total 0 (-w.f1 / w.f2) with hpos | hneg
  · refine profile_strictAntiOn_segment hm hx hp h ?_ (hp.rise_le hstop)
    rw [hp.rise_eq, max_eq_left hpos, add_sub_cancel_left]
  · rw [hp.rise_eq, max_eq_right hneg, add_zero, Set.Icc_self]
    exact Set.subsingleton_singleton.strictAntiOn _

end

theorem point_strictAntiOn (hm : m.Sound) (hx : b.Inside x) (h : point b m x g = .ok p) :
    StrictAntiOn (profile b m x g) (Set.Icc 0 p.t) := by
  have hstart : StrictAntiOn (profile b m x g) (Set.Icc 0 0) := by
    rw [Set.Icc_self]
    exact Set.subsingleton_singleton.strictAntiOn _
  by_cases hne : ((b.legs x g).map Leg.speed).get = 0
  · rw [point_of_speeds_eq_zero hne] at h
    cases h
    exact hstart
  · obtain ⟨rest, w, hp, hf, hfalls, hstop, rfl⟩ := point_invariant
      (J := fun _ w => StrictAntiOn (profile b m x g) (Set.Icc 0 w.t)) hm hx hne h hstart
      fun hp hf hgo _ hfalls => strictAntiOn_Icc_trans hp.time_nonneg (hp.time_le _ List.mem_cons_self) hfalls
        (profile_strictAntiOn_segment hm hx hp hf hgo hp.head_le)
    rw [finish_eq]
    exact strictAntiOn_Icc_trans hp.time_nonneg (le_add_of_nonneg_right rise_nonneg) hfalls
      (profile_strictAntiOn_rise hm hx hp hf hstop)

/-- A function that falls up to some time has no local minimum before. -/
theorem le_of_isLocalMinOn {f : ℝ → ℝ} (h : StrictAntiOn f (Set.Icc 0 t)) (hτ : 0 ≤ τ)
    (hmin : IsLocalMinOn f (Set.Ici 0) τ) : t ≤ τ := by
  by_contra hlt
  rw [not_le] at hlt
  have hsub : Set.Ioi τ ⊆ Set.Ici 0 := fun y hy => hτ.trans hy.le
  obtain ⟨y, hle, hy⟩ := ((hmin.filter_mono (nhdsWithin_mono τ hsub)).and (Ioc_mem_nhdsGT hlt)).exists
  exact (h ⟨hτ, hlt.le⟩ ⟨hτ.trans hy.1.le, hy.2⟩ hy.1).not_ge hle

/-- The search never goes beyond the first local minimum of the model along the path, and falls all the way there. -/
theorem point_descends (hm : m.Reachable) (hx : b.Inside x) (h : point b m x g = .ok p) :
    0 ≤ p.t ∧ StrictAntiOn (profile b m x g) (Set.Icc 0 p.t) ∧
      (∀ τ, 0 ≤ τ → IsLocalMinOn (profile b m x g) (Set.Ici 0) τ → p.t ≤ τ) ∧
      ((∀ τ, 0 ≤ τ → b.path x g τ = x) ∨ m.model g.get (p.x.get - x.get) < m.model g.get 0) := by
  have hfalls := point_strictAntiOn hm.sound hx h
  refine ⟨(point_reached hm.sound hx h).time_nonneg, hfalls, fun τ hτ hmin => le_of_isLocalMinOn hfalls hτ hmin, ?_⟩
  by_cases hne : ((b.legs x g).map Leg.speed).get = 0
  · exact .inl fun τ hτ => path_of_speeds_eq_zero hx hne hτ
  · rw [Memory.model_zero]
    exact .inr (point_lower_of_speeds hm.sound hx hne h).model_neg

theorem point_descends_tie : ∃ p, tieMemory.Reachable ∧ tieBox.Inside tieStart ∧
    point tieBox tieMemory tieStart tieGradient = .ok p ∧
    StrictAntiOn (profile tieBox tieMemory tieStart tieGradient) (Set.Icc 0 p.t) ∧
    tieMemory.model tieGradient.get (p.x.get - tieStart.get) < tieMemory.model tieGradient.get 0 := by
  obtain ⟨p, hp⟩ := exists_point (b := tieBox) tie_memory.solves tieStart tieGradient
  obtain ⟨-, hfalls, -, hlt⟩ := point_descends tie_memory.reachable tie_inside hp
  refine ⟨p, tie_memory.reachable, tie_inside, hp, hfalls, hlt.resolve_left fun hstays => ?_⟩
  have hlast := congrArg (fun v => v.get 2) (hstays 1 zero_le_one)
  rw [Box.get_path] at hlast
  simp [tieBox, tieStart, tieGradient, Vec.get_eq_getElem, Limit.clamp, Limit.raise, Limit.lower] at hlast

end BoxBfgs.Cauchy
